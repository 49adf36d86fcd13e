import NdimonR.Library.JsonSize
import NdimonR.Library.JsonText

/-! The size of a value is the length of its compact text, in whatever order its members stand. -/

namespace NdimonR

namespace Text

@[simp] theorem len_append (s t : String) : len (s ++ t) = len s + len t :=
  String.utf8ByteSize_append

/-- Between the items of a list stands one separator less than there are items. -/
theorem len_intercalate (sep : String) (l : List String) :
    len (String.intercalate sep l) = (l.map len).sum + (l.length - 1) * len sep := by
  cases l with
  | nil => simp [len]
  | cons s rest =>
    induction rest generalizing s with
    | nil => simp
    | cons t rest ih =>
      rw [String.intercalate_cons_cons, len_append, len_append, ih t]
      simp only [List.map_cons, List.sum_cons, List.length_cons, Nat.add_sub_cancel, Nat.succ_mul]
      omega

end Text

namespace Json

open Text

/-! ### Strings -/

def escapeSize (c : Char) : Nat :=
  if c ∈ ['"', '\\', '\n', '\r', '\t', '\x08', '\x0c'] then 2
  else if c.toNat < 32 then 6
  else c.utf8Size

theorem hexDigit_size (n : Nat) : (hexDigit n).utf8Size = 1 := by
  have hsmall : ∀ c ∈ "0123456789abcdef".toList, c.utf8Size = 1 := by
    intro c hc
    have hall : ("0123456789abcdef".toList.all fun c => c.utf8Size == 1) = true := rfl
    exact eq_of_beq (List.all_eq_true.mp hall c hc)
  exact hsmall _ (hexDigit_mem n)

theorem escape_size (c : Char) : ((escape c).map Char.utf8Size).sum = escapeSize c := by
  unfold escape escapeSize
  simp only [List.mem_cons, List.not_mem_nil, or_false]
  split_ifs with h1 h2 h3 h4 h5 h6 h7 hcontrol <;> simp_all [hexDigit_size] <;> decide

theorem stringSize_eq (s : String) : stringSize s = 2 + (s.toList.map escapeSize).sum := by
  have h : ∀ (l : List Char) (n : Nat), l.foldl (fun n c =>
      if c ∈ ['"', '\\', '\n', '\r', '\t', '\x08', '\x0c'] then n + 2
      else if c.toNat < 32 then n + 6
      else n + c.utf8Size) n = n + (l.map escapeSize).sum := by
    intro l
    induction l with
    | nil => simp
    | cons c rest ih =>
      intro n
      rw [List.foldl_cons, ih, List.map_cons, List.sum_cons, escapeSize]
      split_ifs <;> omega
  exact h s.toList 2

theorem len_quote (s : String) : len (quote s) = stringSize s := by
  have hescaped : ((s.toList.flatMap escape).map Char.utf8Size).sum =
      (s.toList.map escapeSize).sum := by
    induction s.toList with
    | nil => rfl
    | cons c rest ih =>
      rw [List.flatMap_cons, List.map_append, List.sum_append, ih, escape_size, List.map_cons,
        List.sum_cons]
  rw [stringSize_eq, len_eq_sum, toList_quote, List.map_cons, List.sum_cons, List.map_append,
    List.sum_append, hescaped]
  change 1 + (_ + 1) = _
  omega

/-! ### Values -/

section
variable (floatText : ℚ → String)

mutual
theorem len_render : (j : Json) → len (j.render floatText) = j.size fun q => len (floatText q)
  | .null => rfl
  | .bool true => rfl
  | .bool false => rfl
  | .int _ => rfl
  | .float _ => rfl
  | .str s => len_quote s
  | .arr items => by
    rw [render, len_append, len_append, len_intercalate, size, (len_renderItems items).1,
      (len_renderItems items).2]
    change 1 + (_ + _ * 1) + 1 = _
    omega
  | .obj members => by
    rw [render, len_append, len_append, len_intercalate, size, (len_renderMembers members).1,
      (len_renderMembers members).2]
    change 1 + (_ + _ * 1) + 1 = _
    omega

theorem len_renderItems : (l : List Json) →
    ((renderItems floatText l).map len).sum = sizeItems (fun q => len (floatText q)) l ∧
      (renderItems floatText l).length = l.length
  | [] => ⟨rfl, rfl⟩
  | x :: rest => by
    obtain ⟨hsum, hlength⟩ := len_renderItems rest
    rw [renderItems, List.map_cons, List.sum_cons, sizeItems, len_render x, hsum, List.length_cons,
      hlength]
    exact ⟨rfl, rfl⟩

theorem len_renderMembers : (l : List (String × Json)) →
    ((renderMembers floatText l).map len).sum = sizeMembers (fun q => len (floatText q)) l ∧
      (renderMembers floatText l).length = l.length
  | [] => ⟨rfl, rfl⟩
  | (k, x) :: rest => by
    obtain ⟨hsum, hlength⟩ := len_renderMembers rest
    rw [renderMembers, List.map_cons, List.sum_cons, sizeMembers, len_append, len_append, len_quote,
      len_render x, hsum, List.length_cons, hlength]
    exact ⟨rfl, rfl⟩
end

end

section
variable (floatLen : ℚ → Nat)

theorem sizeItems_eq (l : List Json) : sizeItems floatLen l = (l.map (size floatLen)).sum := by
  induction l with
  | nil => rfl
  | cons x rest ih => rw [sizeItems, ih, List.map_cons, List.sum_cons]

/-- The order of the members moves no byte. -/
theorem size_perm {a b : List (String × Json)} (h : a.Perm b) :
    size floatLen (.obj a) = size floatLen (.obj b) := by
  have hsum := (h.map (memberSize floatLen)).sum_eq
  have ha := sizeMembers_add_length floatLen a
  have hb := sizeMembers_add_length floatLen b
  have hlength := h.length_eq
  rw [size, size]
  omega

end

end Json

end NdimonR
