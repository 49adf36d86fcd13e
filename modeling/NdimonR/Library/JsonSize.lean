import NdimonR.Library.Encoding
import Mathlib.Algebra.Order.BigOperators.Group.List

/-! Upper bounds on the compact text of a value. The members of an object are charged one by one,
in the order they were written: sorting them moves no byte, and a replaced member only saves. -/

namespace NdimonR

namespace Text

theorem chars_le_len (s : String) : chars s ≤ len s := by
  rw [len_eq_sum, chars]
  have h := List.card_nsmul_le_sum (s.toList.map Char.utf8Size) 1 (by
    intro n hn
    obtain ⟨c, -, rfl⟩ := List.mem_map.mp hn
    exact c.utf8Size_pos)
  simpa using h

theorem len_le_chars (s : String) : len s ≤ 4 * chars s := by
  rw [len_eq_sum, chars]
  have h := List.sum_le_card_nsmul (s.toList.map Char.utf8Size) 4 (by
    intro n hn
    obtain ⟨c, -, rfl⟩ := List.mem_map.mp hn
    exact c.utf8Size_le_four)
  simpa [Nat.mul_comm] using h

end Text

namespace Json

universe u

variable {α : Type u} (floatLen : ℚ → Nat)

/-! ### Scalars -/

/-- A character is written as itself or as an escape of at most six bytes. -/
theorem stringSize_le (s : String) : stringSize s ≤ 2 + 6 * Text.chars s := by
  have h : ∀ (l : List Char) (n : Nat), l.foldl (fun n c =>
      if c ∈ ['"', '\\', '\n', '\r', '\t', '\x08', '\x0c'] then n + 2
      else if c.toNat < 32 then n + 6
      else n + c.utf8Size) n ≤ n + 6 * l.length := by
    intro l
    induction l with
    | nil => simp
    | cons c rest ih =>
      intro n
      have hc := c.utf8Size_le_four
      rw [List.foldl_cons, List.length_cons]
      apply le_trans (ih _)
      split
      · omega
      · split <;> omega
  exact h s.toList 2

/-- Without control characters only quotes and backslashes are escaped. -/
theorem stringSize_le_len {s : String} (hs : Text.any Text.isControl s = false) :
    stringSize s ≤ 2 + 2 * Text.len s := by
  have h : ∀ (l : List Char) (n : Nat), (∀ c ∈ l, Text.isControl c = false) →
      l.foldl (fun n c =>
        if c ∈ ['"', '\\', '\n', '\r', '\t', '\x08', '\x0c'] then n + 2
        else if c.toNat < 32 then n + 6
        else n + c.utf8Size) n ≤ n + 2 * (l.map Char.utf8Size).sum := by
    intro l
    induction l with
    | nil => simp
    | cons c rest ih =>
      intro n hl
      have hc : ¬c.toNat < 32 := by
        have := hl c (by simp)
        simp only [Text.isControl, Bool.or_eq_false_iff, decide_eq_false_iff_not] at this
        exact this.1
      have hpos := c.utf8Size_pos
      rw [List.foldl_cons, List.map_cons, List.sum_cons]
      apply le_trans (ih _ fun d hd => hl d (by simp [hd]))
      rw [if_neg hc]
      split <;> omega
  rw [Text.len_eq_sum]
  apply h s.toList 2
  intro c hc
  simpa using List.any_eq_false.mp hs c hc

theorem size_str (s : String) : (Value.str s).val.size floatLen = stringSize s := by
  simp [Value.str, size]

theorem size_null : Value.null.val.size floatLen = 4 := by
  simp [Value.null, size]

/-- A number below `10 ^ k` has at most `k` digits. -/
theorem size_nat_le {n k : Nat} (hk : 0 < k) (h : n < 10 ^ k) :
    (Value.nat n).val.size floatLen ≤ 4 * k := by
  have hlen : (toString (Int.ofNat n)).length ≤ k := (Nat.length_repr_le_iff hk).mpr h
  have hbytes := Text.len_le_chars (toString (Int.ofNat n))
  rw [Text.chars, String.length_toList] at hbytes
  change Json.size floatLen (.int (Int.ofNat n)) ≤ 4 * k
  rw [size]
  omega

/-! ### Lists -/

theorem size_ofItems_le (enc : α → Value) {l : List α} {k : Nat}
    (h : ∀ a ∈ l, (enc a).val.size floatLen ≤ k) :
    (ofItems enc l).val.size floatLen ≤ 2 + l.length * (k + 1) := by
  have hitems : sizeItems floatLen (l.map fun a => (enc a).val) ≤ l.length * k := by
    induction l with
    | nil => simp [sizeItems]
    | cons a rest ih =>
      have ha := h a (by simp)
      have hr := ih fun b hb => h b (by simp [hb])
      rw [List.map_cons, sizeItems, List.length_cons, Nat.succ_mul]
      omega
  change Json.size floatLen (.arr (l.map fun a => (enc a).val)) ≤ _
  rw [size, List.length_map, Nat.mul_add, Nat.mul_one]
  omega

/-! ### Objects -/

/-- What a member adds to the text of an object, a comma included. -/
def memberSize (e : String × Json) : Nat := stringSize e.1 + 2 + e.2.size floatLen

theorem sizeMembers_add_length (members : List (String × Json)) :
    sizeMembers floatLen members + members.length = (members.map (memberSize floatLen)).sum := by
  induction members with
  | nil => rfl
  | cons e rest ih =>
    rw [sizeMembers, List.length_cons, List.map_cons, List.sum_cons, ← ih, memberSize]
    omega

theorem insertEntry_size_le (k : String) (x : Json) (members : List (String × Json)) :
    ((SortedMap.insertEntry k x members).map (memberSize floatLen)).sum ≤
      memberSize floatLen (k, x) + (members.map (memberSize floatLen)).sum := by
  induction members with
  | nil => simp [SortedMap.insertEntry]
  | cons e rest ih =>
    obtain ⟨j, y⟩ := e
    rw [SortedMap.insertEntry]
    split
    · simp
    · split
      · simp only [List.map_cons, List.sum_cons]
        omega
      · simp only [List.map_cons, List.sum_cons]
        omega

theorem ofList_size_le (members : List (String × Json)) :
    ((SortedMap.ofList members).entries.map (memberSize floatLen)).sum ≤
      (members.map (memberSize floatLen)).sum := by
  have h : ∀ (l : List (String × Json)) (m : SortedMap String Json),
      ((l.foldl (fun m e => m.insert e.1 e.2) m).entries.map (memberSize floatLen)).sum ≤
        (l.map (memberSize floatLen)).sum + (m.entries.map (memberSize floatLen)).sum := by
    intro l
    induction l with
    | nil => simp
    | cons e rest ih =>
      intro m
      obtain ⟨k, x⟩ := e
      have he := insertEntry_size_le floatLen k x m.entries
      rw [List.foldl_cons, List.map_cons, List.sum_cons]
      apply le_trans (ih _)
      change _ + ((SortedMap.insertEntry k x m.entries).map (memberSize floatLen)).sum ≤ _
      omega
  simpa [SortedMap.ofList, SortedMap.empty] using h members .empty

/-- An object whose names take at most `k` bytes each. -/
theorem size_object_le (fields : List (String × Value)) {k : Nat}
    (hk : ∀ name ∈ fields.map Prod.fst, stringSize name ≤ k) :
    (Value.object fields).val.size floatLen ≤
      2 + fields.length * (k + 2) + (fields.map fun f => f.2.val.size floatLen).sum := by
  have hsize := ofList_size_le floatLen (fields.map fun f => (f.1, f.2.val))
  have hsum := sizeMembers_add_length floatLen
    (SortedMap.ofList (fields.map fun f => (f.1, f.2.val))).entries
  have hmembers : (fields.map (memberSize floatLen ∘ fun f => (f.1, f.2.val))).sum ≤
      fields.length * (k + 2) + (fields.map fun f => f.2.val.size floatLen).sum := by
    clear hsize hsum
    induction fields with
    | nil => simp
    | cons f rest ih =>
      have hname := hk f.1 (by simp)
      have hr := ih fun name hn => hk name (by simp [hn])
      rw [List.map_cons, List.sum_cons, List.length_cons, Nat.succ_mul, List.map_cons,
        List.sum_cons]
      change stringSize f.1 + 2 + f.2.val.size floatLen + _ ≤ _
      omega
  rw [List.map_map] at hsize
  change Json.size floatLen (.obj (SortedMap.ofList (fields.map fun f => (f.1, f.2.val))).entries)
    ≤ _
  rw [size]
  omega

/-- A member that is left out costs nothing. -/
theorem size_record_le (fields : Fields α) {k : Nat}
    (hk : ∀ name ∈ fields.map Prod.fst, stringSize name ≤ k) (a : α) :
    (record fields a).val.size floatLen ≤
      2 + fields.length * (k + 2) +
        (fields.map fun f => (f.2 a).elim 0 fun x => x.val.size floatLen).sum := by
  have hsize := size_object_le floatLen _ (k := k)
    fun name hn => hk name ((keys_filterMap_sublist fields a).subset hn)
  have hlength := (List.length_filterMap_le (fun f : String × (α → Option Value) =>
    (f.2 a).map fun j => (f.1, j)) fields)
  have hcost := Nat.mul_le_mul_right (k + 2) hlength
  have hsum : ((fields.filterMap fun f => (f.2 a).map fun j => (f.1, j)).map fun f =>
      f.2.val.size floatLen).sum =
        (fields.map fun f => (f.2 a).elim 0 fun x => x.val.size floatLen).sum := by
    clear hk hsize hlength hcost
    induction fields with
    | nil => rfl
    | cons f rest ih => cases hf : f.2 a <;> simp [hf, ih]
  change (Value.object _).val.size floatLen ≤ _
  omega

end Json

end NdimonR
