import NdimonR.Library.JsonRead

/-! Reading what is written: the compact text of a value is one of its texts. -/

namespace NdimonR.Json

open Text Scan Reader

mutual
/-- How many arrays and objects stand in one another. -/
def depth : Json → Nat
  | .arr items => depthItems items + 1
  | .obj members => depthMembers members + 1
  | _ => 0

def depthItems : List Json → Nat
  | [] => 0
  | x :: rest => max x.depth (depthItems rest)

def depthMembers : List (String × Json) → Nat
  | [] => 0
  | (_, x) :: rest => max x.depth (depthMembers rest)
end

mutual
/-- The members of every object in key order. -/
def sorted : Json → Json
  | .arr items => .arr (sortedItems items)
  | .obj members => ofMembers (sortedMembers members)
  | x => x

def sortedItems : List Json → List Json
  | [] => []
  | x :: rest => x.sorted :: sortedItems rest

def sortedMembers : List (String × Json) → List (String × Json)
  | [] => []
  | (k, x) :: rest => (k, x.sorted) :: sortedMembers rest
end

section
variable (float : List Char → Option ℚ) (floatText : ℚ → String)

mutual
/-- Integers have 64 bits and the text of each float reads as that float. -/
def Readable : Json → Prop
  | .int n => -9223372036854775808 ≤ n ∧ n < 18446744073709551616
  | .float q => Bare float (floatText q).toList (.float q)
  | .arr items => ReadableItems items
  | .obj members => ReadableMembers members
  | _ => True

def ReadableItems : List Json → Prop
  | [] => True
  | x :: rest => x.Readable ∧ ReadableItems rest

def ReadableMembers : List (String × Json) → Prop
  | [] => True
  | (_, x) :: rest => x.Readable ∧ ReadableMembers rest
end

variable {float floatText}

theorem isBare_of_digit {c : Char} (h : isAsciiDigit c = true) : isBare c = true := by
  simp [isBare, isAsciiAlphanumeric, h]

theorem isWhole_toString (n : Nat) : isWhole (toString n).toList = true := by
  have hne : (toString n).toList ≠ [] := fun he => toString_ne_empty n (String.toList_inj.mp he)
  have hdigits : (toString n).toList.all isAsciiDigit = true := digits_toString n
  have hzero : (toString n).toList.head? ≠ some '0' ∨ (toString n).toList.length = 1 := by
    rcases Nat.eq_zero_or_pos n with rfl | hpos
    · exact .inr rfl
    · exact .inl (head_toString hpos)
  simp only [isWhole, hdigits, Bool.and_true, Bool.and_eq_true, Bool.or_eq_true, decide_eq_true_eq]
  exact ⟨hne, hzero⟩

theorem toString_ofNat (n : Nat) : (toString (n : Int)).toList = (toString n).toList := rfl

theorem toString_negSucc (n : Nat) :
    (toString (Int.negSucc n)).toList = '-' :: (toString (n + 1)).toList := by
  change ("-" ++ toString (n + 1)).toList = _
  simp

/-- A whole number is a number. -/
theorem isNumber_of_whole {l : List Char} (h : isWhole (unsigned l) = true) :
    isNumber l = true := by
  have hdigits : ∀ c ∈ unsigned l, isAsciiDigit c = true := by
    simp only [isWhole, Bool.and_eq_true] at h
    exact List.all_eq_true.mp h.1.2
  rw [isNumber, List.takeWhile_eq_self_iff.mpr hdigits, List.dropWhile_eq_nil_iff.mpr hdigits, h]
  rfl

theorem bare_of_integer {n : Int} (hwhole : isWhole (unsigned t) = true) (hn : integer t = some n) :
    Bare float t (.int n) := by
  have hnumber := isNumber_of_whole hwhole
  have hne : ∀ w : String, isNumber w.toList = false → t ≠ w.toList := by
    intro w hw he
    rw [he, hw] at hnumber
    cases hnumber
  simp only [isWhole, Bool.and_eq_true, decide_eq_true_eq] at hwhole
  obtain ⟨⟨hnil, hdigits⟩, -⟩ := hwhole
  have hbare : ∀ c ∈ unsigned t, isBare c = true := fun c hc =>
    isBare_of_digit (List.all_eq_true.mp hdigits c hc)
  refine ⟨?_, ?_, ?_⟩
  · intro he
    rw [he] at hnil
    exact hnil rfl
  · intro c hc
    unfold unsigned at hbare
    split at hbare
    · rcases List.mem_cons.mp hc with rfl | hc
      · rfl
      · exact hbare c hc
    · exact hbare c hc
  · rw [literal, if_neg (hne "null" (by decide)), if_neg (hne "true" (by decide)),
      if_neg (hne "false" (by decide)), if_pos hnumber, hn]

theorem bare_toString {n : Int} (hlow : -9223372036854775808 ≤ n)
    (hhigh : n < 18446744073709551616) : Bare float (toString n).toList (.int n) := by
  cases n with
  | ofNat m =>
    have hplain : ∀ rest, (toString m).toList ≠ '-' :: rest := by
      intro rest he
      have hdigit := List.all_eq_true.mp (digits_toString m) '-' (by rw [he]; simp)
      cases hdigit
    have hm : m < 18446744073709551616 := by
      simp only [Int.ofNat_eq_natCast] at hhigh
      omega
    rw [Int.ofNat_eq_natCast, toString_ofNat]
    refine bare_of_integer ?_ ?_
    · rw [unsigned]
      · exact isWhole_toString m
      · exact hplain
    · rw [integer]
      · rw [decimal_toString, if_pos ⟨isWhole_toString m, hm⟩]
      · exact hplain
  | negSucc m =>
    have hm : m + 1 ≤ 9223372036854775808 := by
      rw [Int.negSucc_eq] at hlow
      omega
    have hzero : (toString (m + 1)).toList ≠ ['0'] := by
      intro he
      exact head_toString (Nat.succ_pos m) (by rw [he]; rfl)
    rw [toString_negSucc]
    refine bare_of_integer (isWhole_toString (m + 1)) ?_
    rw [integer, decimal_toString, if_pos ⟨isWhole_toString (m + 1), hzero, hm⟩, Int.negSucc_eq]
    rfl

theorem member_render {P : List Char → Json → Prop} {k text : String} {x : Json}
    (h : P text.toList x) : MemberText P (quote k ++ ":" ++ text).toList (k, x) := by
  refine ⟨⟨(quote k).toList, [], [], text.toList, ?_, quoted_quote k, nofun, nofun, h⟩⟩
  simp

theorem Simple.written {d : Nat} (h : Simple float t x) : Written float d t x := by
  cases d with
  | zero => exact h
  | succ d => exact .inl h

theorem bare_word {w : String} (hw : w.toList ≠ []) (hbare : w.toList.all isBare = true)
    (h : literal float w.toList = some x) {d : Nat} : Written float d w.toList x :=
  Simple.written (.inr ⟨hw, List.all_eq_true.mp hbare, h⟩)

mutual
theorem written_render (x : Json) {d : Nat} (hx : x.Readable float floatText) (hd : x.depth ≤ d) :
    Written float d (x.render floatText).toList x.sorted := by
  cases x with
  | null => exact bare_word (w := "null") (by decide) rfl rfl
  | bool b =>
    cases b with
    | true => exact bare_word (w := "true") (by decide) rfl rfl
    | false => exact bare_word (w := "false") (by decide) rfl rfl
  | int n => exact Simple.written (.inr (bare_toString hx.1 hx.2))
  | float q => exact Simple.written (.inr hx)
  | str s => exact Simple.written (.inl ⟨s, quoted_quote s, rfl⟩)
  | arr xs =>
    simp only [depth] at hd
    obtain ⟨d, rfl⟩ : ∃ e, d = e + 1 := ⟨d - 1, by omega⟩
    have hitems := written_renderItems xs (d := d) hx (by omega)
    refine .inr (.inl ⟨_, _, ?_, between_intercalate blanks_nil blanks_nil hitems, rfl⟩)
    simp [render, String.toList_intercalate]
  | obj ms =>
    simp only [depth] at hd
    obtain ⟨d, rfl⟩ : ∃ e, d = e + 1 := ⟨d - 1, by omega⟩
    have hmembers := written_renderMembers ms (d := d) hx (by omega)
    refine .inr (.inr ⟨_, _, ?_, between_intercalate blanks_nil blanks_nil hmembers, rfl⟩)
    simp [render, String.toList_intercalate]

theorem written_renderItems (xs : List Json) {d : Nat} (hxs : ReadableItems float floatText xs)
    (hd : depthItems xs ≤ d) : List.Forall₂ (Written float d)
      ((renderItems floatText xs).map String.toList) (sortedItems xs) := by
  cases xs with
  | nil => exact .nil
  | cons x xs =>
    simp only [depthItems] at hd
    exact .cons (written_render x hxs.1 (by omega)) (written_renderItems xs hxs.2 (by omega))

theorem written_renderMembers (ms : List (String × Json)) {d : Nat}
    (hms : ReadableMembers float floatText ms) (hd : depthMembers ms ≤ d) :
    List.Forall₂ (MemberText (Written float d))
      ((renderMembers floatText ms).map String.toList) (sortedMembers ms) := by
  cases ms with
  | nil => exact .nil
  | cons e ms =>
    obtain ⟨k, x⟩ := e
    simp only [depthMembers] at hd
    exact .cons (member_render (written_render x hms.1 (by omega)))
      (written_renderMembers ms hms.2 (by omega))
end

end

end NdimonR.Json
