import NdimonR.Library.Text

/-! Debian version order, as the plugin pages and the installer compare versions. -/

namespace NdimonR.Plugins

open Text

def isDigit (b : UInt8) : Bool := decide (48 ≤ b ∧ b ≤ 57)

def isLetter (b : UInt8) : Bool := decide (65 ≤ b ∧ b ≤ 90 ∨ 97 ≤ b ∧ b ≤ 122)

def number (a b : List UInt8) : Ordering :=
  let a := a.dropWhile (· == 48)
  let b := b.dropWhile (· == 48)
  (compare a.length b.length).then (compare a b)

theorem length_dropWhile (l : List UInt8) : (l.dropWhile isDigit).length ≤ l.length :=
  (List.dropWhile_sublist isDigit).length_le

theorem length_dropWhile_cons {c : UInt8} (hc : isDigit c = true) (l : List UInt8) :
    ((c :: l).dropWhile isDigit).length < (c :: l).length := by
  have := length_dropWhile l
  rw [List.dropWhile_cons_of_pos hc, List.length_cons]
  omega

/-- The weight of a byte outside a number: `~` stands before the end of the text. -/
def order : Option UInt8 → Int
  | none => 0
  | some c => if c = 126 then -1 else if isDigit c then 0 else if isLetter c then c.toNat
    else c.toNat + 256

/-- The loop over bytes outside numbers and the number that follows them, one round at a time. -/
def part (a b : List UInt8) : Ordering :=
  if a = [] ∧ b = [] then .eq
  else if a.head?.any (!isDigit ·) || b.head?.any (!isDigit ·) then
    (compare (order a.head?) (order b.head?)).then (part a.tail b.tail)
  else
    (number (a.takeWhile isDigit) (b.takeWhile isDigit)).then
      (part (a.dropWhile isDigit) (b.dropWhile isDigit))
termination_by a.length + b.length
decreasing_by
  · cases a <;> cases b
    all_goals simp_all
    omega
  · rename_i hsome hdigit
    have ha := length_dropWhile a
    have hb := length_dropWhile b
    cases a with
    | nil =>
      cases b with
      | nil => exact absurd ⟨rfl, rfl⟩ hsome
      | cons d b =>
        have := length_dropWhile_cons (c := d) (by simpa using hdigit) b
        omega
    | cons c a =>
      have hc : isDigit c = true := by
        simp only [List.head?_cons, Option.any_some, Bool.or_eq_true, not_or] at hdigit
        simpa using hdigit.1
      have := length_dropWhile_cons hc a
      omega

/-- The epoch, and the version without it. -/
def epoch (v : String) : String × String := (splitOnce ":" v).getD ("0", v)

/-- The upstream version and the revision. -/
def revision (v : String) : String × String := (rsplitOnce '-' v).getD (v, "0")

def compareVersions (a b : String) : Ordering :=
  let (ae, a) := epoch a
  let (be, b) := epoch b
  let (av, ar) := revision a
  let (bv, br) := revision b
  (number (bytes ae) (bytes be)).then
    ((part (bytes av) (bytes bv)).then (part (bytes ar) (bytes br)))

/-- The number of `~` of a text. -/
def tildes (l : List UInt8) : Nat := l.count 126

theorem tildes_bytes {s : String} (h : ∀ c ∈ s.toList, c.toNat < 128) :
    tildes (bytes s) = s.toList.count '~' := by
  have hcount : ∀ l : List Char, (∀ c ∈ l, c.toNat < 128) →
      (l.map fun c => UInt8.ofNat c.toNat).count 126 = l.count '~' := by
    intro l hl
    induction l with
    | nil => rfl
    | cons c l ih =>
      have hc := hl c (by simp)
      have htilde : UInt8.ofNat c.toNat = 126 ↔ c = '~' := by
        constructor
        · intro h
          have hn := congrArg UInt8.toNat h
          simp only [UInt8.toNat_ofNat', UInt8.reduceToNat] at hn
          apply Char.toNat_inj.mp
          have : '~'.toNat = 126 := rfl
          omega
        · rintro rfl
          rfl
      rw [List.map_cons, List.count_cons, List.count_cons, ih fun d hd => hl d (by simp [hd])]
      simp only [beq_iff_eq, htilde]
  rw [tildes, bytes_ascii h, hcount _ h]

theorem tildes_eq_of_number {a b : List UInt8} (h : number a b = .eq) : tildes a = tildes b := by
  have hdrop : ∀ l : List UInt8, tildes (l.dropWhile (· == 48)) = tildes l := by
    intro l
    induction l with
    | nil => rfl
    | cons c l ih =>
      by_cases hc : c = 48
      · subst hc
        simpa [tildes] using ih
      · simp [hc]
  obtain ⟨-, heq⟩ := Ordering.then_eq_eq.mp h
  rw [← hdrop a, ← hdrop b, Std.LawfulEqOrd.eq_of_compare heq]

theorem order_eq_tilde {c : Option UInt8} : order c = -1 ↔ c = some 126 := by
  cases c with
  | none => simp [order]
  | some c =>
    simp only [order, Option.some.injEq]
    split
    · simp_all
    · split
      · simp_all
      · split
        all_goals simp_all
        all_goals omega

/-- Texts of equal rank have equally many `~`: nothing else has the weight of one. -/
theorem tildes_eq_of_part {a b : List UInt8} (h : part a b = .eq) : tildes a = tildes b := by
  induction a, b using part.induct with
  | case1 a b hnil => obtain ⟨rfl, rfl⟩ := hnil; rfl
  | case2 a b hnil hhead ih =>
    rw [part, if_neg hnil, if_pos hhead] at h
    obtain ⟨hord, htail⟩ := Ordering.then_eq_eq.mp h
    have hord := Std.LawfulEqOrd.eq_of_compare hord
    have hsame : a.head? = some 126 ↔ b.head? = some 126 := by
      rw [← order_eq_tilde, ← order_eq_tilde, hord]
    have hrest := ih htail
    have hcount : ∀ l : List UInt8, tildes l =
        tildes l.tail + if l.head? = some 126 then 1 else 0 := by
      intro l
      cases l with
      | nil => rfl
      | cons c l => simp [tildes, List.count_cons]
    rw [hcount a, hcount b, hrest]
    simp only [hsame]
  | case3 a b hnil hhead ih =>
    rw [part, if_neg hnil, if_neg hhead] at h
    obtain ⟨hnum, hrest⟩ := Ordering.then_eq_eq.mp h
    have hsplit : ∀ l : List UInt8,
        tildes l = tildes (l.takeWhile isDigit) + tildes (l.dropWhile isDigit) := by
      intro l
      rw [tildes, tildes, tildes, ← List.count_append, List.takeWhile_append_dropWhile]
    rw [hsplit a, hsplit b, tildes_eq_of_number hnum, ih hrest]

theorem tildes_epoch (v : String) :
    tildes (bytes v) = tildes (bytes (epoch v).1) + tildes (bytes (epoch v).2) := by
  unfold epoch
  cases h : splitOnce ":" v with
  | none =>
    have hzero : tildes (bytes "0") = 0 := rfl
    simp [hzero]
  | some pair =>
    obtain ⟨⟨a, b⟩, hcut, rfl⟩ := Option.map_eq_some_iff.mp h
    have hv := append_of_cut hcut
    have hcolon : List.count 126 (":".toList.flatMap String.utf8EncodeChar) = 0 := rfl
    simp only [tildes, bytes, hv, Option.getD_some, String.toList_ofList, List.flatMap_append,
      List.count_append]
    omega

theorem tildes_revision (v : String) :
    tildes (bytes v) = tildes (bytes (revision v).1) + tildes (bytes (revision v).2) := by
  unfold revision
  cases h : rsplitOnce '-' v with
  | none =>
    have hzero : tildes (bytes "0") = 0 := rfl
    simp [hzero]
  | some pair =>
    obtain ⟨⟨a, b⟩, hcut, rfl⟩ := Option.map_eq_some_iff.mp h
    have hv := congrArg List.reverse (append_of_cut hcut)
    rw [List.reverse_reverse] at hv
    have hdash : List.count 126 (['-'].reverse.flatMap String.utf8EncodeChar) = 0 := rfl
    simp only [tildes, bytes, hv, Option.getD_some, String.toList_ofList, List.flatMap_append,
      List.count_append, List.reverse_append]
    omega

/-- Versions that rank equal have equally many `~`. -/
theorem tildes_eq_of_compareVersions {a b : String} (h : compareVersions a b = .eq) :
    tildes (bytes a) = tildes (bytes b) := by
  have hparts : (number (bytes (epoch a).1) (bytes (epoch b).1)).then
      ((part (bytes (revision (epoch a).2).1) (bytes (revision (epoch b).2).1)).then
        (part (bytes (revision (epoch a).2).2) (bytes (revision (epoch b).2).2))) = .eq := h
  simp only [Ordering.then_eq_eq] at hparts
  obtain ⟨hepoch, hversion, hrevision⟩ := hparts
  rw [tildes_epoch a, tildes_epoch b, tildes_revision (epoch a).2, tildes_revision (epoch b).2,
    tildes_eq_of_number hepoch, tildes_eq_of_part hversion, tildes_eq_of_part hrevision]

theorem number_self (l : List UInt8) : number l l = .eq := by
  simp [number]

theorem part_self (l : List UInt8) : part l l = .eq := by
  induction h : l.length using Nat.strong_induction_on generalizing l with
  | _ n ih =>
    subst h
    cases l with
    | nil => simp [part]
    | cons c l =>
      rw [part, if_neg (by simp)]
      split
      · simpa [Ordering.then_eq_eq] using ih l.length (by simp) l rfl
      · rename_i hdigit
        have hshort := (List.dropWhile_sublist isDigit (l := l)).length_le
        have hc : isDigit c = true := by simpa using hdigit
        rw [number_self, Ordering.eq_then, List.dropWhile_cons_of_pos hc]
        exact ih _ (by simp only [List.length_cons]; omega) _ rfl

theorem compareVersions_self (v : String) : compareVersions v v = .eq := by
  simp [compareVersions, number_self, part_self]

end NdimonR.Plugins
