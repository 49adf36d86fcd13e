import Mathlib.Tactic.Ring
import NdimonR.Library.Padded
import NdimonR.Plugins.Versions
import NdimonR.Privd.Manifest

/-! The version order is that of Debian: rounds of a part outside numbers and a number. -/

namespace NdimonR.Plugins

open Text

/-! ### Debian's order -/

/-- The numeric value of a run of digits. -/
def value (l : List UInt8) : Nat := l.foldl (fun n c => 10 * n + (c.toNat - 48)) 0

def nonDigit (c : UInt8) : Bool := !isDigit c

/-- The maximal runs of a text, each pair the weights outside a number and the number behind. -/
def rounds (l : List UInt8) : List (List Int × Nat) :=
  if l = [] then []
  else
    ((l.takeWhile nonDigit).map fun c => order (some c),
      value ((l.dropWhile nonDigit).takeWhile isDigit)) ::
      rounds ((l.dropWhile nonDigit).dropWhile isDigit)
termination_by l.length
decreasing_by
  rename_i hne
  cases l with
  | nil => exact absurd rfl hne
  | cons c l =>
    have hdigits := length_dropWhile ((c :: l).dropWhile nonDigit)
    cases hc : isDigit c with
    | true =>
      have hdrop : (c :: l).dropWhile nonDigit = c :: l :=
        List.dropWhile_cons_of_neg (by simp [nonDigit, hc])
      rw [hdrop] at hdigits ⊢
      exact length_dropWhile_cons hc l
    | false =>
      rw [List.dropWhile_cons_of_pos (by simp [nonDigit, hc])] at hdigits ⊢
      have hother := (List.dropWhile_sublist nonDigit (l := l)).length_le
      rw [List.length_cons]
      omega

/-- One round: position by position, where an end weighs nothing, and then by number. -/
def roundOrder : List Int × Nat → List Int × Nat → Ordering :=
  compareLex (fun x y => padded compare 0 x.1 y.1) fun x y => compare x.2 y.2

def verrevcmp (a b : List UInt8) : Ordering := padded roundOrder ([], 0) (rounds a) (rounds b)

/-- The text before the first colon, if there is one. -/
def epochText (v : String) : Option String := (splitOnce ":" v).map Prod.fst

/-- Debian's comparison for a reading of the epochs. The epoch is zero and the revision empty
where there is none. -/
def debianCompare (natural : String → Nat) (a b : String) : Ordering :=
  let revision (v : String) := (rsplitOnce '-' v).getD (v, "")
  let (av, ar) := revision (epoch a).2
  let (bv, br) := revision (epoch b).2
  (compare (((epochText a).map natural).getD 0) (((epochText b).map natural).getD 0)).then
    ((verrevcmp (bytes av) (bytes bv)).then (verrevcmp (bytes ar) (bytes br)))

def numericEpoch (v : String) : Prop := ∀ e, epochText v = some e → Text.all isAsciiDigit e = true

/-! ### Numbers -/

theorem value_append (l m : List UInt8) : value (l ++ m) = value l * 10 ^ m.length + value m := by
  induction m using List.reverseRecOn with
  | nil => simp [value]
  | append_singleton m c ih =>
    have hlast : ∀ l : List UInt8, value (l ++ [c]) = 10 * value l + (c.toNat - 48) := by
      intro l
      simp [value, List.foldl_append]
    rw [← List.append_assoc, hlast, hlast, ih, List.length_append, List.length_singleton, pow_succ]
    ring

theorem value_cons (c : UInt8) (l : List UInt8) :
    value (c :: l) = (c.toNat - 48) * 10 ^ l.length + value l := by
  rw [← List.singleton_append, value_append]
  simp [value]

def Digits (l : List UInt8) : Prop := ∀ c ∈ l, isDigit c = true

theorem isDigit_bounds {c : UInt8} (h : isDigit c = true) : 48 ≤ c.toNat ∧ c.toNat ≤ 57 := by
  have hle := of_decide_eq_true h
  rw [UInt8.le_iff_toNat_le, UInt8.le_iff_toNat_le] at hle
  exact hle

theorem value_lt {l : List UInt8} (h : Digits l) : value l < 10 ^ l.length := by
  induction l with
  | nil => simp [value]
  | cons c l ih =>
    have hc := isDigit_bounds (h c List.mem_cons_self)
    have hl := ih fun d hd => h d (List.mem_cons_of_mem _ hd)
    have hdigit : (c.toNat - 48) * 10 ^ l.length ≤ 9 * 10 ^ l.length :=
      Nat.mul_le_mul_right _ (by omega)
    rw [value_cons, List.length_cons, pow_succ]
    omega

theorem value_strip (l : List UInt8) : value (l.dropWhile (· == 48)) = value l := by
  induction l with
  | nil => rfl
  | cons c l ih =>
    by_cases hc : c = 48
    · subst hc
      rw [List.dropWhile_cons_of_pos (by rfl), ih, value_cons]
      simp
    · rw [List.dropWhile_cons_of_neg (by simpa using hc)]

theorem compare_byte_lt {c d : UInt8} (h : c.toNat < d.toNat) : compare c d = .lt := by
  change compareOfLessAndEq c d = .lt
  rw [compareOfLessAndEq, if_pos (UInt8.lt_iff_toNat_lt.mpr h)]

theorem compare_value {a b : List UInt8} (ha : Digits a) (hb : Digits b)
    (hlength : a.length = b.length) : compare a b = compare (value a) (value b) := by
  induction a generalizing b with
  | nil =>
    cases b with
    | nil => rfl
    | cons d b => cases hlength
  | cons c a ih =>
    cases b with
    | nil => cases hlength
    | cons d b =>
      have hlen : a.length = b.length := Nat.succ.inj hlength
      have hrest := ih (fun x hx => ha x (List.mem_cons_of_mem _ hx))
        (fun x hx => hb x (List.mem_cons_of_mem _ hx)) hlen
      have hc := isDigit_bounds (ha c List.mem_cons_self)
      have hd := isDigit_bounds (hb d List.mem_cons_self)
      have hva := value_lt fun x hx => ha x (List.mem_cons_of_mem _ hx)
      have hvb := value_lt fun x hx => hb x (List.mem_cons_of_mem _ hx)
      rw [List.compare_cons_cons, hrest, value_cons, value_cons, hlen]
      rw [hlen] at hva
      rcases lt_trichotomy c.toNat d.toNat with hlt | heq | hgt
      · have hmul : (c.toNat - 48 + 1) * 10 ^ b.length ≤ (d.toNat - 48) * 10 ^ b.length :=
          Nat.mul_le_mul_right _ (by omega)
        rw [Nat.succ_mul] at hmul
        rw [compare_byte_lt hlt, Ordering.lt_then, compare_lt_iff_lt.mpr (by omega)]
      · rw [UInt8.toNat_inj.mp heq, Std.ReflOrd.compare_self, Ordering.eq_then]
        rcases lt_trichotomy (value a) (value b) with hlt | heq | hgt
        · rw [compare_lt_iff_lt.mpr hlt, compare_lt_iff_lt.mpr (by omega)]
        · rw [heq, Std.ReflOrd.compare_self, Std.ReflOrd.compare_self]
        · rw [compare_gt_iff_gt.mpr hgt, compare_gt_iff_gt.mpr (by omega)]
      · have hmul : (d.toNat - 48 + 1) * 10 ^ b.length ≤ (c.toNat - 48) * 10 ^ b.length :=
          Nat.mul_le_mul_right _ (by omega)
        rw [Nat.succ_mul] at hmul
        rw [Std.OrientedOrd.eq_swap, compare_byte_lt hgt, Ordering.swap_lt, Ordering.gt_then,
          compare_gt_iff_gt.mpr (by omega)]

theorem digits_strip {l : List UInt8} (h : Digits l) : Digits (l.dropWhile (· == 48)) :=
  fun c hc => h c ((List.dropWhile_sublist _).subset hc)

theorem value_lt_of_length {a b : List UInt8} (ha : Digits a) (hb : Digits b)
    (hlt : a.length < (b.dropWhile (· == 48)).length) :
    value a < value (b.dropWhile (· == 48)) := by
  cases hb' : b.dropWhile (· == 48) with
  | nil =>
    rw [hb'] at hlt
    cases hlt
  | cons c l =>
    have hc : c ≠ 48 := by
      have hhead := List.head?_dropWhile_not (· == 48) b
      rw [hb'] at hhead
      simpa using hhead
    have hdigit := isDigit_bounds (digits_strip hb c (by rw [hb']; exact List.mem_cons_self))
    have hne : c.toNat ≠ 48 := fun h => hc (UInt8.toNat_inj.mp h)
    have hlen : a.length ≤ l.length := by
      rw [hb', List.length_cons] at hlt
      omega
    calc value a < 10 ^ a.length := value_lt ha
      _ ≤ 1 * 10 ^ l.length := by
        rw [one_mul]
        exact Nat.pow_le_pow_right (by omega) hlen
      _ ≤ (c.toNat - 48) * 10 ^ l.length := Nat.mul_le_mul_right _ (by omega)
      _ ≤ value (c :: l) := by
        rw [value_cons]
        omega

/-- Without leading zeros the longer number is the greater. -/
theorem number_eq_compare {a b : List UInt8} (ha : Digits a) (hb : Digits b) :
    number a b = compare (value a) (value b) := by
  have hstripped : ∀ x y : List UInt8, Digits x → Digits y →
      (x.dropWhile (· == 48)).length < (y.dropWhile (· == 48)).length → value x < value y := by
    intro x y hx hy hlt
    rw [← value_strip x, ← value_strip y]
    exact value_lt_of_length (digits_strip hx) hy hlt
  simp only [number]
  rcases lt_trichotomy (a.dropWhile (· == 48)).length (b.dropWhile (· == 48)).length
    with hlt | heq | hgt
  · rw [compare_lt_iff_lt.mpr hlt, Ordering.lt_then,
      compare_lt_iff_lt.mpr (hstripped a b ha hb hlt)]
  · rw [heq, Std.ReflOrd.compare_self, Ordering.eq_then,
      compare_value (digits_strip ha) (digits_strip hb) heq, value_strip, value_strip]
  · rw [compare_gt_iff_gt.mpr hgt, Ordering.gt_then,
      compare_gt_iff_gt.mpr (hstripped b a hb ha hgt)]

theorem digits_takeWhile (l : List UInt8) : Digits (l.takeWhile isDigit) :=
  fun _ hc => List.mem_takeWhile_imp hc

/-! ### The loop is Debian's -/

/-- The round a text begins with. -/
def round (l : List UInt8) : List Int × Nat := (rounds l).headD ([], 0)

theorem rounds_nil : rounds [] = [] := by
  rw [rounds, if_pos rfl]

theorem rounds_cons (c : UInt8) (l : List UInt8) :
    rounds (c :: l) = (((c :: l).takeWhile nonDigit).map fun c => order (some c),
      value (((c :: l).dropWhile nonDigit).takeWhile isDigit)) ::
      rounds (((c :: l).dropWhile nonDigit).dropWhile isDigit) := by
  rw [rounds, if_neg (List.cons_ne_nil c l)]

/-- A byte outside a number is the first of its round; the rest of the round follows. -/
theorem round_nonDigit {c : UInt8} (hc : isDigit c = false) (l : List UInt8) :
    round (c :: l) = (order (some c) :: (round l).1, (round l).2) ∧
      (rounds (c :: l)).tail = (rounds l).tail := by
  have htake : (c :: l).takeWhile nonDigit = c :: l.takeWhile nonDigit :=
    List.takeWhile_cons_of_pos (by simp [nonDigit, hc])
  have hdrop : (c :: l).dropWhile nonDigit = l.dropWhile nonDigit :=
    List.dropWhile_cons_of_pos (by simp [nonDigit, hc])
  simp only [round, rounds_cons, htake, hdrop]
  cases l with
  | nil => simp [rounds_nil, value]
  | cons d l => simp [rounds_cons]

/-- A text that begins with a number, or ends. -/
theorem round_digit {l : List UInt8} (h : l.head?.any (!isDigit ·) = false) :
    round l = ([], value (l.takeWhile isDigit)) ∧
      (rounds l).tail = rounds (l.dropWhile isDigit) := by
  cases l with
  | nil => simp [round, rounds_nil, value]
  | cons c l =>
    have hc : isDigit c = true := by simpa using h
    have htake : (c :: l).takeWhile nonDigit = [] :=
      List.takeWhile_cons_of_neg (by simp [nonDigit, hc])
    have hdrop : (c :: l).dropWhile nonDigit = c :: l :=
      List.dropWhile_cons_of_neg (by simp [nonDigit, hc])
    simp only [round, rounds_cons, htake, hdrop]
    simp

theorem verrevcmp_step (a b : List UInt8) :
    verrevcmp a b = ((padded compare 0 (round a).1 (round b).1).then
      (compare (round a).2 (round b).2)).then
        (padded roundOrder ([], 0) (rounds a).tail (rounds b).tail) :=
  padded_step rfl _ _

theorem order_eq_zero {c : Option UInt8} : order c = 0 ↔ c.any (!isDigit ·) = false := by
  cases c with
  | none => simp [order]
  | some c =>
    simp only [order, Option.any_some, Bool.not_eq_false']
    split
    · rename_i hc
      subst hc
      simp [isDigit]
    · split
      · simp_all
      · have hne : c.toNat ≠ 0 ∨ isLetter c = false := by
          by_cases hz : c.toNat = 0
          · have hc : c = 0 := UInt8.toNat_inj.mp hz
            subst hc
            exact .inr rfl
          · exact .inl hz
        rcases hne with hne | hne
        · split <;> simp_all
          omega
        · simp_all
          omega

/-- A tilde stands before the end, the end before letters, letters before other bytes. -/
theorem order_ranks {c d : UInt8} (hc : isLetter c = true) (hd : isLetter d = false)
    (hdigit : isDigit d = false) (htilde : d ≠ 126) :
    order (some 126) < order none ∧ order none < order (some c) ∧
      order (some c) < order (some d) := by
  have hletter : isDigit c = false ∧ c ≠ 126 ∧ 0 < c.toNat := by
    simp only [isLetter, decide_eq_true_eq, UInt8.le_iff_toNat_le] at hc
    have hbounds : 65 ≤ c.toNat ∧ c.toNat ≤ 122 := by
      rcases hc with ⟨hlow, hhigh⟩ | ⟨hlow, hhigh⟩
      · exact ⟨hlow, hhigh.trans (by decide)⟩
      · exact ⟨le_trans (by decide) hlow, hhigh⟩
    refine ⟨?_, ?_, by omega⟩
    · rw [isDigit, decide_eq_false_iff_not, UInt8.le_iff_toNat_le, UInt8.le_iff_toNat_le]
      intro h
      have hnine : c.toNat ≤ 57 := h.2
      omega
    · rintro rfl
      exact absurd hbounds.2 (by decide)
  have hsmall := c.toNat_lt
  simp only [order, hc, hd, hletter.1, hletter.2.1, hdigit, htilde, if_true, if_false,
    Bool.false_eq_true]
  omega

theorem head_round (l : List UInt8) : (round l).1.headD 0 = order l.head? := by
  by_cases h : l.head?.any (!isDigit ·) = false
  · rw [(round_digit h).1, order_eq_zero.mpr h]
    rfl
  · cases l with
    | nil => exact absurd rfl h
    | cons c l =>
      have hc : isDigit c = false := by simpa using h
      rw [(round_nonDigit hc l).1]
      rfl

theorem part_eq_verrevcmp (a b : List UInt8) : part a b = verrevcmp a b := by
  induction a, b using part.induct with
  | case1 a b hnil =>
    obtain ⟨rfl, rfl⟩ := hnil
    rw [part, if_pos ⟨rfl, rfl⟩, verrevcmp, rounds_nil]
    rfl
  | case2 a b hnil hhead ih =>
    rw [part, if_neg hnil, if_pos hhead, verrevcmp_step, padded_step (d := (0 : Int)) rfl,
      head_round, head_round]
    cases hord : compare (order a.head?) (order b.head?) with
    | lt => rfl
    | gt => rfl
    | eq =>
      -- equal weights with a byte outside a number are two such bytes
      have hsame := Std.LawfulEqOrd.eq_of_compare hord
      have hboth : a.head?.any (!isDigit ·) = b.head?.any (!isDigit ·) := by
        rw [Bool.eq_iff_iff, ← not_iff_not, Bool.not_eq_true, Bool.not_eq_true, ← order_eq_zero,
          ← order_eq_zero, hsame]
      rw [← hboth, Bool.or_self] at hhead
      obtain ⟨c, a, rfl⟩ : ∃ c l, a = c :: l := by
        cases a with
        | nil => cases hhead
        | cons c l => exact ⟨c, l, rfl⟩
      obtain ⟨d, b, rfl⟩ : ∃ d l, b = d :: l := by
        cases b with
        | nil => cases hhead.symm.trans hboth
        | cons d l => exact ⟨d, l, rfl⟩
      obtain ⟨ha, hta⟩ := round_nonDigit (c := c) (by simpa using hhead) a
      obtain ⟨hb, htb⟩ := round_nonDigit (c := d) (by simpa using hboth.symm.trans hhead) b
      rw [ha, hb, hta, htb, Ordering.eq_then, Ordering.eq_then, ih, List.tail_cons, List.tail_cons,
        verrevcmp_step]
      rfl
  | case3 a b hnil hhead ih =>
    simp only [Bool.or_eq_true, not_or, Bool.not_eq_true] at hhead
    obtain ⟨ha, hta⟩ := round_digit hhead.1
    obtain ⟨hb, htb⟩ := round_digit hhead.2
    rw [part, if_neg hnil, if_neg (by simp [hhead]), verrevcmp_step, ha, hb, hta, htb, ih,
      number_eq_compare (digits_takeWhile a) (digits_takeWhile b)]
    rfl

/-! ### Versions -/

theorem rounds_zero : rounds (bytes "0") = [([], 0)] := by
  change rounds [48] = _
  rw [rounds_cons]
  simp [nonDigit, isDigit, rounds_nil, value]

/-- A revision of zero is one that is missing. -/
theorem verrevcmp_zero (l : List UInt8) : verrevcmp (bytes "0") l = verrevcmp [] l := by
  rw [verrevcmp, verrevcmp, rounds_zero, rounds_nil, padded_step rfl, padded_step rfl []]
  rfl

instance : Std.TransCmp roundOrder := by
  have hweights := trans_along (padded (compare : Int → Int → Ordering) 0)
    (fun x : List Int × Nat => x.1)
  have hnumber := trans_along (compare : Nat → Nat → Ordering)
    (fun x : List Int × Nat => x.2)
  exact inferInstanceAs (Std.TransCmp (compareLex _ _))

instance : Std.TransCmp number :=
  inferInstanceAs (Std.TransCmp (compareLex
    (compareOn fun l : List UInt8 => (l.dropWhile (· == 48)).length)
    (compareOn fun l : List UInt8 => l.dropWhile (· == 48))))

instance : Std.TransCmp part := by
  have hpart : part = fun a b => padded roundOrder ([], 0) (rounds a) (rounds b) := by
    funext a b
    exact part_eq_verrevcmp a b
  rw [hpart]
  exact trans_along (padded roundOrder ([], 0)) rounds

instance : Std.TransCmp compareVersions := by
  have hepoch := trans_along number fun v => bytes (epoch v).1
  have hupstream := trans_along part fun v => bytes (revision (epoch v).2).1
  have hrevision := trans_along part fun v => bytes (revision (epoch v).2).2
  exact inferInstanceAs (Std.TransCmp (compareLex (fun a b => number (bytes (epoch a).1)
    (bytes (epoch b).1)) (compareLex (fun a b => part (bytes (revision (epoch a).2).1)
    (bytes (revision (epoch b).2).1)) fun a b => part (bytes (revision (epoch a).2).2)
    (bytes (revision (epoch b).2).2))))

/-- The revision of a version, where zero and none are one. -/
theorem part_revision (v w : String) :
    part (bytes (revision v).1) (bytes (revision w).1) =
        verrevcmp (bytes ((rsplitOnce '-' v).getD (v, "")).1)
          (bytes ((rsplitOnce '-' w).getD (w, "")).1) ∧
      part (bytes (revision v).2) (bytes (revision w).2) =
        verrevcmp (bytes ((rsplitOnce '-' v).getD (v, "")).2)
          (bytes ((rsplitOnce '-' w).getD (w, "")).2) := by
  have hzero : ∀ l : List UInt8, verrevcmp l (bytes "0") = verrevcmp l [] := by
    intro l
    have hswap : ∀ m n, verrevcmp m n = (verrevcmp n m).swap :=
      fun m n => @Std.OrientedCmp.eq_swap _ (padded roundOrder ([], 0)) _ (rounds m) (rounds n)
    rw [hswap, hswap l, verrevcmp_zero]
  rw [part_eq_verrevcmp, part_eq_verrevcmp]
  unfold revision
  cases rsplitOnce '-' v with
  | none =>
    cases rsplitOnce '-' w with
    | none =>
      refine ⟨rfl, ?_⟩
      exact (verrevcmp_zero _).trans (hzero [])
    | some pair => exact ⟨rfl, verrevcmp_zero _⟩
  | some pair =>
    cases rsplitOnce '-' w with
    | none => exact ⟨rfl, hzero _⟩
    | some pair => exact ⟨rfl, rfl⟩

/-- The number an epoch of digits stands for. -/
def natural (e : String) : Nat := value (bytes e)

theorem digits_bytes {e : String} (h : Text.all isAsciiDigit e = true) : Digits (bytes e) := by
  have hascii : ∀ c ∈ e.toList, c.toNat < 128 := by
    intro c hc
    have := isAsciiDigit_bounds (List.all_eq_true.mp h c hc)
    omega
  intro b hb
  rw [bytes_ascii hascii] at hb
  obtain ⟨c, hc, rfl⟩ := List.mem_map.mp hb
  have hbounds := isAsciiDigit_bounds (List.all_eq_true.mp h c hc)
  unfold isDigit
  rw [decide_eq_true_iff, UInt8.le_iff_toNat_le, UInt8.le_iff_toNat_le, UInt8.toNat_ofNat']
  have hmod : c.toNat % 2 ^ 8 = c.toNat := Nat.mod_eq_of_lt (by omega)
  rw [hmod]
  exact hbounds

theorem epoch_eq (v : String) : (epoch v).1 = (epochText v).getD "0" := by
  unfold epoch epochText
  cases splitOnce ":" v <;> rfl

theorem number_epoch {a b : String} (ha : numericEpoch a) (hb : numericEpoch b) :
    number (bytes (epoch a).1) (bytes (epoch b).1) =
      compare (((epochText a).map natural).getD 0) (((epochText b).map natural).getD 0) := by
  have hdigits : ∀ v, numericEpoch v → Digits (bytes (epoch v).1) := by
    intro v hv
    rw [epoch_eq]
    cases he : epochText v with
    | none => exact digits_bytes (by decide)
    | some e => exact digits_bytes (hv e he)
  have hvalue : ∀ v, value (bytes (epoch v).1) = ((epochText v).map natural).getD 0 := by
    intro v
    rw [epoch_eq]
    cases epochText v <;> rfl
  rw [number_eq_compare (hdigits a ha) (hdigits b hb), hvalue, hvalue]

theorem compareVersions_eq {a b : String} (ha : numericEpoch a) (hb : numericEpoch b) :
    compareVersions a b = debianCompare natural a b := by
  obtain ⟨hupstream, hrevision⟩ := part_revision (epoch a).2 (epoch b).2
  change (number (bytes (epoch a).1) (bytes (epoch b).1)).then
    ((part (bytes (revision (epoch a).2).1) (bytes (revision (epoch b).2).1)).then
      (part (bytes (revision (epoch a).2).2) (bytes (revision (epoch b).2).2))) = _
  rw [number_epoch ha hb, hupstream, hrevision]
  rfl

/-- The comparison is a total preorder of all texts, and Debian's where the epochs are numbers. -/
theorem version_order (a b c : String) :
    compareVersions a a = .eq ∧ compareVersions b a = (compareVersions a b).swap ∧
      ((compareVersions a b).isLE → (compareVersions b c).isLE → (compareVersions a c).isLE) ∧
      (numericEpoch a → numericEpoch b → compareVersions a b = debianCompare natural a b) :=
  ⟨Std.ReflCmp.compare_self, Std.OrientedCmp.eq_swap, Std.TransCmp.isLE_trans, compareVersions_eq⟩

theorem version_order_epochs :
    compareVersions "1:1.0~rc1" "2:0.9" = debianCompare natural "1:1.0~rc1" "2:0.9" ∧
      ((compareVersions "1:1.0~rc1" "2:0.9").isLE →
        (compareVersions "2:0.9" "10:0").isLE → (compareVersions "1:1.0~rc1" "10:0").isLE) := by
  have h := version_order "1:1.0~rc1" "2:0.9" "10:0"
  refine ⟨h.2.2.2 ?_ ?_, h.2.2.1⟩
  · intro e he
    cases he
    rfl
  · intro e he
    cases he
    rfl

def ninth : Privd.DebianVersion := ⟨"9:1", by decide⟩

def letter : Privd.DebianVersion := ⟨"0A:1", by decide⟩

def tenth : Privd.DebianVersion := ⟨"10:1", by decide⟩

/-- An epoch may be accepted that is no number, and then no number can stand for it: here it would
lie between 9 and 10. -/
theorem debian_order_false : ¬ ∃ number : String → Nat,
    (∀ e, Text.all isAsciiDigit e = true → number e = natural e) ∧
      ∀ a b : Privd.DebianVersion, compareVersions a.val b.val = debianCompare number a.val b.val := by
  rintro ⟨number, hnumber, hall⟩
  have hnine : number "9" = 9 := (hnumber "9" (by decide)).trans rfl
  have hten : number "10" = 10 := (hnumber "10" (by decide)).trans rfl
  have hself : ∀ l, verrevcmp l l = .eq := fun l => (part_eq_verrevcmp l l).symm.trans (part_self l)
  have hbelow : Ordering.lt = (compare (number "9") (number "0A")).then
      ((verrevcmp (bytes "1") (bytes "1")).then (verrevcmp (bytes "") (bytes ""))) :=
    hall ninth letter
  have habove : Ordering.lt = (compare (number "0A") (number "10")).then
      ((verrevcmp (bytes "1") (bytes "1")).then (verrevcmp (bytes "") (bytes ""))) :=
    hall letter tenth
  rw [hself, hself, hnine, Ordering.eq_then, Ordering.then_eq, eq_comm, Nat.compare_eq_lt] at hbelow
  rw [hself, hself, hten, Ordering.eq_then, Ordering.then_eq, eq_comm, Nat.compare_eq_lt] at habove
  omega

end NdimonR.Plugins
