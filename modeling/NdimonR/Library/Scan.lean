import Mathlib.Data.List.Basic

/-! Reading items between commas, with blanks around each, up to a closing bracket: the reader and
the texts it reads. -/

namespace NdimonR.Scan

variable {α : Type} (blank : Char → Bool) (one : List Char → Option (α × List Char)) (close : Char)

def skip (l : List Char) : List Char := l.dropWhile blank

/-- At least one item. -/
def items : Nat → List Char → Option (List α × List Char)
  | 0, _ => none
  | fuel + 1, l => do
    let (a, rest) ← one (skip blank l)
    match skip blank rest with
    | [] => none
    | c :: rest =>
      if c = close then some ([a], rest)
      else if c = ',' then (items fuel rest).map fun e => (a :: e.1, e.2)
      else none

def list (l : List Char) : Option (List α × List Char) :=
  match skip blank l with
  | [] => none
  | c :: rest => if c = close then some ([], rest) else items blank one close l.length l

/-! ### The texts -/

def Blanks (w : List Char) : Prop := ∀ c ∈ w, blank c = true

/-- Nothing a text before it could go on with. -/
def Stops (bare : Char → Bool) (rest : List Char) : Prop := ∀ c ∈ rest.head?, bare c = false

inductive Seq (P : List Char → α → Prop) : List Char → List α → Prop
  | last {w t w' : List Char} {a : α} (hw : Blanks blank w) (ht : P t a) (hw' : Blanks blank w') :
    Seq P (w ++ t ++ w') [a]
  | more {w t w' T : List Char} {a : α} {as : List α} (hw : Blanks blank w) (ht : P t a)
    (hw' : Blanks blank w') (hT : Seq P T as) : Seq P (w ++ t ++ w' ++ ',' :: T) (a :: as)

/-- What stands between two brackets. -/
def Between (P : List Char → α → Prop) (T : List Char) (as : List α) : Prop :=
  (Blanks blank T ∧ as = []) ∨ Seq blank P T as

/-- A text that reads as one item before every such rest. -/
structure Item (stops : List Char → Prop) (t : List Char) (a : α) : Prop where
  starts : ∃ c rest, t = c :: rest ∧ blank c = false ∧ c ≠ close
  reads : ∀ rest, stops rest → one (t ++ rest) = some (a, rest)

/-- Every item read is one of a kind of text. -/
def Reads (P : List Char → α → Prop) : Prop :=
  ∀ l a rest, one l = some (a, rest) → ∃ t, l = t ++ rest ∧ P t a

variable {blank one close} {P : List Char → α → Prop} {stops : List Char → Prop}

theorem blanks_nil : Blanks blank [] := nofun

theorem skip_blanks {w : List Char} (hw : Blanks blank w) (l : List Char) :
    skip blank (w ++ l) = skip blank l := List.dropWhile_append_of_pos hw

theorem skip_cons {c : Char} (h : blank c = false) (l : List Char) :
    skip blank (c :: l) = c :: l := by
  simp [skip, h]

theorem skip_eq (blank : Char → Bool) (l : List Char) :
    ∃ w, Blanks blank w ∧ l = w ++ skip blank l := by
  refine ⟨l.takeWhile blank, ?_, List.takeWhile_append_dropWhile.symm⟩
  exact fun c hc => List.all_eq_true.mp List.all_takeWhile c hc

/-- A run of characters, cut off where it stops. -/
theorem span_stops {bare : Char → Bool} {t rest : List Char} (ht : ∀ c ∈ t, bare c = true)
    (h : Stops bare rest) :
    (t ++ rest).takeWhile bare = t ∧ (t ++ rest).dropWhile bare = rest := by
  rw [List.takeWhile_append_of_pos ht, List.dropWhile_append_of_pos ht]
  cases rest with
  | nil => simp
  | cons c rest => simp [h c rfl]

theorem skip_item {t : List Char} {a : α} (h : Item blank one close stops t a) {w : List Char}
    (hw : Blanks blank w) (rest : List Char) : skip blank (w ++ t ++ rest) = t ++ rest := by
  obtain ⟨c, l, rfl, hc, -⟩ := h.starts
  rw [List.append_assoc, skip_blanks hw]
  exact skip_cons hc _

/-- A rest that begins with blanks, a comma or the bracket stops what stands before it. -/
structure Stopping (blank : Char → Bool) (close : Char) (stops : List Char → Prop) : Prop where
  closing : blank close = false
  comma : blank ',' = false
  other : close ≠ ','
  stop : ∀ {w c} rest, Blanks blank w → c ∈ [',', close] → stops (w ++ c :: rest)

theorem stopping {bare : Char → Bool} (hclosing : blank close = false)
    (hcomma : blank ',' = false) (hother : close ≠ ',')
    (hblank : ∀ c, blank c = true → bare c = false) (hmark : bare ',' = false)
    (hclose : bare close = false) : Stopping blank close (Stops bare) where
  closing := hclosing
  comma := hcomma
  other := hother
  stop := by
    intro w c rest hw hc e he
    cases w with
    | nil =>
      cases he
      rcases List.mem_pair.mp hc with rfl | rfl
      · exact hmark
      · exact hclose
    | cons e' w =>
      cases he
      exact hblank _ (hw _ List.mem_cons_self)

theorem items_of_seq (hstop : Stopping blank close stops) {T : List Char} {as : List α}
    (h : Seq blank (Item blank one close stops) T as) {fuel : Nat} (hfuel : as.length ≤ fuel)
    (rest : List Char) :
    items blank one close fuel (T ++ close :: rest) = some (as, rest) := by
  induction h generalizing fuel with
  | @last w t w' a hw ht hw' =>
    obtain ⟨fuel, rfl⟩ : ∃ n, fuel = n + 1 := ⟨fuel - 1, by simp at hfuel; omega⟩
    rw [items, List.append_assoc (w ++ t), skip_item ht hw,
      ht.reads _ (hstop.stop rest hw' (by simp))]
    simp only [Option.bind_eq_bind, Option.bind_some]
    rw [skip_blanks hw', skip_cons hstop.closing]
    simp
  | @more w t w' T a as hw ht hw' _ ih =>
    obtain ⟨fuel, rfl⟩ : ∃ n, fuel = n + 1 := ⟨fuel - 1, by simp at hfuel; omega⟩
    have hrest : as.length ≤ fuel := by
      simp only [List.length_cons] at hfuel
      omega
    have htext : w ++ t ++ w' ++ ',' :: T ++ close :: rest =
        w ++ t ++ (w' ++ ',' :: (T ++ close :: rest)) := by
      simp
    rw [items, htext, skip_item ht hw, ht.reads _ (hstop.stop _ hw' (by simp))]
    simp only [Option.bind_eq_bind, Option.bind_some]
    rw [skip_blanks hw', skip_cons hstop.comma]
    simp only [if_neg hstop.other.symm, if_true]
    rw [ih hrest]
    rfl

theorem Seq.length_le {T : List Char} {as : List α}
    (h : Seq blank (Item blank one close stops) T as) : as.length ≤ T.length := by
  induction h with
  | last hw ht hw' =>
    obtain ⟨c, l, rfl, -⟩ := ht.starts
    simp only [List.length_append, List.length_cons, List.length_nil]
    omega
  | more hw ht hw' _ ih =>
    simp only [List.length_append, List.length_cons]
    omega

theorem Seq.head {T : List Char} {as : List α} (h : Seq blank (Item blank one close stops) T as)
    (rest : List Char) : ∃ c l, skip blank (T ++ rest) = c :: l ∧ c ≠ close := by
  cases h with
  | @last w t w' a hw ht hw' =>
    obtain ⟨c, l, hl, hc, hclose⟩ := ht.starts
    refine ⟨c, l ++ (w' ++ rest), ?_, hclose⟩
    rw [List.append_assoc, skip_item ht hw, hl]
    rfl
  | @more w t w' T a as hw ht hw' _ =>
    obtain ⟨c, l, hl, hc, hclose⟩ := ht.starts
    refine ⟨c, l ++ (w' ++ ',' :: T ++ rest), ?_, hclose⟩
    have htext : w ++ t ++ w' ++ ',' :: T ++ rest = w ++ t ++ (w' ++ ',' :: T ++ rest) := by
      simp
    rw [htext, skip_item ht hw, hl]
    rfl

theorem list_of_between (hstop : Stopping blank close stops) {T : List Char} {as : List α}
    (h : Between blank (Item blank one close stops) T as) (rest : List Char) :
    list blank one close (T ++ close :: rest) = some (as, rest) := by
  rcases h with ⟨hT, rfl⟩ | h
  · rw [list, skip_blanks hT, skip_cons hstop.closing]
    simp
  · obtain ⟨c, l, hskip, hclose⟩ := h.head (close :: rest)
    have hfuel : as.length ≤ (T ++ close :: rest).length := by
      have hlength := h.length_le
      simp only [List.length_append]
      omega
    rw [list, hskip]
    simp only [if_neg hclose]
    exact items_of_seq hstop h hfuel rest

theorem seq_of_items (hone : Reads one P) {fuel : Nat} {l rest : List Char} {as : List α}
    (h : items blank one close fuel l = some (as, rest)) :
    ∃ T, l = T ++ close :: rest ∧ Seq blank P T as := by
  induction fuel generalizing l as with
  | zero => cases h
  | succ fuel ih =>
    obtain ⟨⟨a, r⟩, ha, h⟩ := Option.bind_eq_some_iff.mp h
    obtain ⟨t, ht, hP⟩ := hone _ _ _ ha
    obtain ⟨w, hw, hl⟩ := skip_eq blank l
    obtain ⟨w', hw', hr⟩ := skip_eq blank r
    simp only at h
    split at h
    · cases h
    · rename_i c r' hc
      rw [hc] at hr
      split at h
      · rename_i hclose
        cases h
        exact ⟨w ++ t ++ w', by rw [hl, ht, hr, hclose]; simp, .last hw hP hw'⟩
      · split at h
        · rename_i hcomma
          obtain ⟨⟨bs, r''⟩, hrest, heq⟩ := Option.map_eq_some_iff.mp h
          cases heq
          obtain ⟨T, hT, hseq⟩ := ih hrest
          refine ⟨w ++ t ++ w' ++ ',' :: T, ?_, .more hw hP hw' hseq⟩
          rw [hl, ht, hr, hcomma, hT]
          simp
        · cases h

theorem between_of_list (hone : Reads one P) {l rest : List Char} {as : List α}
    (h : list blank one close l = some (as, rest)) :
    ∃ T, l = T ++ close :: rest ∧ Between blank P T as := by
  obtain ⟨w, hw, hl⟩ := skip_eq blank l
  unfold list at h
  split at h
  · cases h
  · rename_i c r hc
    rw [hc] at hl
    split at h
    · rename_i hclose
      cases h
      exact ⟨w, by rw [hl, hclose], .inl ⟨hw, rfl⟩⟩
    · obtain ⟨T, hT, hseq⟩ := seq_of_items hone h
      exact ⟨T, hT, .inr hseq⟩

theorem Seq.imp {Q : List Char → α → Prop} (h : ∀ t a, P t a → Q t a) {T : List Char} {as : List α}
    (hseq : Seq blank P T as) : Seq blank Q T as := by
  induction hseq with
  | last hw ht hw' => exact .last hw (h _ _ ht) hw'
  | more hw ht hw' _ ih => exact .more hw (h _ _ ht) hw' ih

theorem Between.imp {Q : List Char → α → Prop} (h : ∀ t a, P t a → Q t a) {T : List Char}
    {as : List α} (hT : Between blank P T as) : Between blank Q T as :=
  Or.imp_right (Seq.imp h) hT

/-- Items with the same blanks before each. -/
theorem between_intercalate {w w' : List Char} (hw : Blanks blank w) (hw' : Blanks blank w')
    {ts : List (List Char)} {as : List α} (h : List.Forall₂ P ts as) :
    Between blank P (w ++ (',' :: w).intercalate ts ++ w') as := by
  induction h with
  | nil =>
    refine .inl ⟨?_, rfl⟩
    intro c hc
    rw [List.intercalate_nil, List.append_nil] at hc
    exact (List.mem_append.mp hc).elim (hw c) (hw' c)
  | @cons t a ts as ht hrest ih =>
    cases hrest with
    | nil =>
      rw [List.intercalate_singleton]
      exact .inr (.last hw ht hw')
    | cons hu hus =>
      rcases ih with ⟨-, hnil⟩ | ih
      · cases hnil
      · have hseq := Seq.more hw ht blanks_nil ih
        exact .inr (by simpa [List.intercalate] using hseq)

/-! ### Places

The texts before and after one item. -/

/-- The items before, each with its comma. -/
def Front (blank : Char → Bool) (P : List Char → α → Prop) (B : List Char) (as : List α) : Prop :=
  (B = [] ∧ as = []) ∨ ∃ T, B = T ++ [','] ∧ Seq blank P T as

/-- The items after, each with its comma. -/
def Back (blank : Char → Bool) (P : List Char → α → Prop) (C : List Char) (as : List α) : Prop :=
  (C = [] ∧ as = []) ∨ ∃ T, C = ',' :: T ∧ Seq blank P T as

theorem seq_of_back {w t w' C : List Char} {a : α} {cs : List α} (hw : Blanks blank w)
    (ht : P t a) (hw' : Blanks blank w') (hC : Back blank P C cs) :
    Seq blank P (w ++ t ++ w' ++ C) (a :: cs) := by
  rcases hC with ⟨rfl, rfl⟩ | ⟨T, rfl, hT⟩
  · rw [List.append_nil]
    exact .last hw ht hw'
  · exact .more hw ht hw' hT

theorem Seq.append {S T : List Char} {as bs : List α} (hS : Seq blank P S as)
    (hT : Seq blank P T bs) : Seq blank P (S ++ ',' :: T) (as ++ bs) := by
  induction hS with
  | last hw ht hw' => exact .more hw ht hw' hT
  | more hw ht hw' _ ih =>
    have hseq := Seq.more hw ht hw' ih
    simpa using hseq

theorem seq_of_place {B w t w' C : List Char} {a : α} {bs cs : List α} (hB : Front blank P B bs)
    (hw : Blanks blank w) (ht : P t a) (hw' : Blanks blank w') (hC : Back blank P C cs) :
    Seq blank P (B ++ (w ++ t ++ w' ++ C)) (bs ++ a :: cs) := by
  have hrest := seq_of_back hw ht hw' hC
  rcases hB with ⟨rfl, rfl⟩ | ⟨T, rfl, hT⟩
  · exact hrest
  · have hseq := hT.append hrest
    simpa using hseq

/-- Every item has its place. -/
theorem Seq.place {T : List Char} {bs cs : List α} {a : α} (h : Seq blank P T (bs ++ a :: cs)) :
    ∃ B w t w' C, T = B ++ (w ++ t ++ w' ++ C) ∧ Front blank P B bs ∧ Blanks blank w ∧ P t a ∧
      Blanks blank w' ∧ Back blank P C cs := by
  induction bs generalizing T with
  | nil =>
    cases h with
    | last hw ht hw' =>
      exact ⟨[], _, _, _, [], by simp, .inl ⟨rfl, rfl⟩, hw, ht, hw', .inl ⟨rfl, rfl⟩⟩
    | more hw ht hw' hT =>
      exact ⟨[], _, _, _, _, rfl, .inl ⟨rfl, rfl⟩, hw, ht, hw', .inr ⟨_, rfl, hT⟩⟩
  | cons b bs ih =>
    generalize hbs : b :: bs ++ a :: cs = as at h
    cases h with
    | last hw ht hw' => simp at hbs
    | @more w t w' T _ as hw ht hw' hT =>
      obtain ⟨rfl, rfl⟩ := List.cons.inj hbs
      obtain ⟨B, v, u, v', C, rfl, hB, hv, hu, hv', hC⟩ := ih hT
      refine ⟨w ++ t ++ w' ++ ',' :: B, v, u, v', C, by simp, .inr ?_, hv, hu, hv', hC⟩
      rcases hB with ⟨rfl, rfl⟩ | ⟨S, rfl, hS⟩
      · exact ⟨w ++ t ++ w', rfl, .last hw ht hw'⟩
      · exact ⟨w ++ t ++ w' ++ ',' :: S, by simp, .more hw ht hw' hS⟩

end NdimonR.Scan
