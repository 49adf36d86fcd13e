import NdimonR.State.Legacy
import Mathlib.Algebra.Order.Ring.Rat
import Mathlib.Tactic.FieldSimp
import Mathlib.Tactic.Linarith

/-! What the texts of a legacy backup tell: the checksum tells the JavaScript value, and parsing what
was written changes neither the checksum nor the text. -/

namespace NdimonR.State.Legacy

open Text Scan Json Json.Reader
open Privd (nearestDouble asF64)
open Render.ReplaceKey (nodeJson)

variable {js : ℚ → String} {float : List Char → Option ℚ}

/-! ### Doubles -/

theorem isDouble_scaled {m : ℤ} {k : ℕ} (hm : m.natAbs ≤ 2 ^ 53) (hk : k ≤ 970) :
    IsDouble (m * 2 ^ k) := by
  rcases Nat.lt_or_eq_of_le hm with hlt | heq
  · refine ⟨m, k + 1074, hlt, by omega, ?_⟩
    rw [pow_add]
    field_simp
  · -- the next power of two
    obtain ⟨n, hn, hsmall⟩ : ∃ n : ℤ, m = 2 * n ∧ n.natAbs < 2 ^ 53 := ⟨m / 2, by omega, by omega⟩
    refine ⟨n, k + 1 + 1074, hsmall, by omega, ?_⟩
    rw [hn, pow_add, pow_succ]
    push_cast
    field_simp

theorem isDouble_nearest {n : ℤ} (h : n.natAbs < 2 ^ 64) : IsDouble (nearestDouble n) := by
  have hlog : Nat.log2 n.natAbs - 52 ≤ 970 := by
    by_cases hzero : n.natAbs = 0
    · rw [hzero]
      decide
    · have := (Nat.log2_lt hzero).mpr h
      omega
  have hbound : n.natAbs < 2 ^ 53 * 2 ^ (Nat.log2 n.natAbs - 52) := by
    have hself := Nat.lt_log2_self (n := n.natAbs)
    rw [← pow_add]
    exact hself.trans_le (Nat.pow_le_pow_right (by decide) (by omega))
  unfold nearestDouble
  simp only
  generalize Nat.log2 n.natAbs - 52 = k at hlog hbound ⊢
  have hunit : (0 : ℤ) < 2 ^ k := by positivity
  have hlow : -(2 ^ 53) ≤ n / 2 ^ k := by
    rw [Int.le_ediv_iff_mul_le hunit]
    have : ((n.natAbs : ℕ) : ℤ) < 2 ^ 53 * 2 ^ k := by exact_mod_cast hbound
    omega
  have hhigh : n / 2 ^ k < 2 ^ 53 := by
    rw [Int.ediv_lt_iff_lt_mul hunit]
    have : ((n.natAbs : ℕ) : ℤ) < 2 ^ 53 * 2 ^ k := by exact_mod_cast hbound
    omega
  split
  · have hdouble := isDouble_scaled (m := n / 2 ^ k) (k := k) (by omega) hlog
    push_cast
    rw [mul_comm]
    exact hdouble
  · have hdouble := isDouble_scaled (m := n / 2 ^ k + 1) (k := k) (by omega) hlog
    push_cast at hdouble ⊢
    rw [mul_comm]
    exact hdouble

/-- The double of a number that a value is. -/
theorem isDouble_of_asF64 {x : Json} (hx : IsNode x) {q : ℚ} (h : asF64 x = some q) :
    IsDouble q := by
  cases x with
  | int n =>
    cases h
    exact isDouble_nearest (by have := hx.1; have := hx.2; omega)
  | float r =>
    cases h
    exact hx
  | null | bool | str | arr | obj => cases h

/-! ### Members and items -/

theorem canonicalItems_eq (a : List Json) : canonicalItems js a = a.map (canonical js) := by
  induction a with
  | nil => rfl
  | cons x rest ih => simp [canonicalItems, ih]

theorem canonicalMembers_eq (m : List (String × Json)) :
    canonicalMembers js m = m.map fun e => (e.1, canonical js e.2) := by
  induction m with
  | nil => rfl
  | cons e rest ih => simp [canonicalMembers, ih]

theorem encodeItems_eq (pretty : Bool) (a : List Json) (depth : Nat) :
    encodeItems js pretty a depth = a.map fun x => encode js pretty x depth := by
  induction a with
  | nil => rfl
  | cons x rest ih => simp [encodeItems, ih]

theorem encodeMembers_eq (pretty : Bool) (m : List (String × Json)) (depth : Nat) :
    encodeMembers js pretty m depth = m.map fun e => (e.1, encode js pretty e.2 depth) := by
  induction m with
  | nil => rfl
  | cons e rest ih => simp [encodeMembers, ih]

theorem doublesItems_eq (a : List Json) : doublesItems a = a.map doubles := by
  induction a with
  | nil => rfl
  | cons x rest ih => simp [doublesItems, ih]

theorem doublesMembers_eq (m : List (String × Json)) :
    doublesMembers m = m.map fun e => (e.1, doubles e.2) := by
  induction m with
  | nil => rfl
  | cons e rest ih => simp [doublesMembers, ih]

theorem jsValue_arr (a : List Json) : jsValue (.arr a) = .arr (a.map jsValue) := by
  simp only [jsValue, doubles, sorted, doublesItems_eq, sortedItems_eq, List.map_map]
  rfl

theorem jsValue_obj (m : List (String × Json)) :
    jsValue (.obj m) = ofMembers (m.map fun e => (e.1, jsValue e.2)) := by
  simp only [jsValue, doubles, sorted, doublesMembers_eq, sortedMembers_eq, List.map_map]
  rfl

theorem names_map (m : List (String × Json)) {α : Type} (f : Json → α) :
    (m.map fun e => (e.1, f e.2)).map Prod.fst = m.map Prod.fst := by
  simp [Function.comp_def]

/-- Sorting by name looks at no value. -/
theorem sortBy_entries {κ : Type} [LinearOrder κ] (key : String → κ) {α : Type} (f : Json → α)
    (m : List (String × Json)) :
    sortBy (fun e => key e.1) (m.map fun e => (e.1, f e.2)) =
      (sortBy (fun e => key e.1) m).map fun e => (e.1, f e.2) :=
  (SortBy.map_sortBy fun _ => rfl).symm

theorem eq_of_name {α : Type} {l : List (String × α)} (h : (l.map Prod.fst).Nodup)
    {a b : String × α} (ha : a ∈ l) (hb : b ∈ l) (hname : a.1 = b.1) : a = b :=
  List.inj_on_of_nodup_map h ha hb hname

/-- The order of the members does not show. -/
theorem canonical_obj_perm {m n : List (String × Json)} (hm : (m.map Prod.fst).Nodup)
    (h : (m.map fun e => (e.1, canonical js e.2)).Perm (n.map fun e => (e.1, canonical js e.2))) :
    canonical js (.obj m) = canonical js (.obj n) := by
  have hsort : sortBy (fun e => encodeUtf16 e.1) (canonicalMembers js m) =
      sortBy (fun e => encodeUtf16 e.1) (canonicalMembers js n) := by
    rw [canonicalMembers_eq, canonicalMembers_eq]
    refine SortBy.eq_of_perm h fun a ha b hb hkey => ?_
    exact eq_of_name (by rw [names_map]; exact hm) ha hb (encodeUtf16_injective hkey)
  rw [canonical, canonical, hsort]

/-- The double and the place of its members say what the text of a value is. -/
theorem canonical_jsValue {x : Json} (hx : x.All IsNode) :
    canonical js (jsValue x) = canonical js x := by
  induction x using Json.induct with
  | scalar x harr hobj =>
    cases x with
    | arr => cases harr
    | obj => cases hobj
    | null | bool | int | float | str => rfl
  | arr items ih =>
    have hitems : canonicalItems js (items.map jsValue) = canonicalItems js items := by
      rw [canonicalItems_eq, canonicalItems_eq, List.map_map]
      exact List.map_congr_left fun y hy => ih y hy (all_arr hx y hy)
    rw [jsValue_arr, canonical, canonical, hitems]
  | obj members ih =>
    have hnames : ((members.map fun e => (e.1, jsValue e.2)).map Prod.fst).Nodup := by
      rw [names_map]
      exact hx.self
    have hmembers : (members.map fun e => (e.1, jsValue e.2)).map
        (fun e => (e.1, canonical js e.2)) = members.map fun e => (e.1, canonical js e.2) := by
      rw [List.map_map]
      refine List.map_congr_left fun e he => ?_
      rw [Function.comp_apply, ih e he (all_obj hx e he)]
    rw [jsValue_obj, ofMembers]
    symm
    refine canonical_obj_perm hx.self ?_
    rw [← hmembers]
    exact ((SortedMap.perm_ofList hnames).map _).symm

/-! ### Texts -/

theorem bare_exponent {l : List Char} (h : isExponent l = true) : ∀ c ∈ l, isBare c = true := by
  have hmark : ∀ e : Char, (decide (e = 'e') || decide (e = 'E')) = true → isBare e = true := by
    intro e he
    rcases Bool.or_eq_true _ _ ▸ he with he | he
    · rw [of_decide_eq_true he]
      rfl
    · rw [of_decide_eq_true he]
      rfl
  have hdigits : ∀ l : List Char, l.all isAsciiDigit = true → ∀ c ∈ l, isBare c = true :=
    fun l hl c hc => isBare_of_digit (List.all_eq_true.mp hl c hc)
  unfold isExponent at h
  split at h
  · intro c hc
    cases hc
  all_goals
    simp only [Bool.and_eq_true] at h
    intro c hc
    simp only [List.mem_cons] at hc
  · rcases hc with rfl | rfl | hc
    · exact hmark _ h.1.1
    · rfl
    · exact hdigits _ h.2 c hc
  · rcases hc with rfl | rfl | hc
    · exact hmark _ h.1.1
    · rfl
    · exact hdigits _ h.2 c hc
  · rcases hc with rfl | hc
    · exact hmark _ h.1.1
    · exact hdigits _ h.2 c hc

theorem bare_fraction {l : List Char} (h : isFraction l = true) : ∀ c ∈ l, isBare c = true := by
  unfold isFraction at h
  split at h
  · rename_i rest
    rw [Bool.and_eq_true] at h
    intro c hc
    rcases List.mem_cons.mp hc with rfl | hc
    · rfl
    · rw [← List.takeWhile_append_dropWhile (p := isAsciiDigit) (l := rest)] at hc
      rcases List.mem_append.mp hc with hc | hc
      · exact isBare_of_digit (List.all_eq_true.mp List.all_takeWhile c hc)
      · exact bare_exponent h.2 c hc
  · exact bare_exponent h

theorem bare_isNumber {l : List Char} (h : isNumber l = true) : ∀ c ∈ l, isBare c = true := by
  have hunsigned : ∀ c ∈ unsigned l, isBare c = true := by
    rw [isNumber, Bool.and_eq_true] at h
    intro c hc
    rw [← List.takeWhile_append_dropWhile (p := isAsciiDigit) (l := unsigned l)] at hc
    rcases List.mem_append.mp hc with hc | hc
    · exact isBare_of_digit (List.all_eq_true.mp List.all_takeWhile c hc)
    · exact bare_fraction h.2 c hc
  intro c hc
  unfold unsigned at hunsigned
  split at hunsigned
  · rcases List.mem_cons.mp hc with rfl | hc
    · rfl
    · exact hunsigned c hc
  · exact hunsigned c hc

/-- A reader that knows the words. -/
structure Words (lit : List Char → Option Json) : Prop where
  null : lit "null".toList = some .null
  true : lit "true".toList = some (.bool true)
  false : lit "false".toList = some (.bool false)

theorem words_literal : Words (literal float) := ⟨rfl, rfl, rfl⟩

section
variable {lit : List Char → Option Json} {make : List (String × Json) → Json} {d : Nat}

theorem shaped_word {w : String} {x : Json} (hw : w.toList ≠ [])
    (hbare : w.toList.all isBare = true) (h : lit w.toList = some x) :
    Shaped lit make d w.toList x :=
  shaped_token (.inr ⟨hw, List.all_eq_true.mp hbare, h⟩)

theorem shaped_number {l : List Char} {x : Json} (hl : isNumber l = true) (h : lit l = some x) :
    Shaped lit make d l x := by
  refine shaped_token (.inr ⟨?_, bare_isNumber hl, h⟩)
  intro he
  rw [he] at hl
  cases hl

/-- A scalar that is no number. -/
theorem shaped_scalar (hlit : Words lit) {x : Json} (harr : asArray x = none)
    (hobj : asObject x = none) (hx : asF64 x = none) :
    Shaped lit make d (nodeJson js x).toList x := by
  cases x with
  | null => exact shaped_word (w := "null") (by decide) rfl hlit.null
  | bool b =>
    cases b with
    | true => exact shaped_word (w := "true") (by decide) rfl hlit.true
    | false => exact shaped_word (w := "false") (by decide) rfl hlit.false
  | str s => exact shaped_token (.inl ⟨s, quoted_quote s, rfl⟩)
  | int | float => cases hx
  | arr => cases harr
  | obj => cases hobj

/-! ### Brackets -/

theorem enclosed_false (depth : Nat) (opening closing : String) (entries : List String) :
    enclosed false depth opening closing entries =
      opening ++ String.intercalate "," entries ++ closing := by
  unfold enclosed
  split
  · rename_i hnil
    rw [hnil]
    simp
  · rfl

theorem blanks_indent (pretty : Bool) (n : Nat) :
    Blanks isSpace ("\n" ++ indent pretty n).toList := by
  intro c hc
  rw [String.toList_append] at hc
  rcases List.mem_append.mp hc with hc | hc
  · rw [List.mem_singleton.mp hc]
    rfl
  · unfold indent at hc
    split at hc
    · rw [String.toList_join] at hc
      obtain ⟨blank, hblank, hc⟩ := List.mem_flatMap.mp hc
      rw [List.eq_of_mem_replicate hblank] at hc
      simp only [String.reduceToList, List.mem_cons, List.not_mem_nil, or_false, or_self] at hc
      rw [hc]
      rfl
    · cases hc

theorem between_enclosed {α : Type} {P : List Char → α → Prop} {pretty : Bool} {depth : Nat}
    {opening closing : String} {entries : List String} {as : List α}
    (h : List.Forall₂ P (entries.map String.toList) as) :
    ∃ T, (enclosed pretty depth opening closing entries).toList =
      opening.toList ++ (T ++ closing.toList) ∧ Between isSpace P T as := by
  unfold enclosed
  split
  · rename_i hnil
    rw [hnil] at h
    cases h
    exact ⟨[], by simp, .inl ⟨blanks_nil, rfl⟩⟩
  · split
    · refine ⟨_, ?_, between_intercalate (blanks_indent pretty (depth + 1))
        (blanks_indent pretty depth) h⟩
      simp [String.toList_intercalate]
    · refine ⟨_, ?_, between_intercalate blanks_nil blanks_nil h⟩
      simp [String.toList_intercalate]

/-- The text of a member. -/
theorem member_entry {P : List Char → Json → Prop} {w text k : String} {x : Json}
    (hw : Blanks isSpace w.toList) (h : P text.toList x) :
    MemberText P (entryText (":" ++ w) (k, text)).toList (k, x) := by
  refine ⟨⟨(quote k).toList, [], w.toList, text.toList, ?_, quoted_quote k, blanks_nil, hw, h⟩⟩
  simp [entryText]

theorem shaped_arr {pretty : Bool} {depth : Nat} {entries : List String} {xs : List Json}
    (h : List.Forall₂ (Shaped lit make d) (entries.map String.toList) xs) :
    Shaped lit make (d + 1) (enclosed pretty depth "[" "]" entries).toList (.arr xs) := by
  obtain ⟨T, hT, hbetween⟩ := between_enclosed h
  exact .inr (.inl ⟨T, xs, hT, hbetween, rfl⟩)

theorem shaped_obj {pretty : Bool} {depth : Nat} {w : String} (hw : Blanks isSpace w.toList)
    {entries : List (String × String)} {ms : List (String × Json)}
    (h : List.Forall₂ (fun e f => e.1 = f.1 ∧ Shaped lit make d e.2.toList f.2) entries ms) :
    Shaped lit make (d + 1)
      (enclosed pretty depth "\x7b" "\x7d" (entries.map (entryText (":" ++ w)))).toList
      (make ms) := by
  have htexts : List.Forall₂ (MemberText (Shaped lit make d))
      ((entries.map (entryText (":" ++ w))).map String.toList) ms := by
    rw [List.map_map, List.forall₂_map_left_iff]
    refine h.imp fun e f hef => ?_
    obtain ⟨k, text⟩ := e
    obtain ⟨k', x⟩ := f
    obtain ⟨rfl, hshaped⟩ := hef
    exact member_entry hw hshaped
  obtain ⟨T, hT, hbetween⟩ := between_enclosed htexts
  exact .inr (.inr ⟨T, ms, hT, hbetween, rfl⟩)

theorem forall₂_maps {α β γ : Type} {R : β → γ → Prop} {l : List α} {f : α → β} {g : α → γ}
    (h : ∀ a ∈ l, R (f a) (g a)) : List.Forall₂ R (l.map f) (l.map g) := by
  rw [List.forall₂_map_left_iff, List.forall₂_map_right_iff, List.forall₂_same]
  exact h

/-! ### The text of the checksum -/

theorem canonical_arr (a : List Json) :
    canonical js (.arr a) = enclosed false 0 "[" "]" (a.map (canonical js)) := by
  rw [enclosed_false, canonical, canonicalItems_eq]

theorem canonical_obj (m : List (String × Json)) :
    canonical js (.obj m) = enclosed false 0 "\x7b" "\x7d"
      (((sortBy (fun e => encodeUtf16 e.1) m).map fun e => (e.1, canonical js e.2)).map
        (entryText ":")) := by
  rw [enclosed_false, canonical, canonicalMembers_eq, sortBy_entries]

/-- A text of doubles reads as the JavaScript value. -/
theorem shaped_canonical (hjs : NumberText js) (hlit : Words lit)
    (hnumber : ∀ q, IsDouble q → lit (js q).toList = some (.float q)) {x : Json}
    (hx : x.All IsNode) {d : Nat} (hd : x.depth ≤ d) :
    Shaped lit ofMembers d (canonical js x).toList (jsValue x) := by
  induction x using Json.induct generalizing d with
  | scalar x harr hobj =>
    have hdouble : ∀ q, asF64 x = some q → Shaped lit ofMembers d (js q).toList (.float q) := by
      intro q hq
      have hq := isDouble_of_asF64 hx.self hq
      exact shaped_number (hjs.number q hq) (hnumber q hq)
    cases x with
    | int n => exact hdouble _ rfl
    | float q => exact hdouble _ rfl
    | null | bool | str => exact shaped_scalar hlit rfl rfl rfl
    | arr => cases harr
    | obj => cases hobj
  | arr items ih =>
    simp only [depth] at hd
    obtain ⟨d, rfl⟩ : ∃ e, d = e + 1 := ⟨d - 1, by omega⟩
    rw [jsValue_arr, canonical_arr]
    refine shaped_arr ?_
    rw [List.map_map]
    refine forall₂_maps fun y hy => ?_
    have hdepth := depth_le_items hy
    exact ih y hy (all_arr hx y hy) (by omega)
  | obj members ih =>
    simp only [depth] at hd
    obtain ⟨d, rfl⟩ : ∃ e, d = e + 1 := ⟨d - 1, by omega⟩
    have hperm := SortBy.perm (fun e : String × Json => encodeUtf16 e.1) members
    have hvalue : jsValue (.obj members) =
        ofMembers ((sortBy (fun e => encodeUtf16 e.1) members).map fun e => (e.1, jsValue e.2)) := by
      rw [jsValue_obj]
      refine ofMembers_perm (hperm.symm.map _) ?_
      rw [names_map]
      exact hx.self
    rw [hvalue, canonical_obj]
    refine shaped_obj (w := "") blanks_nil (forall₂_maps fun e he => ⟨rfl, ?_⟩)
    have hmem := SortBy.mem_iff.mp he
    have hdepth := depth_le_members hmem
    exact ih e hmem (all_obj hx e hmem) (by omega)

end

open Classical in
/-- The literal of a text that is written for a double or is one of the words. -/
noncomputable def literalOf (js : ℚ → String) (l : List Char) : Option Json :=
  if l = "null".toList then some .null
  else if l = "true".toList then some (.bool true)
  else if l = "false".toList then some (.bool false)
  else if h : ∃ q, IsDouble q ∧ (js q).toList = l then some (.float h.choose)
  else none

theorem words_literalOf : Words (literalOf js) := ⟨rfl, rfl, rfl⟩

theorem literalOf_number (hjs : NumberText js) {q : ℚ} (hq : IsDouble q) :
    literalOf js (js q).toList = some (.float q) := by
  have hne : ∀ w : String, isNumber w.toList = false → (js q).toList ≠ w.toList := by
    intro w hw he
    have hnumber := hjs.number q hq
    rw [he, hw] at hnumber
    cases hnumber
  have hexists : ∃ r, IsDouble r ∧ (js r).toList = (js q).toList := ⟨q, hq, rfl⟩
  have hsame : hexists.choose = q :=
    hjs.injective _ _ hexists.choose_spec.1 hq (String.toList_inj.mp hexists.choose_spec.2)
  rw [literalOf, if_neg (hne "null" (by decide)), if_neg (hne "true" (by decide)),
    if_neg (hne "false" (by decide)), dif_pos hexists, hsame]

/-- The text tells the JavaScript value. -/
theorem canonical_eq_iff (hjs : NumberText js) {a b : Json} (ha : a.All IsNode)
    (hb : b.All IsNode) : canonical js a = canonical js b ↔ jsValue a = jsValue b := by
  constructor
  · intro h
    have hnumber := fun q (hq : IsDouble q) => literalOf_number hjs hq
    have hshapedA := shaped_canonical hjs words_literalOf hnumber ha (le_max_left a.depth b.depth)
    have hshapedB := shaped_canonical hjs words_literalOf hnumber hb (le_max_right a.depth b.depth)
    rw [h] at hshapedA
    exact shaped_unique hshapedA hshapedB
  · intro h
    rw [← canonical_jsValue ha, h, canonical_jsValue hb]

/-! ### The text of a section -/

mutual
/-- What the text of a section reads as, where a double reads as `number`. -/
def reread (number : ℚ → Json) : Json → Json
  | .int n => number (nearestDouble n)
  | .float q => number q
  | .arr a => .arr (rereadItems number a)
  | .obj m => .obj (sortBy (fun e => rank e.1) (rereadMembers number m))
  | x => x

def rereadItems (number : ℚ → Json) : List Json → List Json
  | [] => []
  | x :: rest => reread number x :: rereadItems number rest

def rereadMembers (number : ℚ → Json) : List (String × Json) → List (String × Json)
  | [] => []
  | (k, x) :: rest => (k, reread number x) :: rereadMembers number rest
end

theorem rereadItems_eq (number : ℚ → Json) (items : List Json) :
    rereadItems number items = items.map (reread number) := by
  induction items with
  | nil => rfl
  | cons x rest ih => simp [rereadItems, ih]

theorem rereadMembers_eq (number : ℚ → Json) (members : List (String × Json)) :
    rereadMembers number members = members.map fun e => (e.1, reread number e.2) := by
  induction members with
  | nil => rfl
  | cons e rest ih => simp [rereadMembers, ih]

theorem reread_obj (number : ℚ → Json) (members : List (String × Json)) :
    reread number (.obj members) =
      .obj ((sortBy (fun e => rank e.1) members).map fun e => (e.1, reread number e.2)) := by
  rw [reread, rereadMembers_eq, sortBy_entries]

/-- What the text of a double reads as. -/
def numeral (js : ℚ → String) (float : List Char → Option ℚ) (q : ℚ) : Json :=
  (literal float (js q).toList).getD .null

theorem numeral_reads {x : Json} (hx : ReadsBack js float x) {q : ℚ} (h : asF64 x = some q) :
    literal float (js q).toList = some (numeral js float q) ∧
      asF64 (numeral js float q) = some q := by
  obtain ⟨y, hy, hdouble⟩ := hx q h
  rw [numeral, hy]
  exact ⟨rfl, hdouble⟩

theorem encode_arr (pretty : Bool) (a : List Json) (k : Nat) :
    encode js pretty (.arr a) k =
      enclosed pretty k "[" "]" (a.map fun x => encode js pretty x (k + 1)) := by
  rw [encode, encodeItems_eq]

theorem encode_obj (pretty : Bool) (m : List (String × Json)) (k : Nat) :
    encode js pretty (.obj m) k = enclosed pretty k "\x7b" "\x7d"
      (((sortBy (fun e => rank e.1) m).map fun e => (e.1, encode js pretty e.2 (k + 1))).map
        (entryText (":" ++ if pretty then " " else ""))) := by
  rw [encode, encodeMembers_eq, sortBy_entries rank fun x => encode js pretty x (k + 1)]

/-- A number is written by its double. -/
theorem encode_number (pretty : Bool) {x : Json} {q : ℚ} (h : asF64 x = some q) (k : Nat) :
    encode js pretty x k = js q := by
  cases x with
  | int | float =>
    cases h
    rfl
  | null | bool | str | arr | obj => cases h

theorem canonical_number {x : Json} {q : ℚ} (h : asF64 x = some q) : canonical js x = js q := by
  cases x with
  | int | float =>
    cases h
    rfl
  | null | bool | str | arr | obj => cases h

theorem reread_number (number : ℚ → Json) {x : Json} {q : ℚ} (h : asF64 x = some q) :
    reread number x = number q := by
  cases x with
  | int | float =>
    cases h
    rfl
  | null | bool | str | arr | obj => cases h

/-- Other scalars are left alone. -/
theorem reread_scalar (number : ℚ → Json) {x : Json} (harr : asArray x = none)
    (hobj : asObject x = none) (h : asF64 x = none) : reread number x = x := by
  cases x with
  | null | bool | str => rfl
  | int | float => cases h
  | arr => cases harr
  | obj => cases hobj

theorem encode_scalar (pretty : Bool) {x : Json} (harr : asArray x = none)
    (hobj : asObject x = none) (h : asF64 x = none) (k : Nat) :
    encode js pretty x k = nodeJson js x := by
  cases x with
  | null | bool | str => rfl
  | int | float => cases h
  | arr => cases harr
  | obj => cases hobj

theorem blanks_space (pretty : Bool) :
    Blanks isSpace (if pretty then " " else "" : String).toList := by
  intro c hc
  cases pretty with
  | true =>
    rw [List.mem_singleton.mp hc]
    rfl
  | false => cases hc

theorem shaped_encode (hjs : NumberText js) {x : Json} (hx : x.All IsNode)
    (hback : x.All (ReadsBack js float)) (pretty : Bool) (k : Nat) {d : Nat} (hd : x.depth ≤ d) :
    Shaped (literal float) inOrder d (encode js pretty x k).toList
      (reread (numeral js float) x) := by
  induction x using Json.induct generalizing d k with
  | scalar x harr hobj =>
    cases hq : asF64 x with
    | none =>
      rw [encode_scalar pretty harr hobj hq, reread_scalar _ harr hobj hq]
      exact shaped_scalar words_literal harr hobj hq
    | some q =>
      rw [encode_number pretty hq, reread_number _ hq]
      exact shaped_number (hjs.number q (isDouble_of_asF64 hx.self hq))
        (numeral_reads hback.self hq).1
  | arr items ih =>
    simp only [depth] at hd
    obtain ⟨d, rfl⟩ : ∃ e, d = e + 1 := ⟨d - 1, by omega⟩
    rw [reread, rereadItems_eq, encode_arr]
    refine shaped_arr ?_
    rw [List.map_map]
    refine forall₂_maps fun y hy => ?_
    have hdepth := depth_le_items hy
    exact ih y hy (all_arr hx y hy) (all_arr hback y hy) (k + 1) (by omega)
  | obj members ih =>
    simp only [depth] at hd
    obtain ⟨d, rfl⟩ : ∃ e, d = e + 1 := ⟨d - 1, by omega⟩
    have hperm := SortBy.perm (fun e : String × Json => rank e.1) members
    have hnames : (((sortBy (fun e => rank e.1) members).map fun e =>
        (e.1, reread (numeral js float) e.2)).map Prod.fst).Nodup := by
      rw [names_map]
      exact (hperm.map Prod.fst).nodup_iff.mpr hx.self
    rw [reread_obj, ← inOrder_of_nodup hnames, encode_obj]
    refine shaped_obj (blanks_space pretty) (forall₂_maps fun e he => ⟨rfl, ?_⟩)
    have hmem := SortBy.mem_iff.mp he
    have hdepth := depth_le_members hmem
    exact ih e hmem (all_obj hx e hmem) (all_obj hback e hmem) (k + 1) (by omega)

/-- Reading again does not change the text of the checksum. -/
theorem canonical_reread {x : Json} (hx : x.All IsNode) (hback : x.All (ReadsBack js float)) :
    canonical js (reread (numeral js float) x) = canonical js x := by
  induction x using Json.induct with
  | scalar x harr hobj =>
    cases hq : asF64 x with
    | none => rw [reread_scalar _ harr hobj hq]
    | some q =>
      rw [reread_number _ hq, canonical_number hq]
      exact canonical_number (numeral_reads hback.self hq).2
  | arr items ih =>
    rw [reread, rereadItems_eq, canonical_arr, canonical_arr, List.map_map]
    congr 1
    exact List.map_congr_left fun y hy => ih y hy (all_arr hx y hy) (all_arr hback y hy)
  | obj members ih =>
    have hmembers : (members.map fun e => (e.1, reread (numeral js float) e.2)).map
        (fun e => (e.1, canonical js e.2)) = members.map fun e => (e.1, canonical js e.2) := by
      rw [List.map_map]
      refine List.map_congr_left fun e he => ?_
      rw [Function.comp_apply, ih e he (all_obj hx e he) (all_obj hback e he)]
    have hperm := SortBy.perm (fun e : String × Json => rank e.1)
      (members.map fun e => (e.1, reread (numeral js float) e.2))
    rw [reread, rereadMembers_eq]
    symm
    refine canonical_obj_perm hx.self ?_
    rw [← hmembers]
    exact (hperm.map _).symm

/-- Nor the text of the section. -/
theorem encode_reread {x : Json} (hback : x.All (ReadsBack js float)) (pretty : Bool) (k : Nat) :
    encode js pretty (reread (numeral js float) x) k = encode js pretty x k := by
  induction x using Json.induct generalizing k with
  | scalar x harr hobj =>
    cases hq : asF64 x with
    | none => rw [reread_scalar _ harr hobj hq]
    | some q =>
      rw [reread_number _ hq, encode_number pretty hq]
      exact encode_number pretty (numeral_reads hback.self hq).2 k
  | arr items ih =>
    rw [reread, rereadItems_eq, encode_arr, encode_arr, List.map_map]
    congr 1
    exact List.map_congr_left fun y hy => ih y hy (all_arr hback y hy) (k + 1)
  | obj members ih =>
    have hsorted : ((sortBy (fun e => rank e.1) members).map fun e =>
        (e.1, reread (numeral js float) e.2)).map (fun e => (e.1, encode js pretty e.2 (k + 1))) =
        (sortBy (fun e => rank e.1) members).map fun e => (e.1, encode js pretty e.2 (k + 1)) := by
      rw [List.map_map]
      refine List.map_congr_left fun e he => ?_
      have hmem := SortBy.mem_iff.mp he
      rw [Function.comp_apply, ih e hmem (all_obj hback e hmem)]
    rw [reread_obj, encode_obj, encode_obj, sortBy_entries, SortBy.sortBy_sortBy, hsorted]

/-! ### The checksum -/

/-- Two values have one text exactly when they differ in the order of members and the spelling of
numbers only. A section whose numbers read back, nested no deeper than the parser goes, has the same
checksum and the same texts after it was written and parsed. -/
theorem backup_checksums (hjs : NumberText js) (float : List Char → Option ℚ)
    (digest : String → String) :
    (∀ a b : Json, a.All IsNode → b.All IsNode →
      (canonical js a = canonical js b ↔ jsValue a = jsValue b)) ∧
    ∀ (a : Json) (pretty : Bool), a.All IsNode → a.All (ReadsBack js float) → a.depth ≤ maxDepth →
      ∃ b, fromStr float (stringify js a pretty) = some b ∧
        checksum js digest b = checksum js digest a ∧
        ∀ again, stringify js b again = stringify js a again := by
  refine ⟨fun a b ha hb => canonical_eq_iff hjs ha hb, fun a pretty ha hback hdepth => ?_⟩
  have hshaped := shaped_encode hjs ha hback pretty 0 hdepth
  refine ⟨reread (numeral js float) a, readInOrder_of_shaped hshaped, ?_, fun again => ?_⟩
  · rw [checksum, checksum, canonical_reread ha hback]
  · exact encode_reread hback again 0

/-! ### Two near doubles -/

/-- 31.245270191439438 and the next double. -/
def nearby : ℚ × ℚ := (4397380849726785 / 2 ^ 47, 8794761699453571 / 2 ^ 48)

/-- Whole numbers in digits; another fraction by its numerator and denominator. -/
def plainText (q : ℚ) : String :=
  toString q.num ++ if q.den = 1 then "" else "e" ++ toString q.den

def sampleJs (q : ℚ) : String :=
  if q = nearby.1 then "31.245270191439438"
  else if q = nearby.2 then "31.24527019143944"
  else plainText q

/-- The parser takes the digits as a double before it divides by the power of ten, and both texts
come out as one double. -/
def sampleFloat (l : List Char) : Option ℚ :=
  if l = "31.245270191439438".toList ∨ l = "31.24527019143944".toList then some nearby.2 else none

def whole : List Char → ℤ
  | '-' :: rest => -(decimal rest : ℤ)
  | l => decimal l

def unplain (l : List Char) : ℚ :=
  whole (l.takeWhile (· ≠ 'e')) /
    match l.dropWhile (· ≠ 'e') with
    | [] => 1
    | _ :: rest => decimal rest

theorem whole_toString (n : ℤ) : whole (toString n).toList = n := by
  cases n with
  | ofNat m =>
    rw [Int.ofNat_eq_natCast, toString_ofNat, whole]
    · rw [decimal_toString]
    · intro rest he
      have hdigit := List.all_eq_true.mp (digits_toString m) '-' (by rw [he]; simp)
      cases hdigit
  | negSucc m =>
    rw [toString_negSucc, whole, decimal_toString, Int.negSucc_eq]
    rfl

theorem chars_toString (n : ℤ) : ∀ c ∈ (toString n).toList, c = '-' ∨ isAsciiDigit c = true := by
  cases n with
  | ofNat m =>
    rw [Int.ofNat_eq_natCast, toString_ofNat]
    exact fun c hc => .inr (List.all_eq_true.mp (digits_toString m) c hc)
  | negSucc m =>
    rw [toString_negSucc]
    intro c hc
    exact (List.mem_cons.mp hc).imp_right (List.all_eq_true.mp (digits_toString (m + 1)) c)

theorem isWhole_unsigned (n : ℤ) : isWhole (unsigned (toString n).toList) = true := by
  cases n with
  | ofNat m =>
    rw [Int.ofNat_eq_natCast, toString_ofNat, unsigned]
    · exact isWhole_toString m
    · intro rest he
      have hdigit := List.all_eq_true.mp (digits_toString m) '-' (by rw [he]; simp)
      cases hdigit
  | negSucc m =>
    rw [toString_negSucc]
    exact isWhole_toString (m + 1)

/-- What follows the numerator. -/
def plainTail (q : ℚ) : List Char :=
  if q.den = 1 then [] else 'e' :: (toString q.den).toList

theorem plainText_parts (q : ℚ) :
    (plainText q).toList = (toString q.num).toList ++ plainTail q := by
  unfold plainText plainTail
  split <;> simp

theorem stops_plainTail {bare : Char → Bool} (h : bare 'e' = false) (q : ℚ) :
    Stops bare (plainTail q) := by
  unfold plainTail
  intro c hc
  split at hc
  · cases hc
  · cases hc
    exact h

theorem unplain_plainText (q : ℚ) : unplain (plainText q).toList = q := by
  have hdigits : ∀ c ∈ (toString q.num).toList, decide (c ≠ 'e') = true := by
    intro c hc
    rw [decide_eq_true_eq]
    intro he
    rw [he] at hc
    rcases chars_toString q.num _ hc with h | h <;> cases h
  obtain ⟨htake, hdrop⟩ := span_stops hdigits (stops_plainTail (by simp) q)
  rw [unplain, plainText_parts, htake, hdrop, whole_toString, plainTail]
  split_ifs with hden
  · have hself := Rat.num_div_den q
    rw [hden] at hself
    simpa using hself
  · simp only [decimal_toString]
    exact Rat.num_div_den q

theorem dot_not_mem_plainText (q : ℚ) : '.' ∉ (plainText q).toList := by
  have hdigit : ∀ n : ℕ, '.' ∉ (toString n).toList := by
    intro n h
    have hdot := List.all_eq_true.mp (digits_toString n) '.' h
    cases hdot
  rw [plainText_parts, plainTail]
  intro h
  rcases List.mem_append.mp h with h | h
  · rcases chars_toString q.num _ h with h | h <;> cases h
  · split_ifs at h
    · cases h
    · rcases List.mem_cons.mp h with h | h
      · cases h
      · exact hdigit _ h

theorem isFraction_plainTail (q : ℚ) : isFraction (plainTail q) = true := by
  unfold plainTail
  split_ifs
  · rfl
  · have hdigits : (toString q.den).toList.all isAsciiDigit = true := digits_toString q.den
    have hne : (toString q.den).toList ≠ [] := fun h =>
      toString_ne_empty q.den (String.toList_inj.mp h)
    obtain ⟨d, rest, hl⟩ := List.exists_cons_of_ne_nil hne
    rw [hl] at hdigits ⊢
    have hd : ∀ e : Char, isAsciiDigit e = false → d ≠ e := by
      intro e he hde
      rw [hde] at hdigits
      rw [List.all_cons, he] at hdigits
      cases hdigits
    rw [isFraction, isExponent]
    · rw [hdigits]
      rfl
    · exact fun _ h => hd '+' rfl (List.cons.inj h).1
    · exact fun _ h => hd '-' rfl (List.cons.inj h).1
    · intro _ h
      cases h

theorem isNumber_plainText (q : ℚ) : isNumber (plainText q).toList = true := by
  have hwhole := isWhole_unsigned q.num
  have hunsigned : unsigned (plainText q).toList =
      unsigned (toString q.num).toList ++ plainTail q := by
    rw [plainText_parts]
    cases hl : (toString q.num).toList with
    | nil =>
      rw [hl] at hwhole
      cases hwhole
    | cons c rest =>
      rw [List.cons_append]
      unfold unsigned
      split
      · rename_i heq
        cases heq
        rfl
      · rename_i hother
        split
        · rename_i heq
          cases heq
          exact absurd rfl (hother _)
        · rfl
  have hdigits : ∀ c ∈ unsigned (toString q.num).toList, isAsciiDigit c = true := by
    simp only [isWhole, Bool.and_eq_true] at hwhole
    exact List.all_eq_true.mp hwhole.1.2
  obtain ⟨htake, hdrop⟩ := span_stops hdigits (stops_plainTail rfl q)
  rw [isNumber, hunsigned, htake, hdrop, hwhole, isFraction_plainTail]
  rfl

theorem numberText_sample : NumberText sampleJs where
  number := by
    intro q _
    unfold sampleJs
    split_ifs
    · decide
    · decide
    · exact isNumber_plainText q
  injective := by
    have hplain : ∀ r : ℚ, ∀ t : String, '.' ∈ t.toList → plainText r ≠ t := by
      intro r t ht he
      rw [← he] at ht
      exact dot_not_mem_plainText r ht
    intro q r _ _ h
    unfold sampleJs at h
    split_ifs at h with hq hr hr' hq' hr hr' hr hr'
    · rw [hq, hr]
    · exact absurd h (by decide)
    · exact absurd h.symm (hplain _ _ (by decide))
    · exact absurd h (by decide)
    · rw [hq', hr']
    · exact absurd h.symm (hplain _ _ (by decide))
    · exact absurd h (hplain _ _ (by decide))
    · exact absurd h (hplain _ _ (by decide))
    · rw [← unplain_plainText q, ← unplain_plainText r, h]

theorem nearby_ne : nearby.2 ≠ nearby.1 := by
  norm_num [nearby]

theorem isDouble_nearby : IsDouble nearby.1 := by
  refine ⟨4397380849726785, 1027, by decide, by omega, ?_⟩
  have hpow : (2 : ℚ) ^ 1074 = 2 ^ 47 * 2 ^ 1027 := pow_add 2 47 1027
  have hpos : (2 : ℚ) ^ 1027 ≠ 0 := by positivity
  rw [hpow, mul_div_mul_right _ _ hpos]
  rfl

/-- With the first of them the checksum changes. -/
theorem checksum_kept_false :
    ¬ ∀ (digest : String → String) (a : Json) (pretty : Bool), a.All IsNode →
      ∃ b, fromStr sampleFloat (stringify sampleJs a pretty) = some b ∧
        checksum sampleJs digest b = checksum sampleJs digest a := by
  intro h
  obtain ⟨b, hread, hsame⟩ := h id (.float nearby.1) false isDouble_nearby
  have hfirst : sampleJs nearby.1 = "31.245270191439438" := if_pos rfl
  have hsecond : sampleJs nearby.2 = "31.24527019143944" := by
    rw [sampleJs, if_neg nearby_ne, if_pos rfl]
  have hparsed : fromStr sampleFloat (stringify sampleJs (.float nearby.1) false) =
      some (.float nearby.2) := by
    change readInOrder sampleFloat (sampleJs nearby.1).toList = _
    rw [hfirst]
    exact readInOrder_of_shaped (shaped_number (by decide) rfl)
  rw [hparsed] at hread
  cases hread
  change sampleJs nearby.2 = sampleJs nearby.1 at hsame
  rw [hfirst, hsecond] at hsame
  exact absurd hsame (by decide)

theorem sampleJs_whole (n : ℤ) : sampleJs n = toString n := by
  have hfirst : (n : ℚ) ≠ nearby.1 := by
    intro he
    have hscaled : (n : ℚ) * 2 ^ 47 = 4397380849726785 := by
      rw [he]
      norm_num [nearby]
    have hint : n * 2 ^ 47 = 4397380849726785 := by exact_mod_cast hscaled
    omega
  have hsecond : (n : ℚ) ≠ nearby.2 := by
    intro he
    have hscaled : (n : ℚ) * 2 ^ 48 = 8794761699453571 := by
      rw [he]
      norm_num [nearby]
    have hint : n * 2 ^ 48 = 8794761699453571 := by exact_mod_cast hscaled
    omega
  rw [sampleJs, if_neg hfirst, if_neg hsecond, plainText]
  simp

theorem readsBack_whole {n : ℤ} (h : n.natAbs ≤ 2 ^ 53) {x : Json} (hx : asF64 x = some (n : ℚ)) :
    ReadsBack sampleJs sampleFloat x := by
  intro q hq
  rw [hx] at hq
  cases hq
  refine ⟨.int n, ?_, ?_⟩
  · rw [sampleJs_whole]
    exact (bare_toString (by omega) (by omega)).reads
  · rw [asF64, Privd.nearestDouble_small h]

theorem readsBack_other {x : Json} (hx : asF64 x = none) : ReadsBack js float x := by
  intro q hq
  rw [hx] at hq
  cases hq

theorem isDouble_whole {n : ℤ} (h : n.natAbs ≤ 2 ^ 53) : IsDouble n := by
  have hdouble := @isDouble_scaled n 0 h (by omega)
  simpa using hdouble

def sampleSection : Json := .obj [("b", .arr [.int 7, .null]), ("a", .float 2)]

theorem backup_checksums_kept :
    canonical sampleJs sampleSection =
      canonical sampleJs (.obj [("a", .int 2), ("b", .arr [.float 7, .null])]) ∧
    ∃ b, fromStr sampleFloat (stringify sampleJs sampleSection true) = some b ∧
      checksum sampleJs id b = checksum sampleJs id sampleSection ∧
      ∀ again, stringify sampleJs b again = stringify sampleJs sampleSection again := by
  have htwo : IsDouble 2 := by exact_mod_cast @isDouble_whole 2 (by decide)
  have hseven : IsDouble 7 := by exact_mod_cast @isDouble_whole 7 (by decide)
  have hnames : ["b", "a"].Nodup := by decide
  have hsample : sampleSection.All IsNode :=
    ⟨hnames, ⟨trivial, ⟨by decide, by decide⟩, trivial, trivial⟩, htwo, trivial⟩
  have hother : Json.All IsNode (.obj [("a", .int 2), ("b", .arr [.float 7, .null])]) :=
    ⟨List.nodup_reverse.mpr hnames, ⟨by decide, by decide⟩,
      ⟨trivial, hseven, trivial, trivial⟩, trivial⟩
  have hreads : sampleSection.All (ReadsBack sampleJs sampleFloat) :=
    ⟨readsBack_other rfl, ⟨readsBack_other rfl, readsBack_whole (n := 7) (by decide) rfl,
      readsBack_other rfl, trivial⟩, readsBack_whole (n := 2) (by decide) rfl, trivial⟩
  obtain ⟨hsame, hkept⟩ := backup_checksums numberText_sample sampleFloat id
  exact ⟨(hsame _ _ hsample hother).mpr (by decide), hkept _ true hsample hreads (by decide)⟩

end NdimonR.State.Legacy
