import NdimonR.Library.Text

/-! Texts made of lines, and lines made of words: what reading them back gives. -/

namespace NdimonR.Text

/-- The lines of a text, each ended by a newline. -/
def unlines (ls : List String) : String := String.ofList (ls.flatMap fun l => l.toList ++ ['\n'])

/-- A line that reading leaves as it is. -/
structure Line (l : String) : Prop where
  single : '\n' ∉ l.toList
  ended : endsWith (· == '\r') l = false

theorem splitOnP_unlines {ls : List String} (h : ∀ l ∈ ls, '\n' ∉ l.toList) :
    (ls.flatMap fun l => l.toList ++ ['\n']).splitOnP (· == '\n') =
      ls.map String.toList ++ [[]] := by
  induction ls with
  | nil => rfl
  | cons l ls ih =>
    have hl : ∀ c ∈ l.toList, (c == '\n') = false := by
      intro c hc
      exact beq_false_of_ne (ne_of_mem_of_not_mem hc (h l List.mem_cons_self))
    rw [List.flatMap_cons, List.append_assoc, List.singleton_append,
      List.splitOnP_append_cons_of_forall_mem hl _ (by simp) _,
      ih fun m hm => h m (List.mem_cons_of_mem l hm)]
    simp

theorem lines_unlines {ls : List String} (h : ∀ l ∈ ls, Line l) : lines (unlines ls) = ls := by
  have hsplit : split '\n' (unlines ls) = ls ++ [""] := by
    unfold split unlines
    rw [String.toList_ofList, splitOnP_unlines fun l hl => (h l hl).single]
    simp [Function.comp_def]
  have hkept : ls.map (fun piece =>
      if endsWith (· == '\r') piece then String.ofList piece.toList.dropLast else piece) = ls := by
    conv_rhs => rw [← List.map_id ls]
    apply List.map_congr_left
    intro l hl
    simp [(h l hl).ended]
  simp [lines, hsplit, hkept]

theorem unlines_append (a b : List String) : unlines (a ++ b) = unlines a ++ unlines b := by
  apply String.toList_inj.mp
  simp [unlines]

/-- Characters that no line break and no space is among. -/
theorem line_of_all {p : Char → Bool} {s : String} (hn : p '\n' = false) (hr : p '\r' = false)
    (h : all p s = true) : Line s := by
  have hall := List.all_eq_true.mp h
  constructor
  · intro hm
    have := hall _ hm
    simp [hn] at this
  · unfold endsWith
    cases hl : s.toList.getLast? with
    | none => rfl
    | some c =>
      have hc : p c = true := hall c (List.mem_of_getLast? hl)
      by_cases hcr : c = '\r'
      · rw [hcr, hr] at hc
        cases hc
      · simp [hcr]

theorem startsWith_append {p : Char → Bool} {a : String} (b : String) (ha : a ≠ "") :
    startsWith p (a ++ b) = startsWith p a := by
  unfold startsWith
  cases hl : a.toList with
  | nil => exact absurd (String.toList_inj.mp (hl.trans (by simp))) ha
  | cons c rest => simp [hl]

theorem endsWith_append {p : Char → Bool} (a : String) {b : String} (hb : b ≠ "") :
    endsWith p (a ++ b) = endsWith p b := by
  unfold endsWith
  have hne : b.toList ≠ [] := fun hl => hb (String.toList_inj.mp (hl.trans (by simp)))
  rw [String.toList_append, List.getLast?_append_of_ne_nil _ hne]

theorem trim_eq_self {s : String} (hs : startsWith isWhitespace s = false)
    (he : endsWith isWhitespace s = false) : trim s = s := by
  apply String.toList_inj.mp
  rw [toList_trim]
  unfold trimList
  have hdrop : s.toList.dropWhile isWhitespace = s.toList := by
    cases hl : s.toList with
    | nil => rfl
    | cons c rest =>
      have hc : isWhitespace c = false := by simpa [startsWith, hl] using hs
      simp [hc]
  rw [hdrop, List.rdropWhile_eq_self_iff]
  intro hne hlast
  have hlast' : s.toList.getLast? = some (s.toList.getLast hne) := List.getLast?_eq_some_getLast hne
  simp [endsWith, hlast', hlast] at he

/-! ### Words -/

/-- A nonempty run of characters without white space. -/
structure Word (s : String) : Prop where
  nonempty : s ≠ ""
  solid : any isWhitespace s = false

theorem Word.not_mem {s : String} (h : Word s) : ∀ c ∈ s.toList, isWhitespace c = false := by
  simpa [any] using h.solid

theorem Word.trim {s : String} (h : Word s) : Text.trim s = s := by
  apply trim_eq_self
  · unfold startsWith
    cases hl : s.toList with
    | nil => rfl
    | cons c rest => simpa using h.not_mem c (by simp [hl])
  · unfold endsWith
    cases hl : s.toList.getLast? with
    | none => rfl
    | some c => simpa using h.not_mem c (List.mem_of_getLast? hl)

theorem Word.line {s : String} (h : Word s) : Line s := by
  apply line_of_all (p := fun c => !isWhitespace c) (by decide) (by decide)
  simpa [all] using h.not_mem

theorem word_of_all {p : Char → Bool} {s : String} (hne : s ≠ "")
    (hp : ∀ c, p c = true → isWhitespace c = false) (h : all p s = true) : Word s where
  nonempty := hne
  solid := by
    simp only [any, List.any_eq_false, Bool.not_eq_true]
    exact fun c hc => hp c (List.all_eq_true.mp h c hc)

/-- The words of a list, one space between them. -/
def unwords (ws : List String) : String := String.intercalate " " ws

theorem toList_unwords_cons (w : String) (v : String) (ws : List String) :
    (unwords (w :: v :: ws)).toList = w.toList ++ ' ' :: (unwords (v :: ws)).toList := by
  simp [unwords]

theorem unwords_cons (w : String) (v : String) (ws : List String) :
    unwords (w :: v :: ws) = w ++ " " ++ unwords (v :: ws) := by
  apply String.toList_inj.mp
  simp [unwords]

theorem not_mem_of_splitOnP {p : Char → Bool} {l w : List Char} (h : w ∈ l.splitOnP p) :
    ∀ c ∈ w, p c = false := by
  induction l generalizing w with
  | nil =>
    rw [List.splitOnP_nil, List.mem_singleton] at h
    simp [h]
  | cons d rest ih =>
    obtain ⟨first, more, hsplit⟩ := List.exists_cons_of_ne_nil (List.splitOnP_ne_nil p rest)
    rw [hsplit] at ih
    rw [List.splitOnP_cons_eq_if_modifyHead, hsplit] at h
    split at h
    · rcases List.mem_cons.mp h with rfl | h
      · simp
      · exact ih h
    · rename_i hd
      rcases List.mem_cons.mp h with rfl | h
      · simpa [hd] using ih List.mem_cons_self
      · exact ih (List.mem_cons_of_mem _ h)

/-- What stands between the characters of a kind, nothing left out but what is empty. -/
def pieces (p : Char → Bool) (s : String) : List String :=
  ((s.toList.splitOnP p).filter (· ≠ [])).map String.ofList

theorem mem_pieces {p : Char → Bool} {s w : String} (h : w ∈ pieces p s) :
    w ≠ "" ∧ ∀ c ∈ w.toList, p c = false := by
  obtain ⟨l, hl, rfl⟩ := List.mem_map.mp h
  obtain ⟨hsplit, hne⟩ := List.mem_filter.mp hl
  constructor
  · intro hempty
    have : l = [] := by simpa using congrArg String.toList hempty
    simp [this] at hne
  · simpa using not_mem_of_splitOnP hsplit

theorem pieces_unwords {p : Char → Bool} (hp : p ' ' = true) {ws : List String}
    (h : ∀ w ∈ ws, w ≠ "" ∧ ∀ c ∈ w.toList, p c = false) : pieces p (unwords ws) = ws := by
  unfold pieces
  induction ws with
  | nil => rfl
  | cons w ws ih =>
    obtain ⟨hempty, hsolid⟩ := h w List.mem_cons_self
    have hne : w.toList ≠ [] := by simpa using hempty
    cases ws with
    | nil =>
      have hw : w.toList.splitOnP p = [w.toList] := List.splitOnP_eq_singleton hsolid
      simp [unwords, hw, hempty]
    | cons v ws =>
      have hrest := ih fun u hu => h u (List.mem_cons_of_mem w hu)
      rw [toList_unwords_cons, List.splitOnP_append_cons_of_forall_mem hsolid _ hp _,
        List.filter_cons_of_pos (by simpa using hne), List.map_cons, hrest]
      simp

theorem splitWhitespace_unwords {ws : List String} (h : ∀ w ∈ ws, Word w) :
    splitWhitespace (unwords ws) = ws :=
  pieces_unwords (by decide) fun w hw => ⟨(h w hw).nonempty, (h w hw).not_mem⟩

/-! ### Numbers and assignments -/

theorem digits_toString (n : Nat) : all isAsciiDigit (toString n) = true := by
  have h : (toString n).toList = Nat.toDigits 10 n := Nat.toList_repr
  rw [all, List.all_eq_true, h]
  intro c hc
  have hd := Nat.isDigit_of_mem_toDigits (by decide) (by decide) hc
  simpa [Char.isDigit, isAsciiDigit, Char.le_def] using hd

theorem toString_ne_empty (n : Nat) : toString n ≠ "" := by
  intro h
  have hl : Nat.toDigits 10 n = [] := Nat.toList_repr.symm.trans (congrArg String.toList h)
  exact Nat.toDigits_ne_nil hl

theorem not_whitespace_of_digit {c : Char} (h : isAsciiDigit c = true) : isWhitespace c = false := by
  have := isAsciiDigit_bounds h
  simp only [isWhitespace, Bool.or_eq_false_iff, Bool.and_eq_false_iff, decide_eq_false_iff_not,
    beq_eq_false_iff_ne]
  omega

theorem word_toString (n : Nat) : Word (toString n) :=
  word_of_all (toString_ne_empty n) (fun _ => not_whitespace_of_digit) (digits_toString n)

theorem parseUnsigned_le {max n : Nat} {s : String} (h : parseUnsigned max s = some n) :
    n ≤ max := by
  simp only [parseUnsigned, Option.ite_none_right_eq_some, Option.some.injEq] at h
  obtain ⟨⟨-, -, hle⟩, rfl⟩ := h
  exact hle

theorem decimal_toString (n : Nat) : decimal (toString n).toList = n := by
  have hl : (toString n).toList = Nat.toDigits 10 n := Nat.toList_repr
  rw [hl]
  exact (Nat.ofDigitChars_eq_foldl).symm.trans Nat.ofDigitChars_ten_toDigits

/-- A number is written without leading zeros. -/
theorem head_toString {n : Nat} (h : 0 < n) : (toString n).toList.head? ≠ some '0' := by
  have hl : (toString n).toList = Nat.toDigits 10 n := Nat.toList_repr
  rw [hl]
  clear hl
  induction n using Nat.strongRecOn with
  | _ n ih =>
    by_cases hsmall : n < 10
    · have hdigit : ∀ n < 10, 0 < n → [Nat.digitChar n].head? ≠ some '0' := by decide
      rw [Nat.toDigits_of_lt_base hsmall]
      exact hdigit n hsmall h
    · rw [Nat.toDigits_of_base_le (by decide) (by omega),
        List.head?_append_of_ne_nil _ Nat.toDigits_ne_nil]
      exact ih (n / 10) (by omega) (by omega)

/-- Reading a written number. -/
theorem parseUnsigned_toString {max n : Nat} (h : n ≤ max) :
    parseUnsigned max (toString n) = some n := by
  have hdigits := digits_toString n
  have hl : (toString n).toList = Nat.toDigits 10 n := Nat.toList_repr
  have hsign : '+' ∉ (toString n).toList := by
    intro hm
    have := List.all_eq_true.mp hdigits _ hm
    simp [isAsciiDigit] at this
  have hvalue := decimal_toString n
  have hne : (toString n).toList ≠ [] := by
    rw [hl]
    exact Nat.toDigits_ne_nil
  rw [parseUnsigned_plain hsign, if_pos ⟨hne, hdigits, hvalue.symm ▸ h⟩, hvalue]

/-- A written number reads as no other. -/
theorem eq_of_parseUnsigned {max n k : Nat} (h : parseUnsigned max (toString n) = some k) :
    n = k := by
  rw [parseUnsigned_plain, decimal_toString] at h
  · simp only [Option.ite_none_right_eq_some] at h
    exact Option.some.inj h.2
  · intro hsign
    have := List.all_eq_true.mp (digits_toString n) _ hsign
    simp [isAsciiDigit] at this

/-- A text is cut at the first separator, which its left part does not have. -/
theorem splitOnce_append {lit a b : String} {c : Char} (hlit : lit.toList = [c])
    (h : c ∉ a.toList) : splitOnce lit (a ++ lit ++ b) = some (a, b) := by
  have hcut := cut_append b.toList h (show c ∉ ([] : List Char) by simp)
  simp only [List.nil_append, List.append_assoc, List.singleton_append] at hcut
  simp [splitOnce, hlit, hcut]

theorem append_of_splitOnce {lit s a b : String} (h : splitOnce lit s = some (a, b)) :
    s = a ++ lit ++ b := by
  obtain ⟨⟨x, y⟩, hcut, heq⟩ := Option.map_eq_some_iff.mp h
  simp only [Prod.mk.injEq] at heq
  obtain ⟨rfl, rfl⟩ := heq
  apply String.toList_inj.mp
  simpa using append_of_cut hcut

theorem not_mem_of_cut {c : Char} {l a b : List Char} (h : cut [c] l = some (a, b)) : c ∉ a := by
  induction l generalizing a b with
  | nil => simp [cut] at h
  | cons d rest ih =>
    simp only [cut] at h
    split at h
    · simp only [Option.some.injEq, Prod.mk.injEq] at h
      rw [← h.1]
      simp
    · rename_i hlit
      obtain ⟨⟨a', b'⟩, hcut, heq⟩ := Option.map_eq_some_iff.mp h
      simp only [Prod.mk.injEq] at heq
      rw [← heq.1]
      intro hmem
      rcases List.mem_cons.mp hmem with rfl | hmem
      · simp [List.isPrefixOf] at hlit
      · exact ih hcut hmem

/-- A text is cut at the last separator exactly where no other follows. -/
theorem rsplitOnce_eq_some {c : Char} {lit s a b : String} (hlit : lit.toList = [c]) :
    rsplitOnce c s = some (a, b) ↔ s = a ++ lit ++ b ∧ c ∉ b.toList := by
  unfold rsplitOnce
  constructor
  · intro h
    obtain ⟨⟨x, y⟩, hcut, heq⟩ := Option.map_eq_some_iff.mp h
    simp only [Prod.mk.injEq] at heq
    obtain ⟨rfl, rfl⟩ := heq
    have happend := congrArg List.reverse (append_of_cut hcut)
    refine ⟨String.toList_inj.mp ?_, by simpa using not_mem_of_cut hcut⟩
    simpa [hlit] using happend
  · rintro ⟨rfl, hb⟩
    have hcut := cut_append a.toList.reverse (show c ∉ b.toList.reverse by simpa using hb)
      (show c ∉ ([] : List Char) by simp)
    simp only [List.nil_append, List.append_assoc, List.singleton_append] at hcut
    simp [hlit, hcut]

end NdimonR.Text
