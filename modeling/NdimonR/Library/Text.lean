import Mathlib.Data.String.Basic
import Mathlib.Data.List.DropRight
import Mathlib.Algebra.GroupWithZero.Nat

/-! The parts of a string API that count UTF-8 bytes, classify characters and parse numbers
the way the modelled language's standard library does. -/

namespace NdimonR.Text

/-- Unicode `White_Space`. -/
def isWhitespace (c : Char) : Bool :=
  let n := c.toNat
  (9 ≤ n && n ≤ 13) || n == 0x20 || n == 0x85 || n == 0xA0 || n == 0x1680 ||
    (0x2000 ≤ n && n ≤ 0x200A) || n == 0x2028 || n == 0x2029 || n == 0x202F || n == 0x205F ||
    n == 0x3000

/-- Unicode category `Cc`. -/
def isControl (c : Char) : Bool :=
  let n := c.toNat
  n < 0x20 || (0x7F ≤ n && n ≤ 0x9F)

def isAsciiLowercase (c : Char) : Bool := 'a' ≤ c && c ≤ 'z'

def isAsciiUppercase (c : Char) : Bool := 'A' ≤ c && c ≤ 'Z'

def isAsciiDigit (c : Char) : Bool := '0' ≤ c && c ≤ '9'

def isAsciiAlphabetic (c : Char) : Bool := isAsciiLowercase c || isAsciiUppercase c

def isAsciiAlphanumeric (c : Char) : Bool := isAsciiAlphabetic c || isAsciiDigit c

def isAsciiHexdigit (c : Char) : Bool :=
  isAsciiDigit c || ('a' ≤ c && c ≤ 'f') || ('A' ≤ c && c ≤ 'F')

def toAsciiLowercase (s : String) : String :=
  String.ofList (s.toList.map fun c => if isAsciiUppercase c then Char.ofNat (c.toNat + 32) else c)

/-- Length in UTF-8 bytes. -/
def len (s : String) : Nat := s.utf8ByteSize

/-- Length in characters. -/
def chars (s : String) : Nat := s.toList.length

/-- Length in UTF-16 code units. -/
def utf16 (s : String) : Nat := s.toList.foldl (fun n c => n + if c.toNat < 0x10000 then 1 else 2) 0

/-- A predicate that only ASCII characters satisfy holds of every byte exactly when it holds of
every character: each byte of a longer encoding is at least 128. -/
def all (p : Char → Bool) (s : String) : Bool := s.toList.all p

def any (p : Char → Bool) (s : String) : Bool := s.toList.any p

def startsWith (p : Char → Bool) (s : String) : Bool := s.toList.head?.any p

def endsWith (p : Char → Bool) (s : String) : Bool := s.toList.getLast?.any p

/-- Starts with a literal. -/
def startsWithText (lit s : String) : Bool := lit.toList.isPrefixOf s.toList

/-- Ends with a literal. -/
def endsWithText (lit s : String) : Bool := lit.toList.isSuffixOf s.toList

/-- Drops a literal prefix, if the string has it. -/
def stripPrefix (lit s : String) : Option String :=
  if lit.toList.isPrefixOf s.toList then some (String.ofList (s.toList.drop lit.toList.length))
  else none

/-- The pieces between separators; at least one, possibly empty. -/
def split (c : Char) (s : String) : List String :=
  (s.toList.splitOnP (· == c)).map String.ofList

/-- A carriage return is part of the line end it precedes. -/
def lines (s : String) : List String :=
  let pieces := split '\n' s
  (pieces.dropLast.map fun piece =>
    if endsWith (· == '\r') piece then String.ofList piece.toList.dropLast else piece) ++
  (pieces.getLast?.toList.filter (· ≠ ""))

/-- Decides a property of the characters of a literal one by one. -/
theorem forall_chars {p : Char → Prop} [DecidablePred p] {l : List Char}
    (h : l.all (fun c => decide (p c)) = true) : ∀ c ∈ l, p c := by
  simpa using h

/-- The pieces and the separators between them are all of the string. -/
theorem chars_split (sep : Char) (s : String) :
    ((split sep s).map fun piece => chars piece + 1).sum = chars s + 1 := by
  have h : ∀ l : List Char,
      ((l.splitOnP (· == sep)).map fun piece => piece.length + 1).sum = l.length + 1 := by
    intro l
    induction l with
    | nil => rfl
    | cons c rest ih =>
      rw [List.splitOnP_cons_eq_if_modifyHead]
      split
      · rw [List.map_cons, List.sum_cons, ih, List.length_nil, List.length_cons]
        omega
      · cases hs : rest.splitOnP (· == sep) with
        | nil => exact absurd hs (List.splitOnP_ne_nil _ rest)
        | cons piece more =>
          rw [hs] at ih
          simp only [List.modifyHead_cons, List.map_cons, List.sum_cons, List.length_cons] at ih ⊢
          omega
  have hs := h s.toList
  simpa [split, chars, Function.comp_def] using hs

theorem mem_split (sep : Char) {s : String} {c : Char} (h : c ∈ s.toList) :
    c = sep ∨ ∃ piece ∈ split sep s, c ∈ piece.toList := by
  have general : ∀ l : List Char, c ∈ l → c = sep ∨ ∃ piece ∈ l.splitOnP (· == sep), c ∈ piece := by
    intro l
    induction l with
    | nil => simp
    | cons d rest ih =>
      intro hc
      rw [List.splitOnP_cons_eq_if_modifyHead]
      split
      · rename_i hd
        rcases List.mem_cons.mp hc with rfl | hc
        · exact .inl (by simpa using hd)
        · exact (ih hc).imp id fun ⟨piece, hp, hcp⟩ => ⟨piece, by simp [hp], hcp⟩
      · cases hs : rest.splitOnP (· == sep) with
        | nil => exact absurd hs (List.splitOnP_ne_nil _ rest)
        | cons first more =>
          rw [hs] at ih
          rcases List.mem_cons.mp hc with rfl | hc
          · exact .inr ⟨c :: first, by simp, by simp⟩
          · apply (ih hc).imp id
            rintro ⟨piece, hp, hcp⟩
            rcases List.mem_cons.mp hp with rfl | hp
            · exact ⟨d :: piece, by simp, by simp [hcp]⟩
            · exact ⟨piece, by simp [hp], hcp⟩
  apply (general s.toList h).imp id
  rintro ⟨piece, hp, hcp⟩
  exact ⟨String.ofList piece, List.mem_map.mpr ⟨piece, hp, rfl⟩, by simpa using hcp⟩

def trimList (l : List Char) : List Char := (l.dropWhile isWhitespace).rdropWhile isWhitespace

def trim (s : String) : String := String.ofList (trimList s.toList)

theorem trimList_sublist (l : List Char) : (trimList l).Sublist l :=
  (List.rdropWhile_prefix _ _).sublist.trans (List.dropWhile_sublist _)

/-- What is left starts with a character that is not white space, and so does its trimmed
form, because only the other end is cut. -/
theorem dropWhile_trimList (l : List Char) :
    (trimList l).dropWhile isWhitespace = trimList l := by
  unfold trimList
  generalize hm : l.dropWhile isWhitespace = m
  cases m with
  | nil => rfl
  | cons c rest =>
    have hc : isWhitespace c = false := by
      have := List.head?_dropWhile_not isWhitespace l
      simpa [hm] using this
    cases hr : (c :: rest).rdropWhile isWhitespace with
    | nil => rfl
    | cons d ds =>
      obtain ⟨t, ht⟩ : ((d :: ds) : List Char) <+: c :: rest := by
        rw [← hr]; exact List.rdropWhile_prefix _ _
      have hd : d = c := by
        have := congrArg List.head? ht
        simpa using this
      simp [hd, hc]

theorem trimList_trimList (l : List Char) : trimList (trimList l) = trimList l := by
  change ((trimList l).dropWhile isWhitespace).rdropWhile isWhitespace = trimList l
  rw [dropWhile_trimList]
  exact List.rdropWhile_idempotent _ _

@[simp] theorem toList_trim (s : String) : (trim s).toList = trimList s.toList := by
  simp [trim]

@[simp] theorem trim_trim (s : String) : trim (trim s) = trim s := by
  apply String.toList_inj.mp
  simp [trimList_trimList]

theorem chars_trim_le (s : String) : chars (trim s) ≤ chars s := by
  simpa [chars] using (trimList_sublist s.toList).length_le

theorem any_trim_of_any {p : Char → Bool} {s : String} (h : any p s = false) :
    any p (trim s) = false := by
  unfold any at *
  rw [List.any_eq_false] at *
  intro c hc
  rw [toList_trim] at hc
  exact h c ((trimList_sublist _).subset hc)

/-- Decimal value of a run of digits. -/
def decimal (l : List Char) : Nat := l.foldl (fun n c => 10 * n + (c.toNat - 48)) 0

/-- An unsigned integer of at most `max`: an optional plus sign, then digits. -/
def parseUnsigned (max : Nat) (s : String) : Option Nat :=
  let digits := match s.toList with
    | '+' :: rest => rest
    | l => l
  if digits ≠ [] ∧ digits.all isAsciiDigit ∧ decimal digits ≤ max then some (decimal digits)
  else none

theorem parseUnsigned_plain {max : Nat} {s : String} (h : '+' ∉ s.toList) :
    parseUnsigned max s =
      if s.toList ≠ [] ∧ s.toList.all isAsciiDigit ∧ decimal s.toList ≤ max then
        some (decimal s.toList)
      else none := by
  unfold parseUnsigned
  cases hl : s.toList with
  | nil => rfl
  | cons c rest =>
    have hc : c ≠ '+' := by
      rintro rfl
      exact h (hl ▸ List.mem_cons_self)
    simp [hc]

/-- A number is written in digits, after at most a sign. -/
theorem parseUnsigned_chars {max n : Nat} {s : String} (h : parseUnsigned max s = some n) :
    ∀ c ∈ s.toList, c = '+' ∨ isAsciiDigit c = true := by
  unfold parseUnsigned at h
  cases hl : s.toList with
  | nil => simp
  | cons d rest =>
    rw [hl] at h
    by_cases hd : d = '+'
    · subst hd
      simp only [ne_eq, Option.ite_none_right_eq_some] at h
      intro c hc
      apply (List.mem_cons.mp hc).imp id
      exact List.all_eq_true.mp h.1.2.1 c
    · simp [hd] at h
      obtain ⟨⟨⟨hfirst, hrest⟩, -⟩, -⟩ := h
      intro c hc
      rcases List.mem_cons.mp hc with rfl | hc
      · exact .inr hfirst
      · exact .inr (hrest c hc)

/-- UTF-8 encoding. -/
def bytes (s : String) : List UInt8 := s.toList.flatMap String.utf8EncodeChar

@[simp] theorem bytes_append (s t : String) : bytes (s ++ t) = bytes s ++ bytes t := by
  simp [bytes]

/-- Cuts before and after the first occurrence of a literal. -/
def cut (lit : List Char) : List Char → Option (List Char × List Char)
  | [] => if lit = [] then some ([], []) else none
  | c :: rest =>
    if lit.isPrefixOf (c :: rest) then some ([], (c :: rest).drop lit.length)
    else (cut lit rest).map fun pair => (c :: pair.1, pair.2)

def splitOnce (lit s : String) : Option (String × String) :=
  (cut lit.toList s.toList).map fun pair => (String.ofList pair.1, String.ofList pair.2)

/-- Cuts at the last occurrence of a character. -/
def rsplitOnce (c : Char) (s : String) : Option (String × String) :=
  (cut [c] s.toList.reverse).map fun pair =>
    (String.ofList pair.2.reverse, String.ofList pair.1.reverse)

/-- Drops a literal suffix, if the string has it. -/
def stripSuffix (lit s : String) : Option String :=
  if lit.toList.isSuffixOf s.toList then
    some (String.ofList (s.toList.take (s.toList.length - lit.toList.length)))
  else none

def replace (c d : Char) (s : String) : String :=
  String.ofList (s.toList.map fun x => if x = c then d else x)

def trimStartMatches (c : Char) (s : String) : String :=
  String.ofList (s.toList.dropWhile (· == c))

/-- The runs of characters that are not white space. -/
def splitWhitespace (s : String) : List String :=
  ((s.toList.splitOnP isWhitespace).filter (· ≠ [])).map String.ofList

theorem len_eq_sum (s : String) : len s = (s.toList.map Char.utf8Size).sum := by
  have h : ∀ l : List Char, String.utf8Len l = (l.map Char.utf8Size).sum := by
    intro l
    induction l with
    | nil => rfl
    | cons c rest ih => simp [ih, Nat.add_comm]
  rw [← h, ← String.utf8ByteSize_ofList, String.ofList_toList]
  rfl

theorem toList_replace (c d : Char) (s : String) :
    (replace c d s).toList = s.toList.map fun x => if x = c then d else x := by
  simp [replace]

theorem len_replace {c d : Char} (h : c.utf8Size = d.utf8Size) (s : String) :
    len (replace c d s) = len s := by
  rw [len_eq_sum, len_eq_sum, toList_replace, List.map_map]
  congr 1
  apply List.map_congr_left
  intro x _
  by_cases hx : x = c
  · simp [hx, h]
  · simp [hx]

theorem replace_of_not_mem {c d : Char} {s : String} (h : c ∉ s.toList) : replace c d s = s := by
  have hmap : s.toList.map (fun x => if x = c then d else x) = s.toList :=
    (List.map_congr_left fun x hx => if_neg (ne_of_mem_of_not_mem hx h)).trans (List.map_id _)
  simp [replace, hmap]

theorem bytes_ascii {s : String} (h : ∀ c ∈ s.toList, c.toNat < 128) :
    bytes s = s.toList.map fun c => UInt8.ofNat c.toNat := by
  have hflat : ∀ l : List Char, (∀ c ∈ l, c.toNat < 128) →
      l.flatMap String.utf8EncodeChar = l.map fun c => UInt8.ofNat c.toNat := by
    intro l hl
    induction l with
    | nil => rfl
    | cons c l ih =>
      have hc : c.toNat ≤ 127 := Nat.le_of_lt_succ (hl c (by simp))
      rw [List.flatMap_cons, List.map_cons, ih fun d hd => hl d (by simp [hd])]
      simp [String.utf8EncodeChar, hc]
  exact hflat s.toList h

theorem append_of_cut {lit l a b : List Char} (h : cut lit l = some (a, b)) :
    l = a ++ lit ++ b := by
  induction l generalizing a b with
  | nil =>
    simp only [cut, Option.ite_none_right_eq_some, Option.some.injEq, Prod.mk.injEq] at h
    obtain ⟨rfl, rfl, rfl⟩ := h
    rfl
  | cons c rest ih =>
    simp only [cut] at h
    split at h
    · rename_i hlit
      simp only [Option.some.injEq, Prod.mk.injEq] at h
      obtain ⟨rfl, rfl⟩ := h
      obtain ⟨t, ht⟩ := List.isPrefixOf_iff_prefix.mp hlit
      simp [← ht]
    · obtain ⟨⟨a', b'⟩, hcut, heq⟩ := Option.map_eq_some_iff.mp h
      simp only [Prod.mk.injEq] at heq
      obtain ⟨rfl, rfl⟩ := heq
      simp [ih hcut]

/-- A marker that ends in a character the left part has not is first found behind that part. -/
theorem cut_append {left mark : List Char} {c : Char} (right : List Char) (hleft : c ∉ left)
    (hmark : c ∉ mark) :
    cut (mark ++ [c]) (left ++ (mark ++ [c]) ++ right) = some (left, right) := by
  have hlong : ∀ rest, (mark ++ [c] ++ rest).takeWhile (· ≠ c) = mark := by
    intro rest
    have hpos : ∀ x ∈ mark, decide (x ≠ c) = true := fun x hx =>
      decide_eq_true (ne_of_mem_of_not_mem hx hmark)
    rw [List.append_assoc, List.takeWhile_append_of_pos hpos]
    simp
  induction left with
  | nil =>
    cases hl : mark ++ [c] ++ right with
    | nil => simp at hl
    | cons d rest =>
      have hprefix : (mark ++ [c]).isPrefixOf (d :: rest) = true := by
        rw [← hl, List.isPrefixOf_iff_prefix]
        exact List.prefix_append _ _
      simp only [List.nil_append, hl, cut, hprefix, if_true, Option.some.injEq, Prod.mk.injEq,
        true_and]
      rw [← hl]
      exact List.drop_left' rfl
  | cons d left ih =>
    have hno : (mark ++ [c]).isPrefixOf (d :: (left ++ (mark ++ [c]) ++ right)) = false := by
      rw [Bool.eq_false_iff, ne_eq, List.isPrefixOf_iff_prefix]
      rintro ⟨rest, hrest⟩
      have h1 := hlong rest
      rw [hrest] at h1
      have hpos : ∀ x ∈ d :: left, decide (x ≠ c) = true := fun x hx =>
        decide_eq_true (ne_of_mem_of_not_mem hx hleft)
      have h2 : (d :: left ++ (mark ++ [c] ++ right)).takeWhile (· ≠ c) = d :: left ++ mark := by
        rw [List.takeWhile_append_of_pos hpos, hlong]
      have h3 : mark = d :: left ++ mark := h1.symm.trans (by simpa using h2)
      have h4 := congrArg List.length h3
      simp only [List.cons_append, List.length_cons, List.length_append] at h4
      omega
    have hrest := ih fun hc => hleft (List.mem_cons_of_mem d hc)
    simp only [List.cons_append, cut, hno, Bool.false_eq_true, if_false, hrest, Option.map_some]

theorem stripSuffix_append (s lit : String) : stripSuffix lit (s ++ lit) = some s := by
  simp [stripSuffix, List.isSuffixOf_iff_suffix]

/-- A string of ASCII characters has as many bytes as characters. -/
theorem len_ascii {s : String} (h : ∀ c ∈ s.toList, c.toNat < 128) : len s = chars s := by
  have hsum : ∀ l : List Char, (∀ c ∈ l, c.toNat < 128) → (l.map Char.utf8Size).sum = l.length := by
    intro l
    induction l with
    | nil => simp
    | cons c rest ih =>
      intro hl
      have hlt : c.toNat ≤ 127 := Nat.le_of_lt_succ (hl c List.mem_cons_self)
      have hc : c.utf8Size = 1 := Char.utf8Size_eq_one_iff.mpr (UInt32.le_iff_toNat_le.mpr hlt)
      rw [List.map_cons, List.sum_cons, hc, ih fun d hd => hl d (List.mem_cons_of_mem c hd),
        List.length_cons]
      omega
  rw [len_eq_sum, hsum _ h, chars]

theorem splitOnP_eq_cut (c : Char) (l : List Char) : l.splitOnP (· == c) =
    (cut [c] l).elim [l] fun pair => pair.1 :: pair.2.splitOnP (· == c) := by
  induction l with
  | nil => rfl
  | cons d rest ih =>
    rw [List.splitOnP_cons_eq_if_modifyHead, ih]
    by_cases hd : d = c
    · subst hd
      simp only [cut, beq_self_eq_true, if_true]
      have hp : ([d].isPrefixOf (d :: rest)) = true := by simp
      simp [hp, ih]
    · have hne : ([c].isPrefixOf (d :: rest)) = false := by simp [List.isPrefixOf, Ne.symm hd]
      simp only [cut, hne, beq_iff_eq, hd, if_false, Bool.false_eq_true]
      cases cut [c] rest <;> simp

/-- The pieces of a string without the separator, or the first and those of the rest. -/
theorem split_eq_splitOnce {c : Char} {lit : String} (hlit : lit.toList = [c]) (s : String) :
    split c s = (splitOnce lit s).elim [s] fun pair => pair.1 :: split c pair.2 := by
  unfold split splitOnce
  rw [hlit, splitOnP_eq_cut]
  cases cut [c] s.toList with
  | none => simp
  | some pair => simp

theorem isAsciiDigit_bounds {c : Char} (h : isAsciiDigit c = true) : 48 ≤ c.toNat ∧ c.toNat ≤ 57 := by
  simpa [isAsciiDigit, Char.le_def, UInt32.le_iff_toNat_le] using h

/-- A decimal without a leading zero is at least the power of ten its length gives. -/
theorem pow_le_decimal {c : Char} {rest : List Char} (hc : isAsciiDigit c = true) (h0 : c ≠ '0') :
    10 ^ rest.length ≤ decimal (c :: rest) := by
  have general : ∀ (l : List Char) (n : Nat), 10 ^ l.length * n ≤
      l.foldl (fun n c => 10 * n + (c.toNat - 48)) n := by
    intro l
    induction l with
    | nil => simp
    | cons d l ih =>
      intro n
      have := ih (10 * n + (d.toNat - 48))
      rw [List.foldl_cons, List.length_cons, Nat.pow_succ]
      refine le_trans ?_ this
      rw [Nat.mul_assoc]
      exact Nat.mul_le_mul_left _ (by omega)
  have hpos : 1 ≤ c.toNat - 48 := by
    have := isAsciiDigit_bounds hc
    have hne : c.toNat ≠ 48 := fun he => h0 (Char.toNat_inj.mp he)
    omega
  have := general rest (c.toNat - 48)
  unfold decimal
  simp only [List.foldl_cons, Nat.mul_zero, Nat.zero_add]
  exact le_trans (by simpa using Nat.mul_le_mul_left (10 ^ rest.length) hpos) this

/-! ### UTF-16 -/

/-- The code units of a character. -/
def codeUnits (c : Char) : List Nat :=
  if c.toNat < 0x10000 then [c.toNat]
  else [0xd800 + (c.toNat - 0x10000) / 1024, 0xdc00 + (c.toNat - 0x10000) % 1024]

def encodeUtf16 (s : String) : List Nat := s.toList.flatMap codeUnits

theorem codeUnits_ne (c : Char) : codeUnits c ≠ [] := by
  unfold codeUnits
  split_ifs <;> simp

/-- No character begins with the units of another. -/
theorem codeUnits_append {c d : Char} {l m : List Nat} (h : codeUnits c ++ l = codeUnits d ++ m) :
    c = d ∧ l = m := by
  have hc : c.toNat.isValidChar := c.valid
  have hd : d.toNat.isValidChar := d.valid
  unfold Nat.isValidChar at hc hd
  unfold codeUnits at h
  split_ifs at h
  · obtain ⟨hnat, hrest⟩ := List.cons.inj h
    exact ⟨Char.toNat_inj.mp hnat, hrest⟩
  · obtain ⟨hnat, -⟩ := List.cons.inj h
    omega
  · obtain ⟨hnat, -⟩ := List.cons.inj h
    omega
  · obtain ⟨hhigh, htail⟩ := List.cons.inj h
    obtain ⟨hlow, hrest⟩ := List.cons.inj htail
    exact ⟨Char.toNat_inj.mp (by omega), hrest⟩

theorem encodeUtf16_injective {s t : String} (h : encodeUtf16 s = encodeUtf16 t) : s = t := by
  have hlist : ∀ l m : List Char, l.flatMap codeUnits = m.flatMap codeUnits → l = m := by
    intro l
    induction l with
    | nil =>
      intro m h
      cases m with
      | nil => rfl
      | cons d m =>
        rw [List.flatMap_nil, List.flatMap_cons] at h
        exact absurd (List.append_eq_nil_iff.mp h.symm).1 (codeUnits_ne d)
    | cons c l ih =>
      intro m h
      cases m with
      | nil =>
        rw [List.flatMap_nil, List.flatMap_cons] at h
        exact absurd (List.append_eq_nil_iff.mp h).1 (codeUnits_ne c)
      | cons d m =>
        rw [List.flatMap_cons, List.flatMap_cons] at h
        obtain ⟨rfl, hrest⟩ := codeUnits_append h
        rw [ih m hrest]
  exact String.toList_inj.mp (hlist _ _ h)

end NdimonR.Text
