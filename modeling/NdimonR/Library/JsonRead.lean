import NdimonR.Library.JsonText
import NdimonR.Library.Reading
import NdimonR.Library.Lines
import NdimonR.Library.Scan

/-! Reading JSON text: the reader, and the texts it reads. Integers have 64 bits; `float` says what
any other number reads as, if anything. -/

namespace NdimonR.Json.Reader

open Text Scan

def isSpace (c : Char) : Bool := c = ' ' || c = '\t' || c = '\n' || c = '\r'

/-- A character of a literal or a number. -/
def isBare (c : Char) : Bool := isAsciiAlphanumeric c || c = '+' || c = '-' || c = '.'

/-! ### Strings -/

/-- A text up to the quote that ends it; a backslash takes the next character along. -/
def closing : List Char → Option (List Char × List Char)
  | [] => none
  | c :: rest =>
    if c = '"' then some ([], rest)
    else if c = '\\' then
      match rest with
      | [] => none
      | d :: rest => (closing rest).map fun e => (c :: d :: e.1, e.2)
    else (closing rest).map fun e => (c :: e.1, e.2)

inductive Piece where
  | char (c : Char)
  | code (n : Nat)
  deriving DecidableEq

def letter (c : Char) : Option Char := if c = '/' then some c else unescape c

def pieces : List Char → Option (List Piece)
  | [] => some []
  | '\\' :: 'u' :: a :: b :: c :: d :: rest => do
    let n ← codeUnit a b c d
    (pieces rest).map (.code n :: ·)
  | '\\' :: c :: rest => do
    let c ← letter c
    (pieces rest).map (.char c :: ·)
  | c :: rest => if c ≠ '\\' ∧ 32 ≤ c.toNat then (pieces rest).map (.char c :: ·) else none

/-- Two halves make one character. -/
def join : List Piece → Option (List Char)
  | [] => some []
  | .char c :: ps => (join ps).map (c :: ·)
  | .code n :: ps =>
    if 0xd800 ≤ n ∧ n < 0xdc00 then
      match ps with
      | .code m :: ps =>
        if 0xdc00 ≤ m ∧ m < 0xe000 then
          (join ps).map (Char.ofNat (0x10000 + (n - 0xd800) * 1024 + (m - 0xdc00)) :: ·)
        else none
      | _ => none
    else if 0xdc00 ≤ n ∧ n < 0xe000 then none
    else (join ps).map (Char.ofNat n :: ·)

def decode (body : List Char) : Option String := ((pieces body).bind join).map String.ofList

def string : List Char → Option (String × List Char)
  | '"' :: rest => do
    let (body, rest) ← closing rest
    (decode body).map (·, rest)
  | _ => none

/-! ### Literals and numbers -/

/-- Without leading zeros. -/
def isWhole (l : List Char) : Bool :=
  l ≠ [] && l.all isAsciiDigit && (l.head? ≠ some '0' || l.length = 1)

def isExponent : List Char → Bool
  | [] => true
  | c :: '+' :: rest | c :: '-' :: rest | c :: rest =>
    (c = 'e' || c = 'E') && rest ≠ [] && rest.all isAsciiDigit

def isFraction : List Char → Bool
  | '.' :: rest => rest.takeWhile isAsciiDigit ≠ [] && isExponent (rest.dropWhile isAsciiDigit)
  | rest => isExponent rest

def unsigned : List Char → List Char
  | '-' :: rest => rest
  | l => l

def isNumber (l : List Char) : Bool :=
  isWhole ((unsigned l).takeWhile isAsciiDigit) && isFraction ((unsigned l).dropWhile isAsciiDigit)

/-- A whole number that 64 bits hold; zero has no minus sign. -/
def integer : List Char → Option Int
  | '-' :: rest =>
    if isWhole rest ∧ rest ≠ ['0'] ∧ decimal rest ≤ 9223372036854775808 then
      some (-(decimal rest : Int))
    else none
  | l => if isWhole l ∧ decimal l < 18446744073709551616 then some (decimal l) else none

variable (float : List Char → Option ℚ)

def literal (l : List Char) : Option Json :=
  if l = "null".toList then some .null
  else if l = "true".toList then some (.bool true)
  else if l = "false".toList then some (.bool false)
  else if isNumber l then
    match integer l with
    | some n => some (.int n)
    | none => (float l).map .float
  else none

/-! ### Values -/

/-- A value that is no array or object. -/
def scalar : List Char → Option (Json × List Char)
  | [] => none
  | c :: rest =>
    if c = '"' then (string (c :: rest)).map fun e => (.str e.1, e.2)
    else (literal float ((c :: rest).takeWhile isBare)).map (·, (c :: rest).dropWhile isBare)

/-- A quoted name, a colon and a value. -/
def pair {α : Type} (value : List Char → Option (α × List Char)) (l : List Char) :
    Option ((String × α) × List Char) := do
  let (k, rest) ← string l
  match skip isSpace rest with
  | ':' :: rest => (value (skip isSpace rest)).map fun e => ((k, e.1), e.2)
  | _ => none

/-- No more than so many arrays and objects in one another. -/
def value : Nat → List Char → Option (Json × List Char)
  | 0, l => scalar float l
  | _ + 1, [] => none
  | d + 1, c :: rest =>
    if c = '[' then (Scan.list isSpace (value d) ']' rest).map fun e => (.arr e.1, e.2)
    else if c = '\x7b' then
      (Scan.list isSpace (pair (value d)) '\x7d' rest).map fun e => (ofMembers e.1, e.2)
    else scalar float (c :: rest)

def maxDepth : Nat := 127

def read (l : List Char) : Option Json := do
  let (x, rest) ← value float maxDepth (skip isSpace l)
  if rest.all isSpace then some x else none

/-- The members of the object that a text is, as they stand in it. -/
def readMembers (l : List Char) : Option (List (String × Json)) :=
  match skip isSpace l with
  | '\x7b' :: rest => do
    let (members, rest) ← Scan.list isSpace (pair (value float (maxDepth - 1))) '\x7d' rest
    if rest.all isSpace then some members else none
  | _ => none

/-- A text that is one string. -/
def readString (l : List Char) : Option String := do
  let (s, rest) ← string (skip isSpace l)
  if rest.all isSpace then some s else none

/-! ### Readers of any literals

`lit` says what a literal is and `make` what an object with the members of a text is. -/

section
variable (lit : List Char → Option Json) (make : List (String × Json) → Json)

/-- A value that is no array or object. -/
def token : List Char → Option (Json × List Char)
  | [] => none
  | c :: rest =>
    if c = '"' then (string (c :: rest)).map fun e => (.str e.1, e.2)
    else (lit ((c :: rest).takeWhile isBare)).map (·, (c :: rest).dropWhile isBare)

def shape : Nat → List Char → Option (Json × List Char)
  | 0, l => token lit l
  | _ + 1, [] => none
  | d + 1, c :: rest =>
    if c = '[' then (Scan.list isSpace (shape d) ']' rest).map fun e => (.arr e.1, e.2)
    else if c = '\x7b' then
      (Scan.list isSpace (pair (shape d)) '\x7d' rest).map fun e => (make e.1, e.2)
    else token lit (c :: rest)

end

theorem value_eq (d : Nat) : value float d = shape (literal float) ofMembers d := by
  induction d with
  | zero => rfl
  | succ d ih =>
    funext l
    cases l with
    | nil => rfl
    | cons c rest =>
      rw [value, shape, ih]
      rfl

/-! ### The texts of strings -/

/-- What may stand between two quotes. -/
def Closed (body : List Char) : Prop := ∀ rest, closing (body ++ '"' :: rest) = some (body, rest)

theorem closing_quote (rest : List Char) : closing ('"' :: rest) = some ([], rest) := by
  rw [closing.eq_def]
  rfl

theorem closed_nil : Closed [] := closing_quote

theorem closed_cons {c : Char} (hquote : c ≠ '"') (hslash : c ≠ '\\') {body : List Char}
    (h : Closed body) : Closed (c :: body) := by
  intro rest
  rw [List.cons_append, closing.eq_def]
  simp [hquote, hslash, h rest]

theorem closed_slash (c : Char) {body : List Char} (h : Closed body) :
    Closed ('\\' :: c :: body) := by
  intro rest
  simp [closing, h rest]

theorem closing_eq_some {l body rest : List Char} (h : closing l = some (body, rest)) :
    l = body ++ '"' :: rest ∧ Closed body := by
  fun_induction closing l generalizing body rest with
  | case1 => cases h
  | case2 l =>
    cases h
    exact ⟨rfl, closed_nil⟩
  | case3 => cases h
  | case4 d l hquote ih =>
    obtain ⟨⟨b, r⟩, hb, heq⟩ := Option.map_eq_some_iff.mp h
    cases heq
    obtain ⟨rfl, hclosed⟩ := ih hb
    exact ⟨rfl, closed_slash d hclosed⟩
  | case5 c l hquote hslash ih =>
    obtain ⟨⟨b, r⟩, hb, heq⟩ := Option.map_eq_some_iff.mp h
    cases heq
    obtain ⟨rfl, hclosed⟩ := ih hb
    exact ⟨rfl, closed_cons hquote hslash hclosed⟩

def Quoted (t : List Char) (s : String) : Prop :=
  ∃ body, t = '"' :: (body ++ ['"']) ∧ Closed body ∧ decode body = some s

theorem string_of_quoted {t : List Char} {s : String} (h : Quoted t s) (rest : List Char) :
    string (t ++ rest) = some (s, rest) := by
  obtain ⟨body, rfl, hclosed, hdecode⟩ := h
  rw [List.cons_append, List.append_assoc, List.singleton_append, string, hclosed rest]
  simp [hdecode]

theorem quoted_of_string {l rest : List Char} {s : String} (h : string l = some (s, rest)) :
    ∃ t, l = t ++ rest ∧ Quoted t s := by
  unfold string at h
  split at h
  · obtain ⟨⟨body, r⟩, hbody, hdecode⟩ := Option.bind_eq_some_iff.mp h
    obtain ⟨s', hs, heq⟩ := Option.map_eq_some_iff.mp hdecode
    cases heq
    obtain ⟨rfl, hclosed⟩ := closing_eq_some hbody
    exact ⟨_, by simp, body, rfl, hclosed, hs⟩
  · cases h

theorem not_quote_of_hex {c : Char} {n : Nat} (h : hexValue c = some n) : c ≠ '"' ∧ c ≠ '\\' := by
  constructor <;> intro he <;> rw [he] at h <;> cases h

theorem closed_escaped {c : Char} {l body : List Char} (written : Escaped c l) (h : Closed body) :
    Closed (l ++ body) := by
  rcases written with ⟨d, hd, -⟩ | ⟨x, y, hxy, hread⟩ | ⟨hc, hquote, hslash, -⟩
  · rw [hd]
    exact closed_slash d h
  · simp only [codeUnit, Option.bind_eq_bind, Option.bind_eq_some_iff] at hread
    obtain ⟨_, -, _, -, _, hx, _, hy, -⟩ := hread
    obtain ⟨hx, hx'⟩ := not_quote_of_hex hx
    obtain ⟨hy, hy'⟩ := not_quote_of_hex hy
    rw [hxy]
    refine closed_slash 'u' ?_
    exact closed_cons (by decide) (by decide) (closed_cons (by decide) (by decide)
      (closed_cons hx hx' (closed_cons hy hy' h)))
  · rw [hc]
    exact closed_cons hquote hslash h

/-- No character is half of one. -/
theorem join_code (c : Char) (ps : List Piece) :
    join (.code c.toNat :: ps) = (join ps).map (c :: ·) := by
  have hvalid : c.toNat.isValidChar := c.valid
  unfold Nat.isValidChar at hvalid
  rw [join.eq_def]
  simp only
  rw [if_neg (by omega), if_neg (by omega), Char.ofNat_toNat]

/-- What an escaped character is read as. -/
theorem pieces_escaped {c : Char} {l : List Char} (written : Escaped c l) (rest : List Char) :
    ∃ p, pieces (l ++ rest) = (pieces rest).map (p :: ·) ∧
      ∀ ps, join (p :: ps) = (join ps).map (c :: ·) := by
  rcases written with ⟨d, hd, hread⟩ | ⟨x, y, hxy, hread⟩ | ⟨hc, hquote, hslash, hraw⟩
  · have hu : d ≠ 'u' := by
      intro he
      rw [he] at hread
      cases hread
    have hletter : letter d = some c := by
      have hd : d ≠ '/' := by
        intro he
        rw [he] at hread
        cases hread
      rw [letter, if_neg hd, hread]
    refine ⟨.char c, ?_, fun ps => rfl⟩
    rw [hd, List.cons_append, List.cons_append, List.nil_append, pieces]
    · rw [hletter]
      rfl
    · intro _ _ _ _ _ he
      exact absurd he hu
  · refine ⟨.code c.toNat, ?_, join_code c⟩
    rw [hxy]
    simp only [List.cons_append, List.nil_append]
    rw [pieces, hread]
    rfl
  · refine ⟨.char c, ?_, fun ps => rfl⟩
    rw [hc, List.singleton_append, pieces, if_pos ⟨hslash, hraw⟩]
    · intro _ _ _ _ _ he
      exact absurd he hslash
    · intro _ _ he
      exact absurd he hslash

theorem decode_escaped {escape : Char → List Char} (written : ∀ c, Escaped c (escape c))
    (s : String) : decode (s.toList.flatMap escape) = some s := by
  have hread : ∀ l : List Char, (pieces (l.flatMap escape)).bind join = some l := by
    intro l
    induction l with
    | nil => rfl
    | cons c l ih =>
      obtain ⟨ps, hps, hjoin⟩ := Option.bind_eq_some_iff.mp ih
      obtain ⟨p, hp, hfirst⟩ := pieces_escaped (written c) (l.flatMap escape)
      rw [List.flatMap_cons, hp, hps]
      simp only [Option.map_some, Option.bind_some, hfirst, hjoin]
  rw [decode, hread]
  simp

theorem quoted_escaped {escape : Char → List Char} (written : ∀ c, Escaped c (escape c))
    (s : String) : Quoted ('"' :: (s.toList.flatMap escape ++ ['"'])) s := by
  refine ⟨s.toList.flatMap escape, rfl, ?_, decode_escaped written s⟩
  induction s.toList with
  | nil => exact closed_nil
  | cons c l ih => exact closed_escaped (written c) ih

theorem quoted_quote (s : String) : Quoted (quote s).toList s := by
  rw [toList_quote]
  exact quoted_escaped escape_cases s

/-! ### The texts of values -/

/-- The text of a literal or a number. -/
structure Bare (t : List Char) (x : Json) : Prop where
  ne : t ≠ []
  bare : ∀ c ∈ t, isBare c = true
  reads : literal float t = some x

/-- The text of a value that is no array or object. -/
def Simple (t : List Char) (x : Json) : Prop := (∃ s, Quoted t s ∧ x = .str s) ∨ Bare float t x

/-- A quoted name, a colon and the text of a value. -/
structure MemberText {α : Type} (P : List Char → α → Prop) (t : List Char) (e : String × α) :
    Prop where
  parts : ∃ s w w' v, t = s ++ w ++ ':' :: (w' ++ v) ∧ Quoted s e.1 ∧ Blanks isSpace w ∧
    Blanks isSpace w' ∧ P v e.2

/-- The texts of a value, with no more than so many arrays and objects in one another. -/
def Written : Nat → List Char → Json → Prop
  | 0, t, x => Simple float t x
  | d + 1, t, x =>
    Simple float t x ∨
    (∃ T xs, t = '[' :: (T ++ [']']) ∧ Between isSpace (Written d) T xs ∧ x = .arr xs) ∨
    ∃ T ms, t = '\x7b' :: (T ++ ['\x7d']) ∧ Between isSpace (MemberText (Written d)) T ms ∧
      x = ofMembers ms

/-- The text of a value that is no array or object, for readers of any literals. -/
def Token (lit : List Char → Option Json) (t : List Char) (x : Json) : Prop :=
  (∃ s, Quoted t s ∧ x = .str s) ∨ t ≠ [] ∧ (∀ c ∈ t, isBare c = true) ∧ lit t = some x

/-- The texts of a value, for readers of any literals. -/
def Shaped (lit : List Char → Option Json) (make : List (String × Json) → Json) :
    Nat → List Char → Json → Prop
  | 0, t, x => Token lit t x
  | d + 1, t, x =>
    Token lit t x ∨
    (∃ T xs, t = '[' :: (T ++ [']']) ∧ Between isSpace (Shaped lit make d) T xs ∧ x = .arr xs) ∨
    ∃ T ms, t = '\x7b' :: (T ++ ['\x7d']) ∧
      Between isSpace (MemberText (Shaped lit make d)) T ms ∧ x = make ms

section
variable {float : List Char → Option ℚ} {d : Nat} {t l rest : List Char} {x : Json}

theorem isSpace_bare {c : Char} (h : isBare c = true) : isSpace c = false := by
  cases hc : isSpace c with
  | false => rfl
  | true =>
    simp only [isSpace, Bool.or_eq_true, decide_eq_true_eq] at hc
    rcases hc with ((rfl | rfl) | rfl) | rfl <;> cases h

theorem isBare_space {c : Char} (h : isSpace c = true) : isBare c = false := by
  cases hc : isBare c with
  | false => rfl
  | true =>
    rw [isSpace_bare hc] at h
    cases h

theorem stops_spaces {w : List Char} (hw : Blanks isSpace w) : Stops isBare w := by
  intro c hc
  exact isBare_space (hw c (List.mem_of_head? hc))

/-- What a value begins with. -/
def Opening (c : Char) : Prop := c ∈ ['"', '[', '\x7b'] ∨ isBare c = true

theorem Opening.isSpace {c : Char} (h : Opening c) : isSpace c = false := by
  rcases h with h | h
  · simp only [List.mem_cons, List.not_mem_nil, or_false] at h
    rcases h with rfl | rfl | rfl <;> rfl
  · exact isSpace_bare h

theorem Opening.ne {c d : Char} (h : Opening c) (hd : d ∉ ['"', '[', '\x7b'])
    (hbare : isBare d = false) : c ≠ d := by
  intro he
  rw [he] at h
  rcases h with h | h
  · exact hd h
  · rw [hbare] at h
    cases h

theorem Simple.token (h : Simple float t x) : Token (literal float) t x :=
  h.imp_right fun h => ⟨h.ne, h.bare, h.reads⟩

theorem Token.opening {lit : List Char → Option Json} (h : Token lit t x) :
    ∃ c rest, t = c :: rest ∧ (c = '"' ∨ isBare c = true) := by
  rcases h with ⟨s, ⟨body, rfl, -⟩, -⟩ | ⟨hne, hbare, -⟩
  · exact ⟨'"', _, rfl, .inl rfl⟩
  · obtain ⟨c, rest, rfl⟩ := List.exists_cons_of_ne_nil hne
    exact ⟨c, rest, rfl, .inr (hbare c List.mem_cons_self)⟩

theorem Token.opens {lit : List Char → Option Json} (h : Token lit t x) :
    ∃ c rest, t = c :: rest ∧ Opening c := by
  obtain ⟨c, rest, ht, hc⟩ := h.opening
  exact ⟨c, rest, ht, hc.imp_left fun hc => by simp [hc]⟩

theorem Simple.opening (h : Simple float t x) :
    ∃ c rest, t = c :: rest ∧ (c = '"' ∨ isBare c = true) := h.token.opening

theorem Simple.opens (h : Simple float t x) : ∃ c rest, t = c :: rest ∧ Opening c := h.token.opens

theorem Shaped.opening {lit : List Char → Option Json} {make : List (String × Json) → Json}
    (h : Shaped lit make d t x) : ∃ c rest, t = c :: rest ∧ Opening c := by
  cases d with
  | zero => exact Token.opens h
  | succ d =>
    rcases h with h | ⟨T, xs, rfl, -⟩ | ⟨T, ms, rfl, -⟩
    · exact h.opens
    · exact ⟨'[', _, rfl, .inl (by simp)⟩
    · exact ⟨'\x7b', _, rfl, .inl (by simp)⟩

theorem MemberText.imp {α : Type} {P Q : List Char → α → Prop} {e : String × α}
    (h : MemberText P t e) (hPQ : ∀ t a, P t a → Q t a) : MemberText Q t e := by
  obtain ⟨s, w, w', v, ht, hs, hw, hw', hv⟩ := h.parts
  exact ⟨s, w, w', v, ht, hs, hw, hw', hPQ _ _ hv⟩

theorem Written.shaped (h : Written float d t x) : Shaped (literal float) ofMembers d t x := by
  induction d generalizing t x with
  | zero => exact Simple.token h
  | succ d ih =>
    rcases h with h | ⟨T, xs, ht, hT, hx⟩ | ⟨T, ms, ht, hT, hx⟩
    · exact .inl h.token
    · exact .inr (.inl ⟨T, xs, ht, hT.imp fun _ _ h => ih h, hx⟩)
    · exact .inr (.inr ⟨T, ms, ht, hT.imp fun _ _ h => h.imp fun _ _ h => ih h, hx⟩)

theorem Written.opening (h : Written float d t x) : ∃ c rest, t = c :: rest ∧ Opening c :=
  h.shaped.opening

theorem token_of_text {lit : List Char → Option Json} (h : Token lit t x)
    (hrest : Stops isBare rest) : token lit (t ++ rest) = some (x, rest) := by
  rcases h with ⟨s, hs, rfl⟩ | ⟨hne, hbare, hreads⟩
  · have hread := string_of_quoted hs rest
    obtain ⟨body, rfl, -⟩ := hs
    rw [List.cons_append, token, if_pos rfl, ← List.cons_append, hread]
    rfl
  · obtain ⟨htake, hdrop⟩ := span_stops hbare hrest
    obtain ⟨c, l, rfl⟩ := List.exists_cons_of_ne_nil hne
    have hquote : c ≠ '"' := by
      intro he
      have hc := hbare c List.mem_cons_self
      rw [he] at hc
      cases hc
    rw [List.cons_append, token, if_neg hquote, ← List.cons_append, htake, hdrop, hreads]
    rfl

theorem simple_of_scalar (h : scalar float l = some (x, rest)) :
    ∃ t, l = t ++ rest ∧ Simple float t x := by
  unfold scalar at h
  split at h
  · cases h
  · rename_i c l
    split at h
    · obtain ⟨⟨s, r⟩, hs, heq⟩ := Option.map_eq_some_iff.mp h
      cases heq
      obtain ⟨t, ht, hquoted⟩ := quoted_of_string hs
      exact ⟨t, ht, .inl ⟨s, hquoted, rfl⟩⟩
    · obtain ⟨y, hy, heq⟩ := Option.map_eq_some_iff.mp h
      cases heq
      refine ⟨_, List.takeWhile_append_dropWhile.symm, .inr ⟨?_, ?_, hy⟩⟩
      · intro he
        rw [he] at hy
        cases hy
      · exact fun c hc => List.all_eq_true.mp List.all_takeWhile c hc

theorem stopping_array : Stopping isSpace ']' (Stops isBare) :=
  stopping rfl rfl (by decide) (fun _ => isBare_space) rfl rfl

theorem stopping_object : Stopping isSpace '\x7d' (Stops isBare) :=
  stopping rfl rfl (by decide) (fun _ => isBare_space) rfl rfl

theorem pair_of_member {α : Type} {one : List Char → Option (α × List Char)}
    {P : List Char → α → Prop} {close : Char} {e : String × α}
    (hP : ∀ t a, P t a → Item isSpace one close (Stops isBare) t a) (h : MemberText P t e)
    (hclose : close ≠ '"') : Item isSpace (pair one) close (Stops isBare) t e := by
  obtain ⟨s, w, w', v, rfl, hs, hw, hw', hv⟩ := h.parts
  have hread := fun rest => string_of_quoted hs (w ++ ':' :: (w' ++ v ++ rest))
  obtain ⟨body, rfl, -⟩ := hs
  refine ⟨⟨'"', _, rfl, rfl, hclose.symm⟩, fun rest hrest => ?_⟩
  have hv := hP _ _ hv
  have hskip := skip_item hv hw' rest
  simp only [List.append_assoc, List.cons_append] at hread hskip ⊢
  rw [pair, hread]
  simp only [Option.bind_eq_bind, Option.bind_some]
  rw [skip_blanks hw, skip_cons rfl]
  simp only
  rw [hskip, hv.reads rest hrest]
  rfl

theorem member_of_pair {α : Type} {one : List Char → Option (α × List Char)}
    {P : List Char → α → Prop} (hP : Reads one P) : Reads (pair one) (MemberText P) := by
  intro l e rest h
  obtain ⟨⟨k, r⟩, hk, hvalue⟩ := Option.bind_eq_some_iff.mp h
  obtain ⟨s, rfl, hs⟩ := quoted_of_string hk
  obtain ⟨w, hw, hr⟩ := skip_eq isSpace r
  simp only at hvalue
  split at hvalue
  · rename_i r' hcolon
    obtain ⟨⟨a, r''⟩, ha, heq⟩ := Option.map_eq_some_iff.mp hvalue
    cases heq
    obtain ⟨w', hw', hr'⟩ := skip_eq isSpace r'
    obtain ⟨v, hv, hPv⟩ := hP _ _ _ ha
    refine ⟨s ++ w ++ ':' :: (w' ++ v), ?_, ⟨s, w, w', v, rfl, hs, hw, hw', hPv⟩⟩
    rw [hr, hcolon, hr', hv]
    simp
  · cases hvalue

section
variable {lit : List Char → Option Json} {make : List (String × Json) → Json}

theorem shaped_item (ih : ∀ t x, Shaped lit make d t x → ∀ rest, Stops isBare rest →
      shape lit make d (t ++ rest) = some (x, rest)) {close : Char} (hclose : close ∈ [']', '\x7d'])
    (h : Shaped lit make d t x) : Item isSpace (shape lit make d) close (Stops isBare) t x := by
  obtain ⟨c, l, hl, hc⟩ := h.opening
  refine ⟨⟨c, l, hl, hc.isSpace, ?_⟩, ih t x h⟩
  simp only [List.mem_cons, List.not_mem_nil, or_false] at hclose
  rcases hclose with rfl | rfl
  · exact hc.ne (by decide) rfl
  · exact hc.ne (by decide) rfl

theorem shape_of_shaped (h : Shaped lit make d t x) (hrest : Stops isBare rest) :
    shape lit make d (t ++ rest) = some (x, rest) := by
  induction d generalizing t x rest with
  | zero => exact token_of_text h hrest
  | succ d ih =>
    have hitem := fun {close t x} => @shaped_item d t x lit make (fun t x h rest => ih h) close
    rcases h with h | ⟨T, xs, rfl, hT, rfl⟩ | ⟨T, ms, rfl, hT, rfl⟩
    · obtain ⟨c, l, rfl, hc⟩ := h.opening
      have hread := token_of_text h hrest
      have hother : ∀ e, e ≠ '"' → isBare e = false → c ≠ e := by
        intro e hquote hbare he
        rw [he, hbare] at hc
        rcases hc with hc | hc
        · exact hquote hc
        · cases hc
      rw [List.cons_append, shape, if_neg (hother '[' (by decide) rfl),
        if_neg (hother '\x7b' (by decide) rfl), ← List.cons_append, hread]
    · have hitems : ∀ t x, Shaped lit make d t x →
          Item isSpace (shape lit make d) ']' (Stops isBare) t x := fun t x h => hitem (by simp) h
      have hlist := list_of_between stopping_array (hT.imp hitems) rest
      rw [List.cons_append, List.append_assoc, List.singleton_append, shape, if_pos rfl, hlist]
      rfl
    · have hmember : ∀ t e, MemberText (Shaped lit make d) t e →
          Item isSpace (pair (shape lit make d)) '\x7d' (Stops isBare) t e :=
        fun t e h => pair_of_member (fun t x h => hitem (by simp) h) h (by decide)
      have hlist := list_of_between stopping_object (hT.imp hmember) rest
      rw [List.cons_append, List.append_assoc, List.singleton_append, shape, if_neg (by decide),
        if_pos rfl, hlist]
      rfl

end

theorem value_of_written (h : Written float d t x) (hrest : Stops isBare rest) :
    value float d (t ++ rest) = some (x, rest) := by
  rw [value_eq]
  exact shape_of_shaped h.shaped hrest

theorem written_of_value (h : value float d l = some (x, rest)) :
    ∃ t, l = t ++ rest ∧ Written float d t x := by
  induction d generalizing l x rest with
  | zero => exact simple_of_scalar h
  | succ d ih =>
    have hone : Reads (value float d) (Written float d) := fun l x rest h => ih h
    unfold value at h
    split at h
    · rename_i heq
      cases heq
    · cases h
    · rename_i n c l heq
      cases heq
      split at h
      · rename_i hc
        obtain ⟨⟨xs, r⟩, hxs, heq⟩ := Option.map_eq_some_iff.mp h
        cases heq
        obtain ⟨T, hT, hbetween⟩ := between_of_list hone hxs
        exact ⟨'[' :: (T ++ [']']), by rw [hc, hT]; simp, .inr (.inl ⟨T, xs, rfl, hbetween, rfl⟩)⟩
      · split at h
        · rename_i hc
          obtain ⟨⟨ms, r⟩, hms, heq⟩ := Option.map_eq_some_iff.mp h
          cases heq
          obtain ⟨T, hT, hbetween⟩ := between_of_list (member_of_pair hone) hms
          exact ⟨'\x7b' :: (T ++ ['\x7d']), by rw [hc, hT]; simp,
            .inr (.inr ⟨T, ms, rfl, hbetween, rfl⟩)⟩
        · obtain ⟨t, ht, hsimple⟩ := simple_of_scalar h
          exact ⟨t, ht, .inl hsimple⟩

/-! ### Objects -/

/-- The text of an object: members between braces. -/
def ObjectText (float : List Char → Option ℚ) (l : List Char) (ms : List (String × Json)) : Prop :=
  ∃ w T w', l = w ++ '\x7b' :: (T ++ '\x7d' :: w') ∧ Blanks isSpace w ∧ Blanks isSpace w' ∧
    Between isSpace (MemberText (Written float (maxDepth - 1))) T ms

variable {ms : List (String × Json)}

theorem item_of_written {close : Char} (hclose : close ∈ [']', '\x7d']) (h : Written float d t x) :
    Item isSpace (value float d) close (Stops isBare) t x := by
  rw [value_eq]
  exact shaped_item (fun _ _ h _ => shape_of_shaped h) hclose h.shaped

theorem readMembers_of_object (h : ObjectText float l ms) : readMembers float l = some ms := by
  obtain ⟨w, T, w', rfl, hw, hw', hT⟩ := h
  have hmember : ∀ t e, MemberText (Written float (maxDepth - 1)) t e →
      Item isSpace (pair (value float (maxDepth - 1))) '\x7d' (Stops isBare) t e :=
    fun t e h => pair_of_member (fun t x h => item_of_written (by simp) h) h (by decide)
  have hlist := list_of_between stopping_object (hT.imp hmember) w'
  rw [readMembers, skip_blanks hw, skip_cons rfl]
  simp only [hlist, Option.bind_eq_bind, Option.bind_some]
  exact if_pos (List.all_eq_true.mpr hw')

theorem object_of_readMembers (h : readMembers float l = some ms) : ObjectText float l ms := by
  obtain ⟨w, hw, hl⟩ := skip_eq isSpace l
  unfold readMembers at h
  split at h
  · rename_i r hr
    obtain ⟨⟨es, r'⟩, hes, hrest⟩ := Option.bind_eq_some_iff.mp h
    obtain ⟨T, hT, hbetween⟩ := between_of_list
      (member_of_pair fun l x rest h => written_of_value h) hes
    simp only at hrest
    split at hrest
    · rename_i hw'
      cases hrest
      exact ⟨w, T, r', by rw [hl, hr, hT], hw, List.all_eq_true.mp hw', hbetween⟩
    · cases hrest
  · cases h

theorem read_of_object (h : ObjectText float l ms) : read float l = some (ofMembers ms) := by
  obtain ⟨w, T, w', rfl, hw, hw', hT⟩ := h
  have hwritten : Written float maxDepth ('\x7b' :: (T ++ ['\x7d'])) (ofMembers ms) :=
    .inr (.inr ⟨T, ms, rfl, hT, rfl⟩)
  have hread := value_of_written hwritten (stops_spaces hw')
  rw [List.cons_append, List.append_assoc, List.singleton_append] at hread
  rw [read, skip_blanks hw, skip_cons rfl, hread]
  simp only [Option.bind_eq_bind, Option.bind_some]
  exact if_pos (List.all_eq_true.mpr hw')

theorem literal_ne_obj (ms : List (String × Json)) : literal float t ≠ some (.obj ms) := by
  unfold literal
  split_ifs <;> try split
  all_goals simp

/-- A text that reads as an object is one. -/
theorem object_of_read (h : read float l = some (.obj ms)) :
    ∃ es, ObjectText float l es ∧ ofMembers es = .obj ms := by
  obtain ⟨w, hw, hl⟩ := skip_eq isSpace l
  obtain ⟨⟨x, r⟩, hx, hrest⟩ := Option.bind_eq_some_iff.mp h
  obtain ⟨t, ht, hwritten⟩ := written_of_value hx
  simp only at hrest
  split at hrest
  · rename_i hw'
    cases hrest
    rcases hwritten with hsimple | ⟨T, xs, -, -, heq⟩ | ⟨T, es, rfl, hT, heq⟩
    · rcases hsimple with ⟨s, -, heq⟩ | hbare
      · cases heq
      · exact absurd hbare.reads (literal_ne_obj ms)
    · cases heq
    · refine ⟨es, ⟨w, T, r, ?_, hw, List.all_eq_true.mp hw', hT⟩, heq.symm⟩
      rw [hl, ht]
      simp
  · cases hrest

end

end NdimonR.Json.Reader
