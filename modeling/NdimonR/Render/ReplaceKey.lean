import NdimonR.Library.JsonWritten

/-! Replacing one top-level value of a JSON file that other programs own too. A place in the text is
what stands before it and what comes after. -/

namespace NdimonR.Render.ReplaceKey

open Json Json.Reader

mutual
/-- Whole numbers that a double holds exactly are written as integers. -/
def numbers : Json → Json
  | .float q => if q.den = 1 ∧ q.num.natAbs ≤ 9007199254740991 then .int q.num else .float q
  | .obj members => .obj (numbersMembers members)
  | .arr items => .arr (numbersItems items)
  | x => x

def numbersItems : List Json → List Json
  | [] => []
  | x :: rest => numbers x :: numbersItems rest

def numbersMembers : List (String × Json) → List (String × Json)
  | [] => []
  | (k, x) :: rest => (k, numbers x) :: numbersMembers rest
end

def nodeJson (floatText : ℚ → String) (value : Json) : String := (numbers value).render floatText

inductive Failure where
  | parser
  | text (message : String)
  deriving DecidableEq

/-- With the form feed, which the parser does not skip. -/
def isAsciiWhitespace (c : Char) : Bool :=
  c = ' ' || c = '\t' || c = '\n' || c = '\r' || c = '\x0c'

def stringEnd : List Char → Except Failure (List Char × List Char)
  | '"' :: rest =>
    match closing rest with
    | some (body, rest) => .ok ('"' :: (body ++ ['"']), rest)
    | none => .error (.text "unterminated string")
  | _ => .error (.text "expected string")

/-- From a bracket to the one that closes it; no fewer steps than characters. -/
def nested : Nat → Int → List Char → Except Failure (List Char × List Char)
  | 0, _, _ | _, _, [] => .error (.text "unterminated value")
  | fuel + 1, depth, c :: rest =>
    if c = '"' then do
      let (s, rest) ← stringEnd (c :: rest)
      (nested fuel depth rest).map fun e => (s ++ e.1, e.2)
    else if c = '\x7b' ∨ c = '[' then
      (nested fuel (depth + 1) rest).map fun e => (c :: e.1, e.2)
    else if c = '\x7d' ∨ c = ']' then
      if depth - 1 = 0 then .ok ([c], rest)
      else (nested fuel (depth - 1) rest).map fun e => (c :: e.1, e.2)
    else (nested fuel depth rest).map fun e => (c :: e.1, e.2)

def isScalar (c : Char) : Bool := !isAsciiWhitespace c && c ≠ ',' && c ≠ '\x7d'

def valueEnd (b : List Char) : Except Failure (List Char × List Char) :=
  if b.head? = some '"' then stringEnd b
  else if b.head? = some '\x7b' ∨ b.head? = some '[' then nested b.length 0 b
  else if b.takeWhile isScalar = [] then .error (.text "missing value")
  else .ok (b.takeWhile isScalar, b.dropWhile isScalar)

/-- A member: from its name up to its value, the value and what comes after. -/
structure Entry where
  lead : List Char
  name : String
  value : List Char
  after : List Char

def entry (b : List Char) : Except Failure Entry := do
  let (quoted, rest) ← stringEnd b
  let name ← (readString quoted).elim (.error .parser) .ok
  match rest.dropWhile isAsciiWhitespace with
  | ':' :: after => do
    let (value, end_) ← valueEnd (after.dropWhile isAsciiWhitespace)
    .ok ⟨quoted ++ rest.takeWhile isAsciiWhitespace ++ ':' :: after.takeWhile isAsciiWhitespace,
      name, value, end_⟩
  | _ => .error (.text "expected colon")

/-- The text up to the closing brace, the brace and the rest, and where the key's value is. -/
structure Scanned where
  before : List Char
  rest : List Char
  found : Option (List Char × List Char)
  count : Nat

/-- The loop over the members; no fewer steps than characters. -/
def members (key : String) : Nat → (before b : List Char) → Option (List Char × List Char) → Nat →
    Except Failure Scanned
  | 0, _, _, _, _ => .error (.text "expected string")
  | fuel + 1, before, b, found, count =>
    let before := before ++ b.takeWhile isAsciiWhitespace
    match b.dropWhile isAsciiWhitespace with
    | '\x7d' :: rest => .ok ⟨before, '\x7d' :: rest, found, count⟩
    | b => do
      let e ← entry b
      if e.name = key ∧ found.isSome then .error (.text s!"duplicate key {key}")
      else
        let found := if e.name = key then some (before ++ e.lead, e.after) else found
        let before := before ++ e.lead ++ e.value ++ e.after.takeWhile isAsciiWhitespace
        match e.after.dropWhile isAsciiWhitespace with
        | ',' :: rest => members key fuel (before ++ [',']) rest found (count + 1)
        | '\x7d' :: rest => .ok ⟨before, '\x7d' :: rest, found, count + 1⟩
        | _ => .error (.text "expected object separator")

/-- The text with the replacement, from the place after the opening brace. -/
def spliced (key : String) (replacement before rest : List Char) : Except Failure String := do
  let s ← members key (rest.length + 1) before rest none 0
  match s.found with
  | some (start, stop) => .ok (String.ofList (start ++ replacement ++ stop))
  | none =>
    .ok (String.ofList (s.before ++ (if 0 < s.count then [','] else []) ++ (quote key).toList ++
      ':' :: replacement ++ s.rest))

def replaceKey (float : List Char → Option ℚ) (floatText : ℚ → String) (raw key : String)
    (value : Json) : Except Failure String :=
  match read float raw.toList with
  | none => .error .parser
  | some (.obj _) =>
    match raw.toList.dropWhile (· ≠ '\x7b') with
    | [] => .error (.text "expected object")
    | brace :: rest =>
      spliced key (nodeJson floatText value).toList
        (raw.toList.takeWhile (· ≠ '\x7b') ++ [brace]) rest
  | some _ => .error (.text "expected JSON object")

end NdimonR.Render.ReplaceKey
