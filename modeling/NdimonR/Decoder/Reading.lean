import NdimonR.Privd.Schema
import NdimonR.Library.Ipv4

/-! How the decoder reads JSON: the accessors of its library with the texts of their exceptions,
and the small readers the follower's domains share. -/

namespace NdimonR.Decoder

open Json Text

abbrev Result := Except String

/-- A check that throws. -/
def require (ok : Bool) (error : String) : Result Unit := if ok then .ok () else .error error

def typeName : Json → String
  | .null => "null"
  | .bool _ => "boolean"
  | .int _ | .float _ => "number"
  | .str _ => "string"
  | .arr _ => "array"
  | .obj _ => "object"

def typeError (expected : String) (j : Json) : String :=
  "[json.exception.type_error.302] type must be " ++ expected ++ ", but is " ++ typeName j

def getString : Json → Result String
  | .str s => .ok s
  | j => .error (typeError "string" j)

def getBool : Json → Result Bool
  | .bool b => .ok b
  | j => .error (typeError "boolean" j)

def getDouble (j : Json) : Result ℚ :=
  match Privd.asF64 j with
  | some q => .ok q
  | none => .error (typeError "number" j)

/-- The member of an object, which has to be there. -/
def atKey (j : Json) (k : String) : Result Json :=
  match j with
  | .obj members =>
    match SortedMap.lookup k members with
    | some x => .ok x
    | none => .error ("[json.exception.out_of_range.403] key '" ++ k ++ "' not found")
  | _ => .error ("[json.exception.type_error.304] cannot use at() with " ++ typeName j)

/-- A member with a default for where the object lacks it. -/
def valueOr {α : Type} (read : Json → Result α) (j : Json) (k : String) (default : α) : Result α :=
  match j with
  | .obj members =>
    match SortedMap.lookup k members with
    | some x => read x
    | none => .ok default
  | _ => .error ("[json.exception.type_error.306] cannot use value() with " ++ typeName j)

def contains (k : String) (j : Json) : Bool := (get k j).isSome

def isObject (j : Json) : Bool := (asObject j).isSome

/-- Members or items; null has none, any other value is one. -/
def size : Json → Nat
  | .null => 0
  | .arr items => items.length
  | .obj members => members.length
  | _ => 1

def isEmpty (j : Json) : Bool := size j = 0

def members (j : Json) : List (String × Json) := (asObject j).getD []

/-! ### Readers of the follower's domains -/

def text (j : Json) (k : String) : Result String := do
  let s ← getString (← atKey j k)
  require (!s.toList.contains '\x00') (k ++ ": embedded NUL")
  .ok s

def choice (j : Json) (k : String) (values : List String) : Result String := do
  let s ← text j k
  if s ∈ values then .ok s else .error (k ++ ": unsupported value")

def integer (j : Json) (low high : Int) : Result Int :=
  match j with
  | .int n =>
    if Privd.isInteger j then
      if low ≤ n ∧ n ≤ high then .ok n else .error "integer out of range"
    else .error "expected integer"
  | _ => .error "expected integer"

def ipv4 (s : String) : Bool := (Ipv4Addr.parse s).isSome

/-- A host name label: at most 63 characters, no hyphen at either end. -/
def hostLabel (s : String) : Bool :=
  all (fun c => isAsciiAlphanumeric c || c == '-') s && startsWith isAsciiAlphanumeric s &&
    endsWith isAsciiAlphanumeric s && decide (chars s ≤ 63)

def host (s : String) : Bool :=
  if s = "" ∨ 253 < len s then false
  else if all (fun c => isAsciiDigit c || c == '.') s then ipv4 s
  else if endsWith (· == '.') s then false
  else (split '.' s).all hostLabel

def listEntry (addresses : Bool) (item : Json) : Result String := do
  let s ← getString item
  require (s ≠ "" && all (fun c => !([',', '\r', '\n', '\x00'].contains c)) s) "invalid list entry"
  require (!addresses || ipv4 s) "expected IPv4 address"
  .ok s

/-- The entries of an array, joined by commas. -/
def list (j : Json) (addresses : Bool) : Result String :=
  match j with
  | .arr items => (items.mapM (listEntry addresses)).map (String.intercalate ",")
  | _ => .error "expected array"

end NdimonR.Decoder
