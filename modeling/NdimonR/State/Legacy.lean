import NdimonR.Library.JsonOrder
import NdimonR.Library.SortBy
import NdimonR.Privd.Schema
import NdimonR.Render.ReplaceKey
import Mathlib.Data.Prod.Lex
import Mathlib.Order.BooleanAlgebra.Basic

/-! The texts of a legacy backup: the one its checksum is taken of, and the one a section is
written as. Objects keep the order of their members. A number is its value, so a float has one
zero. -/

namespace NdimonR.State.Legacy

open Text Json Json.Reader
open Privd (nearestDouble asF64)
open Render.ReplaceKey (nodeJson)

section
variable (js : ℚ → String)

def entryText (colon : String) (e : String × String) : String := quote e.1 ++ colon ++ e.2

mutual
/-- `js` writes a double as JavaScript does. Every number has a double, so nothing fails. -/
def canonical : Json → String
  | .obj m =>
    "\x7b" ++ String.intercalate "," ((sortBy (fun e => encodeUtf16 e.1) (canonicalMembers m)).map
      (entryText ":")) ++ "\x7d"
  | .arr a => "[" ++ String.intercalate "," (canonicalItems a) ++ "]"
  | .int n => js (nearestDouble n)
  | .float q => js q
  | value => nodeJson js value

def canonicalItems : List Json → List String
  | [] => []
  | x :: rest => canonical x :: canonicalItems rest

def canonicalMembers : List (String × Json) → List (String × String)
  | [] => []
  | (k, x) :: rest => (k, canonical x) :: canonicalMembers rest
end

/-- `digest` is the SHA-256 of a text in hexadecimal digits. -/
def checksum (digest : String → String) (sections : Json) : String :=
  digest (canonical js sections)

/-! ### The text of a section -/

/-- A key that is an integer index. -/
def index (key : String) : Option Nat :=
  (parseUnsigned 4294967295 key).filter fun n => n < 4294967295 && toString n = key

/-- Integer indices come first, in their order. -/
def rank (key : String) : Bool ×ₗ Nat := toLex ((index key).isNone, (index key).getD 0)

def indent (pretty : Bool) (n : Nat) : String :=
  if pretty then String.join (List.replicate n "  ") else ""

/-- Entries between brackets. -/
def enclosed (pretty : Bool) (depth : Nat) (opening closing : String) (entries : List String) :
    String :=
  if entries = [] then opening ++ closing
  else if pretty then
    opening ++ ("\n" ++ indent pretty (depth + 1)) ++
      String.intercalate (",\n" ++ indent pretty (depth + 1)) entries ++
      ("\n" ++ indent pretty depth) ++ closing
  else opening ++ String.intercalate "," entries ++ closing

mutual
def encode (pretty : Bool) : Json → Nat → String
  | .obj object, depth =>
    enclosed pretty depth "\x7b" "\x7d"
      ((sortBy (fun e => rank e.1) (encodeMembers pretty object (depth + 1))).map
        (entryText (":" ++ if pretty then " " else "")))
  | .arr array, depth => enclosed pretty depth "[" "]" (encodeItems pretty array (depth + 1))
  | value, _ => canonical js value

def encodeItems (pretty : Bool) : List Json → Nat → List String
  | [], _ => []
  | x :: rest, depth => encode pretty x depth :: encodeItems pretty rest depth

def encodeMembers (pretty : Bool) : List (String × Json) → Nat → List (String × String)
  | [], _ => []
  | (k, x) :: rest, depth => (k, encode pretty x depth) :: encodeMembers pretty rest depth
end

def stringify (value : Json) (pretty : Bool) : String := encode js pretty value 0

end

/-- Parsing the text of a section; `float` is what a number that is no 64-bit integer reads as. -/
def fromStr (float : List Char → Option ℚ) (text : String) : Option Json :=
  readInOrder float text.toList

/-! ### JavaScript values -/

mutual
/-- Every number as its double. -/
def doubles : Json → Json
  | .int n => .float (nearestDouble n)
  | .arr items => .arr (doublesItems items)
  | .obj members => .obj (doublesMembers members)
  | x => x

def doublesItems : List Json → List Json
  | [] => []
  | x :: rest => doubles x :: doublesItems rest

def doublesMembers : List (String × Json) → List (String × Json)
  | [] => []
  | (k, x) :: rest => (k, doubles x) :: doublesMembers rest
end

/-- What two values share that differ in the order of members and the spelling of numbers only. -/
def jsValue (x : Json) : Json := (doubles x).sorted

/-- A finite double. -/
def IsDouble (q : ℚ) : Prop :=
  ∃ (m : ℤ) (e : ℕ), m.natAbs < 2 ^ 53 ∧ e ≤ 2045 ∧ q = m * 2 ^ e / 2 ^ 1074

/-- What a JSON value is made of: names once, integers of 64 bits, finite doubles. -/
def IsNode : Json → Prop
  | .int n => -9223372036854775808 ≤ n ∧ n < 18446744073709551616
  | .float q => IsDouble q
  | .obj members => (members.map Prod.fst).Nodup
  | _ => True

/-- A number reads as a number with the same double. -/
def ReadsBack (js : ℚ → String) (float : List Char → Option ℚ) (x : Json) : Prop :=
  ∀ q, asF64 x = some q → ∃ y, literal float (js q).toList = some y ∧ asF64 y = some q

/-- Doubles are written as JSON numbers, and no two alike. -/
structure NumberText (js : ℚ → String) : Prop where
  number : ∀ q, IsDouble q → isNumber (js q).toList = true
  injective : ∀ q r, IsDouble q → IsDouble r → js q = js r → q = r

end NdimonR.State.Legacy
