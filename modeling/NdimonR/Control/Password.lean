import NdimonR.Library.JsonText
import NdimonR.Library.Outcome

/-! The password record: verification, the upgrade of older records, and its way through a
backup. -/

namespace NdimonR.Control

open Text

/-- The functions of the hashing and JSON libraries. -/
structure Crypto where
  sha : List UInt8 → List UInt8
  /-- scrypt with the legacy cost, of a password and a binary salt. -/
  scrypt : List UInt8 → List UInt8 → List UInt8
  /-- The PHC text of Argon2id with the default cost, under a random salt. -/
  argon : List UInt8 → List UInt8 → String
  /-- Whether a PHC text is of this password; none where the text is no PHC text. -/
  verify : String → List UInt8 → Option Bool
  parse : List UInt8 → Option Json
  floatText : ℚ → String

namespace Crypto

/-- What `serde_json::to_vec` writes. -/
def text (env : Crypto) (record : Json) : List UInt8 := bytes (record.render env.floatText)

end Crypto

/-! ### Hexadecimal -/

def hexEncode (l : List UInt8) : String :=
  String.ofList (l.flatMap fun b => [Json.hexDigit (b.toNat / 16), Json.hexDigit (b.toNat % 16)])

def hexValue (c : Char) : Option Nat :=
  if isAsciiDigit c then some (c.toNat - '0'.toNat)
  else if 'a' ≤ c ∧ c ≤ 'f' then some (c.toNat - 'a'.toNat + 10)
  else if 'A' ≤ c ∧ c ≤ 'F' then some (c.toNat - 'A'.toNat + 10)
  else none

def hexPairs : List Char → Option (List UInt8)
  | [] => some []
  | [_] => none
  | a :: b :: rest => do
    let high ← hexValue a
    let low ← hexValue b
    let tail ← hexPairs rest
    some (UInt8.ofNat (16 * high + low) :: tail)

def hexDecode (s : String) : Option (List UInt8) := hexPairs s.toList

/-! ### The record -/

def asStr : Json → Option String
  | .str s => some s
  | _ => none

/-- Assignment to a member keeps its place, or appends it. -/
def replaceMember (key : String) (value : Json) : List (String × Json) → List (String × Json)
  | [] => [(key, value)]
  | e :: rest => if e.1 = key then (key, value) :: rest else e :: replaceMember key value rest

def setMember (key : String) (value : Json) : Json → Json
  | .obj members => .obj (replaceMember key value members)
  | json => json

/-- The auth file as a reader finds it. -/
inductive AuthFile where
  | missing
  | unreadable
  | holds (content : List UInt8)
  deriving DecidableEq

def maxAuthBytes : Nat := 16 * 1024

/-- A missing file reads as an empty one. -/
def AuthFile.bytes : AuthFile → Except String (List UInt8)
  | .holds content =>
    if content.length ≤ maxAuthBytes then .ok content else .error "auth file too large"
  | .missing => .ok []
  | .unreadable => .error "cannot read auth file"

def stamp (env : Crypto) (file : AuthFile) : Except String (List UInt8) := do
  let content ← file.bytes
  .ok (env.sha content)

def scryptHash (env : Crypto) (password salt : String) : Except String String :=
  match hexDecode salt with
  | some salt => .ok (hexEncode (env.scrypt (Text.bytes password) salt))
  | none => .error "invalid scrypt salt"

/-- One work factor of a PHC text, within its bound. -/
def workFactor (field lit : String) (max : Nat) : Bool :=
  ((stripPrefix lit field).bind (parseUnsigned (2 ^ 32 - 1))).any fun n => 0 < n && n ≤ max

/-- The work factors are bounded before the verifier may allocate memory. -/
def boundedPhc (phc : String) : Bool :=
  len phc ≤ 512 &&
    match split '$' phc with
    | [_, algorithm, version, params, _, _] =>
      algorithm == "argon2id" && version == "v=19" &&
        match split ',' params with
        | [m, t, p] => workFactor m "m=" 65536 && workFactor t "t=" 10 && workFactor p "p=" 8
        | _ => false
    | _ => false

/-- The verdict on a password, and the record that replaces an older one. -/
def verdict (env : Crypto) (nonce : List UInt8) (stored : Json) (password : String) :
    Except String (Bool × Option Json) :=
  match asStr (stored.member "salt"), asStr (stored.member "hash") with
  | none, _ => .error "missing salt"
  | some _, none => .error "missing hash"
  | some salt, some hash =>
    let algo := (asStr (stored.member "algo")).getD "scrypt"
    if algo = "argon2id" then
      match asStr (stored.member "phc") with
      | none => .error "missing PHC hash"
      | some phc =>
        if boundedPhc phc = false then .error "invalid Argon2id hash"
        else match env.verify phc (Text.bytes password) with
          | none => .error "invalid PHC hash"
          | some valid => .ok (valid, none)
    else if algo = "scrypt" then
      if len salt ≠ 32 ∨ len hash ≠ 64 then .error "invalid scrypt record"
      else match scryptHash env password salt with
        | .error e => .error e
        | .ok candidate =>
          if candidate ≠ hash then .ok (false, none)
          else .ok (true, some (setMember "phc" (.str (env.argon nonce (Text.bytes password)))
            (setMember "algo" (.str "argon2id") stored)))
    else .error "unsupported password algorithm"

/-- What the content of the file says of a password. -/
def judge (env : Crypto) (nonce : List UInt8) (content : List UInt8) (password : String) :
    Except String (Bool × Option Json) :=
  if content = [] then
    .ok (env.sha (Text.bytes password) = env.sha (Text.bytes "ndimon"), none)
  else match env.parse content with
    | none => .error "invalid auth file"
    | some stored => verdict env nonce stored password

/-- The record of a new password. -/
def newRecord (env : Crypto) (nonce salt : List UInt8) (password : String) : Except String Json := do
  let hash ← scryptHash env password (hexEncode salt)
  .ok (.obj [("algo", .str "argon2id"), ("phc", .str (env.argon nonce (Text.bytes password))),
    ("hash", .str hash), ("salt", .str (hexEncode salt))])

/-- The privileged writer reads the record off its frame and serializes it again. -/
def privdWrite (env : Crypto) (record : Json) : Option (List UInt8) :=
  (env.parse (env.text record)).map env.text

/-! ### Backups -/

def truthy : Json → Bool
  | .null => false
  | .bool b => b
  | .str s => s ≠ ""
  | .int n => n ≠ 0
  | .float q => q ≠ 0
  | _ => true

/-- The members of the record that a backup takes. -/
def exportRecord (record : Json) : Option Json :=
  if !truthy (record.member "salt") || !truthy (record.member "hash") then none
  else
    let algo := if truthy (record.member "algo") then [("algo", record.member "algo")] else []
    let phc := match record with
      | .obj members =>
        if record.member "algo" = .str "argon2id" then
          ((SortedMap.lookup "phc" members).map fun phc => ("phc", phc)).toList
        else []
      | _ => []
    some (.obj ([("salt", record.member "salt"), ("hash", record.member "hash")] ++ algo ++ phc))

def exportAuth (env : Crypto) (content : List UInt8) : Except String (Option Json) :=
  if content = [] then .ok none
  else match env.parse content with
    | none => .error "Invalid backup auth file /etc/ndimon-auth.json: invalid JSON"
    | some record => .ok (exportRecord record)

def lowerHex (length : Nat) (value : Json) : Bool :=
  (asStr value).any fun s =>
    len s == length && all (fun c => isAsciiDigit c || ('a' ≤ c && c ≤ 'f')) s

def digitsAtMost (max : Nat) (field lit : String) : Bool :=
  (stripPrefix lit field).any fun s => all isAsciiDigit s &&
    (parseUnsigned (2 ^ 64 - 1) s).any fun n => 0 < n && n ≤ max

def base64Chars (least most : Nat) (s : String) : Bool :=
  all (fun c => isAsciiAlphanumeric c || c == '+' || c == '/') s &&
    least ≤ chars s && chars s ≤ most

/-- The PHC texts that a restore takes. -/
def importablePhc (phc : String) : Bool :=
  len phc ≤ 512 &&
    match split '$' phc with
    | [start, algorithm, version, params, salt, hash] =>
      start == "" && algorithm == "argon2id" && version == "v=19" &&
        (match split ',' params with
        | [m, t, p] => digitsAtMost 65536 m "m=" && digitsAtMost 10 t "t=" && digitsAtMost 8 p "p="
        | _ => false) &&
        base64Chars 8 128 salt && base64Chars 16 128 hash
    | _ => false

def importAuth (updated : String) (record : Json) : Except String Json :=
  let has (key : String) : Bool := match record with
    | .obj members => (SortedMap.lookup key members).isSome
    | _ => false
  let algo := record.member "algo"
  if lowerHex 32 (record.member "salt") = false then .error "invalid password salt"
  else if lowerHex 64 (record.member "hash") = false then .error "invalid password hash"
  else if has "algo" ∧ algo ≠ .str "scrypt" ∧ algo ≠ .str "argon2id" then
    .error "invalid password algorithm"
  else if algo = .str "argon2id" ∧ importablePhc ((asStr (record.member "phc")).getD "") = false then
    .error "invalid Argon2id hash"
  else .ok (.obj ([("salt", record.member "salt"), ("hash", record.member "hash")] ++
    (if has "algo" then [("algo", algo)] else []) ++
    (if algo = .str "argon2id" then [("phc", record.member "phc")] else []) ++
    [("updated", .str updated), ("imported", .bool true)]))

end NdimonR.Control
