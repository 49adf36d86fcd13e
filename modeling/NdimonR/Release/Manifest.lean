import NdimonR.Library.Text
import NdimonR.Library.SortedMap

/-! The signed checksum list of a release. The list is authenticated before its names or checksums
are read. -/

namespace NdimonR.Release

open Text

abbrev Bytes := List UInt8

inductive Error where
  | untrustedKey
  | badSignature
  | wrongProduct
  | wrongVersion
  | missingFile (name : String)
  | checksumMismatch (name : String)
  | malformed (reason : String)
  deriving DecidableEq

def Error.code : Error → String
  | .untrustedKey => "untrusted_key"
  | .badSignature => "bad_signature"
  | .wrongProduct => "wrong_product"
  | .wrongVersion => "wrong_version"
  | .missingFile _ => "missing_file"
  | .checksumMismatch _ => "checksum_mismatch"
  | .malformed _ => "malformed"

def Error.text : Error → String
  | .missingFile name => "missing_file: " ++ name
  | .checksumMismatch name => "checksum_mismatch: " ++ name
  | .malformed reason => "malformed: " ++ reason
  | e => e.code

def product : String := "ndimon-r"

def maxManifestBytes : Nat := 1024 * 1024

def maxSignatureBytes : Nat := 4096

/-- Flat basenames: no traversal, controls or escaped names. -/
def validFilename (name : String) : Bool :=
  name ≠ "" && decide (len name ≤ 255) && name ≠ "." && name ≠ ".." &&
    all (fun c => isAsciiAlphanumeric c || "._+-~ ".toList.contains c) name &&
    !startsWith (fun c => ".- ".toList.contains c) name && !endsWith (· == ' ') name &&
    name ≠ "SHA256SUMS" && name ≠ "SHA256SUMS.minisig"

def fromUtf8 (bytes : Bytes) : Option String := String.fromUTF8? ⟨bytes.toArray⟩

/-- The lines of a text that ends with a line feed. -/
def splitTerminator (s : String) : List String := (split '\n' s).dropLast

def hexDigit (c : Char) : Nat :=
  if isAsciiDigit c then c.toNat - 48
  else if isAsciiLowercase c then c.toNat - 87
  else c.toNat - 55

def hexBytes : List Char → Bytes
  | a :: b :: rest => UInt8.ofNat (16 * hexDigit a + hexDigit b) :: hexBytes rest
  | _ => []

/-- The digest of each file by name. -/
structure Manifest where
  entries : SortedMap String Bytes

namespace Manifest

def names (m : Manifest) : List String := m.entries.keys

/-- One GNU record: 64 hex digits, a blank, the text or binary marker, and the name. The first 66
bytes are single characters, or the record is refused. -/
def record (m : Manifest) (line : String) : Except Error Manifest :=
  let l := line.toList
  if len line < 67 ∨ l[64]? ≠ some ' ' ∨ (l[65]? ≠ some ' ' ∧ l[65]? ≠ some '*') ∨
      (l.take 64).all isAsciiHexdigit = false then
    .error (.malformed "invalid GNU SHA256SUMS record")
  else
    let name := String.ofList (l.drop 66)
    if validFilename name = false then .error (.malformed "unsafe release filename")
    else if m.entries.contains name then .error (.malformed "duplicate release filename")
    else .ok ⟨m.entries.insert name (hexBytes (l.take 64))⟩

def records : Manifest → List String → Except Error Manifest
  | m, [] => .ok m
  | m, line :: rest => do
    let m ← m.record line
    records m rest

def parse (bytes : Bytes) : Except Error Manifest :=
  if bytes = [] ∨ maxManifestBytes < bytes.length ∨ bytes.getLast? ≠ some 10 then
    .error (.malformed "empty, oversized or unterminated SHA256SUMS")
  else
    match fromUtf8 bytes with
    | none => .error (.malformed "SHA256SUMS is not UTF-8")
    | some text => records ⟨.empty⟩ (splitTerminator text)

end Manifest

/-! ### Authentication -/

inductive VerifyError where
  | unexpectedKeyId
  | other
  deriving DecidableEq

/-- The signature and hash functions, and the types of parsed keys and signatures. -/
structure Crypto where
  Key : Type
  Signature : Type
  decode : String → Option Signature
  fromBase64 : String → Option Key
  verify : Key → Bytes → Signature → Except VerifyError Unit
  trustedComment : Signature → String
  sha256 : Bytes → Bytes

variable (crypto : Crypto)

def Manifest.verifyFile (m : Manifest) (file : Option Bytes) (name : String) :
    Except Error Unit :=
  match m.entries.get? name, file with
  | none, _ => .error (.missingFile name)
  | some _, none => .error (.missingFile name)
  | some expected, some bytes =>
    if crypto.sha256 bytes = expected then .ok () else .error (.checksumMismatch name)

def validVersion (version : String) : Bool :=
  version ≠ "" && decide (len version ≤ 128) &&
    all (fun c => isAsciiAlphanumeric c || ".+:~-".toList.contains c) version

def trustedComment (version : String) : Except Error String :=
  if validVersion version = false then .error (.malformed "invalid release version")
  else .ok s!"product:{product}\tversion:{version}\tfile:SHA256SUMS"

/-- Whether some key verifies the list, after which of them were of another identity. -/
def verifyKeys (bytes : Bytes) (signature : crypto.Signature) :
    List String → Bool → Except Error Unit
  | [], matching => .error (if matching then .badSignature else .untrustedKey)
  | key :: rest, matching =>
    match crypto.fromBase64 key with
    | none => .error (.malformed "invalid trusted public key")
    | some key =>
      match crypto.verify key bytes signature with
      | .ok () => .ok ()
      | .error .unexpectedKeyId => verifyKeys bytes signature rest matching
      | .error .other => verifyKeys bytes signature rest true

def checkComment (comment version : String) : Except Error Unit :=
  match split '\t' comment with
  | [p, v, f] =>
    if p ≠ "product:ndimon-r" then .error .wrongProduct
    else if v ≠ s!"version:{version}" then .error .wrongVersion
    else if f ≠ "file:SHA256SUMS" then
      .error (.malformed "trusted comment must name SHA256SUMS")
    else .ok ()
  | _ => .error (.malformed "expected product, version and file in trusted comment")

def verifyManifest (bytes : Bytes) (signature : String) (keys : List String) (version : String) :
    Except Error Manifest :=
  if keys = [] then .error .untrustedKey
  else if maxManifestBytes < bytes.length ∨ maxSignatureBytes < len signature ∨
      (lines signature).length ≠ 4 then
    .error (.malformed "oversized manifest or malformed signature envelope")
  else
    match crypto.decode signature with
    | none => .error (.malformed "invalid minisign signature")
    | some s => do
      verifyKeys crypto bytes s keys false
      checkComment (crypto.trustedComment s) version
      let _ ← trustedComment version
      Manifest.parse bytes

end NdimonR.Release
