import NdimonR.Privd.Download

/-! The signed update: it fetches the release of the requested version, authenticates its checksum
list, stages and verifies every package, and installs them together. -/

namespace NdimonR.Privd

open Text
open NdimonR.Release (Bytes)

def maxApiBytes : Nat := 1024 * 1024

def maxPackageBytes : Nat := 256 * 1024 * 1024

def maxTotalBytes : Nat := 1024 * 1024 * 1024

def requiredPackages : List String :=
  ["ndimon-control", "ndimon-privd", "ndimon-runtime", "ndimon-ui"]

def splitOnce (sep : Char) (s : String) : Option (String × String) :=
  match split sep s with
  | first :: second :: rest => some (first, String.intercalate (String.singleton sep) (second :: rest))
  | _ => none

def rsplitOnce (sep : Char) (s : String) : Option (String × String) :=
  match (split sep s).reverse with
  | last :: previous :: rest =>
    some (String.intercalate (String.singleton sep) (previous :: rest).reverse, last)
  | _ => none

/-- Debian policy, `[epoch:]upstream[-revision]`; colons are part of upstream only after an
epoch. -/
def releaseVersion (s : String) : Bool :=
  if s = "" ∨ 128 < len s ∨ any (fun c => 128 ≤ c.toNat) s then false
  else
    let epoch := splitOnce ':' s
    if epoch.any fun (e, _) => e = "" ∨ all isAsciiDigit e = false ∨
        (parseUnsigned 4294967295 e).isNone then false
    else
      let rest := epoch.elim s Prod.snd
      let revision := rsplitOnce '-' rest
      if revision.any fun (_, r) => r = "" ∨
          all (fun c => isAsciiAlphanumeric c || "+.~".toList.contains c) r = false then false
      else
        let upstream := revision.elim rest Prod.fst
        upstream ≠ "" && startsWith isAsciiDigit upstream &&
          all (fun c => isAsciiAlphanumeric c || ".+~-".toList.contains c ||
            (epoch.isSome && c == ':')) upstream

abbrev ReleaseVersion := { s : String // releaseVersion s = true }

def checkedVersion (text : String) : Except Error ReleaseVersion :=
  if h : releaseVersion (trim text) = true then .ok ⟨trim text, h⟩
  else .error (failed "version" "invalid installed or package version")

structure Asset where
  name : String
  browserDownloadUrl : String
  size : Nat

structure Release where
  tagName : String
  draft : Bool
  assets : List Asset

structure Update where
  env : Env
  /-- The release a JSON text describes. -/
  parseRelease : Bytes → Option Release
  firmware : Except Error (Option Bytes)
  /-- `/etc/os-release` and `/usr/lib/os-release`. -/
  osRelease : Except Error (Option String)
  usrOsRelease : Except Error (Option String)
  stageDir : String
  keys : List String
  source : String
  version : ReleaseVersion
  force : Bool

/-- The verdict of a program that says no with exit code 1. -/
def decided : Except Error String → Except Error Bool
  | .ok _ => .ok true
  | .error (.failed _ _ (some 1)) => .ok false
  | .error e => .error e

def verificationError (e : Release.Error) : Error := failed e.code e.text

/-- The installed version a `dpkg-query` answer tells. -/
def packageState : Except Error String → Except Error (Option ReleaseVersion)
  | .ok out =>
    match splitOnce '\t' (trim out) with
    | none => .error (failed "version" "cannot parse installed package state")
    | some (status, version) =>
      if ["installed", "unpacked", "half-configured", "half-installed"].contains status then
        (checkedVersion version).map some
      else if ["not-installed", "config-files"].contains status then .ok none
      else .error (failed "version" "unrecognized installed package state")
  | .error (.failed _ _ (some 1)) => .ok none
  | .error e => .error e

def trimMatches (p : Char → Bool) (s : String) : String :=
  String.ofList ((s.toList.dropWhile p).rdropWhile p)

/-- The value of a key in an os-release text. -/
def osField (text key : String) : String :=
  ((lines text).findSome? fun line => (stripPrefix key line).bind (stripPrefix "=")).elim ""
    fun value => trimMatches (fun c => c == '"' || c == '\'') (trim value)

def distributionName (text : String) : Except Error String :=
  let id := osField text "ID"
  let version := osField text "VERSION_ID"
  let name := id ++ version
  if id = "" ∨ version = "" ∨ 32 < len name ∨
      all (fun c => isAsciiLowercase c || isAsciiDigit c || c == '.') name = false then
    .error (failed "distribution" "os-release names no supported ID and VERSION_ID")
  else .ok name

/-- The assets by name, each named once. -/
def assetMap : SortedMap String Asset → List Asset → Except Error (SortedMap String Asset)
  | assets, [] => .ok assets
  | assets, asset :: rest =>
    if assets.contains asset.name then .error (failed "release" "duplicate release asset")
    else assetMap (assets.insert asset.name asset) rest

/-- The packages of a list for this architecture and distribution release. -/
def packageNames (manifest : Release.Manifest) (arch distribution : String) :
    Except Error (List String) :=
  let names := manifest.names.filter (endsWithText s!"_{arch}_{distribution}.deb")
  if names = [] ∨ 32 < names.length then
    .error (failed "release"
      s!"release has no packages for {arch} {distribution} or too many packages")
  else .ok names

namespace Update

variable (u : Update)

def apiUrl : Except Error Url := do
  let base ← (u.env.parseUrl "https://api.github.com/").elim
    (.error (failed "release" "invalid API base")) .ok
  (u.env.withSegments base
    (["repos"] ++ split '/' u.source ++ ["releases", "tags", s!"v{u.version.val}"])).elim
    (.error (failed "release" "invalid API URL")) .ok

def assetUrl (asset : Asset) : Except Error Url := do
  let url ← (u.env.parseUrl asset.browserDownloadUrl).elim
    (.error (failed "release" "invalid asset URL")) .ok
  let base ← (u.env.parseUrl "https://github.com/").elim
    (.error (failed "release" "invalid asset base")) .ok
  let expected ← (u.env.withSegments base
    (split '/' u.source ++ ["releases", "download", s!"v{u.version.val}", asset.name])).elim
    (.error (failed "release" "invalid asset URL")) .ok
  if allowedAssetHost url = false ∨ url ≠ expected then
    .error (failed "release" "asset URL does not belong to the requested repository and tag")
  else .ok url

def progress (stage : String) (file : Option String := none) : Action Unit :=
  u.env.operation fun w => { w with progress := (stage, file) :: w.progress }

def installedVersion : Except Error ReleaseVersion := do
  let current ← u.firmware
  let current ← current.elim
    (.error (failed "version" "installed firmware version is unavailable")) .ok
  let text ← (Release.fromUtf8 current).elim
    (.error (failed "version" "installed firmware version is not UTF-8")) .ok
  checkedVersion text

def refuseDowngrade (current : ReleaseVersion) : Action Unit :=
  if u.force then pure ()
  else do
    let answer ← Proc.attempt (u.env.command (.compareVersions u.version.val "lt" current.val))
    let older ← Proc.ofExcept (decided answer)
    Proc.require (older = false) (.invalid "version" "downgrade requires force")

def installedPackageVersion (package : String) : Action (Option ReleaseVersion) := do
  let answer ← Proc.attempt (u.env.command (.query package))
  Proc.ofExcept (packageState answer)

def architecture : Action String := do
  let out ← u.env.command .printArchitecture
  let arch := trim out
  Proc.require (arch = "amd64" ∨ arch = "arm64")
    (failed "architecture" "signed updates support amd64 and arm64")
  pure arch

def distribution : Except Error String := do
  let text ← match u.osRelease with
    | .ok (some text) => .ok text
    | _ => do
      let text ← u.usrOsRelease
      text.elim (.error (failed "distribution" "os-release is unavailable")) .ok
  distributionName text

def fetch (assets : SortedMap String Asset) (name : String) (max : Nat) : Action Bytes := do
  let asset ← Proc.ofExcept <|
    (assets.get? name).elim (.error (verificationError (.missingFile name))) .ok
  Proc.require (asset.size ≤ max) (failed "download" "release asset exceeds limit")
  let url ← Proc.ofExcept (u.assetUrl asset)
  let bytes ← u.env.downloadBytes url false max
  Proc.modify fun w => { w with fetched := (name, bytes) :: w.fetched }
  pure bytes

def verifiedManifest (assets : SortedMap String Asset) : Action Release.Manifest := do
  let sums ← u.fetch assets "SHA256SUMS" Release.maxManifestBytes
  let signature ← u.fetch assets "SHA256SUMS.minisig" Release.maxSignatureBytes
  let signature ← Proc.ofExcept <|
    (Release.fromUtf8 signature).elim (.error (failed "malformed" "signature is not UTF-8")) .ok
  Proc.ofExcept <|
    (Release.verifyManifest u.env.crypto sums signature u.keys u.version.val).mapError
      verificationError

/-- The package's name, after its identity has been checked. -/
def packageMetadata (path arch : String) : Action String := do
  let package ← u.env.command (.field path "Package") (some path)
  let version ← u.env.command (.field path "Version") (some path)
  let architecture ← u.env.command (.field path "Architecture") (some path)
  Proc.require (requiredPackages.contains (trim package) ∧ trim version = u.version.val ∧
      (trim architecture = arch ∨ trim architecture = "all"))
    (failed "package" "unexpected package name, version or architecture")
  pure (trim package)

def path (name : String) : String := u.stageDir ++ "/" ++ name

/-- Downloads and verifies one package. Gives the bytes stored so far and its name. -/
def stagePackage (manifest : Release.Manifest) (assets : SortedMap String Asset) (arch name : String)
    (total : Nat) (packages : List String) : Action (Nat × String) := do
  u.progress "downloading_package" (some name)
  let asset ← Proc.ofExcept <|
    (assets.get? name).elim (.error (verificationError (.missingFile name))) .ok
  Proc.require (asset.size ≤ maxPackageBytes) (failed "download" "package exceeds limit")
  u.env.operation (World.create (u.path name))
  let left ← Env.minus maxTotalBytes total
  let limit := min maxPackageBytes left
  let url ← Proc.ofExcept (u.assetUrl asset)
  let reply ← u.env.response url false limit
  let count ← Env.copyBounded reply (u.env.write (u.path name)) limit
  u.env.operation id
  u.progress "verifying_package" (some name)
  let file ← Proc.read fun w => w.file (u.path name)
  Proc.ofExcept <| (manifest.verifyFile u.env.crypto file name).mapError verificationError
  let package ← u.packageMetadata (u.path name) arch
  Proc.require (package ∉ packages) (failed "release" "duplicate package identity")
  let current ← u.installedPackageVersion package
  match current with
  | none => pure (total + count, package)
  | some current => do
    u.refuseDowngrade current
    pure (total + count, package)

def stagePackages (manifest : Release.Manifest) (assets : SortedMap String Asset) (arch : String) :
    List String → Nat → List String → Action (List String)
  | [], _, packages => pure packages
  | name :: names, total, packages => do
    let (total, package) ← u.stagePackage manifest assets arch name total packages
    stagePackages manifest assets arch names total (package :: packages)

def run : Action String := do
  u.progress "checking_version"
  let current ← Proc.ofExcept u.installedVersion
  u.refuseDowngrade current
  let arch ← u.architecture
  let distribution ← Proc.ofExcept u.distribution
  u.progress "fetching_manifest"
  let url ← Proc.ofExcept u.apiUrl
  let bytes ← u.env.downloadBytes url true maxApiBytes
  let release ← Proc.ofExcept <| (u.parseRelease bytes).elim
    (.error (failed "release" "malformed release API response")) .ok
  Proc.require (release.draft = false ∧ release.tagName = s!"v{u.version.val}" ∧
      release.assets.length ≤ 128)
    (failed "release" "wrong tag, draft or too many release assets")
  let assets ← Proc.ofExcept (assetMap .empty release.assets)
  let manifest ← u.verifiedManifest assets
  let names ← Proc.ofExcept (packageNames manifest arch distribution)
  u.env.operation id
  u.env.operation id
  let packages ← u.stagePackages manifest assets arch names 0 []
  Proc.require (∀ name ∈ requiredPackages, name ∈ packages)
    (failed "release" "release must include control, privd, runtime and UI packages")
  u.progress "installing"
  let output ← u.env.command (.install (names.map u.path))
  u.env.operation fun w => { w with firmware := some (s!"{u.version.val}\n".toUTF8.data.toList) }
  u.progress "complete"
  pure output

end Update

end NdimonR.Privd
