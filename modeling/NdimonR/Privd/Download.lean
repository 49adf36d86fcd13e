import NdimonR.Library.Effects
import NdimonR.Release.Manifest
import NdimonR.Privd.Manifest

/-! Bounded downloads from an allowlist of hosts. The server answers every request as it likes. -/

namespace NdimonR.Privd

open Text
open NdimonR.Release (Bytes Crypto)

def failed (step reason : String) : Error := .failed step reason none

structure Url where
  scheme : String
  username : String := ""
  password : Option String := none
  host : Option String
  port : Option Nat := none
  path : String := "/"
  query : Option String := none
  fragment : Option String := none
  deriving DecidableEq

def Url.portOrKnownDefault (u : Url) : Option Nat :=
  u.port.or <|
    if u.scheme = "https" ∨ u.scheme = "wss" then some 443
    else if u.scheme = "http" ∨ u.scheme = "ws" then some 80
    else if u.scheme = "ftp" then some 21
    else none

def safeHttps (u : Url) : Bool :=
  u.scheme == "https" && u.username == "" && u.password.isNone &&
    u.portOrKnownDefault == some 443 && u.fragment.isNone

def allowedAssetHost (u : Url) : Bool :=
  safeHttps u && ["github.com", "objects.githubusercontent.com",
    "release-assets.githubusercontent.com"].any fun host => u.host == some host

/-- What one read of a body gives: bytes, of which the buffer takes what it has room for, or an
error. No more reads, or no bytes, are the end of the stream. -/
inductive Read where
  | bytes (b : Bytes)
  | failed

structure HttpResponse where
  status : Nat
  location : Option String := none
  length : Option Nat := none
  body : List Read := []

/-! ### The world of an update -/

inductive Command where
  | compareVersions (a relation b : String)
  | printArchitecture
  | query (package : String)
  | field (path name : String)
  | install (paths : List String)

def Command.program : Command → String
  | .compareVersions .. | .printArchitecture | .install _ => "/usr/bin/dpkg"
  | .query _ => "/usr/bin/dpkg-query"
  | .field .. => "/usr/bin/dpkg-deb"

def Command.args : Command → List String
  | .compareVersions a relation b => ["--compare-versions", a, relation, b]
  | .printArchitecture => ["--print-architecture"]
  | .query package => ["--show", "--showformat=${db:Status-Status}\t${Version}", package]
  | .field path name => ["--field", path, name]
  | .install paths => ["--force-confdef", "--force-confold", "-i", "--"] ++ paths

/-- What the update did to the host. `downloads` holds the addresses requested by each download,
`fetched` the release files read into memory, `stage` the files of the private staging directory by
path, and `buffer` the body being read into memory. -/
structure World where
  downloads : List (List Url) := []
  fetched : List (String × Bytes) := []
  buffer : Bytes := []
  stage : List (String × Bytes) := []
  operations : Nat := 0
  underflow : Bool := false
  commands : List Command := []
  progress : List (String × Option String) := []
  firmware : Option Bytes := none

abbrev Action := Proc World Error

namespace World

def requests (w : World) : Nat := (w.downloads.map List.length).sum

def file (w : World) (path : String) : Option Bytes :=
  (w.stage.find? fun f => f.1 == path).map Prod.snd

def stored (w : World) : Nat := (w.stage.map fun f => f.2.length).sum

def beginDownload (w : World) : World := { w with downloads := [] :: w.downloads }

def request (url : Url) (w : World) : World :=
  { w with downloads := match w.downloads with
      | [] => [[url]]
      | d :: rest => (url :: d) :: rest }

def create (path : String) (w : World) : World :=
  { w with stage := (path, []) :: w.stage.filter fun f => f.1 ≠ path }

def append (path : String) (b : Bytes) (w : World) : World :=
  { w with stage := w.stage.map fun f => if f.1 = path then (f.1, f.2 ++ b) else f }

end World

/-- Everything outside the worker: the server, the local file system, the other programs, and
the URL and JSON parsers. -/
structure Env where
  get : Nat → Url → Except Error HttpResponse
  /-- The outcome of each local file operation; a failed write leaves some of its bytes. -/
  io : Nat → Except (Error × Nat) Unit
  run : Command → Option Bytes → Except Error String
  parseUrl : String → Option Url
  join : Url → String → Option Url
  /-- The URL with these path segments, unless it cannot be a base. -/
  withSegments : Url → List String → Option Url
  crypto : Crypto

namespace Env

variable (env : Env)

/-- A local file operation without bytes. -/
def operation (change : World → World) : Action Unit := do
  let n ← Proc.read World.operations
  Proc.modify fun w => { w with operations := w.operations + 1 }
  match env.io n with
  | .error (e, _) => Proc.fail e
  | .ok () => Proc.modify change

def write (path : String) (b : Bytes) : Action Unit := do
  let n ← Proc.read World.operations
  Proc.modify fun w => { w with operations := w.operations + 1 }
  match env.io n with
  | .error (e, k) => do
    Proc.modify (World.append path (b.take k))
    Proc.fail e
  | .ok () => Proc.modify (World.append path b)

/-- A program reads the staged file it is given. -/
def command (c : Command) (path : Option String := none) : Action String := do
  Proc.modify fun w => { w with commands := c :: w.commands }
  let file ← Proc.read fun w => path.bind w.file
  Proc.ofExcept (env.run c file)

def send (url : Url) : Action HttpResponse := do
  let n ← Proc.read World.requests
  Proc.modify (World.request url)
  Proc.ofExcept (env.get n url)

/-- 64-bit subtraction. -/
def minus (a b : Nat) : Action Nat :=
  if b ≤ a then pure (a - b)
  else do
    Proc.modify fun w => { w with underflow := true }
    pure (a + 2 ^ 64 - b)

/-! ### Requests -/

def isRedirect (status : Nat) : Bool := [301, 302, 303, 307, 308].contains status

def responseFrom (api : Bool) (limit : Nat) : List Nat → Url → Action HttpResponse
  | [], _ => Proc.fail (failed "download" "redirect limit exceeded")
  | hop :: hops, url => do
    let allowed :=
      if api then hop == 0 && safeHttps url && url.host == some "api.github.com"
      else allowedAssetHost url
    Proc.require (allowed = true)
      (failed "download" "host is outside the HTTPS release allowlist")
    let reply ← env.send url
    if isRedirect reply.status then do
      Proc.require (api = false ∧ hop ≠ 4)
        (failed "download" "unexpected API redirect or too many asset redirects")
      let target ← Proc.ofExcept <|
        reply.location.elim (.error (failed "download" "redirect lacks location")) .ok
      let url ← Proc.ofExcept <|
        (env.join url target).elim (.error (failed "download" "invalid redirect")) .ok
      responseFrom api limit hops url
    else do
      Proc.require (reply.status = 200)
        (failed "download" "release server did not return HTTP 200")
      Proc.require (¬reply.length.any fun n => limit < n)
        (failed "download" "content length exceeds download limit")
      pure reply

def response (initial : Url) (api : Bool) (limit : Nat) : Action HttpResponse := do
  Proc.modify World.beginDownload
  env.responseFrom api limit [0, 1, 2, 3, 4] initial

def bufferSize : Nat := 64 * 1024

/-- Reads at most one byte beyond the limit. -/
def copyFrom (output : Bytes → Action Unit) (limit : Nat) : List Read → Nat → Action Nat
  | [], total => do
    let _ ← minus limit total
    pure total
  | .failed :: _, total => do
    let _ ← minus limit total
    Proc.fail (failed "download" "response body read failed")
  | .bytes b :: rest, total => do
    let left ← minus limit total
    let chunk := b.take (min (left + 1) bufferSize)
    if chunk = [] then pure total
    else do
      let total := total + chunk.length
      Proc.require (total ≤ limit) (failed "download" "response body exceeds download limit")
      output chunk
      copyFrom output limit rest total

def copyBounded (reply : HttpResponse) (output : Bytes → Action Unit) (limit : Nat) :
    Action Nat := do
  let total ← copyFrom output limit reply.body 0
  Proc.require (¬reply.length.any fun n => n ≠ total)
    (failed "download" "response length does not match content length")
  pure total

def keep (b : Bytes) : Action Unit := Proc.modify fun w => { w with buffer := w.buffer ++ b }

def downloadBytes (url : Url) (api : Bool) (max : Nat) : Action Bytes := do
  let reply ← env.response url api max
  Proc.modify fun w => { w with buffer := [] }
  let _ ← copyBounded reply keep max
  Proc.read World.buffer

end Env

end NdimonR.Privd
