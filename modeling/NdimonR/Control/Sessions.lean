import NdimonR.Control.Password
import NdimonR.Control.Throttle
import NdimonR.Library.SortedMap
import NdimonR.Library.Steps

/-! Sessions beside the password record. One login or password change at a time holds the gate;
requests authenticate at any moment, in two steps; the file may be replaced under all of them, by a
restored backup or by a write that an abandoned request had sent. -/

namespace NdimonR.Control

/-- What a session was opened on: a password and the record that it belongs to. -/
inductive Grounds where
  | verified (content : List UInt8) (password : String)
  /-- The record replaces the content that the password was verified against. -/
  | upgraded (content : List UInt8) (password : String) (record : Json)
  | set (current : Grounds) (password : String) (record : Json)

namespace Grounds

def record : Grounds → Option Json
  | .verified .. => none
  | .upgraded _ _ record | .set _ _ record => some record

def credential (env : Crypto) : Grounds → List UInt8
  | .verified content _ => env.sha content
  | .upgraded _ _ record | .set _ _ record => env.sha (env.text record)

end Grounds

structure Session where
  /-- Public event attribution, independent of the bearer credential. -/
  id : String
  csrf : String
  credential : List UInt8
  lastUsed : ℕ
  deriving DecidableEq

namespace Sessions

/-- Eight hours, in nanoseconds of the clock. -/
def idle : ℕ := 8 * 3600 * Throttle.second

def maxSessions : ℕ := 64

abbrev Table := SortedMap String Session

def kept (now : ℕ) (entries : Table) : Table :=
  entries.filter fun _ session => now - session.lastUsed < idle

/-- Nobody promises which of several oldest sessions goes. -/
def isOldest (token : String) (entries : Table) : Bool :=
  (entries.get? token).any fun oldest => entries.values.all (oldest.lastUsed ≤ ·.lastUsed)

def create (token : String) (session : Session) (oldest : String) (entries : Table) :
    Option Table :=
  let live := kept session.lastUsed entries
  if live.size < maxSessions then some (live.insert token session)
  else if isOldest oldest live then some ((live.erase oldest).insert token session)
  else none

/-- The session of a token, used now, and the table that is left. -/
def get (token : String) (credential : List UInt8) (now : ℕ) (entries : Table) :
    Option Session × Table :=
  match entries.get? token with
  | none => (none, entries)
  | some session =>
    if session.credential ≠ credential ∨ idle ≤ now - session.lastUsed then
      (none, entries.erase token)
    else
      let session := { session with lastUsed := now }
      (some session, entries.insert token session)

end Sessions

inductive Job where
  | logIn
  | changePassword (new : String)
  /-- The new record of a password change, whose current password has been verified. -/
  | setPassword

/-- What holds the gate. -/
inductive Task where
  | entered (job : Job) (password : String)
  | checked (job : Job) (password : String) (content : List UInt8) (upgrade : Option Json)
  | writing (job : Job) (grounds : Grounds) (landed : Bool)
  | written (job : Job) (grounds : Grounds)
  | verified (job : Job) (grounds : Grounds)
  | cleared (grounds : Grounds)

/-- What has happened to sessions, latest first. -/
inductive Deed where
  | asked (job : Job) (password : String)
  /-- The record of these grounds is in the file. -/
  | landed (grounds : Grounds)
  | opened (token : String) (session : Session) (grounds : Grounds)
  /-- A request with the token was let in while the file held, when it read it, this content. -/
  | used (token : String) (session : Session) (content : List UInt8)
  | loggedOut (token : String)
  | changed

structure FrontDoor where
  file : AuthFile
  entries : Sessions.Table := .empty
  now : ℕ := 0
  gate : Option Task := none
  /-- The content that each request has read, and the session that it was let in with. -/
  read : ℕ → Option (List UInt8) := fun _ => none
  auth : ℕ → Option String := fun _ => none
  past : List Deed := []

inductive FrontDoor.Act where
  | replace (file : AuthFile)
  | tick (time : ℕ)
  -- a login or a password change
  | enter (job : Job) (password : String)
  | check (nonce : List UInt8)
  | confirm
  | land
  | answered
  | recheck
  | hash (nonce salt : List UInt8)
  | clear
  | create (token id csrf oldest : String)
  /-- Refused, failed, or its client has gone. -/
  | leave
  -- a request
  | stamp (request : ℕ)
  | get (request : ℕ) (token : String)
  | logOut (request : ℕ)

namespace FrontDoor

variable (env : Crypto)

def isCredential (credential : List UInt8) (file : AuthFile) : Bool :=
  match stamp env file with
  | .ok found => found = credential
  | .error _ => false

def checked (job : Job) (password : String) (nonce : List UInt8) (file : AuthFile) : Option Task :=
  match file.bytes with
  | .error _ => none
  | .ok content =>
    match judge env nonce content password with
    | .ok (true, upgrade) => some (.checked job password content upgrade)
    | _ => none

/-- After the first look back: an older record is replaced. -/
def confirmed (job : Job) (password : String) (content : List UInt8) : Option Json → Task
  | none => .written job (.verified content password)
  | some record => .writing job (.upgraded content password record) false

def openSession (token id csrf oldest : String) (grounds : Grounds) (s : FrontDoor) :
    Option FrontDoor :=
  let session := { id, csrf, credential := grounds.credential env, lastUsed := s.now }
  (Sessions.create token session oldest s.entries).map fun entries =>
    { s with
      entries
      gate := none
      past := .opened token session grounds :: s.past }

def step (s : FrontDoor) : Act → Option FrontDoor
  | .replace file => some { s with file }
  | .tick time => some { s with now := s.now + time }
  | .enter job password =>
    match s.gate, job with
    | none, .logIn | none, .changePassword _ => some { s with
        gate := some (.entered job password)
        past := .asked job password :: s.past }
    | _, _ => none
  | .check nonce =>
    match s.gate with
    | some (.entered job password) =>
      some { s with gate := checked env job password nonce s.file }
    | _ => none
  | .confirm =>
    match s.gate with
    | some (.checked job password content upgrade) => some { s with
        gate := if isCredential env (env.sha content) s.file then
            some (confirmed job password content upgrade)
          else none }
    | _ => none
  | .land =>
    match s.gate with
    | some (.writing job grounds false) =>
      (grounds.record.bind (privdWrite env)).map fun content =>
        { s with
          file := .holds content
          gate := some (.writing job grounds true)
          past := .landed grounds :: s.past }
    | _ => none
  | .answered =>
    match s.gate with
    | some (.writing job grounds true) => some { s with gate := some (.written job grounds) }
    | _ => none
  | .recheck =>
    match s.gate with
    | some (.written job grounds) => some { s with
        gate := if isCredential env (grounds.credential env) s.file then
            some (.verified job grounds)
          else none }
    | _ => none
  | .hash nonce salt =>
    match s.gate with
    | some (.verified (.changePassword new) grounds) =>
      if Throttle.utf16Count new < 6 then some { s with gate := none }
      else match newRecord env nonce salt new with
        | .ok record =>
          some { s with gate := some (.writing .setPassword (.set grounds new record) false) }
        | .error _ => some { s with gate := none }
    | _ => none
  | .clear =>
    match s.gate with
    | some (.verified .setPassword grounds) => some { s with
        entries := .empty
        gate := some (.cleared grounds)
        past := .changed :: s.past }
    | _ => none
  | .create token id csrf oldest =>
    match s.gate with
    | some (.verified .logIn grounds) | some (.cleared grounds) =>
      s.openSession env token id csrf oldest grounds
    | _ => none
  | .leave => some { s with gate := none }
  | .stamp request =>
    match s.file.bytes with
    | .ok content => some { s with
        read := Function.update s.read request (some content)
        auth := Function.update s.auth request none }
    | .error _ => none
  | .get request token =>
    (s.read request).map fun content =>
      match Sessions.get token (env.sha content) s.now s.entries with
      | (none, entries) => { s with entries }
      | (some session, entries) => { s with
          entries
          auth := Function.update s.auth request (some token)
          past := .used token session content :: s.past }
  | .logOut request =>
    (s.auth request).map fun token => { s with
      entries := s.entries.erase token
      past := .loggedOut token :: s.past }

end FrontDoor

end NdimonR.Control
