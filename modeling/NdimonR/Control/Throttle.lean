import Mathlib.Logic.Function.Basic
import NdimonR.Library.Attempts
import NdimonR.Library.Text
import NdimonR.Types.Wire

/-! The limiters of password and network token attempts, and the requests that use them, each a
step at a time between the points where it waits. -/

namespace NdimonR.Control

open Attempts Text Types

namespace Throttle

/-! ### Addresses -/

/-- The halves of an IPv6 address are its network and its host part. -/
inductive IpAddr where
  | v4 (ip : BitVec 32)
  | v6 (network host : BitVec 64)
  deriving DecidableEq

def toIpv4Mapped (network host : BitVec 64) : Option (BitVec 32) :=
  if network = 0 ∧ host >>> 32 = 0xffff then some (host.truncate 32) else none

/-- The source of a password attempt. -/
def source : IpAddr → IpAddr
  | .v4 ip => .v4 ip
  | .v6 network host =>
    match toIpv4Mapped network host with
    | some ip => .v4 ip
    | none => .v6 network 0

/-- The peer of a network token. -/
def normalized : IpAddr → IpAddr
  | .v4 ip => .v4 ip
  | .v6 network host =>
    match toIpv4Mapped network host with
    | some ip => .v4 ip
    | none => .v6 network host

/-! ### The limiter of passwords -/

/-- A second of the clock, in its nanoseconds. -/
def second : ℕ := 1000000000

structure Failures where
  perAddress : Table IpAddr := []
  all : List ℕ := []

structure LoginLimiter where
  window : ℕ
  perAddress : ℕ
  total : ℕ
  /-- The order of the hash map, which is nobody's promise. -/
  walk : Walk IpAddr

def LoginLimiter.default (walk : Walk IpAddr) : LoginLimiter := ⟨60 * second, 5, 50, walk⟩

namespace LoginLimiter

variable (l : LoginLimiter)

def maxSources : ℕ := 4096

def prune (f : Failures) (now : ℕ) : Failures where
  perAddress := pruned l.window now f.perAddress
  all := f.all.filter (recent l.window now)

/-- How far the wait is doubled after this many failures. -/
def shift (count : ℕ) : ℕ := min (count - l.perAddress) 5

def waitSeconds (count : ℕ) : ℕ := min (1 <<< l.shift count) 30

/-- How long the source still waits; none where it does not. -/
def retryAfter (f : Failures) (address : IpAddr) (now : ℕ) : Option ℕ × Failures :=
  let f := l.prune f now
  let times := times f.perAddress (source address)
  (if times.length < l.perAddress then none
    else times.getLast?.bind fun last =>
      let wait := l.waitSeconds times.length * second
      if now - last < wait then some (wait - (now - last)) else none, f)

def delayShift (count : ℕ) : ℕ := min (count - l.total) 3

def softDelay (f : Failures) (now : ℕ) : ℕ × Failures :=
  let f := l.prune f now
  (if f.all.length < l.total then 0
    else 250 <<< l.delayShift f.all.length * 1000000, f)

def failed (f : Failures) (address : IpAddr) (now : ℕ) : Failures :=
  let f := l.prune f now
  let address := source address
  { perAddress := update (makeRoom l.walk maxSources f.perAddress address) address
      (push (l.perAddress + 5) now)
    all := push (l.total + 3) now f.all }

end LoginLimiter

def succeeded (f : Failures) (address : IpAddr) : Failures :=
  { f with perAddress := without f.perAddress (source address) }

/-! ### The limiter of network tokens -/

/-- Every IPv4 address comes before every IPv6 address. -/
def rank : IpAddr → ℕ
  | .v4 ip => ip.toNat
  | .v6 network host => 2 ^ 32 + (2 ^ 64 * network.toNat + host.toNat)

/-- The order of the tree map, which is that of its keys. -/
def inOrder : Walk IpAddr where
  order table := table.mergeSort fun a b => rank a.1 ≤ rank b.1
  perm table := List.mergeSort_perm table _

namespace Limiter

def window : ℕ := 60 * second

def limited (peers : Table IpAddr) (peer : IpAddr) (now : ℕ) : Bool × Table IpAddr :=
  let peers := pruned window now peers
  (decide (5 ≤ (times peers (normalized peer)).length), peers)

def record (peers : Table IpAddr) (peer : IpAddr) (now : ℕ) : Table IpAddr :=
  let peer := normalized peer
  update (makeRoom inOrder 4096 peers peer) peer fun hits =>
    if hits.length < 5 then hits ++ [now] else hits

end Limiter

def countsNetworkTokenFailure : ApiError → Bool
  | .tokenMismatch | .internal _ => true
  | _ => false

def validId (s : String) : Bool :=
  len s == 64 && all (fun c => isAsciiDigit c || ('a' ≤ c && c ≤ 'f')) s

/-! ### Requests -/

inductive Operation where
  | login
  /-- The name of the field of the new password, and the new password. -/
  | changePassword (field new : String)

/-- How a password verification ends. -/
inductive Verdict where
  | right
  | wrong
  | error

inductive TokenCall where
  | pending
  | confirm
  | revert

inductive Reply where
  /-- Too many attempts, with the seconds of the `Retry-After` header. -/
  | rateLimited (retryAfter : ℕ)
  | unauthorized
  | denied (message : String)
  | internal
  | invalid (field reason : String)
  | success
  | apiError (e : ApiError)

/-- Where a request is, from the arrival of its body on. -/
inductive Phase where
  | idle
  | checking (op : Operation) (address : IpAddr)
  | delaying (op : Operation) (address : IpAddr)
  | sleeping (op : Operation) (address : IpAddr) (wake : ℕ)
  | waiting (op : Operation) (address : IpAddr)
  | entered (op : Operation) (address : IpAddr)
  | verifying (op : Operation) (address : IpAddr)
  | setting (address : IpAddr)
  | tokenWaiting (call : TokenCall) (peer : IpAddr) (token : String) (asked : ℕ)
  | tokenEntered (call : TokenCall) (peer : IpAddr) (token : String)
  | tokenTried (call : TokenCall) (peer : IpAddr) (token : String)
  | done (reply : Reply)
  | abandoned

/-- Whether a request waits, so that it ends there when its client goes away. -/
def Phase.awaits : Phase → Bool
  | .sleeping _ _ _ | .waiting _ _ | .verifying _ _ | .setting _ | .tokenWaiting _ _ _ _
  | .tokenTried _ _ _ => true
  | _ => false

/-- A request, and when it last went on. -/
structure Request where
  phase : Phase
  since : ℕ

/-- What happened to the attempts of a source. -/
inductive Attempt where
  | failed (source : IpAddr) (time : ℕ)
  | succeeded (source : IpAddr)

structure State where
  clock : ℕ
  failures : Failures
  peers : Table IpAddr
  authGate : Option ℕ
  tokenGate : Option ℕ
  requests : ℕ → Request
  /-- The attempts so far, in order; kept beside the program. -/
  log : List Attempt
  /-- The failed token attempts so far. -/
  tokenLog : List (IpAddr × ℕ)

def start : State where
  clock := 0
  failures := {}
  peers := []
  authGate := none
  tokenGate := none
  requests _ := ⟨.idle, 0⟩
  log := []
  tokenLog := []

def State.phase (s : State) (id : ℕ) : Phase := (s.requests id).phase

def State.to (s : State) (id : ℕ) (phase : Phase) : State :=
  { s with requests := Function.update s.requests id ⟨phase, s.clock⟩ }

/-- The request gives back the gates it holds. -/
def State.release (s : State) (id : ℕ) : State :=
  { s with
    authGate := if s.authGate = some id then none else s.authGate
    tokenGate := if s.tokenGate = some id then none else s.tokenGate }

def State.finish (s : State) (id : ℕ) (reply : Reply) : State := (s.release id).to id (.done reply)

/-- A clock that this request has read since it last went on. -/
def State.mayRead (s : State) (id read : ℕ) : Bool :=
  decide ((s.requests id).since ≤ read ∧ read ≤ s.clock)

/-- `Retry-After` in whole seconds, one more than are left. -/
def rateLimited (retry : ℕ) : Reply := .rateLimited (retry / second + 1)

def utf16Count (s : String) : ℕ :=
  (s.toList.map fun c => if c.toNat < 0x10000 then 1 else 2).sum

section

variable (l : LoginLimiter)

/-- A check of the source, before the gate and again behind it. -/
def State.check (s : State) (id read : ℕ) (address : IpAddr) (next : Phase) : State :=
  let (retry, failures) := l.retryAfter s.failures address read
  let s := { s with failures := failures }
  match retry with
  | some retry => s.finish id (rateLimited retry)
  | none => s.to id next

def State.succeed (s : State) (address : IpAddr) : State :=
  { s with
    failures := succeeded s.failures address
    log := s.log ++ [.succeeded (source address)] }

def State.fail (s : State) (address : IpAddr) (read : ℕ) : State :=
  { s with
    failures := l.failed s.failures address read
    log := s.log ++ [.failed (source address) read] }

/-- What follows the verification. -/
def State.verified (s : State) (id read : ℕ) (address : IpAddr) : Operation → Verdict → State
  | .login, .right => (s.succeed address).finish id .success
  | .changePassword field new, .right =>
    if utf16Count new < 6 then
      s.finish id (.invalid field "new password must be at least 6 characters")
    else s.to id (.setting address)
  | .login, .wrong => (s.fail l address read).finish id .unauthorized
  | .changePassword _ _, .wrong =>
    (s.fail l address read).finish id (.denied "current password is wrong")
  | _, .error => s.finish id .internal

def State.checkToken (s : State) (id read : ℕ) (call : TokenCall) (peer : IpAddr)
    (token : String) : State :=
  let (limited, peers) := Limiter.limited s.peers peer read
  let s := { s with peers := peers }
  if limited then s.finish id (.apiError .rateLimited)
  else if validId token then s.to id (.tokenTried call peer token)
  else s.finish id (.apiError (ApiError.ofErrors [⟨"token", "invalid_token"⟩]))

def State.answerToken (s : State) (id read : ℕ) (peer : IpAddr) : Option ApiError → State
  | none => s.finish id .success
  | some e =>
    if countsNetworkTokenFailure e then
      ({ s with
        peers := Limiter.record s.peers peer read
        tokenLog := s.tokenLog ++ [(normalized peer, read)] } : State).finish id (.apiError e)
    else s.finish id (.apiError e)

/-- What a request was waiting for, where something else decides it. -/
inductive Outcome where
  | nothing
  | verdict (v : Verdict)
  | stored (ok : Bool)
  | answer (e : Option ApiError)

/-- A request goes on, with a time it read off the clock; none where it still has to wait. -/
def State.resume (s : State) (id read : ℕ) : Phase → Outcome → Option State
  | .checking op address, .nothing => some (s.check l id read address (.delaying op address))
  | .delaying op address, .nothing =>
    let (delay, failures) := l.softDelay s.failures read
    some (({ s with failures := failures } : State).to id (.sleeping op address (read + delay)))
  | .sleeping op address wake, .nothing =>
    if wake ≤ s.clock then some (s.to id (.waiting op address)) else none
  | .waiting op address, .nothing =>
    if s.authGate = none then
      some (({ s with authGate := some id } : State).to id (.entered op address))
    else none
  | .entered op address, .nothing => some (s.check l id read address (.verifying op address))
  | .verifying op address, .verdict v => some (s.verified l id read address op v)
  | .setting address, .stored ok =>
    some (if ok then (s.succeed address).finish id .success else s.finish id .internal)
  | .tokenWaiting call peer token _, .nothing =>
    if s.tokenGate = none then
      some (({ s with tokenGate := some id } : State).to id (.tokenEntered call peer token))
    else none
  | .tokenEntered call peer token, .nothing => some (s.checkToken id read call peer token)
  | .tokenTried _ peer _, .answer e => some (s.answerToken id read peer e)
  | _, _ => none

inductive Event where
  | tick (time : ℕ)
  | arrive (id : ℕ) (op : Operation) (address : IpAddr)
  | arriveToken (id : ℕ) (call : TokenCall) (peer : IpAddr) (token : String)
  | resume (id read : ℕ) (outcome : Outcome)
  /-- Two seconds at the gate of the tokens are enough. -/
  | timeout (id : ℕ)
  | abandon (id : ℕ)

def step (s : State) : Event → Option State
  | .tick time => some { s with clock := s.clock + time }
  | .arrive id op address =>
    match s.phase id with
    | .idle => some (s.to id (.checking op address))
    | _ => none
  | .arriveToken id call peer token =>
    match s.phase id with
    | .idle => some (s.to id (.tokenWaiting call peer token s.clock))
    | _ => none
  | .resume id read outcome =>
    if s.mayRead id read then s.resume l id read (s.phase id) outcome else none
  | .timeout id =>
    match s.phase id with
    | .tokenWaiting _ _ _ asked =>
      if asked + 2 * second ≤ s.clock then some (s.finish id (.apiError .rateLimited)) else none
    | _ => none
  | .abandon id =>
    if (s.phase id).awaits then some ((s.release id).to id .abandoned) else none

/-- The state after some events, where each of them can take place. -/
def after (events : List Event) : Option State := events.foldlM (step l) start

end

end Throttle

end NdimonR.Control
