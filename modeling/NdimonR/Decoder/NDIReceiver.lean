import NdimonR.Library.Steps

/-! A receiver and its registration with the Discovery Server: the calls that hold its control lock,
the thread that creates the advertiser outside that lock, and the receive thread.

What a call does under the lock is one step up to where it waits for the receive thread, or where
the SDK is asked for a receive instance. FrameSync, which lives and dies with the receive instance,
and the address a source is connected by are left out. -/

namespace NdimonR.Decoder.Receiver

/-! ### The SDK -/

structure Registration where
  advertiser : ℕ
  recv : ℕ
  allowControl : Bool
  inputName : String
  deriving DecidableEq

/-- The instances that are alive, by number, and those that were destroyed. -/
structure Sdk where
  next : ℕ := 0
  recvs : List ℕ := []
  advertisers : List (ℕ × String) := []
  registrations : List Registration := []
  destroyed : List ℕ := []
  /-- An instance was used or destroyed that was not alive. -/
  misused : Bool := false
  deriving DecidableEq

namespace Sdk

def recvCreate (k : Sdk) : Sdk := { k with next := k.next + 1, recvs := k.next :: k.recvs }

def recvUse (k : Sdk) (r : ℕ) : Sdk := { k with misused := k.misused || !k.recvs.contains r }

/-- A receive instance may not go while an advertiser has it. -/
def recvDestroy (k : Sdk) (r : ℕ) : Sdk :=
  { k with
    recvs := k.recvs.erase r
    destroyed := r :: k.destroyed
    misused := k.misused || !k.recvs.contains r || k.registrations.any (·.recv = r) }

def advertiserCreate (k : Sdk) (url : String) : Sdk :=
  { k with next := k.next + 1, advertisers := (k.next, url) :: k.advertisers }

def knows (k : Sdk) (a : ℕ) : Bool := k.advertisers.any (·.1 = a)

def advertiserDestroy (k : Sdk) (a : ℕ) : Sdk :=
  { k with
    advertisers := k.advertisers.filter (·.1 ≠ a)
    registrations := k.registrations.filter (·.advertiser ≠ a)
    destroyed := a :: k.destroyed
    misused := k.misused || !k.knows a }

def addReceiver (k : Sdk) (g : Registration) : Sdk :=
  { k with
    registrations := g :: k.registrations
    misused := k.misused || !k.knows g.advertiser || !k.recvs.contains g.recv }

def delReceiver (k : Sdk) (a r : ℕ) : Sdk :=
  { k with
    registrations := k.registrations.filter fun g => ¬ (g.advertiser = a ∧ g.recv = r)
    misused := k.misused || !k.knows a || !k.recvs.contains r }

end Sdk

/-! ### The receiver -/

/-- The receiver's locks, and those of the worker, the display, the audio engine and the control
plane's connection that a callback takes. -/
inductive Mutex where
  | control
  | handle
  | state
  | framesync
  | decoder
  | frame
  | source
  | display
  | engine
  | telemetry
  | ipc
  deriving DecidableEq

inductive Callback where
  | pull
  | video
  | audio
  | connection
  | remoteSource
  deriving DecidableEq

/-- The locks that the worker's callbacks take, in turn. Of the receiver they call `set_tally`. -/
def Callback.locks : Callback → List Mutex
  | .pull => [.telemetry]
  | .video => [.decoder, .display, .frame, .telemetry]
  | .audio => [.engine]
  | .connection => [.decoder, .source, .handle, .display, .ipc]
  | .remoteSource => [.source, .ipc]

/-- Where the receive thread is. -/
inductive Loop where
  | top
  /-- In an iteration that found a receive instance. -/
  | busy
  /-- In a callback that has these locks to take. -/
  | calling (locks : List Mutex)
  | done
  deriving DecidableEq

/-- What comes after `stop_thread`. -/
inductive Then where
  | connect (source : String)
  | disconnect
  | recreate (source : String)
  deriving DecidableEq

/-- What the call that holds the control lock does next. -/
inductive Body where
  | stop (next : Then)
  | join (next : Then)
  | connect (source : String)
  | disconnect
  | unregister (source : String)
  | destroy (source : String)
  | create (source : String)
  | register (source : String)
  | reconnect (source : String)
  | start
  deriving DecidableEq

/-- Where the advertiser thread is. -/
inductive Keeper where
  | unstarted
  | looking
  | creating (url : String)
  /-- The SDK has answered, and the lock is still to be taken. -/
  | created (url : String) (made : Option ℕ)
  | waiting
  | stopped
  deriving DecidableEq

/-- Where the destructor is. -/
inductive Ending where
  | stop
  | join
  | joinKeeper
  | dropAdvertiser
  | dropRecv
  | gone
  deriving DecidableEq

structure State where
  recv : Option ℕ := none
  advertiser : Option ℕ := none
  registered : Bool := false
  advertise : Bool := true
  allowControl : Bool := true
  inputName : String := ""
  discoveryServer : String := ""
  recvName : String := "NDI Decoder"
  currentSource : String := ""
  running : Bool := false
  /-- `recv_thread_`, none where it cannot be joined. -/
  thread : Option Loop := none
  /-- The call that holds `control_mutex_`. -/
  body : Option Body := none
  keeper : Keeper := .unstarted
  initialized : Bool := false
  ending : Option Ending := none
  /-- Locks that other threads hold. -/
  taken : List Mutex := []
  sdk : Sdk := {}
  deriving DecidableEq

def registerReceiver (s : State) : State :=
  match s.advertiser, s.recv with
  | some a, some r =>
    if s.registered || !s.advertise then s
    else { s with
      registered := true
      sdk := s.sdk.addReceiver ⟨a, r, s.allowControl, s.inputName⟩ }
  | _, _ => s

def unregisterReceiver (s : State) : State :=
  match s.advertiser, s.recv with
  | some a, some r =>
    if s.registered then { s with registered := false, sdk := s.sdk.delReceiver a r }
    else { s with registered := false }
  | _, _ => { s with registered := false }

def destroyAdvertiser (s : State) : State :=
  let s := unregisterReceiver s
  match s.advertiser with
  | some a => { s with advertiser := none, sdk := s.sdk.advertiserDestroy a }
  | none => s

/-- `create_recv`, with the SDK's answer; false where there is still no receive instance. -/
def createRecv (s : State) (ok : Bool) : State × Bool :=
  match s.recv with
  | some _ => (s, true)
  | none =>
    if ok then ({ s with recv := some s.sdk.next, sdk := s.sdk.recvCreate }, true) else (s, false)

def destroyRecv (s : State) : State :=
  match s.recv with
  | some r => { s with recv := none, sdk := s.sdk.recvDestroy r }
  | none => s

/-- A call of the SDK on the receive instance, where there is one. -/
def useRecv (s : State) : State :=
  match s.recv with
  | some r => { s with sdk := s.sdk.recvUse r }
  | none => s

def real (source : String) : Bool := source ≠ "" && source ≠ "None"

/-! ### The calls -/

def setAdvertising (s : State) (advertise allowControl : Bool) (inputName : String) : State :=
  if advertise = s.advertise ∧ allowControl = s.allowControl ∧ inputName = s.inputName then s
  else
    let s := { unregisterReceiver s with advertise, allowControl, inputName }
    if !advertise then destroyAdvertiser s else registerReceiver s

def reloadDiscovery (s : State) (ds : String) : State :=
  if ds = s.discoveryServer then s else destroyAdvertiser { s with discoveryServer := ds }

def rename (s : State) (name : String) : State :=
  if name = s.recvName then s
  else { s with recvName := name, body := some (.stop (.recreate s.currentSource)) }

/-- The receive thread is started; an assignment to one that can be joined would end the process. -/
def startThread (s : State) : State :=
  { s with
    running := true
    thread := some .top
    sdk := { s.sdk with misused := s.sdk.misused || s.thread.isSome } }

def initRecv (s : State) (ok : Bool) : State :=
  let (s, created) := createRecv { s with initialized := true } ok
  if created then startThread { s with keeper := .looking } else s

/-- The rest of `connect` after `stop_thread`, up to the start of the receive thread. -/
def connectRest (s : State) (source : String) (ok : Bool) : State :=
  if real source then
    let (s, created) := createRecv { s with currentSource := source } ok
    if created then { useRecv s with body := some .start } else { s with body := none }
  else { useRecv { s with currentSource := "" } with body := some .start }

def joined : Then → Body
  | .connect source => .connect source
  | .disconnect => .disconnect
  | .recreate source => .unregister source

/-- The thread can be joined once it has ended. -/
def joinable (s : State) : Bool := s.thread = none ∨ s.thread = some .done

def bodyStep (s : State) (ok : Bool) : Body → Option State
  | .stop next => some { s with running := false, body := some (.join next) }
  | .join next =>
    if joinable s then some { s with thread := none, body := some (joined next) } else none
  | .connect source => some (connectRest s source ok)
  | .disconnect => some { useRecv s with currentSource := "", body := some .start }
  | .unregister source => some { unregisterReceiver s with body := some (.destroy source) }
  | .destroy source => some { destroyRecv s with body := some (.create source) }
  | .create source => some { (createRecv s ok).1 with body := some (.register source) }
  | .register source => some { registerReceiver s with body := some (.reconnect source) }
  | .reconnect source =>
    if real source then some { s with body := some (.stop (.connect source)) }
    else if s.recv.isSome then some { s with body := some .start }
    else some { s with body := none }
  | .start => some { startThread s with body := none }

/-! ### The advertiser thread -/

def lookForWork (s : State) : State :=
  if s.advertise && s.discoveryServer ≠ "" && s.advertiser.isNone then
    { s with keeper := .creating s.discoveryServer }
  else { s with keeper := .waiting }

/-- `NDIlib_recv_advertiser_create` returns. -/
def advertiserCreated (s : State) (url : String) (ok : Bool) : State :=
  if ok then
    { s with keeper := .created url (some s.sdk.next), sdk := s.sdk.advertiserCreate url }
  else { s with keeper := .created url none }

def adopt (s : State) (url : String) (made : Option ℕ) : State :=
  let s := { s with keeper := .waiting }
  match made with
  | some a =>
    if s.advertise && s.advertiser.isNone && url = s.discoveryServer then
      registerReceiver { s with advertiser := some a }
    else { s with sdk := s.sdk.advertiserDestroy a }
  | none => s

/-- One step of the advertiser thread. It ends where the destructor has told it to. -/
def keeperStep (s : State) (ok : Bool) : Option State :=
  match s.keeper with
  | .unstarted | .stopped => none
  | .looking => if s.body = none then some (lookForWork s) else none
  | .creating url => some (advertiserCreated s url ok)
  | .created url made => if s.body = none then some (adopt s url made) else none
  | .waiting =>
    match s.ending with
    | some .joinKeeper => some { s with keeper := .stopped }
    | _ => some { s with keeper := .looking }

/-! ### The receive thread -/

inductive Going where
  | check
  | use
  | callback (c : Callback)
  | lock
  | again
  | throw
  deriving DecidableEq

def loopStep (s : State) : Loop → Going → Option State
  | .top, .check =>
    if s.running then
      if s.recv.isSome then some { s with thread := some .busy } else some s
    else some { s with thread := some .done }
  | .busy, .use => some (useRecv s)
  | .busy, .callback c => some { s with thread := some (.calling c.locks) }
  | .busy, .again => some { s with thread := some .top }
  | .busy, .throw => some { s with thread := some .done }
  | .calling (m :: locks), .lock =>
    if m ∈ s.taken ∨ m = .control ∧ s.body ≠ none then none
    else some { s with thread := some (.calling locks) }
  | .calling [], .again => some { s with thread := some .busy }
  | _, _ => none

/-! ### The destructor -/

def endingStep (s : State) : Ending → Option State
  | .stop => some { s with running := false, ending := some .join }
  | .join =>
    if joinable s then some { s with thread := none, ending := some .joinKeeper } else none
  | .joinKeeper =>
    if s.keeper = .unstarted ∨ s.keeper = .stopped then
      some { s with ending := some .dropAdvertiser }
    else none
  | .dropAdvertiser => some { destroyAdvertiser s with ending := some .dropRecv }
  | .dropRecv => some { destroyRecv s with ending := some .gone }
  | .gone => none

/-! ### Runs -/

inductive Act where
  | initRecv (ok : Bool)
  | setAdvertising (advertise allowControl : Bool) (inputName : String)
  | reloadDiscovery (ds : String)
  | rename (name : String)
  | connect (source : String)
  | disconnect
  /-- The call that holds the control lock goes on; `ok` is the SDK's answer where it is asked. -/
  | body (ok : Bool)
  | keeper (ok : Bool)
  | loop (g : Going)
  | take (m : Mutex)
  | give (m : Mutex)
  | destroy
  | ending
  deriving DecidableEq

/-- A call needs the control lock, and the receiver is not being destroyed. -/
def idle (s : State) : Bool := s.body = none ∧ s.ending = none

def step (s : State) : Act → Option State
  | .initRecv ok => if idle s ∧ ¬ s.initialized then some (initRecv s ok) else none
  | .setAdvertising advertise allowControl inputName =>
    if idle s then some (setAdvertising s advertise allowControl inputName) else none
  | .reloadDiscovery ds => if idle s then some (reloadDiscovery s ds) else none
  | .rename name => if idle s ∧ s.initialized then some (rename s name) else none
  | .connect source =>
    if idle s ∧ s.initialized then some { s with body := some (.stop (.connect source)) } else none
  | .disconnect =>
    if idle s ∧ s.initialized then some { s with body := some (.stop .disconnect) } else none
  | .body ok => s.body.bind (bodyStep s ok)
  | .keeper ok => keeperStep s ok
  | .loop g => s.thread.bind fun l => loopStep s l g
  | .take m => if m = .control then none else some { s with taken := m :: s.taken }
  | .give m => some { s with taken := s.taken.erase m }
  | .destroy => if idle s then some { s with ending := some .stop } else none
  | .ending => s.ending.bind (endingStep s)

def new : State := {}

end NdimonR.Decoder.Receiver
