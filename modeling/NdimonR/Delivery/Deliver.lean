import NdimonR.Delivery.Follower
import NdimonR.Library.JsonText
import NdimonR.Library.Effects

/-! Control's side of a delivery, and the connection to the follower. -/

namespace NdimonR.Delivery

open Json Decoder Text

variable {σ : Type} {F : Follower σ}

structure Sent where
  id : Nat
  command : Json

structure Reply where
  id : Nat
  command : Json
  reply : Json

/-- What happens besides control: the oldest request is answered and the snapshot saved or not, a
request is lost, the follower starts again, or it does something on its own. -/
inductive Move (F : Follower σ) where
  | process (env : F.Env) (saves : Bool)
  | lose (id : Nat)
  | restart (fromSaved : Bool)
  | operate (op : F.Op)

/-- What happens while control waits for a reply, why it does not get the one there is, and whether
control itself dies waiting. -/
structure Call (F : Follower σ) where
  moves : List (Move F) := []
  failure : Option String := none
  dies : Bool := false

/-- Requests in flight stand in the order they were sent. `intact` says that the follower has not
lost what it accepted last, `durable` that the saved snapshot is of that. -/
structure World (F : Follower σ) where
  follower : σ
  saved : Option Json := none
  inFlight : List Sent := []
  replies : List Reply := []
  sent : Nat := 0
  intact : Bool := true
  durable : Bool := false
  schedule : List (Call F) := []

namespace World

def process (env : F.Env) (saves : Bool) (w : World F) : World F :=
  match w.inFlight with
  | [] => w
  | q :: rest =>
    let a := F.answer env q.command w.follower
    let w := { w with follower := a.next, inFlight := rest
                      replies := ⟨q.id, q.command, a.reply⟩ :: w.replies }
    match a.snapshot with
    | none => w
    | some j => { w with saved := if saves then some j else w.saved
                         intact := true, durable := saves }

def restart (fromSaved : Bool) (w : World F) : World F :=
  { w with follower := ((if fromSaved then w.saved else none).map F.restore).getD F.start
           intact := w.intact && fromSaved && w.durable }

def move (w : World F) : Move F → World F
  | .process env saves => w.process env saves
  | .lose id => { w with inFlight := w.inFlight.filter (·.id ≠ id) }
  | .restart fromSaved => w.restart fromSaved
  | .operate op => { w with follower := F.operate op w.follower }

def moves (w : World F) (moves : List (Move F)) : World F := moves.foldl move w

def send (command : Json) (w : World F) : World F :=
  { w with inFlight := w.inFlight ++ [⟨w.sent, command⟩], sent := w.sent + 1 }

/-- The last request sent is waited for. -/
def replied (w : World F) : Option Json :=
  (w.replies.find? (fun a => a.id + 1 = w.sent)).map Reply.reply

def scheduled (calls : List (Call F)) (w : World F) : World F := { w with schedule := calls }

/-- The moves of the next call of the schedule. -/
def pass (w : World F) : World F :=
  { w with schedule := w.schedule.tail }.moves (w.schedule.headD {}).moves

end World

/-- Without a reply the client times out. -/
def received (failure : Option String) (reply : Option Json) : Except String Json :=
  match failure, reply with
  | some e, _ => .error e
  | none, some reply => .ok reply
  | none, none => .error "timeout"

def client (command : Json) : Proc (World F) String Json := do
  Proc.modify (World.send command)
  let call ← Proc.read fun w => w.schedule.headD {}
  Proc.modify World.pass
  Proc.when (call.dies = true) Proc.stop
  let reply ← Proc.read World.replied
  Proc.ofExcept (received call.failure reply)

section

-- The shortest form of a float.
variable (floatText : ℚ → String)

def settled (reply : Json) : Except String Json :=
  if isOk reply then .ok reply else .error (reply.render floatText)

/-- Transport errors are tried again, an answer never is. -/
def requestFrom (command : Json) : (remaining : Nat) → Proc (World F) String Json
  | 0 => do
    let reply ← client command
    Proc.ofExcept (settled floatText reply)
  | remaining + 1 => do
    let r ← Proc.attempt (client command)
    match r with
    | .ok reply => Proc.ofExcept (settled floatText reply)
    | .error _ => requestFrom command remaining

def request (command : Json) : Proc (World F) String Json := requestFrom floatText command 4

/-- A cached revision newer than the state's. -/
def cached (state : Nat) : Except String Json → Option Nat
  | .ok status => ((get "revision" status).bind asU64).filter (state < ·)
  | .error _ => none

/-- One ahead is an attempt that was not committed; anything else is another lineage, and the
follower starts over from the document. -/
def catchUp (state : Nat) (config : SortedMap String Json) (refusal : String) :
    Option Nat → Proc (World F) String (Nat × Json)
  | some r =>
    if state + 1 = r then do
      let reply ← request floatText (applyRequest r config false)
      pure (r, reply)
    else do
      let reply ← request floatText (applyRequest state config true)
      pure (state, reply)
  | none => Proc.fail refusal

/-- The follower has applied a newer revision. -/
def ahead (state : Nat) (config : SortedMap String Json) (refusal : String) :
    Proc (World F) String (Nat × Json) := do
  let status ← Proc.attempt (client statusRequest)
  catchUp floatText state config refusal (cached state status)

/-- The first request is the delivery itself. -/
def attempted (state : Nat) (config : SortedMap String Json) :
    Proc (World F) String (Nat × Json) := do
  let r ← Proc.attempt (request floatText (applyRequest state config false))
  match r with
  | .ok reply => pure (state, reply)
  | .error refusal =>
    if (splitOnce olderRevision refusal).isSome then ahead floatText state config refusal
    else Proc.fail refusal

def acknowledged (revision : Nat) (reply : Json) : Except String Json :=
  if (get "revision" reply).bind asU64 ≠ some revision then
    .error "follower acknowledged a different revision"
  else if ((get "refused" reply).bind asArray).any (· ≠ []) then .error (reply.render floatText)
  else .ok reply

def deliver (state : Nat) (config : SortedMap String Json) : Proc (World F) String Json := do
  let delivered ← attempted floatText state config
  Proc.ofExcept (acknowledged floatText delivered.1 delivered.2)

theorem failure_text : (failure [olderRevision]).render floatText =
    "\x7b\"errors\":[\"revision: older than last applied revision\"],\"ok\":false\x7d" := by
  simp only [failure, render, renderItems, renderMembers, List.map]
  decide

/-- The text of the refusal names it. -/
theorem older_refusal : (splitOnce olderRevision
    ((failure [olderRevision]).render floatText)).isSome = true := by
  rw [failure_text]
  decide

theorem asU64_int {n : Nat} (h : n < 2 ^ 64) : asU64 (.int n) = some n :=
  asU64_nat (lt_of_lt_of_eq h (by decide))

theorem cached_of_status {state value : Nat} {status : Json} (hlt : value < 2 ^ 64)
    (hless : state < value) (hstatus : Json.get "revision" status = some (.int value)) :
    cached state (.ok status) = some value := by
  change ((Json.get "revision" status).bind asU64).filter (state < ·) = some value
  rw [hstatus, Option.bind_some, asU64_int hlt]
  simp [hless]

/-- Control delivers a document of any lineage, or time passes. -/
inductive Action (F : Follower σ) where
  | deliver (state : Nat) (config : SortedMap String Json) (calls : List (Call F))
  | idle (moves : List (Move F))

def Action.run (w : World F) : Action F → World F
  | .deliver state config calls => (Delivery.deliver floatText state config (w.scheduled calls)).2
  | .idle moves => w.moves moves

def World.after (actions : List (Action F)) : World F :=
  actions.foldl (Action.run floatText) { follower := F.start }

end

end NdimonR.Delivery
