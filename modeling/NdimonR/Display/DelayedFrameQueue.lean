import Mathlib.Algebra.BigOperators.Group.Finset.Basic
import Mathlib.Algebra.Order.Floor.Ring
import Mathlib.Data.Rat.Floor
import Mathlib.Data.Fintype.BigOperators

/-! Video queues that delay their frames and share one budget of memory. Intervals are exact
rationals; a delay that does not fit an `int` may become any number. -/

namespace NdimonR.Display

variable {ι F : Type}

/-- What one queue holds, in bytes, and whether it delays. -/
structure Holding where
  held : Nat
  delayed : Bool

/-- A queue without an entry counts like one that holds nothing. -/
structure VideoDelayBudget (ι : Type) where
  entries : ι → Holding
  budget : Nat

def reserve : Nat := 256 * 1024 * 1024

namespace VideoDelayBudget

variable [Fintype ι] [DecidableEq ι]

def workers (b : VideoDelayBudget ι) : Nat :=
  (Finset.univ.filter fun i => (b.entries i).delayed = true).card

def queued (b : VideoDelayBudget ι) : Nat := (∑ i, (b.entries i).held) % 2 ^ 64

/-- What one delaying queue may hold. -/
def portion (b : VideoDelayBudget ι) : Nat := b.budget / max 1 b.workers

def enter (owner : ι) (holding : Holding) (b : VideoDelayBudget ι) : VideoDelayBudget ι :=
  { b with entries := Function.update b.entries owner holding }

/-- A reading of the available memory sets the budget anew. -/
def measure (available : Option Nat) (b : VideoDelayBudget ι) : VideoDelayBudget ι :=
  match available with
  | none => b
  | some bytes =>
    let total := (bytes + b.queued) % 2 ^ 64
    { b with budget := if reserve < total then total - reserve else 0 }

def share (owner : ι) (holding : Holding) (available : Option Nat) (b : VideoDelayBudget ι) :
    Nat × VideoDelayBudget ι :=
  let b := (b.enter owner holding).measure available
  (b.portion, b)

end VideoDelayBudget

structure Entry (F : Type) where
  frame : F
  enqueuedUs : Int

/-- The oldest frame comes first. -/
structure DelayedFrameQueue (F : Type) where
  frameBytes : Nat
  lastPushUs : Option Int := none
  lastTimestamp : Option Int := none
  intervalUs : ℚ := 0
  queue : List (Entry F) := []
  maximum : Nat := 2
  depth : Nat := 2
  requested : Int := 0
  fpsNum : Int := 60
  fpsDen : Int := 1
  delay : Int := 0

namespace DelayedFrameQueue

def size (q : DelayedFrameQueue F) : Nat := q.queue.length

def bytes (q : DelayedFrameQueue F) : Nat := q.size * q.frameBytes

def delays (q : DelayedFrameQueue F) : Prop := 0 < q.requested

instance (q : DelayedFrameQueue F) : Decidable q.delays := inferInstanceAs (Decidable (0 < _))

def holding (q : DelayedFrameQueue F) : Holding := ⟨q.bytes % 2 ^ 64, decide q.delays⟩

def frameIntervalUs (q : DelayedFrameQueue F) : ℚ :=
  let nominal : ℚ := 1000000 * q.fpsDen / q.fpsNum
  if 0 < q.intervalUs then min nominal q.intervalUs else nominal

/-- The conversion to `int`; beyond its range C++ leaves the value open. -/
def toInt (overflow : ℚ → Int) (x : ℚ) : Int := if x < 2 ^ 31 then ⌊x⌋ else overflow x

/-- The depth and the delay for an interval, zero for the queue's own; frames beyond the depth
are dropped. -/
def resize (overflow : ℚ → Int) (interval : ℚ) (q : DelayedFrameQueue F) : DelayedFrameQueue F :=
  let interval := if interval ≤ 0 then q.frameIntervalUs else interval
  let depth := min q.maximum (⌈q.requested * 1000 / interval⌉.toNat + 2)
  let most : ℚ := if 2 < q.maximum then (q.maximum - 2 : Nat) * interval / 1000 else 0
  { q with
    depth
    delay := min q.requested (toInt overflow most)
    queue := q.queue.drop (q.size - depth) }

/-- The interval between the pushes, smoothed. -/
def smooth (interval : ℚ) (q : DelayedFrameQueue F) : DelayedFrameQueue F :=
  { q with
    intervalUs := if 0 < q.intervalUs then 9 / 10 * q.intervalUs + 1 / 10 * interval
      else interval }

def stamp (nowUs : Int) (q : DelayedFrameQueue F) : DelayedFrameQueue F :=
  { q with lastPushUs := some nowUs }

/-- The settings themselves; a queue that begins to delay forgets its interval. -/
def request (ms fpsNum fpsDen : Int) (q : DelayedFrameQueue F) : DelayedFrameQueue F :=
  let q := if q.requested = 0 ∧ 0 < ms then { q with lastPushUs := none, intervalUs := 0 } else q
  { q with requested := max 0 (min ms 5000), fpsNum := max 1 fpsNum, fpsDen := max 1 fpsDen }

def nextDueUs (q : DelayedFrameQueue F) : Int :=
  match q.queue with
  | [] => 0
  | first :: _ => first.enqueuedUs + q.delay * 1000

def acceptFrameTimestamp (timestamp : Int) (framesync : Bool) (q : DelayedFrameQueue F) :
    Bool × DelayedFrameQueue F :=
  if framesync = true ∧ q.delays ∧ q.lastTimestamp = some timestamp then (false, q)
  else (true, if framesync then { q with lastTimestamp := some timestamp } else q)

end DelayedFrameQueue

/-- One queue with the budget it shares. -/
structure Shared (ι F : Type) where
  queue : DelayedFrameQueue F
  budget : VideoDelayBudget ι

namespace Shared

variable [Fintype ι] [DecidableEq ι] (overflow : ℚ → Int) (owner : ι)

def recordHeld (s : Shared ι F) : Shared ι F :=
  { s with budget := (s.budget.share owner s.queue.holding none).2 }

def updateLimit (available : Option Nat) (s : Shared ι F) : Shared ι F :=
  let (bytes, budget) := s.budget.share owner s.queue.holding available
  ⟨{ s.queue with maximum := 2 + min 598 (bytes / s.queue.frameBytes) }, budget⟩

def resizeDelay (interval : ℚ) (s : Shared ι F) : Shared ι F :=
  recordHeld owner { s with queue := s.queue.resize overflow interval }

/-- `available` is what the memory information says at the time. -/
def setDelayMs (ms fpsNum fpsDen : Int) (available : Nat) (s : Shared ι F) : Shared ι F :=
  resizeDelay overflow owner 0
    (updateLimit owner (some available) { s with queue := s.queue.request ms fpsNum fpsDen })

def setFrameBytesHint (bytes : Nat) (fpsNum fpsDen : Int) (available : Nat) (s : Shared ι F) :
    Shared ι F :=
  if bytes ≠ s.queue.frameBytes ∨ fpsNum ≠ s.queue.fpsNum ∨ fpsDen ≠ s.queue.fpsDen then
    setDelayMs overflow owner s.queue.requested fpsNum fpsDen available
      { s with queue := { s.queue with frameBytes := max 1 bytes } }
  else s

/-- The limits of a push by the present share of the budget. -/
def refresh (s : Shared ι F) : Shared ι F :=
  if s.queue.delays then resizeDelay overflow owner 0 (updateLimit owner none s) else s

/-- The limits by the interval since the last push. -/
def adapt (nowUs : Int) (s : Shared ι F) : Shared ι F :=
  match s.queue.lastPushUs with
  | none => s
  | some last =>
    if last < nowUs then
      let interval : ℚ := (nowUs - last : Int)
      let q := s.queue.smooth interval
      resizeDelay overflow owner (min q.intervalUs interval) { s with queue := q }
    else s

def pace (nowUs : Int) (s : Shared ι F) : Shared ι F :=
  if s.queue.delays then
    let s := adapt overflow owner nowUs s
    { s with queue := s.queue.stamp nowUs }
  else s

/-- A full queue loses its oldest frame. -/
def append (frame : F) (nowUs : Int) (s : Shared ι F) : Bool × Shared ι F :=
  if s.queue.depth = 0 then (false, s)
  else
    let full := decide (s.queue.depth ≤ s.queue.size)
    let kept := if full then s.queue.queue.tail else s.queue.queue
    (!full, recordHeld owner { s with queue := { s.queue with queue := kept ++ [⟨frame, nowUs⟩] } })

def push (frame : F) (nowUs : Int) (s : Shared ι F) : Bool × Shared ι F :=
  append owner frame nowUs (pace overflow owner nowUs (refresh overflow owner s))

def popDue (nowUs : Int) (s : Shared ι F) : Option F × Shared ι F :=
  match s.queue.queue with
  | [] => (none, s)
  | first :: rest =>
    if 0 < s.queue.delay ∧ nowUs < s.queue.nextDueUs then (none, s)
    else (some first.frame, recordHeld owner { s with queue := { s.queue with queue := rest } })

def clear (s : Shared ι F) : Shared ι F :=
  recordHeld owner { s with
    queue := { s.queue with queue := [], lastPushUs := none, lastTimestamp := none, intervalUs := 0 } }

end Shared

/-- A call on one of the queues. The constructor of a queue is its `setDelayMs 0 60 1`. -/
inductive Call (F : Type) where
  | push (frame : F) (nowUs : Int)
  | popDue (nowUs : Int)
  | setDelayMs (ms fpsNum fpsDen : Int) (available : Nat)
  | setFrameBytesHint (bytes : Nat) (fpsNum fpsDen : Int) (available : Nat)
  | acceptFrameTimestamp (timestamp : Int) (framesync : Bool)
  | clear

def Call.time : Call F → Option Int
  | .push _ nowUs => some nowUs
  | .popDue nowUs => some nowUs
  | _ => none

section Runs

variable [Fintype ι] [DecidableEq ι] (overflow : ℚ → Int)

def Call.run (owner : ι) (s : Shared ι F) : Call F → Shared ι F
  | .push frame nowUs => (s.push overflow owner frame nowUs).2
  | .popDue nowUs => (s.popDue owner nowUs).2
  | .setDelayMs ms num den available => s.setDelayMs overflow owner ms num den available
  | .setFrameBytesHint bytes num den available =>
    s.setFrameBytesHint overflow owner bytes num den available
  | .acceptFrameTimestamp timestamp framesync =>
    { s with queue := (s.queue.acceptFrameTimestamp timestamp framesync).2 }
  | .clear => s.clear owner

/-- All queues with their budget; the rest is what the proofs remember: the latest time, and the
frames that were pushed and that left. -/
structure World (ι F : Type) where
  queues : ι → DelayedFrameQueue F
  budget : VideoDelayBudget ι
  clock : Int := 0
  pushed : ι → List (Entry F) := fun _ => []
  popped : ι → List (Entry F) := fun _ => []

namespace World

def view (w : World ι F) (owner : ι) : Shared ι F := ⟨w.queues owner, w.budget⟩

def pushes : Call F → List (Entry F)
  | .push frame nowUs => [⟨frame, nowUs⟩]
  | _ => []

/-- The entry that leaves with a call. -/
def leaves (owner : ι) (s : Shared ι F) : Call F → List (Entry F)
  | .popDue nowUs => if (s.popDue owner nowUs).1.isSome then s.queue.queue.take 1 else []
  | _ => []

def step (w : World ι F) (owner : ι) (c : Call F) : World ι F :=
  let s := c.run overflow owner (w.view owner)
  { queues := Function.update w.queues owner s.queue
    budget := s.budget
    clock := c.time.getD w.clock
    pushed := Function.update w.pushed owner (w.pushed owner ++ pushes c)
    popped := Function.update w.popped owner (w.popped owner ++ leaves owner (w.view owner) c) }

def start (hints : ι → Nat) : World ι F where
  queues i := { frameBytes := max 1 (hints i) }
  budget := ⟨fun _ => ⟨0, false⟩, 0⟩

inductive Reached : World ι F → Prop where
  | start (hints : ι → Nat) (clock : Int) : Reached { start hints with clock }
  | step {w : World ι F} (owner : ι) (c : Call F) :
      Reached w → (∀ t, c.time = some t → w.clock ≤ t) → Reached (w.step overflow owner c)

end World

end Runs

end NdimonR.Display
