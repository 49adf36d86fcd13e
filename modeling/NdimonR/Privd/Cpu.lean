import NdimonR.Library.Faults
import NdimonR.Privd.Manifest

/-! The interval of the ondemand governor, with the snapshot that is saved before it is shortened.
A call may fail or be killed at every effect; operators write the interval between the calls. -/

namespace NdimonR.Privd.Cpu

inductive CpuProfile where
  | decode
  | restore
  | disabled
  deriving DecidableEq

def target : Nat := 10000

structure Snapshot where
  original : Nat
  applied : Nat
  pending : Bool
  deriving DecidableEq

/-- The kernel's interval, if the governor has one, and `cpu-sampling.json`. -/
structure Sampling where
  rate : Option Nat
  snapshot : Option Snapshot := none
  deriving DecidableEq

/-- What one call meets of the machine. -/
structure Machine where
  compatible : Except Error (Option (List UInt8))
  policies : Except Error (List (String × Except Error String))

def inRange (value : Nat) : Bool := decide (1 ≤ value ∧ value ≤ 60000000)

def readRate (s : Sampling) : Except Error Nat :=
  match s.rate with
  | none => .error (.failed "filesystem" "No such file or directory (os error 2)" none)
  | some value =>
    if 2 ^ 32 ≤ value then .error (.invalid "sampling_rate" "not an integer")
    else if inRange value then .ok value
    else .error (.invalid "sampling_rate" "outside supported range")

/-- The write itself. -/
def store (value : Nat) (s : Sampling) : Except Error (Unit × Sampling) :=
  match s.rate with
  | none => .error (.failed "sampling write" "No such file or directory (os error 2)" none)
  | some _ => .ok ((), { s with rate := some value })

abbrev Tuning := Proc (Faulty Sampling Error) Error

open Proc

def writeRate (value : Nat) : Tuning Unit := do
  effect (store value)
  let now ← look readRate
  require (now = value) (.failed "sampling write" "kernel did not accept interval" none)

def save (saved : Snapshot) (s : Sampling) : Sampling := { s with snapshot := some saved }

def forget (s : Sampling) : Sampling := { s with snapshot := none }

/-- Gives the interval back if it is still ours. -/
def giveBack (saved : Snapshot) : Tuning Unit := do
  let present ← peek fun s => s.rate.isSome
  when (present = true) do
    let current ← look readRate
    when (saved.pending = true ∨ current = saved.applied) (writeRate saved.original)

def restore : Tuning Unit := do
  let file ← look fun s => .ok s.snapshot
  match file with
  | none => pure ()
  | some saved => do
    look fun _ => .ok ()
    require (inRange saved.original = true ∧ inRange saved.applied = true)
      (.invalid "sampling snapshot" "interval outside supported range")
    giveBack saved
    change forget

def rockchip (compatible : List UInt8) : Bool :=
  (compatible.splitOn 0).contains (Text.bytes "rockchip,rk3588")

/-- Whether every policy is of the ondemand governor; the first that is not ends the search. -/
def ondemand : List (String × Except Error String) → Except Error Bool
  | [] => .ok true
  | (_, governor) :: rest => do
    let text ← governor
    if Text.trim text ≠ "ondemand" then pure false else ondemand rest

/-- What stands between a Decode call and the change. -/
def eligible (m : Machine) (present : Bool) : Except Error Bool := do
  match ← m.compatible with
  | none => pure false
  | some compatible =>
    if !rockchip compatible || !present then pure false
    else
      let policies := (← m.policies).filter fun p => Text.startsWithText "policy" p.1
      if policies.isEmpty then pure false else ondemand policies

/-- The rest of a Decode call once `step` has been tried: its error, after a restore. -/
def orRestore (step : Tuning Unit) : Tuning Unit := do
  match ← attempt step with
  | .ok () => pure ()
  | .error e => do
    ignore restore
    fail e

def shorten (original : Nat) : Tuning Unit := do
  change (save { original, applied := target, pending := true })
  orRestore (writeRate target)
  orRestore (change (save { original, applied := target, pending := false }))

def tune (profile : CpuProfile) (enabled : Bool) (m : Machine) : Tuning Unit := do
  look fun _ => .ok ()
  look fun _ => .ok ()
  restore
  when (profile = .decode ∧ enabled = true) do
    let present ← peek fun s => s.rate.isSome
    let go ← ofExcept (eligible m present)
    when (go = true) do
      let original ← look readRate
      when (target < original) (shorten original)

/-- A call with everything it meets. -/
structure Call where
  profile : CpuProfile
  enabled : Bool
  machine : Machine
  faults : List (Fault Error)

/-- A call that leaves the interval to its operator. -/
def Call.releases (c : Call) : Prop := c.profile ≠ .decode ∨ c.enabled = false

def Call.run (c : Call) (s : Sampling) : Outcome Error Unit × Sampling :=
  let r := tune c.profile c.enabled c.machine ⟨s, c.faults⟩
  (r.1, r.2.state)

def operate (value : Nat) (s : Sampling) : Sampling := { s with rate := s.rate.map fun _ => value }

/-- The interval that is owed after an operator's write. The write counts for itself, except where
it cannot be told from ours: while a change is pending, and while one stands and the value written
is its own. -/
def owes (value : Nat) (s : Sampling) : Nat :=
  match s.snapshot with
  | none => value
  | some saved => if saved.pending = true ∨ value = saved.applied then saved.original else value

/-- The states of every run, each with the interval that is owed in it. -/
inductive Reached : Option Nat → Sampling → Prop where
  | start (rate : Option Nat) : Reached rate { rate }
  | operated {owed : Option Nat} {s : Sampling} (value : Nat) :
      Reached owed s → Reached (owed.map fun _ => owes value s) (operate value s)
  | called {owed : Option Nat} {s : Sampling} (c : Call) :
      Reached owed s → Reached owed (c.run s).2

end NdimonR.Privd.Cpu
