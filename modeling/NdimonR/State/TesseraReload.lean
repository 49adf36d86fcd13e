import Mathlib.Algebra.Order.Group.Unbundled.Int
import NdimonR.Library.Steps

/-! What control remembers of the reloads it sent to the Tessera daemon, and the replay that sends
another one only where the daemon would pick something up.

Instants and durations are nanoseconds of the monotonic clock that both processes read, and an
instant reaches back as far as any uptime. The state actor does one thing after another; files
change, processes start and time passes between any two of its steps. -/

namespace NdimonR.State.TesseraReload

/-! ### The code -/

def millisecond : ℤ := 1000000

/-- The span in which the daemon process started. -/
structure Started where
  earliest : ℤ
  latest : ℤ
  deriving DecidableEq

/-- From an exchange and the whole milliseconds of uptime that the daemon reported in it. -/
def Started.fromUptime (sent received : ℤ) (uptime : ℕ) : Started where
  earliest := sent - (uptime + 1) * millisecond
  latest := received - uptime * millisecond

def Started.overlaps (self other : Started) : Bool :=
  self.earliest ≤ other.latest ∧ other.earliest ≤ self.latest

section
variable (B : Type)

/-- The bytes of the configuration files by their path's name, none for one that is not there. -/
abbrev Artifacts := List (String × Option B)

structure Seen where
  /-- None when a file could not be read. -/
  artifacts : Option (Artifacts B)
  /-- None when the daemon did not report an uptime. -/
  daemon : Option Started

/-- What is at a configuration path. -/
inductive File where
  | missing
  | bytes (b : B)
  | unreadable

end

variable {B : Type} [DecidableEq B]

def Seen.sameAs (self earlier : Seen B) : Bool :=
  match self.artifacts, earlier.artifacts with
  | some now, some before =>
    now = before && match self.daemon, earlier.daemon with
      | some now, some before => now.overlaps before
      | none, none => true
      | _, _ => false
  | _, _ => false

/-- The paths of `PATHS` under the daemon's directory, in their order. -/
def configPaths : List String :=
  ["tessera-device", "tessera-flows", "tessera-probe-flows", "tessera-network"]

def File.read : File B → Option (Option B)
  | .missing => some none
  | .bytes b => some (some b)
  | .unreadable => none

/-- All of the files at one moment. -/
def readFiles (files : String → File B) (paths : List String) : Option (Artifacts B) :=
  paths.mapM fun path => (files path).read.map (path, ·)

/-! ### Control, the daemon and the files -/

/-- What the daemon answered: the process, by its number, and its uptime. -/
structure Measured where
  process : ℕ
  uptime : ℕ
  deriving DecidableEq

variable (B) in
/-- A look at the files and the daemon, and when it began. -/
structure Look where
  replay : Bool
  /-- How many files had been written and how many processes started when it began. -/
  writes : ℕ
  starts : ℕ
  sent : ℤ
  measured : Option Measured := none
  received : ℤ := 0
  /-- The answer came back with an uptime. -/
  reported : Bool := false
  artifacts : Option (Artifacts B) := some []

def Look.seen (l : Look B) : Seen B where
  artifacts := l.artifacts
  daemon := if l.reported then
      l.measured.map fun m => Started.fromUptime l.sent l.received m.uptime
    else none

variable (B) in
/-- A reload that the daemon carried out: the process that did, and the files at that moment. -/
structure Executed where
  process : ℕ
  writes : ℕ
  disk : Option (Artifacts B)

variable (B) in
/-- A reload that control was told has succeeded, and the look before it. -/
structure Told where
  look : Look B
  executed : Executed B

variable (B) in
inductive Activity where
  | idle
  /-- A replay has asked for the daemon's status. -/
  | asking
  /-- In the exchange of metrics. -/
  | measuring (l : Look B)
  | reading (l : Look B) (rest : List String)
  /-- A replay that has looked. -/
  | deciding (l : Look B)
  /-- The reload is sent. -/
  | reloading (l : Look B) (done : Option (Executed B))

variable (B) in
structure System where
  now : ℤ
  files : String → File B
  /-- When each process of the daemon started; the last of them is the one that runs. -/
  processes : List ℤ
  up : Bool
  /-- `Reloads::last`. -/
  last : Option (Seen B)
  activity : Activity B
  writes : ℕ
  told : Option (Told B)

/-- Control has just started. -/
def new (files : String → File B) : System B where
  now := 0
  files := files
  processes := []
  up := false
  last := none
  activity := .idle
  writes := 0
  told := none

inductive Answer where
  | ok
  /-- The daemon's socket failed. -/
  | io
  | error
  deriving DecidableEq

variable (B) in
inductive Act where
  | wait (d : ℕ)
  /-- A render, or anything else that writes a file. -/
  | write (path : String) (file : File B)
  | start
  | stop
  | restartControl
  | replay
  /-- A command, or its rollback, that reloads. -/
  | command
  | status (answer : Answer)
  /-- The daemon measures its uptime. -/
  | measure
  /-- The exchange of metrics is over, with or without an uptime. -/
  | metrics (reported : Bool)
  | read
  | decide
  /-- The daemon reloads. -/
  | execute
  /-- The exchange of the reload is over; false for an error and for a lost reply. -/
  | reloaded (ok : Bool)

def due (s : System B) (seen : Seen B) : Bool :=
  match s.last with
  | some last => !seen.sameAs last
  | none => true

def look (s : System B) (replay : Bool) : Look B where
  replay := replay
  writes := s.writes
  starts := s.processes.length
  sent := s.now

/-- The process that runs and when it started. -/
def running (s : System B) : Option (ℕ × ℤ) :=
  if s.up then s.processes.getLast?.map (s.processes.length - 1, ·) else none

/-- Where a look is complete: a replay decides, a command reloads. -/
def looked (l : Look B) : Activity B := if l.replay then .deciding l else .reloading l none

def readOne (s : System B) (l : Look B) : List String → Activity B
  | [] => looked l
  | path :: rest =>
    match (s.files path).read with
    | some bytes => .reading { l with artifacts := l.artifacts.map (· ++ [(path, bytes)]) } rest
    | none => looked { l with artifacts := none }

def step (s : System B) : Act B → Option (System B)
  | .wait d => some { s with now := s.now + d }
  | .write path file =>
    if path ∈ configPaths then
      some { s with files := Function.update s.files path file, writes := s.writes + 1 }
    else none
  | .start => if s.up then none else some { s with up := true, processes := s.processes ++ [s.now] }
  | .stop => some { s with up := false }
  | .restartControl => some { s with last := none, activity := .idle }
  | .replay =>
    match s.activity with
    | .idle => some { s with activity := .asking }
    | _ => none
  | .command =>
    match s.activity with
    | .idle => some { s with activity := .measuring (look s false) }
    | _ => none
  | .status answer =>
    match s.activity, answer with
    | .asking, .ok => if s.up then some { s with activity := .measuring (look s true) } else none
    | .asking, .io => some { s with last := none, activity := .idle }
    | .asking, .error => some { s with activity := .idle }
    | _, _ => none
  | .measure =>
    match s.activity, running s with
    | .measuring l, some (process, started) =>
      if l.measured.isNone then
        let measured : Measured := ⟨process, ((s.now - started) / millisecond).toNat⟩
        some { s with activity := .measuring { l with measured := some measured } }
      else none
    | _, _ => none
  | .metrics reported =>
    match s.activity with
    | .measuring l =>
      if reported && l.measured.isNone then none
      else some { s with activity := .reading { l with received := s.now, reported } configPaths }
    | _ => none
  | .read =>
    match s.activity with
    | .reading l rest => some { s with activity := readOne s l rest }
    | _ => none
  | .decide =>
    match s.activity with
    | .deciding l =>
      some { s with activity := if due s l.seen then .reloading l none else .idle }
    | _ => none
  | .execute =>
    match s.activity, running s with
    | .reloading l none, some (process, _) =>
      let executed : Executed B := ⟨process, s.writes, readFiles s.files configPaths⟩
      some { s with activity := .reloading l (some executed) }
    | _, _ => none
  | .reloaded ok =>
    match s.activity with
    | .reloading l done =>
      match ok, done with
      | true, some executed =>
        some { s with activity := .idle, last := some l.seen, told := some ⟨l, executed⟩ }
      | true, none => none
      | false, _ => some { s with activity := .idle }
    | _ => none

end NdimonR.State.TesseraReload
