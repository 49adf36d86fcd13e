import Mathlib.Data.Rat.Floor
import NdimonR.Library.SharedRing

/-! The drift buffer of an audio path: a ring between the thread that brings frames and the thread
that plays them, and the correction that keeps its fill.

A step is what one thread does between two of its accesses to what both use, which are the ring's
cells and the two counts. A count is loaded by the thread that stores it without a step of its own.
The counts are without bound: 64 bits of frames are some twelve million years. -/

namespace NdimonR.Decoder.Drift

open SharedRing

structure DriftParams where
  channels : ℕ
  rate : ℕ := 48000
  targetFillFrames : ℤ := 1024
  capacityFrames : ℕ := 8192
  kp : ℚ := 4e-6
  ki : ℚ := 2e-8
  maxPpm : ℕ := 3000

/-- libswresample: it takes the frames it is given, and writes at most as many as it is asked for. -/
structure Resampler (α : Type) where
  Device : Type
  /-- As the constructor leaves it, warmed with silence. -/
  warm : Device
  /-- Closed and opened again. -/
  reinit : Device → Device
  delay : Device → ℤ
  setCompensation : Device → ℤ → ℕ → Device
  /-- The frames it says it wrote, below zero for an error, and the samples it wrote. -/
  convert : Device → ℕ → List (List α) → Device × ℤ × (ℕ → ℕ → α)
  convert_le : ∀ d frames given, (convert d frames given).2.1 ≤ frames

structure Block where
  channels : ℕ
  frames : ℕ
  deriving DecidableEq

/-- A push: the planes and the frames it is given, and how many of them it stores. -/
structure Push (α : Type) where
  planes : ℕ → ℕ → α
  frames : ℕ
  n : ℕ

inductive Producer (α : Type) where
  | idle
  /-- In the loops of `push`, at frame `i` of channel `c`. -/
  | copying (u : Push α) (c i : ℕ)

inductive Call where
  | pull (out : Block)
  | drain (frames : ℕ)
  deriving DecidableEq

def Call.frames : Call → ℕ
  | .pull out => out.frames
  | .drain frames => frames

inductive Consumer where
  | idle
  /-- A pull that has found enough frames. -/
  | checked (out : Block)
  | converting (call : Call)
  /-- In the loops of `convert`, at frame `i` of channel `c`. -/
  | taking (call : Call) (n c i : ℕ)
  | discarding (w : ℕ)
  deriving DecidableEq

/-- A block that a pull has filled, what it wrote at each place, and its answer. -/
structure Filled (α : Type) where
  block : Block
  planes : ℕ → ℕ → Option α
  full : Bool

/-- What has happened. Frames are a sample for each channel; `base` of the stored ones are from
before the last reset, and so is nothing of what follows in the record but the given ones. -/
structure Log (α : Type) where
  stored : List (List α) := []
  given : List (List α) := []
  base : ℕ := 0
  pushes : List (Push α) := []
  errors : List ℤ := []
  blocks : List (Filled α) := []
  drained : List ℕ := []

structure State {α : Type} (R : Resampler α) where
  fifo : List α
  scratch : List α
  read : ℕ
  write : ℕ
  integral : ℚ
  ppm : ℚ
  frames : ℕ
  underruns : ℕ
  overruns : ℕ
  swr : R.Device
  producer : Producer α
  consumer : Consumer
  log : Log α

section
variable {α : Type} [Zero α] (p : DriftParams) {R : Resampler α}

def new (R : Resampler α) : State R where
  fifo := List.replicate (p.channels * p.capacityFrames) 0
  scratch := List.replicate (p.channels * p.capacityFrames) 0
  read := 0
  write := 0
  integral := 0
  ppm := 0
  frames := 0
  underruns := 0
  overruns := 0
  swr := R.warm
  producer := .idle
  consumer := .idle
  log := {}

def reset (s : State R) : State R :=
  { s with
    read := 0, write := 0, integral := 0, ppm := 0, frames := 0, underruns := 0, overruns := 0
    swr := R.setCompensation (R.reinit s.swr) 0 p.rate
    log := { stored := s.log.stored, given := s.log.given, base := s.log.stored.length } }

def State.fill (s : State R) : ℤ := s.write - s.read

/-! ### The producer -/

/-- Frame `i` of planes. -/
def frameOf (planes : ℕ → ℕ → α) (i : ℕ) : List α := (List.range p.channels).map (planes · i)

def Push.given (u : Push α) : List (List α) := (List.range u.frames).map (frameOf p u.planes)

def Push.kept (u : Push α) : List (List α) := (List.range u.n).map (frameOf p u.planes)

def Push.short (u : Push α) : Bool := u.n < u.frames

def push (s : State R) (planes : ℕ → ℕ → α) (frames : ℕ) : State R :=
  let n := (min (frames : ℤ) (p.capacityFrames - s.fill)).toNat
  { s with
    overruns := if n < frames then s.overruns + 1 else s.overruns
    producer := .copying { planes, frames, n } 0 0 }

def copyCell (s : State R) (u : Push α) (c i : ℕ) : State R :=
  { s with
    fifo := s.fifo.set (cell p.capacityFrames c (s.write + i)) (u.planes c i)
    producer := .copying u c (i + 1) }

/-- `write_.store`. -/
def stored (s : State R) (u : Push α) : State R :=
  { s with
    write := s.write + u.n
    producer := .idle
    log := { s.log with stored := s.log.stored ++ u.kept p, pushes := s.log.pushes ++ [u] } }

def produce (s : State R) : Option (State R) :=
  match s.producer with
  | .idle => none
  | .copying u c i =>
    if c < p.channels then
      if i < u.n then some (copyCell p s u c i)
      else some { s with producer := .copying u (c + 1) 0 }
    else some (stored p s u)

/-! ### The consumer -/

/-- To the nearest integer, and from the middle away from zero. -/
def lround (q : ℚ) : ℤ := if 0 ≤ q then ⌊q + 1 / 2⌋ else -⌊-q + 1 / 2⌋

/-- What the correction may be at most. -/
def limit : ℚ := p.maxPpm * 1e-6

def control (s : State R) (error : ℤ) : State R :=
  let next := s.integral + error
  let demand := p.kp * error + p.ki * next
  let integral := if |demand| < limit p ∨ demand * error < 0 then next else s.integral
  let ppm := max (-(p.maxPpm : ℚ)) (min ((p.kp * error + p.ki * integral) * 1e6) p.maxPpm)
  { s with
    integral, ppm
    swr := R.setCompensation s.swr (-lround (ppm * 1e-6 * p.rate)) p.rate
    log := { s.log with errors := s.log.errors ++ [error] } }

/-- The frames that `convert` takes of the ring. -/
def toTake (s : State R) (frames : ℕ) : ℕ :=
  let wanted := max 0 (⌈frames * (1 + s.ppm * 1e-6)⌉ + 32 - R.delay s.swr)
  (min s.fill wanted).toNat

def silence (out : Block) : Filled α where
  block := out
  planes c i := if c < out.channels ∧ i < out.frames then some 0 else none
  full := false

/-- The first check of `pull`. -/
def pull (s : State R) (out : Block) : State R :=
  if s.fill < out.frames then
    { s with
      underruns := s.underruns + 1
      log := { s.log with blocks := s.log.blocks ++ [silence out] } }
  else { s with consumer := .checked out }

def drain (s : State R) (frames : ℕ) (measuredFill : ℤ) : State R :=
  { control p s (measuredFill + s.fill - p.targetFillFrames) with
    consumer := .converting (.drain frames) }

def takeCell (s : State R) (call : Call) (n c i : ℕ) : State R :=
  { s with
    scratch := s.scratch.set (c * p.capacityFrames + i)
      (s.fifo.getD (cell p.capacityFrames c (s.read + i)) 0)
    consumer := .taking call n c (i + 1) }

/-- The frames that `swr_convert` reads of the scratch planes. -/
def scratchFrames (s : State R) (n : ℕ) : List (List α) :=
  (List.range n).map (frameOf p fun c i => s.scratch.getD (c * p.capacityFrames + i) 0)

/-- What is at a block's places once the resampler has written `made` frames and the rest is
filled up. -/
def filled (out : Block) (made : ℕ) (planes : ℕ → ℕ → α) : Filled α where
  block := out
  planes c i :=
    if c < out.channels ∧ made ≤ i ∧ i < out.frames then some 0
    else if c < p.channels ∧ i < made then some (planes c i) else none
  full := made = out.frames

/-- `swr_convert`, `read_.store`, and what `pull` or `drain` does with the frames made. -/
def release (s : State R) (call : Call) (n : ℕ) : State R :=
  let given := scratchFrames p s n
  let (swr, rc, planes) := R.convert s.swr call.frames given
  let made := (max 0 rc).toNat
  match call with
  | .pull out =>
    { s with
      swr
      read := s.read + n
      frames := s.frames + out.frames
      underruns := if made < out.frames then s.underruns + 1 else s.underruns
      consumer := .idle
      log := { s.log with
        given := s.log.given ++ given
        blocks := s.log.blocks ++ [filled p out made planes] } }
  | .drain _ =>
    { s with
      swr
      read := s.read + n
      frames := s.frames + made
      consumer := .idle
      log := { s.log with given := s.log.given ++ given, drained := s.log.drained ++ [made] } }

def consume (s : State R) : Option (State R) :=
  match s.consumer with
  | .idle => none
  | .checked out =>
    some { control p s (s.fill - out.frames - p.targetFillFrames) with
      consumer := .converting (.pull out) }
  | .converting call => some { s with consumer := .taking call (toTake s call.frames) 0 0 }
  | .taking call n c i =>
    if c < p.channels then
      if i < n then some (takeCell p s call n c i)
      else some { s with consumer := .taking call n (c + 1) 0 }
    else some (release p s call n)
  | .discarding w => some { s with read := w, consumer := .idle }

/-! ### Runs -/

inductive Act (α : Type) where
  | push (planes : ℕ → ℕ → α) (frames : ℕ)
  | produce
  | pull (out : Block)
  | drain (frames : ℕ) (measuredFill : ℤ)
  | discard
  | consume
  | reset

/-- One thread begins a call or goes on with it. Blocks are of the buffer's channels, as the callers
make them. -/
def step (s : State R) : Act α → Option (State R)
  | .push planes frames =>
    match s.producer with
    | .idle => some (push p s planes frames)
    | .copying .. => none
  | .produce => produce p s
  | .pull out =>
    if s.consumer = .idle ∧ out.channels = p.channels then some (pull s out) else none
  | .drain frames measuredFill =>
    if s.consumer = .idle then some (drain p s frames measuredFill) else none
  | .discard =>
    if s.consumer = .idle then some { s with consumer := .discarding s.write } else none
  | .consume => consume p s
  | .reset =>
    match s.producer, s.consumer with
    | .idle, .idle => some (reset p s)
    | _, _ => none

def after (s : State R) (acts : List (Act α)) : Option (State R) := acts.foldlM (step p) s

/-- The cells of the ring that the next step of either thread reads or writes. -/
def ringPlaces (s : State R) : List ℕ :=
  (match s.producer with
    | .copying u c i =>
      if c < p.channels ∧ i < u.n then [cell p.capacityFrames c (s.write + i)] else []
    | .idle => []) ++
  match s.consumer with
  | .taking _ n c i =>
    if c < p.channels ∧ i < n then [cell p.capacityFrames c (s.read + i)] else []
  | _ => []

/-- The places of the scratch planes that the consumer's next step reads or writes. -/
def scratchPlaces (s : State R) : List ℕ :=
  match s.consumer with
  | .taking _ n c i =>
    if c < p.channels then if i < n then [c * p.capacityFrames + i] else []
    else (List.range p.channels).flatMap fun d => (List.range n).map (d * p.capacityFrames + ·)
  | _ => []

end

end NdimonR.Decoder.Drift
