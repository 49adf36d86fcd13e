import NdimonR.Library.Threads

/-! Compressed video: the threads that hand a decoded frame from the decoder to the display and
back. An act is what one thread does between two points where another can come in. -/

namespace NdimonR.Display.HxFrames

open Threads

inductive Worker where
  | receive
  | capture
  | display
  | control
  deriving DecidableEq

inductive Lock where
  | decoder
  | frame
  deriving DecidableEq

inductive VideoCodec where
  | h264
  | h265
  deriving DecidableEq

inductive Backend where
  | mpp
  | v4l2
  | vaapi
  | software
  deriving DecidableEq

/-- All but V4L2 call back inside `decode` and `flush`; that one has a thread of its own. -/
def Backend.synchronous (b : Backend) : Bool := b ≠ .v4l2

def Backend.isHardware (b : Backend) : Bool := b ≠ .software

structure Decoder where
  number : Nat
  backend : Backend
  initialized : Bool := false
  /-- How often it was destroyed or reallocated its buffers. -/
  generation : Nat := 0
  deriving DecidableEq

/-- A frame with the decoder, and the generation of its buffers, that made it. -/
structure DecodedFrame where
  number : Nat
  decoder : Nat
  generation : Nat
  deriving DecidableEq

/-- A frame given back, and the decoder and generation it was given to, if to any. -/
structure Release where
  frame : DecodedFrame
  taker : Option (Nat × Nat)
  deriving DecidableEq

/-- A compressed frame as it arrives: whether a decoder can be set up for its codec, or else a
software one found and set up, and how many frames come out of it. -/
structure Packet where
  codec : VideoCodec
  ready : Bool
  software : Bool
  softwareReady : Bool
  frames : Nat
  deriving DecidableEq

structure Held where
  decoder : Option Decoder := none
  decoderInitialized : Bool := false
  currentCodec : VideoCodec := .h264
  hxQueue : List DecodedFrame := []
  /-- What a thread has in a variable of its own: the frame on display, or those to be given back. -/
  hands : Worker → List DecodedFrame := fun _ => []
  /-- Every frame that `on_decoded` was called with, and every one given back. -/
  handed : List DecodedFrame := []
  released : List Release := []
  decoders : Nat := 0
  displayRunning : Bool := true
  displayDone : Bool := false
  receiving : Bool := true

inductive Act where
  | video (p : Packet)
  | fallback (p : Packet)
  | decode (p : Packet)
  | emit (frames : Nat)
  | init (codec : VideoCodec) (ready : Bool)
  | create (backend : Option Backend)
  | destroy
  | reset
  | flush (frames : Nat)
  | retire (frames : Nat)
  | reallocate
  | enqueue
  | releaseFrames
  | takeFrame
  | afterTake
  | showFrame
  | takeAll
  | stopDisplay
  | joinDisplay
  | joinReceive
  | closeReceive
  deriving DecidableEq

/-- What a thread at rest can set out to do. -/
inductive Entry where
  | onVideo (p : Packet)
  /-- A region of one lock that no decoded frame is touched in. -/
  | visit (l : Lock)
  | deliver
  | changeResolution
  | showNext
  | leave
  | reloadConfig (backend : Option Backend) (frames : Nat)
  | connect
  | disconnect
  | stop (frames : Nat)

abbrev Code := List (Op Lock Act)

def Decoder.frame (d : Decoder) (number : Nat) : DecodedFrame := ⟨number, d.number, d.generation⟩

/-- A frame comes out of the decoder into the thread's hands. -/
def Held.hand (w : Held) (t : Worker) (d : Decoder) : Held :=
  { w with
    handed := w.handed ++ [d.frame w.handed.length]
    hands := Function.update w.hands t [d.frame w.handed.length] }

def onDecoded : Code :=
  [.lock .decoder, .lock .frame, .act .enqueue, .act .releaseFrames, .unlock .frame,
    .unlock .decoder]

def drainQueuedFrames : Code :=
  [.lock .decoder, .lock .frame, .act .takeAll, .unlock .frame, .act .releaseFrames,
    .unlock .decoder]

def Held.release (w : Held) (t : Worker) : Held :=
  let taker := w.decoder.map fun d => (d.number, d.generation)
  { w with
    released := w.released ++ (w.hands t).map (⟨·, taker⟩)
    hands := Function.update w.hands t [] }

/-- At most one frame stays in front of those pushed; the others come into the thread's hands. -/
def Held.enqueue (w : Held) (t : Worker) : Held :=
  { w with
    hxQueue := w.hxQueue.drop (w.hxQueue.length - 1) ++ w.hands t
    hands := Function.update w.hands t (w.hxQueue.take (w.hxQueue.length - 1)) }

def Held.takeFrame (w : Held) (t : Worker) : Held :=
  if w.displayRunning then
    { w with hxQueue := w.hxQueue.drop 1, hands := Function.update w.hands t (w.hxQueue.take 1) }
  else w

def Held.takeAll (w : Held) (t : Worker) : Held :=
  { w with hxQueue := [], hands := Function.update w.hands t (w.hands t ++ w.hxQueue) }

def acts (l : List Act) : Code := l.map .act

def exec (busy : Worker → Bool) (w : Held) (t : Worker) : Act → Option (Held × Code)
  | .video p =>
    some (w, match w.decoder with
      | none => []
      | some _ =>
        if !w.decoderInitialized || p.codec ≠ w.currentCodec then
          acts [.destroy, .init p.codec p.ready, .fallback p, .decode p]
        else acts [.decode p])
  | .fallback p =>
    some (w, match w.decoder with
      | none => []
      | some d =>
        if !w.decoderInitialized && d.backend.isHardware then
          acts [.destroy, .reset, .create (if p.software then some .software else none),
            .init p.codec p.softwareReady]
        else [])
  | .decode p =>
    some (w, match w.decoder with
      | none => []
      | some d =>
        if w.decoderInitialized && d.initialized && d.backend.synchronous then acts [.emit p.frames]
        else [])
  | .emit 0 => some (w, [])
  | .emit (n + 1) =>
    w.decoder.map fun d => (w.hand t d, onDecoded ++ acts [.emit n])
  | .init codec ready =>
    match w.decoder with
    | none => some (w, [])
    | some d =>
      some ({ w with
        decoder := some { d with initialized := ready }
        decoderInitialized := ready
        currentCodec := codec }, [])
  | .create backend =>
    some ({ w with
      decoder := backend.map fun b => ⟨w.decoders, b, false, 0⟩
      decoders := w.decoders + 1
      decoderInitialized := false }, [])
  | .destroy =>
    match w.decoder with
    | none => some (w, [])
    | some d =>
      if !d.initialized then some (w, [])
      -- the thread that captures is joined first
      else if d.backend = .v4l2 && busy .capture then none
      else some ({ w with
        decoder := some { d with initialized := false, generation := d.generation + 1 } }, [])
  | .reset => some ({ w with decoder := none }, [])
  | .flush n =>
    some (w, match w.decoder with
      | none => []
      | some d => if d.initialized && d.backend.synchronous then acts [.emit n] else [])
  | .retire n =>
    some (w, match w.decoder with
      | none => []
      | some _ => acts [.flush n, .destroy, .reset])
  | .reallocate =>
    some ({ w with decoder := w.decoder.map fun d => { d with generation := d.generation + 1 } }, [])
  | .enqueue => some (w.enqueue t, [])
  | .releaseFrames => some (w.release t, [])
  | .takeFrame => some (w.takeFrame t, [])
  | .afterTake =>
    some (w, if w.hands t = [] then []
      else [.act .showFrame, .lock .decoder, .act .releaseFrames, .unlock .decoder])
  | .showFrame => some (w, [])
  | .takeAll => some (w.takeAll t, [])
  | .stopDisplay => some ({ w with displayRunning := false }, [])
  | .joinDisplay => if w.displayDone && !busy .display then some (w, []) else none
  | .joinReceive => if busy .receive then none else some (w, [])
  | .closeReceive => if busy .receive then none else some ({ w with receiving := false }, [])

def capturing (w : Held) : Option Decoder :=
  w.decoder.filter fun d => d.backend = .v4l2 && d.initialized

def enter (w : Held) (t : Worker) (e : Entry) : Option (Held × Code) :=
  match t, e with
  | .receive, .onVideo p =>
    if w.receiving then some (w, [.lock .decoder, .act (.video p), .unlock .decoder]) else none
  | .receive, .visit l => if w.receiving then some (w, [.lock l, .unlock l]) else none
  | .control, .visit l => some (w, [.lock l, .unlock l])
  | .capture, .deliver => (capturing w).map fun d => (w.hand t d, onDecoded)
  | .capture, .changeResolution => (capturing w).map fun _ => (w, acts [.reallocate])
  | .display, .showNext =>
    if w.displayRunning then
      some (w, [.lock .frame, .act .takeFrame, .unlock .frame, .act .afterTake])
    else none
  | .display, .leave =>
    if !w.displayRunning && !w.displayDone then
      some ({ w with displayDone := true }, drainQueuedFrames)
    else none
  | .control, .reloadConfig backend n =>
    some (w, [.lock .decoder, .lock .frame, .act .takeAll, .unlock .frame, .act .releaseFrames,
      .act (.retire n), .act (.create backend), .unlock .decoder])
  | .control, .connect => some (w, .act .joinReceive :: drainQueuedFrames)
  | .control, .disconnect => some (w, .act .joinReceive :: drainQueuedFrames)
  | .control, .stop n =>
    some (w, acts [.stopDisplay, .joinDisplay] ++ drainQueuedFrames ++
      [.act .closeReceive, .lock .decoder, .act (.retire n), .unlock .decoder])
  | _, _ => none

def worker : Machine Worker Lock Act Entry Held where
  exec := exec
  enter := enter

/-- Started with the decoder that was found, if any, and nothing decoded yet. -/
def start (backend : Option Backend) : State Worker Lock Act Held :=
  atRest { decoder := backend.map fun b => ⟨0, b, false, 0⟩, decoders := 1 }

end NdimonR.Display.HxFrames
