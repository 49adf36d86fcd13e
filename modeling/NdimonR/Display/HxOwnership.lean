import NdimonR.Display.HxFrames
import Mathlib.Data.List.Nodup
import Mathlib.Data.List.Perm.Basic
import Mathlib.Data.List.Range

/-! Where a decoded frame is: in one place until it is given back to the decoder that made it. This
holds of exactly the runs in which no decoder calls back under its own lock, and none is ended or
reallocated with a frame of it still out. -/

namespace NdimonR.Display.HxFrames

open Threads
open scoped List

abbrev Workers := State Worker Lock Act Held

/-! ### The frames that are out -/

def workers : List Worker := [.receive, .capture, .display, .control]

def Held.out (w : Held) : List DecodedFrame := w.hxQueue ++ workers.flatMap w.hands

def Held.others (w : Held) (t : Worker) : List DecodedFrame := (workers.erase t).flatMap w.hands

/-- The decoder in use and its generation made the frame. -/
def Current (w : Held) (f : DecodedFrame) : Prop :=
  ∃ d, w.decoder = some d ∧ f.decoder = d.number ∧ f.generation = d.generation

/-- What is asked of every state. -/
structure Owned (s : Workers) : Prop where
  free : ¬ Relocks s
  short : s.data.hxQueue.length ≤ 2
  distinct : s.data.handed.Nodup
  /-- Each frame handed out is in one place or was given back, and once. -/
  kept : s.data.handed.Perm (s.data.out ++ s.data.released.map (·.frame))
  current : ∀ f ∈ s.data.out, Current s.data f
  own : ∀ r ∈ s.data.released, r.taker = some (r.frame.decoder, r.frame.generation)
  rest : ∀ t, s.code t = [] → s.data.hands t = []

/-- What is asked of the state before an act: a decoder hands out no frame while it is called, and
none is out when the decoder or its buffers go. -/
def Leave (w : Held) : Act → Prop
  | .emit frames => frames = 0
  | .destroy => (∃ d, w.decoder = some d ∧ d.initialized = true) → w.out = []
  | .reset | .create _ | .reallocate => w.out = []
  | _ => True

def leave (s : Workers) : Event Worker Entry → Prop
  | .run t => ∀ a rest, s.code t = .act a :: rest → Leave s.data a
  | .enter _ _ => True

section
variable {w w' : Held} {t : Worker}

theorem workers_perm (t : Worker) : workers.Perm (t :: workers.erase t) :=
  List.perm_cons_erase (by cases t <;> decide)

theorem not_mem_erase (t : Worker) : t ∉ workers.erase t := by cases t <;> decide

theorem out_perm (w : Held) (t : Worker) : w.out.Perm (w.hxQueue ++ (w.hands t ++ w.others t)) :=
  ((workers_perm t).flatMap_right w.hands).append_left w.hxQueue

theorem mem_out (w : Held) (t : Worker) {f : DecodedFrame} :
    f ∈ w.out ↔ (f ∈ w.hxQueue ∨ f ∈ w.hands t) ∨ f ∈ w.others t := by
  rw [(out_perm w t).mem_iff, List.mem_append, List.mem_append, or_assoc]

/-- Another thread has what it had. -/
theorem others_update (h : ∀ u, u ≠ t → w'.hands u = w.hands u) : w'.others t = w.others t := by
  unfold Held.others
  apply List.flatMap_congr
  intro u hu
  apply h
  rintro rfl
  exact not_mem_erase u hu

theorem out_moved {q x : List DecodedFrame} (hq : w'.hxQueue = q)
    (hw : w'.hands = Function.update w.hands t x) : w'.out.Perm (q ++ (x ++ w.others t)) := by
  have hothers : w'.others t = w.others t := others_update fun u hu => by rw [hw]; simp [hu]
  have hhands : w'.hands t = x := by rw [hw]; simp
  have h := out_perm w' t
  rwa [hq, hhands, hothers] at h

/-- What holds of the frames whatever the threads are at. -/
structure Sound (w : Held) : Prop where
  short : w.hxQueue.length ≤ 2
  numbers : w.handed.map (·.number) = List.range w.handed.length
  kept : w.handed.Perm (w.out ++ w.released.map (·.frame))
  current : ∀ f ∈ w.out, Current w f
  own : ∀ r ∈ w.released, r.taker = some (r.frame.decoder, r.frame.generation)
  known : ∀ d, w.decoder = some d → d.number < w.decoders

/-- Frames go between the queue and the hands of one thread. -/
theorem Sound.moves (h : Sound w) {q x : List DecodedFrame}
    (hperm : (q ++ x).Perm (w.hxQueue ++ w.hands t)) (hq : q.length ≤ 2) :
    Sound { w with hxQueue := q, hands := Function.update w.hands t x } := by
  have hout : Held.out { w with hxQueue := q, hands := Function.update w.hands t x } ~ w.out := by
    calc
      _ ~ q ++ (x ++ w.others t) := out_moved rfl rfl
      _ = q ++ x ++ w.others t := (List.append_assoc q x _).symm
      _ ~ w.hxQueue ++ w.hands t ++ w.others t := hperm.append_right _
      _ = w.hxQueue ++ (w.hands t ++ w.others t) := List.append_assoc _ _ _
      _ ~ w.out := (out_perm w t).symm
  exact {
    short := hq
    numbers := h.numbers
    kept := h.kept.trans (hout.symm.append_right _)
    current := fun f hf => h.current f (hout.mem_iff.mp hf)
    own := h.own
    known := h.known }

theorem Sound.enqueue (h : Sound w) (hone : (w.hands t).length = 1) : Sound (w.enqueue t) := by
  apply h.moves
  · have hcut := List.take_append_drop (w.hxQueue.length - 1) w.hxQueue
    calc
      _ ~ w.hxQueue.take (w.hxQueue.length - 1) ++
          (w.hxQueue.drop (w.hxQueue.length - 1) ++ w.hands t) := List.perm_append_comm
      _ = w.hxQueue ++ w.hands t := by rw [← List.append_assoc, hcut]
  · have := h.short
    simp only [List.length_append, List.length_drop]
    omega

theorem Sound.takeFrame (h : Sound w) (hempty : w.hands t = []) : Sound (w.takeFrame t) := by
  unfold Held.takeFrame
  split
  · apply h.moves
    · have hcut := List.take_append_drop 1 w.hxQueue
      rw [hempty, List.append_nil]
      exact List.perm_append_comm.trans (.of_eq hcut)
    · have := h.short
      rw [List.length_drop]
      omega
  · exact h

theorem Sound.takeAll (h : Sound w) : Sound (w.takeAll t) :=
  h.moves (by simpa using List.perm_append_comm) (by simp)

/-- What is given back is given to the decoder that made it. -/
theorem Sound.release (h : Sound w) : Sound (w.release t) := by
  have hout : (w.release t).out ~ w.hxQueue ++ ([] ++ w.others t) := out_moved rfl rfl
  have hbefore := out_perm w t
  have hframes : (w.release t).released.map (·.frame) =
      w.released.map (·.frame) ++ w.hands t := by
    simp [Held.release, Function.comp_def]
  have hleft : ∀ f ∈ (w.release t).out, f ∈ w.out := by
    intro f hf
    rw [hout.mem_iff] at hf
    rw [hbefore.mem_iff]
    simp only [List.nil_append, List.mem_append] at hf ⊢
    tauto
  refine ⟨h.short, h.numbers, ?_, fun f hf => h.current f (hleft f hf), ?_, h.known⟩
  · rw [hframes]
    refine h.kept.trans ?_
    calc
      _ ~ w.hxQueue ++ (w.hands t ++ w.others t) ++ w.released.map (·.frame) :=
        hbefore.append_right _
      _ ~ w.hxQueue ++ ([] ++ w.others t) ++ (w.released.map (·.frame) ++ w.hands t) := by
        rw [List.perm_iff_count]
        intro f
        simp only [List.count_append, List.nil_append]
        omega
      _ ~ _ := hout.symm.append_right _
  · intro r hr
    rcases List.mem_append.mp hr with hr | hr
    · exact h.own r hr
    · obtain ⟨f, hf, rfl⟩ := List.mem_map.mp hr
      obtain ⟨d, hd, hdecoder, hgeneration⟩ := h.current f ((mem_out w t).mpr (.inl (.inr hf)))
      simp [hd, hdecoder, hgeneration]

/-- A new frame is one of the decoder in use. -/
theorem Sound.hand (h : Sound w) (hempty : w.hands t = []) {d : Decoder} (hd : w.decoder = some d) :
    Sound (w.hand t d) := by
  have hout : (w.hand t d).out ~ w.hxQueue ++ ([d.frame w.handed.length] ++ w.others t) :=
    out_moved rfl rfl
  have hbefore := out_perm w t
  rw [hempty] at hbefore
  refine ⟨h.short, ?_, ?_, ?_, h.own, h.known⟩
  · have hnumber : (d.frame w.handed.length).number = w.handed.length := rfl
    simp [Held.hand, h.numbers, List.range_succ, hnumber]
  · have hkept := h.kept.trans (hbefore.append_right _)
    refine .trans ?_ (hout.symm.append_right _)
    rw [List.perm_iff_count] at hkept ⊢
    intro f
    have := hkept f
    simp only [Held.hand, List.count_append, List.nil_append] at this ⊢
    omega
  · intro f hf
    rw [hout.mem_iff] at hf
    simp only [List.mem_append, List.mem_singleton] at hf
    rcases hf with hf | rfl | hf
    · exact h.current f ((mem_out w t).mpr (.inl (.inl hf)))
    · exact ⟨d, hd, rfl, rfl⟩
    · exact h.current f ((mem_out w t).mpr (.inr hf))

end

/-! ### What a thread still does with the frames in its hands -/

/-- `decode` and `flush` and what they are made of, all under the decoder's lock. -/
def underDecoder : Act → Bool
  | .video _ | .fallback _ | .decode _ | .emit _ | .init _ _ | .create _ | .destroy | .reset
  | .flush _ | .retire _ => true
  | _ => false

/-- The locks an act is made under. -/
def needs (a : Act) (held : Lock → Prop) : Prop :=
  match a with
  | .enqueue => held .decoder ∧ held .frame
  | .releaseFrames => held .decoder
  | .takeFrame | .takeAll => held .frame
  | .afterTake => ¬ held .decoder
  | a => underDecoder a = true → held .decoder

/-- Whatever comes into a thread's hands, what is left to do gives it back or queues it. -/
def Fits : List DecodedFrame → Code → Prop
  | hands, [] => hands = []
  | _, .act .releaseFrames :: rest => Fits [] rest
  | _, .act .afterTake :: rest => Fits [] rest
  | hands, .act .enqueue :: rest => hands.length = 1 ∧ ∀ dropped, Fits dropped rest
  | hands, .act .takeFrame :: rest => hands = [] ∧ ∀ taken, Fits taken rest
  | _, .act .takeAll :: rest => ∀ taken, Fits taken rest
  | hands, _ :: rest => Fits hands rest

/-- Acts that leave the frames where they are. -/
def keepsFrames : Act → Bool
  | .releaseFrames | .afterTake | .enqueue | .takeFrame | .takeAll => false
  | _ => true

section
variable {hands : List DecodedFrame} {rest : Code} {held : Lock → Prop} {a : Act}

theorem fits_keeps (ha : keepsFrames a = true) : Fits hands (.act a :: rest) ↔ Fits hands rest := by
  cases a <;> first | exact absurd ha (by decide) | rfl

theorem keepsFrames_underDecoder (ha : underDecoder a = true) : keepsFrames a = true := by
  cases a <;> first | exact absurd ha (by decide) | rfl

theorem needs_underDecoder (ha : underDecoder a = true) : needs a held ↔ held .decoder := by
  cases a <;> first | exact absurd ha (by decide) | simp [needs, underDecoder]

/-- Work under the decoder's lock, before anything. -/
theorem fits_acts {l : List Act} (hl : ∀ a ∈ l, underDecoder a = true) (h : Fits hands rest) :
    Fits hands (acts l ++ rest) := by
  induction l with
  | nil => exact h
  | cons a l ih =>
    have hrest := ih fun b hb => hl b (List.mem_cons_of_mem a hb)
    exact (fits_keeps (keepsFrames_underDecoder (hl a List.mem_cons_self))).mpr hrest

theorem orderly_acts {l : List Act} (hl : ∀ a ∈ l, underDecoder a = true) (hheld : held .decoder)
    (h : Orderly needs held rest) : Orderly needs held (acts l ++ rest) := by
  induction l with
  | nil => exact h
  | cons a l ih =>
    have hrest := ih fun b hb => hl b (List.mem_cons_of_mem a hb)
    exact ⟨(needs_underDecoder (hl a List.mem_cons_self)).mpr hheld, hrest⟩

end

/-! ### What an act does -/

/-- An act that moves no frame, and what it leaves to do. -/
structure Quiet (w w' : Held) (a : Act) (more : Code) : Prop where
  keeps : keepsFrames a = true
  queue : w'.hxQueue = w.hxQueue
  hands : w'.hands = w.hands
  handed : w'.handed = w.handed
  released : w'.released = w.released
  current : ∀ f ∈ w.out, Current w f → Current w' f
  known : (∀ d, w.decoder = some d → d.number < w.decoders) →
    ∀ d, w'.decoder = some d → d.number < w'.decoders
  more : ∃ l, more = acts l ∧ (∀ b ∈ l, underDecoder b = true) ∧ (l ≠ [] → underDecoder a = true)

theorem Quiet.sound {w w' : Held} {a : Act} {more : Code} (h : Quiet w w' a more) (hs : Sound w) :
    Sound w' := by
  have hout : w'.out = w.out := by rw [Held.out, Held.out, h.queue, h.hands]
  refine ⟨?_, ?_, ?_, fun f hf => ?_, ?_, h.known hs.known⟩
  · rw [h.queue]
    exact hs.short
  · rw [h.handed]
    exact hs.numbers
  · rw [h.handed, hout, h.released]
    exact hs.kept
  · rw [hout] at hf
    exact h.current f hf (hs.current f hf)
  · rw [h.released]
    exact hs.own

/-- An act that leaves the frames alone and only names what comes next. -/
theorem quiet_same {w : Held} {a : Act} {l : List Act} (ha : keepsFrames a = true)
    (hl : ∀ b ∈ l, underDecoder b = true) (hu : l ≠ [] → underDecoder a = true) :
    Quiet w w a (acts l) :=
  ⟨ha, rfl, rfl, rfl, rfl, fun _ _ h => h, id, l, rfl, hl, hu⟩

theorem quiet_rest {w : Held} {a : Act} (ha : keepsFrames a = true) : Quiet w w a [] :=
  ⟨ha, rfl, rfl, rfl, rfl, fun _ _ h => h, id, [], rfl, by simp, by simp⟩

/-- Every way an act that has leave can go. -/
inductive Does (w : Held) (t : Worker) : Act → Held → Code → Prop where
  | quiet {a w' more} : Quiet w w' a more → Does w t a w' more
  | enqueue : Does w t .enqueue (w.enqueue t) []
  | releaseFrames : Does w t .releaseFrames (w.release t) []
  | takeFrame : Does w t .takeFrame (w.takeFrame t) []
  | takeAll : Does w t .takeAll (w.takeAll t) []
  | afterTake : Does w t .afterTake w (if w.hands t = [] then []
      else [.act .showFrame, .lock .decoder, .act .releaseFrames, .unlock .decoder])

/-- An act that changes the decoder, and keeps what it is to the frames that are out. -/
theorem quiet_decoder {w w' : Held} {a : Act} (ha : keepsFrames a = true)
    (hsame : w'.hxQueue = w.hxQueue ∧ w'.hands = w.hands ∧ w'.handed = w.handed ∧
      w'.released = w.released)
    (hcurrent : ∀ f ∈ w.out, Current w f → Current w' f)
    (hknown : (∀ d, w.decoder = some d → d.number < w.decoders) →
      ∀ d, w'.decoder = some d → d.number < w'.decoders) : Quiet w w' a [] :=
  ⟨ha, hsame.1, hsame.2.1, hsame.2.2.1, hsame.2.2.2, hcurrent, hknown, [], rfl, by simp, by simp⟩

theorem current_of_nil {w w' : Held} (h : w.out = []) : ∀ f ∈ w.out, Current w f → Current w' f := by
  intro f hf
  rw [h] at hf
  cases hf

theorem exec_does {busy : Worker → Bool} {w w' : Held} {t : Worker} {a : Act} {more : Code}
    (h : exec busy w t a = some (w', more)) (hleave : Leave w a) : Does w t a w' more := by
  cases a with
  | video p =>
    cases h
    apply Does.quiet
    cases w.decoder with
    | none => exact quiet_rest rfl
    | some d =>
      dsimp only
      split
      · exact quiet_same rfl (by simp [underDecoder]) fun _ => rfl
      · exact quiet_same rfl (by simp [underDecoder]) fun _ => rfl
  | fallback p =>
    cases h
    apply Does.quiet
    cases w.decoder with
    | none => exact quiet_rest rfl
    | some d =>
      dsimp only
      split
      · exact quiet_same rfl (by simp [underDecoder]) fun _ => rfl
      · exact quiet_rest rfl
  | decode p =>
    cases h
    apply Does.quiet
    cases w.decoder with
    | none => exact quiet_rest rfl
    | some d =>
      dsimp only
      split
      · exact quiet_same rfl (by simp [underDecoder]) fun _ => rfl
      · exact quiet_rest rfl
  | emit n =>
    have hn : n = 0 := hleave
    subst hn
    cases h
    exact .quiet (quiet_rest rfl)
  | init codec ready =>
    simp only [exec] at h
    cases hd : w.decoder with
    | none =>
      rw [hd] at h
      cases h
      exact .quiet (quiet_rest rfl)
    | some d =>
      rw [hd] at h
      cases h
      refine .quiet (quiet_decoder rfl ⟨rfl, rfl, rfl, rfl⟩ ?_ ?_)
      · rintro f - ⟨d', hd', hmade⟩
        cases hd.symm.trans hd'
        exact ⟨_, rfl, hmade⟩
      · intro hknown d' hd'
        cases hd'
        exact hknown d hd
  | create backend =>
    cases h
    refine .quiet (quiet_decoder rfl ⟨rfl, rfl, rfl, rfl⟩ (current_of_nil hleave) ?_)
    intro _ d hd
    obtain ⟨b, -, rfl⟩ := Option.map_eq_some_iff.mp hd
    exact Nat.lt_succ_self _
  | destroy =>
    simp only [exec] at h
    cases hd : w.decoder with
    | none =>
      rw [hd] at h
      cases h
      exact .quiet (quiet_rest rfl)
    | some d =>
      rw [hd] at h
      simp only at h
      split at h
      · cases h
        exact .quiet (quiet_rest rfl)
      · rename_i hready
        split at h
        · cases h
        · cases h
          have hnone : w.out = [] := hleave ⟨d, hd, by simpa using hready⟩
          refine .quiet (quiet_decoder rfl ⟨rfl, rfl, rfl, rfl⟩ (current_of_nil hnone) ?_)
          intro hknown d' hd'
          cases hd'
          exact hknown d hd
  | reset =>
    cases h
    refine .quiet (quiet_decoder rfl ⟨rfl, rfl, rfl, rfl⟩ (current_of_nil hleave) ?_)
    intro _ d hd
    cases hd
  | flush n =>
    cases h
    apply Does.quiet
    cases w.decoder with
    | none => exact quiet_rest rfl
    | some d =>
      dsimp only
      split
      · exact quiet_same rfl (by simp [underDecoder]) fun _ => rfl
      · exact quiet_rest rfl
  | retire n =>
    cases h
    apply Does.quiet
    cases w.decoder with
    | none => exact quiet_rest rfl
    | some d => exact quiet_same rfl (by simp [underDecoder]) fun _ => rfl
  | reallocate =>
    cases h
    refine .quiet (quiet_decoder rfl ⟨rfl, rfl, rfl, rfl⟩ (current_of_nil hleave) ?_)
    intro hknown d hd
    obtain ⟨d', hd', rfl⟩ := Option.map_eq_some_iff.mp hd
    exact hknown d' hd'
  | enqueue =>
    cases h
    exact .enqueue
  | releaseFrames =>
    cases h
    exact .releaseFrames
  | takeFrame =>
    cases h
    exact .takeFrame
  | afterTake =>
    cases h
    exact .afterTake
  | showFrame =>
    cases h
    exact .quiet (quiet_rest rfl)
  | takeAll =>
    cases h
    exact .takeAll
  | stopDisplay =>
    cases h
    exact .quiet (quiet_decoder rfl ⟨rfl, rfl, rfl, rfl⟩ (fun _ _ h => h) id)
  | joinDisplay =>
    simp only [exec] at h
    split at h
    · cases h
      exact .quiet (quiet_rest rfl)
    · cases h
  | joinReceive =>
    simp only [exec] at h
    split at h
    · cases h
    · cases h
      exact .quiet (quiet_rest rfl)
  | closeReceive =>
    simp only [exec] at h
    split at h
    · cases h
    · cases h
      exact .quiet (quiet_decoder rfl ⟨rfl, rfl, rfl, rfl⟩ (fun _ _ h => h) id)

/-! ### What a thread sets out to do -/

/-- Every way a thread at rest can set out. -/
structure Begins (w w' : Held) (t : Worker) (code : Code) : Prop where
  orderly : Orderly needs (fun _ => False) code
  fits : w.hands t = [] → Fits (w'.hands t) code
  others : ∀ u, u ≠ t → w'.hands u = w.hands u
  sound : w.hands t = [] → Sound w → Sound w'

theorem begins_same {w : Held} {t : Worker} {code : Code}
    (horderly : Orderly needs (fun _ => False) code) (hfits : Fits [] code) :
    Begins w w t code :=
  ⟨horderly, fun hempty => by rw [hempty]; exact hfits, fun _ _ => rfl, fun _ h => h⟩

theorem orderly_drain : Orderly needs (fun _ => False) drainQueuedFrames := by
  simp only [drainQueuedFrames, Orderly, needs]
  tauto

theorem orderly_onDecoded : Orderly needs (fun _ => False) onDecoded := by
  simp only [onDecoded, Orderly, needs]
  tauto

theorem enter_begins {w w' : Held} {t : Worker} {e : Entry} {code : Code}
    (h : enter w t e = some (w', code)) : Begins w w' t code := by
  cases t with
  | receive =>
    cases e with
    | onVideo p =>
      simp only [enter] at h
      split at h
      · cases h
        apply begins_same
        · simp [Orderly, needs, underDecoder]
        · simp [Fits]
      · cases h
    | visit l =>
      simp only [enter] at h
      split at h
      · cases h
        exact begins_same (by simp [Orderly]) (by simp [Fits])
      · cases h
    | _ => cases h
  | capture =>
    cases e with
    | deliver =>
      obtain ⟨d, hd, heq⟩ := Option.map_eq_some_iff.mp h
      cases heq
      have hdecoder : w.decoder = some d := (Option.filter_eq_some_iff.mp hd).1
      refine ⟨orderly_onDecoded, fun _ => ?_, fun u hu => ?_, fun hempty hs => hs.hand hempty hdecoder⟩
      · simp [onDecoded, Fits, Held.hand]
      · simp [Held.hand, hu]
    | changeResolution =>
      obtain ⟨d, -, heq⟩ := Option.map_eq_some_iff.mp h
      cases heq
      exact begins_same (by simp [acts, Orderly, needs, underDecoder]) (by simp [acts, Fits])
    | _ => cases h
  | display =>
    cases e with
    | showNext =>
      simp only [enter] at h
      split at h
      · cases h
        exact begins_same (by simp [Orderly, needs]) (by simp [Fits])
      · cases h
    | leave =>
      simp only [enter] at h
      split at h
      · cases h
        refine ⟨orderly_drain, fun _ => ?_, fun _ _ => rfl, fun _ hs => ?_⟩
        · simp [drainQueuedFrames, Fits]
        · exact ⟨hs.short, hs.numbers, hs.kept, hs.current, hs.own, hs.known⟩
      · cases h
    | _ => cases h
  | control =>
    cases e with
    | visit l =>
      cases h
      exact begins_same (by simp [Orderly]) (by simp [Fits])
    | reloadConfig backend n =>
      cases h
      refine begins_same ?_ (by simp [Fits])
      simp only [Orderly, needs]
      tauto
    | connect =>
      cases h
      exact begins_same ⟨by simp [needs, underDecoder], orderly_drain⟩
        (by simp [drainQueuedFrames, Fits])
    | disconnect =>
      cases h
      exact begins_same ⟨by simp [needs, underDecoder], orderly_drain⟩
        (by simp [drainQueuedFrames, Fits])
    | stop n =>
      cases h
      refine begins_same ?_ (by simp [acts, drainQueuedFrames, Fits])
      simp only [acts, drainQueuedFrames, List.map_cons, List.map_nil, List.cons_append,
        List.nil_append, Orderly, needs]
      tauto
    | _ => cases h

/-! ### Runs -/

structure Inv (s : Workers) : Prop where
  locks : Disciplined needs s
  fits : ∀ t, Fits (s.data.hands t) (s.code t)
  sound : Sound s.data

theorem fits_update {s : Workers} {w : Held} {t : Worker} {code : Code}
    (h : ∀ u, Fits (s.data.hands u) (s.code u)) (hcode : Fits (w.hands t) code)
    (hothers : ∀ u, u ≠ t → w.hands u = s.data.hands u) :
    ∀ u, Fits (w.hands u) (Function.update s.code t code u) := by
  intro u
  by_cases hu : u = t
  · subst hu
    simpa using hcode
  · simpa [hu, hothers u hu] using h u

/-- What is left after an act is as orderly as what was left before it. -/
theorem Does.orderly {w w' : Held} {t : Worker} {a : Act} {more rest : Code} {held : Lock → Prop}
    (h : Does w t a w' more) (hneeds : needs a held) (hrest : Orderly needs held rest) :
    Orderly needs held (more ++ rest) := by
  cases h with
  | quiet h =>
    obtain ⟨l, rfl, hl, hu⟩ := h.more
    cases l with
    | nil => exact hrest
    | cons b l => exact orderly_acts hl ((needs_underDecoder (hu (by simp))).mp hneeds) hrest
  | enqueue => exact hrest
  | releaseFrames => exact hrest
  | takeFrame => exact hrest
  | takeAll => exact hrest
  | afterTake =>
    have hfree : ¬ held .decoder := hneeds
    split
    · exact hrest
    · refine ⟨by simp [needs, underDecoder], hfree, .inl rfl, .inl rfl, ?_⟩
      rw [unlock_lock hfree]
      exact hrest

theorem Does.fits {w w' : Held} {t : Worker} {a : Act} {more rest : Code}
    (h : Does w t a w' more) (hfits : Fits (w.hands t) (.act a :: rest)) :
    Fits (w'.hands t) (more ++ rest) := by
  cases h with
  | quiet h =>
    obtain ⟨l, rfl, hl, -⟩ := h.more
    rw [h.hands]
    exact fits_acts hl ((fits_keeps h.keeps).mp hfits)
  | enqueue => exact hfits.2 _
  | releaseFrames =>
    have hhands : (w.release t).hands t = [] := by simp [Held.release]
    rw [hhands]
    exact hfits
  | takeFrame =>
    unfold Held.takeFrame
    split
    · exact hfits.2 _
    · exact hfits.2 _
  | takeAll => exact hfits _
  | afterTake =>
    split
    · rename_i hempty
      rw [hempty]
      exact hfits
    · exact hfits

theorem Does.others {w w' : Held} {t : Worker} {a : Act} {more : Code} (h : Does w t a w' more)
    (u : Worker) (hu : u ≠ t) : w'.hands u = w.hands u := by
  cases h with
  | quiet h => rw [h.hands]
  | enqueue => simp [Held.enqueue, hu]
  | releaseFrames => simp [Held.release, hu]
  | takeFrame =>
    unfold Held.takeFrame
    split
    · simp [hu]
    · rfl
  | takeAll => simp [Held.takeAll, hu]
  | afterTake => rfl

theorem Does.sound {w w' : Held} {t : Worker} {a : Act} {more rest : Code}
    (h : Does w t a w' more) (hfits : Fits (w.hands t) (.act a :: rest)) (hs : Sound w) :
    Sound w' := by
  cases h with
  | quiet h => exact h.sound hs
  | enqueue => exact hs.enqueue hfits.1
  | releaseFrames => exact hs.release
  | takeFrame => exact hs.takeFrame hfits.1
  | takeAll => exact hs.takeAll
  | afterTake => exact hs

theorem Inv.step {s s' : Workers} {e : Event Worker Entry} (h : Inv s) (hleave : leave s e)
    (hstep : worker.step s e = some s') : Inv s' := by
  have hlocks : Disciplined needs s' := by
    refine h.locks.step hstep ?_ fun t x data code henter => (enter_begins henter).orderly
    rintro t a rest data more rfl hcode hexec hneeds hrest
    exact (exec_does hexec (hleave a rest hcode)).orderly hneeds hrest
  cases Machine.step_cases hstep with
  | @lock t m rest hcode _ =>
    have hown := h.fits t
    rw [hcode] at hown
    exact ⟨hlocks, fits_update h.fits hown fun _ _ => rfl, h.sound⟩
  | @unlock t m rest hcode =>
    have hown := h.fits t
    rw [hcode] at hown
    exact ⟨hlocks, fits_update h.fits hown fun _ _ => rfl, h.sound⟩
  | @act t a rest data more hcode hexec =>
    have hown := h.fits t
    rw [hcode] at hown
    have hdoes := exec_does hexec (hleave a rest hcode)
    exact ⟨hlocks, fits_update h.fits (hdoes.fits hown) hdoes.others, hdoes.sound hown h.sound⟩
  | @enter t x data code hcode henter =>
    have hempty := h.fits t
    rw [hcode] at hempty
    have hbegins := enter_begins henter
    exact ⟨hlocks, fits_update h.fits (hbegins.fits hempty) hbegins.others,
      hbegins.sound hempty h.sound⟩

theorem Inv.owned {s : Workers} (h : Inv s) : Owned s where
  free := h.locks.not_relocks
  short := h.sound.short
  distinct := by
    apply List.Nodup.of_map (·.number)
    rw [h.sound.numbers]
    exact List.nodup_range
  kept := h.sound.kept
  current := h.sound.current
  own := h.sound.own
  rest := by
    intro t hcode
    have hfits := h.fits t
    rw [hcode] at hfits
    exact hfits

theorem inv_start (backend : Option Backend) : Inv (start backend) where
  locks := disciplined_atRest _
  fits _ := rfl
  sound := by
    refine ⟨by simp [start, atRest], rfl, .refl _, ?_, ?_, ?_⟩
    · intro f hf
      cases hf
    · intro r hr
      cases hr
    · intro d hd
      obtain ⟨b, -, rfl⟩ := Option.map_eq_some_iff.mp hd
      exact Nat.zero_lt_one

/-- Without leave a frame that is out is no longer one of the decoder in use. -/
theorem not_current {w w' : Held} (hs : Sound w) (hout : w'.out = w.out) (hne : w.out ≠ [])
    (hchange : ∀ d d', w.decoder = some d → w'.decoder = some d' → d'.number = d.number →
      d'.generation ≠ d.generation) : ∃ f ∈ w'.out, ¬ Current w' f := by
  obtain ⟨f, hf⟩ := List.exists_mem_of_ne_nil _ hne
  obtain ⟨d, hd, hdecoder, hgeneration⟩ := hs.current f hf
  refine ⟨f, hout ▸ hf, ?_⟩
  rintro ⟨d', hd', hdecoder', hgeneration'⟩
  exact hchange d d' hd hd' (hdecoder'.symm.trans hdecoder) (hgeneration'.symm.trans hgeneration)

/-- An act without leave ends what is asked of every state. -/
theorem Inv.ends {s s' : Workers} {e : Event Worker Entry} (h : Inv s) (hleave : ¬ leave s e)
    (hstep : worker.step s e = some s') : ¬ Owned s' := by
  intro howned
  cases Machine.step_cases hstep with
  | @lock t m rest hcode _ =>
    refine hleave fun a rest' hact => ?_
    rw [hcode] at hact
    cases hact
  | @unlock t m rest hcode =>
    refine hleave fun a rest' hact => ?_
    rw [hcode] at hact
    cases hact
  | @enter t x data code hcode henter => exact hleave trivial
  | @act t a rest data more hcode hexec =>
    have hno : ¬ Leave s.data a := by
      intro hyes
      refine hleave fun b rest' hact => ?_
      rw [hcode] at hact
      cases hact
      exact hyes
    have hstale : (∃ f ∈ data.out, ¬ Current data f) → False :=
      fun ⟨f, hf, hnot⟩ => hnot (howned.current f hf)
    cases a with
    | emit n =>
      cases n with
      | zero => exact hno rfl
      | succ n =>
        -- the decoder calls back under its own lock
        obtain ⟨d, -, heq⟩ := Option.map_eq_some_iff.mp hexec
        cases heq
        have hheld := (h.locks.act hcode).1
        refine howned.free ⟨t, .decoder, _, Function.update_self _ _ _, ?_⟩
        exact (needs_underDecoder rfl).mp hheld
    | create backend =>
      cases hexec
      refine hstale (not_current h.sound rfl hno fun d d' hd hd' hnumber => ?_)
      obtain ⟨b, -, rfl⟩ := Option.map_eq_some_iff.mp hd'
      exact absurd hnumber (h.sound.known d hd).ne'
    | reset =>
      cases hexec
      refine hstale (not_current h.sound rfl hno fun d d' hd hd' => ?_)
      cases hd'
    | destroy =>
      simp only [Leave, Classical.not_imp] at hno
      obtain ⟨⟨d, hd, hready⟩, hne⟩ := hno
      simp only [worker, exec, hd, hready, Bool.not_true, Bool.false_eq_true, if_false] at hexec
      split at hexec
      · cases hexec
      · cases hexec
        refine hstale (not_current h.sound rfl hne fun d₁ d' hd₁ hd' _ => ?_)
        rw [hd] at hd₁
        cases hd₁
        cases hd'
        exact Nat.succ_ne_self _
    | reallocate =>
      cases hexec
      refine hstale (not_current h.sound rfl hno fun d d' hd hd' _ => ?_)
      obtain ⟨d₁, hd₁, rfl⟩ := Option.map_eq_some_iff.mp hd'
      rw [hd] at hd₁
      cases hd₁
      exact Nat.succ_ne_self _
    | _ => exact hno trivial

def packet : Packet := ⟨.h264, true, true, true, 1⟩

/-- Some steps of one thread. -/
def turns (t : Worker) (n : Nat) : List (Event Worker Entry) := List.replicate n (.run t)

/-- The first frame of a software decoder. -/
def firstFrame : List (Event Worker Entry) :=
  .enter .receive (.onVideo packet) :: turns .receive 7

/-- A frame waits for the display when the decoder reallocates its buffers. -/
def reallocated : List (Event Worker Entry) :=
  .enter .receive (.onVideo packet) :: turns .receive 7 ++
    .enter .capture .deliver :: turns .capture 6 ++
    .enter .capture .changeResolution :: turns .capture 1 ++
    .enter .display .showNext :: turns .display 8

end NdimonR.Display.HxFrames
