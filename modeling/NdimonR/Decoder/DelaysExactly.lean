import Mathlib.Algebra.Order.Field.Basic
import Mathlib.Data.List.Induction
import NdimonR.Decoder.DelayLine

/-! What a delay line is for, over the changes and frames it sees, and how far the code is that. -/

namespace NdimonR.Decoder.DelayLine

open Circular

inductive Event where
  | change (frames : ℤ)
  | frame (x : List ℚ)

def Event.input : Event → Option (List ℚ)
  | .change _ => none
  | .frame x => some x

def inputs (es : List Event) : List (List ℚ) := es.filterMap Event.input

def sampleOf (xs : List (List ℚ)) (c n : ℕ) : ℚ := ((xs[n]?).bind (·[c]?)).getD 0

/-- Input `n` minus `back`, 0 before the start. -/
def delayed (xs : List (List ℚ)) (c n back : ℕ) : ℚ :=
  if back ≤ n then sampleOf xs c (n - back) else 0

/-- The delay in force, the one before it, and for how many frames the change has faded. -/
structure Setting where
  old : ℕ := 0
  delay : ℕ := 0
  since : Option ℕ := none
  heard : Bool := false

/-- A change before anything is heard needs no fade. -/
def Setting.next (maximum : ℕ) (k : Setting) : Event → Setting
  | .change frames =>
    let frames := clamp frames maximum
    if frames = k.delay then k
    else if k.heard then { k with old := k.delay, delay := frames, since := some 0 }
    else { k with old := frames, delay := frames, since := none }
  | .frame _ => { k with since := k.since.map (· + 1), heard := true }

def settingAfter (maximum : ℕ) (es : List Event) : Setting := es.foldl (Setting.next maximum) {}

/-- How much of the new delay is heard. -/
def Setting.weight (k : Setting) : ℚ := k.since.elim 1 fun n => min 1 (n / fadeFrames)

/-- The mix a setting makes of frame `x`, coming after `heard`. -/
def Setting.output (k : Setting) (heard : List (List ℚ)) (x : List ℚ) (c : ℕ) : ℚ :=
  mix k.weight (delayed (heard ++ [x]) c heard.length k.old)
    (delayed (heard ++ [x]) c heard.length k.delay)

/-- The frames that should come out while `es` happen after `before`. -/
def outputs (channels maximum : ℕ) (before : List Event) : List Event → List (List ℚ)
  | [] => []
  | .change frames :: es => outputs channels maximum (before ++ [.change frames]) es
  | .frame x :: es =>
    (List.range channels).map ((settingAfter maximum before).output (inputs before) x) ::
      outputs channels maximum (before ++ [.frame x]) es

def eventsOf (channels : ℕ) : Call → List Event
  | .setDelayFrames frames => [.change frames]
  | .process mem input _ => (framesOf mem input channels input.frames).map .frame

def events (channels : ℕ) (calls : List Call) : List Event := calls.flatMap (eventsOf channels)

def Call.Fits (channels : ℕ) : Call → Prop
  | .setDelayFrames _ => True
  | .process mem input out => DelayLine.Fits channels mem input out

/-! ### The code makes these mixes -/

@[simp] theorem inputs_append (es fs : List Event) :
    inputs (es ++ fs) = inputs es ++ inputs fs := by
  simp [inputs]

@[simp] theorem inputs_frame (x : List ℚ) : inputs [.frame x] = [x] := rfl

@[simp] theorem inputs_change (frames : ℤ) : inputs [.change frames] = [] := rfl

@[simp] theorem settingAfter_concat (maximum : ℕ) (es : List Event) (e : Event) :
    settingAfter maximum (es ++ [e]) = (settingAfter maximum es).next maximum e := by
  simp [settingAfter]

theorem events_cons (channels : ℕ) (call : Call) (calls : List Call) :
    events channels (call :: calls) = eventsOf channels call ++ events channels calls := rfl

theorem outputs_append (channels maximum : ℕ) (before es fs : List Event) :
    outputs channels maximum before (es ++ fs) =
      outputs channels maximum before es ++ outputs channels maximum (before ++ es) fs := by
  induction es generalizing before with
  | nil => simp [outputs]
  | cons e es ih =>
    cases e with
    | change frames =>
      simp only [List.cons_append, outputs, ih, List.append_assoc, List.nil_append]
    | frame x =>
      simp only [List.cons_append, outputs, ih, List.append_assoc, List.nil_append]

/-- What was heard on a channel, the newest first. -/
def pastOf (es : List Event) (c k : ℕ) : ℚ :=
  if k < (inputs es).length then sampleOf (inputs es) c ((inputs es).length - 1 - k) else 0

theorem newest_pastOf (es : List Event) (x : List ℚ) (c back : ℕ) :
    newest (x[c]?.getD 0) (pastOf es c) back =
      delayed (inputs es ++ [x]) c (inputs es).length back := by
  cases back with
  | zero => simp [newest, delayed, sampleOf]
  | succ k =>
    by_cases hk : k < (inputs es).length
    · have hplace : (inputs es).length - (k + 1) = (inputs es).length - 1 - k := by omega
      have hin : (inputs es).length - 1 - k < (inputs es).length := by omega
      rw [newest, pastOf, if_pos hk, delayed, if_pos (by omega), hplace, sampleOf, sampleOf,
        List.getElem?_append_left hin]
    · rw [newest, pastOf, if_neg hk, delayed, if_neg (by omega)]

theorem pastOf_concat (es : List Event) (x : List ℚ) (c : ℕ) :
    pastOf (es ++ [.frame x]) c = newest (x[c]?.getD 0) (pastOf es c) := by
  funext back
  rw [newest_pastOf, pastOf, delayed]
  simp only [inputs_append, inputs_frame, List.length_append, List.length_singleton]
  by_cases hback : back ≤ (inputs es).length
  · rw [if_pos (by omega), if_pos hback]
    congr 1
  · rw [if_neg (by omega), if_neg hback]

/-- The state after these events; whether anything was heard stands apart, the code notes it
before the first frame. -/
structure Matches (maximum : ℕ) (es : List Event) (s : DelayLine) : Prop where
  size : s.size = maximum + 1
  sound : Sound s (pastOf es)
  delay : s.delay = (settingAfter maximum es).delay
  oldDelay : s.oldDelay = (settingAfter maximum es).old
  fade : s.fade = (settingAfter maximum es).since.elim fadeFrames (min fadeFrames)

theorem Matches.weight {maximum : ℕ} {es : List Event} {s : DelayLine} (h : Matches maximum es s) :
    s.weight = (settingAfter maximum es).weight := by
  rw [DelayLine.weight, h.fade, Setting.weight]
  cases (settingAfter maximum es).since with
  | none => simp [fadeFrames]
  | some k =>
    simp only [Option.elim_some]
    by_cases hk : k ≤ fadeFrames
    · rw [Nat.min_eq_right hk]
    · have hlong : (1 : ℚ) ≤ k / fadeFrames := by
        rw [one_le_div (by norm_num [fadeFrames])]
        exact_mod_cast (by omega : fadeFrames ≤ k)
      rw [Nat.min_eq_left (by omega), min_eq_left hlong]
      norm_num [fadeFrames]

theorem Matches.mixed {maximum : ℕ} {es : List Event} {s : DelayLine} (h : Matches maximum es s)
    (x : List ℚ) (c : ℕ) :
    mixed s (pastOf es) (fun c => x[c]?.getD 0) s.weight c =
      (settingAfter maximum es).output (inputs es) x c := by
  rw [DelayLine.mixed, newest_pastOf, newest_pastOf, h.weight, h.delay, h.oldDelay, Setting.output]

theorem Matches.next {maximum : ℕ} {es : List Event} {s : DelayLine} {x : List ℚ} {ring : List ℚ}
    (h : Matches maximum es s)
    (sound : Sound (s.next ring) fun c => newest (x[c]?.getD 0) (pastOf es c)) :
    Matches maximum (es ++ [.frame x]) (s.next ring) := by
  refine ⟨h.size, ?_, ?_, ?_, ?_⟩
  · have hpast : pastOf (es ++ [.frame x]) = fun c => newest (x[c]?.getD 0) (pastOf es c) := by
      funext c
      exact pastOf_concat es x c
    rw [hpast]
    exact sound
  · simpa [Setting.next] using h.delay
  · simpa [Setting.next] using h.oldDelay
  · have hfade := h.fade
    simp only [DelayLine.next, settingAfter_concat, Setting.next]
    cases hsince : (settingAfter maximum es).since with
    | none =>
      simp only [hsince, Option.elim_none] at hfade
      simp [hfade]
    | some k =>
      simp only [hsince, Option.elim_some] at hfade
      simp only [hfade, Option.map_some, Option.elim_some]
      split <;> omega

/-- The settings of a line that nothing was heard on yet: no fade, and a delay within its ring. -/
theorem settingAfter_spec (maximum : ℕ) (es : List Event) :
    (settingAfter maximum es).delay ≤ maximum ∧ (settingAfter maximum es).old ≤ maximum := by
  induction es using List.reverseRecOn with
  | nil => exact ⟨Nat.zero_le _, Nat.zero_le _⟩
  | append_singleton es e ih =>
    rw [settingAfter_concat]
    cases e with
    | frame x => exact ih
    | change frames =>
      have hclamp : clamp frames maximum ≤ maximum := Nat.min_le_right _ _
      simp only [Setting.next]
      split
      · exact ih
      · split
        · exact ⟨hclamp, ih.1⟩
        · exact ⟨hclamp, hclamp⟩

theorem Matches.change {maximum : ℕ} {es : List Event} {s : DelayLine}
    (h : Matches maximum es s) (heard : s.processed = (settingAfter maximum es).heard)
    (frames : ℤ) :
    Matches maximum (es ++ [.change frames]) (setDelayFrames s frames) ∧
      (setDelayFrames s frames).processed =
        (settingAfter maximum (es ++ [.change frames])).heard := by
  have hmax : s.size - 1 = maximum := by
    rw [h.size, Nat.add_sub_cancel]
  have hclamp : clamp frames maximum < s.size := by
    rw [h.size]
    exact Nat.lt_succ_of_le (Nat.min_le_right _ _)
  have hpast : pastOf (es ++ [.change frames]) = pastOf es := by
    funext c k
    simp [pastOf]
  have hsound := h.sound
  simp only [setDelayFrames, hmax, heard, h.delay]
  by_cases hsame : clamp frames maximum = (settingAfter maximum es).delay
  · rw [if_pos hsame]
    refine ⟨⟨h.size, hpast ▸ hsound, ?_, ?_, ?_⟩, ?_⟩ <;>
      simp [Setting.next, hsame, h.delay, h.oldDelay, h.fade, heard]
  · rw [if_neg hsame]
    cases hheard : (settingAfter maximum es).heard with
    | false =>
      refine ⟨⟨h.size, ?_, ?_, ?_, ?_⟩, ?_⟩
      · rw [hpast]
        exact ⟨hsound.length, hsound.holds, hsound.position, hclamp, hclamp⟩
      all_goals simp [Setting.next, hsame, hheard]
    | true =>
      refine ⟨⟨h.size, ?_, ?_, ?_, ?_⟩, ?_⟩
      · rw [hpast]
        exact ⟨hsound.length, hsound.holds, hsound.position, hclamp, h.delay ▸ hsound.delay⟩
      all_goals simp [Setting.next, hsame, hheard]

theorem heard_frames (maximum : ℕ) (es : List Event) (xs : List (List ℚ)) :
    (settingAfter maximum (es ++ xs.map .frame)).heard =
      (decide (0 < xs.length) || (settingAfter maximum es).heard) := by
  induction xs using List.reverseRecOn with
  | nil => simp
  | append_singleton xs x ih =>
    rw [List.map_append, ← List.append_assoc, List.map_singleton, settingAfter_concat]
    simp [Setting.next]

theorem framesOf_succ (mem : Memory) (b : Block) (channels n : ℕ) :
    framesOf mem b channels (n + 1) = framesOf mem b channels n ++ [frameAt mem b channels n] := by
  simp [framesOf, List.range_succ]

theorem frameAt_getD {mem : Memory} {b : Block} {channels c n : ℕ} (hc : c < channels) :
    (frameAt mem b channels n)[c]?.getD 0 = (load mem b c n).getD 0 := by
  simp [frameAt, hc]

theorem frameAt_congr {mem after : Memory} {b : Block} {channels n : ℕ}
    (h : ∀ c, c < channels → load after b c n = load mem b c n) :
    frameAt after b channels n = frameAt mem b channels n := by
  apply List.map_congr_left
  intro c hc
  rw [h c (List.mem_range.mp hc)]

/-- The loop over the first `n` frames of a block. -/
structure Running (channels maximum : ℕ) (es : List Event) (processed : Bool) (mem : Memory)
    (input out : Block) (n : ℕ) (s : DelayLine) (now : Memory) : Prop where
  channels_eq : s.channels = channels
  processed_eq : s.processed = processed
  state : Matches maximum (es ++ (framesOf mem input channels n).map .frame) s
  fits : Fits channels now input out
  ahead : ∀ c j, c < channels → n ≤ j → load now input c j = load mem input c j
  heard : framesOf now out channels n =
    outputs channels maximum es ((framesOf mem input channels n).map .frame)

theorem Running.frame {channels maximum n : ℕ} {es : List Event} {processed : Bool}
    {mem now : Memory} {input out : Block} {s : DelayLine}
    (h : Running channels maximum es processed mem input out n s now) (hn : n < input.frames) :
    ∃ s' after, DelayLine.frame input out (s, now) n = some (s', after) ∧
      Running channels maximum es processed mem input out (n + 1) s' after := by
  obtain ⟨rfl, hprocessed, hstate, hfits, hahead, hheard⟩ := h
  let x := frameAt mem input s.channels n
  have hx : ∀ c, c < s.channels → load now input c n = some (x[c]?.getD 0) := by
    intro c hc
    obtain ⟨y, hy⟩ := Option.isSome_iff_exists.mp (hfits.readable c hc n hn)
    rw [frameAt_getD hc, ← hahead c n hc (Nat.le_refl _), hy]
    rfl
  obtain ⟨ring, after, hrun, hsound, hplayed⟩ := frame_spec hstate.sound hfits hn hx
  refine ⟨s.next ring, after, hrun, rfl, hprocessed, ?_, hfits.after hplayed.others, ?_, ?_⟩
  · rw [framesOf_succ, List.map_append, ← List.append_assoc]
    exact hstate.next hsound
  · intro c j hc hj
    rw [load_congr, hahead c j hc (by omega)]
    intro p hp
    apply hplayed.others.kept
    rintro ⟨rfl, -⟩
    omega
  · have hbefore : framesOf after out s.channels n = framesOf now out s.channels n := by
      apply List.map_congr_left
      intro j hj
      apply frameAt_congr
      intro c hc
      apply load_congr
      intro p hp
      apply hplayed.others.kept
      rintro ⟨rfl, -⟩
      exact absurd (List.mem_range.mp hj) (Nat.lt_irrefl _)
    have hhere : frameAt after out s.channels n = (List.range s.channels).map
        ((settingAfter maximum (es ++ (framesOf mem input s.channels n).map .frame)).output
          (inputs (es ++ (framesOf mem input s.channels n).map .frame)) x) := by
      apply List.map_congr_left
      intro c hc
      rw [hplayed.here c (List.mem_range.mp hc), ← hstate.mixed x c]
      rfl
    rw [framesOf_succ, framesOf_succ, hbefore, hheard, hhere, List.map_append, outputs_append]
    rfl

theorem process_spec {maximum : ℕ} {es : List Event} {s : DelayLine} {mem : Memory}
    {input out : Block} (state : Matches maximum es s)
    (heard : s.processed = (settingAfter maximum es).heard)
    (fits : Fits s.channels mem input out) :
    ∃ s' after, process s mem input out = some (s', after) ∧ s'.channels = s.channels ∧
      Matches maximum (es ++ (framesOf mem input s.channels input.frames).map .frame) s' ∧
      s'.processed = (settingAfter maximum
        (es ++ (framesOf mem input s.channels input.frames).map .frame)).heard ∧
      framesOf after out s.channels input.frames = outputs s.channels maximum es
        ((framesOf mem input s.channels input.frames).map .frame) := by
  have hloop : ∀ n, n ≤ input.frames → ∃ s' after, (List.range n).foldlM (frame input out)
        ({ s with processed := decide (0 < input.frames) || s.processed }, mem) =
          some (s', after) ∧
      Running s.channels maximum es (decide (0 < input.frames) || s.processed) mem input out n
        s' after := by
    intro n
    induction n with
    | zero =>
      intro _
      refine ⟨_, mem, rfl, rfl, rfl, ?_, fits, fun _ _ _ _ => rfl, rfl⟩
      obtain ⟨hsize, ⟨hlength, hholds, hpos, hdelay, hold⟩, hd, ho, hf⟩ := state
      simpa [framesOf] using
        (⟨hsize, ⟨hlength, hholds, hpos, hdelay, hold⟩, hd, ho, hf⟩ : Matches maximum es
          { s with processed := decide (0 < input.frames) || s.processed })
    | succ n ih =>
      intro hn
      obtain ⟨s', between, hrun, hrunning⟩ := ih (by omega)
      obtain ⟨s'', after, hframe, hnext⟩ := hrunning.frame (by omega)
      refine ⟨s'', after, ?_, hnext⟩
      rw [List.range_succ, List.foldlM_append, hrun]
      simpa using hframe
  obtain ⟨s', after, hrun, hrunning⟩ := hloop input.frames (Nat.le_refl _)
  refine ⟨s', after, hrun, hrunning.channels_eq, hrunning.state, ?_, hrunning.heard⟩
  rw [hrunning.processed_eq, heard_frames, heard]
  simp [framesOf]

theorem new_matches (channels maximum : ℕ) : Matches maximum [] (new channels maximum) := by
  refine ⟨rfl, ⟨by simp [new], ?_, Nat.succ_pos _, Nat.succ_pos _, Nat.succ_pos _⟩, rfl, rfl, rfl⟩
  intro c hc
  apply holds_start (Nat.succ_pos _)
  intro i hi
  have hplace : c * (maximum + 1) + i < channels * (maximum + 1) := row_lt hi hc
  simp [channelRing, new, hplace]

/-- A run never leaves the ring or a plane, and its output is the mix its changes and frames
call for. -/
theorem run_spec {maximum : ℕ} {es : List Event} {s : DelayLine} (calls : List Call)
    (fits : ∀ call ∈ calls, call.Fits s.channels) (state : Matches maximum es s)
    (heard : s.processed = (settingAfter maximum es).heard) :
    ∃ last, run s calls =
      some (last, outputs s.channels maximum es (events s.channels calls)) := by
  induction calls generalizing s es with
  | nil => exact ⟨s, rfl⟩
  | cons call calls ih =>
    have hrest := fun c hc => fits c (List.mem_cons_of_mem _ hc)
    have hcall := fits call List.mem_cons_self
    cases call with
    | setDelayFrames frames =>
      have hchannels : (setDelayFrames s frames).channels = s.channels := by
        simp only [setDelayFrames]
        split_ifs <;> rfl
      obtain ⟨hnext, hprocessed⟩ := state.change heard frames
      obtain ⟨last, hrun⟩ := ih (by rwa [hchannels]) hnext hprocessed
      refine ⟨last, ?_⟩
      rw [run, hrun, hchannels]
      rfl
    | process mem input out =>
      obtain ⟨s', after, hprocess, hchannels, hnext, hprocessed, hheard⟩ :=
        process_spec state heard hcall
      obtain ⟨last, hrun⟩ := ih (by rwa [hchannels]) hnext hprocessed
      refine ⟨last, ?_⟩
      simp only [run, hprocess, Option.bind_eq_bind, Option.bind_some, hrun, hchannels, hheard]
      rw [events_cons, outputs_append]
      rfl

theorem run_new {channels maximum : ℕ} {calls : List Call}
    (fits : ∀ call ∈ calls, call.Fits channels) :
    ∃ last, run (new channels maximum) calls =
      some (last, outputs channels maximum [] (events channels calls)) :=
  @run_spec _ _ (new channels maximum) calls fits (new_matches channels maximum) rfl

/-! ### What the mixes are -/

/-- A change to another delay, once something was heard. -/
def Changes (maximum : ℕ) (before : List Event) (frames : ℤ) : Prop :=
  inputs before ≠ [] ∧ clamp frames maximum ≠ (settingAfter maximum before).delay

theorem heard_iff (maximum : ℕ) (es : List Event) :
    (settingAfter maximum es).heard = true ↔ inputs es ≠ [] := by
  induction es using List.reverseRecOn with
  | nil => simp [settingAfter, inputs]
  | append_singleton es e ih =>
    cases e with
    | frame x => simp [Setting.next]
    | change frames =>
      rw [settingAfter_concat, inputs_append, inputs_change, List.append_nil, ← ih]
      simp only [Setting.next]
      split_ifs <;> rfl

theorem heard_of_since {maximum n : ℕ} {es : List Event}
    (h : (settingAfter maximum es).since = some n) : (settingAfter maximum es).heard = true := by
  induction es using List.reverseRecOn generalizing n with
  | nil => simp [settingAfter] at h
  | append_singleton es e ih =>
    rw [settingAfter_concat] at h ⊢
    cases e with
    | frame x => rfl
    | change frames =>
      simp only [Setting.next] at h ⊢
      split at h
      · rw [if_pos ‹_›]
        exact ih h
      · rw [if_neg ‹_›]
        split at h
        · rw [if_pos ‹_›]
          assumption
        · cases h

theorem settingAfter_change {maximum : ℕ} {before : List Event} {frames : ℤ}
    (h : Changes maximum before frames) (xs : List (List ℚ)) :
    settingAfter maximum (before ++ [.change frames] ++ xs.map .frame) =
      ⟨(settingAfter maximum before).delay, clamp frames maximum, some xs.length, true⟩ := by
  have hheard := (heard_iff maximum before).mpr h.1
  induction xs using List.reverseRecOn with
  | nil => simp [Setting.next, h.2, hheard]
  | append_singleton xs x ih =>
    rw [List.map_append, ← List.append_assoc, List.map_singleton, settingAfter_concat, ih]
    simp [Setting.next]

/-- With its fade over a change is all that is heard. -/
theorem output_settled {k : Setting} (hover : ∀ n, k.since = some n → fadeFrames ≤ n)
    (heard : List (List ℚ)) (x : List ℚ) (c : ℕ) :
    k.output heard x c = delayed (heard ++ [x]) c heard.length k.delay := by
  have hweight : k.weight = 1 := by
    rw [Setting.weight]
    cases hsince : k.since with
    | none => rfl
    | some n =>
      have hlong : (1 : ℚ) ≤ n / fadeFrames := by
        rw [one_le_div (by norm_num [fadeFrames])]
        exact_mod_cast hover n hsince
      exact min_eq_left hlong
  rw [Setting.output, hweight, mix]
  ring

/-- What a change made `n` frames into a fade moves the next frame by. -/
theorem output_moved {maximum n : ℕ} {before : List Event} {frames : ℤ}
    (h : Changes maximum before frames) (x : List ℚ) (c : ℕ) (hn : n < fadeFrames)
    (since : (settingAfter maximum before).since = some n) :
    (settingAfter maximum (before ++ [.change frames])).output (inputs before) x c -
        (settingAfter maximum before).output (inputs before) x c =
      (1 - n / fadeFrames) *
        (delayed (inputs before ++ [x]) c (inputs before).length
            (settingAfter maximum before).delay -
          delayed (inputs before ++ [x]) c (inputs before).length
            (settingAfter maximum before).old) := by
  have hafter := settingAfter_change h []
  simp only [List.map_nil, List.append_nil, List.length_nil] at hafter
  have hshort : (n : ℚ) / fadeFrames ≤ 1 := by
    rw [div_le_one (by norm_num [fadeFrames])]
    exact_mod_cast hn.le
  rw [hafter, Setting.output, Setting.output, Setting.weight, Setting.weight, since]
  simp only [Option.elim_some, Nat.cast_zero, zero_div, min_eq_right zero_le_one,
    min_eq_right hshort, mix]
  ring

/-- The delay line delays exactly, in this run. -/
structure Exact (channels maximum : ℕ) (calls : List Call) : Prop where
  heard : ∃ last, run (new channels maximum) calls =
    some (last, outputs channels maximum [] (events channels calls))
  fading : ∀ before frames xs x rest c,
    events channels calls = before ++ [.change frames] ++ xs.map .frame ++ .frame x :: rest →
    Changes maximum before frames →
    (settingAfter maximum (before ++ [.change frames] ++ xs.map .frame)).output
        (inputs before ++ xs) x c =
      mix (min 1 (xs.length / fadeFrames))
        (delayed (inputs before ++ xs ++ [x]) c (inputs before ++ xs).length
          (settingAfter maximum before).delay)
        (delayed (inputs before ++ xs ++ [x]) c (inputs before ++ xs).length
          (clamp frames maximum))
  settled : ∀ before x rest c, events channels calls = before ++ .frame x :: rest →
    (∀ n, (settingAfter maximum before).since = some n → fadeFrames ≤ n) →
    (settingAfter maximum before).output (inputs before) x c =
      delayed (inputs before ++ [x]) c (inputs before).length (settingAfter maximum before).delay
  anyBlocks : ∀ others : List Call, (∀ call ∈ others, call.Fits channels) →
    events channels others = events channels calls →
    (run (new channels maximum) others).map Prod.snd =
      (run (new channels maximum) calls).map Prod.snd
  smooth : ∀ before frames x rest c n,
    events channels calls = before ++ .change frames :: .frame x :: rest → c < channels →
    (settingAfter maximum before).since = some n → n < fadeFrames →
    |(settingAfter maximum (before ++ [.change frames])).output (inputs before) x c -
        (settingAfter maximum before).output (inputs before) x c| ≤
      |delayed (inputs before ++ [x]) c (inputs before).length
          (settingAfter maximum before).delay -
        delayed (inputs before ++ [x]) c (inputs before).length
          (settingAfter maximum before).old| / fadeFrames

/-- Each change to another delay comes with at most one frame of a fade to go, or while both of its
signals are the same. -/
def ChangesLate (channels maximum : ℕ) (calls : List Call) : Prop :=
  ∀ before frames x rest c n,
    events channels calls = before ++ .change frames :: .frame x :: rest → c < channels →
    (settingAfter maximum before).since = some n → n < fadeFrames →
    clamp frames maximum ≠ (settingAfter maximum before).delay →
    fadeFrames ≤ n + 1 ∨
      delayed (inputs before ++ [x]) c (inputs before).length (settingAfter maximum before).delay =
        delayed (inputs before ++ [x]) c (inputs before).length (settingAfter maximum before).old

theorem moved_iff {n : ℕ} (hn : n < fadeFrames) (d : ℚ) :
    |(1 - n / fadeFrames) * d| ≤ |d| / fadeFrames ↔ fadeFrames ≤ n + 1 ∨ d = 0 := by
  have hlength : (0 : ℚ) < fadeFrames := by norm_num [fadeFrames]
  have hcast : (n : ℚ) < fadeFrames := by exact_mod_cast hn
  have hleft : (0 : ℚ) ≤ 1 - n / fadeFrames := by
    rw [sub_nonneg, div_le_one hlength]
    exact hcast.le
  have hstep : (1 : ℚ) - n / fadeFrames ≤ 1 / fadeFrames ↔ fadeFrames ≤ n + 1 := by
    rw [sub_le_iff_le_add, ← add_div, le_div_iff₀ hlength, one_mul, add_comm]
    exact_mod_cast Iff.rfl
  rw [abs_mul, abs_of_nonneg hleft]
  by_cases hd : d = 0
  · simp [hd]
  · have hpos : 0 < |d| := abs_pos.mpr hd
    rw [or_iff_left hd, ← hstep, div_eq_mul_one_div |d|, mul_comm |d|]
    exact mul_le_mul_iff_of_pos_right hpos

/-- The start of a fade from one signal to the other, and the jump of a change in it. -/
theorem smooth_iff {maximum n : ℕ} {before : List Event} (frames : ℤ) (x : List ℚ) (c : ℕ)
    (since : (settingAfter maximum before).since = some n) (hn : n < fadeFrames) :
    |(settingAfter maximum (before ++ [.change frames])).output (inputs before) x c -
        (settingAfter maximum before).output (inputs before) x c| ≤
      |delayed (inputs before ++ [x]) c (inputs before).length
          (settingAfter maximum before).delay -
        delayed (inputs before ++ [x]) c (inputs before).length
          (settingAfter maximum before).old| / fadeFrames ↔
    (clamp frames maximum ≠ (settingAfter maximum before).delay → fadeFrames ≤ n + 1 ∨
      delayed (inputs before ++ [x]) c (inputs before).length (settingAfter maximum before).delay =
        delayed (inputs before ++ [x]) c (inputs before).length
          (settingAfter maximum before).old) := by
  by_cases hsame : clamp frames maximum = (settingAfter maximum before).delay
  · have hkept :
        settingAfter maximum (before ++ [.change frames]) = settingAfter maximum before := by
      rw [settingAfter_concat, Setting.next, if_pos hsame]
    rw [hkept, sub_self, abs_zero]
    simp only [hsame, ne_eq, not_true_eq_false, false_implies, iff_true]
    positivity
  · have hchanges : Changes maximum before frames :=
      ⟨(heard_iff maximum before).mp (heard_of_since since), hsame⟩
    rw [output_moved hchanges x c hn since, moved_iff hn, sub_eq_zero]
    simp [hsame]

def oneFrame (x : ℚ) : Call := .process [[x]] ⟨1, [0]⟩ ⟨1, [0]⟩

theorem oneFrame_fits (x : ℚ) : (oneFrame x).Fits 1 := by
  refine ⟨?_, ?_, ?_, .inl rfl⟩
  · intro c hc n hn
    obtain rfl : c = 0 := by omega
    obtain rfl : n = 0 := Nat.lt_one_iff.mp hn
    rfl
  · intro c hc n hn
    obtain rfl : c = 0 := by omega
    obtain rfl : n = 0 := Nat.lt_one_iff.mp hn
    rfl
  · intro c d hc hd _
    omega

theorem change_fits (frames : ℤ) : (Call.setDelayFrames frames).Fits 1 := trivial

/-- A delay of one frame that is taken back after one frame of its fade. -/
def takenBack : List Call :=
  [oneFrame 0, .setDelayFrames 1, oneFrame 480, .setDelayFrames 0, oneFrame 0]

theorem takenBack_fits : ∀ call ∈ takenBack, call.Fits 1 := by
  simp [takenBack, oneFrame_fits, change_fits]

end NdimonR.Decoder.DelayLine
