import Mathlib.Algebra.Group.Action.Defs
import Mathlib.Algebra.Order.BigOperators.Group.Finset
import NdimonR.Display.DelayedFrameQueue

/-! A delayed frame queue is a bounded first-in-first-out delay, and the queues that delay stay
within their budget as long as each has adjusted to its share. -/

namespace NdimonR.Display

variable {ι F : Type} {overflow : ℚ → Int}

namespace DelayedFrameQueue

/-- What every adjustment starts from. -/
structure Limits (q : DelayedFrameQueue F) : Prop where
  maximum : 2 ≤ q.maximum ∧ q.maximum ≤ 600
  requested : 0 ≤ q.requested ∧ q.requested ≤ 5000
  frameBytes : 0 < q.frameBytes

/-- What holds of a queue between the calls. -/
structure Bounded (q : DelayedFrameQueue F) : Prop extends Limits q where
  size : q.size ≤ q.depth
  depth : 2 ≤ q.depth ∧ q.depth ≤ q.maximum
  delay : q.delay ≤ q.requested

theorem bounded_resize {q : DelayedFrameQueue F} (h : q.Limits) (interval : ℚ) :
    (q.resize overflow interval).Bounded where
  maximum := h.maximum
  requested := h.requested
  frameBytes := h.frameBytes
  size := by
    simp only [resize, size, List.length_drop]
    omega
  depth := by
    have hmax := h.maximum
    simp only [resize]
    omega
  delay := min_le_left _ _

theorem suffix_resize (q : DelayedFrameQueue F) (interval : ℚ) :
    (q.resize overflow interval).queue <:+ q.queue :=
  List.drop_suffix _ _

theorem limits_smooth {q : DelayedFrameQueue F} (h : q.Limits) (interval : ℚ) :
    (q.smooth interval).Limits :=
  ⟨h.maximum, h.requested, h.frameBytes⟩

theorem limits_request {q : DelayedFrameQueue F} (h : q.Limits) (ms fpsNum fpsDen : Int) :
    (q.request ms fpsNum fpsDen).Limits := by
  have hrequested : 0 ≤ max 0 (min ms 5000) ∧ max 0 (min ms 5000) ≤ 5000 := by omega
  unfold request
  split
  · exact ⟨h.maximum, hrequested, h.frameBytes⟩
  · exact ⟨h.maximum, hrequested, h.frameBytes⟩

theorem queue_request (q : DelayedFrameQueue F) (ms fpsNum fpsDen : Int) :
    (q.request ms fpsNum fpsDen).queue = q.queue := by
  unfold request
  split <;> rfl

end DelayedFrameQueue

open DelayedFrameQueue

/-! ### The budget -/

namespace VideoDelayBudget

@[simp] theorem entries_enter [DecidableEq ι] {owner : ι} (holding : Holding)
    (b : VideoDelayBudget ι) :
    (b.enter owner holding).entries = Function.update b.entries owner holding := rfl

@[simp] theorem entries_measure [Fintype ι] (available : Option Nat) (b : VideoDelayBudget ι) :
    (b.measure available).entries = b.entries := by
  cases available <;> rfl

variable [Fintype ι] [DecidableEq ι] {owner : ι}

@[simp] theorem entries_share (holding : Holding) (available : Option Nat)
    (b : VideoDelayBudget ι) :
    (b.share owner holding available).2.entries = Function.update b.entries owner holding := by
  simp [share]

theorem share_fst (holding : Holding) (available : Option Nat) (b : VideoDelayBudget ι) :
    (b.share owner holding available).1 = (b.share owner holding available).2.portion := rfl

/-- Entering what a queue holds does not move its share while it delays as before. -/
theorem portion_share_none {holding : Holding} {b : VideoDelayBudget ι}
    (h : (b.entries owner).delayed = holding.delayed) :
    (b.share owner holding none).2.portion = b.portion := by
  have hworkers : (b.enter owner holding).workers = b.workers := by
    unfold workers
    congr 1
    refine Finset.filter_congr fun i _ => ?_
    by_cases hi : i = owner
    · rw [hi, entries_enter, Function.update_self, h]
    · rw [entries_enter, Function.update_of_ne hi]
  change (b.enter owner holding).budget / max 1 (b.enter owner holding).workers = b.portion
  rw [hworkers]
  rfl

end VideoDelayBudget

variable [Fintype ι] [DecidableEq ι] {owner : ι}

/-! ### What a call does to its queue -/

namespace Shared

/-- The limits of a queue are those of its share, so that what it holds fits the share but for
two frames. -/
def Fits (b : VideoDelayBudget ι) (q : DelayedFrameQueue F) : Prop :=
  (q.maximum - 2) * q.frameBytes ≤ b.portion

/-- The entry of the queue says what it holds. -/
def Entered (owner : ι) (s : Shared ι F) : Prop := s.budget.entries owner = s.queue.holding

variable {s : Shared ι F}

@[simp] theorem queue_recordHeld (s : Shared ι F) : (s.recordHeld owner).queue = s.queue := rfl

theorem entered_recordHeld (s : Shared ι F) : (s.recordHeld owner).Entered owner := by
  simp [Entered, recordHeld]

theorem portion_recordHeld (h : (s.budget.entries owner).delayed = decide s.queue.delays) :
    (s.recordHeld owner).budget.portion = s.budget.portion :=
  VideoDelayBudget.portion_share_none h

theorem limits_updateLimit (h : s.queue.Limits) (available : Option Nat) :
    (s.updateLimit owner available).queue.Limits where
  maximum := by
    have hbounds : ∀ n : Nat, 2 ≤ 2 + min 598 n ∧ 2 + min 598 n ≤ 600 := by omega
    exact hbounds _
  requested := h.requested
  frameBytes := h.frameBytes

theorem fits_updateLimit (available : Option Nat) :
    Fits (s.updateLimit owner available).budget (s.updateLimit owner available).queue := by
  have hbounds : ∀ n : Nat, 2 + min 598 n - 2 ≤ n := by omega
  exact le_trans (Nat.mul_le_mul_right _ (hbounds _)) (Nat.div_mul_le_self _ s.queue.frameBytes)

theorem delayed_updateLimit (available : Option Nat) :
    ((s.updateLimit owner available).budget.entries owner).delayed =
      decide (s.updateLimit owner available).queue.delays := by
  simp only [updateLimit, VideoDelayBudget.entries_share, Function.update_self]
  rfl

theorem bounded_resizeDelay (h : s.queue.Limits) (interval : ℚ) :
    (s.resizeDelay overflow owner interval).queue.Bounded :=
  bounded_resize h interval

theorem entered_resizeDelay (interval : ℚ) (s : Shared ι F) :
    (s.resizeDelay overflow owner interval).Entered owner := entered_recordHeld _

/-- A new depth leaves the queue within its share. -/
theorem fits_resizeDelay (h : (s.budget.entries owner).delayed = decide s.queue.delays)
    (hfits : Fits s.budget s.queue) (interval : ℚ) :
    Fits (s.resizeDelay overflow owner interval).budget
      (s.resizeDelay overflow owner interval).queue := by
  have hportion : (s.resizeDelay overflow owner interval).budget.portion = s.budget.portion :=
    portion_recordHeld (s := { s with queue := s.queue.resize overflow interval }) h
  unfold Fits
  rw [hportion]
  exact hfits

/-- The oldest frames are gone and nothing else. -/
structure Trimmed (owner : ι) (s t : Shared ι F) : Prop where
  bounded : t.queue.Bounded
  entered : t.Entered owner
  suffix : t.queue.queue <:+ s.queue.queue

/-- What an adjustment of a queue establishes. -/
structure Adjusted (owner : ι) (s t : Shared ι F) : Prop extends Trimmed owner s t where
  fits : t.queue.delays → Fits t.budget t.queue

theorem adjusted_limit {q : DelayedFrameQueue F} (h : q.Limits) (hq : q.queue = s.queue.queue)
    (available : Option Nat) :
    Adjusted owner s
      (resizeDelay overflow owner 0 (updateLimit owner available ⟨q, s.budget⟩)) where
  bounded := bounded_resizeDelay (limits_updateLimit h available) 0
  entered := entered_resizeDelay 0 _
  suffix := by
    rw [← hq]
    exact suffix_resize _ 0
  fits _ := fits_resizeDelay (delayed_updateLimit available) (fits_updateLimit available) 0

theorem adjusted_setDelayMs (h : s.queue.Limits) (ms fpsNum fpsDen : Int) (available : Nat) :
    Adjusted owner s (s.setDelayMs overflow owner ms fpsNum fpsDen available) :=
  adjusted_limit (limits_request h ms fpsNum fpsDen) (queue_request _ ms fpsNum fpsDen) _

theorem adjusted_setFrameBytesHint (h : s.queue.Limits) {bytes : Nat} {fpsNum fpsDen : Int}
    (hchanged : bytes ≠ s.queue.frameBytes ∨ fpsNum ≠ s.queue.fpsNum ∨ fpsDen ≠ s.queue.fpsDen)
    (available : Nat) :
    Adjusted owner s (s.setFrameBytesHint overflow owner bytes fpsNum fpsDen available) := by
  have hframe : 0 < max 1 bytes := by omega
  have hlimits : Limits { s.queue with frameBytes := max 1 bytes } :=
    ⟨h.maximum, h.requested, hframe⟩
  obtain ⟨⟨hb, he, hs⟩, hf⟩ : Adjusted owner
      { s with queue := { s.queue with frameBytes := max 1 bytes } }
      (setDelayMs overflow owner s.queue.requested fpsNum fpsDen available
        { s with queue := { s.queue with frameBytes := max 1 bytes } }) :=
    adjusted_setDelayMs hlimits s.queue.requested fpsNum fpsDen available
  unfold setFrameBytesHint
  rw [if_pos hchanged]
  exact ⟨⟨hb, he, hs⟩, hf⟩

omit [Fintype ι] [DecidableEq ι] in
theorem trimmed_self (h : s.queue.Bounded) (he : s.Entered owner) : Trimmed owner s s :=
  ⟨h, he, List.suffix_refl _⟩

theorem trimmed_setFrameBytesHint (h : s.queue.Bounded) (he : s.Entered owner) (bytes : Nat)
    (fpsNum fpsDen : Int) (available : Nat) :
    Trimmed owner s (s.setFrameBytesHint overflow owner bytes fpsNum fpsDen available) := by
  by_cases hchanged : bytes ≠ s.queue.frameBytes ∨ fpsNum ≠ s.queue.fpsNum ∨
      fpsDen ≠ s.queue.fpsDen
  · exact (adjusted_setFrameBytesHint h.toLimits hchanged available).toTrimmed
  · unfold setFrameBytesHint
    rw [if_neg hchanged]
    exact trimmed_self h he

theorem adjusted_refresh (h : s.queue.Bounded) (he : s.Entered owner) :
    Adjusted owner s (s.refresh overflow owner) := by
  unfold refresh
  split
  · exact adjusted_limit h.toLimits rfl none
  · rename_i hdelays
    exact ⟨trimmed_self h he, fun hd => absurd hd hdelays⟩

omit [Fintype ι] [DecidableEq ι] in
theorem delayed_of_entered (h : s.Entered owner) :
    (s.budget.entries owner).delayed = decide s.queue.delays := by
  rw [h]
  rfl

theorem adjusted_smooth {t : Shared ι F} (h : Adjusted owner s t) (hdelays : t.queue.delays)
    (last interval : ℚ) :
    Adjusted owner s
      (resizeDelay overflow owner interval { t with queue := t.queue.smooth last }) where
  bounded := bounded_resize (limits_smooth h.bounded.toLimits last) interval
  entered := entered_resizeDelay interval _
  suffix := (suffix_resize (t.queue.smooth last) interval).trans h.suffix
  fits _ := fits_resizeDelay (s := { t with queue := t.queue.smooth last })
    (delayed_of_entered h.entered) (h.fits hdelays) interval

theorem adjusted_adapt {t : Shared ι F} (h : Adjusted owner s t) (hdelays : t.queue.delays)
    (nowUs : Int) : Adjusted owner s (t.adapt overflow owner nowUs) := by
  unfold adapt
  split
  · exact h
  · split
    · exact adjusted_smooth h hdelays _ _
    · exact h

theorem adjusted_pace {t : Shared ι F} (h : Adjusted owner s t) (nowUs : Int) :
    Adjusted owner s (t.pace overflow owner nowUs) := by
  unfold pace
  split
  · rename_i hdelays
    obtain ⟨⟨hb, he, hs⟩, hf⟩ : Adjusted owner s (t.adapt overflow owner nowUs) :=
      adjusted_adapt h hdelays nowUs
    exact ⟨⟨⟨⟨hb.maximum, hb.requested, hb.frameBytes⟩, hb.size, hb.depth, hb.delay⟩, he, hs⟩, hf⟩
  · exact h

/-- What a push appends to. -/
structure Appended (owner : ι) (e : Entry F) (s : Shared ι F) (r : Bool × Shared ι F) : Prop where
  bounded : r.2.queue.Bounded
  entered : r.2.Entered owner
  frames : ∃ front rest, s.queue.queue = front ++ rest ∧ r.2.queue.queue = rest ++ [e] ∧
    (r.1 = false → front ≠ [])
  fits : r.2.queue.delays → Fits r.2.budget r.2.queue

theorem appended_append (h : s.queue.Bounded) (he : s.Entered owner)
    (hfits : s.queue.delays → Fits s.budget s.queue) (frame : F) (nowUs : Int) :
    Appended owner ⟨frame, nowUs⟩ s (s.append owner frame nowUs) := by
  have hdepth := h.depth
  have hsize := h.size
  have hrecord : ∀ q : DelayedFrameQueue F, q.requested = s.queue.requested →
      q.maximum = s.queue.maximum → q.frameBytes = s.queue.frameBytes → q.delays →
      Fits (recordHeld owner { s with queue := q }).budget q := by
    intro q hr hm hf hdelays
    have hsame : s.queue.delays ↔ q.delays := by
      unfold delays
      rw [hr]
    have hportion : (recordHeld owner { s with queue := q }).budget.portion = s.budget.portion :=
      portion_recordHeld (s := { s with queue := q })
        ((delayed_of_entered he).trans (decide_eq_decide.mpr hsame))
    unfold Fits
    rw [hportion, hm, hf]
    exact hfits (hsame.mpr hdelays)
  unfold append
  split
  · omega
  · by_cases hfull : s.queue.depth ≤ s.queue.size
    · simp only [hfull, decide_true, if_true]
      obtain ⟨first, rest, hqueue⟩ : ∃ first rest, s.queue.queue = first :: rest := by
        cases hq : s.queue.queue with
        | nil =>
          rw [size, hq] at hfull
          simp at hfull
          omega
        | cons first rest => exact ⟨first, rest, rfl⟩
      refine ⟨⟨⟨h.maximum, h.requested, h.frameBytes⟩, ?_, h.depth, h.delay⟩,
        entered_recordHeld _, ⟨[first], rest, hqueue, ?_, ?_⟩, hrecord _ rfl rfl rfl⟩
      · simp only [size, queue_recordHeld, List.length_append, List.length_tail,
          List.length_singleton] at hsize ⊢
        rw [hqueue] at hsize ⊢
        simpa using hsize
      · simp [hqueue]
      · intro _
        exact List.cons_ne_nil _ _
    · simp only [hfull, decide_false]
      refine ⟨⟨⟨h.maximum, h.requested, h.frameBytes⟩, ?_, h.depth, h.delay⟩,
        entered_recordHeld _, ⟨[], s.queue.queue, rfl, rfl, nofun⟩, hrecord _ rfl rfl rfl⟩
      simp only [size] at hfull
      simp only [size, queue_recordHeld, List.length_append, List.length_singleton]
      simp
      omega

theorem appended_push (h : s.queue.Bounded) (he : s.Entered owner) (frame : F) (nowUs : Int) :
    Appended owner ⟨frame, nowUs⟩ s (s.push overflow owner frame nowUs) := by
  have hadjusted : Adjusted owner s ((s.refresh overflow owner).pace overflow owner nowUs) :=
    adjusted_pace (adjusted_refresh h he) nowUs
  obtain ⟨hb, hentered, ⟨front, rest, hqueue, hnew, hfalse⟩, hfits⟩ :=
    appended_append hadjusted.bounded hadjusted.entered hadjusted.fits frame nowUs
  obtain ⟨gone, hgone⟩ := hadjusted.suffix
  refine ⟨hb, hentered, ⟨gone ++ front, rest, ?_, hnew, ?_⟩, hfits⟩
  · rw [List.append_assoc, ← hqueue, hgone]
  · intro hr hnil
    exact hfalse hr (List.append_eq_nil_iff.mp hnil).2

theorem popDue_spec (h : s.queue.Bounded) (he : s.Entered owner) (nowUs : Int) :
    (s.popDue owner nowUs).2.queue.Bounded ∧ (s.popDue owner nowUs).2.Entered owner ∧
      s.queue.queue = World.leaves owner s (.popDue nowUs) ++
        (s.popDue owner nowUs).2.queue.queue := by
  unfold World.leaves
  cases hq : s.queue.queue with
  | nil =>
    have hrun : s.popDue owner nowUs = (none, s) := by
      unfold popDue
      rw [hq]
    rw [hrun]
    exact ⟨h, he, by simp [hq]⟩
  | cons first rest =>
    by_cases hwait : 0 < s.queue.delay ∧ nowUs < s.queue.nextDueUs
    · have hrun : s.popDue owner nowUs = (none, s) := by
        unfold popDue
        rw [hq]
        exact if_pos hwait
      rw [hrun]
      exact ⟨h, he, by simp [hq, hrun]⟩
    · have hrun : s.popDue owner nowUs = (some first.frame,
          recordHeld owner { s with queue := { s.queue with queue := rest } }) := by
        unfold popDue
        rw [hq]
        exact if_neg hwait
      simp only [hrun]
      refine ⟨⟨⟨h.maximum, h.requested, h.frameBytes⟩, ?_, h.depth, h.delay⟩,
        entered_recordHeld _, by simp⟩
      have hsize := h.size
      rw [size, hq, List.length_cons] at hsize
      exact Nat.le_of_succ_le hsize

/-- What a call leaves in its queue: frames go from the front, first the one that leaves. -/
structure Served (owner : ι) (c : Call F) (s t : Shared ι F) : Prop where
  bounded : t.queue.Bounded
  entered : t.Entered owner
  frames : ∃ front rest, s.queue.queue = front ++ rest ∧
    t.queue.queue = rest ++ World.pushes c ∧ (World.leaves owner s c).Sublist front

theorem served_of_trimmed {t : Shared ι F} {c : Call F} (h : Trimmed owner s t)
    (hpush : World.pushes c = []) (hleave : World.leaves owner s c = []) : Served owner c s t := by
  obtain ⟨front, hfront⟩ := h.suffix
  refine ⟨h.bounded, h.entered, front, t.queue.queue, hfront.symm, ?_, ?_⟩
  · rw [hpush, List.append_nil]
  · rw [hleave]
    exact List.nil_sublist _

omit [Fintype ι] [DecidableEq ι] in
theorem trimmed_acceptFrameTimestamp (h : s.queue.Bounded) (he : s.Entered owner)
    (timestamp : Int) (framesync : Bool) :
    Trimmed owner s
      { s with queue := (s.queue.acceptFrameTimestamp timestamp framesync).2 } := by
  unfold acceptFrameTimestamp
  split
  · exact trimmed_self h he
  · split
    · exact ⟨⟨⟨h.maximum, h.requested, h.frameBytes⟩, h.size, h.depth, h.delay⟩, he,
        List.suffix_refl _⟩
    · exact trimmed_self h he

theorem served_run (h : s.queue.Bounded) (he : s.Entered owner) (c : Call F) :
    Served owner c s (c.run overflow owner s) := by
  cases c with
  | push frame nowUs =>
    obtain ⟨hb, hentered, ⟨front, rest, hqueue, hnew, _⟩, _⟩ :
        Appended owner ⟨frame, nowUs⟩ s (s.push overflow owner frame nowUs) :=
      appended_push h he frame nowUs
    exact ⟨hb, hentered, front, rest, hqueue, hnew, List.nil_sublist _⟩
  | popDue nowUs =>
    obtain ⟨hb, hentered, hqueue⟩ := popDue_spec h he nowUs
    exact ⟨hb, hentered, _, _, hqueue, by simp [Call.run, World.pushes], List.Sublist.refl _⟩
  | setDelayMs ms num den available =>
    exact served_of_trimmed (adjusted_setDelayMs h.toLimits ms num den available).toTrimmed rfl rfl
  | setFrameBytesHint bytes num den available =>
    exact served_of_trimmed (trimmed_setFrameBytesHint h he bytes num den available) rfl rfl
  | acceptFrameTimestamp timestamp framesync =>
    exact served_of_trimmed (trimmed_acceptFrameTimestamp h he timestamp framesync) rfl rfl
  | clear =>
    refine ⟨⟨⟨h.maximum, h.requested, h.frameBytes⟩, ?_, h.depth, h.delay⟩,
      entered_recordHeld _, s.queue.queue, [], (List.append_nil _).symm, rfl, List.nil_sublist _⟩
    exact Nat.zero_le _

section Others

variable {i : ι} (hi : i ≠ owner)

include hi

theorem entries_recordHeld (s : Shared ι F) :
    (s.recordHeld owner).budget.entries i = s.budget.entries i := by
  simp [recordHeld, hi]

theorem entries_updateLimit (s : Shared ι F) (available : Option Nat) :
    (s.updateLimit owner available).budget.entries i = s.budget.entries i := by
  simp [updateLimit, hi]

theorem entries_resizeDelay (s : Shared ι F) (interval : ℚ) :
    (s.resizeDelay overflow owner interval).budget.entries i = s.budget.entries i :=
  entries_recordHeld hi _

theorem entries_setDelayMs (s : Shared ι F) (ms fpsNum fpsDen : Int) (available : Nat) :
    (s.setDelayMs overflow owner ms fpsNum fpsDen available).budget.entries i =
      s.budget.entries i :=
  (entries_resizeDelay hi _ 0).trans (entries_updateLimit hi _ _)

theorem entries_refresh (s : Shared ι F) :
    (s.refresh overflow owner).budget.entries i = s.budget.entries i := by
  unfold refresh
  split
  · exact (entries_resizeDelay hi _ 0).trans (entries_updateLimit hi _ _)
  · rfl

theorem entries_pace (s : Shared ι F) (nowUs : Int) :
    (s.pace overflow owner nowUs).budget.entries i = s.budget.entries i := by
  have hadapt : (s.adapt overflow owner nowUs).budget.entries i = s.budget.entries i := by
    unfold adapt
    split
    · rfl
    · split
      · exact entries_resizeDelay hi _ _
      · rfl
  unfold pace
  split
  · exact hadapt
  · rfl

/-- A call enters its own queue only. -/
theorem entries_run (s : Shared ι F) (c : Call F) :
    (c.run overflow owner s).budget.entries i = s.budget.entries i := by
  cases c with
  | push frame nowUs =>
    have hlimits : ((s.refresh overflow owner).pace overflow owner nowUs).budget.entries i =
        s.budget.entries i := (entries_pace hi _ nowUs).trans (entries_refresh hi s)
    refine Eq.trans ?_ hlimits
    simp only [Call.run, push, append]
    split
    · rfl
    · exact entries_recordHeld hi _
  | popDue nowUs =>
    simp only [Call.run, popDue]
    split
    · rfl
    · split
      · rfl
      · exact entries_recordHeld hi _
  | setDelayMs ms num den available => exact entries_setDelayMs hi s ms num den available
  | setFrameBytesHint bytes num den available =>
    simp only [Call.run, setFrameBytesHint]
    split
    · exact entries_setDelayMs hi _ _ _ _ _
    · rfl
  | acceptFrameTimestamp timestamp framesync => rfl
  | clear => exact entries_recordHeld hi _

end Others

end Shared

/-! ### Every run -/

namespace World

/-- What holds of one queue of a run. -/
structure Kept (w : World ι F) (i : ι) : Prop where
  bounded : (w.queues i).Bounded
  entered : (w.view i).Entered i
  past : ∀ e ∈ (w.queues i).queue, e.enqueuedUs ≤ w.clock
  history : ∃ gone, w.pushed i = gone ++ (w.queues i).queue ∧ (w.popped i).Sublist gone

theorem kept_step {w : World ι F} (h : ∀ i, w.Kept i) (owner : ι) (c : Call F)
    (htime : ∀ t, c.time = some t → w.clock ≤ t) (i : ι) :
    (w.step overflow owner c).Kept i := by
  have hclock : w.clock ≤ (w.step overflow owner c).clock := by
    cases ht : c.time with
    | none => simp [step, ht]
    | some t => simpa [step, ht] using htime t ht
  by_cases hi : i = owner
  · subst hi
    obtain ⟨hb, he, hpast, gone, hgone, hpopped⟩ := h i
    obtain ⟨hb', he', front, rest, hqueue, hnew, hleft⟩ :
        Shared.Served i c (w.view i) (c.run overflow i (w.view i)) := Shared.served_run hb he c
    have hqueue' : (w.queues i).queue = front ++ rest := hqueue
    refine ⟨?_, ?_, ?_, gone ++ front, ?_, ?_⟩
    · simpa [step] using hb'
    · simpa [step, view, Shared.Entered] using he'
    · intro e hmem
      have hmem' : e ∈ rest ++ pushes c := by simpa [step, hnew] using hmem
      rcases List.mem_append.mp hmem' with hold | hnew'
      · exact le_trans (hpast e (hqueue' ▸ List.mem_append_right _ hold)) hclock
      · cases c <;> simp [pushes] at hnew'
        simp [step, Call.time, hnew']
    · simp [step, hgone, hqueue', hnew]
    · simpa [step] using hpopped.append hleft
  · obtain ⟨hb, he, hpast, hhistory⟩ := h i
    have hqueue : (w.step overflow owner c).queues i = w.queues i := by simp [step, hi]
    refine ⟨?_, ?_, ?_, ?_⟩
    · rw [hqueue]
      exact hb
    · have hentries : (c.run overflow owner (w.view owner)).budget.entries i =
          w.budget.entries i := Shared.entries_run hi (w.view owner) c
      unfold Shared.Entered at he ⊢
      simp only [view, hqueue]
      exact hentries.trans he
    · intro e hmem
      rw [hqueue] at hmem
      exact le_trans (hpast e hmem) hclock
    · simpa [step, hi] using hhistory

theorem kept_of_reached {w : World ι F} (h : w.Reached overflow) (i : ι) : w.Kept i := by
  induction h generalizing i with
  | start hints clock =>
    refine ⟨⟨⟨by simp [start], by simp [start], ?_⟩, by simp [start, size], by simp [start],
      by simp [start]⟩, ?_, ?_, [], ?_, List.Sublist.refl _⟩
    · show 0 < max 1 (hints i)
      omega
    · simp [Shared.Entered, view, start, holding, bytes, size, delays]
    · exact nofun
    · rfl
  | step owner c _ htime ih => exact kept_step ih owner c htime i

/-- The first frame is given out no earlier than its delay; times do not go back. -/
theorem due_of_popDue {w : World ι F} {i : ι} (h : w.Kept i) {nowUs : Int} {frame : F}
    (hclock : w.clock ≤ nowUs) (hpop : ((w.view i).popDue i nowUs).1 = some frame) :
    ∃ e rest, (w.queues i).queue = e :: rest ∧ e.frame = frame ∧
      e.enqueuedUs + (w.queues i).delay * 1000 ≤ nowUs := by
  cases hq : (w.view i).queue.queue with
  | nil =>
    simp only [Shared.popDue, hq] at hpop
    cases hpop
  | cons first rest =>
    have hpast := h.past first (by rw [show (w.queues i).queue = first :: rest from hq]; simp)
    simp only [Shared.popDue, hq] at hpop
    split at hpop
    · cases hpop
    · rename_i hdue
      have hnext : (w.view i).queue.nextDueUs = first.enqueuedUs + (w.queues i).delay * 1000 := by
        rw [nextDueUs, hq]
        rfl
      rw [hnext] at hdue
      refine ⟨first, rest, hq, Option.some.inj hpop, ?_⟩
      change ¬ (0 < (w.queues i).delay ∧ _) at hdue
      omega

omit [DecidableEq ι] in
theorem bytes_le {b : VideoDelayBudget ι} {q : DelayedFrameQueue F} (hb : q.Bounded)
    (hfits : Shared.Fits b q) : q.bytes ≤ b.portion + 2 * q.frameBytes := by
  have hsize : q.size ≤ q.maximum - 2 + 2 := by
    have := hb.size
    have := hb.depth
    omega
  calc q.bytes ≤ (q.maximum - 2 + 2) * q.frameBytes := Nat.mul_le_mul_right _ hsize
    _ = (q.maximum - 2) * q.frameBytes + 2 * q.frameBytes := Nat.add_mul _ _ _
    _ ≤ b.portion + 2 * q.frameBytes := Nat.add_le_add_right hfits _

/-- The queues that delay. -/
def delaying (w : World ι F) : Finset ι := Finset.univ.filter fun i => (w.queues i).delays

omit [DecidableEq ι] in
theorem workers_eq {w : World ι F} (h : ∀ i, w.Kept i) : w.budget.workers = w.delaying.card := by
  unfold VideoDelayBudget.workers delaying
  congr 1
  refine Finset.filter_congr fun i _ => ?_
  have hentry : (w.budget.entries i).delayed = decide (w.queues i).delays :=
    Shared.delayed_of_entered (h i).entered
  rw [hentry]
  exact decide_eq_true_iff

omit [DecidableEq ι] in
theorem total_le {w : World ι F} (h : ∀ i, w.Kept i)
    (hfits : ∀ i ∈ w.delaying, Shared.Fits w.budget (w.queues i)) :
    ∑ i ∈ w.delaying, (w.queues i).bytes ≤
      w.budget.budget + ∑ i ∈ w.delaying, 2 * (w.queues i).frameBytes := by
  have hportions : w.delaying.card * w.budget.portion ≤ w.budget.budget := by
    rw [← workers_eq h, VideoDelayBudget.portion]
    refine le_trans (Nat.mul_le_mul_right _ (le_max_right 1 _)) ?_
    exact Nat.mul_div_le _ _
  calc ∑ i ∈ w.delaying, (w.queues i).bytes
      ≤ ∑ i ∈ w.delaying, (w.budget.portion + 2 * (w.queues i).frameBytes) :=
        Finset.sum_le_sum fun i hi => bytes_le (h i).bounded (hfits i hi)
    _ = w.delaying.card * w.budget.portion + ∑ i ∈ w.delaying, 2 * (w.queues i).frameBytes := by
        rw [Finset.sum_add_distrib, Finset.sum_const, smul_eq_mul]
    _ ≤ _ := Nat.add_le_add_right hportions _

/-- A bounded delay, first in first out, whose memory follows the shared budget: a queue adjusts
to its share with each of its pushes and settings. -/
structure BoundedDelay (overflow : ℚ → Int) (w : World ι F) : Prop where
  fifo : ∀ i, ∃ gone, w.pushed i = gone ++ (w.queues i).queue ∧ (w.popped i).Sublist gone
  due : ∀ i nowUs frame, w.clock ≤ nowUs → ((w.view i).popDue i nowUs).1 = some frame →
    ∃ e rest, (w.queues i).queue = e :: rest ∧ e.frame = frame ∧
      e.enqueuedUs + (w.queues i).delay * 1000 ≤ nowUs
  size : ∀ i, (w.queues i).size ≤ (w.queues i).depth
  depth : ∀ i, 2 ≤ (w.queues i).depth ∧ (w.queues i).depth ≤ (w.queues i).maximum
  maximum : ∀ i, 2 ≤ (w.queues i).maximum ∧ (w.queues i).maximum ≤ 600
  delay : ∀ i, (w.queues i).delay ≤ (w.queues i).requested
  requested : ∀ i, 0 ≤ (w.queues i).requested ∧ (w.queues i).requested ≤ 5000
  dropped : ∀ i frame nowUs, ((w.view i).push overflow i frame nowUs).1 = false →
    ∃ front rest, (w.queues i).queue = front ++ rest ∧ front ≠ [] ∧
      ((w.view i).push overflow i frame nowUs).2.queue.queue = rest ++ [⟨frame, nowUs⟩]
  pushed : ∀ i frame nowUs, ((w.view i).push overflow i frame nowUs).2.queue.delays →
    Shared.Fits ((w.view i).push overflow i frame nowUs).2.budget
      ((w.view i).push overflow i frame nowUs).2.queue
  set : ∀ i ms num den available,
    ((w.view i).setDelayMs overflow i ms num den available).queue.delays →
      Shared.Fits ((w.view i).setDelayMs overflow i ms num den available).budget
        ((w.view i).setDelayMs overflow i ms num den available).queue
  hinted : ∀ i bytes num den available, bytes ≠ (w.queues i).frameBytes ∨
      num ≠ (w.queues i).fpsNum ∨ den ≠ (w.queues i).fpsDen →
    ((w.view i).setFrameBytesHint overflow i bytes num den available).queue.delays →
      Shared.Fits ((w.view i).setFrameBytesHint overflow i bytes num den available).budget
        ((w.view i).setFrameBytesHint overflow i bytes num den available).queue
  share : ∀ i, Shared.Fits w.budget (w.queues i) →
    (w.queues i).bytes ≤ w.budget.portion + 2 * (w.queues i).frameBytes
  total : (∀ i ∈ w.delaying, Shared.Fits w.budget (w.queues i)) →
    ∑ i ∈ w.delaying, (w.queues i).bytes ≤
      w.budget.budget + ∑ i ∈ w.delaying, 2 * (w.queues i).frameBytes

theorem bounded_delay {w : World ι F} (h : w.Reached overflow) : BoundedDelay overflow w where
  fifo i := (kept_of_reached h i).history
  due i _ _ := due_of_popDue (kept_of_reached h i)
  size i := (kept_of_reached h i).bounded.size
  depth i := (kept_of_reached h i).bounded.depth
  maximum i := (kept_of_reached h i).bounded.maximum
  delay i := (kept_of_reached h i).bounded.delay
  requested i := (kept_of_reached h i).bounded.requested
  dropped i frame nowUs hfalse := by
    have hkept := kept_of_reached h i
    obtain ⟨_, _, ⟨front, rest, hqueue, hnew, hdrop⟩, _⟩ : Shared.Appended i ⟨frame, nowUs⟩
        (w.view i) ((w.view i).push overflow i frame nowUs) :=
      Shared.appended_push hkept.bounded hkept.entered frame nowUs
    exact ⟨front, rest, hqueue, hdrop hfalse, hnew⟩
  pushed i frame nowUs :=
    (Shared.appended_push (kept_of_reached h i).bounded (kept_of_reached h i).entered frame
      nowUs).fits
  set i ms num den available :=
    (Shared.adjusted_setDelayMs (kept_of_reached h i).bounded.toLimits ms num den available).fits
  hinted i bytes num den available hchanged :=
    (Shared.adjusted_setFrameBytesHint (kept_of_reached h i).bounded.toLimits hchanged
      available).fits
  share i := bytes_le (kept_of_reached h i).bounded
  total := total_le (kept_of_reached h)

/-- A run of calls, one queue each. -/
def run (overflow : ℚ → Int) (w : World ι F) : List (ι × Call F) → World ι F
  | [] => w
  | (owner, c) :: rest => run overflow (w.step overflow owner c) rest

/-- The times of the calls do not go back. -/
def inOrder (clock : Int) : List (ι × Call F) → Bool
  | [] => true
  | (_, c) :: rest => decide (clock ≤ c.time.getD clock) && inOrder (c.time.getD clock) rest

theorem reached_run {w : World ι F} (h : w.Reached overflow) {calls : List (ι × Call F)}
    (horder : inOrder w.clock calls = true) : (w.run overflow calls).Reached overflow := by
  induction calls generalizing w with
  | nil => exact h
  | cons call rest ih =>
    obtain ⟨owner, c⟩ := call
    simp only [inOrder, Bool.and_eq_true, decide_eq_true_eq] at horder
    refine ih (.step owner c h ?_) horder.2
    intro t ht
    simpa [ht] using horder.1

def pushesAt (owner : ι) (times : List Int) : List (ι × Call Unit) :=
  times.map fun t => (owner, .push () t)

/-- One queue has filled the whole budget when a second begins to delay. -/
def crowded : World (Fin 2) Unit :=
  run (fun _ => 0) { start (fun _ => 1000) with clock := 0 }
    ((0, .setDelayMs 1000 60 1 (reserve + 3000)) :: pushesAt 0 [0, 20000, 40000, 60000, 80000] ++
      (1, .setDelayMs 1000 60 1 (reserve - 2000)) :: pushesAt 1 [80000, 90000, 100000])

/-- Two pushes in a burst, after a regular start. -/
def bursting : World (Fin 2) Unit :=
  run (fun _ => 0) { start (fun _ => 1000) with clock := 0 }
    ((0, .setDelayMs 10 60 1 (reserve + 100000)) :: pushesAt 0 [0, 16667, 33334, 33434])

theorem reached_crowded : crowded.Reached fun _ => 0 :=
  reached_run (.start _ 0) (by decide)

theorem reached_bursting : bursting.Reached fun _ => 0 :=
  reached_run (.start _ 0) (by decide)

/-- The queues that delay may hold more than the budget, and a push that drops a frame may say
that it dropped none. -/
theorem bounded_delay_false :
    (¬ ∀ w : World (Fin 2) Unit, w.Reached (fun _ => 0) →
      ∑ i ∈ w.delaying, (w.queues i).bytes ≤
        w.budget.budget + ∑ i ∈ w.delaying, 2 * (w.queues i).frameBytes) ∧
    ¬ ∀ w : World (Fin 2) Unit, w.Reached (fun _ => 0) → ∀ i nowUs, w.clock ≤ nowUs →
      (((w.view i).push (fun _ => 0) i () nowUs).1 = false ↔
        ((w.view i).push (fun _ => 0) i () nowUs).2.queue.size ≤ (w.queues i).size) := by
  constructor
  · intro hall
    exact absurd (hall crowded reached_crowded) (by decide +kernel)
  · intro hall
    exact absurd (hall bursting reached_bursting 0 33534 (by decide +kernel)) (by decide +kernel)

/-- The first queue is within its share before the second begins. -/
theorem bounded_delay_crowded :
    (∀ i, (crowded.queues i).size ≤ (crowded.queues i).depth) ∧
      (crowded.queues 1).bytes ≤ crowded.budget.portion + 2 * (crowded.queues 1).frameBytes := by
  have h := bounded_delay reached_crowded
  exact ⟨h.size, h.share 1 (by unfold Shared.Fits; decide +kernel)⟩

end World

end NdimonR.Display
