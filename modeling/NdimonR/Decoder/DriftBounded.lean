import NdimonR.Decoder.DriftKept
import NdimonR.Library.Steps

/-! What the drift buffer answers for over whole runs. -/

namespace NdimonR.Decoder.Drift

open SharedRing

variable {α : Type} {p : DriftParams} {R : Resampler α}

/-! ### Pushes -/

/-- The push under way. -/
def Producer.push : Producer α → List (Push α)
  | .idle => []
  | .copying u _ _ => [u]

/-- The pushes begun since the last reset. -/
def begun (s : State R) : List (Push α) := s.log.pushes ++ s.producer.push

structure Counted (p : DriftParams) (s : State R) : Prop where
  overruns : s.overruns = (begun s).countP Push.short
  stored : s.log.stored.drop s.log.base = s.log.pushes.flatMap (Push.kept p)
  fits : ∀ u ∈ begun s, u.n ≤ u.frames

theorem Push.kept_prefix {u : Push α} (h : u.n ≤ u.frames) : u.kept p <+: u.given p := by
  have hrange : List.range u.n = (List.range u.frames).take u.n := by
    rw [List.take_range, Nat.min_eq_left h]
  rw [Push.kept, Push.given, hrange, List.map_take]
  exact List.take_prefix _ _

theorem Counted.aside {s s' : State R} (h : Counted p s) (hbegun : begun s' = begun s)
    (hoverruns : s'.overruns = s.overruns) (hpushes : s'.log.pushes = s.log.pushes)
    (hstored : s'.log.stored = s.log.stored) (hbase : s'.log.base = s.log.base) :
    Counted p s' where
  overruns := by rw [hbegun, hoverruns]; exact h.overruns
  stored := by rw [hpushes, hstored, hbase]; exact h.stored
  fits := by rw [hbegun]; exact h.fits

theorem Counted.push {s : State R} (h : Counted p s) (hproducer : s.producer = .idle)
    (planes : ℕ → ℕ → α) (frames : ℕ) : Counted p (push p s planes frames) := by
  have hbegun : begun s = s.log.pushes := by simp [begun, hproducer, Producer.push]
  refine ⟨?_, h.stored, fun u hu => ?_⟩
  · have hcount := h.overruns
    rw [hbegun] at hcount
    simp only [begun, Drift.push, Producer.push, List.countP_append, List.countP_singleton,
      ← hcount, Push.short, decide_eq_true_eq]
    split <;> rfl
  · rcases List.mem_append.mp hu with hold | hnew
    · exact h.fits u (by rw [hbegun]; exact hold)
    · obtain rfl := List.mem_singleton.mp hnew
      simp only
      omega

theorem Counted.finish {s : State R} (h : Counted p s) {u : Push α} {c i : ℕ}
    (hproducer : s.producer = .copying u c i) (hle : s.log.base ≤ s.log.stored.length) :
    Counted p (Drift.stored p s u) := by
  have hbegun : begun (Drift.stored p s u) = begun s := by
    simp [begun, Drift.stored, hproducer, Producer.push]
  refine ⟨by rw [hbegun]; exact h.overruns, ?_, by rw [hbegun]; exact h.fits⟩
  simp only [Drift.stored]
  rw [List.drop_append_of_le_length hle, h.stored, List.flatMap_append, List.flatMap_singleton]

theorem Counted.reset {s : State R} (hproducer : s.producer = .idle) :
    Counted p (reset p s) where
  overruns := by simp [begun, Drift.reset, hproducer, Producer.push]
  stored := List.drop_length
  fits := by simp [begun, Drift.reset, hproducer, Producer.push]

theorem Counted.step [Zero α] {s s' : State R} {a : Act α} (h : Counted p s) (hkept : Kept p s)
    (hstep : Step p s a s') : Counted p s' := by
  cases hstep with
  | push hproducer => exact h.push hproducer _ _
  | copyCell hproducer =>
    refine h.aside ?_ rfl rfl rfl rfl
    simp [begun, copyCell, hproducer, Producer.push]
  | copyRow hproducer =>
    refine h.aside ?_ rfl rfl rfl rfl
    simp [begun, hproducer, Producer.push]
  | stored hproducer =>
    have hcounted := hkept.counted
    exact h.finish hproducer (by omega)
  | pull =>
    unfold pull
    split <;> exact h.aside rfl rfl rfl rfl rfl
  | release =>
    unfold release
    dsimp only
    split <;> exact h.aside rfl rfl rfl rfl rfl
  | drain | discard | control | converting | takeCell | takeRow | discarded =>
    exact h.aside rfl rfl rfl rfl rfl
  | reset hproducer => exact .reset hproducer

/-! ### Blocks -/

/-- Every place of the block is written, and no other. -/
def Filled.exact (f : Filled α) : Prop :=
  ∀ c i, (f.planes c i).isSome = true ↔ c < f.block.channels ∧ i < f.block.frames

/-- The block of the pull under way. -/
def Consumer.block : Consumer → Option Block
  | .checked out | .converting (.pull out) | .taking (.pull out) .. => some out
  | _ => none

structure Filling (p : DriftParams) (s : State R) : Prop where
  blocks : ∀ f ∈ s.log.blocks, f.exact
  channels : ∀ out ∈ s.consumer.block, out.channels = p.channels

theorem silence_exact [Zero α] (out : Block) : (silence out : Filled α).exact := by
  intro c i
  simp only [silence]
  split <;> simp_all

theorem filled_exact [Zero α] {out : Block} {made : ℕ} (planes : ℕ → ℕ → α)
    (hchannels : out.channels = p.channels) (hmade : made ≤ out.frames) :
    (filled p out made planes).exact := by
  intro c i
  simp only [filled, hchannels]
  split_ifs with hrest hmade'
  · exact ⟨fun _ => ⟨hrest.1, hrest.2.2⟩, fun _ => rfl⟩
  · exact ⟨fun _ => ⟨hmade'.1, by omega⟩, fun _ => rfl⟩
  · refine ⟨fun h => by simp at h, fun h => ?_⟩
    omega

theorem Filling.append {s : State R} (h : Filling p s) {f : Filled α} (hf : f.exact) :
    ∀ g ∈ s.log.blocks ++ [f], g.exact := by
  intro g hg
  rcases List.mem_append.mp hg with hold | hnew
  · exact h.blocks g hold
  · rw [List.mem_singleton.mp hnew]
    exact hf

theorem Filling.aside {s s' : State R} (h : Filling p s) (hblocks : s'.log.blocks = s.log.blocks)
    (hconsumer : s'.consumer.block = s.consumer.block ∨ s'.consumer.block = none) :
    Filling p s' where
  blocks := by rw [hblocks]; exact h.blocks
  channels := by
    rcases hconsumer with hsame | hnone
    · rw [hsame]
      exact h.channels
    · rw [hnone]
      intro out hout
      cases hout

theorem Filling.pull [Zero α] {s : State R} (h : Filling p s) {out : Block}
    (hchannels : out.channels = p.channels) : Filling p (pull s out) := by
  unfold Drift.pull
  split
  · exact ⟨h.append (silence_exact out), h.channels⟩
  · refine ⟨h.blocks, fun out' hout => ?_⟩
    obtain rfl := Option.some.inj hout
    exact hchannels

theorem Filling.release [Zero α] {s : State R} (h : Filling p s) {call : Call} {n c i : ℕ}
    (hconsumer : s.consumer = .taking call n c i) : Filling p (release p s call n) := by
  cases call with
  | pull out =>
    have hchannels := h.channels out (by rw [hconsumer]; rfl)
    have hle := R.convert_le s.swr out.frames (scratchFrames p s n)
    refine ⟨h.append (filled_exact _ hchannels ?_), fun out' hout => by cases hout⟩
    exact Int.toNat_le.mpr (max_le (Int.natCast_nonneg _) hle)
  | drain frames => exact h.aside rfl (.inr rfl)

theorem Filling.step [Zero α] {s s' : State R} {a : Act α} (h : Filling p s)
    (hstep : Step p s a s') : Filling p s' := by
  cases hstep with
  | push | copyCell | copyRow | stored => exact h.aside rfl (.inl rfl)
  | pull _ hchannels => exact h.pull hchannels
  | drain => exact h.aside rfl (.inr rfl)
  | discard => exact h.aside rfl (.inr rfl)
  | control hconsumer => exact h.aside rfl (.inl (by rw [hconsumer]; rfl))
  | @converting call hconsumer =>
    refine h.aside rfl (.inl ?_)
    rw [hconsumer]
    cases call <;> rfl
  | @takeCell call n c i hconsumer =>
    refine h.aside rfl (.inl ?_)
    rw [hconsumer]
    cases call <;> rfl
  | @takeRow call n c i hconsumer =>
    refine h.aside rfl (.inl ?_)
    rw [hconsumer]
    cases call <;> rfl
  | release hconsumer => exact h.release hconsumer
  | discarded => exact h.aside rfl (.inr rfl)
  | reset _ hconsumer =>
    refine ⟨fun f hf => (by cases hf), fun out hout => ?_⟩
    change out ∈ s.consumer.block at hout
    rw [hconsumer] at hout
    cases hout

/-! ### The correction -/

/-- The integral's bound for errors of at most `E`. -/
def windup (p : DriftParams) (E : ℚ) : ℚ := limit p + p.kp * E

theorem limit_nonneg : 0 ≤ limit p := by
  unfold limit
  positivity

structure Held (p : DriftParams) (s : State R) : Prop where
  ppm : |s.ppm| ≤ p.maxPpm
  integral : ∀ E : ℚ, 0 ≤ E → (∀ e ∈ s.log.errors, |(e : ℚ)| ≤ E) →
    |p.ki * s.integral| ≤ windup p E

/-- An integral let in below the limit is within the bound, and one let in against the demand has
moved towards zero on the side it is far out on. -/
theorem integral_next {kp ki e old E bound : ℚ} (hkp : 0 < kp) (hki : 0 < ki) (he : |e| ≤ E)
    (hold : |ki * old| ≤ bound + kp * E)
    (hnext : |kp * e + ki * (old + e)| < bound ∨ (kp * e + ki * (old + e)) * e < 0) :
    |ki * (old + e)| ≤ bound + kp * E := by
  have hE := abs_le.mp he
  have hhigh : kp * e ≤ kp * E := mul_le_mul_of_nonneg_left hE.2 hkp.le
  have hlow : kp * -E ≤ kp * e := mul_le_mul_of_nonneg_left hE.1 hkp.le
  have hbounds := abs_le.mp hold
  rw [abs_le]
  rcases hnext with hbelow | hagainst
  · have hdemand := abs_lt.mp hbelow
    constructor <;> linarith
  · have hbound : 0 ≤ bound + kp * E := (abs_nonneg _).trans hold
    rcases mul_neg_iff.mp hagainst with ⟨hpos, hneg⟩ | ⟨hneg, hpos⟩
    · -- the demand is up while the error is down
      have hmove : ki * e < 0 := mul_neg_of_pos_of_neg hki hneg
      have herror : kp * e < 0 := mul_neg_of_pos_of_neg hkp hneg
      constructor <;> linarith
    · have hmove : 0 < ki * e := mul_pos hki hpos
      have herror : 0 < kp * e := mul_pos hkp hpos
      constructor <;> linarith

theorem Held.control {s : State R} (h : Held p s) (hkp : 0 < p.kp) (hki : 0 < p.ki) (e : ℤ) :
    Held p (control p s e) := by
  refine ⟨?_, fun E hE herrors => ?_⟩
  · simp only [Drift.control]
    have hmax : -(p.maxPpm : ℚ) ≤ p.maxPpm := by
      have : (0 : ℚ) ≤ p.maxPpm := by positivity
      linarith
    exact abs_le.mpr ⟨le_max_left _ _, max_le hmax (min_le_right _ _)⟩
  · have hold := h.integral E hE fun d hd => herrors d (List.mem_append_left _ hd)
    have he : |(e : ℚ)| ≤ E := herrors e (List.mem_append_right _ (List.mem_singleton.mpr rfl))
    simp only [Drift.control]
    split
    · exact integral_next hkp hki he hold ‹_›
    · exact hold

theorem Held.aside {s s' : State R} (h : Held p s) (hppm : s'.ppm = s.ppm)
    (hintegral : s'.integral = s.integral) (herrors : s'.log.errors = s.log.errors) :
    Held p s' where
  ppm := by rw [hppm]; exact h.ppm
  integral := by rw [hintegral, herrors]; exact h.integral

theorem Held.zero {s : State R} (hkp : 0 < p.kp) (hppm : s.ppm = 0) (hintegral : s.integral = 0) :
    Held p s where
  ppm := by
    rw [hppm, abs_zero]
    exact Nat.cast_nonneg _
  integral := by
    intro E hE _
    rw [hintegral, mul_zero, abs_zero]
    exact add_nonneg limit_nonneg (mul_nonneg hkp.le hE)

theorem Held.step [Zero α] {s s' : State R} {a : Act α} (h : Held p s) (hkp : 0 < p.kp)
    (hki : 0 < p.ki) (hstep : Step p s a s') : Held p s' := by
  cases hstep with
  | control => exact (h.control hkp hki _).aside rfl rfl rfl
  | drain => exact (h.control hkp hki _).aside rfl rfl rfl
  | pull =>
    unfold pull
    split <;> exact h.aside rfl rfl rfl
  | release =>
    unfold release
    dsimp only
    split <;> exact h.aside rfl rfl rfl
  | push | copyCell | copyRow | stored | discard | converting | takeCell | takeRow | discarded =>
    exact h.aside rfl rfl rfl
  | reset => exact .zero hkp rfl rfl

/-! ### Whole runs -/

structure Inv (p : DriftParams) (s : State R) : Prop where
  kept : Kept p s
  counted : Counted p s
  filling : Filling p s
  held : Held p s

theorem Inv.new [Zero α] (hkp : 0 < p.kp) : Inv p (new p R) where
  kept := .new
  counted := ⟨rfl, rfl, fun u hu => by cases hu⟩
  filling := ⟨fun f hf => (by cases hf), fun out hout => by cases hout⟩
  held := .zero hkp rfl rfl

theorem Inv.step [Zero α] {s s' : State R} {a : Act α} (hkp : 0 < p.kp) (hki : 0 < p.ki)
    (h : Inv p s) (hstep : step p s a = some s') : Inv p s' := by
  have hcase := step_cases hstep
  exact ⟨h.kept.step hcase, h.counted.step h.kept hcase, h.filling.step hcase,
    h.held.step hkp hki hcase⟩

theorem Kept.ringPlaces {s : State R} (h : Kept p s) :
    ∀ k ∈ ringPlaces p s, k < s.fifo.length := by
  have hwithin := h.within
  have hbehind := h.behind
  intro k hk
  rw [h.fifo]
  rcases List.mem_append.mp hk with hwritten | hread
  · have hproducing := h.producing
    cases hproducer : s.producer with
    | idle => simp [hproducer] at hwritten
    | copying u c i =>
      simp only [hproducer] at hwritten
      split_ifs at hwritten with hplace
      · rw [List.mem_singleton.mp hwritten]
        simp only [Producing, hproducer] at hproducing
        exact cell_lt (by omega) hplace.1
      · cases hwritten
  · have hconsuming := h.consuming
    cases hconsumer : s.consumer with
    | idle | checked | converting | discarding => simp [hconsumer] at hread
    | taking call n c i =>
      simp only [hconsumer] at hread
      split_ifs at hread with hplace
      · rw [List.mem_singleton.mp hread]
        simp only [Consuming, hconsumer] at hconsuming
        exact cell_lt (by omega) hplace.1
      · cases hread

theorem Kept.scratchPlaces {s : State R} (h : Kept p s) :
    ∀ k ∈ scratchPlaces p s, k < s.scratch.length := by
  have hwithin := h.within
  have hconsuming := h.consuming
  intro k hk
  rw [h.scratch]
  cases hconsumer : s.consumer with
  | idle | checked | converting | discarding => simp [Drift.scratchPlaces, hconsumer] at hk
  | taking call n c i =>
    simp only [Drift.scratchPlaces, hconsumer] at hk
    simp only [Consuming, hconsumer] at hconsuming
    split_ifs at hk with hc hi
    · rw [List.mem_singleton.mp hk]
      exact Circular.row_lt (by omega) hc
    · cases hk
    · obtain ⟨d, hd, hplace⟩ := List.mem_flatMap.mp hk
      obtain ⟨j, hj, rfl⟩ := List.mem_map.mp hplace
      have hj : j < n := List.mem_range.mp hj
      exact Circular.row_lt (by omega) (List.mem_range.mp hd)

/-- What the drift buffer promises of every state it gets to. -/
structure Sound (p : DriftParams) (s : State R) : Prop where
  fill : 0 ≤ s.fill ∧ s.fill ≤ p.capacityFrames
  ring : ∀ k ∈ ringPlaces p s, k < s.fifo.length
  scratch : ∀ k ∈ scratchPlaces p s, k < s.scratch.length
  given : ∃ positions : List ℕ, positions.Pairwise (· < ·) ∧
    s.log.given.map some = positions.map (s.log.stored[·]?)
  stored : s.log.stored.drop s.log.base = s.log.pushes.flatMap (Push.kept p) ∧
    ∀ u ∈ begun s, u.kept p <+: u.given p
  overruns : s.overruns = (begun s).countP fun u => u.n < u.frames
  blocks : ∀ f ∈ s.log.blocks, ∀ c i,
    (f.planes c i).isSome = true ↔ c < f.block.channels ∧ i < f.block.frames
  ppm : |s.ppm| ≤ p.maxPpm
  integral : ∀ E : ℚ, 0 ≤ E → (∀ e ∈ s.log.errors, |(e : ℚ)| ≤ E) →
    |p.ki * s.integral| ≤ p.maxPpm / 1e6 + p.kp * E

/-- A buffer of four frames of one channel. -/
def tiny : DriftParams where
  channels := 1
  targetFillFrames := 0
  capacityFrames := 4

/-- A resampler that passes on what it is given. -/
def passing : Resampler ℤ where
  Device := Unit
  warm := ()
  reinit := id
  delay _ := 0
  setCompensation d _ _ := d
  convert _ frames given :=
    ((), min frames given.length, fun c i => ((given.getD i []).getD c 0))
  convert_le _ frames given := by simp

/-- Six frames are pushed, the first four of them are stored, and three are played. -/
def session : List (Act ℤ) :=
  [.push (fun _ i => i + 1) 6, .produce, .produce, .produce, .pull ⟨1, 3⟩, .produce, .produce,
    .produce, .pull ⟨1, 3⟩] ++ List.replicate 8 .consume

end NdimonR.Decoder.Drift
