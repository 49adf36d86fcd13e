import Mathlib.Algebra.Order.Field.Rat
import Mathlib.Tactic.Linarith
import Mathlib.Tactic.Ring
import NdimonR.Library.Circular

/-! The delay line of an audio path: a ring for each channel, read at two distances behind the
frame just written while a change of the delay fades in. -/

namespace NdimonR.Decoder

structure DelayLine where
  channels : ℕ
  size : ℕ
  pos : ℕ
  delay : ℕ
  oldDelay : ℕ
  fade : ℕ
  ring : List ℚ
  processed : Bool

namespace DelayLine

open Circular

/-! ### The code -/

def fadeFrames : ℕ := 480

/-- The planes of samples that a block's pointers name. -/
abbrev Memory := List (List ℚ)

structure Block where
  frames : ℕ
  plane : List ℕ

def cellAt (mem : Memory) (p n : ℕ) : Option ℚ := do (← mem[p]?)[n]?

def load (mem : Memory) (b : Block) (c n : ℕ) : Option ℚ := do cellAt mem (← b.plane[c]?) n

/-- A list with one place written; none outside it. -/
def put {α : Type} (xs : List α) (i : ℕ) (x : α) : Option (List α) :=
  if i < xs.length then some (xs.set i x) else none

def store (mem : Memory) (b : Block) (c n : ℕ) (x : ℚ) : Option Memory := do
  let p ← b.plane[c]?
  put mem p (← put (← mem[p]?) n x)

def new (channels maximum : ℕ) : DelayLine where
  channels := channels
  size := maximum + 1
  pos := 0
  delay := 0
  oldDelay := 0
  fade := fadeFrames
  ring := List.replicate (channels * (maximum + 1)) 0
  processed := false

def clamp (frames : ℤ) (maximum : ℕ) : ℕ := min frames.toNat maximum

def setDelayFrames (s : DelayLine) (frames : ℤ) : DelayLine :=
  let frames := clamp frames (s.size - 1)
  if frames = s.delay then s
  else if s.processed then { s with oldDelay := s.delay, delay := frames, fade := 0 }
  else { s with oldDelay := frames, delay := frames, fade := fadeFrames }

/-- The cell of a channel's ring. -/
def ringCell (s : DelayLine) (ring : List ℚ) (c back : ℕ) : Option ℚ := do
  ring[c * s.size + (← slot s.size s.pos back)]?

/-- One channel of one frame. -/
def sample (s : DelayLine) (t : ℚ) (input out : Block) (n : ℕ) (m : List ℚ × Memory) (c : ℕ) :
    Option (List ℚ × Memory) := do
  let ring ← put m.1 (c * s.size + s.pos) (← load m.2 input c n)
  let old ← ringCell s ring c s.oldDelay
  let delayed ← ringCell s ring c s.delay
  some (ring, ← store m.2 out c n ((1 - t) * old + t * delayed))

def frame (input out : Block) (m : DelayLine × Memory) (n : ℕ) : Option (DelayLine × Memory) := do
  let s := m.1
  let (ring, mem) ← (List.range s.channels).foldlM
    (sample s (min 1 (s.fade / fadeFrames)) input out n) (s.ring, m.2)
  some ({ s with
    ring := ring
    pos := (s.pos + 1) % s.size
    fade := if s.fade < fadeFrames then s.fade + 1 else s.fade }, mem)

def process (s : DelayLine) (mem : Memory) (input out : Block) : Option (DelayLine × Memory) :=
  (List.range input.frames).foldlM (frame input out)
    ({ s with processed := decide (0 < input.frames) || s.processed }, mem)

/-! ### Runs -/

inductive Call where
  | setDelayFrames (frames : ℤ)
  | process (mem : Memory) (input out : Block)

/-- Frame `n` of a block, a sample for each channel. -/
def frameAt (mem : Memory) (b : Block) (channels n : ℕ) : List ℚ :=
  (List.range channels).map fun c => (load mem b c n).getD 0

def framesOf (mem : Memory) (b : Block) (channels frames : ℕ) : List (List ℚ) :=
  (List.range frames).map (frameAt mem b channels)

/-- The calls in turn, and the frames they leave in their output blocks. -/
def run : DelayLine → List Call → Option (DelayLine × List (List ℚ))
  | s, [] => some (s, [])
  | s, .setDelayFrames frames :: calls => run (setDelayFrames s frames) calls
  | s, .process mem input out :: calls => do
    let (s, mem) ← process s mem input out
    let (last, heard) ← run s calls
    some (last, framesOf mem out s.channels input.frames ++ heard)

/-! ### One frame -/

@[simp] theorem put_eq_some {α : Type} {xs ys : List α} {i : ℕ} {x : α} :
    put xs i x = some ys ↔ i < xs.length ∧ xs.set i x = ys := by
  simp [put]

theorem frame_size {input out : Block} {m m' : DelayLine × Memory} {n : ℕ}
    (h : frame input out m n = some m') : m'.1.size = m.1.size := by
  simp only [frame, Option.bind_eq_bind, Option.bind_eq_some_iff] at h
  obtain ⟨_, _, heq⟩ := h
  cases heq
  rfl

theorem process_size {s s' : DelayLine} {mem mem' : Memory} {input out : Block}
    (h : process s mem input out = some (s', mem')) : s'.size = s.size := by
  have hframes : ∀ (l : List ℕ) (m m' : DelayLine × Memory),
      l.foldlM (frame input out) m = some m' → m'.1.size = m.1.size := by
    intro l
    induction l with
    | nil =>
      intro m m' h
      cases h
      rfl
    | cons n l ih =>
      intro m m' h
      obtain ⟨between, hfirst, hrest⟩ := Option.bind_eq_some_iff.mp h
      rw [ih between m' hrest, frame_size hfirst]
  exact hframes _ _ _ h

@[simp] theorem setDelayFrames_size (s : DelayLine) (frames : ℤ) :
    (s.setDelayFrames frames).size = s.size := by
  simp only [setDelayFrames]
  split_ifs <;> rfl

theorem load_eq_some {mem : Memory} {b : Block} {c n : ℕ} {x : ℚ} :
    load mem b c n = some x ↔ ∃ p, b.plane[c]? = some p ∧ cellAt mem p n = some x := by
  simp [load, Option.bind_eq_some_iff]

/-- Two memories with the same cells, and with the same values outside some of them. -/
structure Untouched (mem after : Memory) (touched : ℕ → ℕ → Prop) : Prop where
  cells : ∀ p n, (cellAt after p n).isSome = (cellAt mem p n).isSome
  kept : ∀ p n, ¬touched p n → cellAt after p n = cellAt mem p n

theorem Untouched.refl (mem : Memory) (touched : ℕ → ℕ → Prop) : Untouched mem mem touched :=
  ⟨fun _ _ => rfl, fun _ _ _ => rfl⟩

theorem Untouched.trans {mem between after : Memory} {first second : ℕ → ℕ → Prop}
    (h : Untouched mem between first) (g : Untouched between after second) :
    Untouched mem after fun p n => first p n ∨ second p n := by
  refine ⟨fun p n => (g.cells p n).trans (h.cells p n), ?_⟩
  intro p n hn
  rw [g.kept p n (fun hs => hn (.inr hs)), h.kept p n (fun hf => hn (.inl hf))]

theorem Untouched.mono {mem after : Memory} {touched more : ℕ → ℕ → Prop}
    (h : Untouched mem after touched) (wider : ∀ p n, touched p n → more p n) :
    Untouched mem after more :=
  ⟨h.cells, fun p n hn => h.kept p n fun ht => hn (wider p n ht)⟩

theorem store_spec {mem : Memory} {b : Block} {c n p : ℕ} (x : ℚ) (hp : b.plane[c]? = some p)
    (cell : (cellAt mem p n).isSome) :
    ∃ after, store mem b c n x = some after ∧ cellAt after p n = some x ∧
      Untouched mem after fun q j => q = p ∧ j = n := by
  obtain ⟨y, hy⟩ := Option.isSome_iff_exists.mp cell
  simp only [cellAt, Option.bind_eq_bind, Option.bind_eq_some_iff] at hy
  obtain ⟨plane, hplane, hread⟩ := hy
  obtain ⟨hpl, heq⟩ := List.getElem?_eq_some_iff.mp hplane
  obtain ⟨hnl, -⟩ := List.getElem?_eq_some_iff.mp hread
  have hvalue : ∀ q j, ¬(q = p ∧ j = n) →
      cellAt (mem.set p (plane.set n x)) q j = cellAt mem q j := by
    intro q j hother
    by_cases hq : q = p
    · subst hq
      have hj : n ≠ j := fun h => hother ⟨rfl, h.symm⟩
      simp [cellAt, heq, hpl, List.getElem?_set_ne hj]
    · simp [cellAt, List.getElem?_set_ne (Ne.symm hq)]
  have hhere : cellAt (mem.set p (plane.set n x)) p n = some x := by
    simp [cellAt, hpl, hnl]
  refine ⟨mem.set p (plane.set n x), ?_, hhere, ?_, hvalue⟩
  · simp [store, hp, put, heq, hpl, hnl]
  · intro q j
    by_cases hother : q = p ∧ j = n
    · obtain ⟨rfl, rfl⟩ := hother
      rw [hhere, cell]
      rfl
    · rw [hvalue q j hother]

/-- What a caller hands over: planes long enough, no two channels written to one plane, and the
input either the very block that is written or on planes of its own. -/
structure Fits (channels : ℕ) (mem : Memory) (input out : Block) : Prop where
  readable : ∀ c, c < channels → ∀ n, n < input.frames → (load mem input c n).isSome
  writable : ∀ c, c < channels → ∀ n, n < input.frames → (load mem out c n).isSome
  distinct : ∀ c d, c < channels → d < channels → out.plane[c]? = out.plane[d]? → c = d
  apart : input.plane = out.plane ∨
    ∀ c d, c < channels → d < channels → input.plane[c]? ≠ out.plane[d]?

theorem load_congr {mem after : Memory} {b : Block} {c n : ℕ}
    (h : ∀ p, b.plane[c]? = some p → cellAt after p n = cellAt mem p n) :
    load after b c n = load mem b c n := by
  cases hp : b.plane[c]? with
  | none => simp [load, hp]
  | some p => simp [load, hp, h p hp]

theorem Fits.after {channels : ℕ} {mem later : Memory} {input out : Block}
    {touched : ℕ → ℕ → Prop} (fits : Fits channels mem input out)
    (h : Untouched mem later touched) : Fits channels later input out := by
  have hcell : ∀ (b : Block) c n, (load later b c n).isSome = (load mem b c n).isSome := by
    intro b c n
    cases hp : b.plane[c]? with
    | none => simp [load, hp]
    | some p => simpa [load, hp] using h.cells p n
  refine ⟨?_, ?_, fits.distinct, fits.apart⟩
  · intro c hc n hn
    rw [hcell]
    exact fits.readable c hc n hn
  · intro c hc n hn
    rw [hcell]
    exact fits.writable c hc n hn

/-- A plane written for one channel is not read for a later one. -/
theorem Fits.not_read {channels c d p : ℕ} {mem : Memory} {input out : Block}
    (fits : Fits channels mem input out) (hc : c < channels) (hd : d < c)
    (hread : input.plane[c]? = some p) : out.plane[d]? ≠ some p := by
  intro hwritten
  rcases fits.apart with hsame | hapart
  · rw [hsame] at hread
    have := fits.distinct c d hc (by omega) (hread.trans hwritten.symm)
    omega
  · exact hapart c d hc (by omega) (hread.trans hwritten.symm)

/-- A channel's ring within the flat one. -/
def channelRing (s : DelayLine) (ring : List ℚ) (c i : ℕ) : Option ℚ := ring[c * s.size + i]?

def mix (t old delayed : ℚ) : ℚ := (1 - t) * old + t * delayed

/-- The rings hold what each channel heard, and the read distances are within them. -/
structure Sound (s : DelayLine) (past : ℕ → ℕ → ℚ) : Prop where
  length : s.ring.length = s.channels * s.size
  holds : ∀ c, c < s.channels → Holds (channelRing s s.ring c) s.size s.pos (past c)
  position : s.pos < s.size
  delay : s.delay < s.size
  oldDelay : s.oldDelay < s.size

/-- What one channel of a frame comes out as. -/
def mixed (s : DelayLine) (past : ℕ → ℕ → ℚ) (x : ℕ → ℚ) (t : ℚ) (c : ℕ) : ℚ :=
  mix t (newest (x c) (past c) s.oldDelay) (newest (x c) (past c) s.delay)

/-- The rings after the first `k` channels of a frame. -/
structure Written (s : DelayLine) (x : ℕ → ℚ) (k : ℕ) (ring : List ℚ) : Prop where
  length : ring.length = s.ring.length
  here : ∀ c, c < k → channelRing s ring c s.pos = some (x c)
  others : ∀ c i, i < s.size → ¬(c < k ∧ i = s.pos) →
    channelRing s ring c i = channelRing s s.ring c i

theorem Written.put {s : DelayLine} {past : ℕ → ℕ → ℚ} {x : ℕ → ℚ} {k : ℕ} {ring : List ℚ}
    (h : Written s x k ring) (sound : Sound s past) (hk : k < s.channels) :
    Written s x (k + 1) (ring.set (k * s.size + s.pos) (x k)) ∧
      k * s.size + s.pos < ring.length := by
  have hpos := sound.position
  have hbound : k * s.size + s.pos < ring.length := by
    rw [h.length, sound.length]
    exact row_lt hpos hk
  refine ⟨⟨by rw [List.length_set, h.length], ?_, ?_⟩, hbound⟩
  · intro c hc
    by_cases he : c = k
    · subst he
      simp [channelRing, hbound]
    · have hne : k * s.size + s.pos ≠ c * s.size + s.pos := by
        intro hsame
        exact he ((row_inj hpos hpos).mp hsame).1.symm
      simpa only [channelRing, List.getElem?_set_ne hne] using h.here c (by omega)
  · intro c i hi hother
    have hne : k * s.size + s.pos ≠ c * s.size + i := by
      intro hsame
      obtain ⟨rfl, rfl⟩ := (row_inj hpos hi).mp hsame
      exact hother ⟨Nat.lt_succ_self _, rfl⟩
    simp only [channelRing, List.getElem?_set_ne hne]
    exact h.others c i hi fun hold => hother ⟨by omega, hold.2⟩

theorem ringCell_spec {s : DelayLine} {past : ℕ → ℕ → ℚ} {x : ℕ → ℚ} {k back : ℕ}
    {ring : List ℚ} (h : Written s x (k + 1) ring) (sound : Sound s past) (hk : k < s.channels)
    (within : back < s.size) : ringCell s ring k back = some (newest (x k) (past k) back) := by
  obtain ⟨i, hslot, -, hread⟩ := (sound.holds k hk).read (h.here k (Nat.lt_succ_self k))
    (fun i hi hne => h.others k i hi fun hsame => hne hsame.2) within
  simpa [ringCell, hslot, channelRing] using hread

/-- The memory after the first `k` channels of frame `n`. -/
structure Played (mem after : Memory) (out : Block) (n k : ℕ) (y : ℕ → ℚ) : Prop where
  here : ∀ c, c < k → load after out c n = some (y c)
  others : Untouched mem after fun p j => j = n ∧ ∃ c, c < k ∧ out.plane[c]? = some p

theorem sample_spec {s : DelayLine} {past : ℕ → ℕ → ℚ} {x : ℕ → ℚ} {t : ℚ} {k n : ℕ}
    {mem before : Memory} {ring : List ℚ} {input out : Block} (sound : Sound s past)
    (fits : Fits s.channels mem input out) (hn : n < input.frames) (hk : k < s.channels)
    (hx : load mem input k n = some (x k)) (written : Written s x k ring)
    (played : Played mem before out n k (mixed s past x t)) :
    ∃ ring' after, sample s t input out n (ring, before) k = some (ring', after) ∧
      Written s x (k + 1) ring' ∧ Played mem after out n (k + 1) (mixed s past x t) := by
  obtain ⟨p, hp, hread⟩ := load_eq_some.mp hx
  have hin : load before input k n = some (x k) := by
    rw [load_congr, hx]
    intro q hq
    apply played.others.kept
    rintro ⟨-, c, hc, hout⟩
    exact fits.not_read hk hc hq hout
  obtain ⟨hwritten, hbound⟩ := written.put sound hk
  have hold := ringCell_spec hwritten sound hk sound.oldDelay
  have hnew := ringCell_spec hwritten sound hk sound.delay
  obtain ⟨y, hy⟩ := Option.isSome_iff_exists.mp
    ((fits.after played.others).writable k hk n hn)
  obtain ⟨q, hq, hcell⟩ := load_eq_some.mp hy
  obtain ⟨after, hstore, hvalue, hkept⟩ := store_spec (mixed s past x t k) hq
    (by rw [hcell]; rfl)
  refine ⟨_, after, ?_, hwritten, ?_, ?_⟩
  · simp only [sample, hin, Option.bind_eq_bind, Option.bind_some, put, if_pos hbound, hold, hnew]
    simp only [mixed, mix] at hstore
    rw [hstore]
    rfl
  · intro c hc
    by_cases he : c = k
    · subst he
      exact load_eq_some.mpr ⟨q, hq, hvalue⟩
    · rw [@load_congr before]
      · exact played.here c (by omega)
      · intro r hr
        apply hkept.kept
        rintro ⟨rfl, -⟩
        exact he (fits.distinct c k (by omega) hk (hr.trans hq.symm))
  · apply (played.others.trans hkept).mono
    rintro r j (⟨rfl, c, hc, hr⟩ | ⟨rfl, rfl⟩)
    · exact ⟨rfl, c, by omega, hr⟩
    · exact ⟨rfl, k, Nat.lt_succ_self k, hq⟩

theorem samples_spec {s : DelayLine} {past : ℕ → ℕ → ℚ} {x : ℕ → ℚ} {t : ℚ} {n : ℕ}
    {mem : Memory} {input out : Block} (sound : Sound s past)
    (fits : Fits s.channels mem input out) (hn : n < input.frames)
    (hx : ∀ c, c < s.channels → load mem input c n = some (x c)) (k : ℕ)
    (hk : k ≤ s.channels) :
    ∃ ring after, (List.range k).foldlM (sample s t input out n) (s.ring, mem) =
        some (ring, after) ∧
      Written s x k ring ∧ Played mem after out n k (mixed s past x t) := by
  induction k with
  | zero =>
    refine ⟨s.ring, mem, rfl, ⟨rfl, ?_, fun _ _ _ _ => rfl⟩, ?_, Untouched.refl mem _⟩
    · intro c hc
      omega
    · intro c hc
      omega
  | succ k ih =>
    obtain ⟨ring, between, hrun, hwritten, hplayed⟩ := ih (by omega)
    obtain ⟨ring', after, hstep, hwritten', hplayed'⟩ :=
      sample_spec sound fits hn hk (hx k hk) hwritten hplayed
    refine ⟨ring', after, ?_, hwritten', hplayed'⟩
    rw [List.range_succ, List.foldlM_append, hrun]
    simpa using hstep

def weight (s : DelayLine) : ℚ := min 1 (s.fade / fadeFrames)

/-- The state after a frame whose rings are `ring`. -/
def next (s : DelayLine) (ring : List ℚ) : DelayLine :=
  { s with
    ring := ring
    pos := (s.pos + 1) % s.size
    fade := if s.fade < fadeFrames then s.fade + 1 else s.fade }

@[simp] theorem next_channels (s : DelayLine) (ring : List ℚ) :
    (s.next ring).channels = s.channels := rfl

@[simp] theorem next_delay (s : DelayLine) (ring : List ℚ) : (s.next ring).delay = s.delay := rfl

@[simp] theorem next_oldDelay (s : DelayLine) (ring : List ℚ) :
    (s.next ring).oldDelay = s.oldDelay := rfl

@[simp] theorem next_processed (s : DelayLine) (ring : List ℚ) :
    (s.next ring).processed = s.processed := rfl

theorem Sound.next {s : DelayLine} {past : ℕ → ℕ → ℚ} {x : ℕ → ℚ} {ring : List ℚ}
    (sound : Sound s past) (written : Written s x s.channels ring) :
    Sound (s.next ring) fun c => newest (x c) (past c) := by
  refine ⟨written.length.trans sound.length, ?_, ?_, sound.delay, sound.oldDelay⟩
  · intro c hc
    apply (sound.holds c hc).write (written.here c hc)
    intro i hi hne
    exact written.others c i hi fun hsame => hne hsame.2
  · exact Nat.mod_lt _ (Nat.zero_lt_of_lt sound.position)

theorem frame_spec {s : DelayLine} {past : ℕ → ℕ → ℚ} {x : ℕ → ℚ} {n : ℕ} {mem : Memory}
    {input out : Block} (sound : Sound s past) (fits : Fits s.channels mem input out)
    (hn : n < input.frames) (hx : ∀ c, c < s.channels → load mem input c n = some (x c)) :
    ∃ ring after, frame input out (s, mem) n = some (s.next ring, after) ∧
      Sound (s.next ring) (fun c => newest (x c) (past c)) ∧
      Played mem after out n s.channels (mixed s past x (weight s)) := by
  obtain ⟨ring, after, hrun, hwritten, hplayed⟩ :=
    samples_spec sound fits hn hx s.channels (Nat.le_refl _)
  refine ⟨ring, after, ?_, sound.next hwritten, hplayed⟩
  simp only [weight] at hrun
  simp only [frame, hrun, Option.bind_eq_bind, Option.bind_some]
  rfl

end DelayLine

end NdimonR.Decoder
