import Mathlib.Algebra.Order.Field.Rat
import Mathlib.Tactic.Linarith
import Mathlib.Tactic.Positivity
import NdimonR.Decoder.DriftCompensator

/-! The drift buffer keeps every frame it stores in its place until the resampler has it, counts
what it could not store, and holds its correction and the integral behind it within bounds. -/

namespace NdimonR.Decoder.Drift

open SharedRing

variable {α : Type} {p : DriftParams} {R : Resampler α}

/-! ### The ring -/

/-- The sample of channel `c` of the frame counted `k`. -/
def entry (s : State R) (k c : ℕ) : Option α := (s.log.stored[s.log.base + k]?).bind (·[c]?)

/-- The producer writes only free cells, and what its loops have done is written. -/
def Producing (p : DriftParams) (s : State R) : Prop :=
  match s.producer with
  | .idle => True
  | .copying u c i =>
    s.write + u.n ≤ s.read + p.capacityFrames ∧ i ≤ u.n ∧
      ∀ d j, d < p.channels → j < u.n → Done c i d j →
        s.fifo[cell p.capacityFrames d (s.write + j)]? = some (u.planes d j)

/-- The consumer takes only stored frames, and what its loops have done is in the scratch planes. -/
def Consuming (p : DriftParams) (s : State R) : Prop :=
  match s.consumer with
  | .idle | .checked _ | .converting _ => True
  | .taking _ n c i =>
    s.read + n ≤ s.write ∧ i ≤ n ∧
      ∀ d j, d < p.channels → j < n → Done c i d j →
        s.scratch[d * p.capacityFrames + j]? = entry s (s.read + j) d
  | .discarding w => s.read ≤ w ∧ w ≤ s.write

/-- The given frames are stored ones, each further on than the one before. -/
def InOrder (stored given : List (List α)) (limit : ℕ) : Prop :=
  ∃ positions : List ℕ, positions.Pairwise (· < ·) ∧ (∀ k ∈ positions, k < limit) ∧
    given.map some = positions.map (stored[·]?)

structure Kept (p : DriftParams) (s : State R) : Prop where
  fifo : s.fifo.length = p.channels * p.capacityFrames
  scratch : s.scratch.length = p.channels * p.capacityFrames
  behind : s.read ≤ s.write
  within : s.write ≤ s.read + p.capacityFrames
  counted : s.log.base + s.write = s.log.stored.length
  shaped : ∀ f ∈ s.log.stored, f.length = p.channels
  holds : Holds s.fifo p.capacityFrames p.channels s.read s.write (entry s)
  producing : Producing p s
  consuming : Consuming p s
  heard : InOrder s.log.stored s.log.given (s.log.base + s.read)

theorem Kept.new [Zero α] : Kept p (new p R) where
  fifo := List.length_replicate
  scratch := List.length_replicate
  behind := Nat.le_refl _
  within := Nat.zero_le _
  counted := rfl
  shaped := by
    intro f hf
    cases hf
  holds := .nil
  producing := trivial
  consuming := trivial
  heard := ⟨[], .nil, by simp, rfl⟩

theorem Kept.reset {s : State R} (h : Kept p s) (hproducer : s.producer = .idle)
    (hconsumer : s.consumer = .idle) : Kept p (reset p s) where
  fifo := h.fifo
  scratch := h.scratch
  behind := Nat.le_refl _
  within := Nat.zero_le _
  counted := rfl
  shaped := h.shaped
  holds := .nil
  producing := by simp [Producing, Drift.reset, hproducer]
  consuming := by simp [Consuming, Drift.reset, hconsumer]
  heard := by
    obtain ⟨positions, horder, hbelow, hgiven⟩ := h.heard
    refine ⟨positions, horder, fun k hk => ?_, hgiven⟩
    have hk := hbelow k hk
    have hcounted := h.counted
    have hbehind := h.behind
    simp only [Drift.reset]
    omega

/-- What a step changes that neither the ring nor the record of frames is part of. -/
structure Aside (s s' : State R) : Prop where
  fifo : s'.fifo = s.fifo
  scratch : s'.scratch = s.scratch
  read : s'.read = s.read
  write : s'.write = s.write
  base : s'.log.base = s.log.base
  stored : s'.log.stored = s.log.stored
  given : s'.log.given = s.log.given

theorem Aside.refl (s : State R) : Aside s s := ⟨rfl, rfl, rfl, rfl, rfl, rfl, rfl⟩

theorem Aside.entry {s s' : State R} (h : Aside s s') : entry s' = entry s := by
  funext k c
  rw [Drift.entry, Drift.entry, h.base, h.stored]

theorem Aside.producing {s s' : State R} (h : Aside s s') (hsame : s'.producer = s.producer)
    (hs : Producing p s) : Producing p s' := by
  simpa only [Producing, hsame, h.fifo, h.write, h.read] using hs

theorem Aside.consuming {s s' : State R} (h : Aside s s') (hsame : s'.consumer = s.consumer)
    (hs : Consuming p s) : Consuming p s' := by
  simpa only [Consuming, hsame, h.scratch, h.write, h.read, h.entry] using hs

theorem Kept.aside {s s' : State R} (h : Kept p s) (hsame : Aside s s')
    (hproducing : Producing p s') (hconsuming : Consuming p s') : Kept p s' where
  fifo := by rw [hsame.fifo]; exact h.fifo
  scratch := by rw [hsame.scratch]; exact h.scratch
  behind := by rw [hsame.read, hsame.write]; exact h.behind
  within := by rw [hsame.read, hsame.write]; exact h.within
  counted := by rw [hsame.base, hsame.write, hsame.stored]; exact h.counted
  shaped := by rw [hsame.stored]; exact h.shaped
  holds := by rw [hsame.fifo, hsame.read, hsame.write, hsame.entry]; exact h.holds
  producing := hproducing
  consuming := hconsuming
  heard := by rw [hsame.stored, hsame.given, hsame.base, hsame.read]; exact h.heard

theorem aside_control (s : State R) (e : ℤ) : Aside s (control p s e) :=
  ⟨rfl, rfl, rfl, rfl, rfl, rfl, rfl⟩

theorem Kept.push {s : State R} (h : Kept p s) (planes : ℕ → ℕ → α) (frames : ℕ) :
    Kept p (push p s planes frames) := by
  have hsame : Aside s (Drift.push p s planes frames) := ⟨rfl, rfl, rfl, rfl, rfl, rfl, rfl⟩
  refine h.aside hsame ?_ (hsame.consuming rfl h.consuming)
  have hbehind := h.behind
  have hwithin := h.within
  refine ⟨?_, Nat.zero_le _, fun d j _ _ hdone => absurd hdone not_done_start⟩
  simp only [Drift.push, State.fill]
  omega

theorem Kept.copyCell {s : State R} (h : Kept p s) {u : Push α} {c i : ℕ}
    (hproducer : s.producer = .copying u c i) (hc : c < p.channels) (hi : i < u.n) :
    Kept p (copyCell p s u c i) := by
  have hproducing := h.producing
  simp only [Producing, hproducer] at hproducing
  obtain ⟨hroom, -, hdone⟩ := hproducing
  have hbehind := h.behind
  refine { h with
    fifo := by rw [Drift.copyCell, List.length_set]; exact h.fifo
    holds := h.holds.set (by omega) (by omega)
    producing := ?_
    consuming := h.consuming }
  refine ⟨hroom, hi, fun d j hd hj hdone' => ?_⟩
  simp only [Drift.copyCell]
  by_cases hhere : d = c ∧ j = i
  · obtain ⟨rfl, rfl⟩ := hhere
    rw [List.getElem?_set_self]
    rw [h.fifo]
    exact cell_lt (by omega) hd
  · have hne : cell p.capacityFrames c (s.write + i) ≠ cell p.capacityFrames d (s.write + j) := by
      intro heq
      have hsame := (cell_inj (Nat.le_add_right s.write i) (by omega) (Nat.le_add_right _ _)
        (by omega)).mp heq
      omega
    rw [List.getElem?_set_ne hne]
    exact hdone d j hd hj ((done_succ hdone').resolve_right hhere)

theorem Kept.copyRow {s : State R} (h : Kept p s) {u : Push α} {c i : ℕ}
    (hproducer : s.producer = .copying u c i) (hi : ¬ i < u.n) :
    Kept p { s with producer := .copying u (c + 1) 0 } := by
  have hsame : Aside s { s with producer := .copying u (c + 1) 0 } :=
    ⟨rfl, rfl, rfl, rfl, rfl, rfl, rfl⟩
  refine h.aside hsame ?_ (hsame.consuming rfl h.consuming)
  have hproducing := h.producing
  simp only [Producing, hproducer] at hproducing
  obtain ⟨hroom, hle, hdone⟩ := hproducing
  refine ⟨hroom, Nat.zero_le _, fun d j hd hj hdone' => hdone d j hd hj ?_⟩
  exact done_next_row (by omega) hj hdone'

theorem length_kept (u : Push α) : (u.kept p).length = u.n := by simp [Push.kept]

theorem kept_entry (u : Push α) {k c : ℕ} (hk : k < u.n) (hc : c < p.channels) :
    ((u.kept p)[k]?).bind (·[c]?) = some (u.planes c k) := by
  simp [Push.kept, frameOf, hk, hc]

theorem length_frameOf (planes : ℕ → ℕ → α) (i : ℕ) : (frameOf p planes i).length = p.channels := by
  simp [frameOf]

/-- Frames already counted stay where they are as more are stored. -/
theorem entry_stored {s : State R} (h : Kept p s) (u : Push α) {k c : ℕ} (hk : k < s.write) :
    entry (stored p s u) k c = entry s k c := by
  have hcounted := h.counted
  simp only [entry, stored]
  rw [List.getElem?_append_left (by omega)]

theorem Kept.stored {s : State R} (h : Kept p s) {u : Push α} {c i : ℕ}
    (hproducer : s.producer = .copying u c i) (hc : ¬ c < p.channels) : Kept p (stored p s u) := by
  have hproducing := h.producing
  simp only [Producing, hproducer] at hproducing
  obtain ⟨hroom, -, hdone⟩ := hproducing
  have hcounted := h.counted
  have hbehind := h.behind
  refine { h with
    behind := ?_
    within := hroom
    counted := ?_
    shaped := ?_
    holds := ?_
    producing := trivial
    consuming := ?_
    heard := ?_ }
  · simp only [Drift.stored]
    omega
  · simp only [Drift.stored, List.length_append, length_kept]
    omega
  · intro f hf
    rcases List.mem_append.mp hf with hold | hnew
    · exact h.shaped f hold
    · obtain ⟨j, -, rfl⟩ := List.mem_map.mp hnew
      exact length_frameOf _ _
  · intro k hlo hhi d hd
    simp only [Drift.stored] at hlo hhi
    by_cases hk : k < s.write
    · rw [entry_stored h u hk]
      exact h.holds k hlo hk d hd
    · obtain ⟨j, rfl⟩ := Nat.exists_eq_add_of_le (Nat.le_of_not_lt hk)
      have hj : j < u.n := by omega
      have hentry : entry (Drift.stored p s u) (s.write + j) d = some (u.planes d j) := by
        simp only [entry, Drift.stored]
        rw [List.getElem?_append_right (by omega),
          show s.log.base + (s.write + j) - s.log.stored.length = j by omega]
        exact kept_entry u hj hd
      rw [hentry]
      exact hdone d j hd hj (done_all hc hd)
  · have hconsuming := h.consuming
    cases hconsumer : s.consumer with
    | idle | checked | converting => simp [Consuming, Drift.stored, hconsumer]
    | taking call n d j =>
      simp only [Consuming, hconsumer] at hconsuming
      simp only [Consuming, Drift.stored, hconsumer]
      obtain ⟨hstored, hle, htaken⟩ := hconsuming
      refine ⟨by omega, hle, fun e k he hk hdone' => ?_⟩
      rw [htaken e k he hk hdone']
      exact (entry_stored h u (by omega)).symm
    | discarding w =>
      simp only [Consuming, hconsumer] at hconsuming
      simp only [Consuming, Drift.stored, hconsumer]
      omega
  · obtain ⟨positions, horder, hbelow, hgiven⟩ := h.heard
    refine ⟨positions, horder, hbelow, hgiven.trans (List.map_congr_left fun k hk => ?_)⟩
    have hk := hbelow k hk
    simp only [Drift.stored]
    rw [List.getElem?_append_left (by omega)]

theorem Kept.converting {s : State R} (h : Kept p s) (call : Call) :
    Kept p { s with consumer := .taking call (toTake s call.frames) 0 0 } := by
  have hsame : Aside s { s with consumer := .taking call (toTake s call.frames) 0 0 } :=
    ⟨rfl, rfl, rfl, rfl, rfl, rfl, rfl⟩
  refine h.aside hsame (hsame.producing rfl h.producing) ?_
  have hbehind := h.behind
  refine ⟨?_, Nat.zero_le _, fun d j _ _ hdone => absurd hdone not_done_start⟩
  simp only [toTake, State.fill]
  omega

/-- A cell between the counts holds its entry, which is one. -/
theorem Kept.cell_eq [Zero α] {s : State R} (h : Kept p s) {k c : ℕ} (hlo : s.read ≤ k)
    (hhi : k < s.write) (hc : c < p.channels) :
    some (s.fifo.getD (cell p.capacityFrames c k) 0) = entry s k c := by
  have hwithin := h.within
  have hlt : cell p.capacityFrames c k < s.fifo.length := by
    rw [h.fifo]
    exact cell_lt (by omega) hc
  rw [← h.holds k hlo hhi c hc, List.getD_eq_getElem?_getD, List.getElem?_eq_getElem hlt]
  rfl

theorem Kept.takeCell [Zero α] {s : State R} (h : Kept p s) {call : Call} {n c i : ℕ}
    (hconsumer : s.consumer = .taking call n c i) (hc : c < p.channels) (hi : i < n) :
    Kept p (takeCell p s call n c i) := by
  have hconsuming := h.consuming
  simp only [Consuming, hconsumer] at hconsuming
  obtain ⟨hstored, -, htaken⟩ := hconsuming
  have hwithin := h.within
  refine { h with
    scratch := by rw [Drift.takeCell, List.length_set]; exact h.scratch
    producing := h.producing
    consuming := ?_ }
  refine ⟨hstored, hi, fun d j hd hj hdone' => ?_⟩
  change (s.scratch.set _ _)[_]? = entry s (s.read + j) d
  by_cases hhere : d = c ∧ j = i
  · obtain ⟨rfl, rfl⟩ := hhere
    rw [List.getElem?_set_self, h.cell_eq (by omega) (by omega) hd]
    rw [h.scratch]
    exact Circular.row_lt (by omega) hd
  · have hne : c * p.capacityFrames + i ≠ d * p.capacityFrames + j := by
      intro heq
      have hsame := (Circular.row_inj (by omega) (by omega)).mp heq
      omega
    rw [List.getElem?_set_ne hne]
    exact htaken d j hd hj ((done_succ hdone').resolve_right hhere)

theorem Kept.takeRow {s : State R} (h : Kept p s) {call : Call} {n c i : ℕ}
    (hconsumer : s.consumer = .taking call n c i) (hi : ¬ i < n) :
    Kept p { s with consumer := .taking call n (c + 1) 0 } := by
  have hsame : Aside s { s with consumer := .taking call n (c + 1) 0 } :=
    ⟨rfl, rfl, rfl, rfl, rfl, rfl, rfl⟩
  refine h.aside hsame (hsame.producing rfl h.producing) ?_
  have hconsuming := h.consuming
  simp only [Consuming, hconsumer] at hconsuming
  obtain ⟨hstored, hle, htaken⟩ := hconsuming
  refine ⟨hstored, Nat.zero_le _, fun d j hd hj hdone' => htaken d j hd hj ?_⟩
  exact done_next_row (by omega) hj hdone'

/-- The frames the resampler is given are the next stored ones. -/
theorem Kept.given [Zero α] {s : State R} (h : Kept p s) {call : Call} {n c i : ℕ}
    (hconsumer : s.consumer = .taking call n c i) (hc : ¬ c < p.channels) :
    (scratchFrames p s n).map some =
      (List.range n).map fun j => s.log.stored[s.log.base + s.read + j]? := by
  have hconsuming := h.consuming
  simp only [Consuming, hconsumer] at hconsuming
  obtain ⟨hstored, -, htaken⟩ := hconsuming
  have hcounted := h.counted
  rw [scratchFrames, List.map_map]
  refine List.map_congr_left fun j hj => ?_
  have hj : j < n := List.mem_range.mp hj
  have hlt : s.log.base + s.read + j < s.log.stored.length := by omega
  rw [Function.comp_apply, List.getElem?_eq_getElem hlt]
  congr 1
  have hlength := h.shaped _ (List.getElem_mem hlt)
  refine List.ext_getElem (by rw [length_frameOf, hlength]) fun d hd hd' => ?_
  have hd : d < p.channels := by rwa [length_frameOf] at hd
  have htaken := htaken d j hd hj (done_all hc hd)
  simp only [entry, ← Nat.add_assoc] at htaken
  rw [List.getElem?_eq_getElem hlt, Option.bind_some, List.getElem?_eq_getElem hd'] at htaken
  simp [frameOf, List.getD_eq_getElem?_getD, htaken]

theorem InOrder.append {stored given more : List (List α)} {limit n : ℕ}
    (h : InOrder stored given limit)
    (hmore : more.map some = (List.range n).map fun j => stored[limit + j]?) :
    InOrder stored (given ++ more) (limit + n) := by
  obtain ⟨positions, horder, hbelow, hgiven⟩ := h
  refine ⟨positions ++ (List.range n).map (limit + ·), ?_, ?_, ?_⟩
  · refine List.pairwise_append.mpr ⟨horder, ?_, ?_⟩
    · refine List.pairwise_map.mpr (List.pairwise_lt_range.imp ?_)
      intro a b hab
      exact Nat.add_lt_add_left hab _
    · intro a ha b hb
      obtain ⟨j, -, rfl⟩ := List.mem_map.mp hb
      exact Nat.lt_of_lt_of_le (hbelow a ha) (Nat.le_add_right _ _)
  · intro k hk
    rcases List.mem_append.mp hk with hold | hnew
    · exact Nat.lt_of_lt_of_le (hbelow k hold) (Nat.le_add_right _ _)
    · obtain ⟨j, hj, rfl⟩ := List.mem_map.mp hnew
      exact Nat.add_lt_add_left (List.mem_range.mp hj) _
  · rw [List.map_append, List.map_append, hgiven, hmore, List.map_map]
    rfl

theorem Kept.read {s s' : State R} (h : Kept p s) {more : List (List α)} {n : ℕ}
    (hfifo : s'.fifo = s.fifo) (hscratch : s'.scratch = s.scratch) (hwrite : s'.write = s.write)
    (hbase : s'.log.base = s.log.base) (hstored : s'.log.stored = s.log.stored)
    (hproducer : s'.producer = s.producer) (hconsumer : s'.consumer = .idle)
    (hread : s'.read = s.read + n) (hgiven : s'.log.given = s.log.given ++ more)
    (hn : s.read + n ≤ s.write)
    (hmore : InOrder s.log.stored (s.log.given ++ more) (s.log.base + s.read + n)) : Kept p s' where
  fifo := by rw [hfifo]; exact h.fifo
  scratch := by rw [hscratch]; exact h.scratch
  behind := by rw [hread, hwrite]; exact hn
  within := by
    have hwithin := h.within
    omega
  counted := by rw [hbase, hwrite, hstored]; exact h.counted
  shaped := by rw [hstored]; exact h.shaped
  holds := by
    have hentry : entry s' = entry s := by
      funext k c
      rw [entry, entry, hbase, hstored]
    rw [hfifo, hread, hwrite, hentry]
    exact h.holds.drop (Nat.le_add_right _ _)
  producing := by
    have hproducing := h.producing
    simp only [Producing, hproducer, hfifo, hwrite, hread]
    cases hs : s.producer with
    | idle => trivial
    | copying u c i =>
      simp only [Producing, hs] at hproducing
      exact ⟨by omega, hproducing.2⟩
  consuming := by simp only [Consuming, hconsumer]
  heard := by
    rw [hstored, hgiven, hbase, hread, ← Nat.add_assoc]
    exact hmore

theorem Kept.release [Zero α] {s : State R} (h : Kept p s) {call : Call} {n c i : ℕ}
    (hconsumer : s.consumer = .taking call n c i) (hc : ¬ c < p.channels) :
    Kept p (release p s call n) := by
  have hconsuming := h.consuming
  simp only [Consuming, hconsumer] at hconsuming
  have hmore := h.heard.append (h.given hconsumer hc)
  cases call with
  | pull out => exact h.read rfl rfl rfl rfl rfl rfl rfl rfl rfl hconsuming.1 hmore
  | drain frames => exact h.read rfl rfl rfl rfl rfl rfl rfl rfl rfl hconsuming.1 hmore

theorem Kept.discard {s : State R} (h : Kept p s) :
    Kept p { s with consumer := .discarding s.write } := by
  have hsame : Aside s { s with consumer := .discarding s.write } :=
    ⟨rfl, rfl, rfl, rfl, rfl, rfl, rfl⟩
  exact h.aside hsame (hsame.producing rfl h.producing) ⟨h.behind, Nat.le_refl _⟩

theorem InOrder.mono {stored given : List (List α)} {limit limit' : ℕ}
    (h : InOrder stored given limit) (hle : limit ≤ limit') : InOrder stored given limit' := by
  obtain ⟨positions, horder, hbelow, hgiven⟩ := h
  exact ⟨positions, horder, fun k hk => Nat.lt_of_lt_of_le (hbelow k hk) hle, hgiven⟩

theorem Kept.discarded {s : State R} (h : Kept p s) {w : ℕ} (hconsumer : s.consumer = .discarding w) :
    Kept p { s with read := w, consumer := .idle } := by
  have hconsuming := h.consuming
  simp only [Consuming, hconsumer] at hconsuming
  obtain ⟨n, rfl⟩ := Nat.exists_eq_add_of_le hconsuming.1
  refine h.read rfl rfl rfl rfl rfl rfl rfl rfl (List.append_nil _).symm hconsuming.2 ?_
  rw [List.append_nil]
  exact h.heard.mono (by omega)

/-! ### What a step can do -/

inductive Step [Zero α] (p : DriftParams) (s : State R) : Act α → State R → Prop where
  | push {planes frames} : s.producer = .idle →
      Step p s (.push planes frames) (push p s planes frames)
  | copyCell {u c i} : s.producer = .copying u c i → c < p.channels → i < u.n →
      Step p s .produce (copyCell p s u c i)
  | copyRow {u c i} : s.producer = .copying u c i → c < p.channels → ¬ i < u.n →
      Step p s .produce { s with producer := .copying u (c + 1) 0 }
  | stored {u c i} : s.producer = .copying u c i → ¬ c < p.channels →
      Step p s .produce (stored p s u)
  | pull {out} : s.consumer = .idle → out.channels = p.channels → Step p s (.pull out) (pull s out)
  | drain {frames measuredFill} : s.consumer = .idle →
      Step p s (.drain frames measuredFill) (drain p s frames measuredFill)
  | discard : s.consumer = .idle → Step p s .discard { s with consumer := .discarding s.write }
  | control {out} : s.consumer = .checked out →
      Step p s .consume { control p s (s.fill - out.frames - p.targetFillFrames) with
        consumer := .converting (.pull out) }
  | converting {call} : s.consumer = .converting call →
      Step p s .consume { s with consumer := .taking call (toTake s call.frames) 0 0 }
  | takeCell {call n c i} : s.consumer = .taking call n c i → c < p.channels → i < n →
      Step p s .consume (takeCell p s call n c i)
  | takeRow {call n c i} : s.consumer = .taking call n c i → c < p.channels → ¬ i < n →
      Step p s .consume { s with consumer := .taking call n (c + 1) 0 }
  | release {call n c i} : s.consumer = .taking call n c i → ¬ c < p.channels →
      Step p s .consume (release p s call n)
  | discarded {w} : s.consumer = .discarding w →
      Step p s .consume { s with read := w, consumer := .idle }
  | reset : s.producer = .idle → s.consumer = .idle → Step p s .reset (reset p s)

theorem produce_cases [Zero α] {s s' : State R} (h : produce p s = some s') :
    Step p s .produce s' := by
  simp only [produce] at h
  split at h
  · cases h
  · rename_i u c i hproducer
    split_ifs at h with hc hi
    · cases h
      exact .copyCell hproducer hc hi
    · cases h
      exact .copyRow hproducer hc hi
    · cases h
      exact .stored hproducer hc

theorem consume_cases [Zero α] {s s' : State R} (h : consume p s = some s') :
    Step p s .consume s' := by
  simp only [consume] at h
  split at h
  · cases h
  · rename_i out hconsumer
    cases h
    exact .control hconsumer
  · rename_i call hconsumer
    cases h
    exact .converting hconsumer
  · rename_i call n c i hconsumer
    split_ifs at h with hc hi
    · cases h
      exact .takeCell hconsumer hc hi
    · cases h
      exact .takeRow hconsumer hc hi
    · cases h
      exact .release hconsumer hc
  · rename_i w hconsumer
    cases h
    exact .discarded hconsumer

theorem step_cases [Zero α] {s s' : State R} {a : Act α} (h : step p s a = some s') :
    Step p s a s' := by
  cases a with
  | push planes frames =>
    simp only [step] at h
    split at h
    · cases h
      exact .push ‹_›
    · cases h
  | produce => exact produce_cases h
  | pull out =>
    simp only [step] at h
    split at h
    · rename_i hidle
      cases h
      exact .pull hidle.1 hidle.2
    · cases h
  | drain frames measuredFill =>
    simp only [step] at h
    split at h
    · cases h
      exact .drain ‹_›
    · cases h
  | discard =>
    simp only [step] at h
    split at h
    · cases h
      exact .discard ‹_›
    · cases h
  | consume => exact consume_cases h
  | reset =>
    simp only [step] at h
    split at h
    · cases h
      exact .reset ‹_› ‹_›
    · cases h

theorem Kept.pull [Zero α] {s : State R} (h : Kept p s) (out : Block) : Kept p (pull s out) := by
  have hsame : Aside s (Drift.pull s out) := by
    unfold Drift.pull
    split <;> exact ⟨rfl, rfl, rfl, rfl, rfl, rfl, rfl⟩
  refine h.aside hsame (hsame.producing ?_ h.producing) ?_
  · unfold Drift.pull
    split <;> rfl
  · unfold Drift.pull
    split
    · exact h.consuming
    · trivial

/-- After a control, the consumer goes on to convert. -/
theorem Kept.controlled {s : State R} (h : Kept p s) (e : ℤ) (call : Call) :
    Kept p { control p s e with consumer := .converting call } := by
  have hsame : Aside s { Drift.control p s e with consumer := .converting call } :=
    ⟨rfl, rfl, rfl, rfl, rfl, rfl, rfl⟩
  exact h.aside hsame (hsame.producing rfl h.producing) trivial

theorem Kept.step [Zero α] {s s' : State R} {a : Act α} (h : Kept p s) (hstep : Step p s a s') :
    Kept p s' := by
  cases hstep with
  | push => exact h.push _ _
  | copyCell hproducer hc hi => exact h.copyCell hproducer hc hi
  | copyRow hproducer _ hi => exact h.copyRow hproducer hi
  | stored hproducer hc => exact h.stored hproducer hc
  | pull => exact h.pull _
  | drain => exact h.controlled _ _
  | discard => exact h.discard
  | control => exact h.controlled _ _
  | converting => exact h.converting _
  | takeCell hconsumer hc hi => exact h.takeCell hconsumer hc hi
  | takeRow hconsumer _ hi => exact h.takeRow hconsumer hi
  | release hconsumer hc => exact h.release hconsumer hc
  | discarded hconsumer => exact h.discarded hconsumer
  | reset hproducer hconsumer => exact h.reset hproducer hconsumer

end NdimonR.Decoder.Drift
