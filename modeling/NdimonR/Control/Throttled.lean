import Mathlib.Data.List.Dedup
import Mathlib.Data.List.Induction
import NdimonR.Control.Throttle

/-! What the tables of the limiters say of the failures that happened. -/

namespace NdimonR.Control.Throttle

open Attempts Types

/-! ### What happened -/

/-- The failures of a source since its last success. -/
def failuresOf (log : List Attempt) (src : IpAddr) : List ℕ :=
  log.foldl (fun times a =>
    match a with
    | .failed s time => if s = src then times ++ [time] else times
    | .succeeded s => if s = src then [] else times) []

def tokenFailures (log : List (IpAddr × ℕ)) (peer : IpAddr) : List ℕ :=
  (log.filter fun e => e.1 = peer).map Prod.snd

def window : ℕ := 60 * second

/-- The failures of the last 60 seconds. -/
def lately (now : ℕ) (times : List ℕ) : List ℕ := times.filter (recent window now)

def wait (k : ℕ) : ℕ := min (2 ^ (k - 5)) 30 * second

/-- What lets a source try. -/
def Allowed (log : List Attempt) (src : IpAddr) (now : ℕ) : Prop :=
  (lately now (failuresOf log src)).length < 5 ∨
    ∀ t ∈ lately now (failuresOf log src),
      wait (lately now (failuresOf log src)).length ≤ now - t

/-- The source of a failure younger than the window at a time. -/
def Attempt.young (time : ℕ) : Attempt → Option IpAddr
  | .failed src t => if t ≤ time ∧ time < t + window then some src else none
  | .succeeded _ => none

def youngPeer (time : ℕ) (e : IpAddr × ℕ) : Option IpAddr :=
  if e.2 ≤ time ∧ time < e.2 + window then some e.1 else none

/-- At no time have 4096 sources failures younger than the window. -/
def Few (log : List Attempt) (tokenLog : List (IpAddr × ℕ)) : Prop :=
  ∀ time, (log.filterMap (Attempt.young time)).dedup.length < 4096 ∧
    (tokenLog.filterMap (youngPeer time)).dedup.length < 4096

theorem failuresOf_failed (log : List Attempt) (s src : IpAddr) (time : ℕ) :
    failuresOf (log ++ [.failed s time]) src =
      if s = src then failuresOf log src ++ [time] else failuresOf log src := by
  simp [failuresOf]

theorem failuresOf_succeeded (log : List Attempt) (s src : IpAddr) :
    failuresOf (log ++ [.succeeded s]) src = if s = src then [] else failuresOf log src := by
  simp [failuresOf]

theorem tokenFailures_concat (log : List (IpAddr × ℕ)) (e : IpAddr × ℕ) (peer : IpAddr) :
    tokenFailures (log ++ [e]) peer =
      tokenFailures log peer ++ if e.1 = peer then [e.2] else [] := by
  by_cases h : e.1 = peer <;> simp [tokenFailures, h]

theorem mem_failuresOf {log : List Attempt} {src : IpAddr} {t : ℕ} (h : t ∈ failuresOf log src) :
    .failed src t ∈ log := by
  induction log using List.reverseRecOn with
  | nil => exact absurd h List.not_mem_nil
  | append_singleton log a ih =>
    cases a with
    | failed s time =>
      rw [failuresOf_failed] at h
      split at h
      · rename_i hs
        rcases List.mem_append.mp h with h | h
        · exact List.mem_append_left _ (ih h)
        · rw [List.mem_singleton.mp h, hs]
          simp
      · exact List.mem_append_left _ (ih h)
    | succeeded s =>
      rw [failuresOf_succeeded] at h
      split at h
      · exact absurd h List.not_mem_nil
      · exact List.mem_append_left _ (ih h)

theorem Few.of_prefix {log later : List Attempt} {tokenLog laterTokens : List (IpAddr × ℕ)}
    (h : Few later laterTokens) (hlog : log <+: later) (htokens : tokenLog <+: laterTokens) :
    Few log tokenLog := by
  have hless : ∀ {xs ys : List IpAddr}, xs <+: ys → xs.dedup.length ≤ ys.dedup.length := by
    intro xs ys hxs
    apply (List.nodup_dedup xs).length_le_of_subset
    intro x hx
    exact List.mem_dedup.mpr (hxs.subset (List.mem_dedup.mp hx))
  intro time
  obtain ⟨hsources, hpeers⟩ := h time
  exact ⟨(hless (hlog.filterMap _)).trans_lt hsources,
    (hless (htokens.filterMap _)).trans_lt hpeers⟩

/-! ### The tables -/

/-- Nothing is later than this. -/
def Before (log : List Attempt) (time : ℕ) : Prop := ∀ src, ∀ t ∈ failuresOf log src, t ≤ time

def BeforeTokens (log : List (IpAddr × ℕ)) (time : ℕ) : Prop := ∀ e ∈ log, e.2 ≤ time

structure FailuresInv (f : Failures) (log : List Attempt) (clock : ℕ) : Prop where
  sorted : ∀ src, (failuresOf log src).Pairwise (· ≤ ·)
  before : Before log clock
  keyed : Keyed f.perAddress
  tracks : ∀ src, Tracks window 10 clock (failuresOf log src) (times f.perAddress src)
  sources : f.perAddress.length ≤ 4096
  all : f.all.length ≤ 53

structure PeersInv (peers : Table IpAddr) (log : List (IpAddr × ℕ)) (clock : ℕ) : Prop where
  sorted : ∀ peer, (tokenFailures log peer).Pairwise (· ≤ ·)
  before : BeforeTokens log clock
  keyed : Keyed peers
  tracks : ∀ peer, Tracks window 5 clock (tokenFailures log peer) (times peers peer)
  sources : peers.length ≤ 4096

variable {walk : Walk IpAddr}

theorem FailuresInv.later {f : Failures} {log : List Attempt} {clock later : ℕ}
    (h : FailuresInv f log clock) (hle : clock ≤ later) : FailuresInv f log later :=
  ⟨h.sorted, fun src t ht => (h.before src t ht).trans hle, h.keyed,
    fun src => (h.tracks src).later hle, h.sources, h.all⟩

theorem PeersInv.later {peers : Table IpAddr} {log : List (IpAddr × ℕ)} {clock later : ℕ}
    (h : PeersInv peers log clock) (hle : clock ≤ later) : PeersInv peers log later :=
  ⟨h.sorted, fun e he => (h.before e he).trans hle, h.keyed,
    fun peer => (h.tracks peer).later hle, h.sources⟩

theorem FailuresInv.prune {f : Failures} {log : List Attempt} {clock read : ℕ}
    (h : FailuresInv f log clock) (hread : read ≤ clock) :
    FailuresInv ((LoginLimiter.default walk).prune f read) log clock := by
  refine ⟨h.sorted, h.before, keyed_pruned h.keyed _ _, ?_, ?_, ?_⟩
  · intro src
    rw [LoginLimiter.prune, times_pruned h.keyed]
    exact (h.tracks src).prune (h.sorted src) hread
  · exact (length_pruned_le _ _ _).trans h.sources
  · exact (List.length_filter_le _ _).trans h.all

theorem PeersInv.prune {peers : Table IpAddr} {log : List (IpAddr × ℕ)} {clock read : ℕ}
    (h : PeersInv peers log clock) (hread : read ≤ clock) :
    PeersInv (pruned window read peers) log clock := by
  refine ⟨h.sorted, h.before, keyed_pruned h.keyed _ _, ?_, ?_⟩
  · intro peer
    rw [times_pruned h.keyed]
    exact (h.tracks peer).prune (h.sorted peer) hread
  · exact (length_pruned_le _ _ _).trans h.sources

theorem FailuresInv.succeeded {f : Failures} {log : List Attempt} {clock : ℕ}
    (h : FailuresInv f log clock) (address : IpAddr) :
    FailuresInv (Throttle.succeeded f address) (log ++ [.succeeded (source address)]) clock := by
  refine ⟨?_, ?_, keyed_without h.keyed _, ?_, ?_, h.all⟩
  · intro src
    rw [failuresOf_succeeded]
    split
    · exact List.Pairwise.nil
    · exact h.sorted src
  · intro src t ht
    rw [failuresOf_succeeded] at ht
    split at ht
    · exact absurd ht List.not_mem_nil
    · exact h.before src t ht
  · intro src
    rw [failuresOf_succeeded, Throttle.succeeded, times_without h.keyed]
    by_cases hs : source address = src
    · rw [if_pos hs, if_pos hs.symm]
      exact Tracks.nil _ _ _
    · rw [if_neg hs, if_neg (Ne.symm hs)]
      exact h.tracks src
  · exact (List.length_filter_le _ _).trans h.sources

/-- A time that a window keeps and that is not ahead is young. -/
theorem young_of_recent {time t : ℕ} (hle : t ≤ time) (h : recent window time t = true) :
    t ≤ time ∧ time < t + window := by
  simp only [recent, decide_eq_true_eq] at h
  omega

/-- Pruned, the table has a place to spare. -/
theorem FailuresInv.room {f : Failures} {log : List Attempt} {tokenLog : List (IpAddr × ℕ)}
    {clock read : ℕ} (h : FailuresInv f log clock) (few : Few log tokenLog)
    (latest : Before log read) : (pruned window read f.perAddress).length < 4096 := by
  refine (length_pruned_le_of h.keyed (log.filterMap (Attempt.young read)).dedup ?_).trans_lt
    (few read).1
  intro src t ht hrecent
  have hmem := (h.tracks src).mem ht
  rw [List.mem_dedup, List.mem_filterMap]
  refine ⟨.failed src t, mem_failuresOf hmem, ?_⟩
  rw [Attempt.young, if_pos (young_of_recent (latest src t hmem) hrecent)]

theorem mem_tokenFailures {log : List (IpAddr × ℕ)} {peer : IpAddr} {t : ℕ} :
    t ∈ tokenFailures log peer ↔ (peer, t) ∈ log := by
  simp only [tokenFailures, List.mem_map, List.mem_filter, decide_eq_true_eq]
  constructor
  · rintro ⟨⟨p, u⟩, ⟨hmem, rfl⟩, rfl⟩
    exact hmem
  · intro hmem
    exact ⟨(peer, t), ⟨hmem, rfl⟩, rfl⟩

theorem PeersInv.room {peers : Table IpAddr} {log : List Attempt} {tokenLog : List (IpAddr × ℕ)}
    {clock read : ℕ} (h : PeersInv peers tokenLog clock) (few : Few log tokenLog)
    (latest : BeforeTokens tokenLog read) : (pruned window read peers).length < 4096 := by
  refine (length_pruned_le_of h.keyed (tokenLog.filterMap (youngPeer read)).dedup ?_).trans_lt
    (few read).2
  intro peer t ht hrecent
  have hmem := mem_tokenFailures.mp ((h.tracks peer).mem ht)
  rw [List.mem_dedup, List.mem_filterMap]
  refine ⟨(peer, t), hmem, ?_⟩
  rw [youngPeer, if_pos (young_of_recent (latest _ hmem) hrecent)]

theorem FailuresInv.failed {f : Failures} {log : List Attempt} {tokenLog : List (IpAddr × ℕ)}
    {clock read : ℕ} (h : FailuresInv f log clock) (few : Few log tokenLog)
    (latest : Before log read) (hread : read ≤ clock) (address : IpAddr) :
    FailuresInv ((LoginLimiter.default walk).failed f address read)
      (log ++ [.failed (source address) read]) clock := by
  have hpruned := @FailuresInv.prune walk _ _ _ _ h hread
  have hroom : makeRoom walk LoginLimiter.maxSources
      (pruned (60 * second) read f.perAddress) (source address) =
      pruned (60 * second) read f.perAddress := makeRoom_of_lt (h.room few latest) walk _
  have hkeyed : Keyed (pruned (60 * second) read f.perAddress) := hpruned.keyed
  refine ⟨?_, ?_, ?_, ?_, ?_, ?_⟩
  · intro src
    rw [failuresOf_failed]
    split
    · apply List.pairwise_append.mpr
      refine ⟨h.sorted src, List.pairwise_singleton _ _, ?_⟩
      intro t ht u hu
      rw [List.mem_singleton.mp hu]
      exact latest src t ht
    · exact h.sorted src
  · intro src t ht
    rw [failuresOf_failed] at ht
    split at ht
    · rcases List.mem_append.mp ht with ht | ht
      · exact h.before src t ht
      · rwa [List.mem_singleton.mp ht]
    · exact h.before src t ht
  · exact keyed_update (keyed_makeRoom hkeyed _ _ _) _ _
  · intro src
    simp only [LoginLimiter.failed, LoginLimiter.prune, LoginLimiter.default, hroom]
    rw [failuresOf_failed, times_update hkeyed]
    by_cases hs : source address = src
    · rw [if_pos hs, if_pos hs.symm, hs]
      exact (hpruned.tracks src).push (by omega) read
    · rw [if_neg hs, if_neg (Ne.symm hs)]
      exact hpruned.tracks src
  · exact length_bounded (by decide) hpruned.sources walk _ _
  · exact length_push (by omega) hpruned.all read

/-- A token failure of a peer whose record has room, as the table has. -/
theorem PeersInv.record {peers : Table IpAddr} {log : List (IpAddr × ℕ)} {clock read : ℕ}
    (h : PeersInv peers log clock) (latest : BeforeTokens log read) (hread : read ≤ clock)
    {peer : IpAddr} (few : (times peers (normalized peer)).length < 5)
    (room : peers.length < 4096) :
    PeersInv (Limiter.record peers peer read) (log ++ [(normalized peer, read)]) clock := by
  have hpush : times peers (normalized peer) ++ [read] =
      push 5 read (times peers (normalized peer)) := by
    rw [push, if_neg (Nat.not_le.mpr few)]
  refine ⟨?_, ?_, ?_, ?_, ?_⟩
  · intro p
    rw [tokenFailures_concat]
    split
    · apply List.pairwise_append.mpr
      refine ⟨h.sorted p, List.pairwise_singleton _ _, ?_⟩
      intro t ht u hu
      rw [List.mem_singleton.mp hu]
      exact latest _ (mem_tokenFailures.mp ht)
    · rw [List.append_nil]
      exact h.sorted p
  · intro e he
    rcases List.mem_append.mp he with he | he
    · exact h.before e he
    · rwa [List.mem_singleton.mp he]
  · rw [Limiter.record]
    exact keyed_update (keyed_makeRoom h.keyed _ _ _) _ _
  · intro p
    rw [Limiter.record, makeRoom_of_lt room, times_update h.keyed, tokenFailures_concat]
    by_cases hp : normalized peer = p
    · rw [if_pos hp, if_pos hp.symm, if_pos few, hpush, hp]
      exact (h.tracks p).push (by omega) read
    · rw [if_neg hp, if_neg (Ne.symm hp), List.append_nil]
      exact h.tracks p
  · rw [Limiter.record]
    exact length_bounded (by decide) h.sources inOrder _ _

/-! ### What a check finds -/

theorem default_perAddress : (LoginLimiter.default walk).perAddress = 5 := rfl

theorem waitSeconds_default (count : ℕ) :
    (LoginLimiter.default walk).waitSeconds count = min (2 ^ min (count - 5) 5) 30 := by
  simp [LoginLimiter.waitSeconds, LoginLimiter.shift, LoginLimiter.default, Nat.shiftLeft_eq]

theorem waitSeconds_eq {count : ℕ} (h : count ≤ 10) :
    (LoginLimiter.default walk).waitSeconds count * second = wait count := by
  have hshift : min (count - 5) 5 = count - 5 := by omega
  rw [waitSeconds_default, wait, hshift]

theorem wait_mono {k m : ℕ} (h : k ≤ m) : wait k ≤ wait m := by
  have hpow : 2 ^ (k - 5) ≤ 2 ^ (m - 5) := Nat.pow_le_pow_right (by omega) (by omega)
  have hmin : min (2 ^ (k - 5)) 30 ≤ min (2 ^ (m - 5)) 30 := min_le_min_right 30 hpow
  rw [wait, wait]
  exact Nat.mul_le_mul_right second hmin

theorem wait_le (k : ℕ) : wait k ≤ wait 10 := by
  have hten : min (2 ^ (10 - 5)) 30 = 30 := by decide
  have hmin : min (2 ^ (k - 5)) 30 ≤ 30 := min_le_right _ _
  rw [wait, wait, hten]
  exact Nat.mul_le_mul_right second hmin

theorem waited {wait elapsed : ℕ}
    (h : (if elapsed < wait then some (wait - elapsed) else none) = none) : wait ≤ elapsed := by
  by_contra hless
  rw [if_pos (Nat.lt_of_not_le hless)] at h
  cases h

/-- What a check answers, on the pruned times of the source. -/
def LoginLimiter.answer (l : LoginLimiter) (kept : List ℕ) (now : ℕ) : Option ℕ :=
  if kept.length < l.perAddress then none
  else kept.getLast?.bind fun last =>
    if now - last < l.waitSeconds kept.length * second then
      some (l.waitSeconds kept.length * second - (now - last))
    else none

theorem retryAfter_fst (l : LoginLimiter) (f : Failures) (address : IpAddr) (now : ℕ) :
    (l.retryAfter f address now).1 =
      l.answer (times (l.prune f now).perAddress (source address)) now := rfl

theorem answer_of_few {l : LoginLimiter} {kept : List ℕ} (h : kept.length < l.perAddress)
    (now : ℕ) : l.answer kept now = none := if_pos h

theorem answer_last {l : LoginLimiter} {kept : List ℕ} {last now : ℕ}
    (many : l.perAddress ≤ kept.length) (hlast : kept.getLast? = some last)
    (passed : l.answer kept now = none) : l.waitSeconds kept.length * second ≤ now - last := by
  rw [LoginLimiter.answer, if_neg (Nat.not_lt.mpr many), hlast, Option.bind_some] at passed
  exact waited passed

/-- Where the check lets a source pass, it is allowed at present. -/
theorem allowed_of_check {f : Failures} {log : List Attempt} {clock read : ℕ} {address : IpAddr}
    (h : FailuresInv f log clock) (hread : read ≤ clock)
    (passed : ((LoginLimiter.default walk).retryAfter f address read).1 = none) :
    Allowed log (source address) clock := by
  have htracks := (@FailuresInv.prune walk _ _ _ _ h hread).tracks (source address)
  rw [retryAfter_fst] at passed
  generalize times ((LoginLimiter.default walk).prune f read).perAddress (source address) = kept
    at htracks passed
  obtain ⟨-, -, hlength, -⟩ := id htracks
  by_cases hfew : kept.length < 5
  · exact .inl ((htracks.count_le (by omega)).trans_lt hfew)
  · right
    have hsome : kept ≠ [] := by
      rintro rfl
      exact hfew (Nat.succ_pos 4)
    obtain ⟨last, hlast⟩ : ∃ last, kept.getLast? = some last :=
      ⟨kept.getLast hsome, List.getLast?_eq_some_getLast hsome⟩
    have hwaited : wait kept.length ≤ read - last := by
      rw [← @waitSeconds_eq walk _ hlength]
      exact answer_last (Nat.not_lt.mp hfew) hlast passed
    intro t ht
    have hle : t ≤ last := htracks.le_last (h.sorted _) hlast t (List.mem_of_mem_filter ht)
    have hmore : wait (lately clock (failuresOf log (source address))).length ≤
        wait kept.length := by
      by_cases hfull : kept.length < 10
      · exact wait_mono (htracks.count_le hfull)
      · have hten : kept.length = 10 := by omega
        rw [hten]
        exact wait_le _
    omega

/-- A source that has to wait has at least five failures by the clock it was checked with. -/
theorem five_of_refused {f : Failures} {log : List Attempt} {clock read retry : ℕ}
    {address : IpAddr} (h : FailuresInv f log clock)
    (refused : ((LoginLimiter.default walk).retryAfter f address read).1 = some retry) :
    5 ≤ (lately read (failuresOf log (source address))).length := by
  have hle := (h.tracks (source address)).le_count read
  rw [retryAfter_fst, LoginLimiter.prune, times_pruned h.keyed] at refused
  by_contra hfew
  rw [answer_of_few] at refused
  · cases refused
  · exact hle.trans_lt (Nat.lt_of_not_le hfew)

end NdimonR.Control.Throttle
