import NdimonR.Control.Throttled

/-! Guessing is throttled, and others are not, in every run of requests. -/

namespace NdimonR.Control.Throttle

open Attempts Types

variable {walk : Walk IpAddr}

/-! ### Every step -/

def Phase.holdsAuth : Phase → Bool
  | .entered _ _ | .verifying _ _ | .setting _ => true
  | _ => false

def Phase.holdsToken : Phase → Bool
  | .tokenEntered _ _ _ | .tokenTried _ _ _ => true
  | _ => false

/-- What holds of each request: behind a gate it is alone, and nothing came between. -/
structure Ready (s : State) (id : ℕ) : Prop where
  since : (s.requests id).since ≤ s.clock
  auth : (s.phase id).holdsAuth = true →
    s.authGate = some id ∧ Before s.log (s.requests id).since
  token : (s.phase id).holdsToken = true →
    s.tokenGate = some id ∧ BeforeTokens s.tokenLog (s.requests id).since
  allowed : ∀ op address, s.phase id = .verifying op address →
    Allowed s.log (source address) s.clock
  tried : ∀ call peer token, s.phase id = .tokenTried call peer token →
    (times s.peers (normalized peer)).length < 5 ∧ s.peers.length < 4096

/-- The invariant, except for the request that is going on. -/
structure But (id : ℕ) (s : State) : Prop where
  failures : FailuresInv s.failures s.log s.clock
  peers : PeersInv s.peers s.tokenLog s.clock
  others : ∀ j, j ≠ id → Ready s j

structure Inv (s : State) : Prop where
  failures : FailuresInv s.failures s.log s.clock
  peers : PeersInv s.peers s.tokenLog s.clock
  ready : ∀ id, Ready s id

theorem Inv.but {s : State} (h : Inv s) (id : ℕ) : But id s :=
  ⟨h.failures, h.peers, fun j _ => h.ready j⟩

/-- A request that is nowhere near a gate. -/
theorem ready_of_quiet {s : State} {id : ℕ} (since : (s.requests id).since ≤ s.clock)
    (auth : (s.phase id).holdsAuth = false) (token : (s.phase id).holdsToken = false) :
    Ready s id := by
  refine ⟨since, ?_, ?_, ?_, ?_⟩
  · intro h
    rw [auth] at h
    cases h
  · intro h
    rw [token] at h
    cases h
  · intro op address h
    rw [h] at auth
    cases auth
  · intro call peer t h
    rw [h] at token
    cases token

theorem start_inv : Inv start := by
  refine ⟨⟨fun _ => List.Pairwise.nil, fun _ _ h => absurd h List.not_mem_nil, List.nodup_nil,
    fun _ => Tracks.nil _ _ _, Nat.zero_le _, Nat.zero_le _⟩,
    ⟨fun _ => List.Pairwise.nil, fun _ h => absurd h List.not_mem_nil, List.nodup_nil,
    fun _ => Tracks.nil _ _ _, Nat.zero_le _⟩, ?_⟩
  intro id
  exact ready_of_quiet (Nat.le_refl 0) rfl rfl

variable {s : State} {id : ℕ}

theorem phase_to (s : State) (id : ℕ) (q : Phase) : (s.to id q).phase id = q := by
  simp [State.phase, State.to]

theorem since_to (s : State) (id : ℕ) (q : Phase) : ((s.to id q).requests id).since = s.clock := by
  simp [State.to]

theorem requests_to {j : ℕ} (h : j ≠ id) (q : Phase) :
    (s.to id q).requests j = s.requests j := by
  simp [State.to, h]

theorem But.to {q : Phase} (h : But id s) (ready : Ready (s.to id q) id) : Inv (s.to id q) := by
  refine ⟨h.failures, h.peers, ?_⟩
  intro j
  by_cases hj : j = id
  · exact hj ▸ ready
  · obtain ⟨hsince, hauth, htoken, hallowed, htried⟩ := h.others j hj
    have hsame : (s.to id q).requests j = s.requests j := requests_to hj q
    have hphase : (s.to id q).phase j = s.phase j := by rw [State.phase, hsame, State.phase]
    refine ⟨?_, ?_, ?_, ?_, ?_⟩
    · rw [hsame]
      exact hsince
    · rw [hphase, hsame]
      exact hauth
    · rw [hphase, hsame]
      exact htoken
    · rw [hphase]
      exact hallowed
    · rw [hphase]
      exact htried

theorem But.toQuiet {q : Phase} (h : But id s) (auth : q.holdsAuth = false)
    (token : q.holdsToken = false) : Inv (s.to id q) := by
  apply h.to
  apply ready_of_quiet
  · rw [since_to]
    exact Nat.le_refl _
  · rwa [phase_to]
  · rwa [phase_to]

theorem But.release (h : But id s) : But id (s.release id) := by
  refine ⟨h.failures, h.peers, ?_⟩
  intro j hj
  obtain ⟨hsince, hauth, htoken, hallowed, htried⟩ := h.others j hj
  refine ⟨hsince, ?_, ?_, hallowed, htried⟩
  · intro hholds
    obtain ⟨hgate, hbefore⟩ := hauth hholds
    refine ⟨?_, hbefore⟩
    rw [State.release, if_neg]
    · exact hgate
    · rw [hgate]
      exact fun h => hj (Option.some.inj h)
  · intro hholds
    obtain ⟨hgate, hbefore⟩ := htoken hholds
    refine ⟨?_, hbefore⟩
    rw [State.release, if_neg (c := s.tokenGate = some id)]
    · exact hgate
    · rw [hgate]
      exact fun h => hj (Option.some.inj h)

theorem But.finish (h : But id s) (reply : Reply) : Inv (s.finish id reply) :=
  h.release.toQuiet rfl rfl

/-- Behind the gate of the passwords nobody else is. -/
theorem But.alone (h : But id s) (gate : s.authGate = some id ∨ s.authGate = none) {j : ℕ}
    (hj : j ≠ id) : (s.phase j).holdsAuth = false := by
  cases hholds : (s.phase j).holdsAuth with
  | false => rfl
  | true =>
    have hgate := ((h.others j hj).auth hholds).1
    rcases gate with hid | hnone
    · rw [hid] at hgate
      exact absurd (Option.some.inj hgate).symm hj
    · rw [hnone] at hgate
      cases hgate

theorem But.aloneToken (h : But id s) (gate : s.tokenGate = some id ∨ s.tokenGate = none) {j : ℕ}
    (hj : j ≠ id) : (s.phase j).holdsToken = false := by
  cases hholds : (s.phase j).holdsToken with
  | false => rfl
  | true =>
    have hgate := ((h.others j hj).token hholds).1
    rcases gate with hid | hnone
    · rw [hid] at hgate
      exact absurd (Option.some.inj hgate).symm hj
    · rw [hnone] at hgate
      cases hgate

/-- Changes that only whoever is behind the gate of the passwords makes. -/
theorem But.passwords {failures : Failures} {log : List Attempt} {gate : Option ℕ}
    (h : But id s) (held : s.authGate = some id ∨ s.authGate = none)
    (kept : FailuresInv failures log s.clock) :
    But id { s with failures := failures, log := log, authGate := gate } := by
  refine ⟨kept, h.peers, ?_⟩
  intro j hj
  have hready := h.others j hj
  have halone := h.alone held hj
  refine ⟨hready.since, ?_, hready.token, ?_, hready.tried⟩
  · intro hholds
    rw [show (s.phase j).holdsAuth = true from hholds] at halone
    cases halone
  · intro op address hphase
    rw [show s.phase j = .verifying op address from hphase] at halone
    cases halone

theorem But.tokens {peers : Table IpAddr} {log : List (IpAddr × ℕ)} {gate : Option ℕ}
    (h : But id s) (held : s.tokenGate = some id ∨ s.tokenGate = none)
    (kept : PeersInv peers log s.clock) :
    But id { s with peers := peers, tokenLog := log, tokenGate := gate } := by
  refine ⟨h.failures, kept, ?_⟩
  intro j hj
  have hready := h.others j hj
  have halone := h.aloneToken held hj
  refine ⟨hready.since, hready.auth, ?_, hready.allowed, ?_⟩
  · intro hholds
    rw [show (s.phase j).holdsToken = true from hholds] at halone
    cases halone
  · intro call peer token hphase
    rw [show s.phase j = .tokenTried call peer token from hphase] at halone
    cases halone

/-- A look at the failures, which anybody may take. -/
theorem But.failuresPruned {failures : Failures} (h : But id s)
    (kept : FailuresInv failures s.log s.clock) :
    But id { s with failures := failures } :=
  ⟨kept, h.peers, fun j hj =>
    ⟨(h.others j hj).since, (h.others j hj).auth, (h.others j hj).token, (h.others j hj).allowed,
      (h.others j hj).tried⟩⟩

/-- A request that goes on now, with the gates its phase needs. -/
theorem But.ready {q : Phase} (h : But id s) (auth : q.holdsAuth = true → s.authGate = some id)
    (token : q.holdsToken = true → s.tokenGate = some id)
    (allowed : ∀ op address, q = .verifying op address → Allowed s.log (source address) s.clock)
    (tried : ∀ call peer t, q = .tokenTried call peer t →
      (times s.peers (normalized peer)).length < 5 ∧ s.peers.length < 4096) :
    Ready (s.to id q) id := by
  refine ⟨?_, ?_, ?_, ?_, ?_⟩
  · rw [since_to]
    exact Nat.le_refl _
  · rw [phase_to, since_to]
    intro hq
    exact ⟨auth hq, h.failures.before⟩
  · rw [phase_to, since_to]
    intro hq
    exact ⟨token hq, h.peers.before⟩
  · rw [phase_to]
    exact allowed
  · rw [phase_to]
    exact tried

theorem But.check {next : Phase} {read : ℕ} {address : IpAddr} (h : But id s)
    (hread : read ≤ s.clock) (auth : next.holdsAuth = true → s.authGate = some id)
    (token : next.holdsToken = false)
    (checked : ∀ op a, next = .verifying op a → a = address) :
    Inv (s.check (.default walk) id read address next) := by
  have hpruned := h.failuresPruned (@FailuresInv.prune walk _ _ _ _ h.failures hread)
  simp only [State.check]
  cases hretry : ((LoginLimiter.default walk).retryAfter s.failures address read).1 with
  | some retry => exact hpruned.finish _
  | none =>
    apply hpruned.to
    apply hpruned.ready auth
    · intro hq
      rw [token] at hq
      cases hq
    · intro op a hq
      rw [checked op a hq]
      exact allowed_of_check h.failures hread hretry
    · intro call peer t hq
      rw [hq] at token
      cases token

theorem But.succeed (h : But id s) (held : s.authGate = some id) (address : IpAddr) :
    But id (s.succeed address) :=
  h.passwords (.inl held) (h.failures.succeeded address)

theorem But.fail {read : ℕ} (h : But id s) (few : Few s.log s.tokenLog)
    (held : s.authGate = some id) (latest : Before s.log read) (hread : read ≤ s.clock)
    (address : IpAddr) : But id (s.fail (.default walk) address read) :=
  h.passwords (.inl held) (h.failures.failed few latest hread address)

theorem But.verified {read : ℕ} (h : But id s) (few : Few s.log s.tokenLog)
    (held : s.authGate = some id) (latest : Before s.log read) (hread : read ≤ s.clock)
    (address : IpAddr) (op : Operation) (v : Verdict) :
    Inv (s.verified (.default walk) id read address op v) := by
  cases v with
  | error => cases op <;> exact h.finish _
  | wrong => cases op <;> exact (h.fail few held latest hread address).finish _
  | right =>
    cases op with
    | login => exact (h.succeed held address).finish _
    | changePassword field new =>
      simp only [State.verified]
      split
      · exact h.finish _
      · apply h.to
        exact h.ready (fun _ => held) nofun nofun nofun

theorem But.checkToken {read : ℕ} (h : But id s) (few : Few s.log s.tokenLog)
    (held : s.tokenGate = some id) (latest : BeforeTokens s.tokenLog read) (hread : read ≤ s.clock)
    (call : TokenCall) (peer : IpAddr) (token : String) :
    Inv (s.checkToken id read call peer token) := by
  have hpruned : But id { s with peers := pruned window read s.peers } :=
    h.tokens (.inl held) (h.peers.prune hread)
  simp only [State.checkToken, Limiter.limited]
  by_cases hlimited : 5 ≤ (times (pruned Limiter.window read s.peers) (normalized peer)).length
  · simp only [hlimited, decide_true, if_true]
    exact hpruned.finish _
  · simp only [hlimited, decide_false, Bool.false_eq_true, if_false]
    split
    · apply hpruned.to
      apply hpruned.ready
      · intro hq
        cases hq
      · intro _
        exact held
      · intro op a hq
        cases hq
      · intro c p t hq
        cases hq
        exact ⟨Nat.lt_of_not_le hlimited, h.peers.room few latest⟩
    · exact hpruned.finish _

theorem But.answerToken {read : ℕ} {peer : IpAddr} (h : But id s) (held : s.tokenGate = some id)
    (latest : BeforeTokens s.tokenLog read) (hread : read ≤ s.clock)
    (tried : (times s.peers (normalized peer)).length < 5 ∧ s.peers.length < 4096)
    (e : Option ApiError) : Inv (s.answerToken id read peer e) := by
  cases e with
  | none => exact h.finish _
  | some e =>
    simp only [State.answerToken]
    split
    · exact (h.tokens (.inl held) (h.peers.record latest hread tried.1 tried.2)).finish _
    · exact h.finish _

theorem resume_inv {s' : State} {read : ℕ} {outcome : Outcome} (h : Inv s)
    (few : Few s.log s.tokenLog) (since : (s.requests id).since ≤ read) (hread : read ≤ s.clock)
    (hstep : s.resume (.default walk) id read (s.phase id) outcome = some s') : Inv s' := by
  have hbut := h.but id
  have hready := h.ready id
  have hlatest : (s.phase id).holdsAuth = true → s.authGate = some id ∧ Before s.log read :=
    fun hq => ⟨(hready.auth hq).1, fun src t ht => ((hready.auth hq).2 src t ht).trans since⟩
  have hlatestToken : (s.phase id).holdsToken = true →
      s.tokenGate = some id ∧ BeforeTokens s.tokenLog read :=
    fun hq => ⟨(hready.token hq).1, fun e he => ((hready.token hq).2 e he).trans since⟩
  have htried := hready.tried
  generalize s.phase id = phase at hstep hlatest hlatestToken htried
  unfold State.resume at hstep
  split at hstep
  · cases hstep
    exact hbut.check hread nofun rfl nofun
  · cases hstep
    exact (hbut.failuresPruned (h.failures.prune hread)).toQuiet rfl rfl
  · split at hstep
    · cases hstep
      exact hbut.toQuiet rfl rfl
    · cases hstep
  · split at hstep
    · rename_i hfree
      cases hstep
      have hheld : But id { s with authGate := some id } :=
        hbut.passwords (.inr hfree) h.failures
      exact hheld.to (hheld.ready (fun _ => rfl) nofun nofun nofun)
    · cases hstep
  · cases hstep
    apply hbut.check hread (fun _ => (hlatest rfl).1) rfl
    intro op a hq
    cases hq
    rfl
  · cases hstep
    exact hbut.verified few (hlatest rfl).1 (hlatest rfl).2 hread _ _ _
  · rename_i address ok
    cases hstep
    cases ok with
    | true => exact (hbut.succeed (hlatest rfl).1 address).finish _
    | false => exact hbut.finish _
  · split at hstep
    · rename_i hfree
      cases hstep
      have hheld : But id { s with tokenGate := some id } := hbut.tokens (.inr hfree) h.peers
      exact hheld.to (hheld.ready nofun (fun _ => rfl) nofun nofun)
    · cases hstep
  · cases hstep
    exact hbut.checkToken few (hlatestToken rfl).1 (hlatestToken rfl).2 hread _ _ _
  · cases hstep
    exact hbut.answerToken (hlatestToken rfl).1 (hlatestToken rfl).2 hread (htried _ _ _ rfl) _
  · cases hstep

/-- With time more is allowed. -/
theorem Allowed.later {log : List Attempt} {src : IpAddr} {now later : ℕ}
    (h : Allowed log src now) (hle : now ≤ later) : Allowed log src later := by
  have hsub : ∀ t, t ∈ lately later (failuresOf log src) → t ∈ lately now (failuresOf log src) := by
    intro t ht
    obtain ⟨hmem, hrecent⟩ := List.mem_filter.mp ht
    exact List.mem_filter.mpr ⟨hmem, recent_earlier hle hrecent⟩
  have hfewer : (lately later (failuresOf log src)).length ≤
      (lately now (failuresOf log src)).length := by
    apply List.Sublist.length_le
    apply List.monotone_filter_right
    intro t ht
    exact recent_earlier hle ht
  rcases h with hfew | hwaited
  · exact .inl (hfewer.trans_lt hfew)
  · right
    intro t ht
    have hwait := hwaited t (hsub t ht)
    have hless := wait_mono hfewer
    omega

theorem Inv.tick (h : Inv s) (time : ℕ) : Inv { s with clock := s.clock + time } := by
  have hle : s.clock ≤ s.clock + time := Nat.le_add_right _ _
  refine ⟨h.failures.later hle, h.peers.later hle, ?_⟩
  intro id
  have hready := h.ready id
  exact ⟨hready.since.trans hle, hready.auth, hready.token,
    fun op address hq => (hready.allowed op address hq).later hle, hready.tried⟩

theorem step_inv {s' : State} {e : Event} (h : Inv s) (few : Few s.log s.tokenLog)
    (hstep : step (.default walk) s e = some s') : Inv s' := by
  cases e with
  | tick time =>
    cases hstep
    exact h.tick time
  | arrive id op address =>
    simp only [step] at hstep
    split at hstep
    · cases hstep
      exact (h.but id).toQuiet rfl rfl
    · cases hstep
  | arriveToken id call peer token =>
    simp only [step] at hstep
    split at hstep
    · cases hstep
      exact (h.but id).toQuiet rfl rfl
    · cases hstep
  | resume id read outcome =>
    simp only [step] at hstep
    split at hstep
    · rename_i hread
      simp only [State.mayRead, decide_eq_true_eq] at hread
      exact resume_inv h few hread.1 hread.2 hstep
    · cases hstep
  | timeout id =>
    simp only [step] at hstep
    split at hstep
    · split at hstep
      · cases hstep
        exact (h.but id).finish _
      · cases hstep
    · cases hstep
  | abandon id =>
    simp only [step] at hstep
    split at hstep
    · cases hstep
      exact (h.but id).release.toQuiet rfl rfl
    · cases hstep

/-! ### Every run -/

theorem finish_log (s : State) (id : ℕ) (reply : Reply) :
    (s.finish id reply).log = s.log ∧ (s.finish id reply).tokenLog = s.tokenLog := ⟨rfl, rfl⟩

variable {l : LoginLimiter}

theorem check_log (read : ℕ) (address : IpAddr) (next : Phase) :
    (s.check l id read address next).log = s.log ∧
      (s.check l id read address next).tokenLog = s.tokenLog := by
  simp only [State.check]
  split <;> exact ⟨rfl, rfl⟩

/-- What happened stays in the logs. -/
theorem step_log {s' : State} {e : Event} (hstep : step l s e = some s') :
    s.log <+: s'.log ∧ s.tokenLog <+: s'.tokenLog := by
  have hsame : ∀ {t : State}, t.log = s.log ∧ t.tokenLog = s.tokenLog →
      s.log <+: t.log ∧ s.tokenLog <+: t.tokenLog := by
    rintro t ⟨hlog, htokens⟩
    rw [hlog, htokens]
    exact ⟨List.prefix_refl _, List.prefix_refl _⟩
  cases e with
  | tick time =>
    cases hstep
    exact hsame ⟨rfl, rfl⟩
  | arrive id op address =>
    simp only [step] at hstep
    split at hstep <;> cases hstep
    exact hsame ⟨rfl, rfl⟩
  | arriveToken id call peer token =>
    simp only [step] at hstep
    split at hstep <;> cases hstep
    exact hsame ⟨rfl, rfl⟩
  | timeout id =>
    simp only [step] at hstep
    split at hstep
    · split at hstep <;> cases hstep
      exact hsame ⟨rfl, rfl⟩
    · cases hstep
  | abandon id =>
    simp only [step] at hstep
    split at hstep <;> cases hstep
    exact hsame ⟨rfl, rfl⟩
  | resume id read outcome =>
    simp only [step] at hstep
    split at hstep
    · generalize s.phase id = phase at hstep
      unfold State.resume at hstep
      split at hstep
      · cases hstep
        exact hsame (check_log _ _ _)
      · cases hstep
        exact hsame ⟨rfl, rfl⟩
      · split at hstep <;> cases hstep
        exact hsame ⟨rfl, rfl⟩
      · split at hstep <;> cases hstep
        exact hsame ⟨rfl, rfl⟩
      · cases hstep
        exact hsame (check_log _ _ _)
      · rename_i op address v
        cases hstep
        cases v with
        | error => cases op <;> exact hsame ⟨rfl, rfl⟩
        | wrong => cases op <;> exact ⟨List.prefix_append _ _, List.prefix_refl _⟩
        | right =>
          cases op with
          | login => exact ⟨List.prefix_append _ _, List.prefix_refl _⟩
          | changePassword field new =>
            simp only [State.verified]
            split <;> exact hsame ⟨rfl, rfl⟩
      · rename_i address ok
        cases hstep
        cases ok with
        | true => exact ⟨List.prefix_append _ _, List.prefix_refl _⟩
        | false => exact hsame ⟨rfl, rfl⟩
      · split at hstep <;> cases hstep
        exact hsame ⟨rfl, rfl⟩
      · cases hstep
        simp only [State.checkToken]
        split
        · exact hsame ⟨rfl, rfl⟩
        · split <;> exact hsame ⟨rfl, rfl⟩
      · rename_i peer token e
        cases hstep
        cases e with
        | none => exact hsame ⟨rfl, rfl⟩
        | some e =>
          simp only [State.answerToken]
          split
          · exact ⟨List.prefix_refl _, List.prefix_append _ _⟩
          · exact hsame ⟨rfl, rfl⟩
      · cases hstep
    · cases hstep

theorem after_concat (l : LoginLimiter) (events : List Event) (e : Event) :
    after l (events ++ [e]) = (after l events).bind fun s => step l s e := by
  simp [after]

theorem after_inv {events : List Event} (run : after (.default walk) events = some s)
    (few : Few s.log s.tokenLog) : Inv s := by
  induction events using List.reverseRecOn generalizing s with
  | nil =>
    cases run
    exact start_inv
  | append_singleton events e ih =>
    rw [after_concat] at run
    obtain ⟨before, hbefore, hstep⟩ := Option.bind_eq_some_iff.mp run
    obtain ⟨hlog, htokens⟩ := step_log hstep
    have hfew := few.of_prefix hlog htokens
    exact step_inv (ih hbefore hfew) hfew hstep

/-- A phase that a request comes to in a step is the one that step takes it to. -/
theorem phase_new {t : State} {j : ℕ} {q d : Phase} (same : t.requests = s.requests)
    (before : s.phase id ≠ d) (now : (t.to j q).phase id = d) : id = j ∧ q = d := by
  by_cases h : id = j
  · subst h
    rw [phase_to] at now
    exact ⟨rfl, now⟩
  · rw [State.phase, requests_to h, same] at now
    exact absurd now before

theorem finish_new {t : State} {j : ℕ} {reply : Reply} {d : Phase} (same : t.requests = s.requests)
    (before : s.phase id ≠ d) (now : (t.finish j reply).phase id = d) : .done reply = d :=
  (phase_new (t := t.release j) same before now).2

theorem refused_check {j read retry : ℕ} {address : IpAddr} {next : Phase} (h : Inv s)
    (before : s.phase id ≠ .done (.rateLimited retry))
    (now : (s.check (.default walk) j read address next).phase id = .done (.rateLimited retry))
    (busy : ∀ reply, next ≠ .done reply) :
    id = j ∧ 5 ≤ (lately read (failuresOf s.log (source address))).length := by
  simp only [State.check] at now
  cases hretry : ((LoginLimiter.default walk).retryAfter s.failures address read).1 with
  | none =>
    rw [hretry] at now
    exact absurd (phase_new (s := s) rfl before now).2 (busy _)
  | some wait =>
    rw [hretry] at now
    exact ⟨(phase_new (s := s) rfl before now).1, five_of_refused h.failures hretry⟩

theorem refused_resume {s' : State} {j read retry : ℕ} {outcome : Outcome} (h : Inv s)
    (hstep : s.resume (.default walk) j read (s.phase j) outcome = some s')
    (before : s.phase id ≠ .done (.rateLimited retry))
    (now : s'.phase id = .done (.rateLimited retry)) :
    id = j ∧ ∃ op address, (s.phase id = .checking op address ∨ s.phase id = .entered op address) ∧
      5 ≤ (lately read (failuresOf s.log (source address))).length := by
  generalize hphase : s.phase j = phase at hstep
  unfold State.resume at hstep
  split at hstep
  · rename_i op address
    cases hstep
    obtain ⟨rfl, hfive⟩ := refused_check h before now nofun
    exact ⟨rfl, op, address, .inl hphase, hfive⟩
  · cases hstep
    exact absurd (phase_new (s := s) rfl before now).2 nofun
  · split at hstep <;> cases hstep
    exact absurd (phase_new (s := s) rfl before now).2 nofun
  · split at hstep <;> cases hstep
    exact absurd (phase_new (s := s) rfl before now).2 nofun
  · rename_i op address
    cases hstep
    obtain ⟨rfl, hfive⟩ := refused_check h before now nofun
    exact ⟨rfl, op, address, .inr hphase, hfive⟩
  · rename_i op address v
    cases hstep
    cases v with
    | error => cases op <;> exact absurd (finish_new (s := s) rfl before now) nofun
    | wrong => cases op <;> exact absurd (finish_new (s := s) rfl before now) nofun
    | right =>
      cases op with
      | login => exact absurd (finish_new (s := s) rfl before now) nofun
      | changePassword field new =>
        simp only [State.verified] at now
        split at now
        · exact absurd (finish_new (s := s) rfl before now) nofun
        · exact absurd (phase_new (s := s) rfl before now).2 nofun
  · rename_i address ok
    cases hstep
    cases ok with
    | true => exact absurd (finish_new (s := s) rfl before now) nofun
    | false => exact absurd (finish_new (s := s) rfl before now) nofun
  · split at hstep <;> cases hstep
    exact absurd (phase_new (s := s) rfl before now).2 nofun
  · cases hstep
    simp only [State.checkToken] at now
    split at now
    · exact absurd (finish_new (s := s) rfl before now) nofun
    · split at now
      · exact absurd (phase_new (s := s) rfl before now).2 nofun
      · exact absurd (finish_new (s := s) rfl before now) nofun
  · rename_i peer token e
    cases hstep
    cases e with
    | none => exact absurd (finish_new (s := s) rfl before now) nofun
    | some e =>
      simp only [State.answerToken] at now
      split at now
      · exact absurd (finish_new (s := s) rfl before now) nofun
      · exact absurd (finish_new (s := s) rfl before now) nofun
  · cases hstep

/-- Only a check tells a request for a password to come again, and only after five failures. -/
theorem refused_step {s' : State} {e : Event} {retry : ℕ} (h : Inv s)
    (hstep : step (.default walk) s e = some s')
    (before : s.phase id ≠ .done (.rateLimited retry))
    (now : s'.phase id = .done (.rateLimited retry)) :
    ∃ op address read, (s.phase id = .checking op address ∨ s.phase id = .entered op address) ∧
      (s.requests id).since ≤ read ∧ read ≤ s.clock ∧
      5 ≤ (lately read (failuresOf s.log (source address))).length := by
  cases e with
  | tick time =>
    cases hstep
    exact absurd now before
  | arrive j op address =>
    simp only [step] at hstep
    split at hstep <;> cases hstep
    exact absurd (phase_new (s := s) rfl before now).2 nofun
  | arriveToken j call peer token =>
    simp only [step] at hstep
    split at hstep <;> cases hstep
    exact absurd (phase_new (s := s) rfl before now).2 nofun
  | timeout j =>
    simp only [step] at hstep
    split at hstep
    · split at hstep <;> cases hstep
      exact absurd (finish_new (s := s) rfl before now) nofun
    · cases hstep
  | abandon j =>
    simp only [step] at hstep
    split at hstep <;> cases hstep
    exact absurd (phase_new (s := s) rfl before now).2 nofun
  | resume j read outcome =>
    simp only [step] at hstep
    split at hstep
    · rename_i hread
      simp only [State.mayRead, decide_eq_true_eq] at hread
      obtain ⟨rfl, op, address, hphase, hfive⟩ := refused_resume h hstep before now
      exact ⟨op, address, read, hphase, hread.1, hread.2, hfive⟩
    · cases hstep

/-- The shifts of the limiter stay within their words. -/
theorem shifts_fit (l : LoginLimiter) (count : ℕ) :
    (l.shift count < 64 ∧ 1 <<< l.shift count < 2 ^ 64) ∧
      (l.delayShift count < 64 ∧ 250 <<< l.delayShift count < 2 ^ 64) := by
  have hshift : l.shift count ≤ 5 := Nat.min_le_right _ _
  have hdelay : l.delayShift count ≤ 3 := Nat.min_le_right _ _
  refine ⟨⟨by omega, ?_⟩, by omega, ?_⟩
  · rw [Nat.shiftLeft_eq]
    have hpow := Nat.pow_le_pow_right Nat.two_pos hshift
    omega
  · rw [Nat.shiftLeft_eq]
    have hpow := Nat.pow_le_pow_right Nat.two_pos hdelay
    omega

/-- Guessing is throttled in a state, and nobody else is in a step from it. -/
structure Throttled (walk : Walk IpAddr) (s : State) : Prop where
  passwords : ∀ id op address, s.phase id = .verifying op address →
    Allowed s.log (source address) s.clock
  refused : ∀ e s' id retry, step (.default walk) s e = some s' →
    s.phase id ≠ .done (.rateLimited retry) → s'.phase id = .done (.rateLimited retry) →
    ∃ op address read, (s.phase id = .checking op address ∨ s.phase id = .entered op address) ∧
      (s.requests id).since ≤ read ∧ read ≤ s.clock ∧
      5 ≤ (lately read (failuresOf s.log (source address))).length
  tokens : ∀ id call peer token, s.phase id = .tokenTried call peer token →
    (lately s.clock (tokenFailures s.tokenLog (normalized peer))).length < 5
  sources : s.failures.perAddress.length ≤ 4096 ∧ s.peers.length ≤ 4096
  perSource : (∀ e ∈ s.failures.perAddress, e.2.length ≤ 10) ∧ ∀ e ∈ s.peers, e.2.length ≤ 5
  all : s.failures.all.length ≤ 53
  shifts : ∀ count, ((LoginLimiter.default walk).shift count < 64 ∧
      1 <<< (LoginLimiter.default walk).shift count < 2 ^ 64) ∧
    ((LoginLimiter.default walk).delayShift count < 64 ∧
      250 <<< (LoginLimiter.default walk).delayShift count < 2 ^ 64)

theorem Inv.throttled (h : Inv s) : Throttled walk s := by
  refine ⟨fun id => (h.ready id).allowed, ?_, ?_, ⟨h.failures.sources, h.peers.sources⟩, ⟨?_, ?_⟩,
    h.failures.all, shifts_fit _⟩
  · intro e s' id retry hstep before now
    exact refused_step h hstep before now
  · intro id call peer token hphase
    have hfew := ((h.ready id).tried call peer token hphase).1
    exact ((h.peers.tracks _).count_le hfew).trans_lt hfew
  · intro e he
    obtain ⟨-, -, hlength, -⟩ := h.failures.tracks e.1
    rwa [times_of_mem h.failures.keyed he] at hlength
  · intro e he
    obtain ⟨-, -, hlength, -⟩ := h.peers.tracks e.1
    rwa [times_of_mem h.peers.keyed he] at hlength

theorem few_of_short {log : List Attempt} {tokenLog : List (IpAddr × ℕ)}
    (short : log.length < 4096) (shortTokens : tokenLog.length < 4096) : Few log tokenLog := by
  intro time
  constructor
  · exact ((List.dedup_sublist _).length_le.trans (List.length_filterMap_le _ _)).trans_lt short
  · exact ((List.dedup_sublist _).length_le.trans (List.length_filterMap_le _ _)).trans_lt
      shortTokens

/-- One wrong password, a second after its request came in. -/
def oneGuess : List Event :=
  [.arrive 0 .login (.v4 7), .resume 0 0 .nothing, .resume 0 0 .nothing, .resume 0 0 .nothing,
    .resume 0 0 .nothing, .resume 0 0 .nothing, .tick second, .resume 0 second (.verdict .wrong)]

end NdimonR.Control.Throttle
