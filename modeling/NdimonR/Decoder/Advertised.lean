import NdimonR.Decoder.ReceiverInstances

/-! While no `connect` creates a receive instance beside a live advertiser, the receiver is
registered as it is configured whenever its control lock is free. -/

namespace NdimonR.Decoder.Receiver

open Steps

/-! ### The invariant -/

/-- Between the old instance's leave and the registration of the new one. -/
def Body.swapping : Body → Bool
  | .destroy _ | .create _ | .register _ => true
  | _ => false

/-- `stop_thread` is behind. -/
def Body.apart : Body → Bool
  | .stop _ | .join _ => false
  | _ => true

def swapping (s : State) : Bool := s.body.any Body.swapping

/-- A thread is waiting for the receive thread to end. -/
def joining (s : State) : Bool :=
  s.ending = some .join || s.body.any fun b => match b with
    | .join _ => true
    | _ => false

/-- The destructor has joined the receive thread. -/
def Ending.joined : Ending → Bool
  | .stop | .join => false
  | _ => true

/-- The destructor has joined the advertiser thread. -/
def Ending.alone : Ending → Bool
  | .dropAdvertiser | .dropRecv | .gone => true
  | _ => false

def Ending.dropped : Ending → Bool
  | .dropRecv | .gone => true
  | _ => false

/-- The receive thread needs the receive instance it found. -/
def Loop.needs : Loop → Bool
  | .busy | .calling _ => true
  | _ => false

structure Inv (s : State) : Prop where
  core : Core s
  settled : swapping s = false → s.registered = wanted s
  swapped : swapping s = true → s.registered = false
  apart : s.body.any Body.apart = true → s.thread = none
  halted : joining s = true → s.running = false
  busy : s.thread.any Loop.needs = true → s.recv.isSome = true
  calls : ∀ locks, s.thread = some (.calling locks) → .control ∉ locks
  fresh : s.initialized = false →
    s.thread = none ∧ s.body = none ∧ s.advertiser = none ∧ s.keeper = .unstarted
  ending : s.ending ≠ none → s.body = none
  joined : s.ending.any Ending.joined = true → s.thread = none
  alone : s.ending.any Ending.alone = true → s.keeper = .unstarted ∨ s.keeper = .stopped
  dropped : s.ending.any Ending.dropped = true → s.advertiser = none
  gone : s.ending = some .gone → s.recv = none

/-- A `connect` is about to get a receive instance of its own, beside an advertiser that it should
be registered with. -/
def leavesOut (s : State) : Act → Bool
  | .body ok =>
    match s.body with
    | some (.connect source) =>
      real source && s.recv.isNone && ok && s.advertiser.isSome && s.advertise
    | _ => false
  | _ => false

/-- What the state before a step has to be. -/
def Leave (s : State) (a : Act) : Prop := leavesOut s a = false

instance (s : State) (a : Act) : Decidable (Leave s a) := inferInstanceAs (Decidable (_ = _))

theorem Inv.new : Inv new where
  core := ⟨rfl, rfl, fun _ => rfl, fun h => h, rfl, rfl, .refl _⟩
  settled := fun _ => rfl
  swapped := fun h => by cases h
  apart := fun h => by cases h
  halted := fun _ => rfl
  busy := fun h => by cases h
  calls := fun _ h => by cases h
  fresh := fun _ => ⟨rfl, rfl, rfl, rfl⟩
  ending := fun _ => rfl
  joined := fun h => by cases h
  alone := fun h => by cases h
  dropped := fun h => by cases h
  gone := fun h => by cases h

/-! ### Calls -/

theorem idle_iff {s : State} : idle s = true ↔ s.body = none ∧ s.ending = none := by simp [idle]

/-- The core does not look at the threads. -/
theorem Core.aside {s s' : State} (h : Core s) (hrecv : s'.recv = s.recv)
    (hadvertiser : s'.advertiser = s.advertiser) (hserver : s'.discoveryServer = s.discoveryServer)
    (hkeeper : s'.keeper.pending = s.keeper.pending)
    (hmaking : s'.keeper.making = true → s.keeper.making = true ∨ s.advertiser = none)
    (hregistered : s'.registered = s.registered) (hadvertise : s'.advertise = s.advertise)
    (hcontrol : s'.allowControl = s.allowControl) (hname : s'.inputName = s.inputName)
    (hsdk : s'.sdk = s.sdk) : Core s' where
  recvs := by rw [hsdk, hrecv]; exact h.recvs
  advertisers := by rw [hsdk, hkeeper, current, hadvertiser, hserver]; exact h.advertisers
  making := by
    intro hs'
    rw [hadvertiser]
    exact (hmaking hs').elim h.making id
  implied := by
    rw [hregistered, wanted, hadvertiser, hrecv, hadvertise]
    exact h.implied
  registrations := by
    have hentries : entries s' = entries s := by
      unfold entries
      rw [hadvertiser, hrecv, hadvertise, hcontrol, hname]
    rw [hsdk, hregistered, hentries]
    exact h.registrations
  used := by rw [hsdk]; exact h.used
  instances := by rw [hsdk]; exact h.instances

/-- A call begins: it takes the control lock and goes to `stop_thread`. -/
theorem Inv.begin {s : State} (h : Inv s) (hidle : idle s = true) (hstarted : s.initialized = true)
    (name : String) (k : Then) : Inv { s with recvName := name, body := some (.stop k) } := by
  obtain ⟨hbody, hending⟩ := idle_iff.mp hidle
  have hsettled := h.settled (by simp [swapping, hbody])
  refine { h with
    core := h.core.aside rfl rfl rfl rfl .inl rfl rfl rfl rfl rfl
    settled := fun _ => hsettled
    swapped := fun hs => by cases hs
    apart := fun hs => by cases hs
    halted := ?_
    fresh := ?_
    ending := fun hs => absurd hending hs }
  · intro hs
    simp [joining, hending] at hs
  · intro hs
    rw [hstarted] at hs
    cases hs

/-- What a call does without waiting, to the fields that the control lock guards. -/
theorem Inv.control {s s' : State} (h : Inv s) (hswapping : swapping s = false) (hcore : Core s')
    (hregistered : s'.registered = wanted s') (hbody : s'.body = s.body)
    (hthread : s'.thread = s.thread) (hrunning : s'.running = s.running) (hrecv : s'.recv = s.recv)
    (hstarted : s'.initialized = s.initialized) (hending : s'.ending = s.ending)
    (hkeeper : s'.keeper = s.keeper)
    (hadvertiser : s'.advertiser = s.advertiser ∨ s'.advertiser = none) : Inv s' where
  core := hcore
  settled := fun _ => hregistered
  swapped := by
    intro hs
    rw [swapping, hbody, ← swapping, hswapping] at hs
    cases hs
  apart := by rw [hbody, hthread]; exact h.apart
  halted := by
    rw [joining, hending, hbody, hrunning, ← joining]
    exact h.halted
  busy := by rw [hthread, hrecv]; exact h.busy
  calls := by rw [hthread]; exact h.calls
  fresh := by
    intro hs
    obtain ⟨hthread', hbody', hadvertiser', hkeeper'⟩ := h.fresh (hstarted ▸ hs)
    refine ⟨hthread.trans hthread', hbody.trans hbody', ?_, hkeeper.trans hkeeper'⟩
    exact hadvertiser.elim (·.trans hadvertiser') id
  ending := by rw [hending, hbody]; exact h.ending
  joined := by rw [hending, hthread]; exact h.joined
  alone := by rw [hending, hkeeper]; exact h.alone
  dropped := by
    rw [hending]
    exact fun hs => hadvertiser.elim (·.trans (h.dropped hs)) id
  gone := by rw [hending, hrecv]; exact h.gone

/-- The settings are free while the receiver is not registered. -/
theorem Core.configure {s : State} (h : Core s) (hregistered : s.registered = false)
    (advertise allowControl : Bool) (inputName : String) :
    Core { s with advertise, allowControl, inputName } := by
  have hregistrations := h.registrations
  rw [hregistered] at hregistrations
  refine ⟨h.recvs, h.advertisers, h.making, fun himplied => ?_, ?_, h.used, h.instances⟩
  · simp [hregistered] at himplied
  · simp [hregistered, hregistrations]

theorem wanted_register {s : State} (h : Core s) :
    (registerReceiver s).registered = wanted (registerReceiver s) := by
  rw [registerReceiver_eq h]
  rfl

theorem wanted_destroyAdvertiser {s : State} (h : Core s) :
    (destroyAdvertiser s).registered = wanted (destroyAdvertiser s) := by
  rw [destroyAdvertiser_eq h]
  rfl

theorem Inv.setAdvertising {s : State} (h : Inv s) (hidle : idle s = true)
    (advertise allowControl : Bool) (inputName : String) :
    Inv (setAdvertising s advertise allowControl inputName) := by
  have hswapping : swapping s = false := by simp [swapping, (idle_iff.mp hidle).1]
  unfold Receiver.setAdvertising
  split
  · exact h
  · have hregistered : (unregisterReceiver s).registered = false := by
      rw [unregisterReceiver_eq h.core]
    have hcore := h.core.unregister.configure hregistered advertise allowControl inputName
    dsimp only
    split
    · refine h.control hswapping hcore.dropAdvertiser (wanted_destroyAdvertiser hcore) ?_ ?_ ?_ ?_
        ?_ ?_ ?_ ?_ <;> rw [destroyAdvertiser_eq hcore, unregisterReceiver_eq h.core]
      exact .inr rfl
    · refine h.control hswapping hcore.register (wanted_register hcore) ?_ ?_ ?_ ?_ ?_ ?_ ?_ ?_ <;>
        rw [registerReceiver_eq hcore, unregisterReceiver_eq h.core]
      exact .inl rfl

theorem destroyAdvertiser_server (s : State) (ds : String) :
    destroyAdvertiser { s with discoveryServer := ds } =
      { destroyAdvertiser s with discoveryServer := ds } := by
  unfold destroyAdvertiser unregisterReceiver
  cases s.advertiser <;> cases s.recv <;> cases s.registered <;> rfl

theorem Core.serve {s : State} (h : Core s) (hnone : s.advertiser = none) (ds : String) :
    Core { s with discoveryServer := ds } := by
  refine ⟨h.recvs, ?_, h.making, h.implied, h.registrations, h.used, h.instances⟩
  simpa [current, hnone] using h.advertisers

theorem Inv.reloadDiscovery {s : State} (h : Inv s) (hidle : idle s = true) (ds : String) :
    Inv (reloadDiscovery s ds) := by
  have hswapping : swapping s = false := by simp [swapping, (idle_iff.mp hidle).1]
  unfold Receiver.reloadDiscovery
  split
  · exact h
  · rw [destroyAdvertiser_server]
    have hnone : (destroyAdvertiser s).advertiser = none := by rw [destroyAdvertiser_eq h.core]
    refine h.control hswapping (h.core.dropAdvertiser.serve hnone ds)
      (wanted_destroyAdvertiser h.core) ?_ ?_ ?_ ?_ ?_ ?_ ?_ (.inr hnone) <;>
      rw [destroyAdvertiser_eq h.core]

/-! ### Under the control lock -/

theorem startThread_eq {s : State} (hthread : s.thread = none) :
    startThread s = { s with running := true, thread := some .top } := by
  simp [startThread, hthread]

theorem Core.threads {s : State} (h : Core s) (running : Bool) (thread : Option Loop)
    (body : Option Body) (ending : Option Ending) :
    Core { s with running, thread, body, ending } :=
  h.aside rfl rfl rfl rfl .inl rfl rfl rfl rfl rfl

theorem ending_none {s : State} {b : Body} (h : Inv s) (hb : s.body = some b) : s.ending = none := by
  by_contra hne
  rw [h.ending hne] at hb
  cases hb

/-- A call goes on with something that leaves the threads alone, and the receive thread is not
there. -/
theorem Inv.goOn {s s' : State} {b : Body} (h : Inv s) (hb : s.body = some b)
    (hapart : b.apart = true) (hcore : Core s')
    (hsettled : swapping s' = false → s'.registered = wanted s')
    (hswapped : swapping s' = true → s'.registered = false)
    (hjoining : joining s' = false) (hthread : s'.thread = s.thread)
    (hstarted : s'.initialized = s.initialized) (hending : s'.ending = s.ending) : Inv s' := by
  have hnone : s.thread = none := h.apart (by simpa [hb] using hapart)
  have hinitialized : s.initialized = true := by
    cases hfresh : s.initialized
    · rw [(h.fresh hfresh).2.1] at hb
      cases hb
    · rfl
  have hthread' : s'.thread = none := hthread.trans hnone
  have hending' : s'.ending = none := hending.trans (ending_none h hb)
  refine ⟨hcore, hsettled, hswapped, fun _ => hthread', ?_, ?_, ?_, ?_, ?_, ?_, ?_, ?_, ?_⟩
  · intro hs
    rw [hjoining] at hs
    cases hs
  · intro hs
    rw [hthread'] at hs
    cases hs
  · intro locks hs
    rw [hthread'] at hs
    cases hs
  · intro hs
    rw [hstarted, hinitialized] at hs
    cases hs
  · exact fun hs => absurd hending' hs
  all_goals
    intro hs
    rw [hending'] at hs
    cases hs

theorem createRecv_cases (s : State) (ok : Bool) :
    createRecv s ok = (s, true) ∧ s.recv.isSome = true ∨
    createRecv s ok = ({ s with recv := some s.sdk.next, sdk := s.sdk.recvCreate }, true) ∧
      s.recv = none ∧ ok = true ∨
    createRecv s ok = (s, false) ∧ s.recv = none := by
  unfold createRecv
  split
  · rename_i r hr
    exact .inl ⟨rfl, by rw [hr]; rfl⟩
  · rename_i hr
    split
    · exact .inr (.inl ⟨rfl, hr, ‹_›⟩)
    · exact .inr (.inr ⟨rfl, hr⟩)

/-- What `connect` has left to do once the receive thread is joined. -/
theorem Inv.connectRest {s : State} {source : String} {ok : Bool} (h : Inv s)
    (hb : s.body = some (.connect source)) (hleave : Leave s (.body ok)) :
    Inv (connectRest s source ok) := by
  have hsettled := h.settled (by simp [swapping, hb, Body.swapping])
  have hjoining : joining { s with body := some .start } = false := by
    simp [joining, ending_none h hb]
  unfold Receiver.connectRest
  split
  · rename_i hreal
    have hcore : Core { s with currentSource := source } :=
      h.core.aside rfl rfl rfl rfl .inl rfl rfl rfl rfl rfl
    rcases createRecv_cases { s with currentSource := source } ok with
      ⟨heq, -⟩ | ⟨heq, hnone, hok⟩ | ⟨heq, -⟩
    · rw [heq]
      dsimp only
      rw [if_pos rfl, useRecv_eq hcore]
      exact h.goOn hb rfl (hcore.threads _ _ _ _) (fun _ => hsettled) (fun hs => by cases hs)
        hjoining rfl rfl rfl
    · -- the new instance is registered by nothing here
      have hnone : s.recv = none := hnone
      have hregistered : s.registered = false := by simp [hsettled, wanted, hnone]
      have hleave : ¬ (s.advertiser.isSome = true ∧ s.advertise = true) := by
        simpa [Leave, leavesOut, hb, hreal, hnone, hok] using hleave
      have hnew := hcore.createRecv (.inl hregistered) ok
      rw [heq] at hnew ⊢
      dsimp only at hnew ⊢
      rw [if_pos rfl, useRecv_eq hnew]
      refine h.goOn hb rfl (hnew.threads _ _ _ _) (fun _ => ?_) (fun hs => by cases hs)
        hjoining rfl rfl rfl
      simpa [wanted, hregistered] using hleave
    · rw [heq]
      exact h.goOn hb rfl (hcore.threads _ _ _ _) (fun _ => hsettled) (fun hs => by cases hs)
        (by simp [joining, ending_none h hb]) rfl rfl rfl
  · have hcore : Core { s with currentSource := "" } :=
      h.core.aside rfl rfl rfl rfl .inl rfl rfl rfl rfl rfl
    rw [useRecv_eq hcore]
    exact h.goOn hb rfl (hcore.threads _ _ _ _) (fun _ => hsettled) (fun hs => by cases hs)
      hjoining rfl rfl rfl

theorem Inv.body {s s' : State} {b : Body} {ok : Bool} (h : Inv s) (hb : s.body = some b)
    (hleave : Leave s (.body ok)) (hstep : bodyStep s ok b = some s') : Inv s' := by
  have hending := ending_none h hb
  cases b with
  | stop next =>
    cases hstep
    have hsettled := h.settled (by simp [swapping, hb, Body.swapping])
    refine { h with
      core := h.core.threads _ _ _ _
      settled := fun _ => hsettled
      swapped := fun hs => by cases hs
      apart := fun hs => by cases hs
      halted := fun _ => rfl
      fresh := fun hs => ?_
      ending := fun hs => absurd hending hs }
    rw [(h.fresh hs).2.1] at hb
    cases hb
  | join next =>
    simp only [bodyStep] at hstep
    split at hstep
    · cases hstep
      have hsettled := h.settled (by simp [swapping, hb, Body.swapping])
      refine ⟨h.core.threads _ _ _ _, fun _ => hsettled, fun hs => ?_, fun _ => rfl, fun hs => ?_,
        fun hs => (by cases hs), fun locks hs => (by cases hs), fun hs => ?_,
        fun hs => absurd hending hs, fun _ => rfl, h.alone, h.dropped, h.gone⟩
      · cases next <;> cases hs
      · simp only [joining, hending] at hs
        cases next <;> cases hs
      · rw [(h.fresh hs).2.1] at hb
        cases hb
    · cases hstep
  | connect source =>
    cases hstep
    exact h.connectRest hb hleave
  | disconnect =>
    cases hstep
    have hsettled := h.settled (by simp [swapping, hb, Body.swapping])
    rw [useRecv_eq h.core]
    exact h.goOn hb rfl (h.core.aside rfl rfl rfl rfl .inl rfl rfl rfl rfl rfl)
      (fun _ => hsettled) (fun hs => by cases hs) (by simp [joining, hending]) rfl rfl rfl
  | unregister source =>
    cases hstep
    rw [unregisterReceiver_eq h.core]
    have hcore := h.core.unregister
    rw [unregisterReceiver_eq h.core] at hcore
    exact h.goOn hb rfl (hcore.threads _ _ _ _) (fun hs => by cases hs) (fun _ => rfl)
      (by simp [joining, hending]) rfl rfl rfl
  | destroy source =>
    cases hstep
    have hregistered := h.swapped (by simp [swapping, hb, Body.swapping])
    have hcore := h.core.dropRecv hregistered
    rw [destroyRecv_eq h.core hregistered] at hcore ⊢
    exact h.goOn hb rfl (hcore.threads _ _ _ _) (fun hs => by cases hs) (fun _ => hregistered)
      (by simp [joining, hending]) rfl rfl rfl
  | create source =>
    cases hstep
    have hregistered := h.swapped (by simp [swapping, hb, Body.swapping])
    have hcore := h.core.createRecv (.inl hregistered) ok
    rcases createRecv_cases s ok with ⟨heq, -⟩ | ⟨heq, -, -⟩ | ⟨heq, -⟩ <;>
      rw [heq] at hcore ⊢ <;>
      exact h.goOn hb rfl (hcore.threads _ _ _ _) (fun hs => by cases hs) (fun _ => hregistered)
        (by simp [joining, hending]) rfl rfl rfl
  | register source =>
    cases hstep
    have hcore := h.core.register
    rw [registerReceiver_eq h.core] at hcore ⊢
    exact h.goOn hb rfl (hcore.threads _ _ _ _) (fun _ => rfl) (fun hs => by cases hs)
      (by simp [joining, hending]) rfl rfl rfl
  | reconnect source =>
    have hsettled := h.settled (by simp [swapping, hb, Body.swapping])
    have hon : ∀ body : Option Body, body.any Body.swapping = false →
        (∀ k, body ≠ some (.join k)) → Inv { s with body } := by
      intro body hswapping hjoin
      refine h.goOn hb rfl (h.core.threads _ _ _ _) (fun _ => hsettled) (fun hs => ?_) ?_ rfl rfl rfl
      · rw [swapping, hswapping] at hs
        cases hs
      · simp only [joining, hending]
        cases body with
        | none => rfl
        | some b =>
          cases b with
          | join k => exact absurd rfl (hjoin k)
          | _ => rfl
    simp only [bodyStep] at hstep
    split_ifs at hstep
    · cases hstep
      exact hon _ rfl fun k hk => by cases hk
    · cases hstep
      exact hon _ rfl fun k hk => by cases hk
    · cases hstep
      exact hon _ rfl fun k hk => by cases hk
  | start =>
    cases hstep
    have hsettled := h.settled (by simp [swapping, hb, Body.swapping])
    have hnone := h.apart (by simp [hb, Body.apart])
    rw [startThread_eq hnone]
    refine ⟨h.core.threads _ _ _ _, fun _ => hsettled, fun hs => (by cases hs),
      fun hs => (by cases hs), fun hs => ?_, fun hs => (by cases hs), fun locks hs => (by cases hs),
      fun hs => ?_, fun _ => rfl, fun hs => ?_, h.alone, h.dropped, h.gone⟩
    · simp [joining, hending] at hs
    · rw [(h.fresh hs).2.1] at hb
      cases hb
    · simp [hending] at hs

/-! ### The advertiser thread -/

theorem alone_of_dropped {e : Option Ending} (h : e.any Ending.dropped = true) :
    e.any Ending.alone = true := by
  cases e with
  | none => cases h
  | some e => cases e <;> first | rfl | cases h

/-- A step of the advertiser thread, which leaves the other threads alone. -/
theorem Inv.tend {s s' : State} (h : Inv s) (hstarted : s.keeper ≠ .unstarted)
    (hgoing : s.keeper ≠ .stopped) (hcore : Core s')
    (hsettled : swapping s = false → s'.registered = wanted s')
    (hswapped : swapping s = true → s'.registered = false) (hbody : s'.body = s.body)
    (hthread : s'.thread = s.thread) (hrunning : s'.running = s.running) (hrecv : s'.recv = s.recv)
    (hinitialized : s'.initialized = s.initialized) (hending : s'.ending = s.ending) : Inv s' := by
  have hswapping : swapping s' = swapping s := by rw [swapping, swapping, hbody]
  have halone : s.ending.any Ending.alone = false := by
    cases ha : s.ending.any Ending.alone
    · rfl
    · exact ((h.alone ha).elim hstarted hgoing).elim
  refine ⟨hcore, by rwa [hswapping], by rwa [hswapping], ?_, ?_, ?_, ?_, ?_, ?_, ?_, ?_, ?_, ?_⟩
  · rw [hbody, hthread]
    exact h.apart
  · rw [joining, hending, hbody, hrunning, ← joining]
    exact h.halted
  · rw [hthread, hrecv]
    exact h.busy
  · rw [hthread]
    exact h.calls
  · intro hs
    exact absurd (h.fresh (hinitialized ▸ hs)).2.2.2 hstarted
  · rw [hending, hbody]
    exact h.ending
  · rw [hending, hthread]
    exact h.joined
  · rw [hending, halone]
    intro hs
    cases hs
  · rw [hending]
    intro hs
    rw [alone_of_dropped hs] at halone
    cases halone
  · rw [hending]
    intro hs
    rw [hs] at halone
    cases halone

theorem Core.keeper {s : State} (h : Core s) {k : Keeper} (hpending : k.pending = s.keeper.pending)
    (hmaking : k.making = true → s.keeper.making = true ∨ s.advertiser = none) :
    Core { s with keeper := k } :=
  h.aside rfl rfl rfl hpending hmaking rfl rfl rfl rfl rfl

theorem Core.advertiserCreated {s : State} (h : Core s) {url : String}
    (hkeeper : s.keeper = .creating url) (ok : Bool) : Core (advertiserCreated s url ok) := by
  have hadvertisers := h.advertisers
  have hmaking := h.making
  rw [hkeeper] at hadvertisers hmaking
  unfold Receiver.advertiserCreated
  split
  · refine ⟨h.recvs, ?_, fun _ => hmaking rfl, h.implied, h.registrations, h.used, ?_⟩
    · simpa [Sdk.advertiserCreate, Keeper.pending, current] using hadvertisers
    · simp only [Sdk.advertiserCreate, List.range_succ, List.map_cons]
      refine .trans ?_ (List.perm_append_singleton _ _).symm
      refine .trans ?_ (h.instances.cons _)
      rw [List.append_assoc, List.append_assoc]
      exact List.perm_middle
  · exact h.keeper (by rw [hkeeper]; rfl) fun _ => .inl (by rw [hkeeper]; rfl)

/-- An advertiser that was made for the current server takes its place. -/
theorem Core.place {s : State} (h : Core s) {a : ℕ}
    (hkeeper : s.keeper = .created s.discoveryServer (some a)) :
    Core { s with keeper := .waiting, advertiser := some a } := by
  have hadvertisers := h.advertisers
  have hnone : s.advertiser = none := h.making (by rw [hkeeper]; rfl)
  have hunregistered := h.unregistered (by simp [wanted, hnone])
  rw [hkeeper, current_none hnone] at hadvertisers
  refine ⟨h.recvs, ?_, fun hs => (by cases hs), fun hs => ?_, ?_, h.used, h.instances⟩
  · simpa [current, Keeper.pending] using hadvertisers
  · simp [hunregistered.1] at hs
  · simp [hunregistered.1, hunregistered.2]

theorem Core.adopt {s : State} (h : Core s) {url : String} {made : Option ℕ}
    (hkeeper : s.keeper = .created url made) : Core (adopt s url made) := by
  have hadvertisers := h.advertisers
  have hnone : s.advertiser = none := h.making (by rw [hkeeper]; rfl)
  have hregistered : s.registered = false := (h.unregistered (by simp [wanted, hnone])).1
  have hregistrations : s.sdk.registrations = [] := (h.unregistered (by simp [wanted, hnone])).2
  unfold Receiver.adopt
  cases made with
  | none => exact h.keeper (by rw [hkeeper]; rfl) fun hs => by cases hs
  | some a =>
    rw [hkeeper, current_none hnone] at hadvertisers
    dsimp only
    split
    · rename_i hplaced
      obtain rfl : url = s.discoveryServer := by simpa using (Bool.and_eq_true_iff.mp hplaced).2
      exact (h.place hkeeper).register
    · have hinstances := h.instances
      rw [hadvertisers] at hinstances
      refine ⟨h.recvs, ?_, fun hs => (by cases hs), fun hs => ?_, ?_, ?_, ?_⟩
      · simp [Sdk.advertiserDestroy, hadvertisers, Keeper.pending, current, hnone]
      · simp [hregistered] at hs
      · simp [Sdk.advertiserDestroy, hregistered, hregistrations]
      · simp [Sdk.advertiserDestroy, Sdk.knows, h.used, hadvertisers, Keeper.pending]
      · refine .trans ?_ hinstances
        rw [List.perm_iff_count]
        intro n
        simp only [Sdk.advertiserDestroy, hadvertisers, Keeper.pending, List.count_append,
          List.count_cons, List.append_nil, List.map_cons, List.map_nil, List.count_nil]
        simp
        omega

theorem registerReceiver_fields (s : State) : registerReceiver s =
    { s with
      registered := (registerReceiver s).registered
      sdk := (registerReceiver s).sdk } := by
  unfold registerReceiver
  split
  · split <;> rfl
  · rfl

theorem adopt_fields (s : State) (url : String) (made : Option ℕ) : adopt s url made =
    { s with
      keeper := (adopt s url made).keeper
      advertiser := (adopt s url made).advertiser
      registered := (adopt s url made).registered
      sdk := (adopt s url made).sdk } := by
  unfold adopt
  cases made with
  | none => rfl
  | some a =>
    dsimp only
    split
    · rw [registerReceiver_fields]
    · rfl

theorem adopt_settled {s : State} (h : Core s) {url : String} {made : Option ℕ}
    (hkeeper : s.keeper = .created url made) (hsettled : s.registered = wanted s) :
    (adopt s url made).registered = wanted (adopt s url made) := by
  unfold Receiver.adopt
  cases made with
  | none => exact hsettled
  | some a =>
    dsimp only
    split
    · rename_i hplaced
      obtain rfl : url = s.discoveryServer := by simpa using (Bool.and_eq_true_iff.mp hplaced).2
      exact wanted_register (h.place hkeeper)
    · exact hsettled

theorem Inv.keeper {s s' : State} {ok : Bool} (h : Inv s) (hstep : keeperStep s ok = some s') :
    Inv s' := by
  unfold keeperStep at hstep
  cases hkeeper : s.keeper with
  | unstarted => simp [hkeeper] at hstep
  | stopped => simp [hkeeper] at hstep
  | looking =>
    rw [hkeeper] at hstep
    dsimp only at hstep
    split at hstep
    · cases hstep
      have hmoved : ∀ k : Keeper, k.pending = [] → (k.making = true → s.advertiser = none) →
          Inv { s with keeper := k } := fun k hpending hmaking =>
        h.tend (by simp [hkeeper]) (by simp [hkeeper])
          (h.core.keeper (by rw [hkeeper, hpending]; rfl) fun hs => .inr (hmaking hs))
          h.settled h.swapped rfl rfl rfl rfl rfl rfl
      unfold lookForWork
      split
      · rename_i hlook
        refine hmoved _ rfl fun _ => ?_
        simp_all
      · exact hmoved _ rfl fun hs => by cases hs
    · cases hstep
  | creating url =>
    rw [hkeeper] at hstep
    cases hstep
    have hcore := h.core.advertiserCreated hkeeper ok
    cases ok <;>
      exact h.tend (by simp [hkeeper]) (by simp [hkeeper]) hcore h.settled h.swapped rfl rfl rfl rfl
        rfl rfl
  | created url made =>
    rw [hkeeper] at hstep
    dsimp only at hstep
    split at hstep
    · rename_i hbody
      cases hstep
      have hswapping : swapping s = false := by simp [swapping, hbody]
      refine h.tend (by simp [hkeeper]) (by simp [hkeeper]) (h.core.adopt hkeeper) (fun _ => ?_) ?_
        ?_ ?_ ?_ ?_ ?_ ?_
      · exact adopt_settled h.core hkeeper (h.settled hswapping)
      · rw [hswapping]
        exact fun hs => by cases hs
      all_goals rw [adopt_fields]
    · cases hstep
  | waiting =>
    rw [hkeeper] at hstep
    dsimp only at hstep
    split at hstep
    · cases hstep
      exact h.tend (by simp [hkeeper]) (by simp [hkeeper])
        (h.core.keeper (by rw [hkeeper]; rfl) fun hs => by cases hs)
        h.settled h.swapped rfl rfl rfl rfl rfl rfl
    · cases hstep
      exact h.tend (by simp [hkeeper]) (by simp [hkeeper])
        (h.core.keeper (by rw [hkeeper]; rfl) fun hs => by cases hs)
        h.settled h.swapped rfl rfl rfl rfl rfl rfl

/-! ### The receive thread -/

/-- A step of the receive thread, which leaves everything but itself alone. -/
theorem Inv.iterate {s : State} (h : Inv s) {l l' : Loop} (hthread : s.thread = some l)
    (hneeds : l'.needs = true → s.recv.isSome = true)
    (hcalls : ∀ locks, l' = .calling locks → .control ∉ locks) :
    Inv { s with thread := some l' } := by
  have hthere : s.thread ≠ none := by simp [hthread]
  refine ⟨h.core.threads _ _ _ _, h.settled, h.swapped, fun hs => absurd (h.apart hs) hthere,
    h.halted, hneeds, fun locks hs => hcalls locks (Option.some.inj hs),
    fun hs => absurd (h.fresh hs).1 hthere, h.ending, fun hs => absurd (h.joined hs) hthere,
    h.alone, h.dropped, h.gone⟩

theorem control_not_mem (c : Callback) : .control ∉ c.locks := by
  cases c <;> simp [Callback.locks]

theorem Inv.loop {s s' : State} {l : Loop} {g : Going} (h : Inv s) (hthread : s.thread = some l)
    (hstep : loopStep s l g = some s') : Inv s' := by
  have hbusy := h.busy
  have hcalls := h.calls
  rw [hthread] at hbusy hcalls
  unfold loopStep at hstep
  split at hstep
  · split_ifs at hstep with hrunning hrecv
    · cases hstep
      exact h.iterate hthread (fun _ => hrecv) fun _ hs => by cases hs
    · cases hstep
      exact h
    · cases hstep
      exact h.iterate hthread (fun hs => by cases hs) fun _ hs => by cases hs
  · cases hstep
    rw [useRecv_eq h.core]
    exact h
  · rename_i c
    cases hstep
    refine h.iterate hthread (fun _ => hbusy rfl) fun locks hs => ?_
    cases hs
    exact control_not_mem c
  · cases hstep
    exact h.iterate hthread (fun hs => by cases hs) fun _ hs => by cases hs
  · cases hstep
    exact h.iterate hthread (fun hs => by cases hs) fun _ hs => by cases hs
  · rename_i m locks
    split at hstep
    · cases hstep
    · cases hstep
      refine h.iterate hthread (fun _ => hbusy rfl) fun locks' hs => ?_
      cases hs
      exact fun hmem => hcalls _ rfl (List.mem_cons_of_mem _ hmem)
  · cases hstep
    exact h.iterate hthread (fun _ => hbusy rfl) fun _ hs => by cases hs
  · cases hstep

/-! ### The destructor -/

/-- Where the destructor has joined the receive thread. -/
theorem inv_ending {s' : State} {e' : Ending} (he' : s'.ending = some e') (hjoined : s'.thread = none) (hcore : Core s')
    (hsettled : s'.registered = wanted s') (hbody : s'.body = none)
    (hjoin : e' ≠ .join) (hfresh : s'.initialized = false →
      s'.advertiser = none ∧ s'.keeper = .unstarted)
    (halone : e'.alone = true → s'.keeper = .unstarted ∨ s'.keeper = .stopped)
    (hdropped : e'.dropped = true → s'.advertiser = none)
    (hgone : e' = .gone → s'.recv = none) : Inv s' := by
  refine ⟨hcore, fun _ => hsettled, ?_, fun _ => hjoined, ?_, ?_, ?_, ?_, fun _ => hbody,
    fun _ => hjoined, ?_, ?_, ?_⟩
  · intro hs
    simp [swapping, hbody] at hs
  · intro hs
    simp [joining, hbody, he', hjoin] at hs
  · intro hs
    rw [hjoined] at hs
    cases hs
  · intro locks hs
    rw [hjoined] at hs
    cases hs
  · exact fun hs => ⟨hjoined, hbody, hfresh hs⟩
  · rw [he']
    exact halone
  · rw [he']
    exact hdropped
  · rw [he']
    exact fun hs => hgone (Option.some.inj hs)

theorem Inv.end {s s' : State} {e : Ending} (h : Inv s) (he : s.ending = some e)
    (hstep : endingStep s e = some s') : Inv s' := by
  have hbody : s.body = none := h.ending (by simp [he])
  have hsettled : s.registered = wanted s := h.settled (by simp [swapping, hbody])
  cases e with
  | stop =>
    cases hstep
    refine ⟨h.core.threads _ _ _ _, h.settled, h.swapped, h.apart, fun _ => rfl, h.busy, h.calls,
      h.fresh, fun _ => hbody, fun hs => (by cases hs), fun hs => (by cases hs),
      fun hs => (by cases hs), fun hs => (by cases hs)⟩
  | join =>
    simp only [endingStep] at hstep
    split at hstep
    · cases hstep
      exact inv_ending rfl rfl (h.core.threads _ _ _ _) hsettled hbody (by simp)
        (fun hs => (h.fresh hs).2.2) (fun hs => by cases hs) (fun hs => by cases hs)
        fun hs => by cases hs
    · cases hstep
  | joinKeeper =>
    have hjoined : s.thread = none := h.joined (by rw [he]; rfl)
    simp only [endingStep] at hstep
    split at hstep
    · rename_i hkeeper
      cases hstep
      exact inv_ending rfl hjoined (h.core.threads _ _ _ _) hsettled hbody (by simp)
        (fun hs => (h.fresh hs).2.2) (fun _ => hkeeper) (fun hs => by cases hs)
        fun hs => by cases hs
    · cases hstep
  | dropAdvertiser =>
    have hjoined : s.thread = none := h.joined (by rw [he]; rfl)
    have hkeeper := h.alone (by rw [he]; rfl)
    have hcore := h.core.dropAdvertiser
    cases hstep
    rw [destroyAdvertiser_eq h.core] at hcore ⊢
    exact inv_ending rfl hjoined (hcore.threads _ _ _ _) rfl hbody (by simp)
      (fun hs => ⟨rfl, (h.fresh hs).2.2.2⟩) (fun _ => hkeeper) (fun _ => rfl)
      fun hs => by cases hs
  | dropRecv =>
    have hjoined : s.thread = none := h.joined (by rw [he]; rfl)
    have hkeeper := h.alone (by rw [he]; rfl)
    have hnone : s.advertiser = none := h.dropped (by rw [he]; rfl)
    have hregistered : s.registered = false := by simp [hsettled, wanted, hnone]
    have hcore := h.core.dropRecv hregistered
    cases hstep
    rw [destroyRecv_eq h.core hregistered] at hcore ⊢
    refine inv_ending rfl hjoined (hcore.threads _ _ _ _) ?_ hbody (by simp)
      (fun hs => (h.fresh hs).2.2) (fun _ => hkeeper) (fun _ => hnone) fun _ => rfl
    simp [hregistered, wanted]
  | gone => cases hstep

/-! ### Every step -/

/-- With a receive instance, the advertiser thread and the receive thread begin. -/
theorem inv_started {s : State} (h : Core s) (hsettled : s.registered = wanted s)
    (hinitialized : s.initialized = true) (hbody : s.body = none) (hthread : s.thread = none)
    (hkeeper : s.keeper = .unstarted) (hending : s.ending = none) :
    Inv (startThread { s with keeper := .looking }) := by
  have hcore : Core { s with keeper := .looking } :=
    h.keeper (by rw [hkeeper]; rfl) fun hs => by cases hs
  have hstart : startThread { s with keeper := .looking } =
      { s with keeper := .looking, running := true, thread := some .top } := startThread_eq hthread
  rw [hstart]
  refine ⟨hcore.threads _ _ _ _, fun _ => hsettled, fun hs => ?_, fun hs => ?_, fun hs => ?_,
    fun hs => (by cases hs), fun locks hs => (by cases hs), fun hs => ?_, fun _ => hbody,
    fun hs => ?_, fun hs => ?_, fun hs => ?_, fun hs => ?_⟩
  · simp [swapping, hbody] at hs
  · simp [hbody] at hs
  · simp [joining, hbody, hending] at hs
  · rw [hinitialized] at hs
    cases hs
  all_goals simp [hending] at hs

theorem Inv.initRecv {s : State} (h : Inv s) (hidle : idle s = true)
    (hfresh : s.initialized = false) (ok : Bool) : Inv (initRecv s ok) := by
  obtain ⟨hbody, hending⟩ := idle_iff.mp hidle
  obtain ⟨hthread, -, hadvertiser, hkeeper⟩ := h.fresh hfresh
  have hunregistered := h.core.unregistered (by simp [wanted, hadvertiser])
  have hsettled : s.registered = wanted s := h.settled (by simp [swapping, hbody])
  have hcore : Core { s with initialized := true } :=
    h.core.aside rfl rfl rfl rfl .inl rfl rfl rfl rfl rfl
  have hnew := hcore.createRecv (.inl hunregistered.1) ok
  unfold Receiver.initRecv
  rcases createRecv_cases { s with initialized := true } ok with
    ⟨heq, -⟩ | ⟨heq, -, -⟩ | ⟨heq, -⟩ <;> rw [heq] at hnew ⊢
  · exact inv_started hnew hsettled rfl hbody hthread hkeeper hending
  · refine inv_started hnew ?_ rfl hbody hthread hkeeper hending
    simp [hunregistered.1, wanted, hadvertiser]
  · exact { h with core := hnew, fresh := fun hs => by cases hs }

theorem Inv.step {s s' : State} {a : Act} (h : Inv s) (hleave : Leave s a)
    (hstep : step s a = some s') : Inv s' := by
  cases a with
  | initRecv ok =>
    simp only [Receiver.step] at hstep
    split at hstep
    · rename_i hidle
      cases hstep
      exact h.initRecv hidle.1 (by simpa using hidle.2) ok
    · cases hstep
  | setAdvertising advertise allowControl inputName =>
    simp only [Receiver.step] at hstep
    split at hstep
    · cases hstep
      exact h.setAdvertising ‹_› _ _ _
    · cases hstep
  | reloadDiscovery ds =>
    simp only [Receiver.step] at hstep
    split at hstep
    · cases hstep
      exact h.reloadDiscovery ‹_› _
    · cases hstep
  | rename name =>
    simp only [Receiver.step, rename] at hstep
    split at hstep
    · rename_i hidle
      split at hstep
      · cases hstep
        exact h
      · cases hstep
        exact h.begin hidle.1 hidle.2 _ _
    · cases hstep
  | connect source =>
    simp only [Receiver.step] at hstep
    split at hstep
    · rename_i hidle
      cases hstep
      exact h.begin hidle.1 hidle.2 s.recvName _
    · cases hstep
  | disconnect =>
    simp only [Receiver.step] at hstep
    split at hstep
    · rename_i hidle
      cases hstep
      exact h.begin hidle.1 hidle.2 s.recvName _
    · cases hstep
  | body ok =>
    obtain ⟨b, hb, hstep⟩ := Option.bind_eq_some_iff.mp hstep
    exact h.body hb hleave hstep
  | keeper ok => exact h.keeper hstep
  | loop g =>
    obtain ⟨l, hl, hstep⟩ := Option.bind_eq_some_iff.mp hstep
    exact h.loop hl hstep
  | take m =>
    simp only [Receiver.step] at hstep
    split at hstep
    · cases hstep
    · cases hstep
      exact { h with core := h.core.aside rfl rfl rfl rfl .inl rfl rfl rfl rfl rfl }
  | give m =>
    cases hstep
    exact { h with core := h.core.aside rfl rfl rfl rfl .inl rfl rfl rfl rfl rfl }
  | destroy =>
    simp only [Receiver.step] at hstep
    split at hstep
    · rename_i hidle
      obtain ⟨hbody, hending⟩ := idle_iff.mp hidle
      cases hstep
      refine ⟨h.core.threads _ _ _ _, h.settled, h.swapped, h.apart, fun hs => ?_, h.busy, h.calls,
        h.fresh, fun _ => hbody, fun hs => (by cases hs), fun hs => (by cases hs),
        fun hs => (by cases hs), fun hs => (by cases hs)⟩
      simp [joining, hbody] at hs
    · cases hstep
  | ending =>
    obtain ⟨e, he, hstep⟩ := Option.bind_eq_some_iff.mp hstep
    exact h.end he hstep

/-! ### The receive thread can be joined -/

/-- What happens while a thread waits for the receive thread: that thread goes on, and other threads
give back locks. -/
def Act.aside : Act → Bool
  | .loop _ | .give _ => true
  | _ => false

/-- The locks that others hold are given back. -/
theorem give_all (s : State) : ∃ acts, acts.all Act.aside = true ∧
    after step s acts = some { s with taken := [] } := by
  cases s with
  | mk =>
    rename_i taken _
    induction taken with
    | nil => exact ⟨[], rfl, rfl⟩
    | cons m taken ih =>
      obtain ⟨acts, hall, hrun⟩ := ih
      refine ⟨.give m :: acts, by simpa [Act.aside] using hall, ?_⟩
      refine after_cons.mpr ⟨_, rfl, ?_⟩
      simpa using hrun

/-- A callback that has only free locks to take comes to its end. -/
theorem take_all {s : State} {locks : List Mutex} (hthread : s.thread = some (.calling locks))
    (hfree : s.taken = []) (hcontrol : .control ∉ locks) : ∃ acts, acts.all Act.aside = true ∧
      after step s acts = some { s with thread := some (.calling []) } := by
  induction locks generalizing s with
  | nil =>
    refine ⟨[], rfl, ?_⟩
    rw [← hthread]
    rfl
  | cons m locks ih =>
    obtain ⟨acts, hall, hrun⟩ := ih (s := { s with thread := some (.calling locks) }) rfl hfree
      fun hmem => hcontrol (List.mem_cons_of_mem _ hmem)
    refine ⟨.loop .lock :: acts, by simpa [Act.aside] using hall, ?_⟩
    refine after_cons.mpr ⟨_, ?_, hrun⟩
    have hm : m ≠ .control := fun heq => hcontrol (heq ▸ List.mem_cons_self)
    simp [step, hthread, loopStep, hfree, hm]

/-- Told to stop, the receive thread ends of itself once others give back their locks. -/
theorem ends {s : State} (hrunning : s.running = false)
    (hcalls : ∀ locks, s.thread = some (.calling locks) → .control ∉ locks) :
    ∃ acts t, acts.all Act.aside = true ∧ after step s acts = some t ∧ joinable t = true := by
  have htop : ∀ t : State, t.running = false → t.thread = some .top →
      after step t [.loop .check] = some { t with thread := some .done } := by
    intro t hrunning hthread
    simp [after, step, hthread, loopStep, hrunning]
  have hbusy : ∀ t : State, t.running = false → t.thread = some .busy →
      after step t [.loop .again, .loop .check] = some { t with thread := some .done } := by
    intro t hrunning hthread
    refine after_cons.mpr ⟨{ t with thread := some .top }, ?_, htop _ hrunning rfl⟩
    simp [step, hthread, loopStep]
  cases hthread : s.thread with
  | none => exact ⟨[], s, rfl, rfl, by simp [joinable, hthread]⟩
  | some l =>
    cases l with
    | done => exact ⟨[], s, rfl, rfl, by simp [joinable, hthread]⟩
    | top => exact ⟨_, _, rfl, htop s hrunning hthread, rfl⟩
    | busy => exact ⟨_, _, rfl, hbusy s hrunning hthread, rfl⟩
    | calling locks =>
      obtain ⟨gives, hgives, hfree⟩ := give_all s
      obtain ⟨takes, htakes, hdone⟩ := take_all (s := { s with taken := [] }) hthread rfl
        (hcalls locks hthread)
      have hback : after step { s with taken := [], thread := some (.calling []) }
          [.loop .again, .loop .again, .loop .check] =
            some { s with taken := [], thread := some .done } :=
        after_cons.mpr ⟨{ s with taken := [], thread := some .busy }, rfl, hbusy _ hrunning rfl⟩
      refine ⟨gives ++ (takes ++ [.loop .again, .loop .again, .loop .check]), _, ?_,
        after_append hfree (after_append hdone hback), rfl⟩
      rw [List.all_append, List.all_append, hgives, htakes]
      rfl

/-! ### Whole runs -/

/-- The receiver is advertised as it is configured. -/
structure Advertised (s : State) : Prop where
  one : s.sdk.advertisers.length ≤ 1
  server : ∀ a, s.advertiser = some a → (a, s.discoveryServer) ∈ s.sdk.advertisers
  registered : s.registered = true ↔
    s.advertiser.isSome = true ∧ s.recv.isSome = true ∧ s.advertise = true
  holds : ∀ a r, s.advertiser = some a → s.recv = some r → s.registered = true →
    s.sdk.registrations = [⟨a, r, s.allowControl, s.inputName⟩]

structure Good (s : State) : Prop where
  free : s.body = none → Advertised s
  used : s.sdk.misused = false
  /-- Every instance is alive or was destroyed, once. -/
  once : (s.sdk.recvs ++ s.sdk.advertisers.map (·.1) ++ s.sdk.destroyed).Perm
    (List.range s.sdk.next)
  gone : s.ending = some .gone → s.sdk.recvs = [] ∧ s.sdk.advertisers = []
  callbacks : ∀ m locks, s.thread = some (.calling (m :: locks)) → m ≠ .control
  joins : joining s = true →
    ∃ acts t, acts.all Act.aside = true ∧ after step s acts = some t ∧ joinable t = true

theorem Inv.advertised {s : State} (h : Inv s) (hbody : s.body = none) : Advertised s := by
  have hsettled : s.registered = wanted s := h.settled (by simp [swapping, hbody])
  have hregistrations := h.core.registrations
  refine ⟨?_, fun a ha => ?_, ?_, fun a r ha hr hregistered => ?_⟩
  · rw [h.core.advertisers]
    cases ha : s.advertiser with
    | none =>
      rw [current_none ha]
      cases s.keeper with
      | created url made => cases made <;> simp [Keeper.pending]
      | _ => simp [Keeper.pending]
    | some a => simp [pending_of_advertiser h.core ha, current, ha]
  · simp [h.core.advertisers, current, ha]
  · rw [hsettled]
    simp [wanted, and_assoc]
  · have hadvertise : s.advertise = true := by
      rw [hsettled] at hregistered
      simp only [wanted, Bool.and_eq_true] at hregistered
      exact hregistered.2
    rw [hregistrations, if_pos hregistered]
    simp [entries, ha, hr, hadvertise]

theorem Inv.good {s : State} (h : Inv s) : Good s where
  free := h.advertised
  used := h.core.used
  once := h.core.instances
  gone := by
    intro hgone
    have hadvertisers := h.core.advertisers
    have hkeeper := h.alone (by rw [hgone]; rfl)
    have hpending : s.keeper.pending = [] := by rcases hkeeper with hk | hk <;> rw [hk] <;> rfl
    rw [hpending, current_none (h.dropped (by rw [hgone]; rfl))] at hadvertisers
    refine ⟨?_, hadvertisers⟩
    rw [h.core.recvs, h.gone hgone]
    rfl
  callbacks := by
    rintro m locks hthread rfl
    exact h.calls _ hthread List.mem_cons_self
  joins := fun hjoining => ends (h.halted hjoining) h.calls

/-- A receiver that is started, advertised, renamed, taken away and destroyed. -/
def life : List Act :=
  [.reloadDiscovery "ds", .initRecv true, .keeper true, .keeper true, .keeper true, .loop .check,
    .loop (.callback .remoteSource), .rename "new", .body true, .loop .lock, .loop .lock,
    .loop .again, .loop .again, .loop .check, .body true, .body true, .body true, .body true,
    .body true, .body true, .body true, .destroy, .ending, .loop .check, .ending, .keeper true,
    .ending, .ending, .ending]

/-- The name is changed while the SDK has no receive instance to give; the source is connected when
it has one again. -/
def renamed : List Act :=
  [.reloadDiscovery "ds", .initRecv true, .keeper true, .keeper true, .keeper true,
    .rename "new", .body true, .loop .check, .body true, .body true, .body true, .body false,
    .body true, .body true, .connect "cam", .body true, .body true, .body true, .body true]

end NdimonR.Decoder.Receiver
