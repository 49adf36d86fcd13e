import NdimonR.Ui.SnapshotServed

/-! When the browser catches up. Every change that control announces while the stream has a
subscriber reaches the snapshot, and one without a subscriber does where a read is still to be
made. What is lost is a change between the answer of the last read and the subscription. -/

namespace NdimonR.Ui

open Types

/-! ### What is still to come -/

section
variable (p : ℕ → Prop)

/-- The message will bring a document with such a revision, or one that is read after it. -/
def Message.Brings : Message → Prop
  | .resync => True
  | .event (.stateChanged revision _) => p revision
  | _ => False

def Task.Brings : Task → Prop
  | .reload => True
  | .apply event => (Message.event event).Brings p
  | _ => False

def Work.Brings : Work → Prop
  | .reload state _ _ _ | .document state => ∀ document, state = some document → p document.revision
  | .domains revision _ => p revision
  | _ => False

/-- A stream that is lost brings a reload with the next one. -/
inductive EventStream.Brings (events : List Message) (stream : EventStream) : Prop
  | ended (h : stream.ended = true)
  | inbox {m : Message} (h : m ∈ stream.inbox) (hm : m.Brings p)
  | events {m : Message} (h : stream.subscribed = true) (hmem : m ∈ events) (hm : m.Brings p)

/-- The snapshot has such a revision, or something is under way that brings one. -/
inductive Coming (events : List Message) (s : StateStore) : Prop
  | shown {state : Document} (h : s.snapshot = some state) (hp : p state.revision)
  | retry (h : s.retry = true)
  | stream {stream : EventStream} (h : s.stream = some stream) (hb : stream.Brings p events)
  | queued {task : Task} (h : (s.generation, task) ∈ s.queue) (hb : task.Brings p)
  | running {work : Work} (h : s.running = some (s.generation, work)) (hb : work.Brings p)

end

/-- A document is still to be read. -/
def Fresh (events : List Message) (s : StateStore) : Prop := Coming (fun _ => False) events s

/-- The document that is served from then on. -/
def Act.serves : Act → Option Document
  | .turn next _ => some next
  | .restart next => next
  | _ => none

namespace System

def subscribed (s : System) : Prop :=
  ∃ stream, s.store.stream = some stream ∧ stream.subscribed = true

/-- A change is announced to a subscriber, or a document is still to be read; a read that fails has
another one after it. -/
def heard (s : System) : Act → Prop
  | .turn next events => next.state = s.control.current.state ∨
    (∃ domains, .stateChanged next.revision domains ∈ events) ∧
      (s.subscribed ∨ Fresh s.control.events s.store)
  | .restart next => (∀ document ∈ next, document.state = s.control.current.state) ∨
    s.subscribed ∨ Fresh s.control.events s.store
  | .fail => Fresh s.control.events { s.store with running := none } ∨
    ∀ work, s.store.running = some (s.store.generation, work) → ¬work.Brings fun _ => True
  | .stop => False
  | _ => True

/-- Nothing is under way, and the stream is there. -/
structure Quiet (s : System) : Prop where
  queue : s.store.queue = []
  running : s.store.running = none
  retry : s.store.retry = false
  events : s.control.events = []
  stream : ∃ stream ∈ s.store.stream, stream.ended = false ∧ stream.inbox = []

end System

section
variable {p q : ℕ → Prop} {events more : List Message}

theorem Message.Brings.mono {m : Message} (h : m.Brings p) (hpq : ∀ r, p r → q r) :
    m.Brings q := by
  unfold Message.Brings at h ⊢
  split at h
  · trivial
  · exact hpq _ h
  · exact h.elim

theorem Task.Brings.mono {t : Task} (h : t.Brings p) (hpq : ∀ r, p r → q r) : t.Brings q := by
  cases t with
  | reload => trivial
  | apply event => exact Message.Brings.mono h hpq
  | refreshObserved | refreshSources => exact h.elim

theorem Work.Brings.mono {w : Work} (h : w.Brings p) (hpq : ∀ r, p r → q r) : w.Brings q := by
  cases w with
  | reload state | document state => exact fun document hstate => hpq _ (h document hstate)
  | domains revision replies => exact hpq _ h
  | observed | sources | status => exact h.elim

theorem EventStream.Brings.mono {stream : EventStream} (h : stream.Brings p events)
    (hpq : ∀ r, p r → q r) (hmore : ∀ m ∈ events, m ∈ more) : stream.Brings q more := by
  cases h with
  | ended h => exact .ended h
  | inbox h hm => exact .inbox h (hm.mono hpq)
  | events h hmem hm => exact .events h (hmore _ hmem) (hm.mono hpq)

theorem Coming.mono {s : StateStore} (h : Coming p events s) (hpq : ∀ r, p r → q r)
    (hmore : ∀ m ∈ events, m ∈ more) : Coming q more s := by
  cases h with
  | shown h hp => exact .shown h (hpq _ hp)
  | retry h => exact .retry h
  | stream h hb => exact .stream h (hb.mono hpq hmore)
  | queued h hb => exact .queued h (hb.mono hpq)
  | running h hb => exact .running h (hb.mono hpq)

theorem Fresh.coming {s : StateStore} (h : Fresh events s) : Coming p events s :=
  Coming.mono h (fun _ hr => hr.elim) fun _ hm => hm

end

/-! ### The store -/

namespace StateStore

variable {s s' : StateStore} {events : List Message} {r : ℕ}

theorem notify_frame (domains : List Domain) : ∃ told, s.notify domains = { s with told } := by
  unfold notify
  split
  · exact ⟨_, rfl⟩
  · exact ⟨s.told, rfl⟩

/-- A task that begins changes nothing of the document. -/
theorem perform_frame (task : Task) : ∃ observation statuses told,
    (s.perform task).1 = { s with observation, statuses, told } := by
  cases task with
  | reload | refreshObserved | refreshSources => exact ⟨_, _, _, rfl⟩
  | apply event =>
    cases event with
    | stateChanged revision domains =>
      refine ⟨s.observation, s.statuses, s.told, ?_⟩
      unfold perform
      dsimp only
      repeat' split
      all_goals rfl
    | applyProgress | drift | networkPending => exact ⟨_, _, _, rfl⟩
    | observed domain delta =>
      obtain ⟨told, htold⟩ := notify_frame (s := { s with observation := s.observation.map fun o =>
        { o with domains := Function.update o.domains domain delta } }) []
      exact ⟨_, _, told, htold⟩
    | status source data =>
      unfold perform
      dsimp only
      split_ifs
      · exact ⟨_, _, _, rfl⟩
      · obtain ⟨told, htold⟩ := notify_frame (s := s.setStatus source data) []
        exact ⟨_, _, told, htold⟩

theorem perform_brings {task : Task} (h : task.Brings (r ≤ ·)) :
    (∃ work, (s.perform task).2 = some work ∧ work.Brings (r ≤ ·)) ∨
      ∃ state, s.snapshot = some state ∧ r ≤ state.revision := by
  cases task with
  | reload => exact .inl ⟨_, rfl, fun _ hstate => (by cases hstate)⟩
  | refreshObserved | refreshSources => exact h.elim
  | apply event =>
    cases event with
    | stateChanged revision domains =>
      unfold perform
      dsimp only
      split
      · exact .inl ⟨_, rfl, fun _ hstate => (by cases hstate)⟩
      · rename_i state hstate
        split_ifs with hold
        · exact .inr ⟨state, hstate, Nat.le_trans h hold⟩
        · exact .inl ⟨_, rfl, fun _ hstate => (by cases hstate)⟩
        · exact .inl ⟨_, rfl, h⟩
    | applyProgress | drift | networkPending | observed | status => exact h.elim

theorem publish_shown {state : Document} {domains : List Domain} (h : r ≤ state.revision) :
    ∃ shown, (s.publish state domains).snapshot = some shown ∧ r ≤ shown.revision := by
  unfold publish
  split_ifs with hold
  · obtain ⟨old, hsnapshot, hlt⟩ := (Option.any_eq_true _ _).mp hold
    exact ⟨old, hsnapshot, Nat.le_trans h (Nat.le_of_lt (of_decide_eq_true hlt))⟩
  · exact ⟨state, rfl, h⟩

/-- Publishing shows a later document, and that is all. -/
theorem publish_frame (state : Document) (domains : List Domain) : ∃ snapshot told,
    s.publish state domains = { s with snapshot, told } ∧
      ∀ old, s.snapshot = some old → r ≤ old.revision →
        ∃ shown, snapshot = some shown ∧ r ≤ shown.revision := by
  unfold publish
  split_ifs with hold
  · exact ⟨s.snapshot, s.told, rfl, fun old hsnapshot hr => ⟨old, hsnapshot, hr⟩⟩
  · refine ⟨some state, (state, domains) :: s.told, rfl, fun old hsnapshot hr => ⟨state, rfl, ?_⟩⟩
    rw [hsnapshot] at hold
    simp only [Option.any_some, decide_eq_true_eq] at hold
    omega

end StateStore

section
variable {s s' : StateStore} {events : List Message} {r : ℕ}

theorem Coming.begin (h : Coming (r ≤ ·) events s) (hbegin : s.begin = some s') :
    Coming (r ≤ ·) events s' := by
  unfold StateStore.begin at hbegin
  split at hbegin
  · rename_i generation task queue hrunning hqueue
    obtain ⟨observation, statuses, told, hframe⟩ :=
      StateStore.perform_frame (s := { s with queue }) task
    dsimp only at hbegin
    split_ifs at hbegin with hvalid
    · cases hbegin
      rw [hframe]
      cases h with
      | shown h hp => exact .shown h hp
      | retry h => exact .retry h
      | stream h hb => exact .stream h hb
      | queued h hb =>
        rw [hqueue] at h
        rcases List.mem_cons.mp h with heq | h
        · obtain ⟨rfl, rfl⟩ := Prod.mk.inj heq
          rcases StateStore.perform_brings hb (s := { s with queue }) with
            ⟨work, hwork, hbrings⟩ | ⟨state, hs⟩
          · rw [hwork]
            exact .running rfl hbrings
          · exact .shown hs.1 hs.2
        · exact .queued h hb
      | running h hb => cases hrunning.symm.trans h
    · cases hbegin
      cases h with
      | shown h hp => exact .shown h hp
      | retry h => exact .retry h
      | stream h hb => exact .stream h hb
      | queued h hb =>
        rw [hqueue] at h
        rcases List.mem_cons.mp h with heq | h
        · exact absurd (Prod.mk.inj heq).1.symm hvalid
        · exact .queued h hb
      | running h hb => exact .running h hb
  · cases hbegin

/-- The running work is done: what it would have brought is shown, or still comes. -/
theorem Coming.finish (h : Coming (r ≤ ·) events s)
    (hframe : ∃ snapshot observation statuses running told,
      s' = { s with snapshot, observation, statuses, running, told })
    (hshown : ∀ state, s.snapshot = some state → r ≤ state.revision →
      ∃ shown, s'.snapshot = some shown ∧ r ≤ shown.revision)
    (hrunning : ∀ work, s.running = some (s.generation, work) → work.Brings (r ≤ ·) →
      Coming (r ≤ ·) events s') : Coming (r ≤ ·) events s' := by
  obtain ⟨snapshot, observation, statuses, running, told, rfl⟩ := hframe
  cases h with
  | shown h hp =>
    obtain ⟨shown, hsnapshot, hr⟩ := hshown _ h hp
    exact .shown hsnapshot hr
  | retry h => exact .retry h
  | stream h hb => exact .stream h hb
  | queued h hb => exact .queued h hb
  | running h hb => exact hrunning _ h hb

/-- Work that brings no document, or that a stop has overtaken. -/
theorem Coming.drop (h : Coming (r ≤ ·) events s)
    (hframe : ∃ observation statuses running told,
      s' = { s with observation, statuses, running, told })
    (hidle : ∀ work, s.running = some (s.generation, work) → ¬work.Brings (r ≤ ·)) :
    Coming (r ≤ ·) events s' := by
  obtain ⟨observation, statuses, running, told, rfl⟩ := hframe
  exact h.finish ⟨s.snapshot, observation, statuses, running, told, rfl⟩
    (fun state hstate hr => ⟨state, hstate, hr⟩) fun work hwork hb => absurd hb (hidle work hwork)

/-- A document is published. -/
theorem Coming.publish (h : Coming (r ≤ ·) events s) {observation : Option Observed}
    {statuses : StatusSource → Option Json} {state : Document} {domains : List Domain}
    (hwork : ∀ work, s.running = some (s.generation, work) → work.Brings (r ≤ ·) →
      r ≤ state.revision) :
    Coming (r ≤ ·) events
      (StateStore.publish { s with observation, statuses, running := none } state domains) := by
  obtain ⟨snapshot, told, hframe, hkeeps⟩ := StateStore.publish_frame (r := r)
    (s := { s with observation, statuses, running := none }) state domains
  apply h.finish
  · exact ⟨snapshot, observation, statuses, none, told, hframe⟩
  · intro old hold hr
    rw [hframe]
    exact hkeeps old hold hr
  · intro work hrunning hb
    obtain ⟨shown, hshown, hr⟩ := StateStore.publish_shown (hwork work hrunning hb)
    exact .shown hshown hr

theorem Coming.settle (h : Coming (r ≤ ·) events s) (hsettle : s.settle = some s') :
    Coming (r ≤ ·) events s' := by
  unfold StateStore.settle at hsettle
  split at hsettle
  · cases hsettle
  · rename_i generation work hrunning
    -- Only the work of this generation counts.
    have hthis : ∀ work', s.running = some (s.generation, work') →
        generation = s.generation ∧ work' = work := by
      intro work' h'
      obtain ⟨rfl, rfl⟩ := Prod.mk.inj (Option.some.inj (hrunning.symm.trans h'))
      exact ⟨rfl, rfl⟩
    have hidle : generation ≠ s.generation → Coming (r ≤ ·) events { s with running := none } := by
      intro hother
      apply h.drop ⟨s.observation, s.statuses, none, s.told, rfl⟩
      exact fun work' h' => absurd (hthis work' h').1 hother
    dsimp only at hsettle
    split at hsettle
    case h_1 state observed decoder finder =>
      split_ifs at hsettle with hvalid
      · cases hsettle
        apply h.publish
        intro work' h' hb
        obtain ⟨_, rfl⟩ := hthis work' h'
        exact hb state rfl
      · cases hsettle
        exact hidle hvalid
    case h_2 state =>
      obtain rfl := Option.some.inj hsettle
      split_ifs with hvalid
      · apply h.publish
        intro work' h' hb
        obtain ⟨_, rfl⟩ := hthis work' h'
        exact hb state rfl
      · exact hidle hvalid
    case h_3 revision replies =>
      obtain ⟨answers, hanswers, hsettle⟩ := Option.bind_eq_some_iff.mp hsettle
      split_ifs at hsettle with hmixed hvalid
      · cases hsettle
        apply h.finish ⟨s.snapshot, s.observation, s.statuses, _, s.told, rfl⟩
        · exact fun state hstate hr => ⟨state, hstate, hr⟩
        · intro work' h' _
          obtain ⟨rfl, _⟩ := hthis work' h'
          exact .running rfl fun _ hstate => (by cases hstate)
      · obtain ⟨state, _, rfl⟩ := Option.map_eq_some_iff.mp hsettle
        apply h.publish
        intro work' h' hb
        obtain ⟨_, rfl⟩ := hthis work' h'
        exact hb
      · cases hsettle
        exact hidle hvalid
    case h_4 observed =>
      obtain rfl := Option.some.inj hsettle
      obtain ⟨told, htold⟩ := StateStore.notify_frame
        (s := { s with running := none, observation := some observed }) []
      split_ifs
      · exact h.drop ⟨_, _, _, told, htold⟩ fun work' h' hb => ((hthis work' h').2 ▸ hb).elim
      · exact h.drop ⟨_, _, _, _, rfl⟩ fun work' h' hb => ((hthis work' h').2 ▸ hb).elim
    case h_5 finder =>
      obtain rfl := Option.some.inj hsettle
      obtain ⟨told, htold⟩ := StateStore.notify_frame
        (s := StateStore.setStatus { s with running := none } .finder finder) []
      split_ifs
      · exact h.drop ⟨_, _, _, told, htold⟩ fun work' h' hb => ((hthis work' h').2 ▸ hb).elim
      · exact h.drop ⟨_, _, _, _, rfl⟩ fun work' h' hb => ((hthis work' h').2 ▸ hb).elim
    case h_6 source data =>
      obtain rfl := Option.some.inj hsettle
      obtain ⟨told, htold⟩ := StateStore.notify_frame
        (s := StateStore.setStatus { s with running := none } source data) []
      split_ifs
      · exact h.drop ⟨_, _, _, told, htold⟩ fun work' h' hb => ((hthis work' h').2 ▸ hb).elim
      · exact h.drop ⟨_, _, _, _, rfl⟩ fun work' h' hb => ((hthis work' h').2 ▸ hb).elim
    case h_7 => cases hsettle

theorem Coming.answer (h : Coming (r ≤ ·) events s) {generation : ℕ}
    {work work' : Work} (hrunning : s.running = some (generation, work))
    (hwork : work.Brings (r ≤ ·) → work'.Brings (r ≤ ·)) :
    Coming (r ≤ ·) events { s with running := some (generation, work') } := by
  apply h.finish ⟨s.snapshot, s.observation, s.statuses, _, s.told, rfl⟩
  · exact fun state hstate hr => ⟨state, hstate, hr⟩
  · intro old hold hb
    obtain ⟨rfl, rfl⟩ := Prod.mk.inj (Option.some.inj (hrunning.symm.trans hold))
    exact .running rfl (hwork hb)

theorem StateStore.fail_frame (hfail : s.fail = some s') : s' = { s with running := none } := by
  unfold StateStore.fail at hfail
  split at hfail
  case h_8 => cases hfail
  case h_7 =>
    split_ifs at hfail
    cases hfail
    rfl
  all_goals
    cases hfail
    rfl

/-- What the stream hands over is put in the queue. -/
theorem StateStore.receive_eq (s : StateStore) (m : Message) : ∃ task,
    s.receive m = s.enqueue task ∧ ∀ p, m.Brings p → task.Brings p := by
  cases m with
  | event event => exact ⟨.apply event, rfl, fun _ h => h⟩
  | resync => exact ⟨.reload, rfl, fun _ h => h⟩

theorem Coming.enqueue (h : Coming (r ≤ ·) events s) (task : Task) :
    Coming (r ≤ ·) events (s.enqueue task) := by
  cases h with
  | shown h hp => exact .shown h hp
  | retry h => exact .retry h
  | stream h hb => exact .stream h hb
  | queued h hb => exact .queued (List.mem_append_left _ h) hb
  | running h hb => exact .running h hb

/-- With a reload in the queue everything is still to come. -/
theorem coming_enqueue {p : ℕ → Prop} {task : Task} (htask : task.Brings p) :
    Coming p events (s.enqueue task) :=
  .queued (List.mem_append_right _ (List.mem_singleton.mpr rfl)) htask

end

/-! ### The system -/

namespace System

variable {s s' : System} {r : ℕ}

theorem resync_lagged (position count : ℕ) (messages : List Message) :
    .resync ∈ lagged position count messages := List.mem_append_right _ (.head _)

/-- Another stream in place of the old one, which brings what that would have brought. -/
theorem coming_stream {before events : List Message} (h : Coming (r ≤ ·) before s.store)
    {old stream : EventStream} (hold : s.store.stream = some old)
    (hstream : old.Brings (r ≤ ·) before → stream.Brings (r ≤ ·) events) :
    Coming (r ≤ ·) events { s.store with stream := some stream } := by
  cases h with
  | shown h hp => exact .shown h hp
  | retry h => exact .retry h
  | stream h hb =>
    obtain rfl := Option.some.inj (hold.symm.trans h)
    exact .stream rfl (hstream hb)
  | queued h hb => exact .queued h hb
  | running h hb => exact .running h hb

/-- A message that the hub passes on reaches the stream that waits for it. -/
theorem coming_pass {before : List Message} {m : Message} (h : Coming (r ≤ ·) before s.store)
    (hbefore : ∀ n ∈ before, n ∈ s.control.events ∨ n = m) :
    Coming (r ≤ ·) (s.pass m).control.events (s.pass m).store := by
  unfold System.pass
  split
  · rename_i stream hstream
    split_ifs with hsubscribed
    · apply coming_stream h hstream
      intro hb
      cases hb with
      | ended h => exact .ended h
      | inbox h hm => exact .inbox (List.mem_append_left _ h) hm
      | events h hmem hm =>
        rcases hbefore _ hmem with hmem | rfl
        · exact .events h hmem hm
        · exact .inbox (List.mem_append_right _ (List.mem_singleton.mpr rfl)) hm
    · cases h with
      | shown h hp => exact .shown h hp
      | retry h => exact .retry h
      | stream h hb =>
        obtain rfl := Option.some.inj (hstream.symm.trans h)
        cases hb with
        | ended hb => exact .stream h (.ended hb)
        | inbox hb hm => exact .stream h (.inbox hb hm)
        | events hb => exact absurd hb hsubscribed
      | queued h hb => exact .queued h hb
      | running h hb => exact .running h hb
  · rename_i hstream
    cases h with
    | shown h hp => exact .shown h hp
    | retry h => exact .retry h
    | stream h => cases hstream.symm.trans h
    | queued h hb => exact .queued h hb
    | running h hb => exact .running h hb

theorem coming_answer (h : Coming (r ≤ ·) s.control.events s.store) {f : Work → Option Work}
    (hanswer : s.answer f = some s')
    (hf : ∀ w w', f w = some w' → w.Brings (r ≤ ·) → w'.Brings (r ≤ ·)) :
    Coming (r ≤ ·) s'.control.events s'.store := by
  obtain ⟨⟨generation, work⟩, hrunning, hanswer⟩ := Option.bind_eq_some_iff.mp hanswer
  obtain ⟨work', hwork, rfl⟩ := Option.map_eq_some_iff.mp hanswer
  exact h.answer hrunning (hf work work' hwork)

theorem pass_control (m : Message) : (s.pass m).control = s.control := by
  unfold System.pass
  repeat' split
  all_goals rfl

/-- Only a turn and a restart serve another document. -/
theorem step_served {a : Act} (hstep : s.step a = some s') :
    ∃ events, s'.control = { (a.serves.elim s s.serve).control with events } := by
  unfold System.step at hstep
  cases a <;> dsimp only at hstep
  case forward =>
    split at hstep
    · rename_i m events hevents
      cases hstep
      exact ⟨events, pass_control m⟩
    · cases hstep
  case sample | resync =>
    cases hstep
    exact ⟨s.control.events, pass_control _⟩
  case restart next =>
    cases hstep
    exact ⟨[], rfl⟩
  case begin | settle | fail =>
    obtain ⟨store, _, rfl⟩ := Option.map_eq_some_iff.mp hstep
    exact ⟨s.control.events, rfl⟩
  case answerState | answerDomain | answerObserved | answerStatus | answerSources =>
    obtain ⟨⟨generation, work⟩, _, hanswer⟩ := Option.bind_eq_some_iff.mp hstep
    obtain ⟨work', _, rfl⟩ := Option.map_eq_some_iff.mp hanswer
    exact ⟨s.control.events, rfl⟩
  all_goals
    repeat' split at hstep
    all_goals
      cases hstep
      try exact ⟨_, rfl⟩

theorem coming_step (h : Coming (r ≤ ·) s.control.events s.store) {a : Act}
    (hstep : s.step a = some s') (hr : r ≤ s'.control.current.revision) (ha : heard s a) :
    Coming (r ≤ ·) s'.control.events s'.store := by
  obtain ⟨_, hserved⟩ := step_served hstep
  unfold System.step at hstep
  cases a <;> dsimp only at hstep
  case turn next events =>
    cases hstep
    exact h.mono (fun _ hle => hle) fun m hm => List.mem_append_left _ hm
  case send event =>
    cases hstep
    exact h.mono (fun _ hle => hle) fun m hm => List.mem_append_left _ hm
  case lag count =>
    cases hstep
    cases h with
    | shown h hp => exact .shown h hp
    | retry h => exact .retry h
    | stream h hb =>
      cases hb with
      | ended hb => exact .stream h (.ended hb)
      | inbox hb hm => exact .stream h (.inbox hb hm)
      | events hb => exact .stream h (.events hb (resync_lagged 0 count _) trivial)
    | queued h hb => exact .queued h hb
    | running h hb => exact .running h hb
  case forward =>
    split at hstep
    · rename_i m events hevents
      cases hstep
      rw [hevents] at h
      apply coming_pass (s := { s with control.events := events }) h
      exact fun n hn => (List.mem_cons.mp hn).symm
    · cases hstep
  case sample | resync =>
    cases hstep
    exact coming_pass h fun n hn => .inl hn
  case restart next =>
    cases hstep
    have hstore : (next.elim s s.serve).store = s.store := by cases next <;> rfl
    rw [hstore]
    cases hstream : s.store.stream with
    | none =>
      cases h with
      | shown h hp => exact .shown h hp
      | retry h => exact .retry h
      | stream h => cases hstream.symm.trans h
      | queued h hb => exact .queued h hb
      | running h hb => exact .running h hb
    | some stream =>
      apply coming_stream h hstream
      intro hb
      cases hb with
      | ended h => exact .ended (Bool.or_eq_true_iff.mpr (.inl h))
      | inbox h hm => exact .inbox h hm
      | events h => exact .ended (Bool.or_eq_true_iff.mpr (.inr h))
  case subscribe =>
    split at hstep
    · rename_i stream hstream
      split_ifs at hstep
      cases hstep
      apply coming_stream h hstream
      intro hb
      cases hb with
      | ended h => exact .ended h
      | inbox h hm => exact .inbox h hm
      | events _ hmem hm => exact .events rfl hmem hm
    · cases hstep
  case lagStream position count =>
    split at hstep
    · rename_i stream hstream
      split_ifs at hstep
      cases hstep
      apply coming_stream h hstream
      intro hb
      cases hb with
      | ended h => exact .ended h
      | inbox => exact .inbox (resync_lagged position count _) trivial
      | events h hmem hm => exact .events h hmem hm
    · cases hstep
  case receive =>
    split at hstep
    · rename_i stream hstream
      split at hstep
      · rename_i m inbox hinbox
        cases hstep
        obtain ⟨task, htask, hbrings⟩ := StateStore.receive_eq
          { s.store with stream := some { stream with inbox } } m
        rw [htask]
        by_cases hm : m.Brings (r ≤ ·)
        · exact coming_enqueue (hbrings _ hm)
        · apply Coming.enqueue (coming_stream h hstream _)
          intro hb
          cases hb with
          | ended h => exact .ended h
          | inbox h hn =>
            rw [hinbox] at h
            rcases List.mem_cons.mp h with rfl | h
            · exact absurd hn hm
            · exact .inbox h hn
          | events h hmem hn => exact .events h hmem hn
      · cases hstep
    · cases hstep
  case lose =>
    split_ifs at hstep
    cases hstep
    exact .retry rfl
  case reconnect =>
    split_ifs at hstep
    cases hstep
    exact coming_enqueue trivial
  case start =>
    cases hstep
    unfold StateStore.start
    split_ifs
    · exact coming_enqueue trivial
    · exact h
  case stop => exact ha.elim
  case reload | refreshObserved | refreshSources =>
    cases hstep
    exact h.enqueue _
  case begin =>
    obtain ⟨store, hstore, rfl⟩ := Option.map_eq_some_iff.mp hstep
    exact h.begin hstore
  case settle =>
    obtain ⟨store, hstore, rfl⟩ := Option.map_eq_some_iff.mp hstep
    exact h.settle hstore
  case fail =>
    obtain ⟨store, hstore, rfl⟩ := Option.map_eq_some_iff.mp hstep
    obtain rfl := StateStore.fail_frame hstore
    rcases ha with hfresh | hidle
    · exact hfresh.coming
    · apply h.drop ⟨_, _, _, _, rfl⟩
      exact fun work hwork hb => hidle work hwork (hb.mono fun _ _ => trivial)
  case answerState =>
    rw [hserved] at hr
    apply coming_answer h hstep
    intro w w' hw hb
    split at hw
    · cases hw
      exact fun _ hstate => Option.some.inj hstate ▸ hr
    · cases hw
      exact fun _ hstate => Option.some.inj hstate ▸ hr
    · cases hw
  case answerDomain domain =>
    apply coming_answer h hstep
    intro w w' hw hb
    split at hw
    · split_ifs at hw
      cases hw
      exact hb
    · cases hw
  case answerObserved observed =>
    apply coming_answer h hstep
    intro w w' hw hb
    split at hw
    · cases hw
      exact hb
    · exact hb.elim
    · cases hw
  case answerStatus reply =>
    apply coming_answer h hstep
    intro w w' hw hb
    split at hw
    · cases hw
      exact hb
    · exact hb.elim
    · cases hw
  case answerSources reply =>
    apply coming_answer h hstep
    intro w w' hw hb
    split at hw
    · cases hw
      exact hb
    · exact hb.elim
    · cases hw

/-- The last revision that changed anything is shown, or will be. -/
structure Due (s : System) : Prop where
  due : ∃ r ≤ s.control.current.revision,
    (∀ d ∈ s.control.served, r ≤ d.revision → d.state = s.control.current.state) ∧
      Coming (r ≤ ·) s.control.events s.store

/-- A read that is still to be made brings the document that is served now, or a later one. -/
theorem Due.of_fresh (hsound : Sound s) (h : Fresh s.control.events s.store) : Due s := by
  refine ⟨s.control.current.revision, Nat.le_refl _, fun d hd hle => ?_, h.coming⟩
  have hsame : d.revision = s.control.current.revision := Nat.le_antisymm (hsound.latest hd) hle
  rw [eq_of_revision hsound.ordered hd (.head _) hsame]

/-- A change that is heard comes. -/
theorem coming_change {a : Act} {next : Document} (hserves : a.serves = some next)
    (hheard : heard s a) (hstep : s.step a = some s') :
    next.state = s.control.current.state ∨
      Coming (next.revision ≤ ·) s'.control.events s'.store := by
  obtain ⟨events, hserved⟩ := step_served hstep
  have hcurrent : next.revision ≤ s'.control.current.revision := by
    rw [hserved, hserves]
    exact Nat.le_refl _
  cases a with
  | turn next' events' =>
    obtain rfl := Option.some.inj hserves
    rcases hheard with hsame | ⟨⟨domains, hevent⟩, hheard⟩
    · exact .inl hsame
    · right
      rcases hheard with ⟨stream, hstream, hsubscribed⟩ | hfresh
      · cases hstep
        apply Coming.stream hstream (.events hsubscribed (List.mem_append_right _ _) _)
        · exact .event (.stateChanged next'.revision domains)
        · exact List.mem_map.mpr ⟨_, hevent, rfl⟩
        · exact Nat.le_refl _
      · exact coming_step hfresh.coming hstep hcurrent (.inr ⟨⟨domains, hevent⟩, .inr hfresh⟩)
  | restart next' =>
    obtain rfl : next' = some next := hserves
    rcases hheard with hsame | ⟨stream, hstream, hsubscribed⟩ | hfresh
    · exact .inl (hsame next rfl)
    · right
      cases hstep
      have hended : (stream.ended || stream.subscribed) = true :=
        Bool.or_eq_true_iff.mpr (.inr hsubscribed)
      refine @Coming.stream _ _ _ { stream with
        subscribed := false
        ended := stream.ended || stream.subscribed } ?_ (.ended hended)
      rw [show (Option.elim (some next) s s.serve).store = s.store from rfl, hstream]
      rfl
    · exact .inr (coming_step hfresh.coming hstep hcurrent (.inr (.inr hfresh)))
  | _ => cases hserves

theorem serves_later {a : Act} {next : Document} (hserves : a.serves = some next)
    (horderly : orderly s a) : s.control.current.revision < next.revision := by
  cases a with
  | turn next' events =>
    obtain rfl := Option.some.inj hserves
    exact horderly.1
  | restart next' => exact horderly next hserves
  | _ => cases hserves

theorem Due.step (hsound : Sound s) (h : Due s) {a : Act} (horderly : orderly s a)
    (hheard : heard s a) (hstep : s.step a = some s') : Due s' := by
  obtain ⟨r, hr, hsame, hcoming⟩ := h
  obtain ⟨events, hserved⟩ := step_served hstep
  cases hserves : a.serves with
  | none =>
    rw [hserves] at hserved
    have hcurrent : s'.control.current = s.control.current := by rw [hserved]; rfl
    have hall : s'.control.served = s.control.served := by rw [hserved]; rfl
    rw [← hcurrent] at hr
    refine ⟨r, hr, ?_, coming_step hcoming hstep hr hheard⟩
    rw [hcurrent, hall]
    exact hsame
  | some next =>
    rw [hserves] at hserved
    have hlater := serves_later hserves horderly
    have hcurrent : s'.control.current = next := by rw [hserved]; rfl
    have hall : s'.control.served = next :: s.control.served := by rw [hserved]; rfl
    rcases coming_change hserves hheard hstep with hstate | hchange
    · have hr' : r ≤ s'.control.current.revision := by
        rw [hcurrent]
        exact Nat.le_of_lt (Nat.lt_of_le_of_lt hr hlater)
      refine ⟨r, hr', fun d hd hle => ?_, coming_step hcoming hstep hr' hheard⟩
      rw [hall] at hd
      rw [hcurrent, hstate]
      rcases List.mem_cons.mp hd with rfl | hd
      · exact hstate
      · exact hsame d hd hle
    · refine ⟨next.revision, by rw [hcurrent], fun d hd hle => ?_, hchange⟩
      rw [hall] at hd
      rw [hcurrent]
      rcases List.mem_cons.mp hd with rfl | hd
      · rfl
      · exact absurd hle (Nat.not_le_of_lt (Nat.lt_of_le_of_lt (hsound.latest hd) hlater))

/-- What is due and under way no more is shown. -/
theorem Due.shown (hsound : Sound s) (h : Due s) (hquiet : Quiet s) :
    ∃ state, s.store.snapshot = some state ∧ state.state = s.control.current.state := by
  obtain ⟨r, _, hsame, hcoming⟩ := h
  cases hcoming with
  | @shown state h hr => exact ⟨state, h, hsame state (hsound.store.snapshot state h) hr⟩
  | retry h => cases hquiet.retry.symm.trans h
  | stream h hb =>
    obtain ⟨stream, hstream, hended, hinbox⟩ := hquiet.stream
    obtain rfl := Option.some.inj (hstream.symm.trans h)
    cases hb with
    | ended h => cases hended.symm.trans h
    | inbox h => rw [hinbox] at h; cases h
    | events _ h => rw [hquiet.events] at h; cases h
  | queued h => rw [hquiet.queue] at h; cases h
  | running h => cases hquiet.running.symm.trans h

instance (s : System) : Decidable (Quiet s) :=
  decidable_of_iff (s.store.queue = [] ∧ s.store.running = none ∧ s.store.retry = false ∧
      s.control.events = [] ∧
      ∃ stream ∈ s.store.stream, stream.ended = false ∧ stream.inbox = [])
    ⟨fun ⟨a, b, c, d, e⟩ => ⟨a, b, c, d, e⟩, fun ⟨a, b, c, d, e⟩ => ⟨a, b, c, d, e⟩⟩

theorem straddled_heard : Steps.Meets System.step (fun s a => orderly s a ∧ heard s a) unopened
    (.start :: (opened ++ straddled)) := by
  repeat
    first
    | exact trivial
    | refine And.intro ⟨trivial, trivial⟩ ?_
    | refine And.intro ⟨titled_orderly rfl, .inr ⟨⟨_, .head _⟩, .inl ⟨_, rfl, rfl⟩⟩⟩ ?_

/-- The first document was read before the hub had the subscriber, and then another was committed:
nobody tells the browser. -/
theorem between_lost : ∃ s ∈ Steps.after System.step unopened
    [.start, .begin, .answerState, .turn (titled 1 "studio") [.stateChanged 1 [.device]], .forward,
      .subscribe, .answerObserved ⟨fun _ => .null, .null⟩, .answerStatus none, .answerSources none,
      .settle],
    Quiet s ∧ s.store.snapshot.map Document.revision = some 0 ∧ s.control.current.revision = 1 := by
  decide +kernel

end System

end NdimonR.Ui
