import Mathlib.Data.List.Chain
import NdimonR.Ui.StateStore

/-! What the browser shows is a document that was served, however its reads straddle commits: a
document that is put together from single domains is the one at the announced revision. -/

namespace NdimonR.Ui

open Types

/-- An announced change, as far as the documents that were served tell: whoever has the revision
before has every other domain. -/
def Tells (served : List Document) (revision : ℕ) (domains : List Domain) : Prop :=
  (∃ latest ∈ served, revision ≤ latest.revision) ∧
  ∀ before ∈ served, ∀ after ∈ served, before.revision + 1 = revision →
    after.revision = revision → ∀ d ∉ domains, after.state d = before.state d

def Message.Honest (served : List Document) : Message → Prop
  | .event (.stateChanged revision domains) => Tells served revision domains
  | _ => True

def Task.Honest (served : List Document) : Task → Prop
  | .apply event => (Message.event event).Honest served
  | _ => True

/-- The reply is from one of the documents. -/
def DomainReply.From (served : List Document) (domain : Domain) (reply : DomainReply) : Prop :=
  ∃ d ∈ served, reply.revision = d.revision ∧ reply.state = d.state domain

def Work.Honest (served : List Document) (snapshot : Option Document) : Work → Prop
  | .reload (some state) _ _ _ | .document (some state) => state ∈ served
  | .domains revision replies =>
    (∃ state, snapshot = some state ∧ state.revision + 1 = revision) ∧
    Tells served revision (replies.map (·.1)) ∧
    ∀ r ∈ replies, ∀ reply, r.2 = some reply → reply.From served r.1
  | _ => True

/-- From one call of the listeners to the next, what has changed is among the domains named. -/
def Named (newer older : Document × List Domain) : Prop :=
  older.1.revision ≤ newer.1.revision ∧ ∀ d ∉ newer.2, newer.1.state d = older.1.state d

/-- Later documents have later revisions. -/
def Later (newer older : Document) : Prop := older.revision < newer.revision

namespace StateStore

structure Sound (served : List Document) (s : StateStore) : Prop where
  snapshot : ∀ state, s.snapshot = some state → state ∈ served
  inbox : ∀ stream, s.stream = some stream → ∀ m ∈ stream.inbox, m.Honest served
  queue : ∀ t ∈ s.queue, t.2.Honest served
  running : ∀ w, s.running = some w → w.2.Honest served s.snapshot
  named : s.told.IsChain Named
  last : s.told.head?.map Prod.fst = s.snapshot

end StateStore

namespace System

structure Sound (s : System) : Prop where
  ordered : s.control.served.Pairwise Later
  events : ∀ m ∈ s.control.events, m.Honest s.control.served
  store : s.store.Sound s.control.served

/-- A turn commits a later document and announces every domain that it changes, unless it makes more
than one revision. Other events announce no revision. -/
def orderly (s : System) : Act → Prop
  | .turn next events => s.control.current.revision < next.revision ∧
    ∀ revision domains, .stateChanged revision domains ∈ events →
      s.control.current.revision < revision ∧ revision ≤ next.revision ∧
        (s.control.current.revision + 1 = next.revision →
          ∀ d ∉ domains, next.state d = s.control.current.state d)
  | .send event => ∀ revision domains, event ≠ .stateChanged revision domains
  | .restart next => ∀ document ∈ next, s.control.current.revision < document.revision
  | _ => True

end System

/-! ### Documents that are served later -/

section
variable {served : List Document} {next : Document}

theorem Tells.later {revision : ℕ} {domains : List Domain} (h : Tells served revision domains)
    (hlater : ∀ d ∈ served, d.revision < next.revision) :
    Tells (next :: served) revision domains := by
  obtain ⟨⟨latest, hlatest, hle⟩, hsame⟩ := h
  have hlt : revision < next.revision := Nat.lt_of_le_of_lt hle (hlater latest hlatest)
  refine ⟨⟨latest, .tail _ hlatest, hle⟩, fun before hbefore after hafter hb ha => ?_⟩
  rcases List.mem_cons.mp hbefore with rfl | hbefore
  · omega
  · rcases List.mem_cons.mp hafter with rfl | hafter
    · omega
    · exact hsame before hbefore after hafter hb ha

theorem Tells.covered {revision : ℕ} {domains more : List Domain}
    (h : Tells served revision domains) (hmore : ∀ d ∈ domains, d ∈ more) :
    Tells served revision more :=
  ⟨h.1, fun before hbefore after hafter hb ha d hd =>
    h.2 before hbefore after hafter hb ha d fun hold => hd (hmore d hold)⟩

theorem Message.Honest.later {m : Message} (h : m.Honest served)
    (hlater : ∀ d ∈ served, d.revision < next.revision) : m.Honest (next :: served) := by
  unfold Message.Honest at h ⊢
  split at h
  · exact Tells.later h hlater
  · trivial

theorem Task.Honest.later {t : Task} (h : t.Honest served)
    (hlater : ∀ d ∈ served, d.revision < next.revision) : t.Honest (next :: served) := by
  cases t with
  | apply event => exact Message.Honest.later h hlater
  | reload | refreshObserved | refreshSources => trivial

theorem Work.Honest.later {w : Work} {snapshot : Option Document} (h : w.Honest served snapshot)
    (hlater : ∀ d ∈ served, d.revision < next.revision) :
    w.Honest (next :: served) snapshot := by
  unfold Work.Honest at h ⊢
  split at h
  · exact .tail _ h
  · exact .tail _ h
  · obtain ⟨hstate, htells, hreplies⟩ := h
    refine ⟨hstate, htells.later hlater, fun r hr reply hreply => ?_⟩
    obtain ⟨d, hd, hfrom⟩ := hreplies r hr reply hreply
    exact ⟨d, .tail _ hd, hfrom⟩
  · trivial

/-- Only the reply with the document says anything about documents. -/
theorem Work.Honest.reload {state : Option Document} {snapshot : Option Document}
    {observed observed' : Option Observed} {decoder decoder' finder finder' : Option Json}
    (h : (Work.reload state observed decoder finder).Honest served snapshot) :
    (Work.reload state observed' decoder' finder').Honest served snapshot := by
  cases state <;> exact h

/-- The reply for one more domain. -/
theorem Work.Honest.reply {snapshot : Option Document} {revision : ℕ}
    {replies : List (Domain × Option DomainReply)}
    (h : (Work.domains revision replies).Honest served snapshot) {current : Document}
    (hcurrent : current ∈ served) (domain : Domain) :
    (Work.domains revision (replies.map (System.replyFor current domain))).Honest served
      snapshot := by
  obtain ⟨hstate, htells, hreplies⟩ := h
  have hkey : ∀ r, (System.replyFor current domain r).1 = r.1 := by
    intro r
    unfold System.replyFor
    split_ifs with hdomain
    · exact hdomain.symm
    · rfl
  refine ⟨hstate, ?_, fun r hr reply hreply => ?_⟩
  · rw [List.map_map]
    exact htells.covered fun d hd => by
      obtain ⟨r, hr, rfl⟩ := List.mem_map.mp hd
      exact List.mem_map.mpr ⟨r, hr, hkey r⟩
  · obtain ⟨old, hold, rfl⟩ := List.mem_map.mp hr
    unfold System.replyFor at hreply ⊢
    split_ifs at hreply ⊢ with hdomain
    · obtain rfl := Option.some.inj hreply
      exact ⟨current, hcurrent, rfl, rfl⟩
    · exact hreplies old hold reply hreply

theorem StateStore.Sound.later {s : StateStore} (h : s.Sound served)
    (hlater : ∀ d ∈ served, d.revision < next.revision) : s.Sound (next :: served) where
  snapshot state hstate := .tail _ (h.snapshot state hstate)
  inbox stream hstream m hm := (h.inbox stream hstream m hm).later hlater
  queue t ht := (h.queue t ht).later hlater
  running w hw := (h.running w hw).later hlater
  named := h.named
  last := h.last

end

theorem eq_of_revision {served : List Document} (hordered : served.Pairwise Later)
    {a b : Document} (ha : a ∈ served) (hb : b ∈ served) (hsame : a.revision = b.revision) :
    a = b := by
  induction hordered with
  | nil => cases ha
  | cons hlater _ ih =>
    rcases List.mem_cons.mp ha with rfl | hrest <;> rcases List.mem_cons.mp hb with rfl | hrest'
    · rfl
    · exact absurd hsame (Nat.ne_of_gt (hlater b hrest'))
    · exact absurd hsame (Nat.ne_of_lt (hlater a hrest))
    · exact ih hrest hrest'

/-! ### The store -/

namespace StateStore

variable {served : List Document} {s : StateStore}

theorem Sound.run (h : s.Sound served) {running : Option (ℕ × Work)}
    (hrunning : ∀ w, running = some w → w.2.Honest served s.snapshot) :
    Sound served { s with running } :=
  ⟨h.snapshot, h.inbox, h.queue, hrunning, h.named, h.last⟩

theorem Sound.idle (h : s.Sound served) : Sound served { s with running := none } :=
  h.run fun _ hw => (by cases hw)

theorem Sound.enqueue (h : s.Sound served) {t : Task} (ht : t.Honest served) :
    (s.enqueue t).Sound served where
  snapshot := h.snapshot
  inbox := h.inbox
  queue u hu := by
    rcases List.mem_append.mp hu with hu | hu
    · exact h.queue u hu
    · rw [List.mem_singleton.mp hu]
      exact ht
  running := h.running
  named := h.named
  last := h.last

theorem Sound.connect (h : s.Sound served) : s.connect.Sound served where
  snapshot := h.snapshot
  inbox stream hstream m hm := by
    obtain rfl := Option.some.inj hstream
    cases hm
  queue := h.queue
  running := h.running
  named := h.named
  last := h.last

/-- A new observation, new statuses, a timer: nothing that is shown as the document. -/
theorem Sound.beside (h : s.Sound served) (observation : Option Observed)
    (statuses : StatusSource → Option Json) (retry stopped : Bool) (generation : ℕ) :
    Sound served { s with observation, statuses, retry, stopped, generation } :=
  ⟨h.snapshot, h.inbox, h.queue, h.running, h.named, h.last⟩

theorem Sound.streamless (h : s.Sound served) : Sound served { s with stream := none } :=
  ⟨h.snapshot, fun _ hstream => (by cases hstream), h.queue, h.running, h.named, h.last⟩

theorem Sound.streaming (h : s.Sound served) {stream : EventStream}
    (hinbox : ∀ m ∈ stream.inbox, m.Honest served) :
    Sound served { s with stream := some stream } where
  snapshot := h.snapshot
  inbox stream' hstream := by
    obtain rfl := Option.some.inj hstream
    exact hinbox
  queue := h.queue
  running := h.running
  named := h.named
  last := h.last

theorem Sound.shown (h : s.Sound served) {call : Document × List Domain}
    (hcall : call ∈ s.told.head?) : s.snapshot = some call.1 := by
  rw [← h.last, Option.mem_def.mp hcall]
  rfl

/-- Listeners that are called without domains see the document that they have seen. -/
theorem Sound.notify (h : s.Sound served) : (s.notify []).Sound served := by
  unfold StateStore.notify
  split
  · rename_i state hstate
    refine ⟨h.snapshot, h.inbox, h.queue, h.running, h.named.cons fun call hcall => ?_, ?_⟩
    · obtain rfl := Option.some.inj (hstate.symm.trans (h.shown hcall))
      exact ⟨Nat.le_refl _, fun _ _ => rfl⟩
    · exact hstate.symm
  · exact h

theorem Sound.publish (h : s.Sound served) (hidle : s.running = none) {state : Document}
    {domains : List Domain} (hstate : state ∈ served)
    (hnamed : ∀ old, s.snapshot = some old → ∀ d ∉ domains, state.state d = old.state d) :
    (s.publish state domains).Sound served := by
  unfold StateStore.publish
  split_ifs with hold
  · exact h
  · refine ⟨fun _ hshown => ?_, h.inbox, h.queue, fun w hw => ?_,
      h.named.cons fun call hcall => ?_, rfl⟩
    · obtain rfl := Option.some.inj hshown
      exact hstate
    · cases hidle.symm.trans hw
    · have hshown := h.shown hcall
      refine ⟨?_, hnamed _ hshown⟩
      rw [hshown] at hold
      simpa using hold

/-! ### Tasks -/

theorem Sound.perform (h : s.Sound served) {task : Task} (htask : task.Honest served) :
    (s.perform task).1.Sound served ∧
      ∀ w, (s.perform task).2 = some w → w.Honest served (s.perform task).1.snapshot := by
  cases task with
  | reload | refreshObserved | refreshSources =>
    refine ⟨h, fun w hw => ?_⟩
    obtain rfl := Option.some.inj hw
    trivial
  | apply event =>
    cases event with
    | stateChanged revision domains =>
      have hread : (Work.document none).Honest served s.snapshot := trivial
      unfold StateStore.perform
      dsimp only
      split
      · exact ⟨h, fun w hw => Option.some.inj hw ▸ trivial⟩
      · rename_i state hstate
        split_ifs with hold hgap
        · exact ⟨h, fun w hw => (by cases hw)⟩
        · exact ⟨h, fun w hw => Option.some.inj hw ▸ trivial⟩
        · refine ⟨h, fun w hw => ?_⟩
          obtain rfl := Option.some.inj hw
          refine ⟨⟨state, hstate, (not_not.mp hgap).symm⟩, ?_, fun r hr reply hreply => ?_⟩
          · refine Tells.covered (show Tells served revision domains from htask) ?_
            intro d hd
            rw [List.map_map]
            exact List.mem_map.mpr ⟨d, List.mem_eraseDups.mpr hd, rfl⟩
          · obtain ⟨_, _, rfl⟩ := List.mem_map.mp hr
            cases hreply
    | applyProgress => exact ⟨h, fun w hw => (by cases hw)⟩
    | drift | networkPending => exact ⟨h, fun w hw => Option.some.inj hw ▸ trivial⟩
    | observed domain delta =>
      refine ⟨Sound.notify (h.beside _ s.statuses s.retry s.stopped s.generation),
        fun w hw => ?_⟩
      cases hw
    | status source data =>
      unfold StateStore.perform
      dsimp only
      split_ifs
      · exact ⟨h, fun w hw => Option.some.inj hw ▸ trivial⟩
      · refine ⟨Sound.notify (h.beside s.observation _ s.retry s.stopped s.generation),
          fun w hw => ?_⟩
        cases hw

/-- Messages that come over the stream are put in the queue. -/
theorem Sound.receive (h : s.Sound served) {m : Message} (hm : m.Honest served) :
    (s.receive m).Sound served := by
  cases m with
  | event event => exact h.enqueue hm
  | resync => exact h.enqueue trivial

theorem Sound.begin (h : s.Sound served) {s' : StateStore} (hbegin : s.begin = some s') :
    s'.Sound served := by
  unfold StateStore.begin at hbegin
  split at hbegin
  · rename_i generation task queue hrunning hqueue
    have hrest : Sound served { s with queue } :=
      ⟨h.snapshot, h.inbox, fun t ht => h.queue t (hqueue ▸ .tail _ ht), h.running, h.named,
        h.last⟩
    have htask : task.Honest served := h.queue (generation, task) (hqueue ▸ .head _)
    dsimp only at hbegin
    split_ifs at hbegin
    · cases hbegin
      obtain ⟨hperformed, hwork⟩ := hrest.perform htask
      apply hperformed.run
      intro w hw
      obtain ⟨work, hsome, rfl⟩ := Option.map_eq_some_iff.mp hw
      exact hwork work hsome
    · cases hbegin
      exact hrest
  · cases hbegin

/-! ### Documents that are put together -/

theorem mem_answered {replies : List (Domain × Option DomainReply)}
    {answers : List (Domain × DomainReply)} (h : answered replies = some answers) :
    answers.map (·.1) = replies.map (·.1) ∧
      ∀ a ∈ answers, (a.1, some a.2) ∈ replies := by
  unfold answered at h
  induction replies generalizing answers with
  | nil =>
    cases h
    exact ⟨rfl, fun _ ha => (by cases ha)⟩
  | cons r replies ih =>
    rw [List.mapM_cons] at h
    obtain ⟨first, hfirst, h⟩ := Option.bind_eq_some_iff.mp h
    obtain ⟨rest, hrest, h⟩ := Option.bind_eq_some_iff.mp h
    obtain ⟨reply, hreply, rfl⟩ := Option.map_eq_some_iff.mp hfirst
    obtain rfl := Option.some.inj h
    obtain ⟨hkeys, hmem⟩ := ih hrest
    refine ⟨by rw [List.map_cons, List.map_cons, hkeys], fun a ha => ?_⟩
    rcases List.mem_cons.mp ha with rfl | ha
    · rw [← hreply]
      exact .head _
    · exact .tail _ (hmem a ha)

theorem foldl_update (answers : List (Domain × DomainReply)) (base whole : Domain → Json)
    (hfrom : ∀ a ∈ answers, a.2.state = whole a.1)
    (hbase : ∀ d ∉ answers.map (·.1), whole d = base d) :
    answers.foldl (fun state a => Function.update state a.1 a.2.state) base = whole := by
  induction answers generalizing base with
  | nil => exact funext fun d => (hbase d List.not_mem_nil).symm
  | cons a answers ih =>
    rw [List.foldl_cons]
    apply ih _ fun b hb => hfrom b (.tail _ hb)
    intro d hd
    by_cases hsame : d = a.1
    · subst hsame
      rw [Function.update_self, hfrom a (.head _)]
    · rw [Function.update_of_ne hsame]
      apply hbase
      rw [List.map_cons]
      exact fun hmem => (List.mem_cons.mp hmem).elim hsame hd

/-- Single domains that all came from the announced revision make up its document. -/
theorem assemble_served (hordered : served.Pairwise Later) {state : Document} {revision : ℕ}
    {answers : List (Domain × DomainReply)} (hstate : state ∈ served)
    (hnext : state.revision + 1 = revision)
    (htells : Tells served revision (answers.map (·.1)))
    (hfrom : ∀ a ∈ answers, a.2.From served a.1)
    (hrevision : ∀ a ∈ answers, a.2.revision = revision) (hsome : answers ≠ []) :
    assemble state revision answers ∈ served ∧
      ∀ d ∉ answers.map (·.1), (assemble state revision answers).state d = state.state d := by
  obtain ⟨a, rest, rfl⟩ := List.exists_cons_of_ne_nil hsome
  obtain ⟨after, hafter, hafterRevision, _⟩ := hfrom a (.head _)
  rw [hrevision a (.head _)] at hafterRevision
  have hunique : ∀ d ∈ served, d.revision = revision → d = after := fun d hd hrev =>
    eq_of_revision hordered hd hafter (hrev.trans hafterRevision)
  have hsame := htells.2 state hstate after hafter hnext hafterRevision.symm
  have hwhole : assemble state revision (a :: rest) = after := by
    unfold assemble
    rw [foldl_update _ _ after.state (fun b hb => ?_) hsame, hafterRevision]
    obtain ⟨d, hd, hdRevision, hdState⟩ := hfrom b hb
    rw [hdState, hunique d hd (hdRevision.symm.trans (hrevision b hb))]
  rw [hwhole]
  exact ⟨hafter, hsame⟩

theorem Sound.publishWhole (h : s.Sound served) (hidle : s.running = none) {state : Document}
    (hstate : state ∈ served) : (s.publish state everyDomain).Sound served := by
  apply h.publish hidle hstate
  intro _ _ d hd
  cases d <;> exact absurd (by decide) hd

theorem Sound.settle (hordered : served.Pairwise Later) (h : s.Sound served) {s' : StateStore}
    (hsettle : s.settle = some s') : s'.Sound served := by
  unfold StateStore.settle at hsettle
  split at hsettle
  · cases hsettle
  · rename_i generation work hrunning
    have hwork : work.Honest served s.snapshot := h.running _ hrunning
    have hidle := h.idle
    dsimp only at hsettle
    split at hsettle
    case h_1 state observed decoder finder =>
      split_ifs at hsettle
      · cases hsettle
        exact Sound.publishWhole (hidle.beside _ _ s.retry s.stopped s.generation) rfl hwork
      · cases hsettle
        exact hidle
    case h_2 state =>
      obtain rfl := Option.some.inj hsettle
      split_ifs
      · exact hidle.publishWhole rfl hwork
      · exact hidle
    case h_3 revision replies =>
      obtain ⟨answers, hanswers, hsettle⟩ := Option.bind_eq_some_iff.mp hsettle
      obtain ⟨⟨before, hbefore, hnext⟩, htells, hfrom⟩ := hwork
      obtain ⟨hkeys, hmem⟩ := mem_answered hanswers
      split_ifs at hsettle with hmixed hvalid
      · cases hsettle
        exact h.run fun w hw => Option.some.inj hw ▸ trivial
      · obtain ⟨state, hstate, rfl⟩ := Option.map_eq_some_iff.mp hsettle
        obtain rfl := Option.some.inj (hbefore.symm.trans hstate)
        simp only [Bool.or_eq_true, List.isEmpty_iff, List.any_eq_true, decide_eq_true_eq,
          not_or, not_exists, not_and, not_not] at hmixed
        obtain ⟨hserved, hsame⟩ := assemble_served hordered (h.snapshot _ hbefore) hnext
          (hkeys ▸ htells) (fun a ha => hfrom _ (hmem a ha) a.2 rfl) hmixed.2 hmixed.1
        apply hidle.publish rfl hserved
        intro old hold
        obtain rfl := Option.some.inj (hbefore.symm.trans hold)
        exact hsame
      · cases hsettle
        exact hidle
    case h_4 observed =>
      obtain rfl := Option.some.inj hsettle
      split_ifs
      · exact Sound.notify (hidle.beside _ s.statuses s.retry s.stopped s.generation)
      · exact hidle
    case h_5 finder =>
      obtain rfl := Option.some.inj hsettle
      split_ifs
      · exact Sound.notify (hidle.beside s.observation _ s.retry s.stopped s.generation)
      · exact hidle
    case h_6 source data =>
      obtain rfl := Option.some.inj hsettle
      split_ifs
      · exact Sound.notify (hidle.beside s.observation _ s.retry s.stopped s.generation)
      · exact hidle
    case h_7 => cases hsettle

theorem Sound.fail (h : s.Sound served) {s' : StateStore} (hfail : s.fail = some s') :
    s'.Sound served := by
  unfold StateStore.fail at hfail
  split at hfail
  case h_8 => cases hfail
  case h_7 =>
    split_ifs at hfail
    cases hfail
    exact h.idle
  all_goals
    cases hfail
    exact h.idle

end StateStore

/-! ### The system -/

theorem mem_lagged {position count : ℕ} {messages : List Message} {m : Message}
    (h : m ∈ lagged position count messages) : m ∈ messages ∨ m = .resync := by
  rcases List.mem_append.mp h with h | h
  · exact .inl (List.mem_of_mem_take h)
  · rcases List.mem_cons.mp h with rfl | h
    · exact .inr rfl
    · exact .inl (List.mem_of_mem_drop h)

namespace System

variable {s s' : System}

theorem Sound.fresh (first : Document) : Sound { control := { current := first } } where
  ordered := List.pairwise_singleton Later first
  events _ hm := (by cases hm)
  store := ⟨fun _ h => (by cases h), fun _ h => (by cases h), fun _ h => (by cases h),
    fun _ h => (by cases h), .nil, rfl⟩

theorem Sound.onStore (h : Sound s) {store : StateStore} (hstore : store.Sound s.control.served) :
    Sound { s with store } :=
  ⟨h.ordered, h.events, hstore⟩

theorem Sound.pass (h : Sound s) {m : Message} (hm : m.Honest s.control.served) :
    Sound (s.pass m) := by
  unfold System.pass
  split
  · rename_i stream hstream
    split_ifs
    · apply h.onStore (h.store.streaming _)
      intro n hn
      rcases List.mem_append.mp hn with hn | hn
      · exact h.store.inbox stream hstream n hn
      · rw [List.mem_singleton.mp hn]
        exact hm
    · exact h
  · exact h

/-- What the hub holds may be overwritten. -/
theorem Sound.sends (h : Sound s) {events : List Message}
    (hevents : ∀ m ∈ events, m.Honest s.control.served) :
    Sound { s with control.events := events } :=
  ⟨h.ordered, hevents, h.store⟩

theorem Sound.latest (h : Sound s) {d : Document} (hd : d ∈ s.control.served) :
    d.revision ≤ s.control.current.revision := by
  rcases List.mem_cons.mp hd with rfl | hd
  · exact Nat.le_refl _
  · exact Nat.le_of_lt (List.rel_of_pairwise_cons h.ordered hd)

theorem Sound.serve (h : Sound s) {next : Document}
    (hnext : s.control.current.revision < next.revision) : Sound (s.serve next) := by
  have hlater : ∀ d ∈ s.control.served, d.revision < next.revision := fun d hd =>
    Nat.lt_of_le_of_lt (h.latest hd) hnext
  exact ⟨List.pairwise_cons.mpr ⟨hlater, h.ordered⟩, fun m hm => (h.events m hm).later hlater,
    h.store.later hlater⟩

/-- The announcements of a turn hold of what is served after it. -/
theorem Sound.announces (h : Sound s) {next : Document} {events : List Event}
    (horderly : orderly s (.turn next events)) {event : Event} (hevent : event ∈ events) :
    (Message.event event).Honest (next :: s.control.served) := by
  cases event with
  | stateChanged revision domains =>
    obtain ⟨hlow, hhigh, hnamed⟩ := horderly.2 revision domains hevent
    refine ⟨⟨next, .head _, hhigh⟩, fun before hbefore after hafter hb ha d hd => ?_⟩
    rcases List.mem_cons.mp hafter with rfl | hafter
    · rcases List.mem_cons.mp hbefore with rfl | hbefore
      · omega
      · have hle := h.latest hbefore
        have hsame : before = s.control.current :=
          eq_of_revision h.ordered hbefore (.head _) (by omega)
        subst hsame
        exact hnamed (by omega) d hd
    · have hle := h.latest hafter
      omega
  | applyProgress | observed | drift | networkPending | status => trivial

theorem Sound.answer (h : Sound s) {f : Work → Option Work} (hanswer : s.answer f = some s')
    (hf : ∀ w w', s.store.running = some w → f w.2 = some w' →
      w'.Honest s.control.served s.store.snapshot) : Sound s' := by
  unfold System.answer at hanswer
  obtain ⟨⟨generation, work⟩, hrunning, hanswer⟩ := Option.bind_eq_some_iff.mp hanswer
  obtain ⟨work', hwork, rfl⟩ := Option.map_eq_some_iff.mp hanswer
  apply h.onStore (h.store.run _)
  intro w hw
  obtain rfl := Option.some.inj hw
  exact hf _ work' hrunning hwork

theorem Sound.step (h : Sound s) {a : Act} (ha : orderly s a) (hstep : s.step a = some s') :
    Sound s' := by
  unfold System.step at hstep
  cases a <;> dsimp only at hstep
  case turn next events =>
    cases hstep
    have hserved := h.serve ha.1
    apply hserved.sends
    intro m hm
    rcases List.mem_append.mp hm with hm | hm
    · exact hserved.events m hm
    · obtain ⟨event, hevent, rfl⟩ := List.mem_map.mp hm
      exact h.announces ha hevent
  case send event =>
    cases hstep
    apply h.sends
    intro m hm
    rcases List.mem_append.mp hm with hm | hm
    · exact h.events m hm
    · rw [List.mem_singleton.mp hm]
      cases event with
      | stateChanged revision domains => exact absurd rfl (ha revision domains)
      | applyProgress | observed | drift | networkPending | status => trivial
  case lag count =>
    cases hstep
    apply h.sends
    intro m hm
    rcases mem_lagged hm with hm | rfl
    · exact h.events m hm
    · trivial
  case forward =>
    split at hstep
    · rename_i m events hevents
      cases hstep
      apply Sound.pass (h.sends fun n hn => h.events n (hevents ▸ .tail _ hn))
      exact h.events m (hevents ▸ .head _)
    · cases hstep
  case sample source data =>
    cases hstep
    exact h.pass trivial
  case resync =>
    cases hstep
    exact h.pass trivial
  case restart next =>
    cases hstep
    have hserved : Sound (next.elim s s.serve) := by
      cases next with
      | none => exact h
      | some next => exact h.serve (ha next rfl)
    refine ⟨hserved.ordered, fun _ hm => (by cases hm), ?_⟩
    cases hstream : (next.elim s s.serve).store.stream with
    | none => exact hserved.store.streamless
    | some stream => exact hserved.store.streaming (hserved.store.inbox stream hstream)
  case subscribe =>
    split at hstep
    · rename_i stream hstream
      split_ifs at hstep
      cases hstep
      exact h.onStore (h.store.streaming (h.store.inbox stream hstream))
    · cases hstep
  case lagStream position count =>
    split at hstep
    · rename_i stream hstream
      split_ifs at hstep
      cases hstep
      apply h.onStore (h.store.streaming _)
      intro m hm
      rcases mem_lagged hm with hm | rfl
      · exact h.store.inbox stream hstream m hm
      · trivial
    · cases hstep
  case receive =>
    split at hstep
    · rename_i stream hstream
      split at hstep
      · rename_i m inbox hinbox
        cases hstep
        have hall := h.store.inbox stream hstream
        rw [hinbox] at hall
        apply h.onStore (StateStore.Sound.receive (h.store.streaming _) (hall m (.head _)))
        exact fun n hn => hall n (.tail _ hn)
      · cases hstep
    · cases hstep
  case lose =>
    split_ifs at hstep
    cases hstep
    exact h.onStore (h.store.streamless.beside s.store.observation s.store.statuses true
      s.store.stopped s.store.generation)
  case reconnect =>
    split_ifs at hstep
    cases hstep
    exact h.onStore (StateStore.Sound.enqueue (StateStore.Sound.connect (h.store.beside
      s.store.observation s.store.statuses false s.store.stopped s.store.generation)) trivial)
  case start =>
    cases hstep
    apply h.onStore
    unfold StateStore.start
    split_ifs
    · exact StateStore.Sound.enqueue (StateStore.Sound.connect (h.store.beside
        s.store.observation s.store.statuses s.store.retry false s.store.generation)) trivial
    · exact h.store
  case stop =>
    cases hstep
    exact h.onStore (h.store.streamless.beside s.store.observation s.store.statuses false
      true (s.store.generation + 1))
  case reload | refreshObserved | refreshSources =>
    cases hstep
    exact h.onStore (h.store.enqueue trivial)
  case begin =>
    obtain ⟨store, hstore, rfl⟩ := Option.map_eq_some_iff.mp hstep
    exact h.onStore (h.store.begin hstore)
  case settle =>
    obtain ⟨store, hstore, rfl⟩ := Option.map_eq_some_iff.mp hstep
    exact h.onStore (h.store.settle h.ordered hstore)
  case fail =>
    obtain ⟨store, hstore, rfl⟩ := Option.map_eq_some_iff.mp hstep
    exact h.onStore (h.store.fail hstore)
  case answerState =>
    apply h.answer hstep
    rintro ⟨generation, work⟩ work' hrunning hwork
    dsimp only at hwork
    split at hwork
    · cases hwork
      exact .head _
    · cases hwork
      exact .head _
    · cases hwork
  case answerDomain domain =>
    apply h.answer hstep
    rintro ⟨generation, work⟩ work' hrunning hwork
    dsimp only at hwork
    split at hwork
    · rename_i revision replies
      split_ifs at hwork
      cases hwork
      exact (h.store.running _ hrunning).reply (.head _) domain
    · cases hwork
  case answerObserved observed =>
    apply h.answer hstep
    rintro ⟨generation, work⟩ work' hrunning hwork
    have hold := h.store.running _ hrunning
    dsimp only at hwork hold
    split at hwork <;> cases hwork
    · exact hold.reload
    · trivial
  case answerStatus reply =>
    apply h.answer hstep
    rintro ⟨generation, work⟩ work' hrunning hwork
    have hold := h.store.running _ hrunning
    dsimp only at hwork hold
    split at hwork
    · cases hwork
      exact hold.reload
    · obtain ⟨data, _, rfl⟩ := Option.map_eq_some_iff.mp hwork
      trivial
    · cases hwork
  case answerSources reply =>
    apply h.answer hstep
    rintro ⟨generation, work⟩ work' hrunning hwork
    have hold := h.store.running _ hrunning
    dsimp only at hwork hold
    split at hwork
    · cases hwork
      exact hold.reload
    · obtain ⟨data, _, rfl⟩ := Option.map_eq_some_iff.mp hwork
      trivial
    · cases hwork

/-- What the listeners have seen. -/
structure Shows (s : System) : Prop where
  ordered : s.control.served.Pairwise Later
  snapshot : ∀ state, s.store.snapshot = some state → state ∈ s.control.served
  last : s.store.told.head?.map Prod.fst = s.store.snapshot
  named : s.store.told.IsChain Named

/-- However turns of the actor, overwritten messages, restarts, lost streams, stops and single
replies follow each other: the snapshot is a document that was served, as a whole; from call to call
of the listeners revisions do not decrease, and the domains named are all that changed. -/
theorem snapshots_served {first : Document} {acts : List Act}
    (horderly : Steps.Meets System.step orderly { control := { current := first } } acts)
    (hrun : Steps.after System.step { control := { current := first } } acts = some s) :
    Shows s := by
  have hsound : Sound s :=
    horderly.inv (fun _ _ _ h ha hstep => h.step ha hstep) (Sound.fresh first) hrun
  exact ⟨hsound.ordered, hsound.store.snapshot, hsound.store.last, hsound.store.named⟩

/-! ### Two commits during one read -/

def titled (revision : ℕ) (title : String) : Document where
  revision
  state domain := if domain = .device then .str title else .null

def opened : List Act :=
  [.subscribe, .begin, .answerState, .answerObserved ⟨fun _ => .null, .null⟩, .answerStatus none,
    .answerSources none, .settle]

/-- The second commit comes before the device is read for the first one. -/
def straddled : List Act :=
  [.turn (titled 1 "studio") [.stateChanged 1 [.device]], .forward, .receive, .begin,
    .turn (titled 2 "stage") [.stateChanged 2 [.device]], .answerDomain .device, .settle,
    .answerState, .settle, .forward, .receive, .begin]

def unopened : System := { control := { current := titled 0 "" } }

/-- Renaming the device is announced as a change of the device. -/
theorem titled_orderly {s : System} {revision : ℕ} {old title : String}
    (hcurrent : s.control.current = titled revision old) :
    orderly s (.turn (titled (revision + 1) title) [.stateChanged (revision + 1) [.device]]) := by
  unfold orderly
  rw [hcurrent]
  refine ⟨Nat.lt_succ_self _, fun announced domains hevent => ?_⟩
  obtain ⟨rfl, rfl⟩ := Event.stateChanged.inj (List.mem_singleton.mp hevent)
  refine ⟨Nat.lt_succ_self _, Nat.le_refl _, fun _ d hd => ?_⟩
  have hother : d ≠ .device := fun h => hd (List.mem_singleton.mpr h)
  simp only [titled, if_neg hother]

theorem straddled_orderly : Steps.Meets System.step orderly unopened
    (.start :: (opened ++ straddled)) := by
  repeat
    first
    | exact trivial
    | refine And.intro trivial ?_
    | refine And.intro (titled_orderly rfl) ?_

theorem straddled_served : ∃ s, Steps.after System.step unopened
    (.start :: (opened ++ straddled)) = some s ∧ Shows s ∧
      s.store.snapshot.map Document.revision = some 2 := by
  have hrevision : ∃ s ∈ Steps.after System.step unopened (.start :: (opened ++ straddled)),
      s.store.snapshot.map Document.revision = some 2 := by decide +kernel
  obtain ⟨s, hs, hrevision⟩ := hrevision
  exact ⟨s, hs, snapshots_served straddled_orderly hs, hrevision⟩

end System

end NdimonR.Ui
