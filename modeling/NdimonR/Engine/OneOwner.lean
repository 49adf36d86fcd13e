import NdimonR.Engine.Recoverable
import NdimonR.Engine.Admission

/-! A transferred network has one owner. The releasing engine is blocked by its markers from the
first change on; the receiver tells it to stay away only after its own authority has decided, and
gives the network back only when there is no decision and every file is what it was. -/

namespace NdimonR.Engine

open NdimonR.Types

/-! ## What a change does to the two owners -/

/-- An event that is about neither owner. -/
def Event.plain : Event → Prop
  | .loaded _ => True
  | .wrote _ _ _ => True
  | .table _ _ => True
  | .activated _ _ => True
  | .addresses _ _ => True
  | _ => False

/-- What a change does to the journal, the releasing engine's reservation and the trace. -/
inductive OwnerStep (w w' : World) : Prop where
  | still (hp : w'.pending = w.pending) (hx : w'.peerExternal = w.peerExternal)
      (ht : w'.trace = w.trace ∨ ∃ e : Event, e.plain ∧ w'.trace = e :: w.trace)
  | staged {j : Journal} (hd : w.pending = none) (hp : w'.pending = some j)
      (hx : w'.peerExternal = w.peerExternal)
      (ht : w'.trace = .staged j :: w.trace) (hs : j.phase = .staged)
      (hn : w.knows j.jobId = false) (hfree : j.handoff.isSome = true → w.peerExternal = none)
  | rewritten {d j : Journal} (hd : w.pending = some d) (hp : w'.pending = some j)
      (hx : w'.peerExternal = w.peerExternal) (ht : w'.trace = w.trace) (ha : Advance d j)
      (hr : d.phase = .staged → j.phase ≠ .staged → Reserved d w)
  | revived {d j : Journal} {files : Files} (hd : .finished d false files ∈ w.trace)
      (hp : w'.pending = some j) (hx : w'.peerExternal = w.peerExternal)
      (ht : w'.trace = w.trace) (ha : Advance d j) (hs : j.phase = .failed)
      (hr : ∀ t, j.handoff = some t → j.handoffRestored = true ∧ Freed t w)
  | reserved {d : Journal} {t : Transfer} (hd : w.pending = some d) (hp : w'.pending = w.pending)
      (hx : w'.peerExternal = some (ownership t d.jobId)) (ht : w'.trace = w.trace)
      (hs : d.phase = .staged) (hfree : w.peerExternal = none)
      (hr : ∀ i files, .released i files ∈ w.trace → i.jobId ≠ d.jobId)
  | decided {d : Journal} {c : Commit} (hd : w.pending = some d) (hp : w'.pending = w.pending)
      (hx : w'.peerExternal = w.peerExternal) (ht : w'.trace = .decided c :: w.trace)
      (hs : d.phase = .applied) (hc : nextCommit d = .ok c)
  | kept {d : Journal} {t : Transfer} (hd : w.pending = some d) (hp : w'.pending = w.pending)
      (hx : w'.peerExternal = w.peerExternal)
      (ht : w'.trace = .kept (ownership t d.jobId) :: w.trace) (hh : d.handoff = some t)
      (hc : w.authority.decides d = true)
  | released {d j : Journal} {t : Transfer} (hd : w.pending = some d)
      (hp : w'.pending = w.pending) (ht : w'.trace = .released j w.files :: w.trace)
      (hh : d.handoff = some t) (hi : d.identity = j.identity)
      (hu : w.authority.decides d = false)
      (hs : d.phase = .staged ∨ d.handoffRestored = true) (hf : Freed t w')
      (hx : w'.peerExternal = w.peerExternal ∨
        (w'.peerExternal = none ∧ ∃ o, w.peerExternal = some o ∧ o.id = t.source.id))
  | finished {d : Journal} (hd : w.pending = some d) (hp : w'.pending = none)
      (hx : w'.peerExternal = w.peerExternal)
      (ht : w'.trace = .finished d (w.authority.decides d) w.files :: w.trace) (hr : Told d w)

variable {w w' : World}

theorem Change.ownerStep {A : Journal → World → Prop} {G : Prop} (hc : Change A G w w') :
    OwnerStep w w' := by
  cases hc with
  | stage hp hq hj hs hb hr hf hn hrev hx =>
    exact .staged hp (by simp) (by simp) (putPending_trace_staged _ w hp hs) hs hn hx
  | journal hp ha hj hr hx =>
    exact .rewritten hp (by simp) (by simp) (putPending_trace_some _ w hp) ha hx
  | revive hp hq hd ha hj hs hr hf hu hx =>
    have hnot := putPending_trace_later _ w (by rw [hs]; exact nofun)
    exact .revived hd (by simp) (by simp) hnot ha hs hx
  | reserve hp ht hs hx hr => exact .reserved hp rfl rfl rfl hs hx hr
  | decide hp hA hs hr hb hc => exact .decided hp rfl rfl rfl hs hc
  | kept hp ht hd => exact .kept hp rfl rfl rfl ht hd
  | releaseExternal hp ht hi hu hs hx ho =>
    exact .released hp rfl rfl ht hi hu hs (fun _ h => nomatch h) (.inr ⟨rfl, _, hx, ho⟩)
  | releaseQuiesce hp ht hi hu hs hx => exact .released hp rfl rfl ht hi hu hs hx (.inl rfl)
  | finish hp hf hx =>
    rw [removePending_eq hp]
    exact .finished hp rfl rfl rfl hx
  | load | observe | write | unbanner | table | activate =>
    refine .still rfl rfl (.inr ⟨_, ?_, rfl⟩)
    exact trivial
  | pass | last | keyfiles | archive | released => exact .still rfl rfl (.inl rfl)

/-! ## The invariant -/

/-- The decision a done marker stands on. -/
def KeptFor (o : Ownership) (earlier : List Event) : Prop :=
  ∃ j t c, .staged j ∈ earlier ∧ j.handoff = some t ∧ o = ownership t j.jobId ∧
    .decided c ∈ earlier ∧ c.decides j = true

/-- Every done marker was written after the decision it stands on. -/
def KeptInOrder : List Event → Prop
  | [] => True
  | e :: earlier => (∀ o, e = .kept o → KeptFor o earlier) ∧ KeptInOrder earlier

theorem KeptInOrder.split {later earlier : List Event} {o : Ownership}
    (h : KeptInOrder (later ++ .kept o :: earlier)) : KeptFor o earlier := by
  induction later with
  | nil => exact h.1 o rfl
  | cons e rest ih => exact ih h.2

def Begun (w : World) (d : Journal) : Prop := ∃ j, .staged j ∈ w.trace ∧ j.identity = d.identity

structure OneOwner (w : World) : Prop where
  begun : ∀ d, Known w d → Begun w d
  order : KeptInOrder w.trace
  working : ∀ d, w.pending = some d → d.phase ≠ .staged → d.handoffRestored = false →
    Reserved d w
  blocked : ∀ j, .staged j ∈ w.trace → Taken w j → Reserved j w
  apart : ∀ d j, w.pending = some d → .staged j ∈ w.trace → Taken w j →
    d.identity ≠ j.identity → ∀ t t', d.handoff = some t → j.handoff = some t' →
      t.source.id ≠ t'.source.id
  released : ∀ j files, .released j files ∈ w.trace → ¬ Taken w j ∧ Restored files j
  halted : ∀ d j files, w.pending = some d → .released j files ∈ w.trace → j.jobId = d.jobId →
    d.phase.rank = 3 ∨ (d.phase = .staged ∧ ¬ Reserved d w)
  told : ∀ d files t, .finished d true files ∈ w.trace → d.handoff = some t →
    .kept (ownership t d.jobId) ∈ w.trace
  freed : ∀ d files t, .finished d false files ∈ w.trace → d.handoff = some t →
    w.peerExternal ≠ some (ownership t d.jobId)

theorem Freed.unreserved {d : Journal} {t : Transfer} (h : Freed t w) (ht : d.handoff = some t) :
    ¬ Reserved d w := by
  intro hr
  exact h _ (hr t ht) rfl

theorem Reserved.moved {d : Journal} (h : Reserved d w) (hx : w'.peerExternal = w.peerExternal) :
    Reserved d w' := by
  intro t ht
  rw [hx]
  exact h t ht

/-! ## What is new after a step -/

namespace OwnerStep

/-- The trace only grows, by at most one event. -/
theorem grows (hs : OwnerStep w w') : w'.trace = w.trace ∨ ∃ e, w'.trace = e :: w.trace := by
  cases hs with
  | still hp hx ht =>
    obtain ht | ⟨e, _, ht⟩ := ht
    · exact .inl ht
    · exact .inr ⟨e, ht⟩
  | rewritten hd hp hx ht | revived hd hp hx ht | reserved hd hp hx ht => exact .inl ht
  | staged hd hp hx ht | decided hd hp hx ht | kept hd hp hx ht | finished hd hp hx ht =>
    exact .inr ⟨_, ht⟩
  | released hd hp ht => exact .inr ⟨_, ht⟩

theorem keeps (hs : OwnerStep w w') {e : Event} (he : e ∈ w.trace) : e ∈ w'.trace := by
  obtain ht | ⟨d, ht⟩ := hs.grows
  · rw [ht]
    exact he
  · rw [ht]
    exact List.mem_cons_of_mem d he

theorem begun (hs : OwnerStep w w') {d : Journal} (h : Begun w d) : Begun w' d := by
  obtain ⟨j, hj, hi⟩ := h
  exact ⟨j, hs.keeps hj, hi⟩

theorem still_old {x : Event} (hx : ¬ x.plain)
    (ht : w'.trace = w.trace ∨ ∃ e : Event, e.plain ∧ w'.trace = e :: w.trace)
    (h : x ∈ w'.trace) : x ∈ w.trace := by
  obtain ht | ⟨e, hplain, ht⟩ := ht
  · rw [ht] at h
    exact h
  · rw [ht] at h
    obtain rfl | h := List.mem_cons.mp h
    · exact absurd hplain hx
    · exact h

theorem staged_new (hs : OwnerStep w w') {j : Journal} (h : .staged j ∈ w'.trace) :
    .staged j ∈ w.trace ∨
      (w.pending = none ∧ w'.pending = some j ∧ w.knows j.jobId = false) := by
  cases hs with
  | still hp hx ht => exact .inl (still_old id ht h)
  | @staged i hd hp hx ht hs hn =>
    rw [ht] at h
    obtain he | h := List.mem_cons.mp h
    · cases he
      exact .inr ⟨hd, hp, hn⟩
    · exact .inl h
  | rewritten hd hp hx ht | revived hd hp hx ht | reserved hd hp hx ht =>
    rw [ht] at h
    exact .inl h
  | decided hd hp hx ht | kept hd hp hx ht | finished hd hp hx ht | released hd hp ht =>
    rw [ht] at h
    exact .inl (by simpa using h)

theorem taken_new (hs : OwnerStep w w') {j : Journal} (h : Taken w' j) :
    Taken w j ∨ ∃ d c, w.pending = some d ∧ d.phase = .applied ∧ nextCommit d = .ok c ∧
      c.decides j = true ∧ w'.pending = w.pending ∧ w'.peerExternal = w.peerExternal := by
  obtain ⟨c, hc, hdec⟩ := h
  cases hs with
  | still hp hx ht => exact .inl ⟨c, still_old id ht hc, hdec⟩
  | @decided d c' hd hp hx ht hs hn =>
    rw [ht] at hc
    obtain he | hc := List.mem_cons.mp hc
    · cases he
      exact .inr ⟨d, c, hd, hs, hn, hdec, hp, hx⟩
    · exact .inl ⟨c, hc, hdec⟩
  | rewritten hd hp hx ht | revived hd hp hx ht | reserved hd hp hx ht =>
    rw [ht] at hc
    exact .inl ⟨c, hc, hdec⟩
  | staged hd hp hx ht | kept hd hp hx ht | finished hd hp hx ht | released hd hp ht =>
    rw [ht] at hc
    exact .inl ⟨c, by simpa using hc, hdec⟩

theorem finished_new (hs : OwnerStep w w') {d : Journal} {kept : Bool} {files : Files}
    (h : .finished d kept files ∈ w'.trace) :
    .finished d kept files ∈ w.trace ∨
      (w.pending = some d ∧ kept = w.authority.decides d ∧ Told d w ∧ w'.pending = none ∧
        w'.peerExternal = w.peerExternal) := by
  cases hs with
  | still hp hx ht => exact .inl (still_old id ht h)
  | @finished i hd hp hx ht hr =>
    rw [ht] at h
    obtain he | h := List.mem_cons.mp h
    · cases he
      exact .inr ⟨hd, rfl, hr, hp, hx⟩
    · exact .inl h
  | rewritten hd hp hx ht | revived hd hp hx ht | reserved hd hp hx ht =>
    rw [ht] at h
    exact .inl h
  | staged hd hp hx ht | decided hd hp hx ht | kept hd hp hx ht | released hd hp ht =>
    rw [ht] at h
    exact .inl (by simpa using h)

theorem released_new (hs : OwnerStep w w') {j : Journal} {files : Files}
    (h : .released j files ∈ w'.trace) :
    .released j files ∈ w.trace ∨ ∃ d, w.pending = some d ∧ w'.pending = w.pending ∧
      d.identity = j.identity ∧ w.authority.decides d = false ∧
      (d.phase = .staged ∨ d.handoffRestored = true) ∧ ¬ Reserved d w' ∧ files = w.files := by
  cases hs with
  | still hp hx ht => exact .inl (still_old id ht h)
  | @released d i t hd hp ht hh hi hu hs hf hx =>
    rw [ht] at h
    obtain he | h := List.mem_cons.mp h
    · cases he
      exact .inr ⟨d, hd, hp, hi, hu, hs, hf.unreserved hh, rfl⟩
    · exact .inl h
  | rewritten hd hp hx ht | revived hd hp hx ht | reserved hd hp hx ht =>
    rw [ht] at h
    exact .inl h
  | staged hd hp hx ht | decided hd hp hx ht | kept hd hp hx ht | finished hd hp hx ht =>
    rw [ht] at h
    exact .inl (by simpa using h)

/-- Where the journal of the next state comes from. -/
theorem pending_new (hs : OwnerStep w w') {d : Journal} (h : w'.pending = some d) :
    w.pending = some d ∨
    (w'.peerExternal = w.peerExternal ∧
      ((.staged d ∈ w'.trace ∧ d.phase = .staged ∧ w.knows d.jobId = false ∧
          (d.handoff.isSome = true → w.peerExternal = none)) ∨
        ∃ e, Known w e ∧ Advance e d ∧
          ((w.pending = some e ∧ (e.phase = .staged → d.phase ≠ .staged → Reserved e w)) ∨
            (d.phase = .failed ∧
              ∀ t, d.handoff = some t → d.handoffRestored = true ∧ Freed t w)))) := by
  cases hs with
  | still hp => exact .inl (hp.symm.trans h)
  | @staged j hd hp hx ht hs hn hfree =>
    rw [hp] at h
    cases h
    exact .inr ⟨hx, .inl ⟨by rw [ht]; exact List.mem_cons_self, hs, hn, hfree⟩⟩
  | @rewritten e j hd hp hx ht ha hr =>
    rw [hp] at h
    cases h
    exact .inr ⟨hx, .inr ⟨e, .inl hd, ha, .inl ⟨hd, hr⟩⟩⟩
  | @revived e j files hd hp hx ht ha hs hr =>
    rw [hp] at h
    cases h
    exact .inr ⟨hx, .inr ⟨e, .inr (.inr ⟨false, files, hd⟩), ha, .inr ⟨hs, hr⟩⟩⟩
  | reserved hd hp | decided hd hp | kept hd hp | released hd hp => exact .inl (hp.symm.trans h)
  | finished hd hp =>
    rw [hp] at h
    cases h

/-- The reservation is made for a staged journal, and taken back from an undecided one. -/
theorem external_new (hs : OwnerStep w w') : w'.peerExternal = w.peerExternal ∨
    ∃ d, w.pending = some d ∧ w'.pending = w.pending ∧
      ((d.phase = .staged ∧ w.peerExternal = none ∧
          (∃ t, w'.peerExternal = some (ownership t d.jobId)) ∧
            ∀ i files, .released i files ∈ w.trace → i.jobId ≠ d.jobId) ∨
        (w.authority.decides d = false ∧ (d.phase = .staged ∨ d.handoffRestored = true) ∧
          w'.peerExternal = none ∧
            ∃ t o, d.handoff = some t ∧ w.peerExternal = some o ∧ o.id = t.source.id)) := by
  cases hs with
  | @reserved d t hd hp hx ht hs hfree hr =>
    exact .inr ⟨d, hd, hp, .inl ⟨hs, hfree, ⟨t, hx⟩, hr⟩⟩
  | @released d j t hd hp ht hh hi hu hs hf hx =>
    obtain hx | ⟨hx, o, ho, hid⟩ := hx
    · exact .inl hx
    · exact .inr ⟨d, hd, hp, .inr ⟨hu, hs, hx, t, o, hh, ho, hid⟩⟩
  | still hp hx | staged hd hp hx | rewritten hd hp hx | revived hd hp hx | decided hd hp hx
  | kept hd hp hx | finished hd hp hx => exact .inl hx

end OwnerStep

/-! ## The invariant is kept -/

namespace OneOwner

theorem initial (h : w.Initial) : OneOwner w := by
  have hempty : ∀ {φ : Prop} e, e ∈ w.trace → φ := by
    intro φ e he
    rw [h.trace] at he
    exact absurd he List.not_mem_nil
  have hnone : ∀ {φ : Prop} d, w.pending = some d → φ := by
    intro φ d hd
    rw [h.pending] at hd
    cases hd
  refine ⟨?_, by rw [h.trace]; exact trivial, fun d hd => hnone d hd, fun j hj => hempty _ hj,
    fun d _ hd => hnone d hd, fun _ _ hj => hempty _ hj, fun d _ _ hd => hnone d hd,
    fun _ _ _ hd => hempty _ hd, fun _ _ _ hd => hempty _ hd⟩
  rintro d (hd | hd | ⟨kept, files, hd⟩)
  · exact hnone d hd
  · exact hempty _ hd
  · exact hempty _ hd

variable (h : OneOwner w) (hl : Ledger w) (hw : w.Wf) (hs : OwnerStep w w')
include h hs

theorem begun_step : ∀ d, Known w' d → Begun w' d := by
  rintro d (hd | hd | ⟨kept, files, hd⟩)
  · obtain hd | ⟨_, ⟨hd, _⟩ | ⟨e, he, ha, _⟩⟩ := hs.pending_new hd
    · exact hs.begun (h.begun d (.inl hd))
    · exact ⟨d, hd, rfl⟩
    · obtain ⟨j, hj, hi⟩ := hs.begun (h.begun e he)
      exact ⟨j, hj, hi.trans ha.same⟩
  · exact ⟨d, hd, rfl⟩
  · obtain hd | ⟨hd, _⟩ := hs.finished_new hd
    · exact hs.begun (h.begun d (.inr (.inr ⟨kept, files, hd⟩)))
    · exact hs.begun (h.begun d (.inl hd))

include hl

/-- A done marker is written for a pending journal whose decision the authority holds. -/
theorem order_step : KeptInOrder w'.trace := by
  cases hs with
  | still hp hx ht =>
    obtain ht | ⟨e, hplain, ht⟩ := ht
    · rw [ht]
      exact h.order
    · rw [ht]
      refine ⟨?_, h.order⟩
      rintro o rfl
      exact hplain.elim
  | rewritten hd hp hx ht | revived hd hp hx ht | reserved hd hp hx ht =>
    rw [ht]
    exact h.order
  | staged hd hp hx ht | decided hd hp hx ht | finished hd hp hx ht | released hd hp ht =>
    rw [ht]
    exact ⟨fun o he => (nomatch he), h.order⟩
  | @kept d t hd hp hx ht hh hc =>
    rw [ht]
    refine ⟨?_, h.order⟩
    rintro o ⟨⟩
    obtain ⟨j, hj, hi⟩ := h.begun d (.inl hd)
    obtain ⟨c, hdec, hcd⟩ := hl.recorded d w.authority (.inl hd) (.inl rfl) hc
    refine ⟨j, t, c, hj, (handoff_congr hi).trans hh, ?_, hdec, ?_⟩
    · rw [jobId_congr hi]
    · rw [decides_congr hi]
      exact hcd

omit hl in
theorem working_step : ∀ d, w'.pending = some d → d.phase ≠ .staged →
    d.handoffRestored = false → Reserved d w' := by
  intro d hd hm hr
  obtain hd | ⟨hx, ⟨_, hstaged, _⟩ | ⟨e, he, ha, ⟨hpe, hres⟩ | ⟨_, hrev⟩⟩⟩ := hs.pending_new hd
  · obtain hx | ⟨i, hi, _, ⟨hstaged, _⟩ | ⟨_, hfirst, _⟩⟩ := hs.external_new
    · exact (h.working d hd hm hr).moved hx
    · rw [hd] at hi
      cases hi
      exact absurd hstaged hm
    · rw [hd] at hi
      cases hi
      obtain hstaged | hrestored := hfirst
      · exact absurd hstaged hm
      · rw [hr] at hrestored
        cases hrestored
  · exact absurd hstaged hm
  · have hold : Reserved e w := by
      by_cases hstaged : e.phase = .staged
      · exact hres hstaged hm
      · apply h.working e hpe hstaged
        cases hre : e.handoffRestored with
        | false => rfl
        | true =>
          have hrd := ha.released hre
          rw [hr] at hrd
          cases hrd
    exact (Reserved.congr ha.same hold).moved hx
  · intro t ht
    obtain ⟨hrestored, _⟩ := hrev t ht
    rw [hr] at hrestored
    cases hrestored

omit h hl in
/-- A journal staged by this step has no decision yet. -/
theorem fresh_undecided {j : Journal} (hp : w.pending = none) (hn : w.knows j.jobId = false) :
    ¬ Taken w' j := by
  intro ht
  obtain ⟨c, hc, hd⟩ | ⟨d, c, hd, _⟩ := hs.taken_new ht
  · have hname := unnamed_of_knows hn hc
    simp [Event.names, c.decides_transaction hd] at hname
  · rw [hp] at hd
    cases hd

omit hs in
/-- The decision of this step is that of a working journal, which holds the reservation. -/
theorem decided_reserved {d j : Journal} {c : Commit} (hw : w.Wf) (hd : w.pending = some d)
    (happlied : d.phase = .applied) (hc : nextCommit d = .ok c) (hj : .staged j ∈ w.trace)
    (hcj : c.decides j = true) : Reserved j w := by
  have hsame : d.identity = j.identity := hl.committed_same hd hj hc hcj
  refine Reserved.congr hsame (h.working d hd ?_ ?_)
  · rw [happlied]
    exact nofun
  · cases hr : d.handoffRestored with
    | false => rfl
    | true =>
      have hrank := ((hw.journal d hd).handoff hr).2
      rw [happlied] at hrank
      cases hrank

theorem blocked_step (hw : w.Wf) : ∀ j, .staged j ∈ w'.trace → Taken w' j → Reserved j w' := by
  intro j hj ht
  obtain hj | ⟨hp, _, hn⟩ := hs.staged_new hj
  · obtain ht | ⟨d, c, hd, happlied, hc, hcj, _, hx⟩ := hs.taken_new ht
    · have hold : Reserved j w := h.blocked j hj ht
      obtain hx | ⟨d, hd, _, ⟨_, hfree, _⟩ | ⟨hu, _, hx, t, o, hh, ho, hid⟩⟩ := hs.external_new
      · exact hold.moved hx
      · intro t ht'
        have hblocked := hold t ht'
        rw [hfree] at hblocked
        cases hblocked
      · intro t' ht'
        have hblocked := hold t' ht'
        have hdiffer : d.identity ≠ j.identity := by
          intro hsame
          have hdecides := hl.held d hd (ht.congr hsame.symm)
          rw [hu] at hdecides
          cases hdecides
        have hids := h.apart d j hd hj ht hdiffer t t' hh ht'
        rw [ho] at hblocked
        cases hblocked
        exact absurd hid.symm hids
    · exact (h.decided_reserved hl hw hd happlied hc hj hcj).moved hx
  · exact absurd ht (fresh_undecided hs hp hn)

theorem apart_step : ∀ d j, w'.pending = some d → .staged j ∈ w'.trace → Taken w' j →
    d.identity ≠ j.identity → ∀ t t', d.handoff = some t → j.handoff = some t' →
      t.source.id ≠ t'.source.id := by
  intro d j hd hj ht hdiffer t t' hdt hjt
  obtain hj | ⟨hp, _, hn⟩ := hs.staged_new hj
  · obtain ht | ⟨i, c, hi, _, hc, hcj, hp, _⟩ := hs.taken_new ht
    · obtain hd | ⟨_, ⟨_, _, _, hfree⟩ | ⟨e, he, ha, ⟨hpe, _⟩ | ⟨_, hrev⟩⟩⟩ := hs.pending_new hd
      · exact h.apart d j hd hj ht hdiffer t t' hdt hjt
      · have hblocked := h.blocked j hj ht t' hjt
        rw [hfree (by rw [hdt]; rfl)] at hblocked
        cases hblocked
      · have hdiffer' : e.identity ≠ j.identity := by
          intro hsame
          exact hdiffer (ha.same.symm.trans hsame)
        exact h.apart e j hpe hj ht hdiffer' t t' ((handoff_congr ha.same).trans hdt) hjt
      · obtain ⟨_, hfreed⟩ := hrev t hdt
        intro hid
        exact hfreed _ (h.blocked j hj ht t' hjt) hid.symm
    · rw [hp, hi] at hd
      cases hd
      exact absurd (hl.committed_same hi hj hc hcj) hdiffer
  · exact absurd ht (fresh_undecided hs hp hn)

/-- A marker is removed for an undecided journal whose files are what they were, and from then on
the journal can only end. -/
theorem released_step (hw : w.Wf) (hr : Recoverable w) :
    ∀ j files, .released j files ∈ w'.trace → ¬ Taken w' j ∧ Restored files j := by
  intro j files hj
  obtain hj | ⟨d, hd, hp, hi, hu, hfirst, _, rfl⟩ := hs.released_new hj
  · obtain ⟨hnot, hrest⟩ := h.released j files hj
    refine ⟨fun ht => ?_, hrest⟩
    obtain ht | ⟨d, c, hd, happlied, hc, hcj, _⟩ := hs.taken_new ht
    · exact hnot ht
    · have hid : j.jobId = d.jobId := by
        have h₁ := c.decides_transaction hcj
        have h₂ := c.decides_transaction (nextCommit_decides hc)
        rw [h₁] at h₂
        exact Option.some.inj h₂
      obtain hrank | ⟨hstaged, _⟩ := h.halted d j files hd hj hid
      · rw [happlied] at hrank
        cases hrank
      · rw [happlied] at hstaged
        cases hstaged
  · have hrest : Restored w.files d := by
      obtain hstaged | hrestored := hfirst
      · exact hr.staged d hd hstaged
      · exact hr.released d hd hrestored
    refine ⟨fun ht => ?_, hrest.congr hi⟩
    obtain ht | ⟨i, c, hpi, happlied, _⟩ := hs.taken_new ht
    · have hdecides := hl.held d hd (ht.congr hi.symm)
      rw [hu] at hdecides
      cases hdecides
    · rw [hd] at hpi
      cases hpi
      obtain hstaged | hrestored := hfirst
      · rw [hstaged] at happlied
        cases happlied
      · have hrank := ((hw.journal d hd).handoff hrestored).2
        rw [happlied] at hrank
        cases hrank

omit hl in
theorem halted_step (hw : w.Wf) : ∀ d j files, w'.pending = some d →
    .released j files ∈ w'.trace → j.jobId = d.jobId →
      d.phase.rank = 3 ∨ (d.phase = .staged ∧ ¬ Reserved d w') := by
  intro d j files hd hj hid
  obtain hj | ⟨i, hi, hp, _, _, hfirst, hnot, _⟩ := hs.released_new hj
  · obtain hd | ⟨hx, ⟨_, _, hn, _⟩ | ⟨e, he, ha, ⟨hpe, hres⟩ | ⟨hfailed, _⟩⟩⟩ := hs.pending_new hd
    · obtain hrank | ⟨hstaged, hnot⟩ := h.halted d j files hd hj hid
      · exact .inl hrank
      · refine .inr ⟨hstaged, fun hres => ?_⟩
        obtain hx | ⟨i, hi, _, ⟨_, _, _, hnone⟩ | ⟨_, _, hx, t, o, hh, _⟩⟩ := hs.external_new
        · exact hnot (hres.moved hx.symm)
        · rw [hd] at hi
          cases hi
          exact hnone j files hj hid
        · rw [hd] at hi
          cases hi
          have hown := hres t hh
          rw [hx] at hown
          cases hown
    · have hname := unnamed_of_knows hn hj
      simp [Event.names, hid] at hname
    · have hide : j.jobId = e.jobId := hid.trans (jobId_congr ha.same).symm
      obtain hrank | ⟨hstaged, hnot⟩ := h.halted e j files hpe hj hide
      · have hle := ha.rank
        have hmax := d.phase.rank_le_three
        left
        omega
      · by_cases hd : d.phase = .staged
        · refine .inr ⟨hd, fun hr => hnot ?_⟩
          exact Reserved.congr ha.same.symm (hr.moved hx.symm)
        · exact absurd (hres hstaged hd) hnot
    · left
      rw [hfailed]
      rfl
  · rw [hp, hi] at hd
    cases hd
    obtain hstaged | hrestored := hfirst
    · exact .inr ⟨hstaged, hnot⟩
    · exact .inl ((hw.journal _ hi).handoff hrestored).2

omit hl in
theorem told_step : ∀ d files t, .finished d true files ∈ w'.trace → d.handoff = some t →
    .kept (ownership t d.jobId) ∈ w'.trace := by
  intro d files t hd ht
  obtain hd | ⟨_, hk, htold, _⟩ := hs.finished_new hd
  · exact hs.keeps (h.told d files t hd ht)
  · exact hs.keeps (htold.kept hk.symm t ht)

theorem freed_step : ∀ d files t, .finished d false files ∈ w'.trace → d.handoff = some t →
    w'.peerExternal ≠ some (ownership t d.jobId) := by
  intro d files t hd ht he
  obtain hd | ⟨_, hk, htold, _, hx⟩ := hs.finished_new hd
  · have hold := h.freed d files t hd ht
    obtain hx | ⟨i, hi, _, ⟨hstaged, _, ⟨t', hx⟩, _⟩ | ⟨_, _, hx, _⟩⟩ := hs.external_new
    · rw [hx] at he
      exact hold he
    · rw [hx] at he
      have hid : d.jobId = i.jobId := (congrArg Ownership.transaction (Option.some.inj he)).symm
      have hrank := hl.late d i false files hi hd hid
      rw [hstaged] at hrank
      cases hrank
    · rw [hx] at he
      cases he
  · rw [hx] at he
    exact htold.freed hk.symm t ht _ he rfl

theorem step (hw : w.Wf) (hr : Recoverable w) : OneOwner w' where
  begun := h.begun_step hs
  order := h.order_step hl hs
  working := h.working_step hs
  blocked := h.blocked_step hl hs hw
  apart := h.apart_step hl hs
  released := h.released_step hl hs hw hr
  halted := h.halted_step hs hw
  told := h.told_step hs
  freed := h.freed_step hl hs

omit h hl hs in
/-- What happens between two calls touches neither owner. -/
theorem moved (h : OneOwner w) (hp : w'.pending = w.pending)
    (hx : w'.peerExternal = w.peerExternal) (ht : w'.trace = w.trace) (hl : Ledger w)
    (hw : w.Wf) (hr : Recoverable w) : OneOwner w' :=
  h.step hl (.still hp hx (.inl ht)) hw hr

end OneOwner

theorem Reachable.oneOwner {config : EngineConfig} (h : Reachable config NoGiveUp w) :
    OneOwner w := by
  induction h with
  | init hi => exact OneOwner.initial hi
  | @step w s hreach hallowed ih =>
    have hl : Ledger w := hreach.ledger
    have hw : w.Wf := hreach.wf
    have hr : Recoverable w := hreach.recoverable
    cases s with
    | call c script =>
      have hchain : Changes (c.admits w) c.givesUp w (w.step config (.call c script)) :=
        call_changes hw c script
      rw [hallowed.call] at hchain
      have hall := chain_invariant (I := fun w => w.Wf ∧ Ledger w ∧ Recoverable w ∧ OneOwner w)
        ?_ hchain ⟨hw, hl, hr, ih⟩
      · exact hall.2.2.2
      · intro a b hc ⟨hwa, hla, hra, hoa⟩
        exact ⟨hc.wf hwa, hla.change hc, hra.change hwa hc, hoa.step hla hc.ownerStep hwa hra⟩
    | pass | reboot | peer => exact ih.moved rfl rfl rfl hl hw hr
    | release quiesced externallyManaged =>
      change OneOwner (w.setRelease quiesced externallyManaged)
      unfold World.setRelease
      split
      · exact ih
      · exact ih.moved rfl rfl rfl hl hw hr

/-! ## Retries -/

/-- Nothing of the outside fails. -/
def Faultless (script : List Answer) : Prop := ∀ a ∈ script, a.fault = .none

/-- What says who owns the network. -/
structure Owners where
  external : Option Ownership
  quiesce : Option String
  done : List Ownership
  decides : Journal → Bool

def World.owners (w : World) : Owners :=
  { external := w.peerExternal
    quiesce := w.peerQuiesce
    done := w.peerDone
    decides := fun j => w.authority.decides j }

theorem effect_faultless {α : Type} {f : Frame} (change : Answer → Frame → World)
    (view : Answer → Frame → α) (h : Faultless f.script) : ∃ a g,
      g.world.owners = f.world.owners ∧ Faultless g.script ∧
        effect change view f = (.ok (view a g), { g with world := change a g }) := by
  obtain ⟨w, script, j⟩ := f
  cases script with
  | nil => exact ⟨{}, ⟨w, [], j⟩, rfl, h, rfl⟩
  | cons a rest =>
    have hfault : a.fault = .none := h a List.mem_cons_self
    refine ⟨a, ⟨w.pass a.elapsed a.writes, rest, j⟩, rfl,
      fun b hb => h b (List.mem_cons_of_mem a hb), ?_⟩
    simp [effect, Frame.next, hfault]

theorem ask_faultless {α : Type} {f : Frame} (view : Owners → α) (h : Faultless f.script) : ∃ g,
    ask (fun _ w => view w.owners) f = (.ok (view f.world.owners), g) ∧ Faultless g.script ∧
      g.world.owners = f.world.owners := by
  obtain ⟨a, g, hg, hs, hrun⟩ :=
    effect_faultless (fun _ f => f.world) (fun _ f => view f.world.owners) h
  refine ⟨g, ?_, hs, hg⟩
  rw [← hg]
  exact hrun

theorem act_faultless {f : Frame} {change : Answer → Frame → World} {o : Owners}
    (h : Faultless f.script)
    (ho : ∀ a g, g.world.owners = f.world.owners → (change a g).owners = o) : ∃ g,
      act change f = (.ok (), g) ∧ Faultless g.script ∧ g.world.owners = o := by
  obtain ⟨a, g, hg, hs, hrun⟩ := effect_faultless change (fun _ _ => ()) h
  exact ⟨_, hrun, hs, ho a g hg⟩

/-- Telling the releasing engine once more succeeds while its reservation stands. -/
theorem kept_retried {f : Frame} {t : Transfer} {id : String} (hf : Faultless f.script)
    (hx : f.world.peerExternal = some (ownership t id)) : ∃ g, kept t id f = (.ok (), g) ∧
      g.world.owners =
        { f.world.owners with done := ownership t id :: f.world.peerDone } := by
  obtain ⟨g, hask, hs, hg⟩ := ask_faultless Owners.external hf
  have hrun : kept t id f = writeDone (ownership t id) g :=
    (Proc.bind_ok hask).trans (Proc.bind_ok (Proc.require_ok hx))
  have htold : ∀ (a : Answer) (i : Frame), i.world.owners = g.world.owners →
      ({ i.world with peerDone := ownership t id :: i.world.peerDone }.note
        (.kept (ownership t id))).owners =
          { f.world.owners with done := ownership t id :: f.world.peerDone } := by
    intro a i hi
    have hsame : i.world.owners = f.world.owners := hi.trans hg
    have hdone : i.world.peerDone = f.world.peerDone := congrArg Owners.done hsame
    rw [← hsame, ← hdone]
    rfl
  obtain ⟨k, hact, _, hk⟩ := act_faultless hs htold
  exact ⟨k, hrun.trans hact, hk⟩

theorem releaseExternal_faultless {f : Frame} {c : Prop} [Decidable c] (h : Faultless f.script) :
    ∃ g, Proc.when c releaseExternal f = (.ok (), g) ∧ Faultless g.script ∧
      g.world.owners =
        { f.world.owners with external := if c then none else f.world.peerExternal } := by
  unfold Proc.when
  split
  · apply act_faultless h
    intro a i hi
    rw [← hi]
    rfl
  · exact ⟨f, rfl, h, rfl⟩

theorem releaseQuiesce_faultless {f : Frame} {c : Prop} [Decidable c] (h : Faultless f.script) :
    ∃ g, Proc.when c releaseQuiesce f = (.ok (), g) ∧ Faultless g.script ∧
      g.world.owners =
        { f.world.owners with quiesce := if c then none else f.world.peerQuiesce } := by
  unfold Proc.when
  split
  · apply act_faultless h
    intro a i hi
    rw [← hi]
    rfl
  · exact ⟨f, rfl, h, rfl⟩

/-- Giving the network back once more succeeds whatever an earlier try has done. -/
theorem restored_retried {f : Frame} {t : Transfer} (hf : Faultless f.script) :
    ∃ g, restored t f = (.ok (), g) ∧ Freed t g.world ∧
      g.world.peerQuiesce ≠ some t.source.id ∧ g.world.peerDone = f.world.peerDone ∧
        ∀ j, g.world.authority.decides j = f.world.authority.decides j := by
  obtain ⟨g₁, hask₁, hs₁, ho₁⟩ := ask_faultless Owners.external hf
  obtain ⟨g₂, hact₁, hs₂, ho₂⟩ :=
    releaseExternal_faultless (c := f.world.peerExternal.any (·.id == t.source.id)) hs₁
  obtain ⟨g₃, hask₂, hs₃, ho₃⟩ := ask_faultless Owners.quiesce hs₂
  obtain ⟨g₄, hact₂, hs₄, ho₄⟩ :=
    releaseQuiesce_faultless (c := g₂.world.peerQuiesce = some t.source.id) hs₃
  have hrun : restored t f = (.ok (), g₄) :=
    (Proc.bind_ok hask₁).trans ((Proc.bind_ok hact₁).trans ((Proc.bind_ok hask₂).trans hact₂))
  have howners : g₄.world.owners =
      { f.world.owners with
        external := if f.world.peerExternal.any (·.id == t.source.id) then none
          else f.world.peerExternal
        quiesce := if f.world.peerQuiesce = some t.source.id then none
          else f.world.peerQuiesce } := by
    have h₁ : g₁.world.peerExternal = f.world.peerExternal := congrArg Owners.external ho₁
    have h₂ : g₂.world.peerQuiesce = f.world.peerQuiesce := by
      rw [ho₁] at ho₂
      exact congrArg Owners.quiesce ho₂
    have h₃ : g₃.world.peerQuiesce = f.world.peerQuiesce := (congrArg Owners.quiesce ho₃).trans h₂
    rw [ho₄, ho₃, ho₂, ho₁, h₁, h₃, h₂]
  refine ⟨g₄, hrun, ?_, ?_, congrArg Owners.done howners,
    fun j => congrFun (congrArg Owners.decides howners) j⟩
  · intro o ho hid
    have hexternal := congrArg Owners.external howners
    change g₄.world.peerExternal = _ at hexternal
    rw [ho] at hexternal
    simp only at hexternal
    split at hexternal
    · cases hexternal
    · rename_i hany
      rw [← hexternal] at hany
      simp [hid] at hany
  · intro hq
    have hquiesce := congrArg Owners.quiesce howners
    change g₄.world.peerQuiesce = _ at hquiesce
    rw [hq] at hquiesce
    simp only at hquiesce
    split at hquiesce
    · cases hquiesce
    · rename_i hne
      exact hne hquiesce.symm

/-! ## The markers and the trace -/

/-- The trace says what a call did to the markers of the releasing engine. -/
structure MarkersTold (w w' : World) (later : List Event) : Prop where
  grew : w'.trace = later ++ w.trace
  done : ∀ o ∈ w'.peerDone, o ∈ w.peerDone ∨ .kept o ∈ later
  external : w'.peerExternal ≠ w.peerExternal →
    w.peerExternal = none ∨ ∃ j files, .released j files ∈ later
  quiesce : w'.peerQuiesce ≠ w.peerQuiesce → ∃ j files, .released j files ∈ later

theorem MarkersTold.trans {u v : World} {later latest : List Event}
    (h₁ : MarkersTold w u later) (h₂ : MarkersTold u v latest) :
    MarkersTold w v (latest ++ later) where
  grew := by rw [h₂.grew, h₁.grew, List.append_assoc]
  done := by
    intro o ho
    obtain ho | ho := h₂.done o ho
    · exact (h₁.done o ho).imp_right fun ho => List.mem_append_right _ ho
    · exact .inr (List.mem_append_left _ ho)
  external := by
    intro hne
    by_cases hsame : u.peerExternal = w.peerExternal
    · rw [← hsame] at hne ⊢
      obtain hnone | ⟨j, files, hj⟩ := h₂.external hne
      · exact .inl hnone
      · exact .inr ⟨j, files, List.mem_append_left _ hj⟩
    · obtain hnone | ⟨j, files, hj⟩ := h₁.external hsame
      · exact .inl hnone
      · exact .inr ⟨j, files, List.mem_append_right _ hj⟩
  quiesce := by
    intro hne
    by_cases hsame : u.peerQuiesce = w.peerQuiesce
    · rw [← hsame] at hne
      obtain ⟨j, files, hj⟩ := h₂.quiesce hne
      exact ⟨j, files, List.mem_append_left _ hj⟩
    · obtain ⟨j, files, hj⟩ := h₁.quiesce hsame
      exact ⟨j, files, List.mem_append_right _ hj⟩

/-- A change that leaves the markers alone. -/
theorem MarkersTold.quiet {later : List Event} (ht : w'.trace = later ++ w.trace)
    (hd : w'.peerDone = w.peerDone) (hx : w'.peerExternal = w.peerExternal)
    (hq : w'.peerQuiesce = w.peerQuiesce) : MarkersTold w w' later where
  grew := ht
  done := by
    intro o ho
    rw [hd] at ho
    exact .inl ho
  external := fun hne => absurd hx hne
  quiesce := fun hne => absurd hq hne

@[simp] theorem putPending_peerDone (j : Journal) (w : World) :
    (w.putPending j).peerDone = w.peerDone := by
  unfold World.putPending
  split <;> rfl

@[simp] theorem putPending_peerQuiesce (j : Journal) (w : World) :
    (w.putPending j).peerQuiesce = w.peerQuiesce := by
  unfold World.putPending
  split <;> rfl

theorem Change.markersTold {A : Journal → World → Prop} {G : Prop} (hc : Change A G w w') :
    ∃ later, MarkersTold w w' later := by
  cases hc with
  | @stage j hp hq hj hs =>
    exact ⟨[.staged j], .quiet (putPending_trace_staged j w hp hs) (by simp) (by simp) (by simp)⟩
  | @journal d j hp =>
    exact ⟨[], .quiet (putPending_trace_some j w hp) (by simp) (by simp) (by simp)⟩
  | @revive d j files hp hq hd ha hj hs =>
    have hnot := putPending_trace_later j w (by rw [hs]; exact nofun)
    exact ⟨[], .quiet hnot (by simp) (by simp) (by simp)⟩
  | @finish d hp =>
    rw [removePending_eq hp]
    exact ⟨[.finished d (w.authority.decides d) w.files], .quiet rfl rfl rfl rfl⟩
  | load => exact ⟨[.loaded w.authority], .quiet rfl rfl rfl rfl⟩
  | observe interface live => exact ⟨[.addresses interface live], .quiet rfl rfl rfl rfl⟩
  | @write d path image => exact ⟨[.wrote d.jobId path image], .quiet rfl rfl rfl rfl⟩
  | @unbanner d => exact ⟨[.wrote d.jobId banner none], .quiet rfl rfl rfl rfl⟩
  | @table d rules => exact ⟨[.table d.jobId rules], .quiet rfl rfl rfl rfl⟩
  | @activate d p => exact ⟨[.activated d.jobId p], .quiet rfl rfl rfl rfl⟩
  | @decide d c => exact ⟨[.decided c], .quiet rfl rfl rfl rfl⟩
  | pass | last | keyfiles | archive | released => exact ⟨[], .quiet rfl rfl rfl rfl⟩
  | reserve hp ht hs hx =>
    exact ⟨[], rfl, fun o ho => .inl ho, fun _ => .inl hx, fun hne => absurd rfl hne⟩
  | @kept d t =>
    refine ⟨[.kept (ownership t d.jobId)], rfl, ?_, fun hne => absurd rfl hne,
      fun hne => absurd rfl hne⟩
    intro o ho
    obtain rfl | ho := List.mem_cons.mp ho
    · exact .inr List.mem_cons_self
    · exact .inl ho
  | @releaseExternal d j =>
    exact ⟨[.released j w.files], rfl, fun o ho => .inl ho,
      fun _ => .inr ⟨j, w.files, List.mem_cons_self⟩, fun hne => absurd rfl hne⟩
  | @releaseQuiesce d j =>
    exact ⟨[.released j w.files], rfl, fun o ho => .inl ho, fun hne => absurd rfl hne,
      fun _ => ⟨j, w.files, List.mem_cons_self⟩⟩

theorem call_markersTold {config : EngineConfig} (hw : w.Wf) (c : Call) (script : List Answer) :
    ∃ later, MarkersTold w (w.step config (.call c script)) later := by
  refine chain_invariant (I := fun u => ∃ later, MarkersTold w u later) ?_
    (call_changes hw c script) ⟨[], .quiet rfl rfl rfl rfl⟩
  rintro u v hc ⟨later, hu⟩
  obtain ⟨latest, hv⟩ := hc.markersTold
  exact ⟨latest ++ later, hu.trans hv⟩

/-! ## One owner -/

/-- In every interleaving of the calls with crashes at any durable write: the releasing engine is
told to stay away only after the authority took the job's decision; its markers are removed only
for a job without one, with all its files as they were; a decided job's reservation stands, and a
job that ended has told the releasing engine how; and telling it once more, either way, succeeds
and changes no owner. The trace says every write of a marker. -/
theorem one_owner {config : EngineConfig} (h : Reachable config NoGiveUp w) :
    (∀ later o earlier, w.trace = later ++ .kept o :: earlier → KeptFor o earlier) ∧
    (∀ j files, .released j files ∈ w.trace → ¬ Taken w j ∧ Restored files j) ∧
    (∀ j, .staged j ∈ w.trace → Taken w j → Reserved j w) ∧
    (∀ d kept files t, .finished d kept files ∈ w.trace → d.handoff = some t →
      if kept then .kept (ownership t d.jobId) ∈ w.trace
      else w.peerExternal ≠ some (ownership t d.jobId)) ∧
    (∀ d t script, w.pending = some d → d.handoff = some t → Faultless script →
      if w.authority.decides d then ∃ f, kept t d.jobId ⟨w, script, d⟩ = (.ok (), f) ∧
        f.world.owners = { w.owners with done := ownership t d.jobId :: w.peerDone }
      else ∃ f, restored t ⟨w, script, d⟩ = (.ok (), f) ∧ Freed t f.world ∧
        f.world.peerQuiesce ≠ some t.source.id ∧ f.world.peerDone = w.peerDone ∧
          f.world.authority.decides d = false) ∧
    ∀ c script, ∃ later, MarkersTold w (w.step config (.call c script)) later := by
  have ho : OneOwner w := h.oneOwner
  refine ⟨?_, ho.released, ho.blocked, ?_, ?_, fun c script => call_markersTold h.wf c script⟩
  · intro later o earlier ht
    have horder := ho.order
    rw [ht] at horder
    exact horder.split
  · intro d kept files t hd ht
    cases kept with
    | true => exact ho.told d files t hd ht
    | false => exact ho.freed d files t hd ht
  · intro d t script hp ht hs
    cases hdec : w.authority.decides d with
    | true =>
      obtain ⟨j, hj, hi⟩ := ho.begun d (.inl hp)
      have htaken : Taken w d := h.ledger.recorded d w.authority (.inl hp) (.inl rfl) hdec
      have hreserved : Reserved d w :=
        Reserved.congr hi (ho.blocked j hj (htaken.congr hi.symm))
      exact kept_retried hs (hreserved t ht)
    | false =>
      obtain ⟨f, hrun, hfree, hquiesce, hdone, hsame⟩ :=
        restored_retried (f := ⟨w, script, d⟩) (t := t) hs
      exact ⟨f, hrun, hfree, hquiesce, hdone, (hsame d).trans hdec⟩

/-- The transfer, kept. -/
def receiverKept : List Step := receiverApplied ++ [.call (.confirm studioId none) []]

theorem one_owner_receiver : ∃ later o earlier,
    (receiver.run studioConfig receiverKept).trace = later ++ .kept o :: earlier ∧
      KeptFor o earlier := by
  have hcheck : ((receiver.run studioConfig receiverKept).trace.any fun
      | .kept _ => true
      | _ => false) = true := by
    decide +kernel
  have hreach : Reachable studioConfig NoGiveUp (receiver.run studioConfig receiverKept) :=
    (Reachable.init ⟨rfl, rfl, rfl, rfl, by simp [receiver]⟩).run receiverKept
      (by simp [receiverKept, receiverApplied, NoGiveUp])
  obtain ⟨e, he, hkept⟩ := List.any_eq_true.mp hcheck
  cases e with
  | kept o =>
    obtain ⟨later, earlier, hsplit⟩ := List.append_of_mem he
    exact ⟨later, o, earlier, hsplit, (one_owner hreach).1 later o earlier hsplit⟩
  | staged | loaded | wrote | table | activated | decided | finished | addresses | released =>
    cases hkept

end NdimonR.Engine
