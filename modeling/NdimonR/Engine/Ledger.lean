import NdimonR.Engine.CallsChange

/-! What the trace of a run says about its jobs: whose decision the authority took, which jobs
ended without one, and when the engine worked on the files, the tables and the addressing of a
job. -/

namespace NdimonR.Engine

open NdimonR.Types

/-- The device has seen this journal. -/
def Known (w : World) (j : Journal) : Prop :=
  w.pending = some j ∨ .staged j ∈ w.trace ∨ ∃ kept files, .finished j kept files ∈ w.trace

/-- The authority took the decision of this journal. -/
def Taken (w : World) (j : Journal) : Prop := ∃ c, .decided c ∈ w.trace ∧ c.decides j = true

/-- A journal of this job has been removed. -/
def Ended (trace : List Event) (id : String) : Prop :=
  ∃ d kept files, .finished d kept files ∈ trace ∧ d.jobId = id

/-- Work on the network for a job: everything but the removal of its banner. -/
def Event.undoes (id : String) : Event → Prop
  | .wrote job path image => job = id ∧ ¬ (path = banner ∧ image = none)
  | .table job _ => job = id
  | .activated job _ => job = id
  | _ => False

/-- Nothing was done for the journal after its decision had been loaded. -/
def Untouched (j : Journal) : List Event → Prop
  | [] => True
  | e :: earlier =>
    (e.undoes j.jobId → ∀ c, .loaded c ∈ earlier → c.decides j = false) ∧ Untouched j earlier

theorem Untouched.later {j : Journal} {c : Commit} {later earlier : List Event}
    (h : Untouched j (later ++ .loaded c :: earlier)) (hc : c.decides j = true) :
    ∀ e ∈ later, ¬ e.undoes j.jobId := by
  induction later with
  | nil =>
    intro e he
    exact absurd he List.not_mem_nil
  | cons d rest ih =>
    obtain ⟨hd, hrest⟩ := h
    intro e he hundoes
    rcases List.mem_cons.mp he with rfl | hm
    · have hfalse := hd hundoes c (by simp)
      rw [hc] at hfalse
      cases hfalse
    · exact ih hrest e hm hundoes

theorem Event.undoes_names {id : String} {e : Event} (h : e.undoes id) : e.names id = true := by
  cases e with
  | wrote job path image => simpa [Event.names] using h.1
  | table job rules => simpa [Event.undoes, Event.names] using h
  | activated job p => simpa [Event.undoes, Event.names] using h
  | staged | loaded | decided | finished | addresses | kept | released => exact h.elim

/-- A job nothing in the trace names. -/
theorem Untouched.unnamed {j : Journal} {trace : List Event}
    (h : trace.any (Event.names j.jobId) = false) : Untouched j trace := by
  induction trace with
  | nil => exact trivial
  | cons e rest ih =>
    rw [List.any_cons, Bool.or_eq_false_iff] at h
    obtain ⟨hhead, hrest⟩ := h
    refine ⟨fun hundoes => ?_, ih hrest⟩
    rw [e.undoes_names hundoes] at hhead
    cases hhead

theorem unnamed_of_knows {w : World} {id : String} (h : w.knows id = false) {e : Event}
    (he : e ∈ w.trace) : e.names id = false := by
  have hany := (Bool.or_eq_false_iff.mp h).2
  rw [List.any_eq_false] at hany
  exact Bool.eq_false_iff.mpr (hany e he)

theorem Commit.decides_transaction {c : Commit} {j : Journal} (h : c.decides j = true) :
    c.transaction = some j.jobId := by
  simp only [Commit.decides, Bool.and_eq_true, beq_iff_eq] at h
  exact h.1.2

theorem Taken.congr {w : World} {a b : Journal} (h : Taken w a) (hs : a.identity = b.identity) :
    Taken w b := by
  obtain ⟨c, hc, hd⟩ := h
  exact ⟨c, hc, (decides_congr hs c).symm.trans hd⟩

structure Ledger (w : World) : Prop where
  same : ∀ a b, Known w a → Known w b → a.jobId = b.jobId → a.identity = b.identity
  recorded : ∀ j c, Known w j → (c = w.authority ∨ .loaded c ∈ w.trace) → c.decides j = true →
    Taken w j
  held : ∀ d, w.pending = some d → Taken w d → w.authority.decides d = true
  lost : ∀ d files, .finished d false files ∈ w.trace → ¬ Taken w d
  late : ∀ d e kept files, w.pending = some e → .finished d kept files ∈ w.trace →
    d.jobId = e.jobId → e.phase.rank = 3
  untouched : ∀ j, .staged j ∈ w.trace → Untouched j w.trace

namespace Ledger

variable {w w' : World}

theorem initial (h : w.Initial) : Ledger w := by
  have hknown : ∀ j, ¬ Known w j := by
    intro j hj
    rw [Known, h.pending, h.trace] at hj
    simp at hj
  refine ⟨fun a _ ha => absurd ha (hknown a), fun j _ hj => absurd hj (hknown j), ?_, ?_, ?_, ?_⟩
  · intro d hd
    rw [h.pending] at hd
    cases hd
  · intro d files hf
    rw [h.trace] at hf
    exact absurd hf List.not_mem_nil
  · intro d e _ _ he
    rw [h.pending] at he
    cases he
  · intro j hj
    rw [h.trace] at hj
    exact absurd hj List.not_mem_nil

/-- A step that leaves the journal, the decision and the trace alone. -/
theorem moved (h : Ledger w) (hp : w'.pending = w.pending)
    (hd : ∀ j, w'.authority.decides j = w.authority.decides j) (ht : w'.trace = w.trace) :
    Ledger w' := by
  have hknown : ∀ j, Known w' j ↔ Known w j := by
    intro j
    rw [Known, Known, hp, ht]
  have htaken : ∀ j, Taken w' j ↔ Taken w j := by
    intro j
    rw [Taken, Taken, ht]
  refine ⟨?_, ?_, ?_, ?_, ?_, ?_⟩
  · intro a b ha hb
    exact h.same a b ((hknown a).mp ha) ((hknown b).mp hb)
  · intro j c hj hc hdec
    rw [htaken]
    rw [hknown] at hj
    rcases hc with rfl | hc
    · exact h.recorded j w.authority hj (.inl rfl) ((hd j).symm.trans hdec)
    · rw [ht] at hc
      exact h.recorded j c hj (.inr hc) hdec
  · intro d hpd htd
    rw [hd]
    exact h.held d (hp.symm.trans hpd) ((htaken d).mp htd)
  · intro d files hf
    rw [htaken]
    rw [ht] at hf
    exact h.lost d files hf
  · intro d e kept files he hf
    rw [ht] at hf
    exact h.late d e kept files (hp.symm.trans he) hf
  · rw [ht]
    exact h.untouched

/-- An event that says nothing about a journal's beginning, decision or end. -/
theorem noted {e : Event} (h : Ledger w) (hp : w'.pending = w.pending)
    (ha : w'.authority = w.authority) (ht : w'.trace = e :: w.trace)
    (hs : ∀ j, e ≠ .staged j) (hf : ∀ j kept files, e ≠ .finished j kept files)
    (hdec : ∀ c, e ≠ .decided c) (hl : ∀ c, e = .loaded c → c = w.authority)
    (hu : ∀ j, .staged j ∈ w.trace → e.undoes j.jobId → ∀ c, .loaded c ∈ w.trace →
      c.decides j = false) : Ledger w' := by
  have hold : ∀ x, x ≠ e → x ∈ w'.trace → x ∈ w.trace := by
    intro x hx hm
    rw [ht] at hm
    rcases List.mem_cons.mp hm with he | hm
    · exact absurd he hx
    · exact hm
  have hknown : ∀ j, Known w' j → Known w j := by
    rintro j (hj | hj | ⟨kept, files, hj⟩)
    · exact .inl (hp.symm.trans hj)
    · exact .inr (.inl (hold _ (hs j).symm hj))
    · exact .inr (.inr ⟨kept, files, hold _ (hf j kept files).symm hj⟩)
  have htaken : ∀ j, Taken w j → Taken w' j := by
    rintro j ⟨c, hc, hd⟩
    refine ⟨c, ?_, hd⟩
    rw [ht]
    exact List.mem_cons_of_mem _ hc
  have hback : ∀ j, Taken w' j → Taken w j := by
    rintro j ⟨c, hc, hd⟩
    exact ⟨c, hold _ (hdec c).symm hc, hd⟩
  refine ⟨?_, ?_, ?_, ?_, ?_, ?_⟩
  · intro a b hka hkb
    exact h.same a b (hknown a hka) (hknown b hkb)
  · intro j c hj hc hd
    apply htaken
    have hj' := hknown j hj
    rcases hc with rfl | hc
    · rw [ha] at hd
      exact h.recorded j w.authority hj' (.inl rfl) hd
    · rw [ht] at hc
      rcases List.mem_cons.mp hc with he | hc
      · exact h.recorded j c hj' (.inl (hl c he.symm)) hd
      · exact h.recorded j c hj' (.inr hc) hd
  · intro d hpd htd
    rw [ha]
    exact h.held d (hp.symm.trans hpd) (hback d htd)
  · intro d files hfin htd
    exact h.lost d files (hold _ (hf d false files).symm hfin) (hback d htd)
  · intro d e' kept files he hfin
    exact h.late d e' kept files (hp.symm.trans he) (hold _ (hf d kept files).symm hfin)
  · intro j hj
    have hj' := hold _ (hs j).symm hj
    rw [ht]
    exact ⟨hu j hj', h.untouched j hj'⟩

/-- Work for an undecided journal comes before any load of its decision. -/
theorem undecided {d : Journal} {e : Event} (h : Ledger w) (hu : Undoing w d)
    (he : ∀ id, e.undoes id → id = d.jobId) :
    ∀ j, .staged j ∈ w.trace → e.undoes j.jobId → ∀ c, .loaded c ∈ w.trace →
      c.decides j = false := by
  intro j hj hundoes c hc
  have hknown : Known w j := .inr (.inl hj)
  have hsame : j.identity = d.identity :=
    h.same j d hknown (.inl hu.pending) (he _ hundoes)
  cases hd : c.decides j with
  | false => rfl
  | true =>
    have htaken : Taken w d := (h.recorded j c hknown (.inr hc) hd).congr hsame
    have hdecides := h.held d hu.pending htaken
    rw [hu.undecided] at hdecides
    cases hdecides

/-- A known journal is written, as it has become. -/
theorem rewritten {d j : Journal} (h : Ledger w) (hd : Known w d) (ha : Advance d j)
    (ht : (w.putPending j).trace = w.trace) (hheld : Taken w d → w.authority.decides d = true)
    (hlate : ∀ i kept files, .finished i kept files ∈ w.trace → i.jobId = d.jobId →
      j.phase.rank = 3) : Ledger (w.putPending j) := by
  have hknown : ∀ i, Known (w.putPending j) i → ∃ i', Known w i' ∧ i'.identity = i.identity := by
    rintro i (hi | hi | ⟨kept, files, hi⟩)
    · rw [putPending_pending] at hi
      cases hi
      exact ⟨d, hd, ha.same⟩
    · rw [ht] at hi
      exact ⟨i, .inr (.inl hi), rfl⟩
    · rw [ht] at hi
      exact ⟨i, .inr (.inr ⟨kept, files, hi⟩), rfl⟩
  have htaken : ∀ i, Taken (w.putPending j) i ↔ Taken w i := by
    intro i
    rw [Taken, Taken, ht]
  refine ⟨?_, ?_, ?_, ?_, ?_, ?_⟩
  · intro a b hka hkb hid
    obtain ⟨a', hka', hsa⟩ := hknown a hka
    obtain ⟨b', hkb', hsb⟩ := hknown b hkb
    have hsame : a'.identity = b'.identity := by
      apply h.same a' b' hka' hkb'
      rw [jobId_congr hsa, jobId_congr hsb, hid]
    rw [← hsa, ← hsb, hsame]
  · intro i c hi hc hdec
    rw [htaken]
    obtain ⟨i', hi', hs⟩ := hknown i hi
    rw [← decides_congr hs] at hdec
    rw [putPending_authority, ht] at hc
    exact (h.recorded i' c hi' hc hdec).congr hs
  · intro i hi hti
    rw [putPending_pending] at hi
    cases hi
    rw [htaken] at hti
    rw [putPending_authority, ← decides_congr ha.same]
    exact hheld (hti.congr ha.same.symm)
  · intro i files hf
    rw [htaken]
    rw [ht] at hf
    exact h.lost i files hf
  · intro i e kept files he hf hid
    rw [putPending_pending] at he
    cases he
    rw [ht] at hf
    exact hlate i kept files hf (hid.trans (jobId_congr ha.same).symm)
  · rw [ht]
    exact h.untouched

/-- The journal in hand replaces the durable one. -/
theorem journal {d j : Journal} (h : Ledger w) (hp : w.pending = some d) (ha : Advance d j) :
    Ledger (w.putPending j) := by
  apply h.rewritten (.inl hp) ha (putPending_trace_some j w hp) (h.held d hp)
  intro i kept files hf hid
  have hrank := h.late i d kept files hp hf hid
  have hle := ha.rank
  have hmax := j.phase.rank_le_three
  omega

/-- A journal written back after its recovery had removed it. -/
theorem revive {d j : Journal} {files : Files} (h : Ledger w)
    (hd : .finished d false files ∈ w.trace) (ha : Advance d j) (hs : j.phase = .failed) :
    Ledger (w.putPending j) := by
  have hnot : j.phase ≠ .staged := by
    rw [hs]
    exact nofun
  apply h.rewritten (.inr (.inr ⟨false, files, hd⟩)) ha (putPending_trace_later j w hnot)
  · intro ht
    exact absurd ht (h.lost d files hd)
  · intro _ _ _ _ _
    rw [hs]
    rfl

/-- A fresh job. -/
theorem stage {j : Journal} (h : Ledger w) (hp : w.pending = none) (hs : j.phase = .staged)
    (hn : w.knows j.jobId = false) : Ledger (w.putPending j) := by
  have ht : (w.putPending j).trace = .staged j :: w.trace := putPending_trace_staged j w hp hs
  have hfresh : ∀ i, Known w i → i.jobId ≠ j.jobId := by
    rintro i (hi | hi | ⟨kept, files, hi⟩) hid
    · rw [hp] at hi
      cases hi
    · have hname := unnamed_of_knows hn hi
      simp [Event.names, hid] at hname
    · have hname := unnamed_of_knows hn hi
      simp [Event.names, hid] at hname
  have hknown : ∀ i, Known (w.putPending j) i → i = j ∨ Known w i := by
    rintro i (hi | hi | ⟨kept, files, hi⟩)
    · rw [putPending_pending] at hi
      cases hi
      exact .inl rfl
    · rw [ht] at hi
      rcases List.mem_cons.mp hi with he | hi
      · cases he
        exact .inl rfl
      · exact .inr (.inr (.inl hi))
    · rw [ht] at hi
      rcases List.mem_cons.mp hi with he | hi
      · cases he
      · exact .inr (.inr (.inr ⟨kept, files, hi⟩))
  have htaken : ∀ i, Taken (w.putPending j) i ↔ Taken w i := by
    intro i
    rw [Taken, Taken, ht]
    simp
  have hunknown : ∀ c, (c = w.authority ∨ .loaded c ∈ w.trace) → c.decides j = false := by
    rintro c (rfl | hc)
    · exact knows_decides hn
    · have hname := unnamed_of_knows hn hc
      cases hd : c.decides j with
      | false => rfl
      | true =>
        simp [Event.names, c.decides_transaction hd] at hname
  have huntaken : ¬ Taken w j := by
    rintro ⟨c, hc, hd⟩
    have hname := unnamed_of_knows hn hc
    simp [Event.names, c.decides_transaction hd] at hname
  refine ⟨?_, ?_, ?_, ?_, ?_, ?_⟩
  · intro a b hka hkb hid
    rcases hknown a hka with rfl | ha
    · rcases hknown b hkb with rfl | hb
      · rfl
      · exact absurd hid.symm (hfresh b hb)
    · rcases hknown b hkb with rfl | hb
      · exact absurd hid (hfresh a ha)
      · exact h.same a b ha hb hid
  · intro i c hi hc hd
    rw [htaken]
    have hc' : c = w.authority ∨ .loaded c ∈ w.trace := by
      rw [putPending_authority, ht] at hc
      simpa using hc
    rcases hknown i hi with rfl | hi'
    · rw [hunknown c hc'] at hd
      cases hd
    · exact h.recorded i c hi' hc' hd
  · intro i hi hti
    rw [putPending_pending] at hi
    cases hi
    exact absurd ((htaken j).mp hti) huntaken
  · intro i files hf
    rw [htaken]
    rw [ht] at hf
    exact h.lost i files (by simpa using hf)
  · intro i e kept files he hf hid
    rw [putPending_pending] at he
    cases he
    rw [ht] at hf
    have hf' : .finished i kept files ∈ w.trace := by simpa using hf
    exact absurd hid (hfresh i (.inr (.inr ⟨kept, files, hf'⟩)))
  · intro i hi
    rw [ht] at hi ⊢
    refine ⟨fun hu => hu.elim, ?_⟩
    rcases List.mem_cons.mp hi with he | hi
    · cases he
      exact Untouched.unnamed (Bool.or_eq_false_iff.mp hn).2
    · exact h.untouched i hi

/-- The one commit of a job. -/
theorem decide {d : Journal} {c : Commit} (h : Ledger w) (hp : w.pending = some d)
    (hs : d.phase = .applied) (hc : nextCommit d = .ok c) : Ledger (w.decide c) := by
  have hdecides : c.decides d = true := nextCommit_decides hc
  have hknown : ∀ i, Known (w.decide c) i → Known w i := by
    rintro i (hi | hi | ⟨kept, files, hi⟩)
    · exact .inl hi
    · exact .inr (.inl (by simpa [World.decide] using hi))
    · exact .inr (.inr ⟨kept, files, by simpa [World.decide] using hi⟩)
  have htaken : ∀ i, Taken w i → Taken (w.decide c) i := by
    rintro i ⟨c', hc', hd⟩
    exact ⟨c', List.mem_cons_of_mem _ hc', hd⟩
  refine ⟨?_, ?_, ?_, ?_, ?_, ?_⟩
  · intro a b hka hkb
    exact h.same a b (hknown a hka) (hknown b hkb)
  · intro i c' hi hc' hd
    rcases hc' with he | hc'
    · exact ⟨c', by rw [he]; exact List.mem_cons_self, hd⟩
    · have hold : .loaded c' ∈ w.trace := by simpa [World.decide] using hc'
      exact htaken i (h.recorded i c' (hknown i hi) (.inr hold) hd)
  · intro i hi _
    change w.pending = some i at hi
    rw [hp] at hi
    cases hi
    exact hdecides
  · rintro i files hf ⟨c', hc', hd⟩
    have hfin : .finished i false files ∈ w.trace := by simpa [World.decide] using hf
    rcases List.mem_cons.mp hc' with he | hold
    · cases he
      have hid : i.jobId = d.jobId := by
        have h₁ := c.decides_transaction hd
        have h₂ := c.decides_transaction hdecides
        rw [h₁] at h₂
        exact Option.some.inj h₂
      have hrank := h.late i d false files hp hfin hid
      rw [hs] at hrank
      cases hrank
    · exact h.lost i files hfin ⟨c', hold, hd⟩
  · intro i e kept files he hf
    exact h.late i e kept files he (by simpa [World.decide] using hf)
  · intro i hi
    have hstaged : .staged i ∈ w.trace := by simpa [World.decide] using hi
    exact ⟨fun hu => hu.elim, h.untouched i hstaged⟩

theorem finish {d : Journal} (h : Ledger w) (hp : w.pending = some d) :
    Ledger w.removePending := by
  have hnone : w.removePending.pending = none := by rw [removePending_eq hp]
  have hauth : w.removePending.authority = w.authority := by rw [removePending_eq hp]
  have ht : w.removePending.trace = .finished d (w.authority.decides d) w.files :: w.trace := by
    rw [removePending_eq hp]
  have hknown : ∀ i, Known w.removePending i → Known w i := by
    rintro i (hi | hi | ⟨kept, files, hi⟩)
    · rw [hnone] at hi
      cases hi
    · rw [ht] at hi
      exact .inr (.inl (by simpa using hi))
    · rw [ht] at hi
      rcases List.mem_cons.mp hi with he | hi
      · cases he
        exact .inl hp
      · exact .inr (.inr ⟨kept, files, hi⟩)
  have htaken : ∀ i, Taken w.removePending i ↔ Taken w i := by
    intro i
    rw [Taken, Taken, ht]
    simp
  refine ⟨?_, ?_, ?_, ?_, ?_, ?_⟩
  · intro a b hka hkb
    exact h.same a b (hknown a hka) (hknown b hkb)
  · intro i c hi hc hd
    rw [htaken]
    rw [hauth, ht] at hc
    exact h.recorded i c (hknown i hi) (by simpa using hc) hd
  · intro i hi
    rw [hnone] at hi
    cases hi
  · intro i files hf
    rw [htaken]
    rw [ht] at hf
    rcases List.mem_cons.mp hf with he | hf
    · injection he with hi hkept
      subst hi
      intro htd
      rw [h.held i hp htd] at hkept
      cases hkept
    · exact h.lost i files hf
  · intro i e kept files he
    rw [hnone] at he
    cases he
  · intro i hi
    rw [ht] at hi ⊢
    exact ⟨fun hu => hu.elim, h.untouched i (by simpa using hi)⟩

theorem change {A : Journal → World → Prop} {G : Prop} (h : Ledger w)
    (hc : Change A G w w') : Ledger w' := by
  cases hc with
  | stage hp hq hj hs hb hr hf hn => exact h.stage hp hs hn
  | journal hp ha => exact h.journal hp ha
  | revive hp hq hd ha hj hs => exact h.revive hd ha hs
  | decide hp ha hs hr hb hc => exact h.decide hp hs hc
  | finish hp => exact h.finish hp
  | load =>
    refine h.noted (e := .loaded w.authority) rfl rfl rfl (by simp) (by simp) (by simp) ?_
      fun _ _ hu => hu.elim
    intro c hc
    cases hc
    rfl
  | observe interface live =>
    exact h.noted (e := .addresses interface live) rfl rfl rfl (by simp) (by simp) (by simp) (by simp)
      fun _ _ hu => hu.elim
  | @write d path image hu =>
    exact h.noted (e := .wrote d.jobId path image) rfl rfl rfl (by simp) (by simp) (by simp) (by simp) (h.undecided hu fun _ hid => hid.1.symm)
  | @unbanner d hp hd =>
    refine h.noted (e := .wrote d.jobId banner none) rfl rfl rfl (by simp) (by simp) (by simp) (by simp) fun _ _ hu => ?_
    exact absurd ⟨rfl, rfl⟩ hu.2
  | @table d rules hu =>
    exact h.noted (e := .table d.jobId rules) rfl rfl rfl (by simp) (by simp) (by simp) (by simp) (h.undecided hu fun _ hid => Eq.symm hid)
  | @activate d p hu =>
    exact h.noted (e := .activated d.jobId p) rfl rfl rfl (by simp) (by simp) (by simp) (by simp) (h.undecided hu fun _ hid => Eq.symm hid)
  | @kept d t =>
    exact h.noted (e := .kept (ownership t d.jobId)) rfl rfl rfl (by simp) (by simp) (by simp)
      (by simp) fun _ _ hu => hu.elim
  | @releaseExternal d j | @releaseQuiesce d j =>
    exact h.noted (e := .released j w.files) rfl rfl rfl (by simp) (by simp) (by simp) (by simp)
      fun _ _ hu => hu.elim
  | pass | last | reserve | keyfiles | archive | released => exact h.moved rfl (fun _ => rfl) rfl

end Ledger

theorem Reachable.ledger {config : EngineConfig} {allowed : Step → Prop} {w : World}
    (h : Reachable config allowed w) : Ledger w := by
  refine h.invariant (fun _ hi => Ledger.initial hi) (fun _ _ _ _ _ _ _ hl hc => hl.change hc)
    (fun _ _ _ _ hl => hl.moved rfl (fun _ => rfl) rfl)
    (fun _ _ _ hl => hl.moved rfl (fun _ => rfl) rfl) (fun w quiesced externallyManaged hl => ?_)
    fun _ _ hl => hl.moved rfl (fun _ => rfl) rfl
  unfold World.setRelease
  split
  · exact hl
  · exact hl.moved rfl (fun _ => rfl) rfl

end NdimonR.Engine
