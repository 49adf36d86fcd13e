import NdimonR.Library.Outcome
import NdimonR.Plugins.Session

/-! What a plugin process can bring about. The log of a session says in which order things
happened; every event of it is justified by what came before. -/

namespace NdimonR.Plugins

open Json Privd

variable (floatLen : ℚ → Nat) (m : Manifest)

/-- The event before last took a frame in a request envelope, and the last one accepted its id. -/
def Requested (past : List Event) : Prop :=
  ∃ id serial frame older, past = .accepted id :: .took serial frame :: older ∧
    requestEnvelope frame = true ∧ (frame.member "id").val = .int id

/-- A response as it reaches the caller. -/
def Responds (id : Nat) (frame : Value) (result : Except String Value) : Prop :=
  Session.responseEnvelope id frame = true ∧
    ((∃ error, field "err" frame = some error ∧ result = .error (Session.errorMessage error)) ∨
      ∃ value, field "ok" frame = some value ∧ result = .ok value)

/-- What may happen after `past`. -/
def Allowed (past : List Event) : Event → Prop
  | .accepted id => ∀ j, .accepted j ∈ past → j < id
  | .submitted request origin =>
    Requested past ∧ origin = .plugin m.name ∧ ∃ state revision schema, m.state = some schema ∧
      validateValue floatLen schema.schema (Value.mapJson state) = .ok () ∧
      request = { command := .setPluginData m.name state, expectRevision := some revision }
  | .privileged name command => Requested past ∧ name = m.name ∧ command ∈ m.privCommands
  | .sent id token => ∀ j t, .sent j t ∈ past → j < id ∧ t ≠ token
  | .answered token id serial result =>
    (∀ j n r, .answered token j n r ∉ past) ∧ ∃ frame older, past = .took serial frame :: older ∧
      .sent id token ∈ older ∧ Responds id frame result
  | _ => True

/-- Every event of the log was allowed when it happened; the newest event comes first. -/
inductive Lawful : List Event → Prop
  | nil : Lawful []
  | cons {e : Event} {past : List Event} : Allowed floatLen m past e → Lawful past →
      Lawful (e :: past)

structure Inv (s : Session) : Prop where
  lawful : Lawful floatLen m s.log
  accepted : ∀ j, .accepted j ∈ s.log → j ≤ s.pluginId
  sent : ∀ j t, .sent j t ∈ s.log → j < s.nextId ∧ t < s.asks ∧ ∀ c ∈ s.calls, c.token ≠ t
  fresh : ∀ c ∈ s.calls, c.token < s.asks
  distinct : (s.calls.map Call.token).Nodup
  answered : ∀ t j n r, .answered t j n r ∈ s.log → ∃ i, .sent i t ∈ s.log
  waiting : ∀ id call, s.phase = .waiting id call →
    .sent id call.token ∈ s.log ∧ ∀ j n r, .answered call.token j n r ∉ s.log

/-- Events that no invariant is about. -/
def Event.silent : Event → Bool
  | .arrived _ | .asked _ | .took _ _ | .failed _ _ | .ended _ => true
  | _ => false

theorem allowed_of_silent {past : List Event} {e : Event} (h : e.silent = true) :
    Allowed floatLen m past e := by
  cases e <;> simp_all [Event.silent, Allowed]

/-- How one request may leave the session. -/
inductive Handled (frame : Value) (s : Session) : Session → Prop
  | refused : Handled frame s s
  | accepted (id : Nat) : requestEnvelope frame = true → (frame.member "id").val = .int id →
      s.pluginId < id → Handled frame s (acceptId id s)
  | submitted (id revision : Nat) (state : SortedMap String Value) (schema : StateSchema) :
      requestEnvelope frame = true → (frame.member "id").val = .int id → s.pluginId < id →
      m.state = some schema →
      validateValue floatLen schema.schema (Value.mapJson state) = .ok () →
      Handled frame s (note (.submitted
        { command := .setPluginData m.name state, expectRevision := some revision }
        (.plugin m.name)) (acceptId id s))
  | privileged (id : Nat) (command : PluginCommandName) : requestEnvelope frame = true →
      (frame.member "id").val = .int id → s.pluginId < id → command ∈ m.privCommands →
      Handled frame s (note (.privileged m.name command) (acceptId id s))

theorem int_of_asU64 {j : Json} {n : Nat} (h : asU64 j = some n) : j = .int n := by
  cases j with
  | int i =>
    simp only [asU64, Option.ite_none_right_eq_some, Option.some.injEq] at h
    obtain ⟨⟨hi, -⟩, rfl⟩ := h
    rw [Int.toNat_of_nonneg hi]
  | null | bool | float | str | arr | obj => cases h

variable {floatLen m}

section Request

variable {α : Type} {K P : Session → Prop} {Q : α → Session → Prop}

theorem orFail_sound {error : String} {o : Option α} (h : ∀ a s, o = some a → K s → P s → Q a s) :
    Proc.Sound (fun _ _ => True) K P (orFail error o) Q := by
  cases o with
  | none => exact Proc.Spec.fail fun _ _ _ => trivial
  | some a => exact Proc.Spec.pure fun s hk hp => h a s rfl hk hp

theorem awaited_sound {o : Option α} (h : ∀ a s, K s → P s → Q a s) :
    Proc.Sound (fun _ _ => True) K P (awaited o) Q := by
  cases o with
  | none => exact Proc.Spec.stop
  | some a => exact Proc.Spec.pure fun s hk hp => h a s hk hp

end Request

variable {frame : Value} {s : Session} {id : Nat}

theorem proposeState_sound (answers : Answers) (p : Value) (henv : requestEnvelope frame = true)
    (hid : (frame.member "id").val = .int id) (hlast : s.pluginId < id) :
    Proc.Sound (fun _ _ => True) (Handled floatLen m frame s) (· = acceptId id s)
      (answers.proposeState floatLen m p) fun _ _ => True := by
  unfold Answers.proposeState
  refine Proc.Spec.bind (Q := fun _ t => t = acceptId id s)
    (orFail_sound fun _ _ _ _ ht => ht) fun expected => ?_
  refine Proc.Spec.bind (Q := fun schema t => t = acceptId id s ∧ m.state = some schema)
    (orFail_sound fun _ _ hs _ ht => ⟨ht, hs⟩) fun schema => ?_
  split
  · exact Proc.Spec.pure fun _ _ _ => trivial
  · rename_i hvalid
    refine Proc.Spec.bind (Q := fun state t => (t = acceptId id s ∧ m.state = some schema) ∧
      (p.member "state").asMap = some state) (orFail_sound fun _ _ hs _ ht => ⟨ht, hs⟩) fun state => ?_
    refine Proc.Spec.bind (Q := fun _ _ => True) (Proc.Spec.modify ?_) fun _ => ?_
    · rintro t - ⟨⟨rfl, hm⟩, hstate⟩
      rw [← Value.mapJson_of_asMap hstate] at hvalid
      exact ⟨.single trivial, .submitted id expected state schema henv hid hlast hm hvalid, trivial⟩
    · refine Proc.Spec.bind (Q := fun _ _ => True) (awaited_sound fun _ _ _ _ => trivial) fun _ => ?_
      exact Proc.Spec.pure fun _ _ _ => trivial

theorem privilege_sound (answers : Answers) (p : Value) (henv : requestEnvelope frame = true)
    (hid : (frame.member "id").val = .int id) (hlast : s.pluginId < id) :
    Proc.Sound (fun _ _ => True) (Handled floatLen m frame s) (· = acceptId id s)
      (answers.privilege m p) fun _ _ => True := by
  unfold Answers.privilege
  refine Proc.Spec.ite (fun _ => Proc.Spec.pure fun _ _ _ => trivial) fun _ => ?_
  split
  · exact Proc.Spec.pure fun _ _ _ => trivial
  · rename_i command hfind
    refine Proc.Spec.bind (Q := fun _ _ => True) (Proc.Spec.modify ?_) fun _ => ?_
    · rintro t - rfl
      have hmem := List.mem_of_find?_eq_some hfind
      exact ⟨.single trivial, .privileged id command henv hid hlast hmem, trivial⟩
    · exact awaited_sound fun _ _ _ _ => trivial

/-- A frame of the process changes the session in one of four ways, however it ends. -/
theorem processRequest_handled (answers : Answers) (frame : Value) (s : Session) :
    Handled floatLen m frame s (answers.processRequest floatLen m frame s).2 := by
  suffices h : Proc.Sound (fun _ _ => True) (Handled floatLen m frame s) (· = s)
      (answers.processRequest floatLen m frame) fun _ _ => True from (h s .refused rfl).2.1
  unfold Answers.processRequest
  refine Proc.Spec.bind (Q := fun last t => t = s ∧ last = s.pluginId)
    (Proc.Spec.read fun t _ ht => ⟨ht, by rw [ht]⟩) fun last => ?_
  refine Proc.Spec.bind (Q := fun (id : Nat) t => t = s ∧ (frame.member "id").val = .int id ∧
    s.pluginId < id) (orFail_sound ?_) fun id => ?_
  · rintro id t hid - ⟨rfl, rfl⟩
    obtain ⟨hnat, hlt⟩ := Option.filter_eq_some_iff.mp hid
    exact ⟨rfl, int_of_asU64 hnat, of_decide_eq_true hlt⟩
  refine Proc.Spec.bind (Proc.Spec.require fun _ _ _ _ => trivial) fun _ => ?_
  refine Proc.Spec.assume (φ := requestEnvelope frame = true ∧
    (frame.member "id").val = .int id ∧ s.pluginId < id) (fun t _ ht => ⟨ht.2, ht.1.2⟩) ?_
  rintro ⟨henv, hid, hlast⟩
  refine Proc.Spec.bind (Q := fun _ t => t = acceptId id s) (Proc.Spec.modify ?_) fun _ => ?_
  · rintro t - ⟨⟨rfl, -⟩, -⟩
    exact ⟨.single trivial, .accepted id henv hid hlast, rfl⟩
  refine Proc.Spec.bind (Q := fun _ _ => True) ?_ fun result => ?_
  · unfold Answers.perform
    split
    · exact proposeState_sound answers _ henv hid hlast
    · exact privilege_sound answers _ henv hid hlast
    · exact Proc.Spec.pure fun _ _ _ => trivial
  refine Proc.Spec.bind (Q := fun _ _ => True) ?_ fun reply => ?_
  · cases result with
    | ok value => exact Proc.Spec.pure fun _ _ _ => trivial
    | error e =>
      refine Proc.Spec.bind (Q := fun _ _ => True) (awaited_sound fun _ _ _ _ => trivial) fun snap => ?_
      refine Proc.Spec.bind (Q := fun _ _ => True) (Proc.Spec.ofExcept (fun _ _ _ _ _ => trivial)
        fun _ _ _ _ _ => trivial) fun pair => ?_
      exact Proc.Spec.pure fun _ _ _ => trivial
  · refine Proc.Spec.bind (Q := fun _ _ => True) (awaited_sound fun _ _ _ _ => trivial) fun _ => ?_
    exact Proc.Spec.ofExcept (fun _ _ _ _ _ => trivial) fun _ _ _ _ _ => trivial

namespace Inv

variable {t : Session}

/-- The invariant does not read the queue or the reader, and survives what only shrinks. -/
theorem shrink (h : Inv floatLen m s) (hlog : t.log = s.log) (hid : t.pluginId = s.pluginId)
    (hnext : t.nextId = s.nextId) (hasks : t.asks = s.asks) (hcalls : t.calls.Sublist s.calls)
    (hphase : ∀ id call, t.phase = .waiting id call → s.phase = .waiting id call) :
    Inv floatLen m t where
  lawful := hlog ▸ h.lawful
  accepted j hj := hid ▸ h.accepted j (hlog ▸ hj)
  sent j k hj := by
    obtain ⟨h₁, h₂, h₃⟩ := h.sent j k (hlog ▸ hj)
    exact ⟨hnext ▸ h₁, hasks ▸ h₂, fun c hc => h₃ c (hcalls.subset hc)⟩
  fresh c hc := hasks ▸ h.fresh c (hcalls.subset hc)
  distinct := h.distinct.sublist (hcalls.map _)
  answered k j n r hj := hlog ▸ h.answered k j n r (hlog ▸ hj)
  waiting id call hw := hlog ▸ h.waiting id call (hphase id call hw)

theorem note_silent (h : Inv floatLen m s) {e : Event} (he : e.silent = true) :
    Inv floatLen m (note e s) := by
  have hmem : ∀ d : Event, d.silent = false → (d ∈ e :: s.log ↔ d ∈ s.log) := by
    intro d hd
    rw [List.mem_cons, or_iff_right]
    rintro rfl
    rw [he] at hd
    cases hd
  exact {
    lawful := .cons (allowed_of_silent _ _ he) h.lawful
    accepted := fun j hj => h.accepted j ((hmem _ rfl).mp hj)
    sent := fun j k hj => h.sent j k ((hmem _ rfl).mp hj)
    fresh := h.fresh
    distinct := h.distinct
    answered := fun k j n r hj => by
      obtain ⟨i, hi⟩ := h.answered k j n r ((hmem _ rfl).mp hj)
      exact ⟨i, (hmem _ rfl).mpr hi⟩
    waiting := fun id call hw => by
      obtain ⟨hs, ha⟩ := h.waiting id call hw
      exact ⟨(hmem _ rfl).mpr hs, fun j n r hj => ha j n r ((hmem _ rfl).mp hj)⟩ }

theorem finish (h : Inv floatLen m s) (result : Option (Except String Unit)) :
    Inv floatLen m (s.finish result) :=
  (h.note_silent (e := .ended result) rfl).shrink rfl rfl rfl rfl (List.nil_sublist _)
    fun _ _ hw => by cases hw

theorem failCall (h : Inv floatLen m s) (token : Nat) (error : String) :
    Inv floatLen m (s.failCall token error) :=
  (h.note_silent (e := .failed token error) rfl).finish _

theorem accept (h : Inv floatLen m s) (hlast : s.pluginId < id) :
    Inv floatLen m (acceptId id s) where
  lawful := .cons (fun j hj => Nat.lt_of_le_of_lt (h.accepted j hj) hlast) h.lawful
  accepted j hj := by
    rcases List.mem_cons.mp hj with he | hj
    · cases he
      exact Nat.le_refl id
    · exact (h.accepted j hj).trans hlast.le
  sent j k hj := h.sent j k (by simpa [acceptId] using hj)
  fresh := h.fresh
  distinct := h.distinct
  answered k j n r hj := by
    obtain ⟨i, hi⟩ := h.answered k j n r (by simpa [acceptId] using hj)
    exact ⟨i, List.mem_cons_of_mem _ hi⟩
  waiting i call hw := by
    obtain ⟨hs, ha⟩ := h.waiting i call hw
    exact ⟨List.mem_cons_of_mem _ hs, fun j n r hj => ha j n r (by simpa [acceptId] using hj)⟩

/-- A command or a privileged request that is allowed where it stands. -/
theorem effect (h : Inv floatLen m s) {e : Event} (he : Allowed floatLen m s.log e)
    (hkind : (∃ r o, e = .submitted r o) ∨ ∃ n c, e = .privileged n c) :
    Inv floatLen m (note e s) := by
  obtain ⟨r, o, rfl⟩ | ⟨n, c, rfl⟩ := hkind
  all_goals exact {
    lawful := .cons he h.lawful
    accepted := fun j hj => h.accepted j (by simpa [note] using hj)
    sent := fun j k hj => h.sent j k (by simpa [note] using hj)
    fresh := h.fresh
    distinct := h.distinct
    answered := fun k j n r hj => by
      obtain ⟨i, hi⟩ := h.answered k j n r (by simpa [note] using hj)
      exact ⟨i, List.mem_cons_of_mem _ hi⟩
    waiting := fun id call hw => by
      obtain ⟨hs, ha⟩ := h.waiting id call hw
      exact ⟨List.mem_cons_of_mem _ hs, fun j n r hj => ha j n r (by simpa [note] using hj)⟩ }

theorem handled (h : Inv floatLen m s) {serial : Nat} {older : List Event}
    (hlog : s.log = .took serial frame :: older) (ht : Handled floatLen m frame s t) :
    Inv floatLen m t := by
  cases ht with
  | refused => exact h
  | accepted id henv hid hlast => exact h.accept hlast
  | submitted id revision state schema henv hid hlast hm hvalid =>
    refine (h.accept hlast).effect ⟨?_, rfl, state, revision, schema, hm, hvalid, rfl⟩
      (.inl ⟨_, _, rfl⟩)
    exact ⟨id, serial, frame, older, by simp [acceptId, hlog], henv, hid⟩
  | privileged id command henv hid hlast hmem =>
    refine (h.accept hlast).effect ⟨?_, rfl, hmem⟩ (.inr ⟨_, _, rfl⟩)
    exact ⟨id, serial, frame, older, by simp [acceptId, hlog], henv, hid⟩

theorem handle (h : Inv floatLen m s) {serial : Nat} {older : List Event}
    (hlog : s.log = .took serial frame :: older) (answers : Answers)
    {onError : String → Session → Session} {onCut : Session → Session}
    (herr : ∀ e t, Inv floatLen m t → Inv floatLen m (onError e t))
    (hcut : ∀ t, Inv floatLen m t → Inv floatLen m (onCut t)) :
    Inv floatLen m (s.handle floatLen m answers frame onError onCut) := by
  have hrun := h.handled hlog (processRequest_handled answers frame s)
  unfold Session.handle
  split
  · rename_i t heq
    rwa [heq] at hrun
  · rename_i e t heq
    rw [heq] at hrun
    exact herr e t hrun
  · rename_i t heq
    rw [heq] at hrun
    exact hcut t hrun

/-- The answer to a pending call that comes from a frame taken just before. -/
theorem answer (h : Inv floatLen m s) {serial : Nat} {call : Call}
    {result : Except String Value} {older : List Event} (hlog : s.log = .took serial frame :: older)
    (hwait : s.phase = .waiting id call) (hresp : Responds id frame result) :
    Inv floatLen m { note (.answered call.token id serial result) s with phase := .idle } := by
  obtain ⟨hsent, hnew⟩ := h.waiting id call hwait
  have hbefore : Event.sent id call.token ∈ older := by simpa [hlog] using hsent
  exact {
    lawful := .cons ⟨hnew, frame, older, hlog, hbefore, hresp⟩ h.lawful
    accepted := fun j hj => h.accepted j (by simpa [note] using hj)
    sent := fun j k hj => h.sent j k (by simpa [note] using hj)
    fresh := h.fresh
    distinct := h.distinct
    answered := fun k j n r hj => by
      rcases List.mem_cons.mp hj with he | hj
      · cases he
        exact ⟨id, List.mem_cons_of_mem _ hsent⟩
      · obtain ⟨i, hi⟩ := h.answered k j n r hj
        exact ⟨i, List.mem_cons_of_mem _ hi⟩
    waiting := fun _ _ hw => by cases hw }

theorem respond (h : Inv floatLen m s) {serial : Nat} {call : Call} {older : List Event}
    (hlog : s.log = .took serial frame :: older) (hwait : s.phase = .waiting id call) :
    Inv floatLen m (s.respond serial id call frame) := by
  unfold Session.respond
  split
  · exact h.failCall _ _
  · rename_i henv
    have henv : Session.responseEnvelope id frame = true := by simpa using henv
    split
    · rename_i error herr
      exact (h.answer hlog hwait ⟨henv, .inl ⟨error, herr, rfl⟩⟩).finish _
    · rename_i value herr hok
      exact h.answer hlog hwait ⟨henv, .inr ⟨value, hok, rfl⟩⟩
    · exact h.failCall _ _

theorem take (h : Inv floatLen m s) (serial : Nat) (frame : Value)
    (rest : List (Nat × Except String Value)) :
    Inv floatLen m (note (.took serial frame) { s with queue := rest }) :=
  (h.note_silent (e := .took serial frame) rfl).shrink rfl rfl rfl rfl (List.Sublist.refl _)
    fun _ _ hw => hw

theorem takeFrame (h : Inv floatLen m s) {answers : Answers}
    (ht : s.takeFrame floatLen m answers = some t) : Inv floatLen m t := by
  unfold Session.takeFrame at ht
  split at ht
  · cases ht
  · split at ht <;> cases ht
    exact h.finish _
  · cases ht
    exact h.finish _
  · cases ht
    exact (h.take _ _ _).handle rfl answers (fun e t ht => ht.finish _) fun t ht => ht.finish _
  · split at ht <;> cases ht
    exact h.failCall _ _
  · cases ht
    exact h.failCall _ _
  · rename_i id call serial frame rest hphase hqueue
    simp only at ht
    split at ht
    · cases ht
      exact (h.take _ _ _).handle rfl answers (fun e t ht => ht.failCall _ _)
        fun t ht => ht.failCall _ _
    · cases ht
      exact (h.take _ _ _).respond rfl hphase

/-- Sending takes the call off the queue, under an id above all ids sent so far. -/
theorem send (h : Inv floatLen m s) {call : Call} {rest : List Call} (hcalls : s.calls = call :: rest) :
    Inv floatLen m (note (.sent s.nextId call.token)
      { s with calls := rest, nextId := s.nextId + 1 }) ∧
    ∀ j n r, .answered call.token j n r ∉ s.log := by
  have hmem : call ∈ s.calls := by simp [hcalls]
  have hdistinct : call.token ∉ rest.map Call.token ∧ (rest.map Call.token).Nodup := by
    have := h.distinct
    rw [hcalls, List.map_cons, List.nodup_cons] at this
    exact this
  have hunanswered : ∀ j n r, .answered call.token j n r ∉ s.log := by
    intro j n r hj
    obtain ⟨i, hi⟩ := h.answered _ _ _ _ hj
    exact (h.sent i _ hi).2.2 call hmem rfl
  refine ⟨?_, hunanswered⟩
  exact {
    lawful := .cons (fun j k hj => by
      obtain ⟨hlt, -, hne⟩ := h.sent j k hj
      exact ⟨hlt, fun he => hne call hmem he.symm⟩) h.lawful
    accepted := fun j hj => h.accepted j (by simpa [note] using hj)
    sent := fun j k hj => by
      rcases List.mem_cons.mp hj with he | hj
      · cases he
        refine ⟨Nat.lt_succ_self _, h.fresh call hmem, fun c hc he => ?_⟩
        exact hdistinct.1 (List.mem_map.mpr ⟨c, hc, he⟩)
      · obtain ⟨hlt, ha, hne⟩ := h.sent j k hj
        exact ⟨Nat.lt_succ_of_lt hlt, ha, fun c hc => hne c (by simp [hcalls, show c ∈ rest from hc])⟩
    fresh := fun c hc => h.fresh c (by simp [hcalls, show c ∈ rest from hc])
    distinct := hdistinct.2
    answered := fun k j n r hj => by
      obtain ⟨i, hi⟩ := h.answered k j n r (by simpa [note] using hj)
      exact ⟨i, List.mem_cons_of_mem _ hi⟩
    waiting := fun id c hw => by
      obtain ⟨hs, ha⟩ := h.waiting id c hw
      exact ⟨List.mem_cons_of_mem _ hs, fun j n r hj => ha j n r (by simpa [note] using hj)⟩ }

theorem takeCall (h : Inv floatLen m s) {answers : Answers} (ht : s.takeCall answers = some t) :
    Inv floatLen m t := by
  unfold Session.takeCall at ht
  split at ht
  · rename_i call rest hphase hcalls
    obtain ⟨hsend, hunanswered⟩ := h.send hcalls
    simp only at ht
    split at ht
    · cases ht
      exact (h.shrink rfl rfl rfl rfl (by simp [hcalls]) fun _ _ hw => hw).finish _
    · split at ht
      · cases ht
        exact hsend.finish _
      · cases ht
        exact hsend.finish _
      · cases ht
        exact { hsend with
          waiting := fun id c hw => by
            cases hw
            exact ⟨List.mem_cons_self, fun j n r hj => hunanswered j n r (by simpa [note] using hj)⟩ }
  · cases ht

theorem ask (h : Inv floatLen m s) (request : Value) :
    Inv floatLen m { note (.asked s.asks) s with
      calls := s.calls ++ [⟨s.asks, request⟩], asks := s.asks + 1 } := by
  have hnote := h.note_silent (e := .asked s.asks) rfl
  exact { hnote with
    sent := fun j k hj => by
      obtain ⟨hlt, ha, hne⟩ := hnote.sent j k hj
      refine ⟨hlt, Nat.lt_succ_of_lt ha, fun c hc => ?_⟩
      rcases List.mem_append.mp hc with hc | hc
      · exact hne c hc
      · cases List.mem_singleton.mp hc
        exact Nat.ne_of_gt ha
    fresh := fun c hc => by
      rcases List.mem_append.mp hc with hc | hc
      · exact Nat.lt_succ_of_lt (h.fresh c hc)
      · cases List.mem_singleton.mp hc
        exact Nat.lt_succ_self _
    distinct := by
      rw [List.map_append, List.map_singleton, List.nodup_append]
      refine ⟨h.distinct, List.nodup_singleton _, ?_⟩
      intro k hk j hj
      obtain ⟨c, hc, rfl⟩ := List.mem_map.mp hk
      cases List.mem_singleton.mp hj
      exact Nat.ne_of_lt (h.fresh c hc) }

theorem step (h : Inv floatLen m s) {a : Action} (ht : s.step floatLen m a = some t) :
    Inv floatLen m t := by
  cases a with
  | arrive frame =>
    simp only [Session.step] at ht
    split at ht
    · cases ht
    · split at ht <;> cases ht
      · exact (h.note_silent (e := .arrived s.arrivals) rfl).shrink rfl rfl rfl rfl
          (List.Sublist.refl _) fun _ _ hw => hw
      · exact h.shrink rfl rfl rfl rfl (List.Sublist.refl _) fun _ _ hw => hw
  | ask request =>
    simp only [Session.step] at ht
    split at ht
    · cases ht
    · split at ht <;> cases ht
      · exact h.ask request
      · exact h.finish _
  | frame answers => exact h.takeFrame ht
  | call answers => exact h.takeCall ht
  | timeout =>
    simp only [Session.step] at ht
    split at ht <;> cases ht
    exact h.failCall _ _
  | hangUp =>
    simp only [Session.step] at ht
    split at ht <;> cases ht
    exact h.finish _
  | abort =>
    simp only [Session.step] at ht
    split at ht <;> cases ht
    exact h.finish _

theorem start : Inv floatLen m {} where
  lawful := .nil
  accepted := by simp
  sent := by simp
  fresh := by simp
  distinct := by simp
  answered := by simp
  waiting := by simp

theorem reachable (h : Session.Reachable floatLen m s) : Inv floatLen m s :=
  chain_invariant (fun _ _ ⟨_, ha⟩ hi => hi.step ha) h start

end Inv

/-- The request envelope, under an id above all accepted ones. -/
def Session.Requests (s : Session) (frame : Value) : Prop :=
  requestEnvelope frame = true ∧ ∃ id, asU64 (frame.member "id").val = some id ∧ s.pluginId < id

/-- A frame the session can take where it stands. -/
def Session.Enveloped (s : Session) (frame : Value) : Prop :=
  match s.phase with
  | .idle => s.Requests frame
  | .waiting id _ =>
    if (field "req" frame).isSome then s.Requests frame
    else Session.responseEnvelope id frame = true ∧
      ((field "err" frame).isSome = true ∨ (field "ok" frame).isSome = true)
  | .ended => False

/-- What the session did, apart from taking frames, failing and ending. -/
def Session.deeds (s : Session) : List Event := s.log.filter (!·.silent)

variable (floatLen m) in
theorem processRequest_refused (answers : Answers) (h : ¬ s.Requests frame) :
    ∃ e, answers.processRequest floatLen m frame s = (.err e, s) := by
  have hread : (Proc.read (·.pluginId) : SessionAction Nat) s = (.ok s.pluginId, s) := rfl
  unfold Answers.processRequest
  rw [Proc.bind_ok hread]
  cases hid : (asU64 (frame.member "id").val).filter (s.pluginId < ·) with
  | none => exact ⟨"duplicate plugin request ID", rfl⟩
  | some id =>
    obtain ⟨hnat, hlt⟩ := Option.filter_eq_some_iff.mp hid
    have henv : ¬ requestEnvelope frame = true := fun henv =>
      h ⟨henv, id, hnat, of_decide_eq_true hlt⟩
    have hfound : (orFail "duplicate plugin request ID" (some id) : SessionAction Nat) s =
        (.ok id, s) := rfl
    refine ⟨"invalid plugin request envelope", ?_⟩
    rw [Proc.bind_ok hfound]
    simp only [Proc.require, if_neg henv]
    rfl

variable (floatLen m) in
theorem handle_refused (answers : Answers) (onError : String → Session → Session)
    (onCut : Session → Session) (h : ¬ s.Requests frame) :
    ∃ e, s.handle floatLen m answers frame onError onCut = onError e s := by
  obtain ⟨e, he⟩ := processRequest_refused floatLen m answers h
  exact ⟨e, by rw [Session.handle, he]⟩

theorem respond_refused (serial : Nat) (call : Call) (hout : ¬ (Session.responseEnvelope id frame = true ∧
    ((field "err" frame).isSome = true ∨ (field "ok" frame).isSome = true))) :
    ∃ e, s.respond serial id call frame = s.failCall call.token e := by
  unfold Session.respond
  split
  · exact ⟨_, rfl⟩
  · rename_i henv
    split
    · rename_i error herr
      exact absurd ⟨by simpa using henv, .inl (by simp [herr])⟩ hout
    · rename_i value herr hok
      exact absurd ⟨by simpa using henv, .inr (by simp [hok])⟩ hout
    · exact ⟨_, rfl⟩

/-- A frame outside its envelope ends the session, which does nothing for it. -/
theorem outside_ends {answers : Answers} {serial : Nat} {rest : List (Nat × Except String Value)}
    {t : Session} (hqueue : s.queue = (serial, .ok frame) :: rest) (hout : ¬ s.Enveloped frame)
    (ht : s.step floatLen m (.frame answers) = some t) :
    t.phase = .ended ∧ t.deeds = s.deeds := by
  have ht : s.takeFrame floatLen m answers = some t := ht
  unfold Session.takeFrame at ht
  split at ht
  · cases ht
  · rename_i hempty
    simp [hqueue] at hempty
  · rename_i herr
    simp [hqueue] at herr
  · rename_i serial' frame' rest' hphase hsame
    rw [hqueue] at hsame
    cases hsame
    have hreq : ¬ (note (.took serial frame) { s with queue := rest }).Requests frame := by
      simp only [Session.Enveloped, hphase] at hout
      exact hout
    obtain ⟨e, he⟩ := handle_refused floatLen m answers
      (fun e => Session.finish (some (.error e))) (Session.finish none) hreq
    rw [he] at ht
    cases ht
    exact ⟨rfl, rfl⟩
  · rename_i hempty
    simp [hqueue] at hempty
  · rename_i herr
    simp [hqueue] at herr
  · rename_i id call serial' frame' rest' hphase hsame
    rw [hqueue] at hsame
    cases hsame
    simp only [Session.Enveloped, hphase] at hout
    simp only at ht
    split at ht
    · rename_i hr
      rw [if_pos hr] at hout
      have hreq : ¬ (note (.took serial frame) { s with queue := rest }).Requests frame := hout
      obtain ⟨e, he⟩ := handle_refused floatLen m answers
        (fun e => Session.failCall call.token e)
        (Session.failCall call.token "plugin command timeout") hreq
      rw [he] at ht
      cases ht
      exact ⟨rfl, rfl⟩
    · rename_i hr
      rw [if_neg hr] at hout
      obtain ⟨e, he⟩ := respond_refused (s := note (.took serial frame) { s with queue := rest })
        serial call hout
      rw [he] at ht
      cases ht
      exact ⟨rfl, rfl⟩

/-- Nothing follows the end of a session. -/
theorem ended_final {a : Action} {t : Session} (hend : s.phase = .ended)
    (ht : s.step floatLen m a = some t) : t.phase = .ended ∧ t.deeds = s.deeds := by
  cases a with
  | arrive frame =>
    simp only [Session.step] at ht
    split at ht
    · cases ht
    · split at ht <;> cases ht
      · exact ⟨hend, rfl⟩
      · exact ⟨hend, rfl⟩
  | ask request => simp [Session.step, hend] at ht
  | frame answers => simp [Session.step, Session.takeFrame, hend] at ht
  | call answers => simp [Session.step, Session.takeCall, hend] at ht
  | timeout => simp [Session.step, hend] at ht
  | hangUp => simp [Session.step, hend] at ht
  | abort => simp [Session.step, hend] at ht

theorem Lawful.allowed {log newer past : List Event} {e : Event} (h : Lawful floatLen m log)
    (hlog : log = newer ++ e :: past) : Allowed floatLen m past e := by
  induction h generalizing newer with
  | nil => simp at hlog
  | cons ha _ ih =>
    cases newer with
    | nil =>
      cases hlog
      exact ha
    | cons d newer =>
      cases hlog
      exact ih rfl

/-- In every run, each thing the session does is one it may do for this plugin where it stands,
and a frame outside its envelope ends the session. -/
theorem acts_only_as_itself (floatLen : ℚ → Nat) (m : Manifest) (s : Session)
    (h : Session.Reachable floatLen m s) :
    (∀ newer e past, s.log = newer ++ e :: past → Allowed floatLen m past e) ∧
    (∀ answers serial frame rest t, s.queue = (serial, .ok frame) :: rest → ¬ s.Enveloped frame →
      s.step floatLen m (.frame answers) = some t → t.phase = .ended ∧ t.deeds = s.deeds) ∧
    ∀ a t, s.phase = .ended → s.step floatLen m a = some t →
      t.phase = .ended ∧ t.deeds = s.deeds := by
  refine ⟨?_, ?_, ?_⟩
  · intro newer e past hlog
    exact (Inv.reachable h).lawful.allowed hlog
  · intro answers serial frame rest t hqueue hout ht
    exact outside_ends hqueue hout ht
  · intro a t hend ht
    exact ended_final hend ht

theorem Session.reachable_of_foldlM (actions : List Action) {s t : Session}
    (hs : Session.Reachable floatLen m s)
    (h : actions.foldlM (fun s a => s.step floatLen m a) s = some t) :
    Session.Reachable floatLen m t := by
  induction actions generalizing s with
  | nil =>
    cases h
    exact hs
  | cons a actions ih =>
    rw [List.foldlM_cons] at h
    obtain ⟨u, hu, hrest⟩ := Option.bind_eq_some_iff.mp h
    exact ih (hs.tail ⟨a, hu⟩) hrest

/-- A host command commits data of the plugin it was asked for, at the revision it started from. -/
theorem proposal_own {before : Before} {name command notAMap : String} {input reply : Value}
    {revision : Option Nat} {schema : CommandSchema} {expected : Nat}
    {request : Types.CommandRequest}
    (hbefore : before.admits floatLen command input revision = .ok (m, schema, expected))
    (h : proposal floatLen name m schema expected notAMap reply = .ok request) :
    expected = before.revision ∧ ∃ state stateSchema, m.state = some stateSchema ∧
      validateValue floatLen stateSchema.schema (Value.mapJson state) = .ok () ∧
      request = { command := .setPluginData name state, expectRevision := some expected } := by
  constructor
  · unfold Before.admits at hbefore
    split at hbefore
    · cases hbefore
    · simp only at hbefore
      split at hbefore
      · cases hbefore
      · rename_i hsame
        obtain ⟨_, -, hbefore⟩ := Outcome.bind_eq_ok.mp hbefore
        split at hbefore
        · cases hbefore
        · split at hbefore
          · cases hbefore
          · obtain ⟨_, -, hbefore⟩ := Outcome.bind_eq_ok.mp hbefore
            cases hbefore
            exact not_not.mp hsame
  · unfold proposal at h
    obtain ⟨_, -, h⟩ := Outcome.bind_eq_ok.mp h
    split at h
    · cases h
    · rename_i stateSchema hstate
      obtain ⟨_, hvalid, h⟩ := Outcome.bind_eq_ok.mp h
      split at h
      · cases h
      · rename_i data hdata
        cases h
        refine ⟨data, stateSchema, hstate, ?_, rfl⟩
        rw [Value.mapJson_of_asMap hdata]
        cases hv : validateValue floatLen stateSchema.schema (reply.member "state").val with
        | error e => simp [orInvalid, hv, Except.mapError] at hvalid
        | ok u => rfl

/-- A plugin whose data may be any object. -/
def hello : Manifest where
  name := ⟨"hello", by decide⟩
  schemaVersion := some 2
  process := some ⟨"bin/hello", []⟩
  state := some ⟨.obj [("type", .str "object")], .obj []⟩
  version := ⟨"1.0-1", by decide⟩
  title := "Hello"
  minNdimon := ⟨"2.0.0", by decide⟩

/-- Every answer is a success. -/
def agreeable : Answers where
  submit _ _ := some (.ok 1)
  privileged _ _ := some (.ok .null)
  snapshot := some (.ok (0, .null))
  write _ := some (.ok ())
  notAMap := ""

def helloProposal : Value := ⟨.obj [("id", .int 2), ("req", .obj [("propose_state",
  .obj [("expect_revision", .int 0), ("state", .obj [])])]), ("v", .int 1)], by decide⟩

def early : Value := ⟨.obj [("id", .int 2), ("ok", .null), ("v", .int 1)], by decide⟩

theorem acts_only_as_itself_proposal :
    ∃ s, ([.arrive (.ok helloProposal), .frame agreeable].foldlM
        (fun s a => s.step (fun _ => 0) hello a) ({} : Session)) = some s ∧
      Allowed (fun _ => 0) hello [.accepted 2, .took 0 helloProposal, .arrived 0]
        (.submitted { command := .setPluginData "hello" ⟨[], by decide⟩, expectRevision := some 0 }
          (.plugin "hello")) := by
  refine ⟨_, rfl, ?_⟩
  have h := acts_only_as_itself (fun _ => 0) hello _
    (Session.reachable_of_foldlM [.arrive (.ok helloProposal), .frame agreeable] .refl rfl)
  exact h.1 [] _ _ rfl

/-- A response that arrived before its call was sent answers the call. -/
theorem early_response_answers :
    ¬ ∀ floatLen m s, Session.Reachable floatLen m s →
      ∀ newer token id serial result past, s.log = newer ++ .answered token id serial result :: past →
        ∃ mid older, past = mid ++ .sent id token :: older ∧ .arrived serial ∈ mid := by
  intro h
  obtain ⟨mid, older, hpast, harrived⟩ := h (fun _ => 0) hello _
    (Session.reachable_of_foldlM [.arrive (.ok early), .ask .null, .call agreeable,
      .frame agreeable] .refl rfl) [] 0 2 0 (.ok .null)
    [.took 0 early, .sent 2 0, .asked 0, .arrived 0] rfl
  cases mid with
  | nil => cases hpast
  | cons a mid =>
    obtain ⟨rfl, hrest⟩ := List.cons.inj hpast
    cases mid with
    | nil => simp at harrived
    | cons b mid =>
      obtain ⟨-, hrest⟩ := List.cons.inj hrest
      have hsent : Event.sent 2 0 ∈ [Event.asked 0, Event.arrived 0] := by
        rw [hrest]
        simp
      simp at hsent

end NdimonR.Plugins
