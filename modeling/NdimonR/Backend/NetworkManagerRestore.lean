import NdimonR.Backend.NetworkManager

/-! Restoring the connections of a plan, however far its activation came. -/

namespace NdimonR.Backend.NetworkManager

open Types Text Engine Backend

/-! ### What a plan knows of the store it was made against -/

/-- A change whose before-images are those of the store. -/
structure Planned (s₀ : Store) (c : NmChange) : Prop where
  before : ∀ b, c.before = some b → nmSnapshot s₀ c.uuid = .ok b
  fresh : c.before = none → s₀.connections.contains c.uuid = false
  active : c.active = s₀.active.contains c.uuid
  files : ∀ f ∈ c.files, f.before = s₀.files.get? f.path

theorem nmField_eq_ok {s : Store} {uuid field value : String} (h : nmField s uuid field = .ok value) :
    validUuid uuid = true ∧ ∃ props, s.connections.get? uuid = some props ∧
      ∃ v, props.get? field = some v ∧ trim v = value := by
  unfold nmField at h
  split at h
  · cases h
  · rename_i hvalid
    refine ⟨by simpa using hvalid, ?_⟩
    cases hv : (s.connections.get? uuid).bind (·.get? field) with
    | none => simp [hv] at h
    | some v =>
      simp only [hv, Except.ok.injEq] at h
      obtain ⟨props, hprops, hget⟩ := Option.bind_eq_some_iff.mp hv
      exact ⟨props, hprops, v, hget, h⟩

theorem fields_nodup : fields.Nodup := by decide

section
variable {s s' : Store} {uuid : String} {b : Properties}

/-- A snapshot has each property as it reads, and no other. -/
theorem nmSnapshot_eq_ok (h : nmSnapshot s uuid = .ok b) :
    (∀ field ∈ fields, ∃ v, b.get? field = some v ∧ nmField s uuid field = .ok v) ∧
      ∀ field v, b.get? field = some v → field ∈ fields := by
  obtain ⟨values, hvalues, h⟩ := Outcome.bind_eq_ok.mp h
  have hread := Outcome.mapM_eq_ok.mp hvalues
  have hentry : ∀ field e, (nmField s uuid field).map (field, ·) = .ok e →
      e.1 = field ∧ nmField s uuid field = .ok e.2 := by
    intro field e he
    obtain ⟨v, hv, rfl⟩ := Outcome.map_eq_ok.mp he
    exact ⟨rfl, hv⟩
  have hkeys : values.map Prod.fst = fields := by
    have hmap := hread.imp fun field e he => (hentry field e he).1.symm
    have heq := List.forall₂_map_right_iff.mpr hmap
    exact (List.forall₂_eq_eq_eq ▸ heq).symm
  have hnodup : (values.map Prod.fst).Nodup := hkeys ▸ fields_nodup
  rw [← Except.ok.inj h]
  constructor
  · intro field hfield
    obtain ⟨e, he, hr⟩ := Outcome.mem_of_forall₂ hread hfield
    obtain ⟨rfl, hv⟩ := hentry field e hr
    exact ⟨e.2, SortedMap.mem_entries_iff.mp ((SortedMap.mem_ofList_iff hnodup).mpr he), hv⟩
  · intro field v hv
    have hmem := SortedMap.mem_ofList (SortedMap.mem_entries_iff.mpr hv)
    rw [← hkeys]
    exact List.mem_map_of_mem hmem

theorem nmSnapshot_congr (h : ∀ field ∈ fields, nmField s' uuid field = nmField s uuid field) :
    nmSnapshot s' uuid = nmSnapshot s uuid := by
  have hlist : ∀ l : List String, (∀ field ∈ l, nmField s' uuid field = nmField s uuid field) →
      l.mapM (fun field => (nmField s' uuid field).map (field, ·)) =
        l.mapM fun field => (nmField s uuid field).map (field, ·) := by
    intro l
    induction l with
    | nil => simp
    | cons field l ih =>
      intro hl
      rw [List.mapM_cons, List.mapM_cons, hl field List.mem_cons_self,
        ih fun f hf => hl f (List.mem_cons_of_mem _ hf)]
  unfold nmSnapshot
  rw [hlist fields h]

theorem nmSnapshot_valid (h : nmSnapshot s uuid = .ok b) :
    validUuid uuid = true ∧ s.connections.contains uuid = true := by
  obtain ⟨v, -, hread⟩ := (nmSnapshot_eq_ok h).1 "ipv4.method" (by decide)
  obtain ⟨hvalid, props, hprops, -⟩ := nmField_eq_ok hread
  exact ⟨hvalid, Option.isSome_of_eq_some hprops⟩

theorem get?_override (props values : Properties) (field : String) :
    (override props values).get? field = (values.get? field).or (props.get? field) := by
  rw [override, SortedMap.get?_foldl, SortedMap.ofList_entries]

theorem override_override (props values : Properties) :
    override (override props values) values = override props values := by
  refine SortedMap.ext fun field => ?_
  rw [get?_override, get?_override]
  cases values.get? field <;> simp

/-- Writing a snapshot back gives the snapshot. -/
theorem nmSnapshot_override {props : Properties} (h : nmSnapshot s uuid = .ok b)
    (hs' : s'.connections.get? uuid = some (override props b)) : nmSnapshot s' uuid = .ok b := by
  rw [← h]
  refine nmSnapshot_congr fun field hfield => ?_
  obtain ⟨v, hv, hread⟩ := (nmSnapshot_eq_ok h).1 field hfield
  obtain ⟨hvalid, -, -, w, -, hw⟩ := nmField_eq_ok hread
  have htrim : trim v = v := by
    rw [← hw]
    exact String.toList_inj.mp (by rw [toList_trim, toList_trim, trimList_trimList])
  rw [hread, nmField, if_neg (by simp [hvalid]), hs', Option.bind_some, get?_override, hv]
  exact congrArg Except.ok htrim

end

section
variable {m : Manager} {s₀ : Store} {p old : NetworkProfiles} {metadata : Metadata}

theorem nmPersisted_ok {uuid id filename : String} {files : List NmFile}
    (h : nmPersisted s₀ uuid id filename = .ok files) :
    ∀ f ∈ files, f.before = s₀.files.get? f.path := by
  intro f hf
  obtain ⟨path, -, hpath⟩ := Outcome.mem_of_forall₂ (Outcome.mapM_eq_ok.mp h).flip hf
  split at hpath
  · cases hpath
  · cases hpath
    rfl

theorem addChange_planned {parent : String} {t : Target} {c : NmChange}
    (h : addChange m s₀ p metadata parent t = .ok c)
    (hfresh : t.existed = false → s₀.connections.contains t.uuid = false) : Planned s₀ c := by
  obtain ⟨before, hbefore, h⟩ := Outcome.bind_eq_ok.mp h
  obtain ⟨files, hfiles, h⟩ := Outcome.bind_eq_ok.mp h
  cases h
  unfold beforeImage at hbefore
  unfold changeFiles at hfiles
  constructor
  · intro b hb
    cases hb
    split at hbefore
    · obtain ⟨b', hb', heq⟩ := Outcome.map_eq_ok.mp hbefore
      cases heq
      exact hb'
    · cases hbefore
  · intro hnone
    cases hnone
    split at hbefore
    · obtain ⟨b', -, heq⟩ := Outcome.map_eq_ok.mp hbefore
      cases heq
    · rename_i hexisted
      exact hfresh (by simpa using hexisted)
  · rfl
  · split at hfiles
    · obtain ⟨e, -, hfiles⟩ := Outcome.bind_eq_ok.mp hfiles
      exact nmPersisted_ok hfiles
    · cases hfiles
      intro f hf
      cases hf

theorem planNm_planned {draw : Nat → Result String} {changes : List NmChange}
    (h : planNm m s₀ draw old p metadata = .ok changes)
    (hfresh : ∀ n u, draw n = .ok u → s₀.connections.contains u = false) :
    ∀ c ∈ changes, Planned s₀ c := by
  obtain ⟨uuid, -, h⟩ := Outcome.bind_eq_ok.mp h
  obtain ⟨parent, hparent, h⟩ := Outcome.bind_eq_ok.mp h
  obtain ⟨vlans, hvlans, h⟩ := Outcome.bind_eq_ok.mp h
  obtain ⟨removed, hremoved, h⟩ := Outcome.bind_eq_ok.mp h
  cases h
  intro c hc
  simp only [List.cons_append, List.mem_cons, List.mem_append] at hc
  rcases hc with rfl | hc | hc
  · exact addChange_planned hparent nofun
  · obtain ⟨e, -, he⟩ := Outcome.mem_of_forall₂ (Outcome.mapM_eq_ok.mp hvlans).flip hc
    obtain ⟨t, ht, he⟩ := Outcome.bind_eq_ok.mp he
    refine addChange_planned he fun hexisted => ?_
    unfold vlanTarget at ht
    simp only at ht
    split at ht
    · cases ht
      cases hexisted
    · obtain ⟨u, hu, rfl⟩ := Outcome.map_eq_ok.mp ht
      exact hfresh _ _ hu
  · obtain ⟨n, -, hn⟩ := Outcome.mem_of_forall₂ (Outcome.mapM_eq_ok.mp hremoved).flip hc
    obtain ⟨t, ht, hn⟩ := Outcome.bind_eq_ok.mp hn
    refine addChange_planned hn fun hexisted => ?_
    unfold removedTarget at ht
    split at ht
    · cases ht
      cases hexisted
    · cases ht

end

/-! ### What a call can change -/

def Call.target : Call → Option String
  | .add uuid .. => some uuid
  | .modify uuid _ => some uuid
  | .up uuid => some uuid
  | .down uuid => some uuid
  | .delete uuid => some uuid
  | .reload => none

section
variable {m : Manager} {call : Call} {s s' : Store} {uuid : String}

theorem exec_eq_ok : m.exec call s = .ok s' ↔
    ∃ next, m.act s call = some next ∧ s' = { next with files := m.saves call s.files } := by
  unfold Manager.exec
  cases m.act s call with
  | none => simp
  | some next => simp [eq_comm]

/-- A call leaves the other connections alone. -/
theorem exec_frame (h : m.exec call s = .ok s') (hne : call.target ≠ some uuid) :
    s'.connections.get? uuid = s.connections.get? uuid ∧
      s'.active.get? uuid = s.active.get? uuid := by
  obtain ⟨next, hact, rfl⟩ := exec_eq_ok.mp h
  cases call with
  | add u interface parent tag =>
    have hu : uuid ≠ u := fun heq => hne (by rw [heq]; rfl)
    simp only [Manager.act, Option.ite_none_left_eq_some] at hact
    obtain ⟨-, hact⟩ := hact
    cases hact
    simp [hu]
  | modify u values =>
    have hu : uuid ≠ u := fun heq => hne (by rw [heq]; rfl)
    simp only [Manager.act] at hact
    split at hact
    · cases hact
    · simp only [Option.ite_none_right_eq_some] at hact
      obtain ⟨-, hact⟩ := hact
      cases hact
      simp [hu]
  | up u =>
    have hu : uuid ≠ u := fun heq => hne (by rw [heq]; rfl)
    simp only [Manager.act] at hact
    split at hact
    · cases hact
    · simp only [Option.ite_none_right_eq_some] at hact
      obtain ⟨-, hact⟩ := hact
      cases hact
      simp [hu]
  | down u =>
    have hu : uuid ≠ u := fun heq => hne (by rw [heq]; rfl)
    simp only [Manager.act, Option.ite_none_right_eq_some] at hact
    obtain ⟨-, hact⟩ := hact
    cases hact
    simp [SortedMap.get?_erase, hu]
  | delete u =>
    have hu : uuid ≠ u := fun heq => hne (by rw [heq]; rfl)
    simp only [Manager.act, Option.ite_none_right_eq_some] at hact
    obtain ⟨-, hact⟩ := hact
    cases hact
    simp [SortedMap.get?_erase, hu]
  | reload =>
    cases hact
    exact ⟨rfl, rfl⟩

end

/-! ### However the activation ends -/

/-- The connections outside the plan are as they were. -/
def Within (s₀ : Store) (changes : List NmChange) (s : Store) : Prop :=
  ∀ uuid, (∀ c ∈ changes, c.uuid ≠ uuid) →
    s.connections.get? uuid = s₀.connections.get? uuid ∧ s.active.get? uuid = s₀.active.get? uuid

/-- The program keeps a fact about the store, however it ends. -/
abbrev Keeps {α : Type} (I : Store → Prop) (p : Program α) : Prop :=
  Proc.Spec (fun _ _ => True) (fun w => I w.store) (fun _ => True) p (fun _ _ => True)
    fun _ _ => True

section
variable {α : Type} {I : Store → Prop} {m : Manager} {s₀ : Store} {changes : List NmChange}

theorem keeps_perform {f : Store → Result (α × Store)}
    (h : ∀ s a s', I s → f s = .ok (a, s') → I s') : Keeps I (perform f) := by
  intro w hw _
  refine ⟨.single trivial, ?_, fun _ _ => trivial, fun _ _ => trivial⟩
  unfold perform
  cases hf : f w.store with
  | ok e =>
    have hnext := h _ _ _ hw hf
    simp only
    split
    · exact hw
    · exact hw
    · exact hnext
    · exact hnext
  | error e =>
    simp only
    split
    · exact hw
    · exact hw
    · exact hw
    · exact hw

theorem keeps_ask (view : Store → Result α) : Keeps I (ask view) := by
  refine keeps_perform fun s a s' hs hview => ?_
  obtain ⟨b, -, heq⟩ := Outcome.map_eq_ok.mp hview
  cases heq
  exact hs

theorem keeps_pure (a : α) : Keeps I (pure a : Program α) := Proc.Spec.pure fun _ _ _ => trivial

theorem keeps_fail (e : ApiError) : Keeps I (Proc.fail e : Program α) :=
  Proc.Spec.fail fun _ _ _ => trivial

theorem Keeps.bind {β : Type} {p : Program α} {f : α → Program β} (hp : Keeps I p)
    (hf : ∀ a, Keeps I (f a)) : Keeps I (p >>= f) := Proc.Spec.bind hp hf

theorem keeps_when {c : Prop} [Decidable c] {p : Program Unit} (h : c → Keeps I p) :
    Keeps I (Proc.when c p) := Proc.Spec.when h fun _ _ _ _ => trivial

/-- A call about a planned connection stays within the plan. -/
theorem keeps_run {call : Call} {c : NmChange} (hc : c ∈ changes)
    (htarget : call.target = some c.uuid) : Keeps (Within s₀ changes) (run m call) := by
  refine keeps_perform fun s a s' hs hexec => ?_
  obtain ⟨next, hnext, heq⟩ := Outcome.map_eq_ok.mp hexec
  cases heq
  intro uuid hother
  have hne : call.target ≠ some uuid := by
    intro heq
    exact hother c hc (Option.some.inj (htarget.symm.trans heq))
  obtain ⟨hconnections, hactive⟩ := exec_frame hnext hne
  rw [hconnections, hactive]
  exact hs uuid hother

theorem keeps_mismatch {code uuid what : String} : Keeps I (mismatch (α := α) code uuid what) := by
  refine Keeps.bind (Keeps.bind ?_ fun id => keeps_pure _) fun id => keeps_fail _
  intro w hw hp
  obtain ⟨hr, hk, -, -⟩ := Proc.Spec.attempt (F := fun _ _ => True)
    (keeps_ask (I := I) fun s => nmField s uuid "connection.id") w hw hp
  exact ⟨hr, hk, fun _ _ => trivial, fun _ _ => trivial⟩

theorem keeps_readsOtherwise {uuid : String} {want : Properties} {field : String} :
    Keeps I (readsOtherwise uuid want field) := by
  unfold readsOtherwise
  split
  · exact keeps_pure _
  · exact Keeps.bind (keeps_ask _) fun _ => keeps_pure _

theorem keeps_verifyWritten {c : NmChange} : Keeps I (verifyWritten c) := by
  refine Proc.Spec.each_keeps verified fun field _ => ?_
  refine Keeps.bind keeps_readsOtherwise fun wrong => ?_
  cases wrong with
  | none => exact keeps_pure _
  | some what => exact keeps_mismatch

theorem keeps_setActive {c : NmChange} (hc : c ∈ changes) (up : Bool) :
    Keeps (Within s₀ changes) (setActive m c.uuid up) := by
  unfold setActive
  split
  · exact keeps_run hc rfl
  · exact Keeps.bind (keeps_ask _) fun _ => keeps_when fun _ => keeps_run hc rfl

theorem keeps_apply {c : NmChange} (hc : c ∈ changes) (present : List String) :
    Keeps (Within s₀ changes) (apply m present c) := by
  have hcreate : Keeps (Within s₀ changes) (createVlan m c) := by
    unfold createVlan
    split
    · exact keeps_fail _
    · split
      · exact keeps_fail _
      · exact keeps_run hc rfl
  refine Keeps.bind (keeps_when fun _ => hcreate) fun _ => ?_
  refine Keeps.bind (keeps_run hc rfl) fun _ => ?_
  exact Keeps.bind keeps_verifyWritten fun _ => keeps_setActive hc _

/-- Wherever the activation stops, it has stayed within its plan. -/
theorem within_activation (faults : List Fault) :
    Within s₀ changes (activateNm m changes false ⟨s₀, faults⟩).2.store := by
  have hkeeps : Keeps (Within s₀ changes) (activateNm m changes false) :=
    Keeps.bind (keeps_ask _) fun present =>
      Proc.Spec.each_keeps changes fun c hc => keeps_apply hc present
  exact (hkeeps ⟨s₀, faults⟩ (fun _ _ => ⟨rfl, rfl⟩) trivial).2.1

end

/-! ### Programs that end with a value -/

section
variable {α : Type} {m : Manager} {call : Call} {w w' : World} {s s' : Store}

theorem perform_eq_ok {f : Store → Result (α × Store)} {a : α} (h : perform f w = (.ok a, w')) :
    f w.store = .ok (a, w'.store) := by
  unfold perform at h
  simp only at h
  split at h
  · cases h
  · cases h
  · cases h
  · cases hf : f w.store with
    | ok e =>
      rw [hf] at h
      cases h
      rfl
    | error e =>
      rw [hf] at h
      cases h

theorem perform_nil {f : Store → Result (α × Store)} {a : α} (h : f s = .ok (a, s')) :
    perform f ⟨s, []⟩ = (.ok a, ⟨s', []⟩) := by
  simp [perform, h]

theorem ask_eq_ok {view : Store → Result α} {a : α} (h : ask view w = (.ok a, w')) :
    view w.store = .ok a ∧ w'.store = w.store := by
  obtain ⟨b, hb, heq⟩ := Outcome.map_eq_ok.mp (perform_eq_ok h)
  obtain ⟨ha, hs⟩ := Prod.mk.inj heq
  rw [← ha]
  exact ⟨hb, hs.symm⟩

theorem ask_nil {view : Store → Result α} {a : α} (h : view s = .ok a) :
    ask view ⟨s, []⟩ = (.ok a, ⟨s, []⟩) := perform_nil (by rw [h]; rfl)

theorem run_eq_ok (h : run m call w = (.ok (), w')) : m.exec call w.store = .ok w'.store := by
  obtain ⟨next, hnext, heq⟩ := Outcome.map_eq_ok.mp (perform_eq_ok h)
  rw [hnext, (Prod.mk.inj heq).2]

theorem run_nil (next : Store) (h : m.act s call = some next) :
    run m call ⟨s, []⟩ = (.ok (), ⟨{ next with files := m.saves call s.files }, []⟩) :=
  perform_nil (by rw [exec_eq_ok.mpr ⟨next, h, rfl⟩]; rfl)

theorem when_eq_ok {c : Prop} [Decidable c] {p : Program Unit}
    (h : Proc.when c p w = (.ok (), w')) : (c ∧ p w = (.ok (), w')) ∨ (¬c ∧ w' = w) := by
  unfold Proc.when at h
  split at h
  · rename_i hc
    exact .inl ⟨hc, h⟩
  · rename_i hc
    cases h
    exact .inr ⟨hc, rfl⟩

end

/-! ### Files -/

/-- What NetworkManager does to the profile files on its own. `R path` is what may happen to a file
that is merely saved again, for a recorded one no more than NetworkManager's bookkeeping. Activating
and reloading only save again, and a call about a connection saves what its change does not
record. -/
structure Quiet (m : Manager) (R : String → Option Image → Option Image → Prop)
    (changes : List NmChange) : Prop where
  equivalence : ∀ path, Equivalence (R path)
  profile : ∀ c ∈ changes, ∀ f ∈ c.files, ∀ now before, R f.path now before →
    sameProfile m.lossy now before = true
  again : ∀ uuid call files path, call ∈ [.up uuid, .down uuid, .reload] →
    R path ((m.saves call files).get? path) (files.get? path)
  own : ∀ c ∈ changes, ∀ call files path, call.target = some c.uuid →
    path ∉ c.files.map (·.path) → R path ((m.saves call files).get? path) (files.get? path)

/-- The files of a change as they were, the others as they are. -/
def restoredFile (s₀ : Store) (c : NmChange) (files : SortedMap String Image) (path : String) :
    Option Image :=
  if path ∈ c.files.map (·.path) then s₀.files.get? path else files.get? path

section
variable {m : Manager} {R : String → Option Image → Option Image → Prop}
  {changes : List NmChange} {s₀ : Store} {c : NmChange} {w w' : World}

theorem restoreNmFiles_eq_ok {files : List NmFile} {changed : Bool}
    (hfiles : ∀ f ∈ files, f.before = s₀.files.get? f.path)
    (h : restoreNmFiles files w = (.ok changed, w')) :
    w'.store.connections = w.store.connections ∧ w'.store.active = w.store.active ∧
      ∀ path, w'.store.files.get? path =
        if path ∈ files.map (·.path) then s₀.files.get? path else w.store.files.get? path := by
  induction files generalizing w changed with
  | nil =>
    cases h
    simp
  | cons f rest ih =>
    have hrest : ∀ g ∈ rest, g.before = s₀.files.get? g.path := fun g hg =>
      hfiles g (List.mem_cons_of_mem _ hg)
    have hf := hfiles f List.mem_cons_self
    obtain ⟨now, w₁, hnow, h⟩ := Proc.bind_eq_ok.mp h
    obtain ⟨hnow, hw₁⟩ := ask_eq_ok hnow
    cases hnow
    split at h
    · obtain ⟨_, w₂, hreplace, h⟩ := Proc.bind_eq_ok.mp h
      obtain ⟨_, w₃, hmore, h⟩ := Proc.bind_eq_ok.mp h
      cases h
      have hstore := perform_eq_ok hreplace
      obtain ⟨hconnections, hactive, hpaths⟩ := ih hrest hmore
      have hw₂ : w₂.store = w₁.store.put f.path f.before :=
        (congrArg Prod.snd (Except.ok.inj hstore)).symm
      rw [hconnections, hactive, hw₂, ← hw₁]
      refine ⟨rfl, rfl, fun path => ?_⟩
      rw [hpaths path, hw₂]
      by_cases hmem : path ∈ rest.map (·.path)
      · rw [if_pos hmem, if_pos (by simp only [List.map_cons, List.mem_cons, hmem, or_true])]
      · rw [if_neg hmem]
        by_cases hpath : path = f.path
        · rw [if_pos (by simp [hpath]), hpath, ← hf]
          cases hb : f.before with
          | some image => simp [Store.put]
          | none => simp [Store.put, SortedMap.get?_erase]
        · rw [if_neg (by simpa [hpath] using hmem)]
          cases hb : f.before with
          | some image => simp [Store.put, hpath]
          | none => simp [Store.put, SortedMap.get?_erase, hpath]
    · rename_i hsame
      obtain ⟨hconnections, hactive, hpaths⟩ := ih hrest h
      rw [hconnections, hactive, hw₁]
      refine ⟨rfl, rfl, fun path => ?_⟩
      rw [hpaths path, hw₁]
      by_cases hmem : path ∈ rest.map (·.path)
      · rw [if_pos hmem, if_pos (by simp only [List.map_cons, List.mem_cons, hmem, or_true])]
      · rw [if_neg hmem]
        by_cases hpath : path = f.path
        · rw [if_pos (by simp [hpath]), hpath, ← hf]
          exact not_not.mp hsame
        · rw [if_neg (by simpa [hpath] using hmem)]

theorem restoreFiles_eq_ok (hquiet : Quiet m R changes)
    (hfiles : ∀ f ∈ c.files, f.before = s₀.files.get? f.path)
    (h : restoreFiles m c w = (.ok (), w')) :
    w'.store.connections = w.store.connections ∧ w'.store.active = w.store.active ∧
      ∀ path, R path (w'.store.files.get? path) (restoredFile s₀ c w.store.files path) := by
  obtain ⟨changed, w₁, hrestored, h⟩ := Proc.bind_eq_ok.mp h
  obtain ⟨hconnections, hactive, hpaths⟩ := restoreNmFiles_eq_ok hfiles hrestored
  rw [← hconnections, ← hactive]
  rcases when_eq_ok h with ⟨-, hreload⟩ | ⟨-, rfl⟩
  · obtain ⟨next, hnext, heq⟩ := exec_eq_ok.mp (run_eq_ok hreload)
    cases hnext
    rw [heq]
    refine ⟨rfl, rfl, fun path => ?_⟩
    have hsaved := hquiet.again "" .reload w₁.store.files path (by simp)
    rw [hpaths path] at hsaved
    exact hsaved
  · refine ⟨rfl, rfl, fun path => ?_⟩
    rw [hpaths path]
    exact (hquiet.equivalence _).refl _

theorem setActive_eq_ok {uuid : String} {up : Bool} (hquiet : Quiet m R changes)
    (h : setActive m uuid up w = (.ok (), w')) :
    w'.store.connections = w.store.connections ∧ w'.store.active.contains uuid = up ∧
      (∀ u, u ≠ uuid → w'.store.active.get? u = w.store.active.get? u) ∧
      (up = true → ∃ props, w.store.connections.get? uuid = some props ∧
        m.activates uuid props = true) ∧
      ∀ path, R path (w'.store.files.get? path) (w.store.files.get? path) := by
  unfold setActive at h
  split at h
  · rename_i hup
    subst hup
    obtain ⟨next, hact, heq⟩ := exec_eq_ok.mp (run_eq_ok h)
    simp only [Manager.act] at hact
    split at hact
    · cases hact
    · rename_i props hprops
      simp only [Option.ite_none_right_eq_some] at hact
      obtain ⟨hactivates, hact⟩ := hact
      cases hact
      rw [heq]
      refine ⟨rfl, ?_, ?_, fun _ => ⟨props, hprops, hactivates⟩, fun path => ?_⟩
      · exact (SortedMap.contains_insert ..).mpr (.inl rfl)
      · intro u hu
        simp [hu]
      · exact hquiet.again uuid _ _ path (by simp)
  · rename_i hup
    have hdown : up = false := by simpa using hup
    subst hdown
    obtain ⟨active, w₁, hask, h⟩ := Proc.bind_eq_ok.mp h
    obtain ⟨hactive, hw₁⟩ := ask_eq_ok hask
    have hactive : w.store.active.contains uuid = active := Except.ok.inj hactive
    rcases when_eq_ok h with ⟨-, hrun⟩ | ⟨hno, rfl⟩
    · obtain ⟨next, hact, heq⟩ := exec_eq_ok.mp (run_eq_ok hrun)
      simp only [Manager.act, Option.ite_none_right_eq_some] at hact
      obtain ⟨-, hact⟩ := hact
      cases hact
      rw [heq, hw₁]
      refine ⟨rfl, ?_, ?_, nofun, fun path => ?_⟩
      · simp [SortedMap.contains, SortedMap.get?_erase]
      · intro u hu
        simp [SortedMap.get?_erase, hu]
      · exact hquiet.again uuid _ _ path (by simp)
    · rw [hw₁]
      refine ⟨rfl, ?_, fun _ _ => rfl, nofun, fun path => (hquiet.equivalence _).refl _⟩
      rw [hactive]
      simpa using hno

end

/-! ### One change restored -/

/-- What restoring a change does to the store. -/
structure Restored (m : Manager) (R : String → Option Image → Option Image → Prop) (s₀ : Store)
    (c : NmChange) (s s' : Store) : Prop where
  before : ∀ b, c.before = some b → ∃ props, s.connections.get? c.uuid = some props ∧
    m.accepts c.uuid (override props b) = true ∧
    s'.connections.get? c.uuid = some (override props b) ∧
    (c.active = true → m.activates c.uuid (override props b) = true) ∧
    s'.active.contains c.uuid = c.active
  gone : c.before = none → s'.connections.contains c.uuid = false
  absent : c.before = none → s.connections.contains c.uuid = false →
    s'.active.get? c.uuid = s.active.get? c.uuid
  others : ∀ uuid, uuid ≠ c.uuid → s'.connections.get? uuid = s.connections.get? uuid ∧
    s'.active.get? uuid = s.active.get? uuid
  files : ∀ path, R path (s'.files.get? path) (restoredFile s₀ c s.files path)

section
variable {m : Manager} {R : String → Option Image → Option Image → Prop}
  {changes : List NmChange} {s₀ s s' : Store} {c d : NmChange} {w w' : World}

theorem mismatch_ne_ok {code uuid what : String} {a : Unit} :
    mismatch code uuid what w ≠ (.ok a, w') := by
  intro h
  obtain ⟨_, w₁, -, h⟩ := Proc.bind_eq_ok.mp h
  cases h

/-- Checking changes nothing. -/
theorem differing_eq_ok {uuid : String} {want : Properties} {l wrong : List String}
    (h : differing uuid want l w = (.ok wrong, w')) : w'.store = w.store := by
  induction l generalizing w wrong with
  | nil =>
    cases h
    rfl
  | cons field rest ih =>
    obtain ⟨what, w₁, hwhat, h⟩ := Proc.bind_eq_ok.mp h
    obtain ⟨more, w₂, hmore, h⟩ := Proc.bind_eq_ok.mp h
    cases h
    rw [ih hmore]
    cases hwant : want.get? field with
    | none =>
      rw [readsOtherwise, hwant] at hwhat
      cases hwhat
      rfl
    | some v =>
      rw [readsOtherwise, hwant] at hwhat
      obtain ⟨got, w₃, hgot, hwhat⟩ := Proc.bind_eq_ok.mp hwhat
      cases hwhat
      exact (ask_eq_ok hgot).2

theorem verifyRestored_eq_ok {before : Properties}
    (h : verifyRestored c before w = (.ok (), w')) : w'.store = w.store := by
  obtain ⟨wrong, w₁, hwrong, h⟩ := Proc.bind_eq_ok.mp h
  split at h
  · cases h
    exact differing_eq_ok hwrong
  · exact absurd h mismatch_ne_ok

theorem verifyFiles_eq_ok (h : verifyFiles m c w = (.ok (), w')) : w'.store = w.store := by
  obtain ⟨wrong, w₁, hwrong, h⟩ := Proc.bind_eq_ok.mp h
  split at h
  · cases h
    exact (ask_eq_ok hwrong).2
  · obtain ⟨_, w₂, -, h⟩ := Proc.bind_eq_ok.mp h
    cases h

/-- A call about a connection leaves its change's files to be put back, and the others alone. -/
theorem Quiet.restoredFile_saves (hquiet : Quiet m R changes) (hc : c ∈ changes) {call : Call}
    {files : SortedMap String Image} (htarget : call.target = some c.uuid) (path : String) :
    R path (restoredFile s₀ c (m.saves call files) path) (restoredFile s₀ c files path) := by
  unfold restoredFile
  split
  · exact (hquiet.equivalence path).refl _
  · rename_i hpath
    exact hquiet.own c hc call files path htarget hpath

theorem restoreBefore_eq_ok {b : Properties} (hquiet : Quiet m R changes) (hc : c ∈ changes)
    (hplanned : Planned s₀ c) (hb : c.before = some b)
    (h : restoreBefore m c b w = (.ok (), w')) : Restored m R s₀ c w.store w'.store := by
  obtain ⟨_, w₁, hmodify, h⟩ := Proc.bind_eq_ok.mp h
  obtain ⟨_, w₂, hrestored, h⟩ := Proc.bind_eq_ok.mp h
  obtain ⟨_, w₃, hactive, h⟩ := Proc.bind_eq_ok.mp h
  obtain ⟨_, w₄, hverified, h⟩ := Proc.bind_eq_ok.mp h
  have hw' : w'.store = w₃.store := (verifyFiles_eq_ok h).trans (verifyRestored_eq_ok hverified)
  obtain ⟨hconnections₂, hactive₂, hfiles₂⟩ := restoreFiles_eq_ok hquiet hplanned.files hrestored
  obtain ⟨hconnections₃, hup, hothers, hactivates, hfiles₃⟩ := setActive_eq_ok hquiet hactive
  have hexec := run_eq_ok hmodify
  obtain ⟨next, hact, heq⟩ := exec_eq_ok.mp hexec
  simp only [Manager.act] at hact
  split at hact
  · cases hact
  · rename_i props hprops
    simp only [Option.ite_none_right_eq_some] at hact
    obtain ⟨haccepts, hact⟩ := hact
    cases hact
    have hget : w₁.store.connections.get? c.uuid = some (override props b) := by
      rw [heq]
      simp
    rw [hw']
    constructor
    · intro b' hb'
      cases hb.symm.trans hb'
      refine ⟨props, hprops, haccepts, ?_, fun hisActive => ?_, hup⟩
      · rw [hconnections₃, hconnections₂, hget]
      · obtain ⟨props', hprops', hok⟩ := hactivates hisActive
        rw [hconnections₂, hget] at hprops'
        cases hprops'
        exact hok
    · intro hnone
      cases hb.symm.trans hnone
    · intro hnone
      cases hb.symm.trans hnone
    · intro uuid hne
      obtain ⟨hconnections, hsame⟩ := exec_frame hexec fun ht => hne (Option.some.inj ht).symm
      rw [hconnections₃, hconnections₂, hothers uuid hne, hactive₂]
      exact ⟨hconnections, hsame⟩
    · intro path
      refine (hquiet.equivalence path).trans (hfiles₃ path) ?_
      refine (hquiet.equivalence path).trans (hfiles₂ path) ?_
      rw [heq]
      exact hquiet.restoredFile_saves hc rfl path

theorem removeCreated_eq_ok {present : List String} (hquiet : Quiet m R changes) (hc : c ∈ changes)
    (hplanned : Planned s₀ c) (hb : c.before = none)
    (hpresent : w.store.connections.contains c.uuid = true → present.contains c.uuid = true)
    (h : removeCreated m present c w = (.ok (), w')) : Restored m R s₀ c w.store w'.store := by
  obtain ⟨_, w₁, hdelete, h⟩ := Proc.bind_eq_ok.mp h
  obtain ⟨_, w₂, hrestored, h⟩ := Proc.bind_eq_ok.mp h
  rw [verifyFiles_eq_ok h]
  obtain ⟨hconnections₂, hactive₂, hfiles₂⟩ := restoreFiles_eq_ok hquiet hplanned.files hrestored
  have hbefore : ∀ {P : Properties → Prop} b, c.before = some b → P b := by
    intro P b hsome
    cases hb.symm.trans hsome
  rcases when_eq_ok hdelete with ⟨-, hrun⟩ | ⟨habsent, rfl⟩
  · have hexec := run_eq_ok hrun
    obtain ⟨next, hact, heq⟩ := exec_eq_ok.mp hexec
    simp only [Manager.act, Option.ite_none_right_eq_some] at hact
    obtain ⟨hthere, hact⟩ := hact
    cases hact
    refine ⟨hbefore, fun _ => ?_, fun _ habsent => ?_, fun uuid hne => ?_, fun path => ?_⟩
    · rw [hconnections₂, heq]
      simp [SortedMap.contains, SortedMap.get?_erase]
    · simp [hthere] at habsent
    · rw [hconnections₂, hactive₂]
      exact exec_frame hexec fun ht => hne (Option.some.inj ht).symm
    · refine (hquiet.equivalence path).trans (hfiles₂ path) ?_
      rw [heq]
      exact hquiet.restoredFile_saves hc rfl path
  · refine ⟨hbefore, fun _ => ?_, fun _ _ => ?_, fun uuid hne => ?_, hfiles₂⟩
    · rw [hconnections₂]
      exact Bool.eq_false_iff.mpr fun hcontains => habsent (hpresent hcontains)
    · rw [hactive₂]
    · rw [hconnections₂, hactive₂]
      exact ⟨rfl, rfl⟩

theorem restore_eq_ok {present : List String} (hquiet : Quiet m R changes) (hc : c ∈ changes)
    (hplanned : Planned s₀ c)
    (hpresent : w.store.connections.contains c.uuid = true → present.contains c.uuid = true)
    (h : restore m present c w = (.ok (), w')) : Restored m R s₀ c w.store w'.store := by
  cases hb : c.before with
  | none =>
    rw [restore, hb] at h
    exact removeCreated_eq_ok hquiet hc hplanned hb hpresent h
  | some b =>
    rw [restore, hb] at h
    exact restoreBefore_eq_ok hquiet hc hplanned hb h

theorem Restored.shrinks (h : Restored m R s₀ c s s') {uuid : String}
    (hcontains : s'.connections.contains uuid = true) : s.connections.contains uuid = true := by
  by_cases hne : uuid = c.uuid
  · subst hne
    cases hb : c.before with
    | none => simp [h.gone hb] at hcontains
    | some b =>
      obtain ⟨props, hprops, -⟩ := h.before b hb
      exact Option.isSome_of_eq_some hprops
  · rw [SortedMap.contains, (h.others uuid hne).1] at hcontains
    exact hcontains

end

/-! ### Every change restored -/

/-- All that the plan recorded of a connection is there again. -/
structure Undone (m : Manager) (R : String → Option Image → Option Image → Prop) (c : NmChange)
    (s : Store) : Prop where
  before : ∀ b, c.before = some b → ∃ props, s.connections.get? c.uuid = some props ∧
    override props b = props ∧ m.accepts c.uuid props = true ∧
    (c.active = true → m.activates c.uuid props = true) ∧ s.active.contains c.uuid = c.active
  gone : c.before = none → s.connections.contains c.uuid = false
  files : ∀ f ∈ c.files, R f.path (s.files.get? f.path) f.before

section
variable {m : Manager} {R : String → Option Image → Option Image → Prop}
  {changes : List NmChange} {s₀ s s' : Store} {c d : NmChange} {w w' : World}

theorem restoredFile_own (hplanned : Planned s₀ c) {f : NmFile} (hf : f ∈ c.files)
    (files : SortedMap String Image) : restoredFile s₀ c files f.path = f.before := by
  rw [restoredFile, if_pos (List.mem_map_of_mem hf), hplanned.files f hf]

theorem Restored.undone (hplanned : Planned s₀ c) (h : Restored m R s₀ c s s') :
    Undone m R c s' := by
  refine ⟨fun b hb => ?_, h.gone, fun f hf => ?_⟩
  · obtain ⟨props, -, haccepts, hget, hactivates, hactive⟩ := h.before b hb
    exact ⟨override props b, hget, override_override props b, haccepts, hactivates, hactive⟩
  · have hfile := h.files f.path
    rw [restoredFile_own hplanned hf] at hfile
    exact hfile

/-- Two changes of one connection agree on what it was. -/
theorem Planned.agree (hc : Planned s₀ c) (hd : Planned s₀ d) (huuid : d.uuid = c.uuid) :
    d.before = c.before ∧ d.active = c.active := by
  refine ⟨?_, by rw [hc.active, hd.active, huuid]⟩
  have hcontains : ∀ {e : NmChange} {b : Properties}, Planned s₀ e → e.before = some b →
      s₀.connections.contains e.uuid = true :=
    fun he hb => (nmSnapshot_valid (he.before _ hb)).2
  cases hbc : c.before with
  | none =>
    cases hbd : d.before with
    | none => rfl
    | some b =>
      have hin := hcontains hd hbd
      rw [huuid, hc.fresh hbc] at hin
      cases hin
  | some b =>
    cases hbd : d.before with
    | none =>
      have hin := hcontains hc hbc
      rw [← huuid, hd.fresh hbd] at hin
      cases hin
    | some b' =>
      have hsnap := hd.before b' hbd
      rw [huuid, hc.before b hbc] at hsnap
      cases hsnap
      rfl

/-- Restoring one change leaves the others undone. -/
theorem Undone.kept (hquiet : Quiet m R changes) (hc : Planned s₀ c) (hd : Planned s₀ d)
    (hundone : Undone m R d s) (h : Restored m R s₀ c s s') : Undone m R d s' := by
  have hfiles : ∀ f ∈ d.files, R f.path (s'.files.get? f.path) f.before := by
    intro f hf
    refine (hquiet.equivalence f.path).trans (h.files f.path) ?_
    unfold restoredFile
    split
    · rw [hd.files f hf]
      exact (hquiet.equivalence f.path).refl _
    · exact hundone.files f hf
  by_cases huuid : d.uuid = c.uuid
  · obtain ⟨hbefore, hactive⟩ := hc.agree hd huuid
    have hsame := h.undone hc
    refine ⟨fun b hb => ?_, fun hb => ?_, hfiles⟩
    · rw [huuid, hactive]
      exact hsame.before b (hbefore ▸ hb)
    · rw [huuid]
      exact hsame.gone (hbefore ▸ hb)
  · obtain ⟨hconnections, hactive⟩ := h.others d.uuid huuid
    refine ⟨fun b hb => ?_, fun hb => ?_, hfiles⟩
    · rw [hconnections, SortedMap.contains, hactive]
      exact hundone.before b hb
    · rw [SortedMap.contains, hconnections]
      exact hundone.gone hb

theorem Undone.snapshot (hplanned : Planned s₀ c) (h : Undone m R c s) {b : Properties}
    (hb : c.before = some b) :
    nmSnapshot s c.uuid = .ok b ∧ s.active.contains c.uuid = s₀.active.contains c.uuid := by
  obtain ⟨props, hget, hover, -, -, hactive⟩ := h.before b hb
  exact ⟨nmSnapshot_override (hplanned.before b hb) (hover.symm ▸ hget), hplanned.active ▸ hactive⟩

theorem nmUuids_eq_ok {present : List String} (h : nmUuids s = .ok present) :
    present = s.connections.keys ∧ s.connections.keys.all validUuid = true := by
  unfold nmUuids at h
  split at h
  · rename_i hall
    exact ⟨(Except.ok.inj h).symm, hall⟩
  · cases h

/-- A restore that ends well has undone every change and touched nothing else. -/
theorem restore_undone (hquiet : Quiet m R changes) (hplanned : ∀ c ∈ changes, Planned s₀ c)
    (hwithin : Within s₀ changes w.store) (h : activateNm m changes true w = (.ok (), w')) :
    (∀ c ∈ changes, Undone m R c w'.store) ∧ Within s₀ changes w'.store ∧
      w'.store.connections.keys.all validUuid = true := by
  obtain ⟨present, w₁, huuids, h⟩ := Proc.bind_eq_ok.mp h
  obtain ⟨huuids, hw₁⟩ := ask_eq_ok huuids
  obtain ⟨rfl, hvalid⟩ := nmUuids_eq_ok huuids
  rw [if_pos rfl] at h
  -- the connections only shrink, so those still there were listed at the start
  have hrun := Proc.each_eq_ok (I := fun past w' => (∀ c ∈ past, Undone m R c w'.store) ∧
      Within s₀ changes w'.store ∧
      ∀ uuid, w'.store.connections.contains uuid = true → uuid ∈ w.store.connections.keys)
    (fun past c rest u u' hsplit hi hc => ?_) ⟨nofun, hw₁ ▸ hwithin, fun uuid hin => ?_⟩ h
  · obtain ⟨hundone, hwithin, hlisted⟩ := hrun
    refine ⟨hundone, hwithin, ?_⟩
    rw [List.all_eq_true] at hvalid ⊢
    exact fun uuid hin => hvalid uuid (hlisted uuid (SortedMap.mem_keys_iff.mp hin))
  · obtain ⟨hundone, hwithin, hlisted⟩ := hi
    have hmem : c ∈ changes := by
      rw [hsplit]
      simp
    have hrestored := restore_eq_ok hquiet hmem (hplanned c hmem)
      (fun hin => List.contains_iff_mem.mpr (hlisted c.uuid hin)) hc
    refine ⟨fun d hd => ?_, fun uuid hother => ?_, fun uuid hin =>
      hlisted uuid (hrestored.shrinks hin)⟩
    · rcases List.mem_append.mp hd with hd | hd
      · have hdmem : d ∈ changes := by
          rw [hsplit]
          exact List.mem_append_left _ hd
        exact (hundone d hd).kept hquiet (hplanned c hmem) (hplanned d hdmem) hrestored
      · rw [List.mem_singleton.mp hd]
        exact hrestored.undone (hplanned c hmem)
    · obtain ⟨hconnections, hactive⟩ := hrestored.others uuid fun heq => hother c hmem heq.symm
      rw [hconnections, hactive]
      exact hwithin uuid hother
  · rw [hw₁] at hin
    exact SortedMap.mem_keys_iff.mpr hin

end

/-! ### Restoring again -/

/-- Nothing changed but what NetworkManager itself saves. -/
structure Steady (R : String → Option Image → Option Image → Prop) (s s' : Store) : Prop where
  connections : s'.connections = s.connections
  active : s'.active = s.active
  files : ∀ path, R path (s'.files.get? path) (s.files.get? path)

section
variable {m : Manager} {R : String → Option Image → Option Image → Prop}
  {changes : List NmChange} {s₀ s s' : Store} {c : NmChange}

theorem restoreNmFiles_nil (files : List NmFile) (s : Store) :
    ∃ changed s', restoreNmFiles files ⟨s, []⟩ = (.ok changed, ⟨s', []⟩) := by
  induction files generalizing s with
  | nil => exact ⟨false, s, rfl⟩
  | cons f rest ih =>
    have hnow : snapshotFile f.path ⟨s, []⟩ = (.ok (s.files.get? f.path), ⟨s, []⟩) := ask_nil rfl
    unfold restoreNmFiles
    by_cases hsame : s.files.get? f.path ≠ f.before
    · obtain ⟨changed, s', hrest⟩ := ih (s.put f.path f.before)
      refine ⟨true, s', Proc.bind_eq_ok.mpr ⟨_, _, hnow, ?_⟩⟩
      rw [if_pos hsame]
      refine Proc.bind_eq_ok.mpr ⟨_, _, perform_nil rfl, ?_⟩
      exact Proc.bind_eq_ok.mpr ⟨_, _, hrest, rfl⟩
    · obtain ⟨changed, s', hrest⟩ := ih s
      refine ⟨changed, s', Proc.bind_eq_ok.mpr ⟨_, _, hnow, ?_⟩⟩
      rw [if_neg hsame]
      exact hrest

theorem restoreFiles_nil (m : Manager) (c : NmChange) (s : Store) :
    ∃ s', restoreFiles m c ⟨s, []⟩ = (.ok (), ⟨s', []⟩) := by
  obtain ⟨changed, s', hrest⟩ := restoreNmFiles_nil c.files s
  have hreload : ∃ t, Proc.when (changed = true) (run m .reload) ⟨s', []⟩ = (.ok (), ⟨t, []⟩) := by
    unfold Proc.when
    split
    · exact ⟨_, run_nil s' rfl⟩
    · exact ⟨s', rfl⟩
  obtain ⟨t, ht⟩ := hreload
  exact ⟨t, Proc.bind_eq_ok.mpr ⟨_, _, hrest, ht⟩⟩

theorem setActive_nil {uuid : String} {up : Bool} (h : up = true → ∃ props,
      s.connections.get? uuid = some props ∧ m.activates uuid props = true) :
    ∃ s', setActive m uuid up ⟨s, []⟩ = (.ok (), ⟨s', []⟩) := by
  cases up with
  | true =>
    obtain ⟨props, hget, hactivates⟩ := h rfl
    refine ⟨_, run_nil { s with active := s.active.insert uuid () } ?_⟩
    simp only [Manager.act, hget, if_pos hactivates]
  | false =>
    have hask : isActive uuid ⟨s, []⟩ = (.ok (s.active.contains uuid), ⟨s, []⟩) := ask_nil rfl
    have hdown : ∃ s', Proc.when (s.active.contains uuid = true) (run m (.down uuid)) ⟨s, []⟩ =
        (.ok (), ⟨s', []⟩) := by
      unfold Proc.when
      split
      · rename_i hactive
        refine ⟨_, run_nil { s with active := s.active.erase uuid } ?_⟩
        simp only [Manager.act, if_pos hactive]
      · exact ⟨s, rfl⟩
    obtain ⟨s', hs'⟩ := hdown
    exact ⟨s', Proc.bind_eq_ok.mpr ⟨_, _, hask, hs'⟩⟩

theorem sameValue_self (field v : String) : sameValue field v v = true := by
  unfold sameValue
  split <;> simp

theorem differing_nil {uuid : String} {want : Properties} {l : List String}
    (h : ∀ field ∈ l, ∀ v, want.get? field = some v → nmField s uuid field = .ok v) :
    differing uuid want l ⟨s, []⟩ = (.ok [], ⟨s, []⟩) := by
  induction l with
  | nil => rfl
  | cons field rest ih =>
    have hfield : readsOtherwise uuid want field ⟨s, []⟩ = (.ok none, ⟨s, []⟩) := by
      cases hwant : want.get? field with
      | none =>
        rw [readsOtherwise, hwant]
        rfl
      | some v =>
        rw [readsOtherwise, hwant]
        refine Proc.bind_eq_ok.mpr ⟨v, _, ask_nil (h field List.mem_cons_self v hwant), ?_⟩
        rw [if_pos (sameValue_self field v)]
        rfl
    have hrest := ih fun f hf => h f (List.mem_cons_of_mem _ hf)
    exact Proc.bind_eq_ok.mpr ⟨_, _, hfield, Proc.bind_eq_ok.mpr ⟨_, _, hrest, rfl⟩⟩

theorem verified_subset : verified ⊆ fields := by decide

theorem verifyRestored_nil {b : Properties} (h : nmSnapshot s c.uuid = .ok b) :
    verifyRestored c b ⟨s, []⟩ = (.ok (), ⟨s, []⟩) := by
  refine Proc.bind_eq_ok.mpr ⟨[], _, differing_nil fun field hfield v hv => ?_, rfl⟩
  obtain ⟨v', hv', hread⟩ := (nmSnapshot_eq_ok h).1 field (verified_subset hfield)
  rw [hv] at hv'
  cases hv'
  exact hread

theorem verifyFiles_nil (h : ∀ f ∈ c.files,
      sameProfile m.lossy (s.files.get? f.path) f.before = true) :
    verifyFiles m c ⟨s, []⟩ = (.ok (), ⟨s, []⟩) := by
  have hwrong : c.files.find? (fun file =>
      !sameProfile m.lossy (s.files.get? file.path) file.before) = none := by
    rw [List.find?_eq_none]
    intro f hf
    simp [h f hf]
  refine Proc.bind_eq_ok.mpr ⟨none, _, ask_nil ?_, rfl⟩
  rw [hwrong]

theorem restoreBefore_nil {b : Properties} (hquiet : Quiet m R changes) (hc : c ∈ changes)
    (hplanned : Planned s₀ c) (hb : c.before = some b) (hundone : Undone m R c s) :
    ∃ s', restoreBefore m c b ⟨s, []⟩ = (.ok (), ⟨s', []⟩) := by
  obtain ⟨props, hget, hover, haccepts, hactivates, -⟩ := hundone.before b hb
  have hmodify : ∃ s₁, run m (.modify c.uuid b) ⟨s, []⟩ = (.ok (), ⟨s₁, []⟩) ∧
      s₁.connections.get? c.uuid = some props := by
    refine ⟨_, run_nil { s with connections := s.connections.insert c.uuid props } ?_, by simp⟩
    simp only [Manager.act, hget, hover, if_pos haccepts]
  obtain ⟨s₁, hmodify, hget₁⟩ := hmodify
  obtain ⟨s₂, hrestored⟩ := restoreFiles_nil m c s₁
  obtain ⟨hconnections₂, -, hfiles₂⟩ := restoreFiles_eq_ok hquiet hplanned.files hrestored
  have hget₂ : s₂.connections.get? c.uuid = some props := by
    rw [hconnections₂, hget₁]
  have hup : c.active = true → ∃ props, s₂.connections.get? c.uuid = some props ∧
      m.activates c.uuid props = true := fun hactive => ⟨props, hget₂, hactivates hactive⟩
  obtain ⟨s₃, hactive⟩ := setActive_nil hup
  obtain ⟨hconnections₃, -, -, -, hfiles₃⟩ := setActive_eq_ok hquiet hactive
  have hsnapshot : nmSnapshot s₃ c.uuid = .ok b := by
    refine nmSnapshot_override (hplanned.before b hb) (?_ : _ = some (override props b))
    rw [hconnections₃, hget₂, hover]
  have hfiles : ∀ f ∈ c.files, sameProfile m.lossy (s₃.files.get? f.path) f.before = true := by
    intro f hf
    refine hquiet.profile c hc f hf _ _ ?_
    have hown := hfiles₂ f.path
    rw [restoredFile_own hplanned hf] at hown
    exact (hquiet.equivalence f.path).trans (hfiles₃ f.path) hown
  refine ⟨s₃, Proc.bind_eq_ok.mpr ⟨_, _, hmodify, ?_⟩⟩
  refine Proc.bind_eq_ok.mpr ⟨_, _, hrestored, ?_⟩
  refine Proc.bind_eq_ok.mpr ⟨_, _, hactive, ?_⟩
  exact Proc.bind_eq_ok.mpr ⟨_, _, verifyRestored_nil hsnapshot, verifyFiles_nil hfiles⟩

theorem removeCreated_nil {present : List String} (hquiet : Quiet m R changes) (hc : c ∈ changes)
    (hplanned : Planned s₀ c) (habsent : present.contains c.uuid = false) :
    ∃ s', removeCreated m present c ⟨s, []⟩ = (.ok (), ⟨s', []⟩) := by
  obtain ⟨s', hrestored⟩ := restoreFiles_nil m c s
  obtain ⟨-, -, hfiles⟩ := restoreFiles_eq_ok hquiet hplanned.files hrestored
  have hsame : ∀ f ∈ c.files, sameProfile m.lossy (s'.files.get? f.path) f.before = true := by
    intro f hf
    have hown := hfiles f.path
    rw [restoredFile_own hplanned hf] at hown
    exact hquiet.profile c hc f hf _ _ hown
  refine ⟨s', Proc.bind_eq_ok.mpr ⟨(), ⟨s, []⟩, ?_, ?_⟩⟩
  · rw [Proc.when, if_neg (Bool.eq_false_iff.mp habsent)]
    rfl
  · exact Proc.bind_eq_ok.mpr ⟨_, _, hrestored, verifyFiles_nil hsame⟩

/-- What is undone stays as it is when it is restored once more. -/
theorem Restored.steady (hquiet : Quiet m R changes) (hplanned : Planned s₀ c)
    (hundone : Undone m R c s) (h : Restored m R s₀ c s s') : Steady R s s' := by
  refine ⟨SortedMap.ext fun uuid => ?_, SortedMap.ext fun uuid => ?_, fun path => ?_⟩
  · by_cases huuid : uuid = c.uuid
    · subst huuid
      cases hb : c.before with
      | none =>
        have hgone := h.gone hb
        have hwas := hundone.gone hb
        rw [SortedMap.contains, Option.isSome_eq_false_iff, Option.isNone_iff_eq_none] at hgone hwas
        rw [hgone, hwas]
      | some b =>
        obtain ⟨props, hget, hover, -⟩ := hundone.before b hb
        obtain ⟨props', hget', -, hput, -⟩ := h.before b hb
        cases hget.symm.trans hget'
        rw [hput, hget, hover]
    · exact (h.others uuid huuid).1
  · by_cases huuid : uuid = c.uuid
    · subst huuid
      cases hb : c.before with
      | none => exact h.absent hb (hundone.gone hb)
      | some b =>
        obtain ⟨-, -, -, -, -, hwas⟩ := hundone.before b hb
        obtain ⟨-, -, -, -, -, his⟩ := h.before b hb
        have hsame : (s'.active.get? c.uuid).isSome = (s.active.get? c.uuid).isSome :=
          his.trans hwas.symm
        cases hs : s.active.get? c.uuid <;> cases hs' : s'.active.get? c.uuid <;>
          simp [hs, hs'] at hsame ⊢
    · exact (h.others uuid huuid).2
  · refine (hquiet.equivalence path).trans (h.files path) ?_
    unfold restoredFile
    split
    · rename_i hpath
      obtain ⟨f, hf, rfl⟩ := List.mem_map.mp hpath
      rw [← hplanned.files f hf]
      exact (hquiet.equivalence f.path).symm (hundone.files f hf)
    · exact (hquiet.equivalence path).refl _

theorem Undone.steady (hquiet : Quiet m R changes) (hundone : Undone m R c s)
    (h : Steady R s s') : Undone m R c s' := by
  refine ⟨fun b hb => ?_, fun hb => ?_, fun f hf => ?_⟩
  · rw [h.connections, h.active]
    exact hundone.before b hb
  · rw [h.connections]
    exact hundone.gone hb
  · exact (hquiet.equivalence f.path).trans (h.files f.path) (hundone.files f hf)

theorem Steady.trans (hquiet : Quiet m R changes) {s'' : Store} (h : Steady R s s')
    (h' : Steady R s' s'') : Steady R s s'' :=
  ⟨h'.connections.trans h.connections, h'.active.trans h.active, fun path =>
    (hquiet.equivalence path).trans (h'.files path) (h.files path)⟩

theorem restore_again (hquiet : Quiet m R changes) (hplanned : ∀ c ∈ changes, Planned s₀ c)
    (hundone : ∀ c ∈ changes, Undone m R c s) (hvalid : s.connections.keys.all validUuid = true) :
    ∃ s', activateNm m changes true ⟨s, []⟩ = (.ok (), ⟨s', []⟩) ∧ Steady R s s' := by
  have huuids : ask nmUuids ⟨s, []⟩ = (.ok s.connections.keys, ⟨s, []⟩) := by
    refine ask_nil ?_
    rw [nmUuids, if_pos hvalid]
  have hstart : ∃ t, (⟨s, []⟩ : World) = ⟨t, []⟩ ∧ Steady R s t :=
    ⟨s, rfl, rfl, rfl, fun path => (hquiet.equivalence path).refl _⟩
  have hloop := Proc.each_total (g := restore m s.connections.keys)
    (I := fun w => ∃ t, w = ⟨t, []⟩ ∧ Steady R s t) (fun c (hc : c ∈ changes) w hw => ?_) hstart
  · obtain ⟨w, hrun, s', rfl, hsteady⟩ := hloop
    exact ⟨s', Proc.bind_eq_ok.mpr ⟨_, _, huuids, hrun⟩, hsteady⟩
  · obtain ⟨t, rfl, hsteady⟩ := hw
    have hthere := (hundone c hc).steady hquiet hsteady
    have htotal : ∃ t', restore m s.connections.keys c ⟨t, []⟩ = (.ok (), ⟨t', []⟩) := by
      cases hb : c.before with
      | none =>
        rw [restore, hb]
        refine removeCreated_nil hquiet hc (hplanned c hc) (Bool.eq_false_iff.mpr fun hin => ?_)
        have hin := SortedMap.mem_keys_iff.mp (List.contains_iff_mem.mp hin)
        rw [(hundone c hc).gone hb] at hin
        cases hin
      | some b =>
        rw [restore, hb]
        exact restoreBefore_nil hquiet hc (hplanned c hc) hb hthere
    obtain ⟨t', hrun⟩ := htotal
    have hrestored := restore_eq_ok hquiet hc (hplanned c hc) (fun hin => ?_) hrun
    · exact ⟨_, hrun, t', rfl,
        hsteady.trans hquiet (hrestored.steady hquiet (hplanned c hc) hthere)⟩
    · rw [← hsteady.connections]
      exact List.contains_iff_mem.mpr (SortedMap.mem_keys_iff.mpr hin)

/-- However far an activation came, a restore that ends well puts back what it changed and leaves
nothing for another one to do. -/
theorem restore_undoes {draw : Nat → Result String} {old p : NetworkProfiles} {metadata : Metadata}
    {faults faults' : List Fault} {w : World}
    (hplan : planNm m s₀ draw old p metadata = .ok changes)
    (hdraw : ∀ n u, draw n = .ok u → s₀.connections.contains u = false)
    (hquiet : Quiet m R changes)
    (hrestored : activateNm m changes true
      ⟨(activateNm m changes false ⟨s₀, faults⟩).2.store, faults'⟩ = (.ok (), w)) :
    (∀ c ∈ changes, ∀ b, c.before = some b → nmSnapshot s₀ c.uuid = .ok b ∧
      nmSnapshot w.store c.uuid = .ok b ∧
      w.store.active.contains c.uuid = s₀.active.contains c.uuid) ∧
    (∀ c ∈ changes, c.before = none → w.store.connections.contains c.uuid = false) ∧
    (∀ uuid, (∀ c ∈ changes, c.uuid ≠ uuid) →
      w.store.connections.get? uuid = s₀.connections.get? uuid ∧
      w.store.active.get? uuid = s₀.active.get? uuid) ∧
    (∀ c ∈ changes, ∀ f ∈ c.files,
      R f.path (w.store.files.get? f.path) (s₀.files.get? f.path)) ∧
    ∃ s, activateNm m changes true ⟨w.store, []⟩ = (.ok (), ⟨s, []⟩) ∧ Steady R w.store s := by
  have hplanned := planNm_planned hplan hdraw
  obtain ⟨hundone, hwithin, hvalid⟩ :=
    restore_undone (w := ⟨_, faults'⟩) hquiet hplanned (within_activation faults) hrestored
  refine ⟨fun c hc b hb => ?_, fun c hc => (hundone c hc).gone, hwithin, fun c hc f hf => ?_,
    restore_again hquiet hplanned hundone hvalid⟩
  · exact ⟨(hplanned c hc).before b hb, (hundone c hc).snapshot (hplanned c hc) hb⟩
  · rw [← (hplanned c hc).files f hf]
    exact (hundone c hc).files f hf

end

/-! ### A plan cut off between two commands -/

/-- A manager that accepts everything and saves no file. -/
def obliging : Manager where
  fresh _ interface _ _ := .ofList (fields.map (·, interface))
  accepts _ _ := true
  activates _ _ := true
  saves _ files := files
  filename _ _ := ""
  lossy _ := ""
  exitCode _ := 10

def portUuid : String := "11111111-1111-1111-1111-111111111111"

def rowUuid : String := "22222222-2222-2222-2222-222222222222"

def portStore : Store where
  connections := .singleton portUuid (.ofList (fields.map (·, "auto")))
  active := .singleton portUuid ()

def port : NetworkProfiles := { interface := "eth0", networks := [{ id := "u", name := "U" }] }

def withRow : NetworkProfiles :=
  { port with networks := port.networks ++ [{ id := "v", name := "V", vlanId := some 5 }] }

def adopted : Metadata := { nmParentUuid := some portUuid }

def rowPlan : Result (List NmChange) :=
  planNm obliging portStore (fun _ => .ok rowUuid) port withRow adopted

def rowChanges : List NmChange := rowPlan.toOption.getD []

/-- The port is rewritten and the VLAN added when the crash comes. -/
def cutOff : World :=
  (activateNm obliging rowChanges false ⟨portStore, List.replicate 14 .pass ++ [.crash]⟩).2

def putBack : Outcome ApiError Unit × World := activateNm obliging rowChanges true ⟨cutOff.store, []⟩

theorem cutOff_undone :
    (∀ c ∈ rowChanges, c.before = none → putBack.2.store.connections.contains c.uuid = false) ∧
    ∃ s, activateNm obliging rowChanges true ⟨putBack.2.store, []⟩ = (.ok (), ⟨s, []⟩) ∧
      Steady (fun _ => Eq) putBack.2.store s := by
  have hplan : planNm obliging portStore (fun _ => .ok rowUuid) port withRow adopted =
      .ok rowChanges := by
    have hok : rowPlan.isOk = true := by decide +kernel
    change rowPlan = .ok (rowPlan.toOption.getD [])
    cases h : rowPlan with
    | ok changes => rfl
    | error e =>
      rw [h] at hok
      cases hok
  have hnofiles : ∀ c ∈ rowChanges, c.files = [] := by decide +kernel
  have hquiet : Quiet obliging (fun _ => Eq) rowChanges := by
    refine ⟨fun _ => eq_equivalence, fun c hc f hf => ?_, fun _ _ _ _ _ => rfl,
      fun _ _ _ _ _ _ _ => rfl⟩
    rw [hnofiles c hc] at hf
    cases hf
  have hdraw : ∀ (n : Nat) u, (fun _ => .ok rowUuid : Nat → Result String) n = .ok u →
      portStore.connections.contains u = false := by
    intro n u hu
    cases hu
    decide +kernel
  have hok : putBack.1 = .ok () := by decide +kernel
  have hback : putBack = (.ok (), putBack.2) := by rw [← hok]
  unfold putBack at hback ⊢
  unfold cutOff at hback ⊢
  obtain ⟨-, hgone, -, -, hagain⟩ := restore_undoes hplan hdraw hquiet hback
  exact ⟨hgone, hagain⟩

end NdimonR.Backend.NetworkManager
