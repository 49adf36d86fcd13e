import NdimonR.State.Plan
import NdimonR.Types.Validation

/-! What a plan's paths say about two documents: they name every section that changed, except
plugin sections that differ only by members whose value is null. -/

namespace NdimonR.State

open NdimonR.Types Json

/-- The section a path lies in. -/
def root (path : String) : String := String.ofList (path.toList.takeWhile (· ≠ '.'))

theorem root_member (path key : String) : root s!"{path}.{key}" = root path := by
  have happ : (s!"{path}.{key}").toList = path.toList ++ '.' :: key.toList := by
    simp [String.toList_append, toString]
  unfold root
  rw [happ, List.takeWhile_append]
  split
  · rename_i h
    have hwhole := (List.takeWhile_sublist (fun c => decide (c ≠ '.'))).eq_of_length h
    rw [hwhole]
    simp
  · rfl

theorem diff_root (path : String) (a b : Json) : ∀ p ∈ diff path a b, root p = root path := by
  fun_induction diff path a b with
  | case1 => simp
  | case2 path xs ys _ ih =>
    intro p hp
    obtain ⟨key, _, hp⟩ := List.mem_flatMap.mp hp
    rw [ih key p hp, root_member]
  | case3 => simp

theorem mem_key_union (xs ys : List (String × Json)) (k : String) :
    k ∈ (SortedMap.ofList ((xs ++ ys).map fun e => (e.1, ()))).keys ↔
      k ∈ xs.map Prod.fst ∨ k ∈ ys.map Prod.fst := by
  rw [SortedMap.mem_keys_ofList]
  simp

theorem member_of_not_key {members : List (String × Json)} {k : String}
    (h : k ∉ members.map Prod.fst) : member k (.obj members) = .null := by
  rw [member, SortedMap.lookup_eq_none_iff.mpr h]
  rfl

theorem pruneNull_eq_obj {j : Json} {members : List (String × Json)}
    (h : j.pruneNull = .obj members) : ∃ ms, j = .obj ms := by
  cases j with
  | obj ms => exact ⟨ms, rfl⟩
  | null | bool | int | float | str | arr => cases h

theorem pruneNull_of_not_obj {j : Json} (h : ∀ ms, j ≠ .obj ms) : j.pruneNull = j := by
  cases j with
  | obj ms => exact absurd rfl (h ms)
  | null | bool | int | float | str | arr => rfl

/-- A comparison is silent exactly on values that agree once null members are removed. -/
theorem diff_eq_nil_iff (path : String) (a b : Json) (ha : a.canonical = true)
    (hb : b.canonical = true) : diff path a b = [] ↔ a.pruneNull = b.pruneNull := by
  fun_induction diff path a b with
  | case1 => simp
  | case2 path xs ys hne ih =>
    have hx := (canonical_obj_iff.mp ha).1
    have hy := (canonical_obj_iff.mp hb).1
    rw [pruneNull_obj_eq_iff hx hy, List.flatMap_eq_nil_iff]
    constructor
    · intro h k
      by_cases hk : k ∈ (SortedMap.ofList ((xs ++ ys).map fun e => (e.1, ()))).keys
      · exact (ih k (member_canonical ha k) (member_canonical hb k)).mp (h k hk)
      · rw [mem_key_union, not_or] at hk
        rw [member_of_not_key hk.1, member_of_not_key hk.2]
    · intro h k _
      exact (ih k (member_canonical ha k) (member_canonical hb k)).mpr (h k)
  | case3 path a b hne hobj =>
    refine ⟨fun h => by simp at h, fun h => ?_⟩
    by_cases hxs : ∃ xs, a = .obj xs
    · obtain ⟨xs, rfl⟩ := hxs
      obtain ⟨ys, rfl⟩ := pruneNull_eq_obj h.symm
      exact absurd rfl (hobj xs ys rfl)
    · have hys : ∀ ys, b ≠ .obj ys := by
        rintro ys rfl
        exact hxs (pruneNull_eq_obj h)
      rw [pruneNull_of_not_obj (fun xs hx => hxs ⟨xs, hx⟩), pruneNull_of_not_obj hys] at h
      exact absurd h hne

/-- The value under a registered name, section by section. -/
def sectionJson (s : DesiredState) : Domain → Value
  | .device => deviceJson s.device
  | .outputs => ofMap natKey outputJson s.outputs
  | .ndi => ndiJson s.ndi
  | .audio => audioJson s.audio
  | .network => networkProfilesJson s.network
  | .tessera => ofOption tesseraJson s.tessera
  | .display => displayJson s.display
  | .presets => ofMap id presetJson s.presets
  | .plugins => ofMap id pluginStateJson s.plugins

theorem member_desiredStateJson (s : DesiredState) (d : Domain) :
    (desiredStateJson s).member (domainName d) = sectionJson s d := by
  have hkeys : (desiredStateFields.map Prod.fst).Nodup := by decide
  have hm := Value.member_object (hkeys.sublist (keys_filterMap_sublist desiredStateFields s))
    (domainName d)
  refine hm.trans ?_
  cases d <;> simp [desiredStateFields, present, SortedMap.lookup, domainName, sectionJson]

/-- Two documents agree on a section. -/
def sameSection (a b : DesiredState) : Domain → Prop
  | .device => a.device = b.device
  | .outputs => a.outputs = b.outputs
  | .ndi => a.ndi = b.ndi
  | .audio => a.audio = b.audio
  | .network => a.network = b.network
  | .tessera => a.tessera = b.tessera
  | .display => a.display = b.display
  | .presets => a.presets = b.presets
  | .plugins => a.plugins = b.plugins

instance (a b : DesiredState) : (d : Domain) → Decidable (sameSection a b d)
  | .device => inferInstanceAs (Decidable (a.device = b.device))
  | .outputs => inferInstanceAs (Decidable (a.outputs = b.outputs))
  | .ndi => inferInstanceAs (Decidable (a.ndi = b.ndi))
  | .audio => inferInstanceAs (Decidable (a.audio = b.audio))
  | .network => inferInstanceAs (Decidable (a.network = b.network))
  | .tessera => inferInstanceAs (Decidable (a.tessera = b.tessera))
  | .display => inferInstanceAs (Decidable (a.display = b.display))
  | .presets => inferInstanceAs (Decidable (a.presets = b.presets))
  | .plugins => inferInstanceAs (Decidable (a.plugins = b.plugins))

theorem section_diff_eq_nil_iff (a b : DesiredState) (d : Domain) :
    sectionDiff a b d = [] ↔ (sectionJson a d).prune = (sectionJson b d).prune := by
  have value (s : DesiredState) :
      (desiredStateJson s).val.member (domainName d) = (sectionJson s d).val := by
    rw [← Value.val_member, member_desiredStateJson]
  rw [sectionDiff, value a, value b]
  exact diff_eq_nil_iff _ _ _ (sectionJson a d).property (sectionJson b d).property

/-- Outside the plugins, sections whose values agree up to null members are the same. -/
theorem same_of_prune_eq {a b : DesiredState} {d : Domain} (hd : d ≠ .plugins)
    (h : (sectionJson a d).prune = (sectionJson b d).prune) : sameSection a b d := by
  cases d with
  | device => exact device_faithful.inj _ _ h
  | outputs => exact (ofMap_faithful natKey_injective output_faithful (record_solid _)).inj _ _ h
  | ndi => exact ndi_faithful.inj _ _ h
  | audio => exact audio_faithful.inj _ _ h
  | network => exact network_profiles_faithful.inj _ _ h
  | tessera => exact (ofOption_faithful tessera_faithful (record_solid _)).inj _ _ h
  | display => exact display_faithful.inj _ _ h
  | presets =>
    exact (ofMap_faithful Function.injective_id preset_faithful (record_solid _)).inj _ _ h
  | plugins => exact absurd rfl hd

theorem prune_eq_of_same {a b : DesiredState} {d : Domain} (h : sameSection a b d) :
    (sectionJson a d).prune = (sectionJson b d).prune := by
  cases d <;> simp only [sameSection] at h <;> simp only [sectionJson, h]

/-- Plugin sections that become equal once null members are left out, and are not equal. -/
def differOnlyByNulls (a b : SortedMap String PluginState) : Prop :=
  a ≠ b ∧ (ofMap id pluginStateJson a).prune = (ofMap id pluginStateJson b).prune

instance (a b : SortedMap String PluginState) : Decidable (differOnlyByNulls a b) :=
  inferInstanceAs (Decidable (_ ∧ _))

theorem section_diff_silent_iff (a b : DesiredState) (d : Domain) :
    (sectionDiff a b d = [] ∧ ¬ sameSection a b d) ↔
      d = .plugins ∧ differOnlyByNulls a.plugins b.plugins := by
  rw [section_diff_eq_nil_iff]
  constructor
  · rintro ⟨hp, hs⟩
    by_cases hd : d = .plugins
    · subst hd
      exact ⟨rfl, hs, hp⟩
    · exact absurd (same_of_prune_eq hd hp) hs
  · rintro ⟨rfl, hne, hp⟩
    exact ⟨hp, hne⟩

theorem collect_all_spec {Action : Type} {planner : Planner Action} {a b : DesiredState}
    {command : Command} {l : List Domain} {acc out : Collected Action}
    (h : collectAll planner a b command acc l = .ok out) :
    out.paths = acc.paths ++ l.flatMap (sectionDiff a b) ∧
      out.domains = acc.domains ++ l.filter (involved a b command) := by
  induction l generalizing acc with
  | nil =>
    simp only [collectAll, Except.ok.injEq] at h
    subst h
    simp
  | cons d rest ih =>
    simp only [collectAll] at h
    cases hc : collect planner a b command acc d with
    | error e => simp [hc] at h
    | ok mid =>
      rw [hc] at h
      obtain ⟨hpaths, hdomains⟩ := ih h
      unfold collect at hc
      split at hc
      · rename_i hinv
        cases hp : planner.plan d a b command with
        | error e => simp [hp] at hc
        | ok contribution =>
          simp only [hp, Except.ok.injEq] at hc
          subst hc
          simp [hpaths, hdomains, hinv]
      · rename_i hinv
        simp only [Except.ok.injEq] at hc
        subst hc
        simp [hpaths, hdomains, hinv]

/-- A plan lists the differences of every section in planning order, and the involved domains. -/
theorem plan_spec {Action : Type} {planner : Planner Action} {a b : DesiredState}
    {command : Command} {p : Plan Action} (h : plan planner a b command = .ok p) :
    p.paths = (planningOrder command).flatMap (sectionDiff a b) ∧
      p.domains = (planningOrder command).filter (involved a b command) := by
  unfold plan at h
  cases hc : collectAll planner a b command {} (planningOrder command) with
  | error e => simp [hc] at h
  | ok acc =>
    simp only [hc, Except.ok.injEq] at h
    subst h
    simpa using collect_all_spec hc

/-- Planning fails only where a domain's planner does. -/
theorem plan_total {Action : Type} (planner : Planner Action)
    (h : ∀ d a b command, ∃ c, planner.plan d a b command = .ok c) (a b : DesiredState)
    (command : Command) : ∃ p, plan planner a b command = .ok p := by
  have step (acc : Collected Action) (d : Domain) :
      ∃ out, collect planner a b command acc d = .ok out := by
    obtain ⟨c, hc⟩ := h d a b command
    unfold collect
    split
    · exact ⟨_, by rw [hc]⟩
    · exact ⟨_, rfl⟩
  have loop (l : List Domain) : ∀ acc, ∃ out, collectAll planner a b command acc l = .ok out := by
    induction l with
    | nil => exact fun acc => ⟨acc, rfl⟩
    | cons d rest ih =>
      intro acc
      obtain ⟨mid, hmid⟩ := step acc d
      simpa [collectAll, hmid] using ih mid
  obtain ⟨out, hout⟩ := loop (planningOrder command) {}
  exact ⟨_, by rw [plan, hout]⟩

theorem mem_planning_order (command : Command) (d : Domain) : d ∈ planningOrder command := by
  have hreg : d ∈ registry := by cases d <;> decide
  unfold planningOrder
  split
  · exact (List.perm_insertionSort _ registry).mem_iff.mpr hreg
  · exact hreg

theorem domain_name_injective : Function.Injective domainName := by
  intro a b h
  cases a <;> cases b <;> first | rfl | simp [domainName] at h

theorem root_domain_name (d : Domain) : root (domainName d) = domainName d := by
  cases d <;> decide

theorem path_under_iff {Action : Type} {planner : Planner Action} {a b : DesiredState}
    {command : Command} {p : Plan Action} (h : plan planner a b command = .ok p) (d : Domain) :
    (∃ path ∈ p.paths, root path = domainName d) ↔ sectionDiff a b d ≠ [] := by
  rw [(plan_spec h).1]
  constructor
  · rintro ⟨path, hp, hr⟩
    obtain ⟨e, _, hin⟩ := List.mem_flatMap.mp hp
    have hroot := diff_root _ _ _ path hin
    rw [root_domain_name, hr] at hroot
    obtain rfl := domain_name_injective hroot
    exact List.ne_nil_of_mem hin
  · intro hne
    obtain ⟨path, hin⟩ := List.exists_mem_of_ne_nil _ hne
    refine ⟨path, List.mem_flatMap.mpr ⟨d, mem_planning_order command d, hin⟩, ?_⟩
    rw [diff_root _ _ _ path hin, root_domain_name]

/-- A plan without paths takes the runtime-only branch, which discards the candidate document. -/
def runtimeOnly {Action : Type} (p : Plan Action) : Bool := p.paths.isEmpty

/-- The plan shows every change: it has a path under a domain exactly when that section
differs, the domain is then planned, and no change takes the runtime-only branch. -/
structure Detects {Action : Type} (a b : DesiredState) (p : Plan Action) : Prop where
  paths : ∀ d, (∃ path ∈ p.paths, root path = domainName d) ↔ ¬ sameSection a b d
  domains : ∀ d, ¬ sameSection a b d → d ∈ p.domains
  persisted : (∃ d, ¬ sameSection a b d) → runtimeOnly p = false

/-- Planning detects every change unless the plugin sections differ only by null members. -/
theorem plan_detects_iff {Action : Type} (planner : Planner Action) (previous next : DesiredState)
    (command : Command) (p : Plan Action) (h : plan planner previous next command = .ok p) :
    Detects previous next p ↔ ¬ differOnlyByNulls previous.plugins next.plugins := by
  constructor
  · intro hd hnull
    obtain ⟨hnil, hne⟩ := (section_diff_silent_iff previous next .plugins).mpr ⟨rfl, hnull⟩
    exact (path_under_iff h .plugins).mp ((hd.paths .plugins).mpr hne) hnil
  · intro hnull
    have hdiff : ∀ d, sectionDiff previous next d ≠ [] ↔ ¬ sameSection previous next d := by
      intro d
      constructor
      · intro hne hs
        exact hne ((section_diff_eq_nil_iff _ _ _).mpr (prune_eq_of_same hs))
      · intro hs hnil
        exact hnull ((section_diff_silent_iff _ _ _).mp ⟨hnil, hs⟩).2
    refine ⟨fun d => (path_under_iff h d).trans (hdiff d), fun d hs => ?_, ?_⟩
    · rw [(plan_spec h).2]
      refine List.mem_filter.mpr ⟨mem_planning_order command d, ?_⟩
      have := (hdiff d).mpr hs
      simp [involved, this]
    · rintro ⟨d, hs⟩
      obtain ⟨path, hin, _⟩ := (path_under_iff h d).mpr ((hdiff d).mpr hs)
      simpa [runtimeOnly] using List.ne_nil_of_mem hin

/-- A document with one installed plugin holding the given data. -/
def withPluginData (data : SortedMap String Value) : DesiredState :=
  { plugins := .singleton "hello"
      { installed := true
        enabled := true
        version := "1.0.0"
        state := some data } }

def nullData : SortedMap String Value := .singleton "message" .null

/-- Plugin data has no action of its own; the other planners do not run for it. -/
def pluginDataPlanner : Planner Unit where
  plan _ _ _ _ := .ok {}
  actionsText _ := "[]"
  interruptionText i := i.target
  digest _ _ _ _ context := String.join context

theorem null_data_differs_only_by_null :
    differOnlyByNulls (withPluginData .empty).plugins (withPluginData nullData).plugins := by
  decide +kernel

/-- Setting a null member where there was none passes every check and leaves no path, so the
accepted data is never written. -/
theorem null_plugin_data_is_not_planned :
    validate (fun _ => 0) (withPluginData .empty) = .ok () ∧
      validate (fun _ => 0) (withPluginData nullData) = .ok () ∧
      ∃ p, plan pluginDataPlanner (withPluginData .empty) (withPluginData nullData)
          (.setPluginData "hello" nullData) = .ok p ∧
        runtimeOnly p = true ∧ ¬ Detects (withPluginData .empty) (withPluginData nullData) p := by
  refine ⟨by rfl, by rfl, ?_⟩
  obtain ⟨p, hp⟩ := plan_total pluginDataPlanner (fun _ _ _ _ => ⟨{}, rfl⟩)
    (withPluginData .empty) (withPluginData nullData) (.setPluginData "hello" nullData)
  obtain ⟨hne, hprune⟩ := null_data_differs_only_by_null
  have hnil : p.paths = [] := by
    rw [(plan_spec hp).1, List.flatMap_eq_nil_iff]
    intro d _
    rw [section_diff_eq_nil_iff]
    cases d with
    | plugins => exact hprune
    | device | outputs | ndi | audio | network | tessera | display | presets => rfl
  refine ⟨p, hp, by simp [runtimeOnly, hnil], fun hd => ?_⟩
  have := hd.persisted ⟨.plugins, hne⟩
  simp [runtimeOnly, hnil] at this

/-- The criterion on data whose new member is not null. -/
theorem plugin_data_is_planned :
    ∃ p, plan pluginDataPlanner (withPluginData .empty)
        (withPluginData (.singleton "message" (.str "hi")))
        (.setPluginData "hello" (.singleton "message" (.str "hi"))) = .ok p ∧
      (Detects (withPluginData .empty) (withPluginData (.singleton "message" (.str "hi"))) p ↔
        ¬ differOnlyByNulls (withPluginData .empty).plugins
          (withPluginData (.singleton "message" (.str "hi"))).plugins) := by
  obtain ⟨p, hp⟩ := plan_total pluginDataPlanner (fun _ _ _ _ => ⟨{}, rfl⟩)
    (withPluginData .empty) (withPluginData (.singleton "message" (.str "hi")))
    (.setPluginData "hello" (.singleton "message" (.str "hi")))
  exact ⟨p, hp, plan_detects_iff _ _ _ _ p hp⟩

end NdimonR.State
