import NdimonR.Backend.NetworkdDocument
import NdimonR.Library.Outcome

/-! What the reader makes of the sections of a file: lists and metrics key by key, gateways
section by section. -/

namespace NdimonR.Backend.Networkd

open Types Text Engine Backend

/-! ### The sections of a text -/

/-- The settings before the first header, then the sections. -/
def readSections : List String → List Assignment × List Section
  | [] => ([], [])
  | line :: rest =>
    if isHeader line then ([], ⟨headerName line, (readSections rest).1⟩ :: (readSections rest).2)
    else
      match splitOnce "=" line with
      | none => readSections rest
      | some (k, v) => ((trim k, trim v) :: (readSections rest).1, (readSections rest).2)

def sections (text : String) : List Section := (readSections (settings text)).2

theorem iniLines_sections {«section» : String} {ls : List String} {es : List Entry}
    (h : iniLines «section» ls = .ok es) :
    es = (readSections ls).1.map (fun a => ⟨«section», a.1, a.2⟩) ++
      (readSections ls).2.flatMap Section.entries := by
  induction ls generalizing «section» es with
  | nil =>
    cases h
    rfl
  | cons line rest ih =>
    unfold iniLines at h
    unfold readSections
    by_cases hcontinued : endsWith (· == '\\') line = true
    · simp [hcontinued] at h
    · rw [if_neg hcontinued] at h
      by_cases hheader : isHeader line = true
      · rw [if_pos hheader] at h ⊢
        obtain ⟨more, hmore, he⟩ := Outcome.bind_eq_ok.mp h
        cases he
        rw [ih hmore]
        simp [Section.entries]
      · rw [if_neg hheader] at h ⊢
        cases hsplit : splitOnce "=" line with
        | none => simp [hsplit] at h
        | some pair =>
          rw [hsplit] at h
          obtain ⟨more, hmore, he⟩ := Outcome.bind_eq_ok.mp h
          cases he
          rw [ih hmore]
          simp

/-! ### What one setting does -/

/-- A setting no part of the row depends on. -/
structure Silent (e : Entry) : Prop where
  address : ¬ (e.section ∈ ["Network", "Address"] ∧ e.key = "Address")
  gateway : ¬ (e.section ∈ ["Network"] ∧ e.key = "Gateway")
  dns : ¬ (e.section ∈ ["Network"] ∧ e.key = "DNS")
  domains : ¬ (e.section ∈ ["Network"] ∧ e.key = "Domains")
  dhcp : ¬ (e.section ∈ ["Network"] ∧ e.key = "DHCP")
  metric : e.section ∈ ["DHCPv4", "DHCP"] ∧ e.key = "RouteMetric" → e.value = ""
  route : e.section = "Route" → e.value = ""

theorem silent_of_section {e : Entry}
    (h : e.section ∉ ["Network", "Address", "DHCPv4", "DHCP", "Route"]) : Silent e := by
  simp only [List.mem_cons, List.not_mem_nil, or_false, not_or] at h
  constructor <;> simp [h]

theorem silent_of_key {e : Entry}
    (h : e.key ∉ ["Address", "Gateway", "DNS", "Domains", "DHCP", "RouteMetric"])
    (hroute : e.section ≠ "Route") : Silent e := by
  simp only [List.mem_cons, List.not_mem_nil, or_false, not_or] at h
  constructor <;> simp [h, hroute]

inductive Effect (st : State) (e : Entry) : State → Prop
  | address : e.section ∈ ["Network", "Address"] → e.key = "Address" →
      Effect st e { st with addresses := resetList st.addresses e.value }
  | gateway : e.section ∈ ["Network"] → e.key = "Gateway" →
      Effect st e { st with gateways := resetList st.gateways e.value }
  | dns : e.section ∈ ["Network"] → e.key = "DNS" →
      Effect st e { st with dns := resetList st.dns e.value }
  | domains : e.section ∈ ["Network"] → e.key = "Domains" →
      Effect st e { st with domains := resetList st.domains e.value }
  | dhcp {dhcp : Bool} : e.section ∈ ["Network"] → e.key = "DHCP" → dhcpSetting e.value = .ok dhcp →
      Effect st e { st with dhcp }
  | metric {metric : Nat} : e.section ∈ ["DHCPv4", "DHCP"] → e.key = "RouteMetric" →
      e.value ≠ "" → parseUnsigned u32Max e.value = some metric →
      Effect st e { st with dhcpMetric := metric }
  | route : e.section = "Route" → e.value ≠ "" →
      Effect st e { st with route := st.route.insert e.key e.value }
  | silent : Silent e → Effect st e st

theorem setting_effect {st st' : State} {e : Entry}
    (hv : ¬ (e.value = "" ∧ e.section ≠ "Network" ∧ e.section ≠ "Address"))
    (h : setting st e = .ok st') : Effect st e st' := by
  have hforgotten : ∀ {key : String}, e.section = "Network" → e.key = key →
      key ∉ ["Address", "Gateway", "DNS", "Domains", "DHCP", "RouteMetric"] → Silent e := by
    intro key hs hk hkey
    exact silent_of_key (by rwa [hk]) (by simp [hs])
  unfold setting at h
  extract_lets s k v dhcpSection at h
  rcases ite_eq_iff.mp h with ⟨hs, h⟩ | ⟨-, h⟩
  · cases h
    apply Effect.silent
    apply silent_of_section
    rcases hs with hs | ⟨hs, -⟩ <;> simp [show e.section = _ from hs]
  rcases ite_eq_iff.mp h with ⟨hs, h⟩ | ⟨hdhcp, h⟩
  · obtain ⟨dhcp, hdhcp, h⟩ := Outcome.bind_eq_ok.mp h
    cases h
    exact .dhcp (List.mem_singleton.mpr hs.1) hs.2 hdhcp
  rcases ite_eq_iff.mp h with ⟨hs, h⟩ | ⟨haddress, h⟩
  · cases h
    exact .address (by simpa using hs.1) hs.2
  rcases ite_eq_iff.mp h with ⟨hs, h⟩ | ⟨hgateway, h⟩
  · cases h
    exact .gateway (List.mem_singleton.mpr hs.1) hs.2
  rcases ite_eq_iff.mp h with ⟨hs, h⟩ | ⟨hdns, h⟩
  · cases h
    exact .dns (List.mem_singleton.mpr hs.1) hs.2
  rcases ite_eq_iff.mp h with ⟨hs, h⟩ | ⟨hdomains, h⟩
  · cases h
    exact .domains (List.mem_singleton.mpr hs.1) hs.2
  -- The keys of [Network] that are accepted and forgotten.
  rcases ite_eq_iff.mp h with ⟨⟨hs, hk, -⟩, h⟩ | ⟨-, h⟩
  · cases h
    exact .silent (hforgotten hs hk (by simp))
  rcases ite_eq_iff.mp h with ⟨⟨hs, hk, -⟩, h⟩ | ⟨-, h⟩
  · cases h
    exact .silent (hforgotten hs hk (by simp))
  rcases ite_eq_iff.mp h with ⟨⟨hs, hk, -⟩, h⟩ | ⟨-, h⟩
  · cases h
    exact .silent (hforgotten hs hk (by simp))
  rcases ite_eq_iff.mp h with ⟨⟨hs, hk, -⟩, h⟩ | ⟨-, h⟩
  · cases h
    exact .silent (hforgotten hs hk (by simp))
  rcases ite_eq_iff.mp h with ⟨⟨hs, hk⟩, h⟩ | ⟨hmetric, h⟩
  · have hne : e.value ≠ "" := by
      intro hempty
      apply hv
      rcases hs with hs | hs <;> simp [hempty, show e.section = _ from hs]
    cases hparse : parseUnsigned u32Max v with
    | none => simp [hparse] at h
    | some metric =>
      simp only [hparse] at h
      cases h
      exact .metric (by simpa using hs) hk hne hparse
  rcases ite_eq_iff.mp h with ⟨⟨hs, hk, -⟩, h⟩ | ⟨-, h⟩
  · cases h
    apply Effect.silent
    apply silent_of_key
    · have hkey : e.key ∈ ["UseDNS", "UseRoutes", "UseNTP", "UseHostname"] := hk
      simp only [List.mem_cons, List.not_mem_nil, or_false] at hkey
      rcases hkey with hkey | hkey | hkey | hkey <;> simp [hkey]
    · rcases hs with hs | hs <;> simp [show e.section = _ from hs]
  rcases ite_eq_iff.mp h with ⟨⟨hs, hk, -⟩, h⟩ | ⟨-, h⟩
  · cases h
    apply Effect.silent
    apply silent_of_key
    · simp [show e.key = _ from hk]
    · rcases hs with hs | hs <;> simp [show e.section = _ from hs]
  rcases ite_eq_iff.mp h with ⟨hs, h⟩ | ⟨hroute, h⟩
  · cases h
    apply Effect.route hs
    intro hempty
    apply hv
    simp [hempty, show e.section = _ from hs]
  rcases ite_eq_iff.mp h with ⟨-, h⟩ | ⟨-, h⟩
  · cases h
  rcases ite_eq_iff.mp h with ⟨-, h⟩ | ⟨-, h⟩
  · cases h
  rcases ite_eq_iff.mp h with ⟨hempty, h⟩ | ⟨-, h⟩
  · cases h
    exact .silent
      { address := fun ⟨hs, hk⟩ => haddress ⟨by simpa using hs, hk⟩
        gateway := fun ⟨hs, hk⟩ => hgateway ⟨List.mem_singleton.mp hs, hk⟩
        dns := fun ⟨hs, hk⟩ => hdns ⟨List.mem_singleton.mp hs, hk⟩
        domains := fun ⟨hs, hk⟩ => hdomains ⟨List.mem_singleton.mp hs, hk⟩
        dhcp := fun ⟨hs, hk⟩ => hdhcp ⟨List.mem_singleton.mp hs, hk⟩
        metric := fun _ => hempty
        route := fun _ => hempty }
  · cases h

theorem step_effect {st st' : State} {e : Entry} (hk : e.key ≠ "") (h : step st e = .ok st') :
    Effect st e st' := by
  unfold step at h
  rw [if_neg hk] at h
  by_cases hv : e.value = "" ∧ e.section ≠ "Network" ∧ e.section ≠ "Address"
  · rw [if_pos hv] at h
    cases h
    obtain ⟨hempty, hnetwork, haddress⟩ := hv
    refine .silent ⟨?_, ?_, ?_, ?_, ?_, fun _ => hempty, fun _ => hempty⟩ <;>
      simp [hnetwork, haddress]
  · rw [if_neg hv] at h
    exact setting_effect hv h

/-- Ending a [Route] section appends its gateway, if the section set anything. -/
theorem finish_cases {st c : State} (h : finish st = .ok c) :
    (st.route.isEmpty = true ∧ c = st) ∨
      ∃ gateway metric, st.route.isEmpty = false ∧ st.route.get? "Gateway" = some gateway ∧
        c = { st with
          gateways := st.gateways ++ [gateway], staticMetric := metric, route := .empty } := by
  unfold finish at h
  rcases ite_eq_iff.mp h with ⟨hempty, h⟩ | ⟨hset, h⟩
  · cases h
    exact .inl ⟨hempty, rfl⟩
  rcases ite_eq_iff.mp h with ⟨-, h⟩ | ⟨-, h⟩
  · cases h
  rcases ite_eq_iff.mp h with ⟨-, h⟩ | ⟨-, h⟩
  · cases h
  cases hgateway : st.route.get? "Gateway" with
  | none => simp [hgateway] at h
  | some gateway =>
    simp only [hgateway] at h
    obtain ⟨metric, -, h⟩ := Outcome.bind_eq_ok.mp h
    cases h
    exact .inr ⟨gateway, metric, by simpa using hset, rfl, rfl⟩

theorem step_cases {st st' : State} {e : Entry} (h : step st e = .ok st') :
    (e.key ≠ "" ∧ Effect st e st') ∨
      (e.key = "" ∧ ∃ c, closed st = .ok c ∧ st' = { c with last := e.section }) := by
  by_cases hk : e.key = ""
  · unfold step at h
    rw [if_pos hk] at h
    obtain ⟨c, hc, h⟩ := Outcome.bind_eq_ok.mp h
    cases h
    exact .inr ⟨hk, c, hc, rfl⟩
  · exact .inl ⟨hk, step_effect hk h⟩

/-! ### What a key of some sections amounts to -/

/-- The values given to a key, in order. -/
def entryValues (names : List String) (key : String) (es : List Entry) : List String :=
  (es.filter fun e => e.section ∈ names ∧ e.key = key).map (·.value)

/-- A part of the state that only one key of some sections changes. -/
structure Tracks {β : Type} (f : State → β) (update : β → String → β) (names : List String)
    (key : String) : Prop where
  named : key ≠ ""
  finish : ∀ {st c : State} {last : String}, finish st = .ok c → f { c with last } = f st
  last : ∀ (st : State) (last : String), f { st with last } = f st
  effect : ∀ {st st' : State} {e : Entry}, Effect st e st' →
    f st' = if e.section ∈ names ∧ e.key = key then update (f st) e.value else f st

theorem Tracks.step {β : Type} {f : State → β} {update : β → String → β} {names : List String}
    {key : String} (t : Tracks f update names key) {st st' : State} {e : Entry}
    (h : step st e = .ok st') :
    f st' = if e.section ∈ names ∧ e.key = key then update (f st) e.value else f st := by
  rcases step_cases h with ⟨-, heffect⟩ | ⟨hk, c, hc, rfl⟩
  · exact t.effect heffect
  · rw [if_neg fun hkey => t.named (hkey.2.symm.trans hk)]
    rcases ite_eq_iff.mp hc with ⟨-, hc⟩ | ⟨-, hc⟩
    · exact t.finish hc
    · cases hc
      exact t.last st _

theorem Tracks.fold {β : Type} {f : State → β} {update : β → String → β} {names : List String}
    {key : String} (t : Tracks f update names key) {es : List Entry} {st st' : State}
    (h : es.foldlM Networkd.step st = .ok st') :
    f st' = (entryValues names key es).foldl update (f st) := by
  induction es generalizing st with
  | nil =>
    cases h
    rfl
  | cons e rest ih =>
    rw [List.foldlM_cons] at h
    obtain ⟨mid, hmid, hrest⟩ := Outcome.bind_eq_ok.mp h
    rw [ih hrest, t.step hmid]
    by_cases hkey : e.section ∈ names ∧ e.key = key <;> simp [entryValues, hkey]

theorem finish_unchanged {β : Type} {f : State → β}
    (h : ∀ (st : State) gateways staticMetric route last,
      f { st with gateways, staticMetric, route, last } = f st)
    {st c : State} {last : String} (hc : finish st = .ok c) : f { c with last } = f st := by
  rcases finish_cases hc with ⟨-, rfl⟩ | ⟨_, _, -, -, rfl⟩
  · exact h c _ _ _ last
  · exact h st _ _ _ last

theorem tracks_addresses :
    Tracks State.addresses resetList ["Network", "Address"] "Address" where
  named := by simp
  finish := finish_unchanged fun _ _ _ _ _ => rfl
  last _ _ := rfl
  effect h := by
    cases h with
    | silent h => rw [if_neg h.address]
    | _ => simp_all

theorem tracks_dns : Tracks State.dns resetList ["Network"] "DNS" where
  named := by simp
  finish := finish_unchanged fun _ _ _ _ _ => rfl
  last _ _ := rfl
  effect h := by
    cases h with
    | silent h => rw [if_neg h.dns]
    | _ => simp_all

theorem tracks_domains : Tracks State.domains resetList ["Network"] "Domains" where
  named := by simp
  finish := finish_unchanged fun _ _ _ _ _ => rfl
  last _ _ := rfl
  effect h := by
    cases h with
    | silent h => rw [if_neg h.domains]
    | _ => simp_all

theorem dhcpSetting_eq {v : String} {dhcp : Bool} (h : dhcpSetting v = .ok dhcp) :
    dhcp = (v == "ipv4") := by
  unfold dhcpSetting at h
  rcases ite_eq_iff.mp h with ⟨hv, h⟩ | ⟨hv, h⟩
  · cases h
    simp [hv]
  rcases ite_eq_iff.mp h with ⟨-, h⟩ | ⟨-, h⟩
  · cases h
    simp [hv]
  rcases ite_eq_iff.mp h with ⟨-, h⟩ | ⟨-, h⟩ <;> cases h

theorem tracks_dhcp : Tracks State.dhcp (fun _ v => v == "ipv4") ["Network"] "DHCP" where
  named := by simp
  finish := finish_unchanged fun _ _ _ _ _ => rfl
  last _ _ := rfl
  effect h := by
    cases h with
    | silent h => rw [if_neg h.dhcp]
    | dhcp hs hk hdhcp => simp [List.mem_singleton.mp hs, hk, dhcpSetting_eq hdhcp]
    | _ => simp_all

/-- The metric of a lease after one more setting; an empty one changes nothing. -/
def metricSetting (metric : Option Nat) (v : String) : Option Nat :=
  if v = "" then metric else parseUnsigned u32Max v

theorem tracks_dhcpMetric :
    Tracks (fun st => some st.dhcpMetric) metricSetting ["DHCPv4", "DHCP"] "RouteMetric" where
  named := by simp
  finish := finish_unchanged (f := fun st => some st.dhcpMetric) fun _ _ _ _ _ => rfl
  last _ _ := rfl
  effect := by
    intro st st' e h
    cases h with
    | silent h =>
      by_cases hkey : e.section ∈ ["DHCPv4", "DHCP"] ∧ e.key = "RouteMetric"
      · rw [if_pos hkey, metricSetting, if_pos (h.metric hkey)]
      · rw [if_neg hkey]
    | metric hs hk hv hparse => simp [metricSetting, hs, hk, hv, hparse]
    | _ => simp_all

/-! ### Gateways -/

/-- The values given to a key in the sections of some names, in order. -/
def assigned (names : List String) (key : String) (d : List Section) : List String :=
  d.flatMap fun s =>
    if s.name ∈ names then (s.assignments.filter (·.1 = key)).map (·.2) else []

theorem entryValues_sections {names : List String} {key : String} (hk : key ≠ "")
    (d : List Section) : entryValues names key (d.flatMap Section.entries) = assigned names key d := by
  induction d with
  | nil => rfl
  | cons s rest ih =>
    have hfirst : entryValues names key s.entries =
        if s.name ∈ names then (s.assignments.filter (·.1 = key)).map (·.2) else [] := by
      by_cases hs : s.name ∈ names <;>
        simp [entryValues, Section.entries, hs, Ne.symm hk, List.filter_map, Function.comp_def]
    have happend : entryValues names key (s.entries ++ rest.flatMap Section.entries) =
        entryValues names key s.entries ++ entryValues names key (rest.flatMap Section.entries) := by
      simp [entryValues]
    rw [List.flatMap_cons, happend, hfirst, ih]
    rfl

/-- Some key is given a value. -/
def sets (l : List Assignment) : Bool := l.any fun a => a.1 ≠ "" && a.2 ≠ ""

/-- The last gateway of a list of assignments, if one is set. -/
def lastGateway (l : List Assignment) : Option String :=
  ((l.filter fun a => a.1 = "Gateway" && a.2 ≠ "").getLast?).map (·.2)

theorem lastGateway_cons (a : Assignment) (l : List Assignment) :
    lastGateway (a :: l) =
      (lastGateway l).or (if a.1 = "Gateway" ∧ a.2 ≠ "" then some a.2 else none) := by
  unfold lastGateway
  by_cases ha : a.1 = "Gateway" ∧ a.2 ≠ ""
  · have hkeep : (decide (a.1 = "Gateway") && decide (a.2 ≠ "")) = true := by simp [ha]
    rw [List.filter_cons, if_pos hkeep, List.getLast?_cons, if_pos ha]
    cases (l.filter fun a => a.1 = "Gateway" && a.2 ≠ "").getLast? <;> rfl
  · have hdrop : ¬ (decide (a.1 = "Gateway") && decide (a.2 ≠ "")) = true := by simpa using ha
    rw [List.filter_cons, if_neg hdrop, if_neg ha, Option.or_none]

theorem lastGateway_none {l : List Assignment} (h : sets l = false) : lastGateway l = none := by
  have hfilter : (l.filter fun a => a.1 = "Gateway" && a.2 ≠ "") = [] := by
    rw [List.filter_eq_nil_iff]
    intro a ha
    have hunset := List.any_eq_false.mp h a ha
    simp only [Bool.and_eq_true, decide_eq_true_eq, not_and] at hunset ⊢
    intro hk hv
    exact hunset (by simp [hk]) hv
  rw [lastGateway, hfilter]
  rfl

theorem isEmpty_insert (m : SortedMap String String) (k v : String) :
    (m.insert k v).isEmpty = false := by
  have hget : (m.insert k v).get? k = some v := by simp
  cases h : (m.insert k v).isEmpty with
  | false => rfl
  | true =>
    have hentries : (m.insert k v).entries = [] := List.isEmpty_iff.mp h
    rw [SortedMap.get?, hentries] at hget
    cases hget

/-- A list that ends with a gateway added to it. -/
def Appended (before : List String) (gateway : Option String) (after : List String) : Prop :=
  ∃ more g, gateway = some g ∧ after = before ++ more ++ [g]

theorem step_route_setting (st : State) {k v : String} (hk : k ≠ "") :
    step st ⟨"Route", k, v⟩ = .ok (if v = "" then st else { st with route := st.route.insert k v }) := by
  by_cases hv : v = "" <;> simp [step, setting, hk, hv]

/-- Inside a [Route] section the route read so far is part of what its end appends. -/
theorem route_fold {l : List Assignment} {st st' c : State} (hlast : st.last = "Route")
    (h : (l.map fun a => (⟨"Route", a.1, a.2⟩ : Entry)).foldlM step st = .ok st')
    (hc : finish st' = .ok c) :
    (st.route.isEmpty = true ∧ sets l = false ∧ c.gateways = st.gateways) ∨
      ((st.route.isEmpty = false ∨ sets l = true) ∧
        Appended st.gateways ((lastGateway l).or (st.route.get? "Gateway")) c.gateways) := by
  induction l generalizing st with
  | nil =>
    cases h
    rcases finish_cases hc with ⟨hempty, rfl⟩ | ⟨gateway, metric, hset, hroute, rfl⟩
    · exact .inl ⟨hempty, rfl, rfl⟩
    · exact .inr ⟨.inl hset, [], gateway, by simpa [lastGateway] using hroute, by simp⟩
  | cons a l ih =>
    obtain ⟨k, v⟩ := a
    rw [List.map_cons, List.foldlM_cons] at h
    obtain ⟨mid, hmid, hrest⟩ := Outcome.bind_eq_ok.mp h
    rw [lastGateway_cons]
    by_cases hk : k = ""
    · have hsets : sets ((k, v) :: l) = sets l := by simp [sets, hk]
      have hnone : (if k = "Gateway" ∧ v ≠ "" then some v else none) = none := by simp [hk]
      rw [hsets, hnone, Option.or_none]
      rcases step_cases hmid with ⟨hkey, -⟩ | ⟨-, ended, hended, rfl⟩
      · exact absurd hk hkey
      · rw [closed, if_pos hlast] at hended
        have htail := ih rfl hrest
        rcases finish_cases hended with ⟨hempty, rfl⟩ | ⟨gateway, metric, hset, hroute, rfl⟩
        · exact htail
        · refine .inr ⟨.inl hset, ?_⟩
          rcases htail with ⟨-, hnone, hsame⟩ | ⟨-, more, g, hg, happended⟩
          · exact ⟨[], gateway, by simp [lastGateway_none hnone, hroute], by simp [hsame]⟩
          · have hlastg : lastGateway l = some g := by simpa using hg
            exact ⟨gateway :: more, g, by simp [hlastg], by simp [happended]⟩
    · rw [step_route_setting st hk] at hmid
      cases hmid
      by_cases hv : v = ""
      · have hsets : sets ((k, v) :: l) = sets l := by simp [sets, hv]
        rw [if_pos hv] at hrest
        rw [hsets]
        simpa [hv] using ih hlast hrest
      · have hsets : sets ((k, v) :: l) = true := by simp [sets, hk, hv]
        rw [if_neg hv] at hrest
        have hinside : ({ st with route := st.route.insert k v } : State).last = "Route" := hlast
        rcases ih hinside hrest with ⟨hempty, -⟩ | ⟨-, more, g, hg, happended⟩
        · simp [isEmpty_insert] at hempty
        · refine .inr ⟨.inr hsets, more, g, ?_, happended⟩
          rw [SortedMap.get?_insert] at hg
          by_cases hgateway : k = "Gateway"
          · rw [if_pos hgateway.symm] at hg
            rw [if_pos ⟨hgateway, hv⟩, hg]
            rfl
          · rw [if_neg (Ne.symm hgateway)] at hg
            rw [if_neg fun hboth => hgateway hboth.1, Option.or_none, hg]

theorem plain_fold {name : String} (hname : name ≠ "Route") {l : List Assignment} {st st' : State}
    (hlast : st.last = name)
    (h : (l.map fun a => (⟨name, a.1, a.2⟩ : Entry)).foldlM step st = .ok st') :
    st'.route = st.route ∧ st'.last = name ∧
      st'.gateways = (if name ∈ ["Network"] then
        (l.filter (·.1 = "Gateway")).map (·.2) else []).foldl resetList st.gateways := by
  induction l generalizing st with
  | nil =>
    cases h
    exact ⟨rfl, hlast, by split <;> rfl⟩
  | cons a l ih =>
    rw [List.map_cons, List.foldlM_cons] at h
    obtain ⟨mid, hmid, hrest⟩ := Outcome.bind_eq_ok.mp h
    have hstep : mid.route = st.route ∧ mid.last = name ∧ mid.gateways =
        if name ∈ ["Network"] ∧ a.1 = "Gateway" then resetList st.gateways a.2 else st.gateways := by
      rcases step_cases hmid with ⟨-, heffect⟩ | ⟨hk, c, hc, rfl⟩
      · cases heffect with
        | silent h => exact ⟨rfl, hlast, by rw [if_neg h.gateway]⟩
        | route hs hv => exact absurd hs hname
        | _ => simp_all
      · rw [closed, if_neg (hlast ▸ hname)] at hc
        cases hc
        exact ⟨rfl, rfl, by simp [show a.1 = "" from hk]⟩
    obtain ⟨hroute, hmlast, hgateways⟩ := hstep
    obtain ⟨hroute', hlast', hgateways'⟩ := ih hmlast hrest
    refine ⟨hroute'.trans hroute, hlast', ?_⟩
    rw [hgateways', hgateways]
    by_cases hnetwork : name ∈ ["Network"] <;> by_cases hgateway : a.1 = "Gateway" <;>
      simp [hnetwork, hgateway]

/-- The gateways after a section: [Network] extends or clears the list, a [Route] section adds its
own at its end. -/
def GatewaysAfter (before : List String) (s : Section) (after : List String) : Prop :=
  if s.name = "Route" then
    if sets s.assignments then Appended before (lastGateway s.assignments) after
    else after = before
  else after = (assigned ["Network"] "Gateway" [s]).foldl resetList before

def GatewaysRun : List String → List Section → List String → Prop
  | before, [], after => after = before
  | before, s :: rest, after => ∃ mid, GatewaysAfter before s mid ∧ GatewaysRun mid rest after

/-- Only a [Route] section leaves a route unfinished. -/
def Boundary (st : State) : Prop := st.last = "Route" ∨ st.route.isEmpty = true

theorem Boundary.closed {st ended c : State} (hb : Boundary st) (hended : closed st = .ok ended)
    (hc : finish st = .ok c) : ended = c := by
  unfold Networkd.closed at hended
  rcases ite_eq_iff.mp hended with ⟨-, h⟩ | ⟨hlast, h⟩
  · exact Except.ok.inj (h.symm.trans hc)
  · cases h
    have hempty := hb.resolve_left hlast
    have hsame : finish st = .ok st := by simp [finish, hempty]
    exact Except.ok.inj (hsame.symm.trans hc)

theorem finish_route {st c : State} (h : finish st = .ok c) : c.route.isEmpty = true := by
  rcases finish_cases h with ⟨hempty, rfl⟩ | ⟨_, _, -, -, rfl⟩
  · exact hempty
  · rfl

theorem section_fold {s : Section} {st st' c₀ c : State} (hb : Boundary st)
    (hc₀ : finish st = .ok c₀) (h : s.entries.foldlM step st = .ok st') (hc : finish st' = .ok c) :
    GatewaysAfter c₀.gateways s c.gateways := by
  rw [Section.entries, List.foldlM_cons] at h
  obtain ⟨mid, hmid, hrest⟩ := Outcome.bind_eq_ok.mp h
  rcases step_cases hmid with ⟨hkey, -⟩ | ⟨-, ended, hended, rfl⟩
  · exact absurd rfl hkey
  · have heq := hb.closed hended hc₀
    subst heq
    have hempty := finish_route hc₀
    unfold GatewaysAfter
    by_cases hname : s.name = "Route"
    · rw [if_pos hname]
      simp only [hname] at hrest
      rcases route_fold rfl hrest hc with ⟨-, hsets, hsame⟩ | ⟨hset, happended⟩
      · simpa [hsets] using hsame
      · have hsets : sets s.assignments = true := by
          rcases hset with hset | hset
          · simp [hempty] at hset
          · exact hset
        rw [if_pos hsets]
        have hnone : ended.route.get? "Gateway" = none := by
          have hentries : ended.route.entries = [] := List.isEmpty_iff.mp hempty
          rw [SortedMap.get?, hentries]
          rfl
        rw [hnone, Option.or_none] at happended
        exact happended
    · rw [if_neg hname]
      obtain ⟨hroute, -, hgateways⟩ := plain_fold hname rfl hrest
      have hfinish : finish st' = .ok st' := by
        have hdone : st'.route.isEmpty = true := by rw [hroute]; exact hempty
        simp [finish, hdone]
      have hsame := Except.ok.inj (hc.symm.trans hfinish)
      rw [hsame, hgateways]
      simp [assigned]

theorem last_fold {name : String} {l : List Assignment} {st st' : State} (hlast : st.last = name)
    (h : (l.map fun a => (⟨name, a.1, a.2⟩ : Entry)).foldlM step st = .ok st') :
    st'.last = name := by
  induction l generalizing st with
  | nil =>
    cases h
    exact hlast
  | cons a l ih =>
    rw [List.map_cons, List.foldlM_cons] at h
    obtain ⟨mid, hmid, hrest⟩ := Outcome.bind_eq_ok.mp h
    apply ih _ hrest
    rcases step_cases hmid with ⟨-, heffect⟩ | ⟨-, _, -, rfl⟩
    · cases heffect <;> exact hlast
    · rfl

theorem section_boundary {s : Section} {st st' : State} (hb : Boundary st)
    (h : s.entries.foldlM step st = .ok st') : Boundary st' := by
  rw [Section.entries, List.foldlM_cons] at h
  obtain ⟨mid, hmid, hrest⟩ := Outcome.bind_eq_ok.mp h
  rcases step_cases hmid with ⟨hkey, -⟩ | ⟨-, ended, hended, rfl⟩
  · exact absurd rfl hkey
  · by_cases hname : s.name = "Route"
    · exact .inl (hname ▸ last_fold rfl hrest)
    · obtain ⟨hroute, -⟩ := plain_fold hname rfl hrest
      right
      rw [hroute]
      rcases ite_eq_iff.mp hended with ⟨-, h⟩ | ⟨hlast, h⟩
      · have hdone := finish_route h
        exact hdone
      · cases h
        exact hb.resolve_left hlast

/-- What a further section needs of the one before it is that it can be ended. -/
theorem finishes {d : List Section} {st st' c : State} (hb : Boundary st)
    (h : (d.flatMap Section.entries).foldlM step st = .ok st') (hc : finish st' = .ok c) :
    ∃ c₀, finish st = .ok c₀ := by
  cases d with
  | nil =>
    cases h
    exact ⟨c, hc⟩
  | cons s rest =>
    rw [List.flatMap_cons, Section.entries, List.cons_append, List.foldlM_cons] at h
    obtain ⟨mid, hmid, -⟩ := Outcome.bind_eq_ok.mp h
    rcases step_cases hmid with ⟨hkey, -⟩ | ⟨-, ended, hended, -⟩
    · exact absurd rfl hkey
    · rcases ite_eq_iff.mp hended with ⟨-, h⟩ | ⟨hlast, h⟩
      · exact ⟨ended, h⟩
      · have hempty := hb.resolve_left hlast
        exact ⟨st, by simp [finish, hempty]⟩

theorem sections_fold {d : List Section} {st st' c₀ c : State} (hb : Boundary st)
    (hc₀ : finish st = .ok c₀) (h : (d.flatMap Section.entries).foldlM step st = .ok st')
    (hc : finish st' = .ok c) : GatewaysRun c₀.gateways d c.gateways := by
  induction d generalizing st c₀ with
  | nil =>
    cases h
    exact congrArg State.gateways (Except.ok.inj (hc.symm.trans hc₀))
  | cons s rest ih =>
    rw [List.flatMap_cons, List.foldlM_append] at h
    obtain ⟨mid, hmid, hrest⟩ := Outcome.bind_eq_ok.mp h
    have hbmid := section_boundary hb hmid
    obtain ⟨cm, hcm⟩ := finishes hbmid hrest hc
    exact ⟨cm.gateways, section_fold hb hc₀ hmid hcm, ih hbmid hcm hrest⟩

/-! ### Accepted files -/

/-- A list after all its settings. -/
def kept (values : List String) : List String := values.foldl resetList []

/-- What a file is read as, in terms of its sections. -/
structure Reads (d : List Section) (c : State) : Prop where
  addresses : c.addresses = kept (assigned ["Network", "Address"] "Address" d)
  gateways : GatewaysRun [] d c.gateways
  dns : c.dns = kept (assigned ["Network"] "DNS" d)
  domains : c.domains = kept (assigned ["Network"] "Domains" d)
  dhcp : c.dhcp = (assigned ["Network"] "DHCP" d).foldl (fun _ v => v == "ipv4") false
  dhcpMetric : some c.dhcpMetric =
    (assigned ["DHCPv4", "DHCP"] "RouteMetric" d).foldl metricSetting (some 1024)

/-- Settings before the first header belong to no section, so nothing is read of them. -/
theorem Tracks.sections {β : Type} {f : State → β} {update : β → String → β} {names : List String}
    {key : String} (t : Tracks f update names key) (hnames : "" ∉ names) {before : List Assignment}
    {d : List Section} {st c : State}
    (h : (before.map (fun a => (⟨"", a.1, a.2⟩ : Entry)) ++ d.flatMap Section.entries).foldlM
      Networkd.step {} = .ok st) (hc : Networkd.finish st = .ok c) :
    f c = (assigned names key d).foldl update (f {}) := by
  have hbefore : entryValues names key (before.map fun a => ⟨"", a.1, a.2⟩) = [] := by
    have hnone : ∀ e ∈ before.map (fun a => (⟨"", a.1, a.2⟩ : Entry)), e.section = "" := by
      intro e he
      obtain ⟨a, -, rfl⟩ := List.mem_map.mp he
      rfl
    have hfilter : (before.map fun a => (⟨"", a.1, a.2⟩ : Entry)).filter
        (fun e => e.section ∈ names ∧ e.key = key) = [] := by
      rw [List.filter_eq_nil_iff]
      intro e he
      simp [hnone e he, hnames]
    rw [entryValues, hfilter]
    rfl
  have hvalues : entryValues names key (before.map (fun a => (⟨"", a.1, a.2⟩ : Entry)) ++
      d.flatMap Section.entries) = assigned names key d := by
    rw [← entryValues_sections t.named d, entryValues, List.filter_append, List.map_append]
    exact congrArg (· ++ _) hbefore
  have hlast : ({ c with last := c.last } : State) = c := rfl
  rw [← hlast, t.finish hc, t.fold h, hvalues]

theorem parse_reads {text : String} {n : NetworkProfile} {dhcpMetric staticMetric : Nat}
    (h : parse text = .ok (n, dhcpMetric, staticMetric)) :
    ∃ c, Reads (sections text) c ∧ row c = .ok n ∧ c.dhcpMetric = dhcpMetric ∧
      c.staticMetric = staticMetric := by
  obtain ⟨es, hes, h⟩ := Outcome.bind_eq_ok.mp h
  obtain ⟨st, hst, h⟩ := Outcome.bind_eq_ok.mp h
  obtain ⟨c, hc, h⟩ := Outcome.bind_eq_ok.mp h
  obtain ⟨m, hm, h⟩ := Outcome.bind_eq_ok.mp h
  cases h
  rw [iniLines_sections hes] at hst
  have hgateways : GatewaysRun [] (sections text) c.gateways := by
    rw [List.foldlM_append] at hst
    obtain ⟨first, hfirst, hrest⟩ := Outcome.bind_eq_ok.mp hst
    obtain ⟨hroute, -, hnone⟩ := plain_fold (by simp) rfl hfirst
    have hempty : first.route.isEmpty = true := by
      rw [hroute]
      rfl
    have hfinish : finish first = .ok first := by simp [finish, hempty]
    have hstart : first.gateways = [] := by simpa using hnone
    exact hstart ▸ sections_fold (.inr hempty) hfinish hrest hc
  exact ⟨c,
    { addresses := tracks_addresses.sections (by simp) hst hc
      gateways := hgateways
      dns := tracks_dns.sections (by simp) hst hc
      domains := tracks_domains.sections (by simp) hst hc
      dhcp := tracks_dhcp.sections (by simp) hst hc
      dhcpMetric := tracks_dhcpMetric.sections (by simp) hst hc }, hm, rfl, rfl⟩

/-- An accepted row has the lists that were read; a leased one has nothing but search domains. -/
theorem row_cases {c : State} {n : NetworkProfile} (h : row c = .ok n) :
    n.dnsSearch = c.domains ∧ n.dns = c.dns ∧ n.gateway = c.gateways.head?.getD "" ∧
      c.gateways.length ≤ 1 ∧
      ((c.dhcp = true ∧ n.mode = .dhcp ∧ c.addresses = []) ∨
        (c.dhcp = false ∧ n.mode = .static ∧ ∃ a bits, c.addresses = [a] ∧
          splitOnce "/" a = some (n.address, bits) ∧ parseUnsigned 255 bits = some n.prefixLen)) := by
  obtain ⟨search, hsearch, h⟩ := Outcome.bind_eq_ok.mp h
  have hdomains : search = c.domains := by
    rcases ite_eq_iff.mp hsearch with ⟨-, h⟩ | ⟨-, h⟩
    · cases h
    · exact (Except.ok.inj h).symm
  subst hdomains
  rcases ite_eq_iff.mp h with ⟨-, h⟩ | ⟨-, h⟩
  · cases h
  rcases ite_eq_iff.mp h with ⟨hdhcp, h⟩ | ⟨hdhcp, h⟩
  · rcases ite_eq_iff.mp h with ⟨-, h⟩ | ⟨hmixed, h⟩
    · cases h
    · cases h
      simp only [ne_eq, not_or, not_not] at hmixed
      obtain ⟨haddresses, hgateways, hdns⟩ := hmixed
      exact ⟨rfl, hdns.symm, by rw [hgateways]; rfl, by rw [hgateways]; simp,
        .inl ⟨hdhcp, rfl, haddresses⟩⟩
  · unfold staticRow at h
    split at h
    · rename_i a haddresses
      cases hsplit : splitOnce "/" a with
      | none => simp [hsplit] at h
      | some pair =>
        obtain ⟨address, bits⟩ := pair
        simp only [hsplit] at h
        cases hbits : parseUnsigned 255 bits with
        | none => simp [hbits] at h
        | some prefixLen =>
          simp only [hbits] at h
          rcases ite_eq_iff.mp h with ⟨-, h⟩ | ⟨hsingle, h⟩
          · cases h
          · cases h
            exact ⟨rfl, rfl, rfl, by omega,
              .inr ⟨by simpa using hdhcp, rfl, a, bits, haddresses, hsplit, hbits⟩⟩
    · cases h

end NdimonR.Backend.Networkd
