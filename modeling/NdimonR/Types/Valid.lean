import NdimonR.Types.Validation

/-! What a document without validation errors satisfies, section by section. -/

namespace NdimonR.Types

open Text

@[simp] theorem check_eq_nil {c : Bool} {f r : String} : Validator.check c f r = [] ↔ c = true := by
  cases c <;> simp [Validator.check]

@[simp] theorem range_eq_nil {v min max : Nat} {f : String} :
    Validator.range v min max f = [] ↔ min ≤ v ∧ v ≤ max := by
  simp [Validator.range]

@[simp] theorem gain_eq_nil {q : ℚ} {f : String} :
    Validator.gain q f = [] ↔ -60 ≤ q ∧ q ≤ 12 := by
  simp [Validator.gain]

/-- A loop over an indexed list adds nothing when no item does, whatever its index. -/
theorem indexed_eq_nil {α β : Type} {l : List α} {f : α × Nat → List β} {P : α → Prop}
    (h : ∀ a j, f (a, j) = [] ↔ P a) : l.zipIdx.flatMap f = [] ↔ ∀ a ∈ l, P a := by
  rw [List.flatMap_eq_nil_iff]
  constructor
  · intro hf a ha
    obtain ⟨j, hj, he⟩ := List.mem_iff_getElem.mp ha
    exact (h a j).mp (hf (a, j) (by rw [List.mem_zipIdx_iff_getElem?]; simp [← he, hj]))
  · rintro hf ⟨a, j⟩ ha
    exact (h a j).mpr (hf a (List.fst_mem_of_mem_zipIdx ha))

/-! ### Outputs and NDI -/

structure OutputValid (id : OutputId) (o : Output) : Prop where
  id : 1 ≤ id ∧ id ≤ 8
  selection : o.sourceSelection = "NDI"
  source : ∀ s, o.source = some s →
    (s.name ≠ "" ∧ s.name ≠ "None") ∧ (s.endpoint = "" ∨ ndiEndpoint s.endpoint = true)
  rotation : o.video.rotation = 0 ∨ o.video.rotation = 180
  mode : ∀ w h hz, o.video.resolution = .mode w h hz → 0 < w ∧ 0 < h ∧ 0 ≤ hz

theorem output_valid {id : OutputId} {o : Output} (h : Validator.output id o = []) :
    OutputValid id o := by
  simp only [Validator.output, Validator.outputId, List.append_eq_nil_iff, check_eq_nil,
    range_eq_nil, Bool.or_eq_true, beq_iff_eq] at h
  obtain ⟨⟨⟨⟨⟨hid, -⟩, hselection⟩, hsource⟩, hrotation⟩, hmode⟩ := h
  refine ⟨hid, hselection, ?_, hrotation, ?_⟩
  · intro s hs
    simpa [hs, Validator.sourceRef] using hsource
  · intro w height hz hr
    simpa [hr, and_assoc] using hmode

structure NdiValid (n : Ndi) : Prop where
  some : n.groups ≠ []
  groups : ∀ g ∈ n.groups, trim g ≠ "" ∧ any (· == ',') g = false
  offSubnet : ∀ ip ∈ n.offSubnetSources, (Ipv4Addr.parse ip).isSome = true
  servers : ∀ h ∈ n.discoveryServers, validHost h = true

theorem ndi_valid {n : Ndi} (h : Validator.ndi n = []) : NdiValid n := by
  simp only [Validator.ndi, List.append_eq_nil_iff, check_eq_nil] at h
  obtain ⟨⟨⟨hsome, hgroups⟩, hoff⟩, hservers⟩ := h
  refine ⟨by simpa using hsome, ?_, (indexed_eq_nil (by simp)).mp hoff,
    (indexed_eq_nil (by simp)).mp hservers⟩
  exact (indexed_eq_nil (by simp)).mp hgroups

/-! ### Audio -/

structure GeometryValid (channels start count : Nat) : Prop where
  bounded : 1 ≤ channels ∧ channels ≤ 16
  starts : 1 ≤ start ∧ start ≤ 65535
  counted : count = channels
  fits : start + channels ≤ 65536

theorem geometry_valid {channels start count : Nat} {endpoint resource path : String}
    (h : Validator.nodeGeometry channels start count endpoint resource path = []) :
    GeometryValid channels start count := by
  simp only [Validator.nodeGeometry, List.append_eq_nil_iff, check_eq_nil, range_eq_nil,
    beq_iff_eq, decide_eq_true_eq] at h
  obtain ⟨⟨⟨⟨⟨hchannels, hstart⟩, hcount⟩, hfits⟩, -⟩, -⟩ := h
  exact ⟨hchannels, hstart, hcount, hfits⟩

structure SourceValid (s : AudioSource) : Prop where
  geometry : GeometryValid s.channels s.channelStart s.channelCount
  ndi : s.kind = .ndi → s.alsaPcm = none ∧ ∃ o, s.output = some o ∧ 1 ≤ o ∧ o ≤ 8
  alsa : s.kind = .alsa → s.output = none ∧ ∃ pcm, s.alsaPcm = some pcm ∧ validPcm pcm = true
  gain : -60 ≤ s.gainDb ∧ s.gainDb ≤ 12
  delay : s.delayMs ≤ 5000

theorem source_valid {s : AudioSource} {path : String} (h : Validator.source s path = []) :
    SourceValid s := by
  simp only [Validator.source, List.append_eq_nil_iff, gain_eq_nil, range_eq_nil] at h
  obtain ⟨⟨⟨hgeometry, hkind⟩, hgain⟩, hdelay⟩ := h
  refine ⟨geometry_valid hgeometry, ?_, ?_, hgain, hdelay.2⟩
  · intro hk
    simp only [hk, List.append_eq_nil_iff, check_eq_nil, Option.isNone_iff_eq_none] at hkind
    refine ⟨hkind.1, ?_⟩
    cases ho : s.output with
    | none => simp [ho] at hkind
    | some o => exact ⟨o, rfl, by simpa [ho, Validator.outputId] using hkind.2⟩
  · intro hk
    simp only [hk, List.append_eq_nil_iff, check_eq_nil, Option.isNone_iff_eq_none,
      Option.any_eq_true_iff_get] at hkind
    obtain ⟨hnone, hsome, hpcm⟩ := hkind
    exact ⟨hnone, _, (Option.some_get hsome).symm, hpcm⟩

structure SinkValid (s : AudioSink) : Prop where
  geometry : GeometryValid s.channels s.channelStart s.channelCount
  pcm : validPcm s.alsaPcm = true
  delay : s.delayMs ≤ 5000
  mix : ∀ e ∈ s.mix.entries, identifier e.1 = true ∧ -60 ≤ e.2 ∧ e.2 ≤ 12

theorem sink_valid {s : AudioSink} {path : String} (h : Validator.sink s path = []) :
    SinkValid s := by
  simp only [Validator.sink, List.append_eq_nil_iff, check_eq_nil, range_eq_nil,
    List.flatMap_eq_nil_iff] at h
  obtain ⟨⟨⟨hgeometry, hpcm⟩, hdelay⟩, hmix⟩ := h
  exact ⟨geometry_valid hgeometry, hpcm, hdelay.2, fun e he => by simpa using hmix e he⟩

/-- Two sinks that are not one writer. -/
def Writers (a b : AudioSink) : Prop :=
  (a.alsaPcm = b.alsaPcm → a.alsaPcm = "auto" ∧ a.resource ≠ b.resource) ∧
  overlap a.resource a.channelStart a.channelCount b.resource b.channelStart b.channelCount = false

theorem sinkPairs_valid {l : List (String × AudioSink)} (h : Validator.sinkPairs l = []) :
    l.Pairwise fun a b => Writers a.2 b.2 := by
  induction l with
  | nil => exact .nil
  | cons e rest ih =>
    obtain ⟨id, a⟩ := e
    simp only [Validator.sinkPairs, List.append_eq_nil_iff, List.flatMap_eq_nil_iff,
      check_eq_nil] at h
    refine List.pairwise_cons.mpr ⟨?_, ih h.2⟩
    intro b hb
    have hpair := h.1 b hb
    simp only [Bool.and_eq_true, Bool.not_eq_eq_eq_not, Bool.not_true, Bool.and_eq_false_iff,
      beq_eq_false_iff_ne, Bool.or_eq_false_iff, decide_eq_false_iff_not, not_not] at hpair
    refine ⟨?_, hpair.2⟩
    intro hpcm
    exact hpair.1.resolve_left fun hne => hne hpcm

/-- The physical ends of a route that plays. -/
def activeEnds (audio : Audio) (r : AudioRoute) : Option (String × String) :=
  match audio.sources.get? r.source, audio.sinks.get? r.sink, audio.outputs.get? r.output with
  | some source, some sink, some output =>
    if r.enabled && output.enabled && source.enabled && sink.enabled then
      some (sourceIdentity source, sinkIdentity sink)
    else none
  | _, _, _ => none

structure RouteValid (audio : Audio) (id : String) (r : AudioRoute) : Prop where
  id : identifier id = true
  output : 1 ≤ r.output ∧ r.output ≤ 8
  outputs : audio.outputs.contains r.output = true
  source : audio.sources.contains r.source = true
  sink : audio.sinks.contains r.sink = true
  gain : audio.engine = .v2 → -60 ≤ r.gainDb ∧ r.gainDb ≤ 12
  delay : audio.engine = .v2 → r.delayMs ≤ 5000

/-- What every route is checked for, whether it plays or not. -/
def routeErrors (audio : Audio) (id : String) (r : AudioRoute) : List FieldError :=
  let path := s!"audio.routes.{id}"
  Validator.check (identifier id) path "invalid route ID" ++
  Validator.outputId r.output s!"{path}.output" ++
  Validator.check (audio.outputs.contains r.output) s!"{path}.output" "missing output" ++
  Validator.check (audio.sources.contains r.source) s!"{path}.source" "missing source" ++
  Validator.check (audio.sinks.contains r.sink) s!"{path}.sink" "missing sink" ++
  (if audio.engine = .v2 then Validator.gain r.gainDb s!"{path}.gain_db"
  else Validator.check (decide (-120 ≤ r.gainDb) && decide (r.gainDb ≤ 24)) s!"{path}.gain_db"
    "v1 effective gain must be -120..=24") ++
  Validator.range r.delayMs 0 (if audio.engine = .v1 then 10000 else 5000) s!"{path}.delay_ms"

theorem routeErrors_valid {audio : Audio} {id : String} {r : AudioRoute}
    (h : routeErrors audio id r = []) : RouteValid audio id r := by
  simp only [routeErrors, Validator.outputId, List.append_eq_nil_iff, check_eq_nil,
    range_eq_nil] at h
  obtain ⟨⟨⟨⟨⟨⟨hid, hout⟩, houts⟩, hsource⟩, hsink⟩, hgain⟩, hdelay⟩ := h
  refine ⟨hid, hout, houts, hsource, hsink, ?_, ?_⟩
  · intro he
    simpa [he] using hgain
  · intro he
    simpa [he] using hdelay.2

/-- The step of the route loop: a route that plays has to be new, and is remembered. -/
theorem route_eq (audio : Audio) (st : Validator.RouteState) (id : String) (r : AudioRoute) :
    (Validator.route audio st id r).1 = routeErrors audio id r ++
        (activeEnds audio r).elim [] (fun key => Validator.check (!st.contributions.contains key)
          s!"audio.routes.{id}" "duplicate canonical source/sink contribution") ∧
      (Validator.route audio st id r).2.contributions =
        (activeEnds audio r).toList ++ st.contributions := by
  unfold Validator.route activeEnds
  cases audio.sources.get? r.source with
  | none => exact ⟨(List.append_nil _).symm, rfl⟩
  | some source =>
    cases audio.sinks.get? r.sink with
    | none => exact ⟨(List.append_nil _).symm, rfl⟩
    | some sink =>
      cases audio.outputs.get? r.output with
      | none => exact ⟨(List.append_nil _).symm, rfl⟩
      | some output =>
        by_cases hactive : r.enabled && output.enabled && source.enabled && sink.enabled
        · simp only [hactive, if_true]
          exact ⟨rfl, rfl⟩
        · simp only [hactive, if_false, Bool.false_eq_true]
          exact ⟨(List.append_nil _).symm, rfl⟩

theorem routes_valid {audio : Audio} {st : Validator.RouteState} {l : List (String × AudioRoute)}
    (h : (Validator.routes audio st l).1 = []) :
    (∀ e ∈ l, RouteValid audio e.1 e.2) ∧ (l.filterMap fun e => activeEnds audio e.2).Nodup ∧
      ∀ key ∈ l.filterMap fun e => activeEnds audio e.2, key ∉ st.contributions := by
  induction l generalizing st with
  | nil => simp
  | cons e rest ih =>
    obtain ⟨id, r⟩ := e
    obtain ⟨herrors, hseen⟩ := route_eq audio st id r
    have h : (Validator.route audio st id r).1 ++
        (Validator.routes audio (Validator.route audio st id r).2 rest).1 = [] := h
    rw [herrors, List.append_eq_nil_iff, List.append_eq_nil_iff] at h
    obtain ⟨⟨hroute, hnew⟩, hrest⟩ := h
    obtain ⟨hvalid, hnodup, hfresh⟩ := ih hrest
    rw [hseen] at hfresh
    refine ⟨List.forall_mem_cons.mpr ⟨routeErrors_valid hroute, hvalid⟩, ?_⟩
    cases hends : activeEnds audio r with
    | none =>
      simp only [hends, Option.toList_none, List.nil_append] at hfresh
      simp only [List.filterMap_cons, hends]
      exact ⟨hnodup, hfresh⟩
    | some key =>
      simp only [hends, Option.elim_some, check_eq_nil, Bool.not_eq_eq_eq_not, Bool.not_true,
        List.contains_eq_mem, decide_eq_false_iff_not] at hnew
      simp only [hends, Option.toList_some, List.cons_append, List.nil_append, List.mem_cons,
        not_or] at hfresh
      simp only [List.filterMap_cons, hends, List.nodup_cons, List.forall_mem_cons]
      exact ⟨⟨fun hm => (hfresh key hm).1 rfl, hnodup⟩, hnew, fun k hk => (hfresh k hk).2⟩

structure AudioValid (a : Audio) : Prop where
  rate : a.settings.rate = 48000
  period : a.settings.periodFrames ∈ [128, 256, 512, 1024, 2048]
  budget : 1 ≤ a.settings.memoryBudgetMib ∧ a.settings.memoryBudgetMib ≤ 512
  videoDelay : a.videoDelayMs ≤ 5000
  sourceCount : a.sources.size ≤ 32
  sinkCount : a.sinks.size ≤ 32
  master : (a.sources.isEmpty = true ∧ a.sinks.isEmpty = true ∧ a.routes.isEmpty = true ∧
      a.settings.master = "") ∨
    ∃ s, a.sinks.get? a.settings.master = some s ∧ s.enabled = true
  sources : ∀ e ∈ a.sources.entries, identifier e.1 = true ∧ SourceValid e.2
  sinks : ∀ e ∈ a.sinks.entries, identifier e.1 = true ∧ SinkValid e.2
  writers : a.engine = .v2 → a.sinks.entries.Pairwise fun x y => Writers x.2 y.2
  routes : ∀ e ∈ a.routes.entries, RouteValid a e.1 e.2
  contributions : (a.routes.entries.filterMap fun e => activeEnds a e.2).Nodup
  outputs : ∀ id ∈ a.outputs.keys, 1 ≤ id ∧ id ≤ 8

theorem audio_valid {a : Audio} (h : Validator.audio a = []) : AudioValid a := by
  simp only [Validator.audio, List.append_eq_nil_iff, check_eq_nil, range_eq_nil,
    List.flatMap_eq_nil_iff] at h
  obtain ⟨⟨⟨⟨⟨⟨⟨⟨⟨⟨⟨⟨⟨hrate, hperiod⟩, hbudget⟩, hdelay⟩, hsources⟩, hsinks⟩, -⟩, hmaster⟩,
    hsource⟩, hsink⟩, hpairs⟩, hroutes⟩, -⟩, houtputs⟩ := h
  obtain ⟨hroute, hnodup, -⟩ := routes_valid hroutes
  refine ⟨by omega, by simpa using hperiod, hbudget, hdelay.2, by simpa using hsources,
    by simpa using hsinks, ?_, fun e he => ?_, fun e he => ?_, ?_, hroute, hnodup, ?_⟩
  · split at hmaster
    · rename_i hempty
      simp only [Bool.and_eq_true] at hempty
      exact .inl ⟨hempty.1.1, hempty.1.2, hempty.2, by simpa using hmaster⟩
    · obtain ⟨s, hs, he⟩ := (Option.any_eq_true _ _).mp hmaster
      exact .inr ⟨s, hs, he⟩
  · exact ⟨(hsource e he).1, source_valid (hsource e he).2⟩
  · exact ⟨(hsink e he).1, sink_valid (hsink e he).2⟩
  · intro he
    rw [if_pos he] at hpairs
    exact sinkPairs_valid hpairs
  · intro id hid
    obtain ⟨e, he, rfl⟩ := List.mem_map.mp hid
    have houtput := houtputs e he
    simp only [Validator.outputAudio, Validator.outputId, List.append_eq_nil_iff,
      range_eq_nil] at houtput
    tauto

/-! ### Network -/

structure RowValid (p : NetworkProfiles) (n : NetworkProfile) : Prop where
  id : identifier n.id = true
  tag : ∀ t, n.vlanId = some t → (1 ≤ t ∧ t ≤ 4094) ∧ len s!"{p.interface}.{t}" ≤ 15
  managed : n.id = p.roles.management ∨ (n.gateway = "" ∧ n.dns = [] ∧ n.dnsSearch = [])
  searchCount : n.dnsSearch.length ≤ maxDnsSearch
  search : ∀ d ∈ n.dnsSearch, validDnsSearchDomain d = true
  dns : ∀ d ∈ n.dns, (Ipv4Addr.parse d).isSome = true
  dhcp : n.mode = .dhcp → n.address = "" ∧ n.prefixLen = 0 ∧ n.gateway = "" ∧ n.dns = []
  «static» : n.mode = .static → (8 ≤ n.prefixLen ∧ n.prefixLen ≤ 30) ∧
    (Ipv4Addr.parse n.address).isSome = true ∧
    (n.gateway = "" ∨ (Ipv4Addr.parse n.gateway).isSome = true)

/-- The checks of a row, whatever its mode, come first and those of its mode follow. -/
theorem networkRow_errors (p : NetworkProfiles) (seen : Validator.NetworkSeen) (i : Nat)
    (n : NetworkProfile) : ∃ more, (Validator.networkRow p seen i n).1 =
      Validator.networkRowCommon p seen s!"network.networks[{i}]" n ++ more ∧
      (n.mode = .dhcp → more = [] → Validator.dhcpNormalized n = true) ∧
      (n.mode = .static → more = [] → (8 ≤ n.prefixLen ∧ n.prefixLen ≤ 30) ∧
        (Ipv4Addr.parse n.address).isSome = true ∧
        (n.gateway = "" ∨ (Ipv4Addr.parse n.gateway).isSome = true)) := by
  unfold Validator.networkRow
  cases n.mode with
  | dhcp => exact ⟨_, rfl, fun _ h => by simpa using h, nofun⟩
  | «static» =>
    cases hip : Ipv4Addr.parse n.address with
    | none =>
      refine ⟨_, rfl, nofun, fun _ h => ?_⟩
      simp [hip] at h
    | some ip =>
      refine ⟨_, List.append_assoc _ _ _, nofun, fun _ h => ?_⟩
      simp only [List.append_eq_nil_iff, range_eq_nil, check_eq_nil, Bool.or_eq_true,
        beq_iff_eq] at h
      exact ⟨h.1.1.1, rfl, h.1.2⟩

theorem networkRow_seen (p : NetworkProfiles) (seen : Validator.NetworkSeen) (i : Nat)
    (n : NetworkProfile) :
    (Validator.networkRow p seen i n).2.ids =
        (if identifier n.id then n.id :: seen.ids else seen.ids) ∧
      (Validator.networkRow p seen i n).2.tags = n.vlanId :: seen.tags := by
  unfold Validator.networkRow
  cases n.mode with
  | dhcp => exact ⟨rfl, rfl⟩
  | «static» =>
    cases Ipv4Addr.parse n.address with
    | none => exact ⟨rfl, rfl⟩
    | some ip => exact ⟨rfl, rfl⟩

theorem row_valid {p : NetworkProfiles} {seen : Validator.NetworkSeen} {i : Nat}
    {n : NetworkProfile} (h : (Validator.networkRow p seen i n).1 = []) :
    RowValid p n ∧ n.vlanId ∉ seen.tags ∧
      (Validator.networkRow p seen i n).2.ids = n.id :: seen.ids ∧
      (Validator.networkRow p seen i n).2.tags = n.vlanId :: seen.tags := by
  obtain ⟨more, hmore, hdhcp, hstatic⟩ := networkRow_errors p seen i n
  obtain ⟨hids, htags⟩ := networkRow_seen p seen i n
  rw [hmore] at h
  simp only [Validator.networkRowCommon, List.append_eq_nil_iff, check_eq_nil,
    Bool.and_eq_true] at h
  obtain ⟨⟨⟨⟨⟨⟨⟨⟨⟨⟨hid, -⟩, -⟩, hfresh⟩, htag⟩, hmanaged⟩, hcount⟩, hsearch⟩, -⟩, hdns⟩, hnil⟩ := h
  refine ⟨⟨hid, ?_, ?_, by simpa using hcount, (indexed_eq_nil (by simp)).mp hsearch,
    (indexed_eq_nil (by simp)).mp hdns, ?_, fun hm => hstatic hm hnil⟩, by simpa using hfresh,
    by rw [hids, if_pos hid], htags⟩
  · intro t ht
    simpa [ht] using htag
  · simpa [and_assoc] using hmanaged
  · intro hm
    simpa [Validator.dhcpNormalized, and_assoc] using hdhcp hm hnil

theorem rows_valid {p : NetworkProfiles} {seen : Validator.NetworkSeen} {i : Nat}
    {rows : List NetworkProfile} (h : (Validator.networkRows p seen i rows).1 = []) :
    (∀ n ∈ rows, RowValid p n) ∧
      ((rows.map (·.vlanId)).Nodup ∧ ∀ t ∈ rows.map (·.vlanId), t ∉ seen.tags) ∧
      ∀ id ∈ (Validator.networkRows p seen i rows).2.ids,
        id ∈ seen.ids ∨ ∃ n ∈ rows, n.id = id := by
  induction rows generalizing seen i with
  | nil => exact ⟨by simp, by simp, fun id hid => .inl hid⟩
  | cons n rest ih =>
    obtain ⟨hfirst, hrest⟩ := List.append_eq_nil_iff.mp (show
      (Validator.networkRow p seen i n).1 ++
        (Validator.networkRows p (Validator.networkRow p seen i n).2 (i + 1) rest).1 = [] from h)
    obtain ⟨hrow, hfresh, hids, htags⟩ := row_valid hfirst
    obtain ⟨hrows, ⟨hnodup, hnew⟩, hseen⟩ := ih hrest
    rw [htags] at hnew
    refine ⟨List.forall_mem_cons.mpr ⟨hrow, hrows⟩, ⟨?_, ?_⟩, ?_⟩
    · exact List.nodup_cons.mpr ⟨fun hm => hnew _ hm List.mem_cons_self, hnodup⟩
    · exact List.forall_mem_cons.mpr
        ⟨hfresh, fun t ht hold => hnew t ht (List.mem_cons_of_mem _ hold)⟩
    · intro id hid
      rcases hseen id hid with hold | ⟨m, hm, rfl⟩
      · rw [hids] at hold
        rcases List.mem_cons.mp hold with rfl | hold
        · exact .inr ⟨n, by simp, rfl⟩
        · exact .inl hold
      · exact .inr ⟨m, by simp [hm], rfl⟩

structure NetworkValid (p : NetworkProfiles) : Prop where
  interface : 1 ≤ len p.interface ∧ len p.interface ≤ 15
  letters : all (fun c => isAsciiAlphanumeric c || c == '_' || c == '-') p.interface = true
  rows : ∀ n ∈ p.networks, RowValid p n
  tags : (p.networks.map (·.vlanId)).Nodup
  roles : ∀ id ∈ [p.roles.management, p.roles.ndi, p.roles.audio], ∃ n ∈ p.networks, n.id = id

theorem network_valid {p : NetworkProfiles} (h : Validator.network p = []) :
    (p.backend = none ∧ p.interface = "" ∧ p.networks = [] ∧ p.roles = {}) ∨ NetworkValid p := by
  unfold Validator.network at h
  split at h
  · rename_i hb
    simp only [check_eq_nil, Bool.and_eq_true, beq_iff_eq, List.isEmpty_iff] at h
    exact .inl ⟨by simpa using hb, h.1.1, h.1.2, h.2⟩
  · simp only [List.append_eq_nil_iff, check_eq_nil, Bool.and_eq_true, decide_eq_true_eq] at h
    obtain ⟨⟨⟨⟨hinterface, -⟩, hrows⟩, -⟩, hroles⟩ := h
    obtain ⟨hrow, ⟨htags, -⟩, hids⟩ := rows_valid hrows
    refine .inr ⟨hinterface.1, hinterface.2, hrow, htags, ?_⟩
    simp only [List.flatMap_cons, List.flatMap_nil, List.append_nil, List.append_eq_nil_iff,
      check_eq_nil, List.contains_eq_mem, decide_eq_true_eq] at hroles
    obtain ⟨hmanagement, hndi, haudio⟩ := hroles
    have hseen : ∀ id ∈ (Validator.networkRows p {} 0 p.networks).2.ids,
        ∃ n ∈ p.networks, n.id = id := fun id hid => (hids id hid).resolve_left (by simp)
    simp only [List.forall_mem_cons, List.not_mem_nil, false_implies, implies_true, and_true]
    exact ⟨hseen _ hmanagement, hseen _ hndi, hseen _ haudio⟩

/-! ### The whole document -/

structure DisplayValid (d : Display) : Prop where
  percents : ∀ q ∈ [d.splash.logoXPct, d.splash.logoYPct, d.splash.logoWPct,
    d.splash.textHeightPct], 0 ≤ q ∧ q ≤ 100
  logo : ∀ l, d.splash.logo = some l →
    (len l.sha256 = 64 ∧ all (fun c => isAsciiDigit c || ('a' ≤ c && c ≤ 'f')) l.sha256 = true) ∧
      (l.mediaType = "image/png" ∨ l.mediaType = "image/jpeg")
  osd : utf16 d.osd.text ≤ 128

theorem display_valid {d : Display} (h : Validator.display d = []) : DisplayValid d := by
  simp only [Validator.display, List.append_eq_nil_iff, check_eq_nil, List.flatMap_cons,
    List.flatMap_nil, List.append_nil, Bool.and_eq_true, decide_eq_true_eq] at h
  obtain ⟨⟨⟨hx, hy, hw, hheight⟩, hlogo⟩, hosd⟩ := h
  refine ⟨?_, ?_, hosd⟩
  · simp only [List.forall_mem_cons, List.not_mem_nil, false_implies, implies_true, and_true]
    exact ⟨hx, hy, hw, hheight⟩
  · intro l hl
    simpa [hl] using hlogo

theorem hostname_valid {d : Device} (h : Validator.device d = []) :
    d.hostname = "" ∨ validDeviceLabel d.hostname = true := by
  simp only [Validator.device, List.append_eq_nil_iff, check_eq_nil] at h
  obtain ⟨⟨⟨⟨⟨⟨⟨⟨⟨⟨-, -⟩, -⟩, hname⟩, -⟩, -⟩, -⟩, -⟩, -⟩, -⟩, -⟩ := h
  simp only [Bool.or_eq_true, beq_iff_eq, Bool.and_eq_true] at hname
  exact hname.imp id And.right

structure Valid (s : DesiredState) : Prop where
  hostname : s.device.hostname = "" ∨ validDeviceLabel s.device.hostname = true
  outputCount : s.outputs.size ≤ 8
  outputs : ∀ e ∈ s.outputs.entries, OutputValid e.1 e.2
  ndi : NdiValid s.ndi
  audio : AudioValid s.audio
  audioOutputs : ∀ id ∈ s.audio.outputs.keys, s.outputs.contains id = true
  network : (s.network.backend = none ∧ s.network.interface = "" ∧ s.network.networks = [] ∧
    s.network.roles = {}) ∨ NetworkValid s.network
  display : DisplayValid s.display

theorem validate_eq_ok {floatLen : ℚ → Nat} {s : DesiredState} :
    validate floatLen s = .ok () ↔ validationErrors floatLen s = [] := by
  unfold validate
  cases validationErrors floatLen s <;> simp

theorem valid_of_validate {floatLen : ℚ → Nat} {s : DesiredState}
    (h : validate floatLen s = .ok ()) : Valid s := by
  have h := validate_eq_ok.mp h
  simp only [validationErrors, List.append_eq_nil_iff, check_eq_nil, List.flatMap_eq_nil_iff,
    decide_eq_true_eq] at h
  obtain ⟨⟨⟨⟨⟨⟨⟨⟨⟨⟨⟨⟨-, hdevice⟩, hcount⟩, houtputs⟩, hndi⟩, haudio⟩, hids⟩, hnetwork⟩, -⟩,
    hdisplay⟩, -⟩, -⟩, -⟩ := h
  exact ⟨hostname_valid hdevice, hcount, fun e he => output_valid (houtputs e he), ndi_valid hndi, audio_valid haudio,
    hids, network_valid hnetwork, display_valid hdisplay⟩

end NdimonR.Types
