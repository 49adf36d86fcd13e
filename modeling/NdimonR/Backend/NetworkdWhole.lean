import NdimonR.Backend.NetworkdAdoption

/-! Adoption is to refuse what a row cannot hold. Which accepted files a row holds whole, and
which lose a setting. -/

namespace NdimonR.Backend.Networkd

open Types Text Engine Backend

/-! ### A row that holds a file whole -/

/-- The [Route] sections that set something. -/
def routeSections (d : List Section) : List Section :=
  d.filter fun s => s.name = "Route" && sets s.assignments

def HasAddress (n : NetworkProfile) (v : String) : Prop :=
  n.mode = .static ∧ ∃ bits, splitOnce "/" v = some (n.address, bits) ∧
    parseUnsigned 255 bits = some n.prefixLen

/-- The value that decides for a lease: the last one given, else the backend's own. -/
def leaseOption (d : List Section) (key default : String) : String :=
  ((assigned ["DHCPv4", "DHCP"] key d).filter (· ≠ "")).getLast?.getD default

/-- What rendering the row as the management network writes for an option. -/
def writtenOption (n : NetworkProfile) (m : Metadata) (key : String) : Option String :=
  (address (some n) true m).findSome? (stripPrefix (key ++ "="))

def flag (v : String) : Bool := v = "yes" || v = "true"

structure Whole (d : List Section) (n : NetworkProfile) (dhcpMetric staticMetric : Nat) :
    Prop where
  routes : (routeSections d).length ≤ 1 ∧
    ∀ s ∈ routeSections d, lastGateway s.assignments = some n.gateway
  dns : ∀ v ∈ kept (assigned ["Network"] "DNS" d), v ∈ n.dns
  domains : ∀ v ∈ kept (assigned ["Network"] "Domains" d), v ∈ n.dnsSearch
  addresses : ∀ kind ∈ ["Network", "Address"], ∀ v ∈ kept (assigned [kind] "Address" d),
    HasAddress n v
  uses : n.mode = .dhcp → ∀ key ∈ ["UseRoutes", "UseDNS"],
    (writtenOption n { dhcpMetric, staticMetric } key).map flag =
      some (flag (leaseOption d key "yes"))
  metric : n.mode = .dhcp →
    (writtenOption n { dhcpMetric, staticMetric } "RouteMetric").map (parseUnsigned u32Max) =
      some (parseUnsigned u32Max (leaseOption d "RouteMetric" "1024"))

/-! ### The files no setting of which is lost -/

def SameAddress (v w : String) : Prop :=
  ∃ a bits bits' len, splitOnce "/" v = some (a, bits) ∧ splitOnce "/" w = some (a, bits') ∧
    parseUnsigned 255 bits = some len ∧ parseUnsigned 255 bits' = some len

/-- The last word on leases is to use one. -/
def leased (d : List Section) : Prop := (assigned ["Network"] "DHCP" d).getLast? = some "ipv4"

structure Retained (d : List Section) : Prop where
  /-- A route that an empty `Gateway=` of [Network] follows is alone, and given again there. -/
  routes : ∀ before s after, d = before ++ s :: after → s ∈ routeSections d →
    "" ∈ assigned ["Network"] "Gateway" after → routeSections d = [s] ∧
      (lastGateway s.assignments).toList = kept (assigned ["Network"] "Gateway" after)
  /-- An address that only the other kind of section clears is given again later. -/
  addresses : ∀ kind ∈ ["Network", "Address"], ∀ v ∈ kept (assigned [kind] "Address" d),
    ∃ w ∈ kept (assigned ["Network", "Address"] "Address" d), SameAddress v w
  /-- A lease is used for routes and names. -/
  uses : leased d → ∀ key ∈ ["UseRoutes", "UseDNS"], flag (leaseOption d key "yes") = true

/-! ### Routes -/

theorem lastGateway_ne {l : List Assignment} {g : String} (h : lastGateway l = some g) : g ≠ "" := by
  obtain ⟨a, ha, rfl⟩ := Option.map_eq_some_iff.mp h
  have hmem := List.mem_of_getLast? ha
  simp only [List.mem_filter, Bool.and_eq_true, decide_eq_true_eq] at hmem
  exact hmem.2.2

theorem run_append {a b : List Section} {before after : List String} :
    GatewaysRun before (a ++ b) after ↔ ∃ mid, GatewaysRun before a mid ∧ GatewaysRun mid b after := by
  induction a generalizing before with
  | nil => simp [GatewaysRun]
  | cons s a ih =>
    simp only [List.cons_append, GatewaysRun, ih]
    tauto

theorem resetList_prefix {values : List String} (h : "" ∉ values) (before : List String) :
    before <+: values.foldl resetList before := by
  induction values generalizing before with
  | nil => exact List.prefix_rfl
  | cons v rest ih =>
    simp only [List.mem_cons, not_or] at h
    have hv : before <+: resetList before v := by
      rw [resetList, if_neg (Ne.symm h.1)]
      exact List.prefix_append _ _
    exact hv.trans (ih h.2 (resetList before v))

theorem foldl_resetList {values : List String} (h : "" ∈ values) (before : List String) :
    values.foldl resetList before = kept values := by
  unfold kept
  induction values generalizing before with
  | nil => simp at h
  | cons v rest ih =>
    by_cases hv : v = ""
    · simp [resetList, hv]
    · have hrest : "" ∈ rest := (List.mem_cons.mp h).resolve_left (Ne.symm hv)
      rw [List.foldl_cons, List.foldl_cons, ih hrest, ih hrest (resetList [] v)]

theorem assigned_cons (names : List String) (key : String) (s : Section) (d : List Section) :
    assigned names key (s :: d) = assigned names key [s] ++ assigned names key d := by
  simp [assigned]

theorem routeSections_cons (s : Section) (d : List Section) :
    routeSections (s :: d) =
      (if s.name = "Route" ∧ sets s.assignments = true then [s] else []) ++ routeSections d := by
  by_cases hs : s.name = "Route" ∧ sets s.assignments = true <;> simp [routeSections, hs]

/-- Where nothing is cleared, what is there stays and every route adds its gateway. -/
theorem run_grows {d : List Section} {before after : List String} (h : GatewaysRun before d after)
    (hclear : "" ∉ assigned ["Network"] "Gateway" d) :
    before <+: after ∧ before.length + (routeSections d).length ≤ after.length := by
  induction d generalizing before with
  | nil =>
    cases h
    exact ⟨List.prefix_rfl, le_rfl⟩
  | cons s rest ih =>
    obtain ⟨mid, hmid, hrest⟩ := h
    rw [assigned_cons, List.mem_append, not_or] at hclear
    obtain ⟨hgrows, hlength⟩ := ih hrest hclear.2
    rw [routeSections_cons]
    have hfirst : before <+: mid ∧ before.length +
        (if s.name = "Route" ∧ sets s.assignments = true then [s] else []).length ≤ mid.length := by
      unfold GatewaysAfter at hmid
      by_cases hname : s.name = "Route"
      · rw [if_pos hname] at hmid
        by_cases hsets : sets s.assignments = true
        · rw [if_pos hsets] at hmid
          obtain ⟨more, g, -, rfl⟩ := hmid
          rw [if_pos ⟨hname, hsets⟩, List.append_assoc]
          exact ⟨List.prefix_append _ _, by simp⟩
        · rw [if_neg hsets] at hmid
          rw [hmid]
          simp [hsets]
      · rw [if_neg hname] at hmid
        have hkept := resetList_prefix hclear.1 before
        rw [← hmid] at hkept
        simpa [hname] using ⟨hkept, hkept.length_le⟩
    refine ⟨hfirst.1.trans hgrows, ?_⟩
    rw [List.length_append]
    omega

/-- Without routes the list is the one of [Network]. -/
theorem run_plain {d : List Section} {before after : List String} (h : GatewaysRun before d after)
    (hnone : routeSections d = []) :
    after = (assigned ["Network"] "Gateway" d).foldl resetList before := by
  induction d generalizing before with
  | nil => exact h
  | cons s rest ih =>
    obtain ⟨mid, hmid, hrest⟩ := h
    rw [routeSections_cons, List.append_eq_nil_iff] at hnone
    rw [assigned_cons, List.foldl_append, ih hrest hnone.2]
    congr 1
    unfold GatewaysAfter at hmid
    by_cases hname : s.name = "Route"
    · have hsets : ¬ sets s.assignments = true := fun hsets => by simp [hname, hsets] at hnone
      rw [if_pos hname, if_neg hsets] at hmid
      simp [hmid, assigned, hname]
    · rw [if_neg hname] at hmid
      exact hmid

theorem mem_routeSections {d : List Section} {s : Section} :
    s ∈ routeSections d ↔ s ∈ d ∧ s.name = "Route" ∧ sets s.assignments = true := by
  simp [routeSections]

theorem routeSections_append (a b : List Section) :
    routeSections (a ++ b) = routeSections a ++ routeSections b := by
  simp [routeSections]

/-- What a route leaves at the end of the list, and what the sections after it make of that. -/
theorem run_route {before after : List Section} {s : Section} {gs : List String}
    (h : GatewaysRun [] (before ++ s :: after) gs) (hname : s.name = "Route")
    (hsets : sets s.assignments = true) :
    ∃ more g, lastGateway s.assignments = some g ∧ GatewaysRun (more ++ [g]) after gs := by
  obtain ⟨mid, -, next, hnext, hrest⟩ := run_append.mp h
  unfold GatewaysAfter at hnext
  rw [if_pos hname, if_pos hsets] at hnext
  obtain ⟨more, g, hg, rfl⟩ := hnext
  exact ⟨mid ++ more, g, hg, hrest⟩

/-- Every route that nothing clears is in the list. -/
theorem routes_counted {d : List Section} {before gs : List String} (h : GatewaysRun before d gs)
    (hclear : ∀ a s b, d = a ++ s :: b → s ∈ routeSections d →
      "" ∉ assigned ["Network"] "Gateway" b) : (routeSections d).length ≤ gs.length := by
  induction d generalizing before with
  | nil => simp [routeSections]
  | cons s rest ih =>
    obtain ⟨mid, hmid, hrest⟩ := h
    rw [routeSections_cons]
    by_cases hs : s.name = "Route" ∧ sets s.assignments = true
    · have hnone := hclear [] s rest rfl (mem_routeSections.mpr ⟨List.mem_cons_self, hs⟩)
      obtain ⟨-, hlength⟩ := run_grows hrest hnone
      unfold GatewaysAfter at hmid
      rw [if_pos hs.1, if_pos hs.2] at hmid
      obtain ⟨more, g, -, rfl⟩ := hmid
      simp only [if_pos hs, List.length_append, List.length_singleton] at hlength ⊢
      omega
    · rw [if_neg hs, List.nil_append]
      apply ih hrest
      intro a t b hsplit ht
      refine hclear (s :: a) t b (by rw [hsplit]; rfl) ?_
      rw [routeSections_cons]
      exact List.mem_append_right _ ht

/-- At most one gateway is left: a route is the row's exactly when it is not lost. -/
theorem routes_iff {d : List Section} {gs : List String} (h : GatewaysRun [] d gs)
    (hone : gs.length ≤ 1) :
    ((routeSections d).length ≤ 1 ∧
      ∀ s ∈ routeSections d, lastGateway s.assignments = some (gs.head?.getD "")) ↔
    ∀ before s after, d = before ++ s :: after → s ∈ routeSections d →
      "" ∈ assigned ["Network"] "Gateway" after → routeSections d = [s] ∧
        (lastGateway s.assignments).toList = kept (assigned ["Network"] "Gateway" after) := by
  have hlonely : ∀ {before s after}, d = before ++ s :: after → s ∈ routeSections d →
      (routeSections d).length ≤ 1 → routeSections d = [s] ∧ routeSections after = [] := by
    intro before s after hsplit hs hlength
    have hroute := mem_routeSections.mp hs
    have hlist := hsplit ▸ routeSections_append before (s :: after)
    rw [routeSections_cons, if_pos hroute.2] at hlist
    rw [hlist] at hlength ⊢
    simp only [List.length_append, List.length_cons] at hlength
    have hbefore : routeSections before = [] := List.eq_nil_of_length_eq_zero (by omega)
    have hafter : routeSections after = [] := List.eq_nil_of_length_eq_zero (by omega)
    rw [hbefore, hafter]
    exact ⟨rfl, rfl⟩
  have hcleared : ∀ {before s after}, d = before ++ s :: after → s ∈ routeSections d →
      routeSections after = [] → "" ∈ assigned ["Network"] "Gateway" after →
        gs = kept (assigned ["Network"] "Gateway" after) := by
    intro before s after hsplit hs hafter hclear
    obtain ⟨-, hname, hsets⟩ := mem_routeSections.mp hs
    obtain ⟨more, g, -, hrest⟩ := run_route (hsplit ▸ h) hname hsets
    rw [run_plain hrest hafter, foldl_resetList hclear]
  constructor
  · rintro ⟨hlength, hgateway⟩ before s after hsplit hs hclear
    obtain ⟨hsole, hafter⟩ := hlonely hsplit hs hlength
    have hgs := hcleared hsplit hs hafter hclear
    have hg := hgateway s hs
    refine ⟨hsole, ?_⟩
    rw [hg, ← hgs]
    cases gs with
    | nil => exact absurd rfl (lastGateway_ne hg)
    | cons g rest =>
      have hrest : rest = [] := List.eq_nil_of_length_eq_zero (by simpa using hone)
      simp [hrest]
  · intro hlost
    by_cases hany : ∃ before s after, d = before ++ s :: after ∧ s ∈ routeSections d ∧
        "" ∈ assigned ["Network"] "Gateway" after
    · obtain ⟨before, s, after, hsplit, hs, hclear⟩ := hany
      obtain ⟨hsole, hgiven⟩ := hlost before s after hsplit hs hclear
      have hlength : (routeSections d).length ≤ 1 := by rw [hsole]; simp
      refine ⟨hlength, fun t ht => ?_⟩
      rw [hsole, List.mem_singleton] at ht
      subst ht
      rw [hcleared hsplit hs (hlonely hsplit hs hlength).2 hclear, ← hgiven]
      obtain ⟨-, hname, hsets⟩ := mem_routeSections.mp hs
      obtain ⟨more, g, hg, -⟩ := run_route (hsplit ▸ h) hname hsets
      simp [hg]
    · have hnone : ∀ a s b, d = a ++ s :: b → s ∈ routeSections d →
          "" ∉ assigned ["Network"] "Gateway" b := fun a s b hsplit hs hclear =>
        hany ⟨a, s, b, hsplit, hs, hclear⟩
      refine ⟨(routes_counted h hnone).trans hone, fun s hs => ?_⟩
      obtain ⟨hd, hname, hsets⟩ := mem_routeSections.mp hs
      obtain ⟨before, after, hsplit⟩ := List.append_of_mem hd
      obtain ⟨more, g, hg, hrest⟩ := run_route (hsplit ▸ h) hname hsets
      obtain ⟨⟨tail, htail⟩, hlength⟩ := run_grows hrest (hnone before s after hsplit hs)
      simp only [List.length_append, List.length_singleton] at hlength
      have hmore : more = [] := List.eq_nil_of_length_eq_zero (by omega)
      rw [hg, ← htail, hmore]
      rfl

/-! ### Addresses and leases -/

theorem hasAddress_iff {n : NetworkProfile} {addresses : List String}
    (h : (n.mode = .dhcp ∧ addresses = []) ∨ (n.mode = .static ∧ ∃ a bits, addresses = [a] ∧
      splitOnce "/" a = some (n.address, bits) ∧ parseUnsigned 255 bits = some n.prefixLen))
    (v : String) : HasAddress n v ↔ ∃ w ∈ addresses, SameAddress v w := by
  rcases h with ⟨hmode, rfl⟩ | ⟨hmode, a, bits, rfl, hsplit, hbits⟩
  · simp [HasAddress, hmode]
  · simp only [HasAddress, hmode, true_and, List.mem_singleton, exists_eq_left]
    constructor
    · rintro ⟨bits', hv, hlen⟩
      exact ⟨n.address, bits', bits, n.prefixLen, hv, hsplit, hlen, hbits⟩
    · rintro ⟨address, bits', bits'', len, hv, ha, hlen, hlen'⟩
      rw [hsplit] at ha
      cases ha
      rw [hbits] at hlen'
      cases hlen'
      exact ⟨bits', hv, hlen⟩

theorem writtenOption_lease {n : NetworkProfile} (hmode : n.mode = .dhcp) (m : Metadata) :
    writtenOption n m "UseRoutes" = some "yes" ∧ writtenOption n m "UseDNS" = some "yes" ∧
      writtenOption n m "RouteMetric" = some (toString m.dhcpMetric) := by
  have hskip : ∀ key ∈ ["UseRoutes", "UseDNS", "RouteMetric"],
      (if True ∧ n.dnsSearch ≠ [] then ["Domains=" ++ unwords n.dnsSearch] else []).findSome?
        (stripPrefix (key ++ "=")) = none := by
    intro key hkey
    simp only [List.mem_cons, List.not_mem_nil, or_false] at hkey
    rcases hkey with rfl | rfl | rfl <;> by_cases hsearch : n.dnsSearch = [] <;>
      simp [hsearch, stripPrefix]
  simp only [writtenOption, address, hmode]
  refine ⟨?_, ?_, ?_⟩
  · rw [List.findSome?_append, List.findSome?_append, hskip "UseRoutes" (by simp)]
    rfl
  · rw [List.findSome?_append, List.findSome?_append, hskip "UseDNS" (by simp)]
    rfl
  · rw [List.findSome?_append, List.findSome?_append, hskip "RouteMetric" (by simp)]
    generalize toString m.dhcpMetric = v
    simp [stripPrefix]

theorem leased_iff {d : List Section} :
    leased d ↔ (assigned ["Network"] "DHCP" d).foldl (fun _ v => v == "ipv4") false = true := by
  have hfold : ∀ (l : List String) (b : Bool), l.foldl (fun _ v => v == "ipv4") b =
      (l.getLast?.map (· == "ipv4")).getD b := by
    intro l b
    induction l generalizing b with
    | nil => rfl
    | cons v rest ih =>
      rw [List.foldl_cons, ih, List.getLast?_cons]
      cases rest.getLast? <;> rfl
  rw [leased, hfold]
  cases (assigned ["Network"] "DHCP" d).getLast? <;> simp

/-- The metric of a lease is the last one given. -/
theorem metric_last (values : List String) {default : String} {metric : Option Nat}
    (h : metric = parseUnsigned u32Max default) :
    values.foldl metricSetting metric =
      parseUnsigned u32Max ((values.filter (· ≠ "")).getLast?.getD default) := by
  induction values generalizing metric default with
  | nil => exact h
  | cons v rest ih =>
    rw [List.foldl_cons]
    by_cases hv : v = ""
    · rw [metricSetting, if_pos hv, ih h]
      simp [hv]
    · rw [metricSetting, if_neg hv, ih rfl]
      simp only [ne_eq, hv, not_false_eq_true, decide_true, List.filter_cons_of_pos,
        List.getLast?_cons, Option.getD_some]

/-- An accepted file is held whole by its row exactly when no clear in one section takes away what
another kind of section gave, and no lease is kept from giving routes or names. -/
theorem adopted_whole_iff {text : String} {n : NetworkProfile} {dhcpMetric staticMetric : Nat}
    (h : parse text = .ok (n, dhcpMetric, staticMetric)) :
    Whole (sections text) n dhcpMetric staticMetric ↔ Retained (sections text) := by
  obtain ⟨c, hreads, hrow, rfl, rfl⟩ := parse_reads h
  obtain ⟨hsearch, hdns, hgateway, hone, hmode⟩ := row_cases hrow
  have hroutes := routes_iff hreads.gateways hone
  rw [← hgateway] at hroutes
  have haddress : ∀ v, HasAddress n v ↔ ∃ w ∈ c.addresses, SameAddress v w := by
    apply hasAddress_iff
    rcases hmode with ⟨-, hm, ha⟩ | ⟨-, hm, ha⟩
    · exact .inl ⟨hm, ha⟩
    · exact .inr ⟨hm, ha⟩
  rw [hreads.addresses] at haddress
  have hleased : leased (sections text) ↔ n.mode = .dhcp := by
    rw [leased_iff, ← hreads.dhcp]
    rcases hmode with ⟨hd, hm, -⟩ | ⟨hd, hm, -⟩ <;> simp [hd, hm]
  have hmetric : some c.dhcpMetric =
      parseUnsigned u32Max (leaseOption (sections text) "RouteMetric" "1024") :=
    hreads.dhcpMetric.trans (metric_last _ rfl)
  have huse : n.mode = .dhcp → ∀ key ∈ ["UseRoutes", "UseDNS"],
      (writtenOption n { dhcpMetric := c.dhcpMetric, staticMetric := c.staticMetric } key).map flag =
        some true := by
    intro hlease key hkey
    obtain ⟨hroutes, hdns, -⟩ := writtenOption_lease hlease
      { dhcpMetric := c.dhcpMetric, staticMetric := c.staticMetric }
    simp only [List.mem_cons, List.not_mem_nil, or_false] at hkey
    rcases hkey with rfl | rfl
    · rw [hroutes]
      rfl
    · rw [hdns]
      rfl
  constructor
  · intro hwhole
    refine ⟨hroutes.mp hwhole.routes, fun kind hkind v hv => ?_, fun hlease key hkey => ?_⟩
    · exact (haddress v).mp (hwhole.addresses kind hkind v hv)
    · have hflag := hwhole.uses (hleased.mp hlease) key hkey
      rw [huse (hleased.mp hlease) key hkey] at hflag
      exact (Option.some.inj hflag).symm
  · intro hkept
    refine ⟨hroutes.mpr hkept.routes, fun v hv => ?_, fun v hv => ?_, fun kind hkind v hv => ?_,
      fun hlease key hkey => ?_, fun hlease => ?_⟩
    · rwa [hdns, hreads.dns]
    · rwa [hsearch, hreads.domains]
    · exact (haddress v).mpr (hkept.addresses kind hkind v hv)
    · rw [huse hlease key hkey, hkept.uses (hleased.mpr hlease) key hkey]
    · obtain ⟨-, -, hwritten⟩ := writtenOption_lease hlease
        { dhcpMetric := c.dhcpMetric, staticMetric := c.staticMetric }
      have hbound := parseUnsigned_le hmetric.symm
      rw [hwritten, ← hmetric, Option.map_some, parseUnsigned_toString hbound]

def plainLease : String := "[Network]\nDHCP=ipv4\n"

/-- A plain lease is held whole. -/
theorem plain_lease_whole :
    parse plainLease = .ok (dhcpRow, 1024, 0) ∧ Whole (sections plainLease) dhcpRow 1024 0 := by
  have hparse : parse plainLease = .ok (dhcpRow, 1024, 0) := rfl
  have hsections : sections plainLease = [⟨"Network", [("DHCP", "ipv4")]⟩] := rfl
  refine ⟨hparse, (adopted_whole_iff hparse).mpr ?_⟩
  rw [hsections]
  refine ⟨fun before s after _ hs => ?_, fun kind hkind v hv => ?_, fun _ key hkey => ?_⟩
  · simp [routeSections] at hs
  · simp [assigned, kept] at hv
  · simp only [List.mem_cons, List.not_mem_nil, or_false] at hkey
    rcases hkey with rfl | rfl <;> simp [leaseOption, assigned, flag]

/-- A drop-in that empties `Gateway=` after the route: the route is accepted and forgotten. -/
def clearedRoute : String :=
  "[Network]\nAddress=10.0.0.5/24\n[Route]\nGateway=10.0.0.1\n[Network]\nGateway=\n"

/-- A lease that is not to be used for routes is accepted as one that is. -/
def unusedLease : String := "[Network]\nDHCP=ipv4\n[DHCPv4]\nUseRoutes=no\n"

theorem settings_are_lost :
    (∃ n, parse clearedRoute = .ok (n, 1024, 0) ∧ ¬ Whole (sections clearedRoute) n 1024 0) ∧
      ∃ n, parse unusedLease = .ok (n, 1024, 0) ∧ ¬ Whole (sections unusedLease) n 1024 0 := by
  constructor
  · let adopted : NetworkProfile :=
      { dhcpRow with mode := .static, address := "10.0.0.5", prefixLen := 24 }
    refine ⟨adopted, rfl, fun h => ?_⟩
    have hroute : routeSections (sections clearedRoute) =
        [⟨"Route", [("Gateway", "10.0.0.1")]⟩] := rfl
    have hgateway := h.routes.2
    rw [hroute] at hgateway
    simp [lastGateway, adopted, dhcpRow] at hgateway
  · refine ⟨dhcpRow, rfl, fun h => ?_⟩
    have huse := h.uses rfl "UseRoutes" (by simp)
    have hwritten : flag (leaseOption (sections unusedLease) "UseRoutes" "yes") = false := rfl
    rw [hwritten] at huse
    cases huse

end NdimonR.Backend.Networkd
