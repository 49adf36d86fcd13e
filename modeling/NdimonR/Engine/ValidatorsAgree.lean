import NdimonR.Engine.Validation
import NdimonR.Types.Valid
import Mathlib.Data.List.Dedup

/-! The privileged validator refines the document's: what it returns carries no network error,
and it is a fixed point with distinct ids and tags and disjoint subnets. -/

namespace NdimonR.Engine

open Types Text

@[simp] theorem addIf_eq_nil {c : Bool} {f r : String} : addIf c f r = [] ↔ c = false := by
  cases c <;> simp [addIf]

/-- What a row without common errors satisfies. -/
structure CommonOk (p : NetworkProfiles) (seen : Seen) (n : NetworkProfile) : Prop where
  id : validNetworkId n.id = true
  freshId : n.id ∉ seen.ids
  named : trim n.name ≠ ""
  short : chars n.name ≤ 64
  printable : any isControl n.name = false
  search : n.id = p.roles.management ∨ n.dnsSearch = []
  searchCount : n.dnsSearch.length ≤ maxDnsSearch
  searchDomains : ∀ d ∈ n.dnsSearch, validDnsSearchDomain d = true
  tag : ∀ t, n.vlanId = some t → 1 ≤ t ∧ t ≤ 4094
  freshTag : n.vlanId ∉ seen.tags
  ifname : len (ifname p n) ≤ 15

theorem common_errors_nil (p : NetworkProfiles) (seen : Seen) (path : String)
    (n : NetworkProfile) : commonErrors p seen path n = [] ↔ CommonOk p seen n := by
  have search : dnsSearchErrors path n.dnsSearch = [] ↔
      ∀ d ∈ n.dnsSearch, validDnsSearchDomain d = true :=
    indexed_eq_nil (by simp)
  have tag : (n.vlanId.any fun t => !(Decidable.decide (1 ≤ t) && Decidable.decide (t ≤ 4094))) = false ↔
      ∀ t, n.vlanId = some t → 1 ≤ t ∧ t ≤ 4094 := by
    cases n.vlanId <;> simp
  simp only [commonErrors, List.append_eq_nil_iff, addIf_eq_nil, search, tag]
  simp only [List.contains_eq_mem, decide_eq_false_iff_not, Bool.or_eq_false_iff,
    beq_eq_false_iff_ne, Bool.and_eq_false_iff, ne_eq, decide_not, Bool.not_eq_eq_eq_not,
    Bool.not_false, decide_eq_true_eq, List.isEmpty_iff, not_lt]
  constructor
  · rintro ⟨⟨⟨⟨⟨⟨⟨⟨h1, h2⟩, ⟨h3, h4⟩, h5⟩, h6⟩, h7⟩, h8⟩, h9⟩, h10⟩, h11⟩
    exact ⟨h1, h2, h3, h4, h5, h6, h7, h8, h9, h10, h11⟩
  · rintro ⟨h1, h2, h3, h4, h5, h6, h7, h8, h9, h10, h11⟩
    exact ⟨⟨⟨⟨⟨⟨⟨⟨h1, h2⟩, ⟨h3, h4⟩, h5⟩, h6⟩, h7⟩, h8⟩, h9⟩, h10⟩, h11⟩

/-- What a static row without errors satisfies, once its address has been read. -/
structure StaticOk (p : NetworkProfiles) (subnets : List (BitVec 32 × BitVec 32))
    (n : NetworkProfile) (a : Ipv4Addr) : Prop where
  address : Ipv4Addr.parse n.address = some a
  prefixMin : 8 ≤ n.prefixLen
  prefixMax : n.prefixLen ≤ 30
  unicast : unicast a = true
  notLow : a.toU32 ≠ (subnet a n.prefixLen).1
  notHigh : a.toU32 ≠ (subnet a n.prefixLen).2
  apart : ∀ s ∈ subnets, ¬((subnet a n.prefixLen).1 ≤ s.2 ∧ s.1 ≤ (subnet a n.prefixLen).2)
  gateway : n.gateway ≠ "" → ∃ g, Ipv4Addr.parse n.gateway = some g ∧
    (subnet a n.prefixLen).1 ≤ g.toU32 ∧ g.toU32 ≤ (subnet a n.prefixLen).2 ∧
    Engine.unicast g = true ∧ g ≠ a ∧ g.toU32 ≠ (subnet a n.prefixLen).1 ∧
    g.toU32 ≠ (subnet a n.prefixLen).2
  management : n.id = p.roles.management ∨ n.gateway = "" ∧ n.dns = []
  dnsCount : n.dns.length ≤ 3
  dns : ∀ d ∈ n.dns, ∃ a, Ipv4Addr.parse d = some a ∧ Engine.unicast a = true

theorem gateway_errors_nil (path : String) (a : Ipv4Addr) (low high : BitVec 32) (gw : String) :
    gatewayErrors path a low high gw = [] ↔
      (gw ≠ "" → ∃ g, Ipv4Addr.parse gw = some g ∧ low ≤ g.toU32 ∧ g.toU32 ≤ high ∧
        unicast g = true ∧ g ≠ a ∧ g.toU32 ≠ low ∧ g.toU32 ≠ high) := by
  unfold gatewayErrors
  by_cases h : gw = ""
  · simp [h]
  · cases hg : Ipv4Addr.parse gw with
    | none => simp [h]
    | some g => simp [h, and_assoc]

theorem address_errors_nil {subnets : List (BitVec 32 × BitVec 32)} {path : String}
    {n : NetworkProfile} {a : Ipv4Addr} (hmin : 8 ≤ n.prefixLen) (hmax : n.prefixLen ≤ 30) :
    (addressErrors subnets path n a).1 = [] ↔
      unicast a = true ∧ a.toU32 ≠ (subnet a n.prefixLen).1 ∧
      a.toU32 ≠ (subnet a n.prefixLen).2 ∧
      (∀ s ∈ subnets, ¬((subnet a n.prefixLen).1 ≤ s.2 ∧ s.1 ≤ (subnet a n.prefixLen).2)) ∧
      gatewayErrors path a (subnet a n.prefixLen).1 (subnet a n.prefixLen).2 n.gateway = [] := by
  simp only [addressErrors, hmin, hmax, and_self, if_true, List.append_eq_nil_iff, addIf_eq_nil,
    Bool.not_eq_false', Bool.or_eq_false_iff, beq_eq_false_iff_ne, List.any_eq_false,
    Bool.and_eq_true, decide_eq_true_eq, and_assoc, ne_eq]

theorem dns_errors_nil (path : String) (dns : List String) :
    dnsErrors path dns = [] ↔ ∀ d ∈ dns, ∃ a, Ipv4Addr.parse d = some a ∧ unicast a = true := by
  apply indexed_eq_nil
  intro d j
  cases hd : Ipv4Addr.parse d <;> simp [hd]

theorem static_errors_nil (p : NetworkProfiles) (subnets : List (BitVec 32 × BitVec 32))
    (path : String) (n : NetworkProfile) :
    (staticErrors p subnets path n).1 = [] ↔ ∃ a, StaticOk p subnets n a := by
  unfold staticErrors
  cases ha : Ipv4Addr.parse n.address with
  | none =>
    constructor
    · simp
    · rintro ⟨a, h⟩
      simp [h.address] at ha
  | some a =>
    simp only [List.append_eq_nil_iff, dns_errors_nil, addIf_eq_nil]
    simp only [Bool.not_eq_false', Bool.and_eq_true, decide_eq_true_eq, Bool.and_eq_false_iff,
      Bool.or_eq_false_iff, decide_eq_false_iff_not, not_lt, ne_eq, not_not,
      List.isEmpty_iff]
    constructor
    · rintro ⟨⟨⟨⟨⟨hmin, hmax⟩, haddr⟩, hm⟩, hc⟩, hd⟩
      obtain ⟨hu, hl, hh, hs, hg⟩ := (address_errors_nil hmin hmax).mp haddr
      exact ⟨a, ha, hmin, hmax, hu, hl, hh, hs, (gateway_errors_nil _ _ _ _ _).mp hg, hm, hc, hd⟩
    · rintro ⟨b, h⟩
      have hb : b = a := by simpa [ha] using h.address.symm
      subst hb
      refine ⟨⟨⟨⟨⟨h.prefixMin, h.prefixMax⟩, ?_⟩, h.management⟩, h.dnsCount⟩, h.dns⟩
      exact (address_errors_nil h.prefixMin h.prefixMax).mpr
        ⟨h.unicast, h.notLow, h.notHigh, h.apart, (gateway_errors_nil _ _ _ _ _).mpr h.gateway⟩

theorem static_subnets {p : NetworkProfiles} {subnets : List (BitVec 32 × BitVec 32)}
    {n : NetworkProfile} {a : Ipv4Addr} (h : StaticOk p subnets n a) (path : String) :
    (staticErrors p subnets path n).2 = subnets ++ [subnet a n.prefixLen] := by
  simp [staticErrors, h.address, addressErrors, h.prefixMin, h.prefixMax]

/-- A row without errors: the common part, and the static part of its mode. -/
def RowOk (p : NetworkProfiles) (seen : Seen) (n : NetworkProfile) : Prop :=
  CommonOk p seen n ∧ (n.mode = .static → ∃ a, StaticOk p seen.subnets n a)

theorem row_errors_nil (p : NetworkProfiles) (seen : Seen) (i : Nat) (n : NetworkProfile) :
    (validateRow p seen i n).1 = [] ↔ RowOk p seen n := by
  unfold validateRow RowOk
  cases hm : n.mode with
  | dhcp => simp [common_errors_nil]
  | «static» => simp [common_errors_nil, static_errors_nil]

/-- The subnet a row reserves. -/
def staticSubnet (n : NetworkProfile) : Option (BitVec 32 × BitVec 32) :=
  match n.mode with
  | .dhcp => none
  | .static => (Ipv4Addr.parse n.address).map fun a => subnet a n.prefixLen

theorem row_seen {p : NetworkProfiles} {seen : Seen} {n : NetworkProfile} (h : RowOk p seen n)
    (i : Nat) : (validateRow p seen i n).2 =
      ⟨n.id :: seen.ids, n.vlanId :: seen.tags, seen.subnets ++ (staticSubnet n).toList⟩ := by
  unfold validateRow staticSubnet
  cases hm : n.mode with
  | dhcp => simp
  | «static» =>
    obtain ⟨a, ha⟩ := h.2 hm
    simp [static_subnets ha, ha.address]

@[simp] theorem normalizeRow_id (n : NetworkProfile) : (normalizeRow n).id = n.id := by
  unfold normalizeRow
  split <;> rfl

@[simp] theorem normalizeRow_name (n : NetworkProfile) :
    (normalizeRow n).name = trim n.name := by
  unfold normalizeRow
  split <;> rfl

@[simp] theorem normalizeRow_vlanId (n : NetworkProfile) :
    (normalizeRow n).vlanId = n.vlanId := by
  unfold normalizeRow
  split <;> rfl

@[simp] theorem normalizeRow_mode (n : NetworkProfile) : (normalizeRow n).mode = n.mode := by
  unfold normalizeRow
  split <;> simp_all

@[simp] theorem normalizeRow_dnsSearch (n : NetworkProfile) :
    (normalizeRow n).dnsSearch = n.dnsSearch := by
  unfold normalizeRow
  split <;> rfl

theorem normalizeRow_static {n : NetworkProfile} (h : n.mode = .static) :
    normalizeRow n = { n with name := trim n.name } := by
  simp [normalizeRow, h]

theorem normalizeRow_dhcp {n : NetworkProfile} (h : n.mode = .dhcp) :
    normalizeRow n =
      { n with name := trim n.name, address := "", prefixLen := 0, gateway := "", dns := [] } := by
  simp [normalizeRow, h]

theorem normalizeRow_normalizeRow (n : NetworkProfile) :
    normalizeRow (normalizeRow n) = normalizeRow n := by
  cases hm : n.mode with
  | dhcp => simp [normalizeRow, hm]
  | «static» => simp [normalizeRow, hm]

theorem staticSubnet_normalizeRow (n : NetworkProfile) :
    staticSubnet (normalizeRow n) = staticSubnet n := by
  cases hm : n.mode with
  | dhcp => simp [staticSubnet, normalizeRow, hm]
  | «static» => simp [staticSubnet, normalizeRow, hm]

/-- Only the row's fields and the profile's interface and management role enter a row's checks. -/
theorem CommonOk.normalize {p q : NetworkProfiles} {seen : Seen} {n : NetworkProfile}
    (h : CommonOk p seen n) (hi : q.interface = p.interface) (hr : q.roles = p.roles) :
    CommonOk q seen (normalizeRow n) where
  id := by simpa using h.id
  freshId := by simpa using h.freshId
  named := by simpa using h.named
  short := by simpa using le_trans (chars_trim_le n.name) h.short
  printable := by simpa using any_trim_of_any h.printable
  search := by simpa [hr] using h.search
  searchCount := by simpa using h.searchCount
  searchDomains := by simpa using h.searchDomains
  tag := by simpa using h.tag
  freshTag := by simpa using h.freshTag
  ifname := by simpa [Engine.ifname, hi] using h.ifname

theorem RowOk.normalize {p q : NetworkProfiles} {seen : Seen} {n : NetworkProfile}
    (h : RowOk p seen n) (hi : q.interface = p.interface) (hr : q.roles = p.roles) :
    RowOk q seen (normalizeRow n) := by
  refine ⟨h.1.normalize hi hr, fun hm => ?_⟩
  have hs : n.mode = .static := by simpa using hm
  obtain ⟨a, ha⟩ := h.2 hs
  refine ⟨a, ?_⟩
  rw [normalizeRow_static hs]
  exact { ha with management := by rw [hr]; exact ha.management }

theorem one_le_len {s : String} (h : s ≠ "") : 1 ≤ len s := by
  rw [Nat.one_le_iff_ne_zero]
  simpa [len] using h

theorem identifier_of_validNetworkId {s : String} (h : validNetworkId s = true) :
    identifier s = true := by
  simp only [validNetworkId, Bool.and_eq_true, decide_eq_true_eq] at h
  obtain ⟨⟨⟨hne, hlen⟩, hstart⟩, hall⟩ := h
  simp [identifier, one_le_len hne, hlen, hstart, hall]

theorem no_controls {s : String} (h : any isControl s = false) :
    any (fun c => Decidable.decide (c.toNat < 32)) s = false := by
  unfold any at *
  rw [List.any_eq_false] at *
  intro c hc hlt
  have : c.toNat < 32 := by simpa using hlt
  have hn := h c hc
  simp only [isControl, Bool.or_eq_true, decide_eq_true_eq, not_or] at hn
  omega

theorem unicast_usable {a : Ipv4Addr} (h : unicast a = true) :
    (!a.isLoopback && !a.isLinkLocal && !a.isMulticast && !a.isUnspecified) = true := by
  simp only [unicast, Bool.and_eq_true, decide_eq_true_eq, Bool.not_eq_true',
    Bool.and_eq_false_iff, beq_eq_false_iff_ne] at h
  obtain ⟨⟨⟨h0, h127⟩, hlt⟩, hlocal⟩ := h
  have hmulti : ¬(224 : BitVec 8) ≤ a.o0 := by simpa using hlt
  have hzero : a ≠ ⟨0, 0, 0, 0⟩ := by
    rintro rfl
    exact h0 rfl
  simp only [Ipv4Addr.isLoopback, Ipv4Addr.isLinkLocal, Ipv4Addr.isMulticast,
    Ipv4Addr.isUnspecified, Bool.and_eq_true, Bool.not_eq_true', Bool.and_eq_false_iff,
    beq_eq_false_iff_ne, decide_eq_false_iff_not]
  exact ⟨⟨⟨h127, hlocal⟩, .inl hmulti⟩, hzero⟩

/-- The document's check of the address agrees with the engine's on a static row. -/
theorem networkAddress_of_ok {p : NetworkProfiles} {subnets : List (BitVec 32 × BitVec 32)}
    {n : NetworkProfile} {a : Ipv4Addr} (h : StaticOk p subnets n a) (path : String) :
    Validator.networkAddress subnets path n a = ([], subnets ++ [subnet a n.prefixLen]) := by
  have hgw : ∀ g, Ipv4Addr.parse n.gateway = some g →
      g.toU32 &&& prefixMask n.prefixLen = a.toU32 &&& prefixMask n.prefixLen := by
    intro g hg
    have hempty : Ipv4Addr.parse "" = none := by decide
    have hne : n.gateway ≠ "" := by
      intro he
      rw [he, hempty] at hg
      cases hg
    obtain ⟨g', hg', hlow, hhigh, _⟩ := h.gateway hne
    obtain rfl : g' = g := by simpa [hg] using hg'.symm
    exact (mem_subnet_iff a.toU32 g'.toU32 n.prefixLen).mp ⟨hlow, hhigh⟩
  have hapart : (!subnets.any fun s => Decidable.decide ((subnet a n.prefixLen).1 ≤ s.2) &&
      Decidable.decide (s.1 ≤ (subnet a n.prefixLen).2)) = true := by
    rw [Bool.not_eq_true', List.any_eq_false]
    intro s hs
    simpa using h.apart s hs
  have hgwnil : ((Ipv4Addr.parse n.gateway).elim [] fun gw =>
      Validator.check (gw.toU32 &&& prefixMask n.prefixLen == a.toU32 &&& prefixMask n.prefixLen)
        s!"{path}.gateway" "gateway must be in the same subnet") = [] := by
    cases hg : Ipv4Addr.parse n.gateway with
    | none => rfl
    | some g => simp [hgw g hg]
  unfold Validator.networkAddress
  rw [if_pos ⟨h.prefixMin, h.prefixMax⟩]
  refine Prod.ext ?_ rfl
  simp only [List.append_eq_nil_iff, check_eq_nil, hgwnil, and_true]
  refine ⟨⟨unicast_usable h.unicast, ?_⟩, ?_⟩
  · simpa [subnet] using And.intro h.notLow h.notHigh
  · exact hapart

theorem networkRowCommon_of_ok {p : NetworkProfiles} {seen : Seen} {n : NetworkProfile}
    (h : CommonOk p seen n) (hm : n.id = p.roles.management ∨ n.gateway = "" ∧ n.dns = [])
    (hcount : n.dns.length ≤ 3)
    (hdns : ∀ d ∈ n.dns, (Ipv4Addr.parse d).isSome = true) (path : String) :
    Validator.networkRowCommon p seen path n = [] := by
  have htag : (n.vlanId.elim [] fun tag =>
      Validator.range tag 1 4094 s!"{path}.vlan_id" ++
      Validator.check (len s!"{p.interface}.{tag}" ≤ 15) s!"{path}.vlan_id"
        "derived interface exceeds 15 bytes") = [] := by
    cases ht : n.vlanId with
    | none => rfl
    | some t =>
      have := h.ifname
      simp only [Engine.ifname, ht] at this
      simp only [Option.elim_some, List.append_eq_nil_iff, range_eq_nil, check_eq_nil,
        decide_eq_true_eq]
      exact ⟨h.tag t ht, this⟩
  have hdomains : Validator.dnsSearchErrors path n.dnsSearch = [] :=
    (indexed_eq_nil (P := fun d => validDnsSearchDomain d = true) (by simp)).mpr h.searchDomains
  have hservers : Validator.dnsErrors path n.dns = [] :=
    (indexed_eq_nil (P := fun d => (Ipv4Addr.parse d).isSome = true) (by simp)).mpr hdns
  have howner : (n.id == p.roles.management ||
      (n.gateway == "" && n.dns.isEmpty && n.dnsSearch.isEmpty)) = true := by
    rcases h.search with he | he
    · simp [he]
    · rcases hm with hm | ⟨hg, hd⟩
      · simp [hm]
      · simp [he, hg, hd]
  simp only [Validator.networkRowCommon, List.append_eq_nil_iff, check_eq_nil, htag, hdomains,
    hservers, howner, and_true]
  simp [identifier_of_validNetworkId h.id, h.freshId, h.named, h.short, no_controls h.printable,
    h.freshTag, h.searchCount, hcount]

theorem networkRow_of_ok {p : NetworkProfiles} {seen : Seen} {n : NetworkProfile}
    (h : RowOk p seen n) (hn : normalizeRow n = n) (i : Nat) :
    Validator.networkRow p seen i n = ([], (validateRow p seen i n).2) := by
  rw [row_seen h]
  obtain ⟨hc, hs⟩ := h
  have hid := identifier_of_validNetworkId hc.id
  cases hm : n.mode with
  | dhcp =>
    rw [normalizeRow_dhcp hm] at hn
    have ha : n.address = "" := by rw [← hn]
    have hp : n.prefixLen = 0 := by rw [← hn]
    have hg : n.gateway = "" := by rw [← hn]
    have hd : n.dns = [] := by rw [← hn]
    have hcommon := networkRowCommon_of_ok hc (.inr ⟨hg, hd⟩) (by simp [hd]) (by simp [hd])
    simp [Validator.networkRow, hm, hcommon, hid, Validator.dhcpNormalized, ha, hp, hg, hd,
      staticSubnet]
  | «static» =>
    obtain ⟨a, ha⟩ := hs hm
    have hdns : ∀ d ∈ n.dns, (Ipv4Addr.parse d).isSome = true := by
      intro d hd
      obtain ⟨b, hb, _⟩ := ha.dns d hd
      simp [hb]
    have hcommon := networkRowCommon_of_ok hc ha.management ha.dnsCount hdns
    have hgw : (n.gateway == "" || (Ipv4Addr.parse n.gateway).isSome) = true := by
      by_cases hg : n.gateway = ""
      · simp [hg]
      · obtain ⟨g, hg, _⟩ := ha.gateway hg
        simp [hg]
    simp only [Validator.networkRow, hm, hcommon, hid, ha.address, networkAddress_of_ok ha, hgw]
    simp [ha.prefixMin, ha.prefixMax, staticSubnet, hm, ha.address, Validator.check]

/-- Every row passes against what the rows before it left. -/
def RowsOk (p : NetworkProfiles) : Seen → Nat → List NetworkProfile → Prop
  | _, _, [] => True
  | seen, i, n :: rest => RowOk p seen n ∧ RowsOk p (validateRow p seen i n).2 (i + 1) rest

theorem rows_errors_nil (p : NetworkProfiles) (rows : List NetworkProfile) (seen : Seen) (i : Nat) :
    (validateRows p seen i rows).1 = [] ↔ RowsOk p seen i rows := by
  induction rows generalizing seen i with
  | nil => simp [validateRows, RowsOk]
  | cons n rest ih => simp [validateRows, RowsOk, row_errors_nil, ih]

theorem RowsOk.normalize {p q : NetworkProfiles} (hi : q.interface = p.interface)
    (hr : q.roles = p.roles) {rows : List NetworkProfile} {seen : Seen} {i : Nat}
    (h : RowsOk p seen i rows) : RowsOk q seen i (rows.map normalizeRow) := by
  induction rows generalizing seen i with
  | nil => trivial
  | cons n rest ih =>
    obtain ⟨hn, hrest⟩ := h
    have hq := hn.normalize hi hr
    refine ⟨hq, ?_⟩
    rw [row_seen hn] at hrest
    rw [row_seen hq]
    simpa [staticSubnet_normalizeRow] using ih hrest

theorem networkRows_of_ok {p : NetworkProfiles} {rows : List NetworkProfile} {seen : Seen}
    {i : Nat} (h : RowsOk p seen i rows) (hn : ∀ n ∈ rows, normalizeRow n = n) :
    Validator.networkRows p seen i rows = ([], (validateRows p seen i rows).2) := by
  induction rows generalizing seen i with
  | nil => rfl
  | cons n rest ih =>
    obtain ⟨hrow, hrest⟩ := h
    simp only [Validator.networkRows, validateRows]
    rw [networkRow_of_ok hrow (hn n (by simp))]
    simp only [List.nil_append]
    rw [ih hrest (fun m hm => hn m (by simp [hm]))]

/-- The ids, tags and subnets of accepted rows are those seen, each new to the earlier ones. -/
theorem RowsOk.seen {p : NetworkProfiles} {rows : List NetworkProfile} {seen : Seen} {i : Nat}
    (h : RowsOk p seen i rows) : (validateRows p seen i rows).2 =
      ⟨(rows.map (·.id)).reverse ++ seen.ids, (rows.map (·.vlanId)).reverse ++ seen.tags,
        seen.subnets ++ rows.filterMap staticSubnet⟩ := by
  induction rows generalizing seen i with
  | nil => simp [validateRows]
  | cons n rest ih =>
    obtain ⟨hrow, hrest⟩ := h
    simp only [validateRows]
    rw [ih hrest, row_seen hrow]
    cases hs : staticSubnet n <;> simp [hs]

theorem RowsOk.distinct {p : NetworkProfiles} {rows : List NetworkProfile} {seen : Seen} {i : Nat}
    (h : RowsOk p seen i rows) :
    ((rows.map (·.id)).Nodup ∧ ∀ n ∈ rows, n.id ∉ seen.ids) ∧
      (rows.map (·.vlanId)).Nodup ∧ ∀ n ∈ rows, n.vlanId ∉ seen.tags := by
  induction rows generalizing seen i with
  | nil => simp
  | cons n rest ih =>
    obtain ⟨hrow, hrest⟩ := h
    obtain ⟨⟨hids, hseen⟩, htags, htagged⟩ := ih hrest
    rw [row_seen hrow] at hseen htagged
    refine ⟨⟨?_, ?_⟩, ?_, ?_⟩
    · refine List.nodup_cons.mpr ⟨fun hm => ?_, hids⟩
      obtain ⟨m, hm, he⟩ := List.mem_map.mp hm
      exact hseen m hm (by simp [he])
    · intro m hm
      rcases List.mem_cons.mp hm with rfl | hm
      · exact hrow.1.freshId
      · exact fun hc => hseen m hm (by simp [hc])
    · refine List.nodup_cons.mpr ⟨fun hm => ?_, htags⟩
      obtain ⟨m, hm, he⟩ := List.mem_map.mp hm
      exact htagged m hm (by simp [he])
    · intro m hm
      rcases List.mem_cons.mp hm with rfl | hm
      · exact hrow.1.freshTag
      · exact fun hc => htagged m hm (by simp [hc])

/-- No address lies in both ranges. -/
def Apart (s t : BitVec 32 × BitVec 32) : Prop :=
  ∀ x : BitVec 32, ¬((s.1 ≤ x ∧ x ≤ s.2) ∧ t.1 ≤ x ∧ x ≤ t.2)

theorem RowsOk.subnets_apart {p : NetworkProfiles} {rows : List NetworkProfile} {seen : Seen}
    {i : Nat} (h : RowsOk p seen i rows) :
    (rows.filterMap staticSubnet).Pairwise Apart ∧
      ∀ t ∈ rows.filterMap staticSubnet, ∀ s ∈ seen.subnets, Apart s t := by
  induction rows generalizing seen i with
  | nil => simp
  | cons n rest ih =>
    obtain ⟨hrow, hrest⟩ := h
    obtain ⟨hpair, hseen⟩ := ih hrest
    rw [row_seen hrow] at hseen
    cases hs : staticSubnet n with
    | none =>
      simp only [hs, List.filterMap_cons_none, Option.toList_none, List.append_nil] at hseen ⊢
      exact ⟨hpair, hseen⟩
    | some t =>
      simp only [hs, Option.toList_some, List.mem_append, List.mem_singleton] at hseen
      have hstatic : n.mode = .static := by
        cases hm : n.mode with
        | dhcp => simp [staticSubnet, hm] at hs
        | «static» => rfl
      obtain ⟨a, ha⟩ := hrow.2 hstatic
      obtain rfl : subnet a n.prefixLen = t := by
        simpa [staticSubnet, hstatic, ha.address] using hs
      rw [List.filterMap_cons_some hs]
      refine ⟨List.pairwise_cons.mpr ⟨fun u hu => hseen u hu _ (.inr rfl), hpair⟩, ?_⟩
      intro u hu s hin
      rcases List.mem_cons.mp hu with rfl | hu
      · rintro x ⟨⟨hl, hh⟩, hl', hh'⟩
        exact ha.apart s hin ⟨BitVec.le_trans hl' hh, BitVec.le_trans hl hh'⟩
      · exact hseen u hu s (.inl hin)

/-- An accepted candidate, part by part. -/
structure CandidateOk (p previous : NetworkProfiles) : Prop where
  interface : p.interface = previous.interface
  backend : p.backend = previous.backend
  physical : physical p.interface = true
  adopted : p.backend.isSome = true
  nonempty : 1 ≤ p.networks.length
  count : p.networks.length ≤ 9
  tagged : (p.networks.filter (·.vlanId.isSome)).length ≤ 8
  rows : RowsOk p {} 0 p.networks
  management : p.roles.management ∈ p.networks.map (·.id)
  ndi : p.roles.ndi ∈ p.networks.map (·.id)
  audio : p.roles.audio ∈ p.networks.map (·.id)

theorem validation_errors_nil (p previous : NetworkProfiles) :
    validationErrors p previous = [] ↔ CandidateOk p previous := by
  unfold validationErrors
  simp only [List.append_eq_nil_iff, addIf_eq_nil, rows_errors_nil, List.flatMap_cons,
    List.flatMap_nil, List.append_nil]
  simp only [Bool.not_eq_false', Bool.or_eq_false_iff, Bool.and_eq_true, decide_eq_true_eq,
    decide_eq_false_iff_not, not_lt, ne_eq, not_not, List.contains_eq_mem,
    Option.isNone_eq_false_iff]
  constructor
  · rintro ⟨⟨⟨⟨⟨⟨⟨hi, hb⟩, hp⟩, ha⟩, hmin, hmax⟩, ht⟩, hr⟩, hm, hn, hau⟩
    rw [hr.seen] at hm hn hau
    exact ⟨hi, hb, hp, ha, hmin, hmax, ht, hr, by simpa using hm, by simpa using hn,
      by simpa using hau⟩
  · intro h
    rw [h.rows.seen]
    refine ⟨⟨⟨⟨⟨⟨⟨h.interface, h.backend⟩, h.physical⟩, h.adopted⟩, h.nonempty, h.count⟩,
      h.tagged⟩, h.rows⟩, ?_, ?_, ?_⟩
    · simpa using h.management
    · simpa using h.ndi
    · simpa using h.audio

theorem validate_ok {candidate previous p : NetworkProfiles}
    (h : validate candidate previous = .ok p) :
    CandidateOk candidate previous ∧ p = normalize candidate := by
  unfold validate at h
  cases he : validationErrors candidate previous with
  | nil =>
    rw [he] at h
    exact ⟨(validation_errors_nil _ _).mp he, (Except.ok.inj h).symm⟩
  | cons e es =>
    rw [he] at h
    cases h

theorem normalize_normalize (p : NetworkProfiles) : normalize (normalize p) = normalize p := by
  simp [normalize, Function.comp_def, normalizeRow_normalizeRow]

/-- Normalising an accepted candidate leaves a profile the engine accepts over itself. -/
theorem CandidateOk.normalized {p previous : NetworkProfiles} (h : CandidateOk p previous) :
    CandidateOk (normalize p) (normalize p) where
  interface := rfl
  backend := rfl
  physical := h.physical
  adopted := h.adopted
  nonempty := by simpa [normalize] using h.nonempty
  count := by simpa [normalize] using h.count
  tagged := by simpa [normalize, List.filter_map, Function.comp_def] using h.tagged
  rows := RowsOk.normalize (p := p) (q := normalize p) rfl rfl h.rows
  management := by simpa [normalize, Function.comp_def] using h.management
  ndi := by simpa [normalize, Function.comp_def] using h.ndi
  audio := by simpa [normalize, Function.comp_def] using h.audio

theorem rows_fixed {p : NetworkProfiles} (hn : normalize p = p) :
    ∀ n ∈ p.networks, normalizeRow n = n := by
  have hmap : p.networks.map normalizeRow = p.networks.map id := by
    rw [List.map_id]
    exact congrArg NetworkProfiles.networks hn
  exact List.map_inj_left.mp hmap

/-- A normalised accepted profile has no error under the document's validator. -/
theorem CandidateOk.network_errors {p : NetworkProfiles} (h : CandidateOk p p)
    (hn : normalize p = p) : Validator.network p = [] := by
  have hrows := rows_fixed hn
  have hbackend : p.backend.isNone = false := by simpa using h.adopted
  have hphys := h.physical
  simp only [Engine.physical, Bool.and_eq_true, decide_eq_true_eq] at hphys
  obtain ⟨⟨⟨hne, hlen⟩, _⟩, hall⟩ := hphys
  have htags : (((p.networks.map (·.vlanId)).reverse.dedup).filter Option.isSome).length ≤ 8 := by
    refine le_trans ((List.dedup_sublist _).filter _).length_le ?_
    simpa [List.filter_map, Function.comp_def] using h.tagged
  simp only [Validator.network, hbackend, Bool.false_eq_true, if_false,
    networkRows_of_ok h.rows hrows, h.rows.seen, List.append_nil, List.append_eq_nil_iff,
    check_eq_nil]
  simp only [Bool.and_eq_true, decide_eq_true_eq, List.flatMap_cons, List.flatMap_nil,
    List.append_nil, List.append_eq_nil_iff, check_eq_nil, List.contains_eq_mem,
    List.mem_reverse]
  exact ⟨⟨⟨⟨⟨one_le_len hne, hlen⟩, hall⟩, h.nonempty, h.count⟩, htags⟩,
    h.management, h.ndi, h.audio⟩

theorem RowOk.managementOnly {p : NetworkProfiles} {seen : Seen} {n : NetworkProfile}
    (h : RowOk p seen n) (hn : normalizeRow n = n) (hm : n.id ≠ p.roles.management) :
    n.gateway = "" ∧ n.dns = [] ∧ n.dnsSearch = [] := by
  have hsearch := h.1.search.resolve_left hm
  cases hmode : n.mode with
  | dhcp =>
    rw [normalizeRow_dhcp hmode] at hn
    exact ⟨by rw [← hn], by rw [← hn], hsearch⟩
  | «static» =>
    obtain ⟨a, ha⟩ := h.2 hmode
    obtain ⟨hg, hd⟩ := ha.management.resolve_left hm
    exact ⟨hg, hd, hsearch⟩

theorem RowsOk.row {p : NetworkProfiles} {rows : List NetworkProfile} {seen : Seen} {i : Nat}
    (h : RowsOk p seen i rows) {n : NetworkProfile} (hn : n ∈ rows) : ∃ s, RowOk p s n := by
  induction rows generalizing seen i with
  | nil => cases hn
  | cons m rest ih =>
    obtain ⟨hrow, hrest⟩ := h
    rcases List.mem_cons.mp hn with rfl | hn
    · exact ⟨seen, hrow⟩
    · exact ih hrest hn

/-- What may be committed: no document error, stable under the engine, and well laid out. -/
structure Committable (p : NetworkProfiles) : Prop where
  accepted : Validator.network p = []
  fixed : validate p p = .ok p
  ids : (p.networks.map (·.id)).Nodup
  tags : (p.networks.map (·.vlanId)).Nodup
  subnets : (p.networks.filterMap staticSubnet).Pairwise Apart
  roles : ∀ id ∈ [p.roles.management, p.roles.ndi, p.roles.audio], ∃ n ∈ p.networks, n.id = id
  managementOnly : ∀ n ∈ p.networks, n.id ≠ p.roles.management →
    n.gateway = "" ∧ n.dns = [] ∧ n.dnsSearch = []

theorem CandidateOk.committable {p : NetworkProfiles} (h : CandidateOk p p)
    (hn : normalize p = p) : Committable p where
  accepted := h.network_errors hn
  fixed := by rw [validate, (validation_errors_nil p p).mpr h, hn]
  ids := h.rows.distinct.1.1
  tags := h.rows.distinct.2.1
  subnets := h.rows.subnets_apart.1
  roles := by
    intro id hid
    simp only [List.mem_cons, List.not_mem_nil, or_false] at hid
    rcases hid with rfl | rfl | rfl
    · exact List.mem_map.mp h.management
    · exact List.mem_map.mp h.ndi
    · exact List.mem_map.mp h.audio
  managementOnly := by
    intro n hin hm
    obtain ⟨s, hrow⟩ := h.rows.row hin
    exact hrow.managementOnly (rows_fixed hn n hin) hm

/-- Putting a network section without errors into a valid document keeps it valid. -/
theorem validate_with_network (floatLen : ℚ → Nat) (state : DesiredState) {p : NetworkProfiles}
    (hp : Validator.network p = []) (h : Types.validate floatLen state = .ok ()) :
    Types.validate floatLen { state with network := p } = .ok () := by
  have hnil : Types.validationErrors floatLen state = [] := by
    unfold Types.validate at h
    split at h
    · assumption
    · cases h
  suffices hq : Types.validationErrors floatLen { state with network := p } = [] by
    rw [Types.validate, hq]
  unfold Types.validationErrors at hnil ⊢
  simp only [List.append_eq_nil_iff] at hnil ⊢
  obtain ⟨⟨⟨⟨⟨⟨hbefore, _⟩, ht⟩, hd⟩, hs⟩, hpre⟩, hpl⟩ := hnil
  exact ⟨⟨⟨⟨⟨⟨hbefore, hp⟩, ht⟩, hd⟩, hs⟩, hpre⟩, hpl⟩

/-- A change the engine stages can be kept: its validated profile is committable, and no valid
document stops being valid by receiving it. -/
theorem staged_profiles_can_be_kept (candidate previous p : NetworkProfiles)
    (h : validate candidate previous = .ok p) :
    Committable p ∧ ∀ (floatLen : ℚ → Nat) (state : DesiredState),
      Types.validate floatLen state = .ok () →
        Types.validate floatLen { state with network := p } = .ok () := by
  obtain ⟨hok, rfl⟩ := validate_ok h
  have hp := hok.normalized.committable (normalize_normalize candidate)
  exact ⟨hp, fun floatLen state hs => validate_with_network floatLen state hp.accepted hs⟩

/-- A port with a static management row and a tagged DHCP row. -/
def sampleProfiles : NetworkProfiles where
  interface := "eth0"
  backend := some .networkd
  networks :=
    [{ id := "lan"
       name := " Studio LAN"
       mode := .static
       address := "10.0.0.5"
       prefixLen := 24
       gateway := "10.0.0.1"
       dns := ["10.0.0.1"] },
     { id := "audio", name := "Audio", vlanId := some 20 }]
  roles := ⟨"lan", "lan", "audio"⟩

theorem sample_profiles_can_be_kept :
    validate sampleProfiles sampleProfiles = .ok (normalize sampleProfiles) ∧
      Committable (normalize sampleProfiles) ∧ ∀ (floatLen : ℚ → Nat) (state : DesiredState),
        Types.validate floatLen state = .ok () →
          Types.validate floatLen { state with network := normalize sampleProfiles } = .ok () :=
  ⟨rfl, staged_profiles_can_be_kept sampleProfiles sampleProfiles _ rfl⟩

end NdimonR.Engine
