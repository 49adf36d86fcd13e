import NdimonR.Backend.Accepted
import NdimonR.Backend.Netplan

/-! A written definition reads back as the row it was written of; of a foreign one, only a
`gateway4` of the wrong type is lost. -/

namespace NdimonR.Backend.Netplan

open Types Text Engine Backend Json

/-! ### Reading what was written -/

theorem closedKeys_ok {known : List String} {name : String → String} {v : Json}
    (h : ∀ k ∈ Json.keys v, k ∈ known) : closedKeys known name v = .ok () := by
  have hnone : ((Json.keys v).find? fun k => !known.contains k) = none := by
    rw [List.find?_eq_none]
    intro k hk
    simpa using h k hk
  rw [closedKeys, hnone]

theorem keys_known {members : List (String × Json)} {known : List String}
    (h : ∀ k ∈ members.map Prod.fst, k ∈ known) : ∀ k ∈ Json.keys (ofMembers members), k ∈ known :=
  fun k hk => h k (mem_keys_ofMembers.mp hk)

theorem mapM_text (error : ApiError) (l : List String) :
    (l.map Json.str).mapM (text error) = .ok l := by
  rw [Outcome.mapM_eq_ok, List.forall₂_map_left_iff, List.forall₂_same]
  intro s _
  rfl

def servers (dns search : List String) : Json :=
  ofMembers (("addresses", strings dns) :: if search ≠ [] then [("search", strings search)] else [])

/-- The definition of a row, by the parts that vary. -/
def definition (dhcp4 : Bool) (addresses : List String) (routes : List Json)
    (dns search : List String) (management : Bool) (m : Metadata) : Json :=
  ofMembers (members dhcp4 addresses routes (servers dns search) ++
    [("dhcp4-overrides", overrides management m)])

theorem u32_nat {n : Nat} (h : n ≤ u32Max) (error : ApiError) :
    u32 error (.int n) = .ok n := by
  have hbound : n < 18446744073709551616 := by
    unfold u32Max at h
    omega
  have hnumber : Json.asU64 (.int n) = some n := asU64_nat hbound
  rw [u32, hnumber]
  exact if_pos h

section

variable (dhcp4 : Bool) (addresses : List String) (routes : List Json) (dns search : List String)
  (management : Bool) (m : Metadata)

theorem get_definition (k : String) :
    Json.get k (definition dhcp4 addresses routes dns search management m) =
      SortedMap.lookup k (members dhcp4 addresses routes (servers dns search) ++
        [("dhcp4-overrides", overrides management m)]) :=
  get_ofMembers (by simp [members]) k

theorem get_servers (k : String) : Json.get k (servers dns search) =
    if k = "addresses" then some (strings dns)
    else if k = "search" ∧ search ≠ [] then some (strings search) else none := by
  unfold servers
  rw [get_ofMembers (by by_cases h : search = [] <;> simp [h])]
  by_cases h : search = [] <;> simp [h, SortedMap.lookup]

theorem get_overrides (k : String) : Json.get k (overrides management m) =
    SortedMap.lookup k [("use-routes", .bool management), ("use-dns", .bool management),
      ("use-ntp", .bool false), ("use-hostname", .bool false),
      ("route-metric", .int m.dhcpMetric)] :=
  get_ofMembers (by simp) k

theorem list_addresses :
    list (definition dhcp4 addresses routes dns search management m) "addresses" =
      .ok (addresses.map .str) := by
  simp [list, get_definition, members, SortedMap.lookup, strings]

theorem list_routes :
    list (definition dhcp4 addresses routes dns search management m) "routes" = .ok routes := by
  simp [list, get_definition, members, SortedMap.lookup]

theorem nameservers_definition (hcount : search.length ≤ maxDnsSearch)
    (hvalid : ∀ d ∈ search, validDnsSearchDomain d = true) :
    nameservers (definition dhcp4 addresses routes dns search management m) =
      .ok (dns.map .str, search) := by
  have hmember : Json.member "nameservers"
      (definition dhcp4 addresses routes dns search management m) = servers dns search := by
    simp [member_eq_get, get_definition, members, SortedMap.lookup]
  have hclosed : closedKeys ["addresses", "search"] ("nameservers." ++ ·) (servers dns search) =
      .ok () := by
    apply closedKeys_ok
    apply keys_known
    by_cases h : search = [] <;> simp [h]
  have hsearch : list (servers dns search) "search" = .ok (search.map .str) := by
    rw [list, get_servers]
    by_cases h : search = [] <;> simp [h, strings]
  have haddresses : list (servers dns search) "addresses" = .ok (dns.map .str) := by
    rw [list, get_servers]
    simp [strings]
  have hobject : servers dns search ≠ .null := by simp [servers, ofMembers]
  rw [nameservers, hmember]
  simp only [if_neg hobject, hclosed, hsearch, haddresses, mapErr, Outcome.bind_ok, mapM_text,
    searchList_ok hcount hvalid]
  rfl

theorem leaseMetric_definition (hd : m.dhcpMetric ≤ u32Max) :
    leaseMetric (definition dhcp4 addresses routes dns search management m) =
      .ok m.dhcpMetric := by
  have hmember : Json.member "dhcp4-overrides"
      (definition dhcp4 addresses routes dns search management m) = overrides management m := by
    simp [member_eq_get, get_definition, members, SortedMap.lookup]
  have hclosed : closedKeys ["route-metric", "use-routes", "use-dns", "use-ntp", "use-hostname",
      "use-domains"] ("dhcp4-overrides." ++ ·) (overrides management m) = .ok () := by
    apply closedKeys_ok
    apply keys_known
    simp
  have hdomains : Json.get "use-domains" (overrides management m) = none := by
    simp [get_overrides, SortedMap.lookup]
  have hmetric : Json.get "route-metric" (overrides management m) = some (.int m.dhcpMetric) := by
    simp [get_overrides, SortedMap.lookup]
  rw [leaseMetric, hmember]
  simp only [hclosed, hdomains, hmetric, Outcome.bind_ok, metricOr, u32_nat hd]
  rfl

end

/-- What an accepted definition passed, and what its row is made of. -/
structure Parsed (v : Json) (addresses routes : List Json) (servers : List Json × List String)
    (metric : Nat) (gateways : Gateways × Nat) (row : NetworkProfile) : Prop where
  object : (Json.asObject v).isNone = false
  closed : closedKeys allowed id v = .ok ()
  privacy : ((Json.get "ipv6-privacy" v).any fun p => !Json.isBoolean p) = false
  plain : ipv6 v = false
  readsAddresses : list v "addresses" = .ok addresses
  readsRoutes : list v "routes" = .ok routes
  single : (1 < routes.length || !routes.isEmpty && (Json.get "gateway4" v).isSome) = false
  readsServers : nameservers v = .ok servers
  readsMetric : leaseMetric v = .ok metric
  readsGateways : readRoutes v routes = .ok gateways
  gateway : (1 < gateways.1.size : Bool) = false
  colons : ((addresses ++ servers.1).any (fun v => (Json.asStr v).any (any (· == ':'))) ||
    gateways.1.keys.any (any (· == ':'))) = false
  readsRow : modeRow v dhcpRow addresses servers.1 gateways.1 = .ok row

theorem parse_eq_ok {v : Json} {n : NetworkProfile} {metric staticMetric : Nat} :
    parse v = .ok (n, metric, staticMetric) ↔ ∃ addresses routes servers gateways row,
      Parsed v addresses routes servers metric gateways row ∧
        n = { row with dnsSearch := servers.2 } ∧ staticMetric = gateways.2 := by
  simp only [parse, Outcome.bind_eq_ok, refuse_eq_ok, exists_const]
  constructor
  · rintro ⟨hobject, _, hclosed, hprivacy, hplain, addresses, haddresses, routes, hroutes, hsingle,
      servers, hservers, metric', hmetric, gateways, hgateways, hgateway, hcolons, row, hrow, h⟩
    cases h
    exact ⟨addresses, routes, servers, gateways, row,
      ⟨hobject, hclosed, hprivacy, hplain, haddresses, hroutes, hsingle, hservers, hmetric,
        hgateways, hgateway, hcolons, hrow⟩, rfl, rfl⟩
  · rintro ⟨addresses, routes, servers, gateways, row, h, rfl, rfl⟩
    exact ⟨h.object, (), h.closed, h.privacy, h.plain, addresses, h.readsAddresses, routes, h.readsRoutes,
      h.single, servers, h.readsServers, metric, h.readsMetric, gateways, h.readsGateways, h.gateway, h.colons,
      row, h.readsRow, rfl⟩

/-! ### The row of an accepted profile -/

def rowAddresses (n : NetworkProfile) : List String :=
  match n.mode with
  | .dhcp => []
  | .static => [n.address ++ "/" ++ toString n.prefixLen]

def rowRoutes (n : NetworkProfile) (m : Metadata) : List Json :=
  if n.gateway = "" then [] else [route n.gateway m.staticMetric]

/-- What is written of the management row. -/
theorem entry_management {p : NetworkProfiles} {n : NetworkProfile} (h : RowValid p n)
    (hid : n.id = p.roles.management) (m : Metadata) :
    entry (some n) p m = definition (n.mode = .dhcp) (rowAddresses n) (rowRoutes n m) n.dns
      n.dnsSearch true m := by
  have hmanagement : (n.id == p.roles.management) = true := beq_iff_eq.mpr hid
  unfold entry
  cases hm : n.mode with
  | dhcp =>
    obtain ⟨-, -, hgateway, hdns⟩ := h.dhcp hm
    simp [hm, hmanagement, definition, servers, rowAddresses, rowRoutes, hgateway, hdns]
  | «static» =>
    by_cases hgateway : n.gateway = "" <;>
      simp [hm, hmanagement, definition, servers, rowAddresses, rowRoutes, hgateway]

/-- The gateways of a row as the reader collects them. -/
def rowGateways (n : NetworkProfile) : Gateways :=
  if n.gateway = "" then .empty else SortedMap.empty.insert n.gateway ()

theorem readRoute_route (gateways : Gateways) (gateway : String) {metric : Nat}
    (h : metric ≤ u32Max) :
    readRoute gateways (route gateway metric) = .ok (gateways.insert gateway (), metric) := by
  have hget : ∀ k, Json.get k (route gateway metric) = SortedMap.lookup k
      [("to", .str "default"), ("via", .str gateway), ("metric", .int metric)] :=
    fun k => get_ofMembers (by simp) k
  have hto : Json.member "to" (route gateway metric) = .str "default" := by
    simp [member_eq_get, hget, SortedMap.lookup]
  have hvia : Json.member "via" (route gateway metric) = .str gateway := by
    simp [member_eq_get, hget, SortedMap.lookup]
  have hmetric : Json.get "metric" (route gateway metric) = some (.int metric) := by
    simp [hget, SortedMap.lookup]
  have hkeys : ((Json.keys (route gateway metric)).any fun k =>
      !(["to", "via", "metric"].contains k)) = false := by
    rw [List.any_eq_false]
    intro k hk
    have hk := mem_keys_ofMembers.mp hk
    have hcontains := List.contains_iff_mem.mpr hk
    simp only [List.map_cons, List.map_nil] at hcontains
    rw [hcontains]
    simp
  have hobject : (Json.asObject (route gateway metric)).isNone = false := rfl
  rw [readRoute, hto, hvia, hmetric, hkeys, hobject]
  simp only [text, Json.asStr, metricOr, u32_nat h]
  rfl

theorem readRoutes_row {v : Json} (hv : Json.member "gateway4" v = .null) (n : NetworkProfile)
    {m : Metadata} (hs : m.staticMetric ≤ u32Max) :
    readRoutes v (rowRoutes n m) =
      .ok (rowGateways n, if n.gateway = "" then 0 else m.staticMetric) := by
  unfold readRoutes rowRoutes rowGateways
  rw [hv]
  by_cases hgateway : n.gateway = ""
  · simp [hgateway, Json.asStr, pure, Except.pure]
  · simp [hgateway, Json.asStr, readRoute_route _ _ hs]

theorem keys_rowGateways (n : NetworkProfile) :
    (rowGateways n).keys = if n.gateway = "" then [] else [n.gateway] := by
  unfold rowGateways
  split <;> rfl

theorem modeRow_entry {p : NetworkProfiles} {n : NetworkProfile} (h : RowValid p n) {v : Json}
    (hv : Json.member "dhcp4" v = .bool (n.mode = .dhcp)) :
    modeRow v dhcpRow ((rowAddresses n).map .str) (n.dns.map .str) (rowGateways n) =
      .ok { adopted n with dnsSearch := [] } := by
  unfold modeRow
  rw [hv]
  cases hm : n.mode with
  | dhcp =>
    obtain ⟨haddress, hlen, hgateway, hdns⟩ := h.dhcp hm
    have hempty : (rowGateways n).isEmpty = true := by
      rw [rowGateways, if_pos hgateway]
      rfl
    simp [rowAddresses, hm, hempty, hdns, adopted, haddress, hlen, hgateway, dhcpRow]
  | «static» =>
    have hhead : (rowGateways n).keys.head?.getD "" = n.gateway := by
      rw [keys_rowGateways]
      by_cases hgateway : n.gateway = "" <;> simp [hgateway]
    have hcut := cut_cidr h hm
    have hbits := bits_cidr h hm
    simp only [rowAddresses, hm, List.map_cons, List.map_nil, staticRow, Json.asStr,
      Option.bind_some, hcut, hbits, mapM_text, Outcome.bind_ok, hhead, adopted]
    simp [dhcpRow]

theorem colons_row {p : NetworkProfiles} {n : NetworkProfile} (h : RowValid p n) :
    (((rowAddresses n).map Json.str ++ n.dns.map Json.str).any
        (fun v => (Json.asStr v).any (any (· == ':'))) ||
      (rowGateways n).keys.any (any (· == ':'))) = false := by
  have hplain := rowPlain_of_valid h
  rw [← List.map_append, List.any_map, Bool.or_eq_false_iff, List.any_eq_false, List.any_eq_false,
    keys_rowGateways]
  constructor
  · intro t ht
    have htext : Plain t := by
      rcases List.mem_append.mp ht with ht | ht
      · unfold rowAddresses at ht
        cases hm : n.mode with
        | dhcp => simp [hm] at ht
        | «static» =>
          simp only [hm, List.mem_singleton] at ht
          rw [ht]
          exact plain_cidr (hplain.address hm)
      · exact hplain.dns t ht
    simpa [Json.asStr] using colon_of_plain htext
  · intro g hg
    by_cases hgateway : n.gateway = ""
    · simp [hgateway] at hg
    · rw [if_neg hgateway, List.mem_singleton] at hg
      rw [hg, colon_of_plain (hplain.gateway hgateway)]
      simp

theorem parsed_entry {p : NetworkProfiles} {n : NetworkProfile} (h : RowValid p n)
    {m : Metadata} (hd : m.dhcpMetric ≤ u32Max) (hs : m.staticMetric ≤ u32Max) :
    Parsed (definition (n.mode = .dhcp) (rowAddresses n) (rowRoutes n m) n.dns n.dnsSearch true m)
      ((rowAddresses n).map .str) (rowRoutes n m) (n.dns.map .str, n.dnsSearch) m.dhcpMetric
      (rowGateways n, if n.gateway = "" then 0 else m.staticMetric)
      { adopted n with dnsSearch := [] } := by
  have hget := get_definition (n.mode = .dhcp) (rowAddresses n) (rowRoutes n m) n.dns n.dnsSearch
    true m
  have hnone : ∀ k ∈ ["ipv6-privacy", "gateway4", "gateway6", "dhcp6-overrides"], Json.get k
      (definition (n.mode = .dhcp) (rowAddresses n) (rowRoutes n m) n.dns n.dnsSearch true m) =
        none := by
    intro k hk
    simp only [List.mem_cons, List.not_mem_nil, or_false] at hk
    rcases hk with rfl | rfl | rfl | rfl <;> simp [hget, members, SortedMap.lookup]
  have hgateway4 : Json.member "gateway4"
      (definition (n.mode = .dhcp) (rowAddresses n) (rowRoutes n m) n.dns n.dnsSearch true m) =
        .null := by
    simp [member_eq_get, hnone "gateway4" (by simp)]
  have hone : ¬ 1 < (rowRoutes n m).length := by
    unfold rowRoutes
    split <;> simp
  have hsize : ¬ 1 < (rowGateways n).size := by
    have hlength : (rowGateways n).size = (rowGateways n).keys.length := by
      simp [SortedMap.size, SortedMap.keys]
    rw [hlength, keys_rowGateways]
    split <;> simp
  exact
    { object := rfl
      closed := closedKeys_ok (keys_known (by simp [members, allowed]))
      privacy := by simp [hnone "ipv6-privacy" (by simp)]
      plain := by
        simp [ipv6, member_eq_get, hnone "gateway6" (by simp), hnone "dhcp6-overrides" (by simp),
          hget, members, SortedMap.lookup]
      readsAddresses := list_addresses ..
      readsRoutes := list_routes ..
      single := by simp [hone, hnone "gateway4" (by simp)]
      readsServers := nameservers_definition _ _ _ _ _ _ _ h.searchCount h.search
      readsMetric := leaseMetric_definition _ _ _ _ _ _ _ hd
      readsGateways := readRoutes_row hgateway4 n hs
      gateway := by simpa using hsize
      colons := colons_row h
      readsRow := modeRow_entry h (by simp [member_eq_get, hget, members, SortedMap.lookup]) }

/-- What is written of the management row reads back as that row. -/
theorem parse_entry {p : NetworkProfiles} (hp : Accepted p) {n : NetworkProfile}
    (hn : n ∈ p.networks) (hid : n.id = p.roles.management) {m : Metadata}
    (hd : m.dhcpMetric ≤ u32Max) (hs : m.staticMetric ≤ u32Max) :
    parse (entry (some n) p m) =
      .ok (adopted n, m.dhcpMetric, if n.gateway = "" then 0 else m.staticMetric) := by
  have hrow := (hp.valid hn).rows n hn
  rw [entry_management hrow hid]
  exact parse_eq_ok.mpr ⟨_, _, _, _, _, parsed_entry hrow hd hs, rfl, rfl⟩

/-! ### Foreign definitions -/

/-- The values given under a key: the items of a list, or one value of another type. -/
def given (key : String) (v : Json) : List Json :=
  match Json.get key v with
  | none => []
  | some .null => []
  | some (.arr items) => items
  | some x => [x]

/-- The values given for a gateway. -/
def gatewayValues (v : Json) : List Json :=
  (if Json.member "gateway4" v = .null then [] else [Json.member "gateway4" v]) ++
    (given "routes" v).map (Json.member "via")

/-- The row has what the definition gives, and nothing else. -/
structure Exact (v : Json) (n : NetworkProfile) : Prop where
  gateway : (gatewayValues v = [] ∧ n.gateway = "") ∨ gatewayValues v = [.str n.gateway]
  addresses : (n.mode = .dhcp ∧ given "addresses" v = []) ∨
    (n.mode = .static ∧ ∃ a bits, given "addresses" v = [.str a] ∧
      splitOnce "/" a = some (n.address, bits) ∧ parseUnsigned 255 bits = some n.prefixLen)
  dns : given "addresses" (Json.member "nameservers" v) = n.dns.map .str
  search : given "search" (Json.member "nameservers" v) = n.dnsSearch.map .str

theorem given_of_list {v : Json} {key : String} {items : List Json}
    (h : list v key = .ok items) : given key v = items := by
  unfold list at h
  unfold given
  cases hget : Json.get key v with
  | none =>
    rw [hget] at h
    cases h
    rfl
  | some x =>
    rw [hget] at h
    cases x with
    | null | arr =>
      cases h
      rfl
    | bool | int | float | str | obj => cases h

theorem text_eq_ok {error : ApiError} {v : Json} {s : String} :
    text error v = .ok s ↔ v = .str s := by
  unfold text
  cases v <;> simp [Json.asStr]

theorem mapM_text_eq {error : ApiError} {items : List Json} {l : List String}
    (h : items.mapM (text error) = .ok l) : items = l.map .str := by
  have hall := (Outcome.mapM_eq_ok.mp h).imp fun _ _ => text_eq_ok.mp
  rw [← List.forall₂_map_right_iff (f := Json.str), List.forall₂_eq_eq_eq] at hall
  exact hall

theorem mapErr_eq_ok {α : Type} {error : ApiError} {x : Result α} {a : α} :
    mapErr error x = .ok a ↔ x = .ok a := by
  cases x <;> simp [mapErr]

theorem searchList_eq {values search : List String} {key : String}
    (h : searchList values key = .ok search) : search = values := by
  rcases ite_eq_iff.mp h with ⟨-, h⟩ | ⟨-, h⟩
  · cases h
  · exact (Except.ok.inj h).symm

theorem nameservers_given {v : Json} {servers : List Json × List String}
    (h : nameservers v = .ok servers) :
    given "addresses" (Json.member "nameservers" v) = servers.1 ∧
      given "search" (Json.member "nameservers" v) = servers.2.map .str := by
  unfold nameservers at h
  rcases ite_eq_iff.mp h with ⟨hnull, h⟩ | ⟨-, h⟩
  · cases h
    rw [hnull]
    exact ⟨rfl, rfl⟩
  · simp only [Outcome.bind_eq_ok, mapErr_eq_ok] at h
    obtain ⟨-, -, -, -, items, hitems, search, hsearch, addresses, haddresses, kept, hkept, h⟩ := h
    cases h
    rw [given_of_list haddresses, given_of_list hitems, searchList_eq hkept]
    exact ⟨rfl, mapM_text_eq hsearch⟩

/-- There is no route, or one route and no `gateway4`. -/
theorem readRoutes_cases {v : Json} {routes : List Json} {gateways : Gateways × Nat}
    (hsingle : (1 < routes.length || !routes.isEmpty && (Json.get "gateway4" v).isSome) = false)
    (h : readRoutes v routes = .ok gateways) :
    (routes = [] ∧ gateways.1.keys = (Json.asStr (Json.member "gateway4" v)).toList) ∨
      ∃ r via, routes = [r] ∧ Json.member "gateway4" v = .null ∧ Json.member "via" r = .str via ∧
        gateways.1.keys = [via] := by
  cases routes with
  | nil =>
    cases h
    left
    cases Json.asStr (Json.member "gateway4" v) <;> exact ⟨rfl, rfl⟩
  | cons r rest =>
    simp only [List.length_cons, List.isEmpty_cons, Bool.or_eq_false_iff, decide_eq_false_iff_not,
      not_lt, Bool.not_false, Bool.true_and, Option.isSome_eq_false_iff, Option.isNone_iff_eq_none]
      at hsingle
    obtain ⟨hlength, hnone⟩ := hsingle
    have hrest : rest = [] := List.eq_nil_of_length_eq_zero (by omega)
    have hgateway4 : Json.member "gateway4" v = .null := by
      rw [member_eq_get, hnone]
      rfl
    subst hrest
    unfold readRoutes at h
    rw [hgateway4] at h
    simp only [Json.asStr, List.foldlM_cons, List.foldlM_nil] at h
    obtain ⟨read, hread, h⟩ := Outcome.bind_eq_ok.mp h
    cases h
    simp only [readRoute, Outcome.bind_eq_ok, text_eq_ok] at hread
    obtain ⟨-, -, -, -, via, hvia, metric, -, hread⟩ := hread
    cases hread
    exact .inr ⟨r, via, rfl, hgateway4, hvia, rfl⟩

theorem asStr_eq_some {v : Json} {s : String} (h : Json.asStr v = some s) : v = .str s := by
  cases v <;> simp_all [Json.asStr]

theorem staticRow_cases {addresses dns : List Json} {gateways : Gateways} {base row : NetworkProfile}
    (h : staticRow base addresses dns gateways = .ok row) :
    row.mode = .static ∧ dns = row.dns.map .str ∧ row.gateway = gateways.keys.head?.getD "" ∧
      ∃ a bits, addresses = [.str a] ∧ splitOnce "/" a = some (row.address, bits) ∧
        parseUnsigned 255 bits = some row.prefixLen := by
  unfold staticRow at h
  split at h
  · rename_i a
    cases hcut : (Json.asStr a).bind (splitOnce "/") with
    | none => simp [hcut] at h
    | some pair =>
      obtain ⟨address, bits⟩ := pair
      simp only [hcut] at h
      obtain ⟨s, hs, hsplit⟩ := Option.bind_eq_some_iff.mp hcut
      cases hbits : parseUnsigned 255 bits with
      | none => simp [hbits] at h
      | some prefixLen =>
        simp only [hbits] at h
        obtain ⟨texts, htexts, h⟩ := Outcome.bind_eq_ok.mp h
        cases h
        exact ⟨rfl, mapM_text_eq htexts, rfl, s, bits, by rw [asStr_eq_some hs], hsplit, hbits⟩
  · cases h

theorem modeRow_cases {v : Json} {addresses dns : List Json} {gateways : Gateways}
    {row : NetworkProfile} (h : modeRow v dhcpRow addresses dns gateways = .ok row) :
    (row = dhcpRow ∧ addresses = [] ∧ gateways.keys = [] ∧ dns = []) ∨
      (row.mode = .static ∧ dns = row.dns.map .str ∧ row.gateway = gateways.keys.head?.getD "" ∧
        ∃ a bits, addresses = [.str a] ∧ splitOnce "/" a = some (row.address, bits) ∧
          parseUnsigned 255 bits = some row.prefixLen) := by
  rcases ite_eq_iff.mp h with ⟨-, h⟩ | ⟨-, h⟩
  · rcases ite_eq_iff.mp h with ⟨-, h⟩ | ⟨hmixed, h⟩
    · cases h
    · cases h
      simp only [ne_eq, not_or, not_not, Bool.not_eq_false] at hmixed
      obtain ⟨haddresses, hempty, hdns⟩ := hmixed
      have hkeys : gateways.keys = [] := by
        rw [SortedMap.keys, List.isEmpty_iff.mp hempty]
        rfl
      exact .inl ⟨rfl, haddresses, hkeys, hdns⟩
  · exact .inr (staticRow_cases h)

/-- What an accepted definition gives is in its row, but for a `gateway4` that is no text. -/
theorem exact_entry_iff {v : Json} {n : NetworkProfile} {metric staticMetric : Nat}
    (h : parse v = .ok (n, metric, staticMetric)) :
    Exact v n ↔ Json.member "gateway4" v = .null ∨ ∃ g, Json.member "gateway4" v = .str g := by
  obtain ⟨addresses, routes, servers, gateways, row, hp, rfl, rfl⟩ := parse_eq_ok.mp h
  obtain ⟨hdns, hsearch⟩ := nameservers_given hp.readsServers
  have haddresses := given_of_list hp.readsAddresses
  have hroutes := given_of_list hp.readsRoutes
  have hvalues : gatewayValues v = (if Json.member "gateway4" v = .null then []
      else [Json.member "gateway4" v]) ++ routes.map (Json.member "via") := by
    rw [gatewayValues, hroutes]
  have hrow := modeRow_cases hp.readsRow
  have hgateway : row.gateway = gateways.1.keys.head?.getD "" := by
    rcases hrow with ⟨rfl, -, hkeys, -⟩ | ⟨-, -, hgateway, -⟩
    · rw [hkeys]
      rfl
    · exact hgateway
  have hrest : ((row.mode = .dhcp ∧ given "addresses" v = []) ∨
      (row.mode = .static ∧ ∃ a bits, given "addresses" v = [.str a] ∧
        splitOnce "/" a = some (row.address, bits) ∧
          parseUnsigned 255 bits = some row.prefixLen)) ∧ servers.1 = row.dns.map .str := by
    rw [haddresses]
    rcases hrow with ⟨rfl, hnone, -, hempty⟩ | ⟨hmode, htexts, -, haddress⟩
    · exact ⟨.inl ⟨rfl, hnone⟩, hempty⟩
    · exact ⟨.inr ⟨hmode, haddress⟩, htexts⟩
  have hexact : Exact v { row with dnsSearch := servers.2 } ↔
      (gatewayValues v = [] ∧ row.gateway = "") ∨ gatewayValues v = [.str row.gateway] :=
    ⟨fun h => h.gateway, fun h => ⟨h, hrest.1, hdns.trans hrest.2, hsearch⟩⟩
  rw [hexact, hvalues, hgateway]
  rcases readRoutes_cases hp.single hp.readsGateways with
    ⟨rfl, hkeys⟩ | ⟨r, via, rfl, hnull, hvia, hkeys⟩
  · rw [hkeys]
    cases hg : Json.member "gateway4" v <;> simp [Json.asStr]
  · simp [hnull, hvia, hkeys]

/-- The writer's definition of an accepted management row reads back as that row; a foreign
definition is held whole exactly when its `gateway4`, if any, is a text. -/
theorem adoption_inverts_entry (p : NetworkProfiles) (v : Json) :
    (Accepted p → ∀ n ∈ p.networks, n.vlanId = none → n.id = p.roles.management →
      ∀ m : Metadata, m.dhcpMetric ≤ u32Max → m.staticMetric ≤ u32Max →
        ∃ row s, parse (entry (some n) p m) = .ok (row, m.dhcpMetric, s) ∧
          (row.mode = n.mode ∧ row.address = n.address ∧ row.prefixLen = n.prefixLen ∧
            row.gateway = n.gateway ∧ row.dns = n.dns ∧ row.dnsSearch = n.dnsSearch) ∧
          (n.gateway ≠ "" → s = m.staticMetric)) ∧
    ∀ n d s, parse v = .ok (n, d, s) →
      (Exact v n ↔ Json.member "gateway4" v = .null ∨ ∃ g, Json.member "gateway4" v = .str g) := by
  constructor
  · intro hp n hn _ hid m hd hs
    refine ⟨adopted n, _, parse_entry hp hn hid hd hs, ⟨rfl, rfl, rfl, rfl, rfl, rfl⟩, ?_⟩
    intro hgateway
    rw [if_neg hgateway]
  · intro n d s h
    exact exact_entry_iff h

/-- The management row of the sample port, and a lease that gives nothing else. -/
theorem sample_entry_is_adopted :
    (∃ row s, parse (entry (some managementRow) (normalize sampleProfiles) {}) =
      .ok (row, 1024, s) ∧ row.gateway = "10.0.0.1" ∧ s = 0) ∧
    Exact (ofMembers [("dhcp4", .bool true)]) dhcpRow := by
  obtain ⟨hwritten, hforeign⟩ :=
    adoption_inverts_entry (normalize sampleProfiles) (ofMembers [("dhcp4", .bool true)])
  constructor
  · obtain ⟨row, s, hparse, ⟨-, -, -, hgateway, -⟩, hmetric⟩ :=
      hwritten (.inr ⟨sampleProfiles, sampleProfiles, rfl⟩)
        managementRow (.head _) rfl rfl {} (by decide) (by decide)
    exact ⟨row, s, hparse, hgateway, hmetric (by simp [managementRow])⟩
  · exact (hforeign _ 100 0 rfl).mpr (.inl rfl)

/-- A gateway given as a list is not refused, and is forgotten. -/
def listedGateway : Json :=
  ofMembers [("addresses", strings ["10.0.0.5/24"]), ("gateway4", strings ["10.0.0.1"])]

theorem listed_gateway_is_lost :
    ∃ n, parse listedGateway = .ok (n, 100, 0) ∧ ¬ Exact listedGateway n := by
  let row : NetworkProfile :=
    { dhcpRow with mode := .static, address := "10.0.0.5", prefixLen := 24 }
  have hparse : parse listedGateway = .ok (row, 100, 0) := rfl
  refine ⟨row, hparse, fun h => ?_⟩
  have hgateway : Json.member "gateway4" listedGateway = strings ["10.0.0.1"] := rfl
  rcases (exact_entry_iff hparse).mp h with hnull | ⟨g, hg⟩
  · rw [hgateway] at hnull
    cases hnull
  · rw [hgateway] at hg
    cases hg

end NdimonR.Backend.Netplan
