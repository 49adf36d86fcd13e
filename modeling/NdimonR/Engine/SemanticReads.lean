import NdimonR.Engine.Semantic
import NdimonR.Engine.ValidatorsAgree
import NdimonR.Library.JsonSize

/-! What the untyped reader makes of an encoded intent: the document's own encoding of the
profiles, and from that, for rows within their limits, the profiles themselves. -/

namespace NdimonR.Engine

open Types Json Text

/-! ### What an accepted row can hold -/


/-- The limits of one row that its encodings depend on. -/
structure RowBounded (n : NetworkProfile) : Prop where
  id : chars n.id ≤ 32
  name : chars n.name ≤ 64
  tag : ∀ t, n.vlanId = some t → t ≤ 4094
  prefixLen : n.prefixLen ≤ 30
  address : chars n.address ≤ 15
  gateway : chars n.gateway ≤ 15
  dnsCount : n.dns.length ≤ 3
  dns : ∀ d ∈ n.dns, chars d ≤ 15
  searchCount : n.dnsSearch.length ≤ 6
  search : ∀ d ∈ n.dnsSearch, any isControl d = false ∧ len d ≤ 253

theorem isControl_label {c : Char} (h : (isAsciiAlphanumeric c || c == '-') = true) :
    isControl c = false := by
  simp only [isAsciiAlphanumeric, isAsciiAlphabetic, isAsciiLowercase, isAsciiUppercase,
    isAsciiDigit, Bool.or_eq_true, Bool.and_eq_true, decide_eq_true_eq, beq_iff_eq,
    Char.le_def, UInt32.le_iff_toNat_le] at h
  simp only [isControl, Bool.or_eq_false_iff, Bool.and_eq_false_iff, decide_eq_false_iff_not]
  have hval : c.val.toNat = c.toNat := rfl
  rcases h with ((h | h) | h) | rfl
  · simp at h
    omega
  · simp at h
    omega
  · simp at h
    omega
  · decide

theorem search_domain_bounded {d : String} (h : validDnsSearchDomain d = true) :
    any isControl d = false ∧ len d ≤ 253 := by
  simp only [validDnsSearchDomain, Bool.and_eq_true, decide_eq_true_eq, List.all_eq_true] at h
  obtain ⟨⟨-, hlen⟩, hlabels⟩ := h
  refine ⟨?_, hlen⟩
  rw [any, List.any_eq_false]
  intro c hc
  rcases mem_split '.' hc with rfl | ⟨label, hl, hcl⟩
  · decide
  · have hlabel := hlabels label hl
    simp only [validDeviceLabel, Bool.and_eq_true] at hlabel
    have := isControl_label (List.all_eq_true.mp hlabel.2 c hcl)
    simp [this]

theorem RowOk.bounded {p : NetworkProfiles} {seen : Seen} {n : NetworkProfile}
    (h : RowOk p seen n) (hn : normalizeRow n = n) : RowBounded n := by
  obtain ⟨hc, hs⟩ := h
  have hid : chars n.id ≤ 32 := by
    have := hc.id
    simp only [validNetworkId, Bool.and_eq_true, decide_eq_true_eq] at this
    exact le_trans (chars_le_len n.id) this.1.1.2
  have htag : ∀ t, n.vlanId = some t → t ≤ 4094 := fun t ht => (hc.tag t ht).2
  have hsearch : ∀ d ∈ n.dnsSearch, any isControl d = false ∧ len d ≤ 253 :=
    fun d hd => search_domain_bounded (hc.searchDomains d hd)
  cases hm : n.mode with
  | dhcp =>
    rw [normalizeRow_dhcp hm] at hn
    have ha : n.address = "" := by rw [← hn]
    have hp : n.prefixLen = 0 := by rw [← hn]
    have hg : n.gateway = "" := by rw [← hn]
    have hd : n.dns = [] := by rw [← hn]
    exact ⟨hid, hc.short, htag, by simp [hp], by simp [ha, chars], by simp [hg, chars],
      by simp [hd], by simp [hd], hc.searchCount, hsearch⟩
  | «static» =>
    obtain ⟨a, ha⟩ := hs hm
    have hgateway : chars n.gateway ≤ 15 := by
      by_cases hg : n.gateway = ""
      · simp [hg, chars]
      · obtain ⟨g, hg, -⟩ := ha.gateway hg
        exact Ipv4Addr.parse_chars hg
    have hdns : ∀ d ∈ n.dns, chars d ≤ 15 := by
      intro d hd
      obtain ⟨b, hb, -⟩ := ha.dns d hd
      exact Ipv4Addr.parse_chars hb
    exact ⟨hid, hc.short, htag, ha.prefixMax, Ipv4Addr.parse_chars ha.address, hgateway,
      ha.dnsCount, hdns, hc.searchCount, hsearch⟩

/-! ### Flattening -/

theorem row_ofRow {n : NetworkProfile} (hn : normalizeRow n = n) :
    Intent.row (Intent.ofRow n) = n := by
  cases hm : n.mode with
  | dhcp =>
    rw [normalizeRow_dhcp hm] at hn
    rw [← hn]
    simp [Intent.row, Intent.ofRow, hm]
  | «static» =>
    have hg : (if n.gateway = "" then none else some n.gateway).getD "" = n.gateway := by
      split <;> simp_all
    simp only [Intent.row, Intent.ofRow, hm, hg]
    rw [← hm]

theorem get_networkJson (m : Network) (k : String) :
    get k (networkJson m).val =
      (SortedMap.lookup k networkFields).bind fun f => (f m).map Subtype.val :=
  get_record (by decide) m k

theorem none_unknown {found known : List String} (h : ∀ k ∈ found, k ∈ known) :
    (found.any fun k => !known.contains k) = false := by
  rw [List.any_eq_false]
  intro k hk
  simp [h k hk]

theorem network_keys (m : Network) :
    ((asObject (networkJson m).val).isNone ||
      ["id", "name", "vlan_id", "ipv4"].any (fun k => !(keys (networkJson m).val).contains k) ||
      (keys (networkJson m).val).any
        (fun k => !(["id", "name", "vlan_id", "ipv4", "dns_search"].contains k))) = false := by
  have hknown : ∀ k ∈ keys (networkJson m).val,
      k ∈ ["id", "name", "vlan_id", "ipv4", "dns_search"] := fun k hk => mem_keys_record hk
  have hpresent : ∀ k ∈ ["id", "name", "vlan_id", "ipv4"], k ∈ keys (networkJson m).val := by
    intro k hk
    rw [mem_keys_iff, get_networkJson]
    simp only [List.mem_cons, List.not_mem_nil, or_false] at hk
    rcases hk with rfl | rfl | rfl | rfl <;> rfl
  have hobject : (asObject (networkJson m).val).isNone = false := rfl
  rw [hobject, none_unknown hpresent, none_unknown hknown]
  rfl

/-- The row the untyped reader writes, its search list left out where the intent left it out. -/
def flatMembers (m : Network) : List (String × Json) :=
  [("id", (Value.str m.id).val), ("name", (Value.str m.name).val),
    ("vlan_id", (ofOption .nat m.vlanId).val), ("mode", .str (Intent.row m).mode.text),
    ("address", .str (Intent.row m).address), ("prefix", .int (Int.ofNat (Intent.row m).prefixLen)),
    ("gateway", .str (Intent.row m).gateway), ("dns", (ofItems .str (Intent.row m).dns).val)] ++
  match get "dns_search" (networkJson m).val with
  | none => []
  | some search => [("dns_search", search)]

theorem row_shared (m : Network) : (Intent.row m).id = m.id ∧ (Intent.row m).name = m.name ∧
    (Intent.row m).vlanId = m.vlanId ∧ (Intent.row m).dnsSearch = m.dnsSearch := by
  unfold Intent.row
  split <;> exact ⟨rfl, rfl, rfl, rfl⟩

theorem profileJson_row (m : Network) :
    (networkProfileJson (Intent.row m)).val = ofMembers (flatMembers m) := by
  obtain ⟨hid, hname, hvlan, hsearch⟩ := row_shared m
  have hget : get "dns_search" (networkJson m).val =
      (nonempty Value.str (·.dnsSearch) m).map Subtype.val := get_networkJson m "dns_search"
  by_cases hs : m.dnsSearch = []
  · simp [networkProfileJson, record, Value.object, ofMembers, flatMembers, present, named,
      nonempty, hget, hid, hname, hvlan, hsearch, hs, Value.str, Value.nat]
  · simp [networkProfileJson, record, Value.object, ofMembers, flatMembers, present, named,
      nonempty, hget, hid, hname, hvlan, hsearch, hs, Value.str, Value.nat]

theorem static_members (address : String) (prefixLen : Nat) (gateway : Option String)
    (dns : List String) : ∃ v, (ipv4Json (.static address prefixLen gateway dns)).val = v ∧
      (asObject v).isNone = false ∧ keys v ⊆ ["mode", "address", "prefix", "gateway", "dns"] ∧
      get "mode" v = some (.str "static") ∧ get "address" v = some (.str address) ∧
      get "prefix" v = some (.int (Int.ofNat prefixLen)) ∧
      get "gateway" v = some (ofOption Value.str gateway).val ∧
      get "dns" v = some (ofItems Value.str dns).val := by
  have hget : ∀ k, get k (ipv4Json (.static address prefixLen gateway dns)).val = _ :=
    get_object (by simp)
  exact ⟨_, rfl, rfl, fun k hk => mem_keys_ofMembers.mp hk, hget "mode", hget "address",
    hget "prefix", hget "gateway", hget "dns"⟩

/-- The row is the document's own encoding of what the typed reader makes of it. -/
theorem flatRow_json (m : Network) (i : Nat) :
    flatRow i (networkJson m).val = .ok (networkProfileJson (Intent.row m)).val := by
  have hid : (networkJson m).val.member "id" = (Value.str m.id).val := by
    rw [member_eq_get, get_networkJson]
    rfl
  have hname : (networkJson m).val.member "name" = (Value.str m.name).val := by
    rw [member_eq_get, get_networkJson]
    rfl
  have hvlan : (networkJson m).val.member "vlan_id" = (ofOption .nat m.vlanId).val := by
    rw [member_eq_get, get_networkJson]
    rfl
  have hipv4 : (networkJson m).val.member "ipv4" = (ipv4Json m.ipv4).val := by
    rw [member_eq_get, get_networkJson]
    rfl
  unfold flatRow
  rw [if_neg (by rw [network_keys]; simp), hipv4, hid, hname, hvlan, profileJson_row, flatMembers]
  cases h4 : m.ipv4 with
  | dhcp =>
    simp only [Intent.row, h4]
    rfl
  | «static» address prefixLen gateway dns =>
    obtain ⟨v, hv, hobject, hknown, hmode, haddress, hprefix, hgateway, hdns⟩ :=
      static_members address prefixLen gateway dns
    have hdhcp : ((get "mode" v).bind asStr == some "dhcp") = false := by
      rw [hmode]
      rfl
    have hnull : (if (ofOption Value.str gateway).val = .null then Json.str ""
        else (ofOption Value.str gateway).val) = .str (gateway.getD "") := by
      cases gateway <;> simp [ofOption, Value.null, Value.str]
    rw [hv]
    simp only [hobject, hdhcp, Bool.false_eq_true, if_false, none_unknown hknown]
    rw [member_eq_get, member_eq_get, member_eq_get, member_eq_get, hmode, haddress, hprefix,
      hgateway, hdns]
    simp only [Option.getD_some, Bool.false_or, decide_eq_true_eq, hnull, Intent.row, h4]
    rfl

theorem flatRows_json (l : List Network) (i : Nat) :
    flatRows i (l.map fun m => (networkJson m).val) =
      .ok (l.map fun m => (networkProfileJson (Intent.row m)).val) := by
  induction l generalizing i with
  | nil => rfl
  | cons m rest ih =>
    rw [List.map_cons, flatRows, flatRow_json, ih]
    rfl

theorem get_intentJson (i : Intent) (k : String) :
    get k (intentJson i).val =
      (SortedMap.lookup k intentFields).bind fun f => (f i).map Subtype.val :=
  get_record (by decide) i k

/-- With an NDI role in the intent, the whole document is that of the typed reader's profiles. -/
theorem flatDocument_json {i : Intent} (h : i.ndi.isSome) :
    flatDocument (intentJson i).val i.policies.confirm.text
      (i.networks.map fun m => (networkProfileJson (Intent.row m)).val) =
    (networkProfilesJson i.unchecked).val := by
  obtain ⟨ndi, hndi⟩ := Option.isSome_iff_exists.mp h
  have hi : (intentJson i).val.member "interface" = .str i.interface := by
    rw [member_eq_get, get_intentJson]
    rfl
  have hb : (intentJson i).val.member "backend" = .str i.backend.text := by
    rw [member_eq_get, get_intentJson]
    rfl
  have hm : (intentJson i).val.member "management" = .str i.management := by
    rw [member_eq_get, get_intentJson]
    rfl
  have ha : (intentJson i).val.member "audio" = .str i.audio := by
    rw [member_eq_get, get_intentJson]
    rfl
  have hn : (intentJson i).val.member "ndi" = .str ndi := by
    rw [member_eq_get, get_intentJson]
    simp [intentFields, SortedMap.lookup, Json.optional, hndi, Value.str]
  have hrows : (ofItems networkProfileJson (i.networks.map Intent.row)).val =
      .arr (i.networks.map fun m => (networkProfileJson (Intent.row m)).val) := by
    simp [ofItems, Function.comp_def]
  rw [flatDocument, hi, hb, hm, ha, hn, ← hrows]
  simp [networkProfilesJson, networkRolesJson, record, Value.object, ofMembers, present,
    Intent.unchecked, ofOption, named, Value.str, hndi]

theorem semanticPolicy_json (i : Intent) :
    semanticPolicy (intentJson i).val = .ok i.policies.confirm.text := by
  have h : get "policies" (intentJson i).val = some (policiesJson i.policies).val :=
    get_intentJson i "policies"
  rw [semanticPolicy, h]
  rfl

/-! ### Parsing the document -/

theorem keyErrors_nil {v : Json} (names more : List String) (ho : (asObject v).isSome = true)
    (hk : keys v ⊆ names ++ more) (hn : ∀ k ∈ names, (get k v).isSome = true)
    (path reason : String) : keyErrors v path names more reason = [] := by
  obtain ⟨members, ho⟩ := Option.isSome_iff_exists.mp ho
  have hunknown : ((keys v).filter fun k => !names.contains k && !more.contains k) = [] := by
    rw [List.filter_eq_nil_iff]
    intro k hin
    rcases List.mem_append.mp (hk hin) with h | h <;> simp [h]
  have hmissing : (names.filter fun k => !(keys v).contains k) = [] := by
    rw [List.filter_eq_nil_iff]
    intro k hin
    simp [mem_keys_iff.mpr (hn k hin)]
  simp only [keyErrors, ho, hunknown, hmissing, List.map_nil, List.append_nil]

theorem stringErrors_nil (path reason : String) (l : List String) :
    stringErrors path reason (l.map fun s => (Value.str s).val) = [] := by
  apply (indexed_eq_nil (P := fun d => (asStr d).isNone = false) (by simp)).mpr
  intro d hd
  obtain ⟨s, -, rfl⟩ := List.mem_map.mp hd
  rfl

/-- The fields of the document's rows, roles and profiles, by name. -/
def profileFields : Fields NetworkProfile :=
  [("id", present .str (·.id)),
    ("name", present .str (·.name)),
    ("vlan_id", present (ofOption .nat) (·.vlanId)),
    ("mode", present (named AddressMode.text) (·.mode)),
    ("address", present .str (·.address)),
    ("prefix", present .nat (·.prefixLen)),
    ("gateway", present .str (·.gateway)),
    ("dns", present (ofItems .str) (·.dns)),
    ("dns_search", nonempty .str (·.dnsSearch))]

def rolesFields : Fields NetworkRoles :=
  [("management", present .str (·.management)),
    ("ndi", present .str (·.ndi)),
    ("audio", present .str (·.audio))]

def profilesFields : Fields NetworkProfiles :=
  [("interface", present .str (·.interface)),
    ("backend", present (ofOption (named NetworkBackend.text)) (·.backend)),
    ("networks", present (ofItems networkProfileJson) (·.networks)),
    ("roles", present networkRolesJson (·.roles)),
    ("confirm_policy", present (named ConfirmPolicy.text) (·.confirmPolicy))]

theorem get_profileJson (n : NetworkProfile) (k : String) :
    get k (networkProfileJson n).val =
      (SortedMap.lookup k profileFields).bind fun f => (f n).map Subtype.val :=
  get_record (show (profileFields.map Prod.fst).Nodup by decide) n k

theorem get_rolesJson (r : NetworkRoles) (k : String) :
    get k (networkRolesJson r).val =
      (SortedMap.lookup k rolesFields).bind fun f => (f r).map Subtype.val :=
  get_record (show (rolesFields.map Prod.fst).Nodup by decide) r k

theorem get_profilesJson (p : NetworkProfiles) (k : String) :
    get k (networkProfilesJson p).val =
      (SortedMap.lookup k profilesFields).bind fun f => (f p).map Subtype.val :=
  get_record (show (profilesFields.map Prod.fst).Nodup by decide) p k

theorem search_shape {n : NetworkProfile} (h : n.dnsSearch.length ≤ 6) (path : String) :
    searchErrors path (networkProfileJson n).val = [] := by
  have hget : get "dns_search" (networkProfileJson n).val =
      (nonempty Value.str (fun n : NetworkProfile => n.dnsSearch) n).map Subtype.val :=
    get_profileJson n "dns_search"
  rw [searchErrors, hget]
  by_cases hs : n.dnsSearch = []
  · simp [nonempty, hs]
  · simp [nonempty, hs, ofItems, asArray, maxDnsSearch, h, stringErrors_nil]

theorem vlan_shape {o : Option Nat} (h : ∀ t, o = some t → t ≤ 4094) :
    ((ofOption Value.nat o).val ≠ .null && (asU64 (ofOption Value.nat o).val).isNone) = false := by
  cases o with
  | none => rfl
  | some t =>
    have ht := h t rfl
    simp [ofOption, asU64_nat (by omega : t < 18446744073709551616)]

theorem rowShape_json {n : NetworkProfile} (h : RowBounded n) (i : Nat) :
    rowShape i (networkProfileJson n).val = [] := by
  have hget := get_profileJson n
  have hkeys := keyErrors_nil (v := (networkProfileJson n).val)
    ["id", "name", "vlan_id", "mode", "address", "prefix", "gateway", "dns"] ["dns_search"] rfl
    (fun k hk => mem_keys_record hk) (by
      intro k hk
      rw [hget]
      simp only [List.mem_cons, List.not_mem_nil, or_false] at hk
      rcases hk with rfl | rfl | rfl | rfl | rfl | rfl | rfl | rfl <;> rfl)
  have hvlan : (networkProfileJson n).val.member "vlan_id" = (ofOption Value.nat n.vlanId).val := by
    rw [member_eq_get, hget]
    rfl
  have hprefix : (networkProfileJson n).val.member "prefix" = (Value.nat n.prefixLen).val := by
    rw [member_eq_get, hget]
    rfl
  have hmode : asStr ((networkProfileJson n).val.member "mode") = some n.mode.text := by
    rw [member_eq_get, hget]
    rfl
  have hmodes : (!([some "dhcp", some "static"].contains (some n.mode.text))) = false := by
    cases n.mode <;> rfl
  have hdns : (networkProfileJson n).val.member "dns" = (ofItems Value.str n.dns).val := by
    rw [member_eq_get, hget]
    rfl
  have hlist : asArray (ofItems Value.str n.dns).val =
      some (n.dns.map fun s => (Value.str s).val) := rfl
  have hstrings (path : String) : (["id", "name", "address", "gateway"].flatMap fun field =>
      addIf (asStr ((networkProfileJson n).val.member field)).isNone
        s!"{path}.{field}" "invalid_type") = [] := by
    rw [List.flatMap_eq_nil_iff]
    intro k hk
    rw [addIf_eq_nil, member_eq_get, hget]
    simp only [List.mem_cons, List.not_mem_nil, or_false] at hk
    rcases hk with rfl | rfl | rfl | rfl <;> rfl
  have hbound := h.prefixLen
  simp only [rowShape, List.append_eq_nil_iff, addIf_eq_nil, hkeys, search_shape h.searchCount,
    hvlan, vlan_shape h.tag, hprefix, hstrings, hmode, hmodes, hdns, hlist, Option.getD_some,
    stringErrors_nil, asU64_nat (by omega : n.prefixLen < 18446744073709551616)]
  simp [h.dnsCount]

theorem rowShapes_json {rows : List NetworkProfile} (h : ∀ n ∈ rows, RowBounded n) (i : Nat) :
    rowShapes i (rows.map fun n => (networkProfileJson n).val) = [] := by
  induction rows generalizing i with
  | nil => rfl
  | cons n rest ih =>
    rw [List.map_cons, rowShapes, rowShape_json (h n (by simp)),
      ih (fun m hm => h m (by simp [hm]))]
    rfl

theorem shape_json {p : NetworkProfiles} (h : ∀ n ∈ p.networks, RowBounded n) :
    shape (networkProfilesJson p).val = [] := by
  have hget := get_profilesJson p
  have hkeys := keyErrors_nil (v := (networkProfilesJson p).val)
    ["interface", "backend", "networks", "roles", "confirm_policy"] [] rfl
    (fun k hk => mem_keys_record hk) (by
      intro k hk
      rw [hget]
      simp only [List.mem_cons, List.not_mem_nil, or_false] at hk
      rcases hk with rfl | rfl | rfl | rfl | rfl <;> rfl)
  have hroleKeys := keyErrors_nil (v := (networkRolesJson p.roles).val)
    ["management", "ndi", "audio"] [] rfl
    (fun k hk => mem_keys_record hk) (by
      intro k hk
      rw [get_rolesJson]
      simp only [List.mem_cons, List.not_mem_nil, or_false] at hk
      rcases hk with rfl | rfl | rfl <;> rfl)
  have hroles : (networkProfilesJson p).val.member "roles" = (networkRolesJson p.roles).val := by
    rw [member_eq_get, hget]
    rfl
  have hrows : asArray ((networkProfilesJson p).val.member "networks") =
      some (p.networks.map fun n => (networkProfileJson n).val) := by
    rw [member_eq_get, hget]
    rfl
  have hpolicy : asStr ((networkProfilesJson p).val.member "confirm_policy") =
      some p.confirmPolicy.text := by
    rw [member_eq_get, hget]
    rfl
  have hpolicies : (!([some "token_only", some "require_management_address"].contains
      (some p.confirmPolicy.text))) = false := by
    cases p.confirmPolicy <;> rfl
  have hstrings : (["management", "ndi", "audio"].flatMap fun role =>
      addIf (asStr ((networkRolesJson p.roles).val.member role)).isNone
        s!"network.roles.{role}" "invalid_type") = [] := by
    rw [List.flatMap_eq_nil_iff]
    intro k hk
    rw [addIf_eq_nil, member_eq_get, get_rolesJson]
    simp only [List.mem_cons, List.not_mem_nil, or_false] at hk
    rcases hk with rfl | rfl | rfl <;> rfl
  simp only [shape, hroles, hrows, hpolicy, hkeys, hroleKeys, rowShapes_json h, hpolicies, hstrings,
    List.append_nil]
  rfl

theorem decodeNetworkRoles_json (r : NetworkRoles) :
    decodeNetworkRoles (networkRolesJson r).val = some r := by
  have hget := get_rolesJson r
  have hclosed : closed ["management", "ndi", "audio"] (networkRolesJson r).val = some () :=
    closed_record (by decide)
  simp [decodeNetworkRoles, hclosed, need, hget, rolesFields, SortedMap.lookup, present, asStr_str]

theorem decodeNetworkProfile_json {n : NetworkProfile} (h : RowBounded n) :
    decodeNetworkProfile (networkProfileJson n).val = some n := by
  have hget := get_profileJson n
  have hclosed : closed ["id", "name", "vlan_id", "mode", "address", "prefix", "gateway", "dns",
      "dns_search"] (networkProfileJson n).val = some () := closed_record (by decide)
  have hvlan : defaulted (nullable (natBelow 65536)) none "vlan_id" (networkProfileJson n).val =
      some n.vlanId := by
    have hv : nullable (natBelow 65536) (ofOption .nat n.vlanId).val = some n.vlanId := by
      apply nullable_ofOption nat_solid
      intro t ht
      have := h.tag t ht
      exact natBelow_nat (by omega)
    simpa [defaulted, hget, profileFields, SortedMap.lookup, present] using hv
  have hmode : oneOf AddressMode.text allModes (named AddressMode.text n.mode).val =
      some n.mode := by
    cases n.mode <;> rfl
  have hprefix : natBelow 256 (Value.nat n.prefixLen).val = some n.prefixLen := by
    have := h.prefixLen
    exact natBelow_nat (by omega)
  have hdns : items asStr (ofItems .str n.dns).val = some n.dns := items_ofItems fun s _ => rfl
  have hsearch : defaulted (items asStr) [] "dns_search" (networkProfileJson n).val =
      some n.dnsSearch := defaulted_nonempty (hget "dns_search") fun s _ => rfl
  simp [decodeNetworkProfile, hclosed, need, hget, profileFields, SortedMap.lookup, present,
    asStr_str, hvlan, hmode, hprefix, hdns, hsearch]

theorem decodeNetworkProfiles_json {p : NetworkProfiles} (h : ∀ n ∈ p.networks, RowBounded n) :
    decodeNetworkProfiles (networkProfilesJson p).val = some p := by
  have hget := get_profilesJson p
  have hclosed : closed ["interface", "backend", "networks", "roles", "confirm_policy"]
      (networkProfilesJson p).val = some () := closed_record (by decide)
  have hbackend : defaulted (nullable (oneOf NetworkBackend.text allBackends)) none "backend"
      (networkProfilesJson p).val = some p.backend := by
    have hb : nullable (oneOf NetworkBackend.text allBackends)
        (ofOption (named NetworkBackend.text) p.backend).val = some p.backend := by
      cases p.backend with
      | none => rfl
      | some b => cases b <;> rfl
    simpa [defaulted, hget, profilesFields, SortedMap.lookup, present] using hb
  have hnetworks : items decodeNetworkProfile (ofItems networkProfileJson p.networks).val =
      some p.networks := items_ofItems fun n hn => decodeNetworkProfile_json (h n hn)
  have hpolicy : oneOf ConfirmPolicy.text allPolicies
      (named ConfirmPolicy.text p.confirmPolicy).val = some p.confirmPolicy := by
    cases p.confirmPolicy <;> rfl
  simp [decodeNetworkProfiles, hclosed, need, hget, profilesFields, SortedMap.lookup, present,
    asStr_str, hbackend, hnetworks, hpolicy, decodeNetworkRoles_json]

end NdimonR.Engine
