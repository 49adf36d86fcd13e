import NdimonR.Backend.IfupdownBlocks

/-! What the drift check and adoption make of the stanzas of a profile. -/

namespace NdimonR.Backend.Ifupdown

open Types Text Engine Backend

/-- The stanzas of a profile. -/
def written (p : NetworkProfiles) (m : Metadata) : List Stanza :=
  (parentBlock p m).stanza (parentPath p.interface) :: (vlanBlocks p m).map (Block.stanza vlansPath)

theorem written_names (p : NetworkProfiles) (m : Metadata) :
    (written p m).map Stanza.name = names p := by
  rw [names_blocks p m]
  simp [written, Block.stanza, Function.comp_def]

theorem written_own {p : NetworkProfiles} (h : NetworkValid p) {m : Metadata} {s : Stanza}
    (hs : s ∈ written p m) : s.family = "inet" ∧ s.active = true ∧
      s.path = if s.name = p.interface then parentPath p.interface else vlansPath := by
  rcases List.mem_cons.mp hs with rfl | hs
  · simp [Block.stanza, parentBlock_name]
  · obtain ⟨b, hb, rfl⟩ := List.mem_map.mp hs
    have hnodup := names_nodup h
    rw [names_blocks p m, List.map_cons, List.nodup_cons, parentBlock_name] at hnodup
    have hne : b.name ≠ p.interface := fun he => hnodup.1 (he ▸ List.mem_map_of_mem hb)
    simp [Block.stanza, hne]

/-! ### Drift -/

theorem fold_drift (host : Host) (p : NetworkProfiles) (ss : List Stanza) (st : Drifting)
    (hown : ∀ s ∈ ss, s.name ∈ names p → s.family = "inet" ∧
      s.path = if s.name = p.interface then parentPath p.interface else vlansPath)
    (hnodup : ((ss.filter (·.name ∈ names p)).map Stanza.name).Nodup)
    (hfresh : ∀ s ∈ ss, s.name ∈ names p → st.counts.get? s.name = none) :
    (ss.foldl (Drifting.stanza host p) st).drift = st.drift := by
  induction ss generalizing st with
  | nil => rfl
  | cons s rest ih =>
    have hrest : ((rest.filter (·.name ∈ names p)).map Stanza.name).Nodup :=
      hnodup.sublist ((((List.sublist_cons_self s rest).filter _)).map _)
    have hownRest := fun t ht => hown t (List.mem_cons_of_mem s ht)
    have hfreshRest := fun t ht => hfresh t (List.mem_cons_of_mem s ht)
    rw [List.foldl_cons]
    by_cases hskip : (host.handoff && host.handoffPaths.contains s.path) = true
    · have hst : st.stanza host p s = st := if_pos hskip
      rw [hst]
      exact ih st hownRest hrest hfreshRest
    · by_cases hname : s.name ∈ names p
      · obtain ⟨hfamily, hpath⟩ := hown s (.head _) hname
        have hst : st.stanza host p s =
            { counts := st.counts.insert s.name 1, drift := st.drift } := by
          rw [Drifting.stanza, if_neg hskip, if_pos hname]
          simp only [hfresh s (.head _) hname, ← hpath, hfamily]
          simp
        rw [hst]
        refine ih _ hownRest hrest ?_
        intro t ht htname
        have hne : t.name ≠ s.name := by
          intro he
          rw [List.filter_cons_of_pos (by simpa using hname), List.map_cons, List.nodup_cons]
            at hnodup
          exact hnodup.1 (he ▸ List.mem_map_of_mem (List.mem_filter.mpr ⟨ht, by simpa using htname⟩))
        rw [SortedMap.get?_insert, if_neg hne]
        exact hfreshRest t ht htname
      · have hst : st.stanza host p s = st := by
          rw [Drifting.stanza, if_neg hskip, if_neg hname]
        rw [hst]
        exact ih st hownRest hrest hfreshRest

/-! ### Adoption -/

theorem lookup_append (k : String) (l r : List (String × String)) :
    SortedMap.lookup k (l ++ r) = (SortedMap.lookup k l).or (SortedMap.lookup k r) := by
  induction l with
  | nil => simp [SortedMap.lookup]
  | cons e rest ih =>
    rw [List.cons_append, SortedMap.lookup, SortedMap.lookup, ih]
    by_cases he : k = e.1 <;> simp [he]

theorem lookup_ite {c : Prop} [Decidable c] (k j v : String) :
    SortedMap.lookup k (if c then [(j, v)] else []) = if c ∧ k = j then some v else none := by
  by_cases hc : c <;> by_cases hk : k = j <;> simp [SortedMap.lookup, hc, hk]

theorem lookup_ite_not {c : Prop} [Decidable c] (k j v : String) :
    SortedMap.lookup k (if c then [] else [(j, v)]) = if ¬c ∧ k = j then some v else none := by
  by_cases hc : c <;> by_cases hk : k = j <;> simp [SortedMap.lookup, hc, hk]

section

variable {p : NetworkProfiles} (m : Metadata) {n : NetworkProfile}

/-- The values of the port's stanza. -/
def portValues (p : NetworkProfiles) (m : Metadata) (n : NetworkProfile) : SortedMap String String :=
  .ofList (stanzaValues p m n)

theorem get_portValues (k : String) :
    (portValues p m n).get? k = SortedMap.lookup k (stanzaValues p m n) :=
  SortedMap.get?_ofList (stanzaKeys_nodup.sublist (stanzaValues_keys p m n)) k

theorem get_metric : (portValues p m n).get? "metric" = some (toString (metric m n)) := by
  rw [get_portValues, stanzaValues]
  cases n.mode <;> simp [lookup_append, lookup_ite, lookup_ite_not, SortedMap.lookup]

theorem get_privext : (portValues p m n).get? "privext" = none := by
  rw [get_portValues, SortedMap.lookup_eq_none_iff]
  intro hm
  have := (stanzaValues_keys p m n).subset hm
  simp [stanzaKeys] at this

theorem get_search (hrow : RowValid p n) :
    (((portValues p m n).get? "dns-search").map splitWhitespace).getD [] = n.dnsSearch := by
  have hsplit : splitWhitespace (unwords n.dnsSearch) = n.dnsSearch :=
    splitWhitespace_unwords fun w hw => ((rowPlain_of_valid hrow).search w hw).word
  rw [get_portValues, stanzaValues]
  rcases hrow.managed with hid | ⟨-, -, hnone⟩
  · by_cases hs : n.dnsSearch = [] <;>
      cases n.mode <;> simp [lookup_append, lookup_ite, lookup_ite_not, SortedMap.lookup, hid, hs, hsplit]
  · cases n.mode <;> simp [lookup_append, lookup_ite, lookup_ite_not, SortedMap.lookup, hnone]

theorem get_address (hm : n.mode = .static) :
    (portValues p m n).get? "address" = some (n.address ++ "/" ++ toString n.prefixLen) := by
  rw [get_portValues, stanzaValues]
  simp [lookup_append, lookup_ite, SortedMap.lookup, hm]

theorem get_gateway (hm : n.mode = .static) :
    ((portValues p m n).get? "gateway").getD "" = n.gateway := by
  rw [get_portValues, stanzaValues]
  by_cases hg : n.gateway = "" <;> simp [lookup_append, lookup_ite, lookup_ite_not, SortedMap.lookup, hm, hg]

theorem get_dns (hrow : RowValid p n) (hm : n.mode = .static) :
    (((portValues p m n).get? "dns-nameservers").map splitWhitespace).getD [] = n.dns := by
  have hsplit : splitWhitespace (unwords n.dns) = n.dns :=
    splitWhitespace_unwords fun w hw => ((rowPlain_of_valid hrow).dns w hw).word
  rw [get_portValues, stanzaValues]
  by_cases hd : n.dns = [] <;>
    simp [lookup_append, lookup_ite, lookup_ite_not, SortedMap.lookup, hm, hd, hsplit]

theorem portKeys (hu : n.vlanId = none) : ∀ k ∈ (portValues p m n).keys,
    k ∈ ["address", "gateway", "dns-nameservers", "dns-search", "metric"] ∧
      (n.mode = .dhcp → k ∈ ["metric", "dns-search"]) := by
  intro k hk
  have hmem : k ∈ (stanzaValues p m n).map Prod.fst := SortedMap.mem_keys_ofList.mp hk
  constructor
  · have hkey := (stanzaValues_keys p m n).subset hmem
    have hraw : k ≠ "vlan-raw-device" := by
      rintro rfl
      revert hmem
      cases n.mode <;> simp [stanzaValues, hu]
    simpa [stanzaKeys, hraw] using hkey
  · intro hm
    simp [stanzaValues, hu, hm] at hmem
    simpa using by tauto

theorem directory_eq : "/etc/network/interfaces.d/ndimon-" = mainPath ++ ".d/ndimon-" := by
  decide +kernel

theorem parentPath_ne_main (name : String) : parentPath name ≠ mainPath := by
  unfold parentPath
  rw [directory_eq, String.append_assoc]
  intro he
  have hlength := congrArg String.length he
  rw [String.length_append, String.length_append] at hlength
  have hrest : 0 < ".d/ndimon-".length := by decide +kernel
  omega

/-- What adoption makes of the stanza that owns the port. -/
theorem adoptStanza_row {host : Host} (h : NetworkValid p) (hd : m.dhcpMetric ≤ u32Max)
    (hs : m.staticMetric ≤ u32Max) (hdhclient : host.iscDhclient = .ok ()) (hn : n ∈ p.networks)
    (hu : n.vlanId = none) {s : Stanza} (hpath : s.path = parentPath p.interface)
    (hfamily : s.family = "inet") (hactive : s.active = true) (hmethod : s.method = method n.mode)
    (hvalues : s.values = portValues p m n) :
    adoptStanza host p.interface s =
      .ok (adopted n, { parentSource := parentPath p.interface, dhcpMetric := metric m n,
                        staticMetric := metric m n }) := by
  have hrow := h.rows n hn
  have hmain : (parentPath p.interface == mainPath) = false :=
    beq_false_of_ne (parentPath_ne_main p.interface)
  have hclosed : closedKeys ["address", "gateway", "dns-nameservers", "dns-search", "metric",
      "privext"] s = .ok () := by
    have hnone : (portValues p m n).keys.find? (fun k => !(["address", "gateway", "dns-nameservers",
        "dns-search", "metric", "privext"].contains k)) = none := by
      rw [List.find?_eq_none]
      intro k hk
      have := (portKeys m hu k hk).1
      simp only [List.mem_cons, List.not_mem_nil, or_false] at this
      simpa using by tauto
    rw [closedKeys, hvalues, hnone]
  have hmetric : metric m n ≤ u32Max := by
    unfold metric
    split
    · exact hd
    · exact hs
  have hread : stanzaMetric s = .ok (metric m n) := by
    rw [stanzaMetric, hvalues, get_metric m]
    simp only [parseUnsigned_toString hmetric, required]
  have hrowRead : methodRow s { dhcpRow with dnsSearch := n.dnsSearch } = .ok (adopted n) := by
    cases hm : n.mode with
    | dhcp =>
      have hnone : (portValues p m n).keys.any
          (fun k => !(["metric", "dns-search", "privext"].contains k)) = false := by
        rw [List.any_eq_false]
        intro k hk
        have := (portKeys m hu k hk).2 hm
        simp only [List.mem_cons, List.not_mem_nil, or_false] at this
        simpa using by tauto
      obtain ⟨haddress, hprefix, hgateway, hdns⟩ := hrow.dhcp hm
      have hsame : adopted n = { dhcpRow with dnsSearch := n.dnsSearch } := by
        simp [adopted, dhcpRow, hm, haddress, hprefix, hgateway, hdns]
      rw [methodRow, hmethod, hm, hvalues, hnone, hsame]
      rfl
    | «static» =>
      have hdhcp : method .static ≠ "dhcp" := by decide
      have hstatic : method .static = "static" := rfl
      rw [methodRow, hmethod, hm, if_neg hdhcp, if_pos hstatic, hvalues, get_address m hm,
        get_gateway m hm, get_dns m hrow hm, Option.bind_some, cut_cidr hrow hm]
      simp only [required, Outcome.bind_ok, bits_cidr hrow hm]
      simp [adopted, hm]
  unfold adoptStanza
  rw [hpath, hmain, hfamily, hactive, hclosed, hvalues, get_privext m, get_search m hrow, hdhclient,
    searchList_ok hrow.searchCount hrow.search]
  simp only [locate, Outcome.bind_ok, hrowRead, hread]
  simp [refuse, Outcome.bind_ok]

end

/-! ### What the profile's stanzas give -/

/-- One active IPv4 stanza for each interface, nothing foreign, and the management row as it is. -/
structure Inverts (host : Host) (p : NetworkProfiles) (m : Metadata) : Prop where
  single : ∃ ss, stanzas host = .ok ss ∧ ∀ name ∈ names p,
    (ss.filter fun s => s.name == name && s.family == "inet" && s.active).length = 1
  drift : ∃ ds, Ifupdown.drift host p = .ok ds ∧ ∀ d ∈ ds, d.blocking = false
  adopts : ∀ n ∈ p.networks, n.vlanId = none → n.id = p.roles.management →
    ∃ row found, adopt host p.interface = .ok (row, found) ∧
      (row.mode = n.mode ∧ row.address = n.address ∧ row.prefixLen = n.prefixLen ∧
        row.gateway = n.gateway ∧ row.dns = n.dns ∧ row.dnsSearch = n.dnsSearch) ∧
      metric found n = metric m n

/-- A test that only the profile's interfaces pass sees only their stanzas. -/
theorem filter_perm {p : NetworkProfiles} {ss ours : List Stanza} (test : Stanza → Bool)
    (hperm : (ss.filter (·.name ∈ names p)).Perm ours) (h : ∀ s, test s = true → s.name ∈ names p) :
    (ss.filter test).Perm (ours.filter test) := by
  have hsame : ss.filter test = (ss.filter (·.name ∈ names p)).filter test := by
    rw [List.filter_filter]
    apply List.filter_congr
    intro s _
    cases ht : test s with
    | false => simp
    | true => simp [h s ht]
  rw [hsame]
  exact hperm.filter _

/-- Where a name stands once, one stanza passes. -/
theorem filter_name {p : NetworkProfiles} (h : NetworkValid p) (m : Metadata) {name : String}
    (hname : name ∈ names p) :
    ((written p m).filter fun s => s.name == name && s.family == "inet" && s.active).length = 1 := by
  have htest : (written p m).filter (fun s => s.name == name && s.family == "inet" && s.active) =
      (written p m).filter fun s => s.name == name := by
    apply List.filter_congr
    intro s hs
    obtain ⟨hfamily, hactive, -⟩ := written_own h hs
    simp [hfamily, hactive]
  have hcount : ((written p m).map Stanza.name).count name = 1 := by
    rw [written_names]
    exact List.count_eq_one_of_mem (names_nodup h) hname
  rw [htest, ← List.countP_eq_length_filter]
  rw [List.count, List.countP_map] at hcount
  exact hcount

theorem filter_port {p : NetworkProfiles} (h : NetworkValid p) (m : Metadata) :
    (written p m).filter (·.name == p.interface) =
      [(parentBlock p m).stanza (parentPath p.interface)] := by
  have hnodup := names_nodup h
  rw [names_blocks p m, List.map_cons, List.nodup_cons, parentBlock_name] at hnodup
  have hhead : ((parentBlock p m).stanza (parentPath p.interface)).name = p.interface :=
    parentBlock_name p m
  rw [written, List.filter_cons_of_pos (by simp [hhead])]
  congr 1
  rw [List.filter_eq_nil_iff]
  intro s hs he
  obtain ⟨b, hb, rfl⟩ := List.mem_map.mp hs
  have hname : b.name = p.interface := by simpa [Block.stanza] using he
  exact hnodup.1 (hname ▸ List.mem_map_of_mem hb)

/-- The untagged row is the one the port's stanza is written of. -/
theorem parentBlock_row {p : NetworkProfiles} (h : NetworkValid p) (m : Metadata)
    {n : NetworkProfile} (hn : n ∈ p.networks) (hu : n.vlanId = none) :
    parentBlock p m = rowBlock p m n := by
  have hmem : n ∈ p.networks.filter (·.vlanId.isNone) := by simp [hn, hu]
  unfold parentBlock
  cases hlast : (p.networks.filter (·.vlanId.isNone)).getLast? with
  | none =>
    rw [List.getLast?_eq_none_iff] at hlast
    rw [hlast] at hmem
    cases hmem
  | some x =>
    obtain ⟨hx, hxu⟩ := List.mem_filter.mp (List.mem_of_getLast? hlast)
    rw [Option.isNone_iff_eq_none] at hxu
    rw [List.inj_on_of_nodup_map h.tags hx hn (hxu.trans hu.symm)]

theorem inverts_of_written {host : Host} {p : NetworkProfiles} (h : NetworkValid p) {m : Metadata}
    (hd : m.dhcpMetric ≤ u32Max) (hs : m.staticMetric ≤ u32Max)
    (hdhclient : host.iscDhclient = .ok ()) (hmain : host.root.isThere mainPath = .ok true)
    {ss : List Stanza} (hss : stanzas host = .ok ss)
    (hperm : (ss.filter (·.name ∈ names p)).Perm (written p m)) : Inverts host p m where
  single := by
    refine ⟨ss, hss, fun name hname => ?_⟩
    have hours := filter_perm (fun s => s.name == name && s.family == "inet" && s.active) hperm ?_
    · rw [hours.length_eq]
      exact filter_name h m hname
    · intro s ht
      simp only [Bool.and_eq_true, beq_iff_eq] at ht
      exact ht.1.1 ▸ hname
  drift := by
    have hnone := fold_drift host p ss {} ?_ ?_ (fun _ _ _ => rfl)
    · refine ⟨[], ?_, nofun⟩
      rw [Ifupdown.drift, hss, Outcome.bind_ok, hnone]
    · intro s hs hname
      have hmem := hperm.mem_iff.mp (List.mem_filter.mpr ⟨hs, by simpa using hname⟩)
      obtain ⟨hfamily, -, hpath⟩ := written_own h hmem
      exact ⟨hfamily, hpath⟩
    · rw [(hperm.map Stanza.name).nodup_iff, written_names]
      exact names_nodup h
  adopts := by
    intro n hn hu hid
    have hport := filter_perm (fun s => s.name == p.interface) hperm ?_
    · rw [filter_port h, List.perm_singleton] at hport
      have hrow := adoptStanza_row m h hd hs hdhclient hn hu
        (s := (parentBlock p m).stanza (parentPath p.interface)) rfl rfl rfl
        (by rw [parentBlock_row h m hn hu]; rfl) (by rw [parentBlock_row h m hn hu]; rfl)
      let found : Metadata := { parentSource := parentPath p.interface,
                                dhcpMetric := metric m n, staticMetric := metric m n }
      refine ⟨adopted n, found, ?_, ⟨rfl, rfl, rfl, rfl, rfl, rfl⟩, ?_⟩
      · rw [adopt, hmain, Outcome.bind_ok]
        simp only [hss, Outcome.bind_ok, hport]
        exact hrow
      · rw [metric]
        exact ite_self _
    · intro s ht
      rw [beq_iff_eq.mp ht, names]
      exact List.mem_cons_self

end NdimonR.Backend.Ifupdown
