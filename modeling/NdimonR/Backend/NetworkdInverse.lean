import NdimonR.Backend.Accepted
import NdimonR.Backend.NetworkdDocument
import NdimonR.Library.Outcome

/-! The parent file of an accepted profile, read back as adoption reads it, gives its untagged
row again. -/

namespace NdimonR.Backend.Networkd

open Types Text Engine Backend

/-! ### The parent file as a document -/

def domainAssignments (n : NetworkProfile) (management : Bool) : List Assignment :=
  if management ∧ n.dnsSearch ≠ [] then [("Domains", unwords n.dnsSearch)] else []

def dnsAssignments (n : NetworkProfile) (management : Bool) : List Assignment :=
  if management then n.dns.map fun d => ("DNS", d) else []

/-- What `address` adds to the [Network] section. -/
def networkAssignments (n : NetworkProfile) (management : Bool) : List Assignment :=
  match n.mode with
  | .dhcp => ("DHCP", "ipv4") :: domainAssignments n management
  | .static =>
    ("DHCP", "no") :: ("Address", n.address ++ "/" ++ toString n.prefixLen) ::
      (dnsAssignments n management ++ domainAssignments n management)

/-- The section `address` adds after it. -/
def lastSection (n : NetworkProfile) (management : Bool) (m : Metadata) : List Section :=
  match n.mode with
  | .dhcp =>
    let use := if management then "yes" else "no"
    [⟨"DHCPv4", [("UseDNS", use), ("UseRoutes", use), ("UseNTP", "no"), ("UseHostname", "no"),
      ("RouteMetric", toString m.dhcpMetric)]⟩]
  | .static =>
    if management ∧ n.gateway ≠ "" then
      [⟨"Route", [("Destination", "0.0.0.0/0"), ("Gateway", n.gateway),
        ("Metric", toString m.staticMetric)]⟩]
    else []

def vlanAssignments (p : NetworkProfiles) : List Assignment :=
  (p.networks.filter (·.vlanId.isSome)).map fun n => ("VLAN", ifname p n)

/-- The sections of a parent file with the given VLAN list. -/
def parentSections (p : NetworkProfiles) (vlans : List Assignment) (n : NetworkProfile)
    (management : Bool) (m : Metadata) : List Section :=
  [⟨"Match", [("Name", p.interface)]⟩, ⟨"Link", [("RequiredForOnline", "no")]⟩,
    ⟨"Network", [("LinkLocalAddressing", "no"), ("IPv6AcceptRA", "no")] ++ vlans ++
      networkAssignments n management⟩] ++ lastSection n management m

theorem document_parent (p : NetworkProfiles) (vlans : List Assignment) (n : NetworkProfile)
    (management : Bool) (m : Metadata) :
    document (parentSections p vlans n management m) =
      header p.interface ++ vlans.map assign ++ address (some n) management m := by
  have hdns : (n.dns.map fun d => ("DNS", d)).map assign = n.dns.map ("DNS=" ++ ·) := by
    simp [assign, Function.comp_def]
  have hdomains : ∀ ws, assign ("Domains", unwords ws) = "Domains=" ++ unwords ws := fun _ => rfl
  cases management with
  | false =>
    cases hmode : n.mode <;>
      simp [parentSections, networkAssignments, domainAssignments, dnsAssignments, lastSection, address, header, document,
        Section.lines, hmode] <;> simp [assign, String.append_assoc]
  | true =>
    cases hmode : n.mode with
    | dhcp =>
      by_cases hsearch : n.dnsSearch = [] <;>
        simp [parentSections, networkAssignments, domainAssignments, lastSection, address, header,
          document, Section.lines, hmode, hsearch, hdomains] <;> simp [assign]
    | «static» =>
      by_cases hgateway : n.gateway = "" <;> by_cases hsearch : n.dnsSearch = [] <;>
        simp [parentSections, networkAssignments, domainAssignments, dnsAssignments, lastSection, address, header, document,
          Section.lines, hmode, hsearch, hgateway, hdomains, hdns] <;>
        simp [assign, String.append_assoc]

/-! ### Reading the sections -/

theorem trimQuotes_plain {v : String} (h : Plain v) : trimQuotes v = v := by
  have hquote : ∀ c ∈ v.toList, (c == '"') = false := by
    intro c hc
    exact beq_false_of_ne (ne_of_mem_of_not_mem hc (h.not_mem rfl))
  have hleft : v.toList.dropWhile (· == '"') = v.toList :=
    List.dropWhile_eq_self_iff.mpr fun hl => by simpa using hquote _ (List.getElem_mem hl)
  have hright : v.toList.rdropWhile (· == '"') = v.toList :=
    List.rdropWhile_eq_self_iff.mpr fun hl => by simpa using hquote _ (List.getLast_mem hl)
  simp [trimQuotes, hleft, hright]

/-- A list setting of one word. -/
theorem resetList_plain (list : List String) {v : String} (h : Plain v) :
    resetList list v = list ++ [v] := by
  have hwords : splitWhitespace v = [v] := by
    have hone : ∀ w ∈ [v], Word w := by simpa using h.word
    simpa [unwords] using splitWhitespace_unwords hone
  simp [resetList, h.nonempty, hwords, trimQuotes_plain h]

/-- A list setting of all the words of a list. -/
theorem resetList_unwords (list : List String) {ws : List String} (hne : ws ≠ [])
    (h : ∀ w ∈ ws, Plain w) : resetList list (unwords ws) = list ++ ws := by
  have hwords : splitWhitespace (unwords ws) = ws :=
    splitWhitespace_unwords fun w hw => (h w hw).word
  have hnonempty : unwords ws ≠ "" := by
    intro hempty
    rw [hempty] at hwords
    exact hne hwords.symm
  have hquotes : ws.map trimQuotes = ws :=
    (List.map_congr_left fun w hw => trimQuotes_plain (h w hw)).trans (List.map_id ws)
  rw [resetList, if_neg hnonempty, hwords, hquotes]

/-- An entry of the [Network] section. -/
def networkEntry (a : Assignment) : Entry := ⟨"Network", a.1, a.2⟩

theorem fold_dns {n : NetworkProfile} (h : ∀ d ∈ n.dns, Plain d) (management : Bool) (st : State) :
    ((dnsAssignments n management).map networkEntry).foldlM step st =
      .ok { st with dns := st.dns ++ if management then n.dns else [] } := by
  have hlist : ∀ {dns : List String}, (∀ d ∈ dns, Plain d) → ∀ st : State,
      (dns.map fun d => networkEntry ("DNS", d)).foldlM step st =
        .ok { st with dns := st.dns ++ dns } := by
    intro dns hdns
    induction dns with
    | nil => simp [pure, Except.pure]
    | cons d rest ih =>
      intro st
      obtain ⟨hd, hrest⟩ := List.forall_mem_cons.mp hdns
      have hstep : step st (networkEntry ("DNS", d)) = .ok { st with dns := st.dns ++ [d] } := by
        simp [step, setting, networkEntry, resetList_plain st.dns hd]
      rw [List.map_cons, List.foldlM_cons, hstep, Outcome.bind_ok, ih hrest]
      simp
  cases management with
  | false => simp [dnsAssignments, pure, Except.pure]
  | true => simpa [dnsAssignments, Function.comp_def] using hlist h st

theorem fold_domains {n : NetworkProfile} (h : ∀ d ∈ n.dnsSearch, Plain d) (management : Bool)
    (st : State) :
    ((domainAssignments n management).map networkEntry).foldlM step st =
      .ok { st with domains := st.domains ++ if management then n.dnsSearch else [] } := by
  by_cases hsearch : n.dnsSearch = []
  · simp [domainAssignments, hsearch, pure, Except.pure]
  · cases management with
    | false => simp [domainAssignments, pure, Except.pure]
    | true => simp [domainAssignments, hsearch, step, setting, networkEntry,
        resetList_unwords st.domains hsearch h]

/-- What every parent file starts with leaves the reader in its [Network] section. -/
theorem fold_header (name : String) :
    [(⟨"Match", "", ""⟩ : Entry), ⟨"Match", "Name", name⟩, ⟨"Link", "", ""⟩,
      ⟨"Link", "RequiredForOnline", "no"⟩, ⟨"Network", "", ""⟩,
      ⟨"Network", "LinkLocalAddressing", "no"⟩, ⟨"Network", "IPv6AcceptRA", "no"⟩].foldlM
        step {} = .ok { last := "Network" } := by
  simp [step, closed, setting, bind, Except.bind, pure, Except.pure]

/-- What the [Network] section of a row is read as. -/
def networkState (n : NetworkProfile) (management : Bool) : State :=
  let domains := if management then n.dnsSearch else []
  match n.mode with
  | .dhcp => { dhcp := true, domains, last := "Network" }
  | .static =>
    { addresses := [n.address ++ "/" ++ toString n.prefixLen],
      dns := if management then n.dns else [], domains, last := "Network" }

theorem fold_network {n : NetworkProfile} (h : RowPlain n) (management : Bool) :
    ((networkAssignments n management).map networkEntry).foldlM step { last := "Network" } =
      .ok (networkState n management) := by
  unfold networkAssignments networkState
  cases hmode : n.mode with
  | dhcp =>
    have hdhcp : step { last := "Network" } (networkEntry ("DHCP", "ipv4")) =
        .ok { dhcp := true, last := "Network" } := rfl
    simp only [List.map_cons, List.foldlM_cons, hdhcp, Outcome.bind_ok, fold_domains h.search]
    simp
  | «static» =>
    have hdhcp : step { last := "Network" } (networkEntry ("DHCP", "no")) =
        .ok { last := "Network" } := rfl
    have haddress := resetList_plain [] (plain_cidr (h.address hmode))
    have hstep : step { last := "Network" }
        (networkEntry ("Address", n.address ++ "/" ++ toString n.prefixLen)) =
          .ok { addresses := [n.address ++ "/" ++ toString n.prefixLen], last := "Network" } := by
      rw [List.nil_append] at haddress
      have hnonempty := (plain_cidr (h.address hmode)).nonempty
      simp only [step, networkEntry, setting, haddress]
      simp
    simp only [List.map_cons, List.foldlM_cons, hdhcp, hstep, Outcome.bind_ok, List.map_append,
      List.foldlM_append, fold_dns h.dns, fold_domains h.search]
    simp

/-- The default route of a row as the reader keeps it. -/
def defaultRoute (gateway metric : String) : SortedMap String String :=
  ((SortedMap.empty.insert "Destination" "0.0.0.0/0").insert "Gateway" gateway).insert "Metric"
    metric

/-- What the whole file is read as. -/
def rowState (n : NetworkProfile) (management : Bool) (m : Metadata) : State :=
  let st := networkState n management
  match n.mode with
  | .dhcp => { st with dhcpMetric := m.dhcpMetric, last := "DHCPv4" }
  | .static =>
    if management ∧ n.gateway ≠ "" then
      { st with gateways := [n.gateway], staticMetric := m.staticMetric, last := "Route" }
    else st

theorem step_header {st : State} (h : st.last ≠ "Route") (name : String) :
    step st ⟨name, "", ""⟩ = .ok { st with last := name } := by
  simp [step, closed, h, bind, Except.bind]

theorem step_metric (st : State) {v : String} {metric : Nat} (hv : v ≠ "")
    (h : parseUnsigned u32Max v = some metric) :
    step st ⟨"DHCPv4", "RouteMetric", v⟩ = .ok { st with dhcpMetric := metric } := by
  simp [step, setting, hv, h]

theorem step_use (st : State) {k v : String} (hk : k ∈ ["UseDNS", "UseRoutes", "UseNTP",
    "UseHostname"]) (hv : v ∈ ["yes", "no"]) : step st ⟨"DHCPv4", k, v⟩ = .ok st := by
  simp only [List.mem_cons, List.not_mem_nil, or_false] at hk hv
  rcases hk with rfl | rfl | rfl | rfl <;> rcases hv with rfl | rfl <;> simp [step, setting]

theorem step_route (st : State) {k v : String} (hk : k ≠ "") (hv : v ≠ "") :
    step st ⟨"Route", k, v⟩ = .ok { st with route := st.route.insert k v } := by
  simp [step, setting, hk, hv]

theorem finish_default (st : State) {gateway metric : String} {value : Nat}
    (hroute : st.route = defaultRoute gateway metric)
    (h : parseUnsigned u32Max metric = some value) :
    finish st = .ok { st with
      gateways := st.gateways ++ [gateway], staticMetric := value, route := .empty } := by
  have hkeys : st.route.keys = ["Destination", "Gateway", "Metric"] := by
    rw [hroute]
    rfl
  have hempty : st.route.isEmpty = false := by
    rw [hroute]
    rfl
  have hmetric : routeMetric st = .ok value := by
    simp [routeMetric, hroute, defaultRoute, h]
  have hgateway : st.route.get? "Gateway" = some gateway := by simp [hroute, defaultRoute]
  have hdestination : st.route.get? "Destination" = some "0.0.0.0/0" := by
    simp [hroute, defaultRoute]
  simp [finish, hempty, hkeys, hgateway, hdestination, hmetric, bind, Except.bind]

theorem fold_last {n : NetworkProfile} (management : Bool) {m : Metadata}
    (hd : m.dhcpMetric ≤ u32Max) (hs : m.staticMetric ≤ u32Max) :
    (((lastSection n management m).flatMap Section.entries).foldlM step
      (networkState n management) >>= finish) = .ok (rowState n management m) := by
  have hempty : (SortedMap.empty : SortedMap String String).isEmpty = true := rfl
  unfold lastSection rowState
  cases hmode : n.mode with
  | dhcp =>
    have hst : networkState n management =
        { dhcp := true, domains := if management then n.dnsSearch else [], last := "Network" } := by
      simp [networkState, hmode]
    have huse : (if management = true then "yes" else "no") ∈ ["yes", "no"] := by
      cases management <;> simp
    simp only [hst, List.flatMap_cons, List.flatMap_nil, List.append_nil, Section.entries,
      List.map_cons, List.map_nil, List.foldlM_cons, List.foldlM_nil]
    rw [step_header (by simp), Outcome.bind_ok, step_use _ (by simp) huse, Outcome.bind_ok,
      step_use _ (by simp) huse, Outcome.bind_ok, step_use _ (by simp) (by simp), Outcome.bind_ok,
      step_use _ (by simp) (by simp), Outcome.bind_ok,
      step_metric _ (toString_ne_empty _) (parseUnsigned_toString hd)]
    simp [pure, Except.pure, finish, hempty, bind, Except.bind]
  | «static» =>
    by_cases hgateway : management = true ∧ n.gateway ≠ ""
    · have hlast : (networkState n management).last ≠ "Route" := by simp [networkState, hmode]
      have hroute : (networkState n management).route = .empty := by simp [networkState, hmode]
      have hgateways : (networkState n management).gateways = [] := by simp [networkState, hmode]
      simp only [if_pos hgateway, List.flatMap_cons, List.flatMap_nil, List.append_nil, Section.entries,
        List.map_cons, List.map_nil, List.foldlM_cons, List.foldlM_nil]
      rw [step_header hlast, Outcome.bind_ok, step_route _ (by simp) (by simp), Outcome.bind_ok,
        step_route _ (by simp) hgateway.2, Outcome.bind_ok,
        step_route _ (by simp) (toString_ne_empty _), Outcome.bind_ok]
      have hfinish := finish_default
        { networkState n management with
          route := defaultRoute n.gateway (toString m.staticMetric), last := "Route" } rfl
        (parseUnsigned_toString hs)
      simpa [pure, Except.pure, bind, Except.bind, hroute, hgateways, defaultRoute] using hfinish
    · have hnone : (networkState n management).route.isEmpty = true := by
        simp [networkState, hmode, hempty]
      simp [hgateway, pure, Except.pure, finish, hnone, bind, Except.bind]

/-! ### The row -/

/-- What adoption reads of an untagged row: the management row whole, another one without its
gateway and its name servers. -/
def readRow (n : NetworkProfile) (management : Bool) : NetworkProfile :=
  { dhcpRow with
    mode := n.mode
    address := n.address
    prefixLen := n.prefixLen
    gateway := if management then n.gateway else ""
    dns := if management then n.dns else []
    dnsSearch := if management then n.dnsSearch else [] }

theorem row_rowState {p : NetworkProfiles} {n : NetworkProfile} (h : RowValid p n)
    (management : Bool) (m : Metadata) :
    row (rowState n management m) = .ok (readRow n management) := by
  have hplain := rowPlain_of_valid h
  have hsearch : searchList (if management then n.dnsSearch else []) "[Network] Domains" =
      .ok (if management then n.dnsSearch else []) := by
    cases management with
    | false => rfl
    | true => exact searchList_ok h.searchCount h.search _
  cases hm : n.mode with
  | dhcp =>
    obtain ⟨haddress, hprefix, hgateway, hdns⟩ := h.dhcp hm
    simp [row, rowState, networkState, hm, hsearch, readRow, haddress, hprefix, hgateway, hdns,
      bind, Except.bind, dhcpRow]
  | «static» =>
    have haddress := hplain.address hm
    have hfields : (rowState n management m).addresses =
          [n.address ++ "/" ++ toString n.prefixLen] ∧
        (rowState n management m).gateways =
          (if management = true ∧ n.gateway ≠ "" then [n.gateway] else []) ∧
        (rowState n management m).dns = (if management then n.dns else []) ∧
        (rowState n management m).domains = (if management then n.dnsSearch else []) ∧
        (rowState n management m).dhcp = false := by
      by_cases hgateway : management = true ∧ n.gateway ≠ "" <;>
        simp [rowState, networkState, hm, hgateway]
    obtain ⟨haddresses, hgateways, hdns, hdomains, hdhcp⟩ := hfields
    have hcolon : ((rowState n management m).addresses ++ (rowState n management m).gateways ++
        (rowState n management m).dns).any (any (· == ':')) = false := by
      rw [haddresses, hgateways, hdns, List.any_eq_false]
      intro t ht
      rw [Bool.not_eq_true]
      apply colon_of_plain
      simp only [List.mem_append, List.mem_singleton, List.mem_ite_nil_right] at ht
      rcases ht with (rfl | ⟨⟨-, hg⟩, ht⟩) | ⟨-, ht⟩
      · exact plain_cidr haddress
      · rw [ht]
        exact hplain.gateway hg
      · exact hplain.dns t ht
    have hhead : (if management = true ∧ n.gateway ≠ "" then [n.gateway] else []).head?.getD "" =
        if management then n.gateway else "" := by
      cases management with
      | false => simp
      | true => by_cases hg : n.gateway = "" <;> simp [hg]
    have hsingle : ¬ 1 < (if management = true ∧ n.gateway ≠ "" then [n.gateway] else []).length := by
      split <;> simp
    rw [row, hdomains, hsearch, Outcome.bind_ok, hcolon, hdhcp]
    simp only [Bool.false_eq_true, if_false, staticRow, haddresses, cut_cidr h hm, bits_cidr h hm, hgateways,
      if_neg hsingle, hhead, hdns, readRow, hm, dhcpRow]

/-! ### Adoption -/

/-- The state is only ever read after its last section. -/
theorem metrics_rowState {p : NetworkProfiles} {n : NetworkProfile} (h : RowValid p n)
    (management : Bool) (m : Metadata) :
    (n.mode = .dhcp → (rowState n management m).dhcpMetric = m.dhcpMetric) ∧
      (management = true → n.gateway ≠ "" →
        (rowState n management m).staticMetric = m.staticMetric) := by
  constructor
  · intro hm
    simp [rowState, hm]
  · intro hmanagement hgateway
    cases hm : n.mode with
    | dhcp => exact absurd (h.dhcp hm).2.2.1 hgateway
    | «static» => simp [rowState, hm, hmanagement, hgateway]

theorem value_of_plain {v : String} (h : Plain v) : Value v :=
  value_of_word h.word (h.not_mem rfl)

theorem value_spaced {a b : String} (ha : Value a) (hb : Value b) (hna : a ≠ "") (hnb : b ≠ "") :
    Value (a ++ " " ++ b) where
  single := by
    have hleft := ha.single
    have hright := hb.single
    simp [hleft, hright]
  start := by rw [String.append_assoc, startsWith_append _ hna, ha.start]
  ended := by rw [endsWith_append _ hnb, hb.ended]
  complete := by rw [endsWith_append _ hnb, hb.complete]

theorem value_unwords {ws : List String} (hne : ws ≠ []) (h : ∀ w ∈ ws, Plain w) :
    Value (unwords ws) ∧ unwords ws ≠ "" := by
  induction ws with
  | nil => exact absurd rfl hne
  | cons w rest ih =>
    have hw := h w List.mem_cons_self
    cases rest with
    | nil =>
      have hone : unwords [w] = w := by simp [unwords]
      rw [hone]
      exact ⟨value_of_plain hw, hw.nonempty⟩
    | cons v rest =>
      obtain ⟨hvalue, hnonempty⟩ := ih (by simp) fun u hu => h u (List.mem_cons_of_mem w hu)
      rw [unwords_cons]
      refine ⟨value_spaced (value_of_plain hw) hvalue hw.nonempty hnonempty, fun hempty => ?_⟩
      have := congrArg String.toList hempty
      simp at this

/-- A plain key and a value of one line. -/
def Clean (a : Assignment) : Prop := Plain a.1 ∧ Value a.2

theorem clean_plain {k v : String} (hk : Plain k) (hv : Plain v) : Clean (k, v) :=
  ⟨hk, value_of_plain hv⟩

theorem section_plain {name : String} {l : List Assignment} (hname : Plain name)
    (h : ∀ a ∈ l, Clean a) : Section.Plain ⟨name, l⟩ where
  name := hname.not_mem rfl
  keys a ha := by
    have hk := (h a ha).1
    refine ⟨hk.word, ?_⟩
    rw [any, List.any_eq_false]
    intro c hc
    have hne : ∀ d, plainChar d = false → c ≠ d := fun d hd => ne_of_mem_of_not_mem hc (hk.not_mem hd)
    simp [hne '=' rfl, hne '#' rfl, hne ';' rfl, hne '[' rfl, hne '\\' rfl]
  values a ha := (h a ha).2

theorem networkAssignments_clean {n : NetworkProfile} (h : RowPlain n) (management : Bool) :
    ∀ a ∈ networkAssignments n management, Clean a := by
  have hdomains : ∀ a ∈ domainAssignments n management, Clean a := by
    intro a ha
    unfold domainAssignments at ha
    split at ha
    · rename_i hsearch
      have hkey : Plain "Domains" := ⟨by simp, rfl⟩
      rw [List.mem_singleton.mp ha]
      exact ⟨hkey, (value_unwords hsearch.2 h.search).1⟩
    · simp at ha
  have hdns : ∀ a ∈ dnsAssignments n management, Clean a := by
    intro a ha
    unfold dnsAssignments at ha
    split at ha
    · obtain ⟨d, hd, rfl⟩ := List.mem_map.mp ha
      exact clean_plain ⟨by simp, rfl⟩ (h.dns d hd)
    · simp at ha
  unfold networkAssignments
  cases hm : n.mode with
  | dhcp =>
    simp only [List.forall_mem_cons]
    exact ⟨clean_plain ⟨by simp, rfl⟩ ⟨by simp, rfl⟩, hdomains⟩
  | «static» =>
    simp only [List.forall_mem_cons, List.forall_mem_append]
    exact ⟨clean_plain ⟨by simp, rfl⟩ ⟨by simp, rfl⟩,
      clean_plain ⟨by simp, rfl⟩ (plain_cidr (h.address hm)), hdns, hdomains⟩

theorem lastSection_plain {n : NetworkProfile} (h : RowPlain n) (management : Bool)
    (m : Metadata) : ∀ s ∈ lastSection n management m, s.Plain := by
  unfold lastSection
  cases n.mode with
  | dhcp =>
    have huse : Plain (if management = true then "yes" else "no") := by
      cases management <;> exact ⟨by simp, rfl⟩
    simp only [List.mem_singleton, forall_eq]
    apply section_plain ⟨by simp, rfl⟩
    simp only [List.forall_mem_cons, List.not_mem_nil, false_implies, implies_true, and_true]
    exact ⟨clean_plain ⟨by simp, rfl⟩ huse, clean_plain ⟨by simp, rfl⟩ huse,
      clean_plain ⟨by simp, rfl⟩ ⟨by simp, rfl⟩, clean_plain ⟨by simp, rfl⟩ ⟨by simp, rfl⟩,
      clean_plain ⟨by simp, rfl⟩ (plain_toString _)⟩
  | «static» =>
    by_cases hgateway : management = true ∧ n.gateway ≠ ""
    · simp only [if_pos hgateway, List.mem_singleton, forall_eq]
      apply section_plain ⟨by simp, rfl⟩
      simp only [List.forall_mem_cons, List.not_mem_nil, false_implies, implies_true, and_true]
      exact ⟨clean_plain ⟨by simp, rfl⟩ ⟨by simp, rfl⟩,
        clean_plain ⟨by simp, rfl⟩ (h.gateway hgateway.2),
        clean_plain ⟨by simp, rfl⟩ (plain_toString _)⟩
    · simp [hgateway]

theorem parentSections_plain {p : NetworkProfiles} (hp : NetworkValid p) {n : NetworkProfile}
    (h : RowPlain n) {vlans : List Assignment} (hvlans : ∀ a ∈ vlans, Clean a)
    (management : Bool) (m : Metadata) :
    ∀ s ∈ parentSections p vlans n management m, s.Plain := by
  have hname : Section.Plain ⟨"Match", [("Name", p.interface)]⟩ :=
    section_plain ⟨by simp, rfl⟩ (by
      simpa using clean_plain ⟨by simp, rfl⟩ (plain_interface hp))
  have hlink : Section.Plain ⟨"Link", [("RequiredForOnline", "no")]⟩ :=
    section_plain ⟨by simp, rfl⟩ (by
      simpa using clean_plain ⟨by simp, rfl⟩ ⟨by simp, rfl⟩)
  have hnetwork : Section.Plain ⟨"Network", [("LinkLocalAddressing", "no"), ("IPv6AcceptRA", "no")] ++
      vlans ++ networkAssignments n management⟩ := by
    apply section_plain ⟨by simp, rfl⟩
    simp only [List.forall_mem_append, List.forall_mem_cons, List.not_mem_nil, false_implies,
      implies_true, and_true]
    exact ⟨⟨⟨clean_plain ⟨by simp, rfl⟩ ⟨by simp, rfl⟩, clean_plain ⟨by simp, rfl⟩ ⟨by simp, rfl⟩⟩,
      hvlans⟩, networkAssignments_clean h management⟩
  unfold parentSections
  simp only [List.forall_mem_append, List.forall_mem_cons, List.not_mem_nil, false_implies,
    implies_true, and_true]
  exact ⟨⟨hname, hlink, hnetwork⟩, lastSection_plain h management m⟩

theorem networkAssignments_keys (n : NetworkProfile) (management : Bool) :
    ∀ a ∈ networkAssignments n management, a.1 ≠ "VLAN" := by
  have hdomains : ∀ a ∈ domainAssignments n management, a.1 ≠ "VLAN" := by
    intro a ha
    unfold domainAssignments at ha
    split at ha <;> simp_all
  have hdns : ∀ a ∈ dnsAssignments n management, a.1 ≠ "VLAN" := by
    intro a ha
    unfold dnsAssignments at ha
    split at ha
    · obtain ⟨d, hd, rfl⟩ := List.mem_map.mp ha
      simp
    · simp at ha
  unfold networkAssignments
  cases n.mode with
  | dhcp => simpa using hdomains
  | «static» =>
    simp only [List.forall_mem_cons, List.forall_mem_append]
    exact ⟨by simp, by simp, hdns, hdomains⟩

theorem parentSections_withoutVlans (p : NetworkProfiles) (n : NetworkProfile) (management : Bool)
    (m : Metadata) :
    (parentSections p (vlanAssignments p) n management m).map Section.withoutVlans =
      parentSections p [] n management m := by
  have hvlans : (vlanAssignments p).filter (fun a => a.1 ≠ "VLAN") = [] := by
    rw [List.filter_eq_nil_iff]
    intro a ha
    obtain ⟨v, -, rfl⟩ := List.mem_map.mp ha
    simp
  have hkept : (networkAssignments n management).filter (fun a => a.1 ≠ "VLAN") =
      networkAssignments n management :=
    List.filter_eq_self.mpr fun a ha => by simpa using networkAssignments_keys n management a ha
  have hlast : (lastSection n management m).map Section.withoutVlans =
      lastSection n management m := by
    unfold lastSection
    cases n.mode with
    | dhcp => simp [Section.withoutVlans]
    | «static» =>
      by_cases hgateway : management = true ∧ n.gateway ≠ "" <;>
        simp [hgateway, Section.withoutVlans]
  simp only [parentSections, List.map_append, List.map_cons, List.map_nil, hlast,
    Section.withoutVlans, List.filter_append, hvlans, hkept]
  simp

theorem parentSections_own (p : NetworkProfiles) (n : NetworkProfile) (management : Bool)
    (m : Metadata) : OwnVlans p (parentSections p (vlanAssignments p) n management m) := by
  have hlast : ∀ s ∈ lastSection n management m, s.name ≠ "Network" := by
    unfold lastSection
    cases n.mode with
    | dhcp => simp
    | «static» => by_cases hgateway : management = true ∧ n.gateway ≠ "" <;> simp [hgateway]
  intro s hs hname a ha hvlan
  simp only [parentSections, List.mem_append, List.mem_cons, List.not_mem_nil, or_false] at hs
  rcases hs with (rfl | rfl | rfl) | hs
  · simp at hname
  · simp at hname
  · simp only [List.mem_append, List.mem_cons, List.not_mem_nil, or_false] at ha
    rcases ha with ((rfl | rfl) | ha) | ha
    · simp at hvlan
    · simp at hvlan
    · obtain ⟨v, hv, rfl⟩ := List.mem_map.mp ha
      exact List.mem_cons_of_mem _ (List.mem_map_of_mem hv)
    · exact absurd hvlan (networkAssignments_keys n management a ha)
  · exact absurd hname (hlast s hs)

theorem parse_parent {p : NetworkProfiles} (hp : NetworkValid p) {n : NetworkProfile}
    (h : RowValid p n) (management : Bool) {m : Metadata} (hd : m.dhcpMetric ≤ u32Max)
    (hs : m.staticMetric ≤ u32Max) :
    parse (unlines (document (parentSections p [] n management m))) =
      .ok (readRow n management, (rowState n management m).dhcpMetric,
        (rowState n management m).staticMetric) := by
  have hplain := rowPlain_of_valid h
  have hnone : ∀ a ∈ ([] : List Assignment), Clean a := by simp
  have hsections := parentSections_plain hp hplain hnone management m
  have hentries : (parentSections p [] n management m).flatMap Section.entries =
      [⟨"Match", "", ""⟩, ⟨"Match", "Name", p.interface⟩, ⟨"Link", "", ""⟩,
        ⟨"Link", "RequiredForOnline", "no"⟩, ⟨"Network", "", ""⟩,
        ⟨"Network", "LinkLocalAddressing", "no"⟩, ⟨"Network", "IPv6AcceptRA", "no"⟩] ++
      ((networkAssignments n management).map networkEntry ++
        (lastSection n management m).flatMap Section.entries) := by
    simp [parentSections, Section.entries, networkEntry]
  have hfold : (((parentSections p [] n management m).flatMap Section.entries).foldlM step {} >>=
      finish) = .ok (rowState n management m) := by
    rw [hentries, List.foldlM_append, fold_header, Outcome.bind_ok, List.foldlM_append,
      fold_network hplain, Outcome.bind_ok, fold_last management hd hs]
  have hrow := row_rowState h management m
  obtain ⟨st, hst, hfinish⟩ := Outcome.bind_eq_ok.mp hfold
  rw [parse, ini_document hsections, Outcome.bind_ok, hst, Outcome.bind_ok, hfinish,
    Outcome.bind_ok, hrow, Outcome.bind_ok]

/-- For every accepted profile and all metrics, what rendering writes of the untagged row is what
adoption reads of it. -/
theorem adoption_inverts_rendering {p : NetworkProfiles} (hp : Accepted p) {m : Metadata}
    (hd : m.dhcpMetric ≤ u32Max) (hs : m.staticMetric ≤ u32Max) {n : NetworkProfile}
    (hn : n ∈ p.networks) (hu : n.vlanId = none) :
    ∃ text row d s, filtered p (parentText p m) = .ok text ∧ parse text = .ok (row, d, s) ∧
      (row.mode = n.mode ∧ row.address = n.address ∧ row.prefixLen = n.prefixLen) ∧
      (n.mode = .dhcp → d = m.dhcpMetric) ∧
      (n.id = p.roles.management → (row.gateway = n.gateway ∧ row.dns = n.dns ∧
        row.dnsSearch = n.dnsSearch) ∧ (n.gateway ≠ "" → s = m.staticMetric)) ∧
      (n.id ≠ p.roles.management → row.gateway = "" ∧ row.dns = [] ∧ row.dnsSearch = []) := by
  have hvalid := hp.valid hn
  have hrow := hvalid.rows n hn
  have hplain := rowPlain_of_valid hrow
  let management := n.id == p.roles.management
  have hvlans : ∀ a ∈ vlanAssignments p, Clean a := by
    intro a ha
    obtain ⟨v, -, rfl⟩ := List.mem_map.mp ha
    exact clean_plain ⟨by simp, rfl⟩ (plain_ifname hvalid v)
  have htext : parentText p m =
      unlines (document (parentSections p (vlanAssignments p) n management m)) := by
    rw [document_parent]
    simp [parentText, find_untagged hvalid hn hu, vlanAssignments, assign, Function.comp_def,
      management]
  have hfiltered : filtered p (parentText p m) =
      .ok (unlines (document (parentSections p [] n management m))) := by
    rw [htext, filtered_document (parentSections_plain hvalid hplain hvlans management m)
      (parentSections_own p n management m), parentSections_withoutVlans]
  obtain ⟨hdhcp, hstatic⟩ := metrics_rowState hrow management m
  refine ⟨_, _, _, _, hfiltered, parse_parent hvalid hrow management hd hs, ⟨rfl, rfl, rfl⟩,
    hdhcp, fun hid => ?_, fun hid => ?_⟩
  · have hmanagement : management = true := beq_iff_eq.mpr hid
    rw [hmanagement] at hstatic ⊢
    exact ⟨⟨rfl, rfl, rfl⟩, hstatic rfl⟩
  · have hmanagement : management = false := beq_false_of_ne hid
    rw [hmanagement]
    exact ⟨rfl, rfl, rfl⟩

/-- The static management row of a port that also carries a tagged network. -/
theorem sample_parent_is_adopted :
    ∃ text row d s,
      filtered (normalize sampleProfiles) (parentText (normalize sampleProfiles) {}) = .ok text ∧
      parse text = .ok (row, d, s) ∧ row.mode = .static ∧ row.gateway = "10.0.0.1" ∧
      row.dns = ["10.0.0.1"] ∧ s = 0 := by
  have hn : managementRow ∈ (normalize sampleProfiles).networks := .head _
  obtain ⟨text, row, d, s, hfiltered, hparse, ⟨hmode, -⟩, -, hmanagement, -⟩ :=
    adoption_inverts_rendering (.inr ⟨sampleProfiles, sampleProfiles, rfl⟩)
      (show ({} : Metadata).dhcpMetric ≤ u32Max by decide)
      (show ({} : Metadata).staticMetric ≤ u32Max by decide) hn rfl
  obtain ⟨⟨hgateway, hdns, -⟩, hmetric⟩ := hmanagement rfl
  exact ⟨text, row, d, s, hfiltered, hparse, hmode, hgateway, hdns, hmetric (by simp [managementRow])⟩

end NdimonR.Backend.Networkd
