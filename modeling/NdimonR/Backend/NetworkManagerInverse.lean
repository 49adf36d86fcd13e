import NdimonR.Backend.Accepted
import NdimonR.Backend.NetworkManagerAdoption
import NdimonR.Backend.NetworkManagerRestore

/-! A written connection reads back as the row it was written of; of another one, what a row does
not hold is lost. -/

namespace NdimonR.Backend.NetworkManager

open Types Text Engine Backend

/-! ### Lists -/

def separator (c : Char) : Bool := c == ',' || c == ' '

theorem elements_eq (s : String) : elements s = if empty s then [] else pieces separator s := rfl

theorem mem_elements {s w : String} (h : w ∈ elements s) :
    w ≠ "" ∧ ∀ c ∈ w.toList, separator c = false := by
  rw [elements_eq] at h
  split at h
  · cases h
  · exact mem_pieces h

theorem elements_unwords {ws : List String}
    (h : ∀ w ∈ ws, w ≠ "" ∧ ∀ c ∈ w.toList, separator c = false) (hnone : ws ≠ ["--"]) :
    elements (unwords ws) = ws := by
  have hpieces := pieces_unwords (by decide) h
  rw [elements_eq, hpieces]
  split
  · rename_i hempty
    simp only [empty, Bool.or_eq_true, decide_eq_true_eq] at hempty
    -- of the two texts for nothing, one has no word and the other is its own only word
    rcases hempty with hempty | hempty
    · rw [hempty] at hpieces
      exact hpieces
    · rw [hempty] at hpieces
      exact absurd hpieces.symm hnone
  · rfl

theorem elements_word {w : String} (hne : w ≠ "") (h : ∀ c ∈ w.toList, separator c = false)
    (hnone : w ≠ "--") : elements w = [w] := by
  have hone : elements (unwords [w]) = [w] :=
    elements_unwords (by simpa using ⟨hne, h⟩) (by simpa using hnone)
  simpa [unwords] using hone

theorem separator_plain {s : String} (h : Plain s) : ∀ c ∈ s.toList, separator c = false := by
  intro c hc
  have hplain := h.forall c hc
  simp only [separator, Bool.or_eq_false_iff, beq_eq_false_iff_ne]
  constructor <;> rintro rfl <;> cases hplain

theorem elements_none {s : String} (h : empty s = true) : elements s = [] := by
  rw [elements_eq, if_pos h]

/-! ### What adoption looks at -/

def Unset (s : Store) (uuid field : String) : Prop :=
  ∃ value, nmField s uuid field = .ok value ∧ empty value = true

theorem refuseSet_eq_ok {s : Store} {uuid field : String} {error : ApiError} {u : Unit} :
    refuseSet s uuid field error = .ok u ↔ Unset s uuid field := by
  simp only [refuseSet, Outcome.bind_eq_ok, refuse_eq_ok, Bool.not_eq_false', Unset]

theorem forM_refuseSet {s : Store} {uuid : String} {error : String → ApiError} {l : List String}
    {u : Unit} : l.forM (fun field => refuseSet s uuid field (error field)) = .ok u ↔
      ∀ field ∈ l, Unset s uuid field := by
  cases u
  rw [Outcome.forM_eq_ok]
  simp only [refuseSet_eq_ok]

theorem forM_refuse {condition : String → Bool} {error : String → ApiError} {l : List String}
    {u : Unit} : l.forM (fun field => refuse (condition field) (error field)) = .ok u ↔
      ∀ field ∈ l, condition field = false := by
  cases u
  rw [Outcome.forM_eq_ok]
  simp only [refuse_eq_ok]

theorem needed_eq_ok {b : Properties} {field value : String} :
    needed b field = .ok value ↔ b.get? field = some value := by
  unfold needed
  cases b.get? field <;> simp

section
variable {ports : Ports} {s : Store} {port uuid : String}

/-- What a connection that is adopted passed. -/
structure Adopts (ports : Ports) (s : Store) (port uuid binding ipv6 : String) (b : Properties)
    (search : List String) (raw : String) (metric : Nat) (row : NetworkProfile) : Prop where
  ethernet : nmField s uuid "connection.type" = .ok "802-3-ethernet"
  bound : nmField s uuid "connection.interface-name" = .ok binding
  ours : binding = "" ∨ binding = port
  routes : Unset s uuid "ipv4.routes"
  rules : Unset s uuid "ipv4.routing-rules"
  plain : ∀ field ∈ ipv6Fields, Unset s uuid field
  readsIpv6 : nmField s uuid "ipv6.method" = .ok ipv6
  known : ipv6 ∈ ["auto", "disabled", "ignore"]
  snapshot : nmSnapshot s uuid = .ok b
  readsSearch : searchList (elements (property b "ipv4.dns-search")) "ipv4.dns-search" = .ok search
  readsRow : methodRow s uuid b { dhcpRow with dnsSearch := search } = .ok row
  readsRaw : b.get? "ipv4.route-metric" = some raw
  readsMetric : nmMetric ports uuid port raw = .ok metric
  alone : nmDrift ports s (probe port) (adoptedMetadata uuid metric) = .ok []

theorem adoptNm_eq_ok {row : NetworkProfile} {metadata : Metadata} :
    adoptNm ports s port uuid = .ok (row, metadata) ↔ ∃ binding ipv6 b search raw metric,
      Adopts ports s port uuid binding ipv6 b search raw metric row ∧
        metadata = adoptedMetadata uuid metric := by
  simp only [adoptNm, Outcome.bind_eq_ok, refuse_eq_ok, refuseSet_eq_ok, forM_refuseSet,
    needed_eq_ok, exists_const, decide_eq_false_iff_not, not_not, Bool.not_eq_false',
    List.contains_iff_mem, List.isEmpty_iff, not_and]
  constructor
  · rintro ⟨kind, hkind, rfl, binding, hbound, hours, hroutes, hrules, hplain, ipv6, hipv6, hknown,
      b, hb, search, hsearch, row', hrow, raw, hraw, metric, hmetric, drift, hdrift, rfl, h⟩
    cases h
    exact ⟨binding, ipv6, b, search, raw, metric, ⟨hkind, hbound, by tauto, hroutes, hrules,
      hplain, hipv6, hknown, hb, hsearch, hrow, hraw, hmetric, hdrift⟩, rfl⟩
  · rintro ⟨binding, ipv6, b, search, raw, metric, h, rfl⟩
    have hours := h.ours
    exact ⟨_, h.ethernet, rfl, binding, h.bound, by tauto, h.routes, h.rules, h.plain, ipv6,
      h.readsIpv6, h.known, b, h.snapshot, search, h.readsSearch, row, h.readsRow, raw, h.readsRaw,
      metric, h.readsMetric, [], h.alone, rfl, rfl⟩

/-- The only connection has no other beside it. -/
theorem nmDrift_alone {links : Json} {rows : List Json} (hlinks : ports.links = .ok links)
    (hrows : Json.asArray links = some rows) (hvalid : validUuid uuid = true)
    (honly : s.connections.keys = [uuid]) (metric : Nat) :
    nmDrift ports s (probe port) (adoptedMetadata uuid metric) = .ok [] := by
  have huuids : nmUuids s = .ok [uuid] := by simp [nmUuids, honly, hvalid]
  have hown : ∀ mac, connectionDrift s (probe port) (adoptedMetadata uuid metric) mac uuid =
      .ok [] := by
    intro mac
    simp [connectionDrift, adoptedMetadata]
  simp only [nmDrift, hlinks, Networkd.linkMac, hrows, huuids, Outcome.bind_ok, List.mapM_cons,
    hown, List.mapM_nil]
  rfl

end

/-! ### The row of a connection -/

def shownGateway (b : Properties) : String :=
  if empty (property b "ipv4.gateway") then "" else property b "ipv4.gateway"

/-- A lease with nothing beside it. -/
structure Leases (s : Store) (uuid : String) (b : Properties) : Prop where
  method : b.get? "ipv4.method" = some "auto"
  addresses : elements (property b "ipv4.addresses") = []
  gateway : shownGateway b = ""
  dns : elements (property b "ipv4.dns") = []
  asks : ∀ field ∈ leaseFields, Unset s uuid field
  taken : ∀ field ∈ deniedFields, b.get? field ≠ some "yes"

/-- One address of the connection's own. -/
structure Fixed (b : Properties) (address a bits : String) (prefixLen : Nat) : Prop where
  method : b.get? "ipv4.method" = some "manual"
  addresses : elements (property b "ipv4.addresses") = [address]
  cut : splitOnce "/" address = some (a, bits)
  bits : parseUnsigned 255 bits = some prefixLen

def fixedRow (start : NetworkProfile) (b : Properties) (a : String) (prefixLen : Nat) :
    NetworkProfile :=
  { start with
    mode := .static
    address := a
    prefixLen := prefixLen
    gateway := shownGateway b
    dns := elements (property b "ipv4.dns") }

section
variable {s : Store} {uuid : String} {b : Properties} {start row : NetworkProfile}

theorem autoRow_eq_ok {addresses dns : List String} {gateway : String} :
    autoRow s uuid b start addresses gateway dns = .ok row ↔
      (addresses = [] ∧ gateway = "" ∧ dns = []) ∧ (∀ field ∈ leaseFields, Unset s uuid field) ∧
        (∀ field ∈ deniedFields, b.get? field ≠ some "yes") ∧ start = row := by
  simp only [autoRow, Outcome.bind_eq_ok, refuse_eq_ok, forM_refuseSet, forM_refuse, exists_const,
    Bool.or_eq_false_iff, Bool.not_eq_false', List.isEmpty_iff,
    decide_eq_false_iff_not, not_not, Except.ok.injEq, and_assoc, ne_eq]

theorem manualRow_eq_ok {addresses dns : List String} {gateway : String} :
    manualRow start addresses gateway dns = .ok row ↔ ∃ address a bits prefixLen,
      addresses = [address] ∧ splitOnce "/" address = some (a, bits) ∧
        parseUnsigned 255 bits = some prefixLen ∧
        { start with mode := .static, address := a, prefixLen, gateway, dns } = row := by
  unfold manualRow
  constructor
  · intro h
    split at h
    · rename_i address
      split at h
      · cases h
      · rename_i a bits hcut
        split at h
        · cases h
        · rename_i prefixLen hbits
          exact ⟨address, a, bits, prefixLen, rfl, hcut, hbits, Except.ok.inj h⟩
    · cases h
  · rintro ⟨address, a, bits, prefixLen, rfl, hcut, hbits, rfl⟩
    simp only [hcut, hbits]

theorem methodRow_eq_ok : methodRow s uuid b start = .ok row ↔
    (Leases s uuid b ∧ start = row) ∨
      ∃ address a bits prefixLen, Fixed b address a bits prefixLen ∧
        fixedRow start b a prefixLen = row := by
  unfold methodRow
  constructor
  · intro h
    simp only at h
    split at h
    · rename_i hmethod
      obtain ⟨⟨haddresses, hgateway, hdns⟩, hasks, htaken, hrow⟩ := autoRow_eq_ok.mp h
      exact .inl ⟨⟨hmethod, haddresses, hgateway, hdns, hasks, htaken⟩, hrow⟩
    · split at h
      · rename_i hmethod
        obtain ⟨address, a, bits, prefixLen, haddresses, hcut, hbits, hrow⟩ := manualRow_eq_ok.mp h
        exact .inr ⟨address, a, bits, prefixLen, ⟨hmethod, haddresses, hcut, hbits⟩, hrow⟩
      · cases h
  · rintro (⟨h, hrow⟩ | ⟨address, a, bits, prefixLen, h, hrow⟩)
    · simp only [h.method, if_true]
      exact autoRow_eq_ok.mpr ⟨⟨h.addresses, h.gateway, h.dns⟩, h.asks, h.taken, hrow⟩
    · have hauto : (some "manual" : Option String) ≠ some "auto" := by decide
      simp only [h.method, if_neg hauto, if_true]
      exact manualRow_eq_ok.mpr ⟨address, a, bits, prefixLen, h.addresses, h.cut, h.bits, hrow⟩

end

/-! ### What is written of the management row -/

def managementValues (n : NetworkProfile) (metric : Nat) : List (String × String) :=
  [("connection.autoconnect", "yes"), ("connection.wait-device-timeout", "0"),
    ("ipv4.method", if n.mode = .dhcp then "auto" else "manual"),
    ("ipv4.addresses", if n.mode = .static then n.address ++ "/" ++ toString n.prefixLen else ""),
    ("ipv4.gateway", n.gateway), ("ipv4.dns", unwords n.dns),
    ("ipv4.dns-search", unwords n.dnsSearch), ("ipv4.never-default", "no"),
    ("ipv4.ignore-auto-dns", "no"), ("ipv4.ignore-auto-routes", "no"),
    ("ipv4.route-metric", toString metric), ("ipv4.may-fail", "yes"),
    ("ipv4.dhcp-send-hostname", "no"), ("ipv6.method", "disabled")]

theorem get?_settings {n : NetworkProfile} {p : NetworkProfiles} (hid : n.id = p.roles.management)
    (m : Metadata) (name : String) (bind : Bool) {field : String}
    (hne : field ≠ "connection.interface-name") :
    (settings (some n) p m name bind).get? field =
      SortedMap.lookup field (managementValues n (metric m n)) := by
  have hvalues : settings (some n) p m name true =
      .ofList (("connection.interface-name", name) :: managementValues n (metric m n)) := by
    simp [settings, hid, managementValues]
  have hnodup : ((("connection.interface-name", name) ::
      managementValues n (metric m n)).map Prod.fst).Nodup := by
    simp [managementValues]
  have hwhole : (settings (some n) p m name true).get? field =
      SortedMap.lookup field (managementValues n (metric m n)) := by
    rw [hvalues, SortedMap.get?_ofList hnodup]
    simp [SortedMap.lookup, hne]
  cases bind with
  | true => exact hwhole
  | false =>
    have herase : settings (some n) p m name false =
        (settings (some n) p m name true).erase "connection.interface-name" := rfl
    rw [herase, SortedMap.get?_erase, if_neg hne, hwhole]

theorem get?_binding (n : NetworkProfile) (p : NetworkProfiles) (m : Metadata) (name : String)
    (bind : Bool) : (settings (some n) p m name bind).get? "connection.interface-name" =
      if bind then some name else none := by
  cases bind with
  | true =>
    simp only [settings, if_true]
    rw [SortedMap.get?_ofList (by simp)]
    rfl
  | false =>
    simp only [settings, Bool.false_eq_true, if_false]
    rw [SortedMap.get?_erase, if_pos rfl]

/-! ### Written, then adopted -/

def listFields : List String := ["ipv4.addresses", "ipv4.dns", "ipv4.dns-search"]

/-- How a value is printed: a list by its elements, yes and no by any of their names, anything else
as it is, or `--` for none. -/
def Prints (field want got : String) : Prop :=
  if endsWithText "never-default" field || includesText "ignore-auto" field then
    boolean want = boolean got
  else if field ∈ listFields then elements want = elements got
  else got = want ∨ (want = "" ∧ got = "--")

theorem sameValue_of_prints {field want got : String} (h : Prints field want got) :
    sameValue field want got = true := by
  unfold Prints at h
  unfold sameValue
  split
  · rename_i hflag
    rw [if_pos hflag] at h
    exact decide_eq_true h
  · rename_i hflag
    rw [if_neg hflag] at h
    split at h
    · exact decide_eq_true h
    · rcases h with rfl | ⟨rfl, rfl⟩
      · simp
      · rfl

/-- What adoption finds unset. -/
def bareFields : List String :=
  "ipv4.routes" :: "ipv4.routing-rules" :: (ipv6Fields ++ leaseFields)

/-- A connection, the only one, of an Ethernet port, with nothing but the values set. -/
structure Holding (prints : (field want got : String) → Prop) (s : Store) (uuid port : String)
    (values : Properties) : Prop where
  only : s.connections.keys = [uuid]
  ethernet : nmField s uuid "connection.type" = .ok "802-3-ethernet"
  holds : ∀ field want, values.get? field = some want →
    ∃ got, nmField s uuid field = .ok got ∧ prints field want got
  /-- Where the binding is not written, there is none to another port. -/
  free : values.get? "connection.interface-name" = none → ∃ binding,
    nmField s uuid "connection.interface-name" = .ok binding ∧ (binding = "" ∨ binding = port)
  bare : ∀ field ∈ bareFields, Unset s uuid field
  /-- Recorded, and left alone. -/
  privacy : ∃ got, nmField s uuid "ipv6.ip6-privacy" = .ok got

section
variable {s : Store} {p : NetworkProfiles} {n : NetworkProfile} {m : Metadata}
  {uuid : String} {bind : Bool}

theorem boolean_yes : boolean "no" ≠ boolean "yes" := by decide

theorem Holding.valid {values : Properties} (h : Holding Prints s uuid p.interface values) :
    validUuid uuid = true := (nmField_eq_ok h.ethernet).1

/-- What a value of the row reads as. -/
theorem Holding.reads (h : Holding Prints s uuid p.interface (settings (some n) p m p.interface bind))
    (hid : n.id = p.roles.management) (field : String) {want : String}
    (hne : field ≠ "connection.interface-name")
    (hwant : SortedMap.lookup field (managementValues n (metric m n)) = some want) :
    ∃ got, nmField s uuid field = .ok got ∧ Prints field want got :=
  h.holds field want (by rw [get?_settings hid m p.interface bind hne, hwant])

theorem Holding.binding
    (h : Holding Prints s uuid p.interface (settings (some n) p m p.interface bind))
    (hport : p.interface ≠ "") : ∃ binding,
      nmField s uuid "connection.interface-name" = .ok binding ∧
        (binding = "" ∨ binding = p.interface) := by
  cases bind with
  | false => exact h.free (get?_binding n p m p.interface false)
  | true =>
    obtain ⟨got, hgot, hprints⟩ := h.holds _ _ (get?_binding n p m p.interface true)
    have hsingle : got = p.interface ∨ (p.interface = "" ∧ got = "--") := hprints
    exact ⟨got, hgot, .inr (hsingle.resolve_right fun hnone => hport hnone.1)⟩

/-- Every property a snapshot takes can be read. -/
theorem Holding.snapshot
    (h : Holding Prints s uuid p.interface (settings (some n) p m p.interface bind))
    (hid : n.id = p.roles.management) (hport : p.interface ≠ "") :
    ∃ b, nmSnapshot s uuid = .ok b := by
  have hreads : ∀ field ∈ fields, ∃ got, nmField s uuid field = .ok got := by
    intro field hfield
    by_cases hname : field = "connection.interface-name"
    · obtain ⟨binding, hbinding, -⟩ := h.binding hport
      exact ⟨binding, by rw [hname, hbinding]⟩
    by_cases hprivacy : field = "ipv6.ip6-privacy"
    · obtain ⟨got, hgot⟩ := h.privacy
      exact ⟨got, by rw [hprivacy, hgot]⟩
    have hwritten : ∃ want,
        SortedMap.lookup field (managementValues n (metric m n)) = some want := by
      simp only [fields, List.mem_cons, List.not_mem_nil, or_false, hname, hprivacy,
        false_or] at hfield
      rcases hfield with rfl | rfl | rfl | rfl | rfl | rfl | rfl | rfl | rfl | rfl | rfl | rfl |
        rfl | rfl <;> exact ⟨_, rfl⟩
    obtain ⟨want, hwant⟩ := hwritten
    obtain ⟨got, hgot, -⟩ := h.reads hid field hname hwant
    exact ⟨got, hgot⟩
  have hok : (fields.mapM fun field => (nmField s uuid field).map (field, ·)).isOk = true := by
    rw [Outcome.isOk_mapM]
    intro field hfield
    obtain ⟨got, hgot⟩ := hreads field hfield
    rw [hgot]
    rfl
  obtain ⟨values, hvalues⟩ := Outcome.isOk_iff.mp hok
  exact ⟨.ofList values, by rw [nmSnapshot, hvalues, Outcome.bind_ok]⟩

theorem property_eq {b : Properties} (hb : nmSnapshot s uuid = .ok b) {field got : String}
    (hfield : field ∈ fields) (hgot : nmField s uuid field = .ok got) : b.get? field = some got := by
  obtain ⟨v, hv, hread⟩ := (nmSnapshot_eq_ok hb).1 field hfield
  rw [hgot] at hread
  rw [hv, Except.ok.inj hread]

theorem elements_dns (h : RowValid p n) : elements (unwords n.dns) = n.dns := by
  apply elements_unwords
  · intro d hd
    have hplain := plain_address (h.dns d hd)
    exact ⟨hplain.nonempty, separator_plain hplain⟩
  · intro hnone
    have hdashes := h.dns "--" (by simp [hnone])
    cases hdashes

theorem elements_search (h : RowValid p n) : elements (unwords n.dnsSearch) = n.dnsSearch := by
  apply elements_unwords
  · intro d hd
    have hplain := plain_search (h.search d hd)
    exact ⟨hplain.nonempty, separator_plain hplain⟩
  · intro hnone
    have hdashes := h.search "--" (by simp [hnone])
    revert hdashes
    decide

theorem elements_cidr (h : RowValid p n) (hm : n.mode = .static) :
    elements (n.address ++ "/" ++ toString n.prefixLen) =
      [n.address ++ "/" ++ toString n.prefixLen] := by
  have hplain := plain_cidr ((rowPlain_of_valid h).address hm)
  apply elements_word hplain.nonempty (separator_plain hplain)
  intro hdashes
  have hslash : '/' ∈ (n.address ++ "/" ++ toString n.prefixLen).toList := by simp
  rw [hdashes] at hslash
  revert hslash
  decide

theorem gateway_ne_dashes (h : RowValid p n) : n.gateway ≠ "--" := by
  intro hdashes
  cases hm : n.mode with
  | dhcp =>
    have hnone := (h.dhcp hm).2.2.1
    rw [hdashes] at hnone
    exact absurd hnone (by decide)
  | «static» =>
    rcases (h.static hm).2.2 with hnone | haddress
    · rw [hdashes] at hnone
      exact absurd hnone (by decide)
    · rw [hdashes] at haddress
      cases haddress

/-- A printed gateway is the row's own. -/
theorem shownGateway_eq (h : RowValid p n) {b : Properties} {gateway : String}
    (hb : b.get? "ipv4.gateway" = some gateway) (hprints : Prints "ipv4.gateway" n.gateway gateway) :
    shownGateway b = n.gateway := by
  have hsingle : gateway = n.gateway ∨ (n.gateway = "" ∧ gateway = "--") := hprints
  rw [shownGateway, property, hb, Option.getD_some]
  rcases hsingle with rfl | ⟨hnone, rfl⟩
  · split
    · rename_i hempty
      simp only [empty, Bool.or_eq_true, decide_eq_true_eq] at hempty
      exact (hempty.resolve_right (gateway_ne_dashes h)).symm
    · rfl
  · exact hnone.symm

/-- The row of the written values. -/
theorem Holding.row (h : Holding Prints s uuid p.interface (settings (some n) p m p.interface bind))
    (hid : n.id = p.roles.management) (hn : RowValid p n) {b : Properties}
    (hb : nmSnapshot s uuid = .ok b) :
    methodRow s uuid b { dhcpRow with dnsSearch := n.dnsSearch } = .ok (Backend.adopted n) := by
  have hread : ∀ (field : String) {want : String}, field ∈ fields →
      field ≠ "connection.interface-name" →
      SortedMap.lookup field (managementValues n (metric m n)) = some want →
      ∃ got, b.get? field = some got ∧ Prints field want got := by
    intro field want hfield hne hwant
    obtain ⟨got, hgot, hprints⟩ := h.reads hid field hne hwant
    exact ⟨got, property_eq hb hfield hgot, hprints⟩
  obtain ⟨method, hmethod, hmethodText⟩ := hread "ipv4.method" (by decide) (by decide) rfl
  obtain ⟨addresses, haddresses, haddressesText⟩ :=
    hread "ipv4.addresses" (by decide) (by decide) rfl
  obtain ⟨gateway, hgateway, hgatewayText⟩ :=
    hread "ipv4.gateway" (by decide) (by decide) rfl
  obtain ⟨dns, hdns, hdnsText⟩ := hread "ipv4.dns" (by decide) (by decide) rfl
  have hdnsText : elements (unwords n.dns) = elements dns := hdnsText
  have haddressesText : elements (if n.mode = .static then
      n.address ++ "/" ++ toString n.prefixLen else "") = elements addresses := haddressesText
  have hservers : elements (property b "ipv4.dns") = n.dns := by
    rw [property, hdns, Option.getD_some, ← hdnsText, elements_dns hn]
  have hshown := shownGateway_eq hn hgateway hgatewayText
  have hmethod : b.get? "ipv4.method" = some (if n.mode = .dhcp then "auto" else "manual") := by
    have hsingle : method = (if n.mode = .dhcp then "auto" else "manual") ∨ _ := hmethodText
    rcases hsingle with rfl | ⟨hnone, -⟩
    · exact hmethod
    · split at hnone <;> exact absurd hnone (by decide)
  cases hm : n.mode with
  | dhcp =>
    obtain ⟨haddress, hprefix, hnone, hempty⟩ := hn.dhcp hm
    rw [hm] at hmethod haddressesText
    refine methodRow_eq_ok.mpr (.inl ⟨⟨hmethod, ?_, hshown.trans hnone, hservers.trans hempty,
      ?_, ?_⟩, ?_⟩)
    · rw [property, haddresses, Option.getD_some, ← haddressesText]
      rfl
    · intro field hfield
      exact h.bare field (by simp [bareFields, hfield])
    · intro field hfield hyes
      have hdenied : ∃ got, b.get? field = some got ∧ boolean "no" = boolean got := by
        simp only [deniedFields, List.mem_cons, List.not_mem_nil, or_false] at hfield
        rcases hfield with rfl | rfl | rfl <;> exact hread _ (by decide) (by decide) rfl
      obtain ⟨got, hgot, hno⟩ := hdenied
      rw [hyes, Option.some.injEq] at hgot
      rw [← hgot] at hno
      exact boolean_yes hno
    · simp [Backend.adopted, hm, haddress, hprefix, hnone, hempty, dhcpRow]
  | «static» =>
    rw [hm] at hmethod haddressesText
    refine methodRow_eq_ok.mpr (.inr ⟨_, n.address, toString n.prefixLen, n.prefixLen,
      ⟨hmethod, ?_, cut_cidr hn hm, bits_cidr hn hm⟩, ?_⟩)
    · rw [property, haddresses, Option.getD_some, ← haddressesText, if_pos rfl, elements_cidr hn hm]
    · simp [fixedRow, hshown, hservers, Backend.adopted, hm]

theorem metric_le (hd : m.dhcpMetric ≤ u32Max) (hs : m.staticMetric ≤ u32Max) :
    metric m n ≤ u32Max := by
  unfold metric
  cases n.mode with
  | dhcp => exact hd
  | «static» => exact hs

theorem Holding.adopts (h : Holding Prints s uuid p.interface (settings (some n) p m p.interface bind))
    (hid : n.id = p.roles.management) (hp : NetworkValid p) (hn : RowValid p n)
    (hd : m.dhcpMetric ≤ u32Max) (hs : m.staticMetric ≤ u32Max) {ports : Ports} {links : Json}
    {rows : List Json} (hlinks : ports.links = .ok links) (hrows : Json.asArray links = some rows) :
    adoptNm ports s p.interface uuid =
      .ok (Backend.adopted n, adoptedMetadata uuid (metric m n)) := by
  have hport := (plain_interface hp).nonempty
  obtain ⟨b, hb⟩ := h.snapshot hid hport
  obtain ⟨binding, hbound, hours⟩ := h.binding hport
  obtain ⟨ipv6, hipv6, hipv6Text⟩ := h.reads hid "ipv6.method" (by decide) rfl
  obtain ⟨search, hsearch, hsearchText⟩ := h.reads hid "ipv4.dns-search" (by decide) rfl
  obtain ⟨raw, hraw, hrawText⟩ := h.reads hid "ipv4.route-metric" (by decide) rfl
  have hipv6Text : ipv6 = "disabled" ∨ ("disabled" = "" ∧ ipv6 = "--") := hipv6Text
  have hknown : ipv6 = "disabled" := hipv6Text.resolve_right (by simp)
  have hrawText : raw = toString (metric m n) ∨ (toString (metric m n) = "" ∧ raw = "--") := hrawText
  have hnumber : raw = toString (metric m n) :=
    hrawText.resolve_right fun hnone => toString_ne_empty _ hnone.1
  have hsearchText : elements (unwords n.dnsSearch) = elements search := hsearchText
  refine adoptNm_eq_ok.mpr ⟨binding, ipv6, b, n.dnsSearch, raw, metric m n, ?_, rfl⟩
  exact {
    ethernet := h.ethernet
    bound := hbound
    ours := hours
    routes := h.bare _ (by simp [bareFields])
    rules := h.bare _ (by simp [bareFields])
    plain := fun field hfield => h.bare field (by simp [bareFields, hfield])
    readsIpv6 := hipv6
    known := by simp [hknown]
    snapshot := hb
    readsSearch := by
      rw [property, property_eq hb (by decide) hsearch, Option.getD_some, ← hsearchText,
        elements_search hn, searchList_ok hn.searchCount hn.search]
    readsRow := h.row hid hn hb
    readsRaw := property_eq hb (by decide) hraw
    readsMetric := by rw [nmMetric, hnumber, parseUnsigned_toString (metric_le hd hs)]
    alone := nmDrift_alone hlinks hrows h.valid h.only _ }

theorem Holding.written
    (h : Holding Prints s uuid p.interface (settings (some n) p m p.interface bind))
    {c : NmChange} (huuid : c.uuid = uuid)
    (hafter : c.after = settings (some n) p m p.interface bind) :
    verifyWritten c ⟨s, []⟩ = (.ok (), ⟨s, []⟩) := by
  have hfield : ∀ field, readsOtherwise c.uuid c.after field ⟨s, []⟩ = (.ok none, ⟨s, []⟩) := by
    intro field
    rw [huuid, hafter, readsOtherwise]
    cases hwant : (settings (some n) p m p.interface bind).get? field with
    | none => rfl
    | some want =>
      obtain ⟨got, hgot, hprints⟩ := h.holds field want hwant
      refine Proc.bind_eq_ok.mpr ⟨got, _, ask_nil hgot, ?_⟩
      rw [if_pos (sameValue_of_prints hprints)]
      rfl
  obtain ⟨w, hrun, rfl⟩ : ∃ w, verifyWritten c ⟨s, []⟩ = (.ok (), w) ∧ w = ⟨s, []⟩ := by
    apply Proc.each_total (I := fun w : World => w = ⟨s, []⟩) _ rfl
    intro field _ w hw
    refine ⟨⟨s, []⟩, Proc.bind_eq_ok.mpr ⟨none, ⟨s, []⟩, ?_, rfl⟩, rfl⟩
    rw [hw, hfield field]
  exact hrun

end

/-! ### Adopted, then written -/

/-- Printed in the one way that a row is written: a prefix length and a metric as plain numbers, no
server called `--`, and nothing denied, which for a lease printed as yes or no is already known. -/
structure Plainly (row : NetworkProfile) (field got : String) : Prop where
  bits : field = "ipv4.addresses" → ∀ address ∈ elements got, ∀ a bits,
    splitOnce "/" address = some (a, bits) → ∃ k : Nat, bits = toString k
  dns : field = "ipv4.dns" → elements got ≠ ["--"]
  metric : field = "ipv4.route-metric" → ∃ k : Nat, got = toString k
  taken : field ∈ deniedFields →
    boolean got = "no" ∨ (row.mode = .dhcp ∧ (got = "yes" ∨ got = "no"))

section
variable {s : Store} {uuid : String} {b : Properties} {start row : NetworkProfile}

theorem get?_property {field got : String} (h : b.get? field = some got) : property b field = got := by
  rw [property, h, Option.getD_some]

/-- Elements read back are printed as elements. -/
theorem elements_again {got : String} (h : elements got ≠ ["--"]) :
    elements (unwords (elements got)) = elements got :=
  elements_unwords (fun _ hw => mem_elements hw) h

theorem elements_shownGateway : elements (shownGateway b) = elements (property b "ipv4.gateway") := by
  unfold shownGateway
  split
  · rename_i hempty
    rw [elements_none hempty]
    rfl
  · rfl

theorem searchList_eq_ok {values search : List String} {key : String}
    (h : searchList values key = .ok search) :
    search = values ∧ ∀ d ∈ values, validDnsSearchDomain d = true := by
  unfold searchList at h
  split at h
  · cases h
  · rename_i hvalid
    simp only [not_or, List.any_eq_true, not_exists, not_and, Bool.not_eq_true,
      Bool.not_eq_false'] at hvalid
    exact ⟨(Except.ok.inj h).symm, hvalid.2⟩

theorem metric_adopted (uuid : String) (k : Nat) (row : NetworkProfile) :
    metric (adoptedMetadata uuid k) row = k := by
  unfold metric
  cases row.mode <;> rfl

/-- An address whose prefix length is a plain number is written as it was. -/
theorem Fixed.again {address a bits : String} {prefixLen : Nat}
    (h : Fixed b address a bits prefixLen) (hplain : ∃ k : Nat, bits = toString k) :
    elements (a ++ "/" ++ toString prefixLen) = elements (property b "ipv4.addresses") := by
  obtain ⟨k, rfl⟩ := hplain
  have hk := eq_of_parseUnsigned h.bits
  have hcut : address = a ++ "/" ++ toString prefixLen := by
    rw [append_of_splitOnce h.cut, hk]
  obtain ⟨hne, hsolid⟩ := mem_elements (h.addresses ▸ List.mem_singleton_self address)
  rw [← hcut, h.addresses]
  apply elements_word hne hsolid
  intro hdashes
  have hslash : '/' ∈ address.toList := by simp [hcut]
  rw [hdashes] at hslash
  revert hslash
  decide

/-- How the properties of a connection stand to the row made of it. -/
structure ReadAs (b : Properties) (row : NetworkProfile) : Prop where
  method : b.get? "ipv4.method" = some (if row.mode = .dhcp then "auto" else "manual")
  addresses : (∀ address ∈ elements (property b "ipv4.addresses"), ∀ a bits,
      splitOnce "/" address = some (a, bits) → ∃ k : Nat, bits = toString k) →
    elements (if row.mode = .static then row.address ++ "/" ++ toString row.prefixLen else "") =
      elements (property b "ipv4.addresses")
  gateway : elements row.gateway = elements (property b "ipv4.gateway")
  dns : row.dns = elements (property b "ipv4.dns")
  search : row.dnsSearch = elements (property b "ipv4.dns-search")
  valid : ∀ d ∈ row.dnsSearch, validDnsSearchDomain d = true
  taken : row.mode = .dhcp → ∀ field ∈ deniedFields, b.get? field ≠ some "yes"

theorem readAs {search : List String}
    (hsearch : searchList (elements (property b "ipv4.dns-search")) "ipv4.dns-search" = .ok search)
    (hrow : methodRow s uuid b { dhcpRow with dnsSearch := search } = .ok row) : ReadAs b row := by
  obtain ⟨rfl, hvalid⟩ := searchList_eq_ok hsearch
  rcases methodRow_eq_ok.mp hrow with ⟨h, rfl⟩ | ⟨address, a, bits, prefixLen, h, rfl⟩
  · exact {
      method := h.method
      addresses := fun _ => h.addresses.symm
      gateway := by rw [← elements_shownGateway, h.gateway]; rfl
      dns := h.dns.symm
      search := rfl
      valid := hvalid
      taken := fun _ => h.taken }
  · exact {
      method := h.method
      addresses := fun hplain => h.again (hplain address (by simp [h.addresses]) a bits h.cut)
      gateway := elements_shownGateway
      dns := rfl
      search := rfl
      valid := hvalid
      taken := fun hmode => by cases hmode }

theorem not_dashes_search (h : ∀ d ∈ row.dnsSearch, validDnsSearchDomain d = true) :
    row.dnsSearch ≠ ["--"] := by
  intro hdashes
  have hvalid := h "--" (by simp [hdashes])
  revert hvalid
  decide

theorem sameValue_elements {field want got : String} (hfield : field ∈ verified)
    (hnot : field ∉ deniedFields) (h : elements want = elements got) :
    sameValue field want got = true := by
  have hflag : ∀ f ∈ verified, f ∉ deniedFields →
      (endsWithText "never-default" f || includesText "ignore-auto" f) = false := by decide
  rw [sameValue, if_neg (by simp [hflag field hfield hnot])]
  exact decide_eq_true h

theorem sameValue_denied {field want got : String} (hfield : field ∈ deniedFields)
    (h : boolean want = boolean got) : sameValue field want got = true := by
  have hflag : ∀ f ∈ deniedFields,
      (endsWithText "never-default" f || includesText "ignore-auto" f) = true := by decide
  rw [sameValue, if_pos (hflag field hfield)]
  exact decide_eq_true h

/-- What is written of the row agrees with what the connection held, where that is plain. -/
theorem ReadAs.agrees (h : ReadAs b row) {field want got : String} {k : Nat}
    (hfield : field ∈ verified) (hne : field ≠ "ipv6.method") (hgot : b.get? field = some got)
    (hwant : SortedMap.lookup field (managementValues row k) = some want)
    (hmetric : field = "ipv4.route-metric" → ∀ l : Nat, got = toString l → l = k)
    (hplain : Plainly row field got) : sameValue field want got = true := by
  by_cases hdenied : field ∈ deniedFields
  · have hno : want = "no" := by
      simp only [deniedFields, List.mem_cons, List.not_mem_nil, or_false] at hdenied
      rcases hdenied with rfl | rfl | rfl <;> exact (Option.some.inj hwant).symm
    apply sameValue_denied hdenied
    rw [hno]
    rcases hplain.taken hdenied with hdenies | ⟨hmode, rfl | rfl⟩
    · exact hdenies.symm
    · exact absurd hgot (h.taken hmode field hdenied)
    · rfl
  · apply sameValue_elements hfield hdenied
    have hread := get?_property hgot
    simp only [verified, List.mem_cons, List.not_mem_nil, or_false] at hfield
    rcases hfield with rfl | rfl | rfl | rfl | rfl | rfl | rfl | rfl | rfl | rfl
    · rw [h.method] at hgot
      rw [← Option.some.inj hwant, ← Option.some.inj hgot]
    · have hbits := hplain.bits rfl
      rw [← hread] at hbits
      rw [← Option.some.inj hwant, h.addresses hbits, hread]
    · rw [← Option.some.inj hwant, h.gateway, hread]
    · have hdashes := hplain.dns rfl
      rw [← hread] at hdashes
      rw [← Option.some.inj hwant, h.dns, elements_again hdashes, hread]
    · have hdashes := not_dashes_search h.valid
      rw [h.search] at hdashes
      rw [← Option.some.inj hwant, h.search, elements_again hdashes, hread]
    · exact absurd (by decide) hdenied
    · exact absurd (by decide) hdenied
    · exact absurd (by decide) hdenied
    · obtain ⟨l, rfl⟩ := hplain.metric rfl
      rw [← Option.some.inj hwant, hmetric rfl l rfl]
    · exact absurd rfl hne

end

/-- A metric that is a plain number is taken as it is, and `-1` is the metric of the device. -/
theorem nmMetric_eq_ok {ports : Ports} {uuid port raw : String} {k : Nat}
    (h : nmMetric ports uuid port raw = .ok k) :
    (∀ l : Nat, raw = toString l → l = k) ∧ (raw = "-1" → k = nmEthernetMetric) := by
  unfold nmMetric at h
  constructor
  · rintro l rfl
    split at h
    · rename_i n hn
      exact (eq_of_parseUnsigned hn).trans (Except.ok.inj h)
    · have hdigits : toString l ≠ "-1" := by
        intro hminus
        have hall := digits_toString l
        rw [hminus] at hall
        cases hall
      rw [if_pos hdigits] at h
      cases h
  · rintro rfl
    have hnone : parseUnsigned u32Max "-1" = none := by decide
    simp only [hnone, ne_eq, not_true, if_false] at h
    obtain ⟨active, -, h⟩ := Outcome.bind_eq_ok.mp h
    split at h
    · obtain ⟨routes, -, h⟩ := Outcome.bind_eq_ok.mp h
      obtain ⟨-, -, h⟩ := Outcome.bind_eq_ok.mp h
      exact (Except.ok.inj h).symm
    · exact (Except.ok.inj h).symm

/-- The only connection of a port, that holds the settings of an accepted management row, is
adopted as that row and reads back as written; what is written of any row that is adopted agrees
with its connection where that is printed plainly. -/
theorem adoption_inverts_settings (ports : Ports) (s : Store) (uuid : String) :
    (∀ p, Accepted p → ∀ n ∈ p.networks, n.vlanId = none → n.id = p.roles.management →
      ∀ m : Metadata, m.dhcpMetric ≤ u32Max → m.staticMetric ≤ u32Max → ∀ bind,
        (∃ links rows, ports.links = .ok links ∧ Json.asArray links = some rows) →
        Holding Prints s uuid p.interface (settings (some n) p m p.interface bind) →
        (∃ row metadata, adoptNm ports s p.interface uuid = .ok (row, metadata) ∧
          (row.mode = n.mode ∧ row.address = n.address ∧ row.prefixLen = n.prefixLen ∧
            row.gateway = n.gateway ∧ row.dns = n.dns ∧ row.dnsSearch = n.dnsSearch) ∧
          metric metadata row = metric m n) ∧
        ∀ c : NmChange, c.uuid = uuid → c.after = settings (some n) p m p.interface bind →
          verifyWritten c ⟨s, []⟩ = (.ok (), ⟨s, []⟩)) ∧
    ∀ port row metadata, adoptNm ports s port uuid = .ok (row, metadata) →
      (nmField s uuid "ipv4.route-metric" = .ok "-1" → metric metadata row = nmEthernetMetric) ∧
      ∀ p : NetworkProfiles, p.roles.management = row.id → ∀ bind, ∀ field ∈ verified,
        field ≠ "ipv6.method" → ∃ want got,
          (settings (some row) p metadata port bind).get? field = some want ∧
          nmField s uuid field = .ok got ∧
          (Plainly row field got → sameValue field want got = true) := by
  constructor
  · rintro p hp n hn - hid m hd hs bind ⟨links, rows, hlinks, hrows⟩ h
    have hvalid := hp.valid hn
    refine ⟨⟨Backend.adopted n, _, h.adopts hid hvalid (hvalid.rows n hn) hd hs hlinks hrows,
      ⟨rfl, rfl, rfl, rfl, rfl, rfl⟩, metric_adopted uuid _ _⟩, fun c => h.written⟩
  · intro port row metadata h
    obtain ⟨binding, ipv6, b, search, raw, k, hadopts, rfl⟩ := adoptNm_eq_ok.mp h
    obtain ⟨hplain, hdevice⟩ := nmMetric_eq_ok hadopts.readsMetric
    have hreads := (nmSnapshot_eq_ok hadopts.snapshot).1
    have hraw : ∀ got, b.get? "ipv4.route-metric" = some got → got = raw := by
      intro got hgot
      rw [hadopts.readsRaw] at hgot
      exact (Option.some.inj hgot).symm
    rw [metric_adopted]
    constructor
    · intro hminus
      obtain ⟨got, hgot, hread⟩ := hreads "ipv4.route-metric" (by decide)
      rw [hminus] at hread
      exact hdevice ((hraw got hgot).symm.trans (Except.ok.inj hread).symm)
    · intro p hid bind field hfield hne
      obtain ⟨got, hgot, hread⟩ := hreads field (verified_subset hfield)
      have hname : field ≠ "connection.interface-name" := by
        rintro rfl
        revert hfield
        decide
      have hwant : ∃ want, SortedMap.lookup field (managementValues row k) = some want := by
        have hkeys : ∀ f ∈ verified, f ∈ (managementValues row k).map Prod.fst := by
          simp [verified, managementValues]
        apply Option.ne_none_iff_exists'.mp
        intro hnone
        exact SortedMap.lookup_eq_none_iff.mp hnone (hkeys field hfield)
      obtain ⟨want, hwant⟩ := hwant
      refine ⟨want, got, ?_, hread, ?_⟩
      · rw [get?_settings hid.symm _ port bind hname, metric_adopted, hwant]
      · apply (readAs hadopts.readsSearch hadopts.readsRow).agrees hfield hne hgot hwant
        rintro rfl l rfl
        exact hplain l (hraw _ hgot).symm

/-! ### The sample port -/

/-- What a connection has beside the values that are written. -/
def bareProperties : Properties :=
  .ofList (("connection.type", "802-3-ethernet") :: ("ipv6.ip6-privacy", "-1") ::
    ("ipv4.routes", "") :: ("ipv4.routing-rules", "--") ::
    (ipv6Fields ++ leaseFields).map (·, ""))

def holdingStore (values : Properties) : Store where
  connections := .singleton portUuid (override bareProperties values)

def noLinks : Ports where
  links := .ok (.arr [])
  connection _ := .ok "--"
  routes _ := .ok ""

def sampleSettings : Properties :=
  settings (some managementRow) (normalize sampleProfiles) {} "eth0" true

def sampleStore : Store := holdingStore sampleSettings

def shows (s : Store) (field : String) : Option String := (nmField s portUuid field).toOption

theorem nmField_of_shows {s : Store} {field value : String} (h : shows s field = some value) :
    nmField s portUuid field = .ok value := by
  unfold shows at h
  cases hread : nmField s portUuid field with
  | ok got =>
    rw [hread] at h
    exact congrArg Except.ok (Option.some.inj h)
  | error e =>
    rw [hread] at h
    cases h

def bareShown (s : Store) : Bool :=
  shows s "connection.type" = some "802-3-ethernet" && (shows s "ipv6.ip6-privacy").isSome &&
    bareFields.all fun field => (shows s field).any empty

theorem holding_of_shows {prints : (field want got : String) → Prop} {values : Properties}
    (hvalues : ∀ e ∈ sampleSettings.entries, ∃ got,
      shows (holdingStore values) e.1 = some got ∧ prints e.1 e.2 got)
    (hbare : bareShown (holdingStore values) = true) :
    Holding prints (holdingStore values) portUuid "eth0" sampleSettings := by
  simp only [bareShown, Bool.and_eq_true, decide_eq_true_eq, List.all_eq_true] at hbare
  obtain ⟨⟨hethernet, hprivacy⟩, hbare⟩ := hbare
  refine ⟨rfl, nmField_of_shows hethernet, fun field want hwant => ?_, fun hfree => ?_,
    fun field hfield => ?_, ?_⟩
  · obtain ⟨got, hgot, hprints⟩ := hvalues _ (SortedMap.mem_entries_iff.mpr hwant)
    exact ⟨got, nmField_of_shows hgot, hprints⟩
  · rw [sampleSettings, get?_binding] at hfree
    cases hfree
  · obtain ⟨got, hgot, hempty⟩ := (Option.any_eq_true _ _).mp (hbare field hfield)
    exact ⟨got, nmField_of_shows hgot, hempty⟩
  · obtain ⟨got, hgot⟩ := Option.isSome_iff_exists.mp hprivacy
    exact ⟨got, nmField_of_shows hgot⟩

theorem sample_shows : (∀ e ∈ sampleSettings.entries, shows sampleStore e.1 = some e.2) ∧
    bareShown sampleStore = true ∧
    shows sampleStore "ipv4.never-default" = some "no" := by decide +kernel

theorem prints_self (field v : String) : Prints field v v := by
  unfold Prints
  split
  · rfl
  · split
    · rfl
    · exact .inl rfl

theorem sample_holding : Holding Prints sampleStore portUuid "eth0" sampleSettings :=
  holding_of_shows (fun e he => ⟨e.2, sample_shows.1 e he, prints_self e.1 e.2⟩) sample_shows.2.1

theorem sample_settings_are_adopted :
    ∃ row metadata, adoptNm noLinks sampleStore "eth0" portUuid = .ok (row, metadata) ∧
      row.address = "10.0.0.5" ∧ row.gateway = "10.0.0.1" ∧ metric metadata row = 0 ∧
      ∀ p : NetworkProfiles, p.roles.management = row.id → ∃ want got,
        (settings (some row) p metadata "eth0" true).get? "ipv4.never-default" = some want ∧
        nmField sampleStore portUuid "ipv4.never-default" = .ok got ∧
        sameValue "ipv4.never-default" want got = true := by
  obtain ⟨hwritten, hforeign⟩ := adoption_inverts_settings noLinks sampleStore portUuid
  obtain ⟨⟨row, metadata, hadopt, ⟨-, haddress, -, hgateway, -⟩, hmetric⟩, -⟩ :=
    hwritten (normalize sampleProfiles) (.inr ⟨sampleProfiles, sampleProfiles, rfl⟩) managementRow
      (.head _) rfl rfl {} (by decide) (by decide) true ⟨_, _, rfl, rfl⟩ sample_holding
  refine ⟨row, metadata, hadopt, haddress, hgateway, hmetric, fun p hid => ?_⟩
  obtain ⟨want, got, hwant, hgot, hsame⟩ := (hforeign "eth0" row metadata hadopt).2 p hid true
    "ipv4.never-default" (by decide) (by decide)
  have hno := nmField_of_shows sample_shows.2.2
  have hgotNo : got = "no" := Except.ok.inj (hgot.symm.trans hno)
  refine ⟨want, got, hwant, hgot, hsame ?_⟩
  rw [hgotNo]
  exact ⟨fun h => absurd h (by decide), fun h => absurd h (by decide),
    fun h => absurd h (by decide), fun _ => .inl rfl⟩

/-- The method printed as a list of one. -/
def listedMethod : Store :=
  holdingStore (override sampleSettings (.ofList [("ipv4.method", "manual,")]))

/-- A fixed address that takes no default route, at the metric of the device. -/
def yielding : Store := holdingStore (override sampleSettings
  (.ofList [("ipv4.never-default", "yes"), ("ipv4.route-metric", "-1")]))

theorem listedMethod_shows :
    (∀ e ∈ sampleSettings.entries, (shows listedMethod e.1).any (sameValue e.1 e.2) = true) ∧
    bareShown listedMethod = true ∧
    shows listedMethod "ipv4.method" = some "manual," := by decide +kernel

theorem yielding_shows : shows yielding "ipv4.never-default" = some "yes" ∧
    shows yielding "ipv4.route-metric" = some "-1" ∧
    (adoptNm noLinks yielding "eth0" portUuid).isOk = true := by decide +kernel

theorem listedMethod_refused (ports : Ports) (row : NetworkProfile) (metadata : Metadata) :
    adoptNm ports listedMethod "eth0" portUuid ≠ .ok (row, metadata) := by
  intro h
  obtain ⟨binding, ipv6, b, search, raw, k, hadopts, -⟩ := adoptNm_eq_ok.mp h
  have hmethod : b.get? "ipv4.method" = some "manual," :=
    property_eq hadopts.snapshot (by decide) (nmField_of_shows listedMethod_shows.2.2)
  rcases methodRow_eq_ok.mp hadopts.readsRow with ⟨hrow, -⟩ | ⟨_, _, _, _, hrow, -⟩
  · rw [hrow.method] at hmethod
    exact absurd hmethod (by decide)
  · rw [hrow.method] at hmethod
    exact absurd hmethod (by decide)

theorem settings_not_inverted :
    (¬ ∀ (ports : Ports) (s : Store) (uuid : String) (p : NetworkProfiles), Accepted p →
      ∀ n ∈ p.networks, n.vlanId = none → n.id = p.roles.management →
      ∀ m : Metadata, m.dhcpMetric ≤ u32Max → m.staticMetric ≤ u32Max → ∀ bind,
        (∃ links rows, ports.links = .ok links ∧ Json.asArray links = some rows) →
        Holding (fun field want got => sameValue field want got = true) s uuid p.interface
          (settings (some n) p m p.interface bind) →
        ∃ row metadata, adoptNm ports s p.interface uuid = .ok (row, metadata)) ∧
    ∃ row metadata, adoptNm noLinks yielding "eth0" portUuid = .ok (row, metadata) ∧
      ∀ p : NetworkProfiles, p.roles.management = row.id → ∀ bind,
        ∀ field ∈ ["ipv4.never-default", "ipv4.route-metric"], ∃ want got,
          (settings (some row) p metadata "eth0" bind).get? field = some want ∧
          nmField yielding portUuid field = .ok got ∧ sameValue field want got = false := by
  constructor
  · intro hall
    have hholding : Holding (fun field want got => sameValue field want got = true) listedMethod
        portUuid "eth0" sampleSettings :=
      holding_of_shows (fun e he => (Option.any_eq_true _ _).mp (listedMethod_shows.1 e he))
        listedMethod_shows.2.1
    obtain ⟨row, metadata, hadopt⟩ := hall noLinks listedMethod portUuid (normalize sampleProfiles)
      (.inr ⟨sampleProfiles, sampleProfiles, rfl⟩) managementRow (.head _) rfl rfl {} (by decide)
      (by decide) true ⟨_, _, rfl, rfl⟩ hholding
    exact listedMethod_refused noLinks row metadata hadopt
  · obtain ⟨hnever, hmetric, hok⟩ := yielding_shows
    obtain ⟨⟨row, metadata⟩, hadopt⟩ := Outcome.isOk_iff.mp hok
    obtain ⟨_, _, b, _, raw, k, hadopts, rfl⟩ := adoptNm_eq_ok.mp hadopt
    refine ⟨row, _, hadopt, fun p hid bind field hfield => ?_⟩
    have hraw := property_eq hadopts.snapshot (by decide) (nmField_of_shows hmetric)
    rw [hadopts.readsRaw, Option.some.injEq] at hraw
    have hdevice := (nmMetric_eq_ok hadopts.readsMetric).2 hraw
    simp only [List.mem_cons, List.not_mem_nil, or_false] at hfield
    rcases hfield with rfl | rfl
    · exact ⟨"no", "yes", get?_settings hid.symm _ _ bind (by decide), nmField_of_shows hnever,
        by decide⟩
    · refine ⟨"100", "-1", ?_, nmField_of_shows hmetric, by decide⟩
      rw [get?_settings hid.symm _ _ bind (by decide), metric_adopted, hdevice]
      rfl

end NdimonR.Backend.NetworkManager
