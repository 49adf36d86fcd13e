import NdimonR.Engine.SemanticReads

/-! An intent holds what the profiles it was made from hold, and both of its readers give them
back. Accepted profiles are small enough for either message. -/

namespace NdimonR.Engine

open Types Json Text

variable (floatLen : ℚ → Nat)

/-! ### Sizes -/

/-- The limits of a whole accepted profile. -/
structure ProfilesBounded (p : NetworkProfiles) : Prop where
  rows : ∀ n ∈ p.networks, RowBounded n
  count : p.networks.length ≤ 9
  interface : chars p.interface ≤ 15
  management : chars p.roles.management ≤ 32
  ndi : chars p.roles.ndi ≤ 32
  audio : chars p.roles.audio ≤ 32

theorem CandidateOk.bounded {p : NetworkProfiles} (h : CandidateOk p p) (hn : normalize p = p) :
    ProfilesBounded p := by
  have hrows : ∀ n ∈ p.networks, RowBounded n := by
    intro n hin
    obtain ⟨s, hrow⟩ := h.rows.row hin
    exact hrow.bounded (rows_fixed hn n hin)
  have hid : ∀ id ∈ p.networks.map (·.id), chars id ≤ 32 := by
    intro id hin
    obtain ⟨n, hn, rfl⟩ := List.mem_map.mp hin
    exact (hrows n hn).id
  have hphysical := h.physical
  simp only [Engine.physical, Bool.and_eq_true, decide_eq_true_eq] at hphysical
  exact ⟨hrows, h.count, le_trans (chars_le_len _) hphysical.1.1.2, hid _ h.management,
    hid _ h.ndi, hid _ h.audio⟩

theorem size_str_le {s : String} {k : Nat} (h : chars s ≤ k) :
    (Value.str s).val.size floatLen ≤ 2 + 6 * k := by
  rw [size_str]
  exact le_trans (stringSize_le s) (by omega)

theorem size_tag_le {o : Option Nat} (h : ∀ t, o = some t → t ≤ 4094) :
    (ofOption Value.nat o).val.size floatLen ≤ 16 := by
  cases o with
  | none => simp [ofOption, Value.null, size]
  | some t =>
    have ht := h t rfl
    exact size_nat_le (k := 4) floatLen (by omega) (by omega)

theorem size_dns_le {n : NetworkProfile} (h : RowBounded n) :
    (ofItems Value.str n.dns).val.size floatLen ≤ 281 := by
  have hitems := size_ofItems_le floatLen Value.str (k := 92)
    fun d hd => size_str_le floatLen (h.dns d hd)
  have hcount := h.dnsCount
  omega

theorem size_search_le {n : NetworkProfile} (h : RowBounded n) :
    ((nonempty Value.str (fun n : NetworkProfile => n.dnsSearch) n).elim 0 fun x =>
      x.val.size floatLen) ≤ 3056 := by
  have hitems := size_ofItems_le floatLen Value.str (l := n.dnsSearch) (k := 508) (by
    intro d hd
    obtain ⟨hcontrol, hlen⟩ := h.search d hd
    rw [size_str]
    exact le_trans (stringSize_le_len hcontrol) (by omega))
  have hcount := h.searchCount
  unfold nonempty
  split
  · simp
  · exact le_trans hitems (by omega)

theorem profile_size {n : NetworkProfile} (h : RowBounded n) :
    (networkProfileJson n).val.size floatLen ≤ 4500 := by
  have hid := size_str_le floatLen h.id
  have hname := size_str_le floatLen h.name
  have hvlan := size_tag_le floatLen h.tag
  have hmode : (named AddressMode.text n.mode).val.size floatLen ≤ 38 :=
    size_str_le floatLen (k := 6) (by cases n.mode <;> decide)
  have haddress := size_str_le floatLen h.address
  have hprefix : (Value.nat n.prefixLen).val.size floatLen ≤ 8 := by
    have := h.prefixLen
    exact size_nat_le (k := 2) floatLen (by omega) (by omega)
  have hgateway := size_str_le floatLen h.gateway
  have hdns := size_dns_le floatLen h
  have hsearch := size_search_le floatLen h
  have hrecord := size_record_le floatLen profileFields (k := 12) (by decide) n
  simp only [profileFields, present, List.map_cons, List.map_nil, List.sum_cons, List.sum_nil,
    Option.elim_some, List.length_cons, List.length_nil] at hrecord
  exact le_trans hrecord (by omega)

theorem ipv4_size {n : NetworkProfile} (h : RowBounded n) :
    (ipv4Json (Intent.ofRow n).ipv4).val.size floatLen ≤ 700 := by
  cases hm : n.mode with
  | dhcp =>
    have hobject := size_object_le floatLen [("mode", Value.str "dhcp")] (k := 12)
      (by decide)
    have hmode := size_str_le floatLen (s := "dhcp") (k := 4) (by decide)
    simp only [List.map_cons, List.map_nil, List.sum_cons, List.sum_nil, List.length_cons,
      List.length_nil] at hobject
    simp only [Intent.ofRow, hm]
    exact le_trans hobject (by omega)
  | «static» =>
    have hmode := size_str_le floatLen (s := "static") (k := 6) (by decide)
    have haddress := size_str_le floatLen h.address
    have hprefix : (Value.nat n.prefixLen).val.size floatLen ≤ 8 := by
      have := h.prefixLen
      exact size_nat_le (k := 2) floatLen (by omega) (by omega)
    have hgateway : (ofOption Value.str (if n.gateway = "" then none else some n.gateway)).val.size
        floatLen ≤ 92 := by
      split
      · simp [ofOption, Value.null, size]
      · exact size_str_le floatLen h.gateway
    have hdns := size_dns_le floatLen h
    have hnames : ∀ name ∈ ["mode", "address", "prefix", "gateway", "dns"],
        stringSize name ≤ 12 := by
      decide
    have hobject := size_object_le floatLen
      [("mode", Value.str "static"), ("address", .str n.address), ("prefix", .nat n.prefixLen),
        ("gateway", ofOption .str (if n.gateway = "" then none else some n.gateway)),
        ("dns", ofItems .str n.dns)] (k := 12) hnames
    simp only [List.map_cons, List.map_nil, List.sum_cons, List.sum_nil, List.length_cons,
      List.length_nil] at hobject
    simp only [Intent.ofRow, hm]
    exact le_trans hobject (by omega)

theorem network_size {n : NetworkProfile} (h : RowBounded n) :
    (networkJson (Intent.ofRow n)).val.size floatLen ≤ 4500 := by
  have hid := size_str_le floatLen h.id
  have hname := size_str_le floatLen h.name
  have hvlan := size_tag_le floatLen h.tag
  have hipv4 := ipv4_size floatLen h
  have hsearch := size_search_le floatLen h
  have hrecord := size_record_le floatLen networkFields (k := 12) (by decide)
    (Intent.ofRow n)
  simp only [networkFields, present, List.map_cons, List.map_nil, List.sum_cons, List.sum_nil,
    Option.elim_some, List.length_cons, List.length_nil] at hrecord
  change (networkJson (Intent.ofRow n)).val.size floatLen ≤
    2 + (0 + 1 + 1 + 1 + 1 + 1) * (12 + 2) +
      ((Value.str n.id).val.size floatLen + ((Value.str n.name).val.size floatLen +
        ((ofOption Value.nat n.vlanId).val.size floatLen +
          ((ipv4Json (Intent.ofRow n).ipv4).val.size floatLen +
            (((nonempty Value.str (fun n : NetworkProfile => n.dnsSearch) n).elim 0 fun x =>
              x.val.size floatLen) + 0))))) at hrecord
  omega

theorem profiles_size {p : NetworkProfiles} (h : ProfilesBounded p) :
    (networkProfilesJson p).val.size floatLen ≤ maxMessage := by
  have hinterface := size_str_le floatLen h.interface
  have hbackend : (ofOption (named NetworkBackend.text) p.backend).val.size floatLen ≤ 86 := by
    cases p.backend with
    | none => simp [ofOption, Value.null, size]
    | some b => exact size_str_le floatLen (k := 14) (by cases b <;> decide)
  have hnetworks := size_ofItems_le floatLen networkProfileJson (l := p.networks)
    fun n hn => profile_size floatLen (h.rows n hn)
  have hcount := h.count
  have hroles : (networkRolesJson p.roles).val.size floatLen ≤ 700 := by
    have hm := size_str_le floatLen h.management
    have hn := size_str_le floatLen h.ndi
    have ha := size_str_le floatLen h.audio
    have hrecord := size_record_le floatLen rolesFields (k := 16) (by decide) p.roles
    simp only [rolesFields, present, List.map_cons, List.map_nil, List.sum_cons, List.sum_nil,
      Option.elim_some, List.length_cons, List.length_nil] at hrecord
    exact le_trans hrecord (by omega)
  have hpolicy : (named ConfirmPolicy.text p.confirmPolicy).val.size floatLen ≤ 158 :=
    size_str_le floatLen (k := 26) (by cases p.confirmPolicy <;> decide)
  have hrecord := size_record_le floatLen profilesFields (k := 20) (by decide) p
  simp only [profilesFields, present, List.map_cons, List.map_nil, List.sum_cons, List.sum_nil,
    Option.elim_some, List.length_cons, List.length_nil] at hrecord
  exact le_trans hrecord (by unfold maxMessage; omega)

theorem intent_size {p : NetworkProfiles} {r : Nat} {i : Intent} (h : ProfilesBounded p)
    (hr : r < 18446744073709551616) (hi : Intent.fromProfiles p r = .ok i) :
    (intentJson i).val.size floatLen ≤ maxMessage := by
  unfold Intent.fromProfiles at hi
  cases hb : p.backend with
  | none => simp [hb] at hi
  | some b =>
    simp only [hb, Except.ok.injEq] at hi
    subst hi
    have hversion := size_nat_le (k := 1) floatLen (n := 1) (by omega) (by omega)
    have hrevision := size_nat_le (k := 20) floatLen (n := r) (by omega) (by omega)
    have hinterface := size_str_le floatLen h.interface
    have hbackend : (named NetworkBackend.text b).val.size floatLen ≤ 86 :=
      size_str_le floatLen (k := 14) (by cases b <;> decide)
    have hnetworks : (ofItems networkJson (p.networks.map Intent.ofRow)).val.size floatLen ≤
        2 + (p.networks.map Intent.ofRow).length * (4500 + 1) := by
      apply size_ofItems_le
      intro m hm
      obtain ⟨n, hn, rfl⟩ := List.mem_map.mp hm
      exact network_size floatLen (h.rows n hn)
    have hcount := h.count
    have hm := size_str_le floatLen h.management
    have ha := size_str_le floatLen h.audio
    have hn := size_str_le floatLen h.ndi
    have hconfirm : (named ConfirmPolicy.text p.confirmPolicy).val.size floatLen ≤ 158 :=
      size_str_le floatLen (k := 26) (by cases p.confirmPolicy <;> decide)
    have hnames : ∀ name ∈ ["confirm"], stringSize name ≤ 12 := by decide
    have hpolicies := size_object_le floatLen
      [("confirm", named ConfirmPolicy.text p.confirmPolicy)] (k := 12) hnames
    have hrecord := fun i => size_record_le floatLen intentFields (k := 20)
      (by decide) i
    rw [List.length_map] at hnetworks
    simp only [List.map_cons, List.map_nil, List.sum_cons, List.sum_nil, List.length_cons,
      List.length_nil] at hpolicies
    apply le_trans (hrecord _)
    simp only [intentFields, present, Json.optional, List.map_cons, List.map_nil, List.sum_cons,
      List.sum_nil, Option.elim_some, Option.map_some, List.length_cons, List.length_nil,
      policiesJson]
    unfold maxMessage
    omega

/-! ### Round trips -/

/-- An empty gateway of an intent says what a missing one says. -/
def Network.plain (m : Network) : Network :=
  match m.ipv4 with
  | .static address prefixLen (some "") dns => { m with ipv4 := .static address prefixLen none dns }
  | _ => m

theorem ofRow_row (m : Network) : Intent.ofRow (Intent.row m) = m.plain := by
  obtain ⟨id, name, vlanId, ipv4, dnsSearch⟩ := m
  cases ipv4 with
  | dhcp => rfl
  | «static» address prefixLen gateway dns =>
    cases gateway with
    | none => rfl
    | some g =>
      by_cases hg : g = ""
      · subst hg
        rfl
      · simp [Intent.ofRow, Intent.row, Network.plain, hg]

theorem profiles_ok {i : Intent} {product : NetworkProduct} {p : NetworkProfiles}
    (h : i.profiles product = .ok p) :
    i.version = 1 ∧ (product = .ndimon → i.ndi.isSome) ∧ p = i.unchecked ∧
      validate p p = .ok p := by
  unfold Intent.profiles at h
  split at h
  · cases h
  · rename_i hguard
    simp only [not_or, not_not, not_and] at hguard
    obtain ⟨hversion, hndi, -⟩ := hguard
    cases hv : validate i.unchecked i.unchecked with
    | error e => simp [hv] at h
    | ok normalized =>
      simp only [hv] at h
      split at h
      · cases h
      · rename_i hn
        rw [not_not] at hn
        obtain rfl := Except.ok.inj h
        rw [hn] at hv
        exact ⟨hversion, fun hp => Option.isSome_iff_ne_none.mpr (hndi hp), rfl, hv⟩

theorem fromProfiles_ok {p : NetworkProfiles} (h : validate p p = .ok p) (r : Nat) :
    ∃ i, Intent.fromProfiles p r = .ok i ∧ i.version = 1 ∧ i.revision = r ∧ i.ndi.isSome ∧
      i.networks = p.networks.map Intent.ofRow ∧ i.unchecked = p := by
  obtain ⟨hok, hn⟩ := validate_ok h
  obtain ⟨b, hb⟩ := Option.isSome_iff_exists.mp hok.adopted
  have hrows : (p.networks.map Intent.ofRow).map Intent.row = p.networks := by
    rw [List.map_map]
    conv_rhs => rw [← List.map_id p.networks]
    apply List.map_inj_left.mpr
    intro n hin
    exact row_ofRow (rows_fixed hn.symm n hin)
  obtain ⟨interface, backend, networks, ⟨management, ndi, audio⟩, confirmPolicy⟩ := p
  subst hb
  refine ⟨_, rfl, rfl, rfl, rfl, rfl, ?_⟩
  simp only [Intent.unchecked, hrows, Option.getD_some]

theorem intent_bounded {p : NetworkProfiles} {r : Nat} {i : Intent} (h : ProfilesBounded p)
    (hr : r < 18446744073709551616) (hversion : i.version = 1) (hrevision : i.revision = r)
    (hi : i.networks = p.networks.map Intent.ofRow) : i.Bounded where
  version := by omega
  revision := by omega
  vlanId := by
    intro m hm t ht
    rw [hi] at hm
    obtain ⟨n, hn, rfl⟩ := List.mem_map.mp hm
    have := (h.rows n hn).tag t ht
    omega
  prefixLen := by
    intro m hm address prefixLen gateway dns h4
    rw [hi] at hm
    obtain ⟨n, hn, rfl⟩ := List.mem_map.mp hm
    have := (h.rows n hn).prefixLen
    cases hmode : n.mode with
    | dhcp => simp [Intent.ofRow, hmode] at h4
    | «static» =>
      simp only [Intent.ofRow, hmode, Ipv4.static.injEq] at h4
      omega

/-- What the untyped reader makes of an intent is what the typed one does. -/
theorem importSemantic_json {i : Intent} {p : NetworkProfiles} (hp : ProfilesBounded p)
    (hversion : i.version = 1) (hr : i.revision < 18446744073709551616) (hndi : i.ndi.isSome)
    (hi : i.unchecked = p) (hsize : (intentJson i).val.size floatLen ≤ maxMessage)
    (hv : validate p p = .ok p) :
    importSemantic floatLen (.ofJson floatLen (intentJson i).val) = .ok (i.revision, p) := by
  have hget := get_intentJson i
  have hkeys : ((keys (intentJson i).val).any fun k => !semanticKeys.contains k) = false :=
    none_unknown (by
      intro k hk
      have hk : k ∈ intentFields.map Prod.fst := mem_keys_record hk
      have hsub : ∀ k ∈ intentFields.map Prod.fst, k ∈ semanticKeys := by decide
      exact hsub k hk)
  have hobject : (asObject (intentJson i).val).isNone = false := rfl
  have hver : asU64 ((intentJson i).val.member "version") = some 1 := by
    rw [member_eq_get, hget]
    change asU64 (Value.nat i.version).val = some 1
    rw [hversion]
    exact asU64_nat (by omega)
  have hrev : asU64 ((intentJson i).val.member "revision") = some i.revision := by
    rw [member_eq_get, hget]
    exact asU64_nat hr
  have hnetworks : asArray ((intentJson i).val.member "networks") =
      some (i.networks.map fun m => (networkJson m).val) := by
    rw [member_eq_get, hget]
    rfl
  have hparse : parse (.ofJson floatLen (networkProfilesJson p).val) = .ok p := by
    have hlength := profiles_size floatLen hp
    simp [parse, Message.ofJson, Nat.not_lt.mpr hlength, shape_json hp.rows,
      decodeNetworkProfiles_json hp.rows]
  have hflat := flatDocument_json hndi
  rw [hi] at hflat
  have hlength : ¬maxMessage < (Message.ofJson floatLen (intentJson i).val).length :=
    Nat.not_lt.mpr hsize
  have hvalue : (Message.ofJson floatLen (intentJson i).val).value = some (intentJson i).val := rfl
  simp only [importSemantic, if_neg hlength, hvalue, Option.elim_some, hobject, hkeys, hver, hrev,
    hnetworks, semanticPolicy_json, flatRows_json, hflat, hparse, hv, Bool.or_false,
    Bool.false_eq_true, if_false, ne_eq, not_true_eq_false, bind, Except.bind, pure, Except.pure]

/-- Accepted profiles survive the way through an intent and its wire form under both readers; an
intent whose profiles are accepted is given back but for its empty gateways. -/
theorem intent_round_trip :
    (∀ (p : NetworkProfiles) (r : Nat), r < 18446744073709551616 → validate p p = .ok p →
      ∃ i, Intent.fromProfiles p r = .ok i ∧ decodeIntent (intentJson i).val = some i ∧
        i.profiles .ndimon = .ok p ∧
        importSemantic floatLen (.ofJson floatLen (intentJson i).val) = .ok (r, p)) ∧
    ∀ (i : Intent) (product : NetworkProduct) (p : NetworkProfiles), i.profiles product = .ok p →
      validate p p = .ok p ∧
      (product = .ndimon → ∀ r, Intent.fromProfiles p r =
        .ok { i with revision := r, networks := i.networks.map Network.plain }) := by
  constructor
  · intro p r hr hv
    obtain ⟨hok, hn⟩ := validate_ok hv
    have hp := hok.bounded hn.symm
    obtain ⟨i, hi, hversion, hrevision, hndi, hnetworks, hunchecked⟩ := fromProfiles_ok hv r
    have hsize := intent_size floatLen hp hr hi
    have himport := importSemantic_json floatLen hp hversion (by omega) hndi hunchecked hsize hv
    rw [hrevision] at himport
    refine ⟨i, hi, decodeIntent_json (intent_bounded hp hr hversion hrevision hnetworks), ?_,
      himport⟩
    have hsome := Option.isSome_iff_ne_none.mp hndi
    simp [Intent.profiles, hversion, hsome, hunchecked, hv]
  · intro i product p h
    obtain ⟨hversion, hndi, rfl, hv⟩ := profiles_ok h
    refine ⟨hv, fun hproduct r => ?_⟩
    obtain ⟨ndi, hn⟩ := Option.isSome_iff_exists.mp (hndi hproduct)
    obtain ⟨version, revision, interface, backend, networks, management, audio, ndi',
      ⟨confirm⟩⟩ := i
    simp only at hversion hn
    subst hversion hn
    simp [Intent.fromProfiles, Intent.unchecked, Function.comp_def, ofRow_row]

/-- A static network whose gateway is written as an empty text. -/
def emptyGateway : Intent where
  version := 1
  revision := 7
  interface := "eth0"
  backend := .networkd
  networks :=
    [{ id := "lan", name := "LAN", vlanId := none,
       ipv4 := .static "10.0.0.5" 24 (some "") [], dnsSearch := [] }]
  management := "lan"
  audio := "lan"
  ndi := some "lan"
  policies := ⟨.tokenOnly⟩

theorem sample_intent_round_trip :
    (∃ i, Intent.fromProfiles (normalize sampleProfiles) 7 = .ok i ∧
      decodeIntent (intentJson i).val = some i ∧
      i.profiles .ndimon = .ok (normalize sampleProfiles) ∧
      importSemantic (fun _ => 0) (.ofJson (fun _ => 0) (intentJson i).val) =
        .ok (7, normalize sampleProfiles)) ∧
    Intent.fromProfiles emptyGateway.unchecked 8 =
      .ok { emptyGateway with
        revision := 8, networks := emptyGateway.networks.map Network.plain } :=
  ⟨(intent_round_trip fun _ => 0).1 _ 7 (by decide) rfl,
    ((intent_round_trip fun _ => 0).2 emptyGateway .ndimon _ rfl).2 rfl 8⟩

/-- An accepted intent that is not given back: its empty gateway returns as a missing one. -/
theorem intent_networks_kept_false :
    ¬∀ (i : Intent) (p : NetworkProfiles), i.profiles .ndimon = .ok p →
      ∃ j, Intent.fromProfiles p i.revision = .ok j ∧ j.networks = i.networks := by
  intro h
  obtain ⟨j, hj, hn⟩ := h emptyGateway emptyGateway.unchecked rfl
  have hnetworks : j.networks = emptyGateway.networks.map Network.plain := by
    rw [← Except.ok.inj hj]
    decide
  rw [hnetworks] at hn
  revert hn
  decide

end NdimonR.Engine
