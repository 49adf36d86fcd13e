import NdimonR.Backend.Accepted
import NdimonR.Compat.Network
import NdimonR.Engine.IntentRoundTrip
import NdimonR.Library.Outcome

/-! The legacy views against the profiles they show: the document is read back, and base settings
posted over it change the management row and nothing else. -/

namespace NdimonR.Compat.Network

open Types Json Text Engine

theorem check_eq_ok {holds : Bool} {error : ApiError} :
    check holds error = .ok () ↔ holds = true := by
  cases holds <;> simp [check]

theorem check_ok {holds : Bool} (h : holds = true) (error : ApiError) :
    check holds error = .ok () := check_eq_ok.mpr h

/-! ### Addresses as texts -/

theorem parse_len {s : String} {a : Ipv4Addr} (h : Ipv4Addr.parse s = some a) : len s ≤ 15 := by
  have hone : ∀ c ∈ s.toList, c.utf8Size = 1 := by
    intro c hc
    rcases Ipv4Addr.parse_digits h c hc with rfl | hdigit
    · rfl
    · simp only [isAsciiDigit, Bool.and_eq_true, decide_eq_true_eq] at hdigit
      have hnine : c.val ≤ '9'.val := hdigit.2
      have hascii : '9'.val ≤ 0x7f := by decide
      exact if_pos (UInt32.le_trans hnine hascii)
  have hsum : (s.toList.map Char.utf8Size).sum = s.toList.length := by
    rw [List.map_congr_left hone, List.map_const', List.sum_replicate]
    exact Nat.mul_one _
  rw [len_eq_sum, hsum]
  exact Ipv4Addr.parse_chars h

/-- The addresses of a row that are not left out are addresses. -/
structure Written (n : NetworkProfile) : Prop where
  address : n.address = "" ∨ (Ipv4Addr.parse n.address).isSome = true
  gateway : n.gateway = "" ∨ (Ipv4Addr.parse n.gateway).isSome = true
  dns : ∀ d ∈ n.dns, (Ipv4Addr.parse d).isSome = true

theorem written_of_ok {p : NetworkProfiles} {seen : Seen} {n : NetworkProfile}
    (h : RowOk p seen n) (hn : normalizeRow n = n) : Written n := by
  cases hm : n.mode with
  | dhcp =>
    rw [normalizeRow_dhcp hm] at hn
    have ha : n.address = "" := by rw [← hn]
    have hg : n.gateway = "" := by rw [← hn]
    have hd : n.dns = [] := by rw [← hn]
    refine ⟨.inl ha, .inl hg, fun d hin => ?_⟩
    rw [hd] at hin
    cases hin
  | «static» =>
    obtain ⟨a, ha⟩ := h.2 hm
    refine ⟨.inr (by rw [ha.address]; rfl), ?_, fun d hd => ?_⟩
    · by_cases hg : n.gateway = ""
      · exact .inl hg
      · obtain ⟨g, hparse, -⟩ := ha.gateway hg
        exact .inr (by rw [hparse]; rfl)
    · obtain ⟨b, hb, -⟩ := ha.dns d hd
      rw [hb]
      rfl

theorem overlong_address {s : String} (h : s = "" ∨ (Ipv4Addr.parse s).isSome = true) :
    overlong 15 (Value.str s).val = false := by
  have hlen : len s ≤ 15 := by
    rcases h with rfl | h
    · decide
    · obtain ⟨a, ha⟩ := Option.isSome_iff_exists.mp h
      exact parse_len ha
  exact decide_eq_false (by omega)

theorem chars_address {s : String} (h : s = "" ∨ (Ipv4Addr.parse s).isSome = true) :
    chars s ≤ 15 := by
  rcases h with rfl | h
  · decide
  · obtain ⟨a, ha⟩ := Option.isSome_iff_exists.mp h
    exact Ipv4Addr.parse_chars ha

theorem legacyRowInvalid_json {n : NetworkProfile} (h : RowBounded n) (hw : Written n) :
    legacyRowInvalid (networkProfileJson n).val = false := by
  have hget := get_profileJson n
  have hprefix : (asU64 (Value.nat n.prefixLen).val).all (30 < ·) = false := by
    have hmax := h.prefixLen
    rw [asU64_nat (by omega)]
    exact decide_eq_false (by omega)
  have hdns : ((n.dns.map fun d => (Value.str d).val).any (overlong 15)) = false := by
    rw [List.any_eq_false]
    intro d hd
    obtain ⟨s, hs, rfl⟩ := List.mem_map.mp hd
    rw [overlong_address (.inr (hw.dns s hs))]
    exact Bool.false_ne_true
  have hcount : decide (3 < (n.dns.map fun d => (Value.str d).val).length) = false := by
    have hmax := h.dnsCount
    rw [List.length_map]
    exact decide_eq_false (by omega)
  have hsearch : ((asArray ((networkProfileJson n).val.member "dns_search")).any fun ds =>
      ds.any fun d => (asStr d).any fun s => 253 < len s) = false := by
    have hfield : get "dns_search" (networkProfileJson n).val =
        (nonempty Value.str (fun n : NetworkProfile => n.dnsSearch) n).map Subtype.val :=
      hget "dns_search"
    rw [member_eq_get, hfield, nonempty]
    split
    · rfl
    · refine List.any_eq_false.mpr fun d hd => ?_
      obtain ⟨s, hs, rfl⟩ := List.mem_map.mp hd
      have hlen := (h.search s hs).2
      simpa [asStr, Value.str] using hlen
  have haddress : (networkProfileJson n).val.member "address" = (Value.str n.address).val := by
    rw [member_eq_get, hget]
    rfl
  have hgateway : (networkProfileJson n).val.member "gateway" = (Value.str n.gateway).val := by
    rw [member_eq_get, hget]
    rfl
  have hbits : (networkProfileJson n).val.member "prefix" = (Value.nat n.prefixLen).val := by
    rw [member_eq_get, hget]
    rfl
  have hservers : asArray ((networkProfileJson n).val.member "dns") =
      some (n.dns.map fun d => (Value.str d).val) := by
    rw [member_eq_get, hget]
    rfl
  rw [legacyRowInvalid, haddress, hgateway, hbits, hservers, hsearch, overlong_address hw.address,
    overlong_address hw.gateway, hprefix]
  simp only [Option.all_some, hcount, hdns, Bool.or_false]

theorem legacyRows_json {l : List NetworkProfile} (h : ∀ n ∈ l, RowBounded n ∧ Written n) (i : ℕ) :
    legacyRows i (l.map fun n => (networkProfileJson n).val) = .ok () := by
  induction l generalizing i with
  | nil => rfl
  | cons n rest ih =>
    obtain ⟨hbounded, hwritten⟩ := h n List.mem_cons_self
    rw [List.map_cons, legacyRows, legacyRowInvalid_json hbounded hwritten]
    exact ih (fun m hm => h m (List.mem_cons_of_mem n hm)) (i + 1)

/-! ### The document -/

variable (floatLen : ℚ → ℕ)

theorem get_profileDoc (p : NetworkProfiles) (r : ℕ) (k : String) :
    get k (profileDoc p r).val =
      (SortedMap.lookup k (profileDocFields r)).bind fun f => (f p).map Subtype.val :=
  get_record (show ((profileDocFields r).map Prod.fst).Nodup from
    (by decide : legacyKeys.Nodup)) p k

theorem member_profileDoc {p : NetworkProfiles} {r : ℕ} {k : String} {v : Value}
    (h : ((SortedMap.lookup k (profileDocFields r)).bind fun f => f p) = some v) :
    (profileDoc p r).val.member k = v.val := by
  obtain ⟨f, hf, hv⟩ := Option.bind_eq_some_iff.mp h
  rw [member_eq_get, get_profileDoc, hf, Option.bind_some, hv]
  rfl

theorem legacyDocument_json (p : NetworkProfiles) (r : ℕ) :
    legacyDocument (profileDoc p r).val =
      (networkProfilesJson { p with confirmPolicy := .tokenOnly }).val := by
  have hi : (profileDoc p r).val.member "interface" = _ := member_profileDoc rfl
  have hb : (profileDoc p r).val.member "backend" = _ := member_profileDoc rfl
  have hn : (profileDoc p r).val.member "networks" = _ := member_profileDoc rfl
  have hm : (profileDoc p r).val.member "management" = _ := member_profileDoc rfl
  have hv : (profileDoc p r).val.member "ndi" = _ := member_profileDoc rfl
  have ht : (profileDoc p r).val.member "tessera" = _ := member_profileDoc rfl
  rw [legacyDocument, hi, hb, hn, hm, hv, ht]
  rfl

theorem profileDoc_keys (p : NetworkProfiles) (r : ℕ) :
    ((asObject (profileDoc p r).val).isSome &&
      (keys (profileDoc p r).val).length == legacyKeys.length &&
      (keys (profileDoc p r).val).all (fun k => legacyKeys.contains k)) = true := by
  have hobject : (asObject (profileDoc p r).val).isSome = true := rfl
  have hnodup : (((profileDocFields r).filterMap fun f => (f.2 p).map fun j => (f.1, j)).map
      Prod.fst).Nodup := (by decide : legacyKeys.Nodup)
  have hlength : (keys (profileDoc p r).val).length = legacyKeys.length := length_object hnodup
  have hknown : (keys (profileDoc p r).val).all (fun k => legacyKeys.contains k) = true := by
    refine List.all_eq_true.mpr fun k hk => ?_
    have hin : k ∈ legacyKeys := mem_keys_record hk
    exact List.contains_iff_mem.mpr hin
  rw [hobject, hlength, hknown, beq_self_eq_true]
  rfl

theorem profileDoc_size {p : NetworkProfiles} (h : ProfilesBounded p) {r : ℕ}
    (hr : r ≤ maxRevision) : (profileDoc p r).val.size floatLen ≤ maxMessage := by
  have hversion := size_nat_le (k := 1) floatLen (n := 1) (by omega) (by omega)
  have hrevision := size_nat_le (k := 16) floatLen (n := r) (by omega)
    (by unfold maxRevision at hr; omega)
  have hinterface := size_str_le floatLen h.interface
  have hbackend : (ofOption (named NetworkBackend.text) p.backend).val.size floatLen ≤ 86 := by
    cases p.backend with
    | none => simp [ofOption, Value.null, size]
    | some b => exact size_str_le floatLen (k := 14) (by cases b <;> decide)
  have hnetworks := size_ofItems_le floatLen networkProfileJson (l := p.networks)
    fun n hn => profile_size floatLen (h.rows n hn)
  have hcount := h.count
  have hm := size_str_le floatLen h.management
  have hn := size_str_le floatLen h.ndi
  have ha := size_str_le floatLen h.audio
  have hrecord := size_record_le floatLen (profileDocFields r) (k := 20)
    (show ∀ name ∈ legacyKeys, stringSize name ≤ 20 by decide) p
  simp only [profileDocFields, present, List.map_cons, List.map_nil, List.sum_cons, List.sum_nil,
    Option.elim_some, List.length_cons, List.length_nil] at hrecord
  exact le_trans hrecord (by unfold maxMessage; omega)

theorem parse_document {p : NetworkProfiles} (h : ProfilesBounded p) (r : ℕ) :
    parse (.ofJson floatLen (legacyDocument (profileDoc p r).val)) =
      .ok { p with confirmPolicy := .tokenOnly } := by
  have hbounded : ProfilesBounded { p with confirmPolicy := .tokenOnly } :=
    ⟨h.rows, h.count, h.interface, h.management, h.ndi, h.audio⟩
  have hlength := profiles_size floatLen hbounded
  rw [legacyDocument_json]
  simp [parse, Message.ofJson, Nat.not_lt.mpr hlength, shape_json hbounded.rows,
    decodeNetworkProfiles_json hbounded.rows]

theorem profileDoc_rows (p : NetworkProfiles) (r : ℕ) :
    asArray ((profileDoc p r).val.member "networks") =
      some (p.networks.map fun n => (networkProfileJson n).val) := by
  have hn : (profileDoc p r).val.member "networks" = _ := member_profileDoc rfl
  rw [hn]
  rfl

theorem profileDoc_revision (p : NetworkProfiles) (r : ℕ) :
    (profileDoc p r).val.member "revision" = (Value.nat r).val := member_profileDoc rfl

/-- The document is read back as far as the validator takes it, under the default policy. -/
theorem importLegacy_json {p : NetworkProfiles} (h : ProfilesBounded p)
    (hw : ∀ n ∈ p.networks, Written n) {r : ℕ} (hr : r ≤ maxRevision) :
    importLegacy floatLen (.ofJson floatLen (profileDoc p r).val) =
      (validate { p with confirmPolicy := .tokenOnly } { p with confirmPolicy := .tokenOnly }).map
        fun q => (r, q) := by
  have hlength : (Message.ofJson floatLen (profileDoc p r).val).length ≤ maxMessage :=
    profileDoc_size floatLen h hr
  have hvalue : (Message.ofJson floatLen (profileDoc p r).val).value =
      some (profileDoc p r).val := rfl
  have hversion : asU64 ((profileDoc p r).val.member "version") = some 1 := by
    have hv : (profileDoc p r).val.member "version" = (Value.nat 1).val := member_profileDoc rfl
    rw [hv]
    exact asU64_nat (by omega)
  have hrevision : asU64 ((profileDoc p r).val.member "revision") = some r := by
    rw [profileDoc_revision]
    exact asU64_nat (by unfold maxRevision at hr; omega)
  have hrows := legacyRows_json (fun n hn => ⟨h.rows n hn, hw n hn⟩) 0
  rw [importLegacy, hvalue, check_ok (decide_eq_true hlength), Outcome.bind_ok, Option.elim_some,
    Outcome.bind_ok, check_ok (profileDoc_keys p r), Outcome.bind_ok,
    check_ok (beq_iff_eq.mpr hversion), Outcome.bind_ok, hrevision, Option.elim_some,
    Outcome.bind_ok, check_ok (decide_eq_true hr), Outcome.bind_ok, profileDoc_rows,
    Option.getD_some, hrows, Outcome.bind_ok, parse_document floatLen h r, Outcome.bind_ok]
  cases validate { p with confirmPolicy := .tokenOnly } { p with confirmPolicy := .tokenOnly } with
  | error e => rfl
  | ok q => rfl

theorem importLegacy_revision {p : NetworkProfiles} {r : ℕ} {result : ℕ × NetworkProfiles}
    (h : importLegacy floatLen (.ofJson floatLen (profileDoc p r).val) = .ok result) :
    r ≤ maxRevision := by
  have hvalue : (Message.ofJson floatLen (profileDoc p r).val).value =
      some (profileDoc p r).val := rfl
  obtain ⟨⟨⟩, _, h⟩ := Outcome.bind_eq_ok.mp h
  rw [hvalue, Option.elim_some, Outcome.bind_ok] at h
  obtain ⟨⟨⟩, _, h⟩ := Outcome.bind_eq_ok.mp h
  obtain ⟨⟨⟩, _, h⟩ := Outcome.bind_eq_ok.mp h
  obtain ⟨revision, hrevision, h⟩ := Outcome.bind_eq_ok.mp h
  obtain ⟨⟨⟩, hmax, h⟩ := Outcome.bind_eq_ok.mp h
  rw [profileDoc_revision] at hrevision
  have hle := of_decide_eq_true (check_eq_ok.mp hmax)
  by_cases hr : r < 18446744073709551616
  · rw [asU64_nat hr] at hrevision
    obtain rfl : r = revision := Except.ok.inj hrevision
    exact hle
  · have hnone : asU64 (Value.nat r).val = none := by
      simp only [asU64, Value.nat, Int.ofNat_eq_natCast]
      rw [if_neg (by omega)]
    rw [hnone] at hrevision
    cases hrevision

/-! ### The policy does not enter the checks -/

theorem validateRows_congr {p q : NetworkProfiles} (hi : q.interface = p.interface)
    (hr : q.roles = p.roles) (rows : List NetworkProfile) (seen : Seen) (i : ℕ) :
    validateRows q seen i rows = validateRows p seen i rows := by
  induction rows generalizing seen i with
  | nil => rfl
  | cons n rest ih =>
    have hcommon : ∀ path, commonErrors q seen path n = commonErrors p seen path n := by
      intro path
      rw [commonErrors, commonErrors, ifname, ifname, hi, hr]
    have hstatic : ∀ path,
        staticErrors q seen.subnets path n = staticErrors p seen.subnets path n := by
      intro path
      rw [staticErrors, staticErrors, hr]
    have hrow : validateRow q seen i n = validateRow p seen i n := by
      rw [validateRow, validateRow, hcommon, hstatic]
    rw [validateRows, hrow, validateRows]
    simp only [ih]

theorem validate_policy (p : NetworkProfiles) (policy : ConfirmPolicy) :
    validate { p with confirmPolicy := policy } { p with confirmPolicy := policy } =
      (validate p p).map fun q => { q with confirmPolicy := policy } := by
  have herrors : Engine.validationErrors { p with confirmPolicy := policy }
      { p with confirmPolicy := policy } = Engine.validationErrors p p := by
    unfold Engine.validationErrors
    have hrows := @validateRows_congr p { p with confirmPolicy := policy } rfl rfl
    simp only [hrows]
  unfold Engine.validate
  rw [herrors]
  cases Engine.validationErrors p p with
  | nil => rfl
  | cons e es => rfl

/-! ### Base settings -/

/-- What a form asks for. -/
def Base.asked (value : Json) : Base :=
  if value.member "mode" = .str "dhcp" then {}
  else
    ⟨.static, text (value.member "address"), (number (value.member "prefix")).getD 0,
      text (value.member "gateway"), servers (value.member "dns")⟩

def Base.ofRow (n : NetworkProfile) : Base := ⟨n.mode, n.address, n.prefixLen, n.gateway, n.dns⟩

def Base.over (b : Base) (n : NetworkProfile) : NetworkProfile :=
  { n with
    mode := b.mode, address := b.address, prefixLen := b.prefixLen, gateway := b.gateway
    dns := b.dns }

/-- The profiles with these settings in their management row. -/
def edited (b : Base) (p : NetworkProfiles) : NetworkProfiles :=
  { p with networks := p.networks.map fun n => if n.id = p.roles.management then b.over n else n }

structure Base.Accepted (b : Base) : Prop where
  address : b.address = "" ∨ (Ipv4Addr.parse b.address).isSome = true
  prefixMax : b.prefixLen ≤ 30
  gateway : b.gateway = "" ∨ (Ipv4Addr.parse b.gateway).isSome = true
  count : b.dns.length ≤ 3
  dns : ∀ d ∈ b.dns, (Ipv4Addr.parse d).isSome = true
  dhcp : b.mode = .dhcp → b = {}

theorem checkGateway_ok {low high : BitVec 32} {gateway : String}
    (h : checkGateway low high gateway = .ok ()) :
    gateway = "" ∨ (Ipv4Addr.parse gateway).isSome = true := by
  by_cases hempty : gateway = ""
  · exact .inl hempty
  · rw [checkGateway, if_neg hempty] at h
    obtain ⟨ip, hip, _⟩ := Outcome.bind_eq_ok.mp h
    cases hparse : Ipv4Addr.parse gateway with
    | none =>
      rw [hparse] at hip
      cases hip
    | some a => exact .inr rfl

theorem elim_ok {ε α : Type} {o : Option α} {e : ε} {a : α}
    (h : o.elim (.error e) Except.ok = .ok a) : o = some a := by
  cases o with
  | none => cases h
  | some b => exact congrArg some (Except.ok.inj h)

theorem normalize_ok {value clean : Json} (h : normalize value = .ok clean) :
    clean = (Base.asked value).json.val ∧ (Base.asked value).Accepted := by
  unfold normalize at h
  unfold Base.asked
  by_cases hdhcp : value.member "mode" = .str "dhcp"
  · rw [if_pos hdhcp] at h ⊢
    refine ⟨(Except.ok.inj h).symm, .inl rfl, by decide, .inl rfl, by decide, ?_, fun _ => rfl⟩
    intro d hd
    cases hd
  · rw [if_neg hdhcp] at h ⊢
    split at h
    · obtain ⟨ip, hip, h⟩ := Outcome.bind_eq_ok.mp h
      obtain ⟨prefixLen, hprefix, h⟩ := Outcome.bind_eq_ok.mp h
      obtain ⟨⟨⟩, _, h⟩ := Outcome.bind_eq_ok.mp h
      obtain ⟨⟨⟩, _, h⟩ := Outcome.bind_eq_ok.mp h
      obtain ⟨⟨⟩, hgateway, h⟩ := Outcome.bind_eq_ok.mp h
      obtain ⟨⟨⟩, hservers, h⟩ := Outcome.bind_eq_ok.mp h
      obtain ⟨hnumber, hrange⟩ := Option.filter_eq_some_iff.mp (elim_ok hprefix)
      have hdns := check_eq_ok.mp hservers
      simp only [Bool.and_eq_true, decide_eq_true_eq, List.all_eq_true] at hrange hdns
      rw [hnumber]
      refine ⟨(Except.ok.inj h).symm, .inr ?_, hrange.2, checkGateway_ok hgateway, hdns.1, hdns.2,
        nofun⟩
      rw [elim_ok hip]
      rfl
    · cases h

/-- The keys of base settings. -/
def baseKeys : List String := ["mode", "address", "prefix", "gateway", "dns"]

theorem text_address {s : String} (h : s = "" ∨ (Ipv4Addr.parse s).isSome = true) :
    text (Value.str s).val = s := by
  rcases h with rfl | h
  · decide
  · exact (Backend.plain_address h).word.trim

theorem servers_json {l : List String} (h : ∀ d ∈ l, (Ipv4Addr.parse d).isSome = true) :
    servers (ofItems Value.str l).val = l := by
  have htexts : (l.map fun d => (Value.str d).val).map text = l := by
    rw [List.map_map]
    conv_rhs => rw [← List.map_id l]
    exact List.map_congr_left fun d hd => text_address (.inr (h d hd))
  change ((l.map fun d => (Value.str d).val).map text).filter (fun s => s ≠ "") = l
  rw [htexts, List.filter_eq_self]
  intro d hd
  refine decide_eq_true fun he => ?_
  have hparse := h d hd
  rw [he] at hparse
  exact absurd hparse (by decide)

theorem checkGateway_row {p : NetworkProfiles} {subnets : List (BitVec 32 × BitVec 32)}
    {n : NetworkProfile} {a : Ipv4Addr} (h : StaticOk p subnets n a) :
    checkGateway (subnet a n.prefixLen).1 (subnet a n.prefixLen).2 n.gateway = .ok () := by
  unfold checkGateway
  split
  · rfl
  · rename_i hgateway
    obtain ⟨g, hparse, hlow, hhigh, _⟩ := h.gateway hgateway
    rw [hparse]
    exact check_ok (decide_eq_true ⟨hlow, hhigh⟩) _

/-- The settings of a row, as they are shown, are taken as they are. -/
theorem normalize_shown {p : NetworkProfiles} {seen : Seen} {n : NetworkProfile}
    (h : RowOk p seen n) (hn : normalizeRow n = n) {value : Json}
    (hvalue : ∀ k ∈ baseKeys, value.member k = (networkProfileJson n).val.member k) :
    normalize value = .ok (Base.ofRow n).json.val := by
  have hget := get_profileJson n
  have hwritten := written_of_ok h hn
  have hmode : value.member "mode" = .str n.mode.text := by
    rw [hvalue "mode" (by decide), member_eq_get, hget]
    rfl
  have haddress : value.member "address" = (Value.str n.address).val := by
    rw [hvalue "address" (by decide), member_eq_get, hget]
    rfl
  have hprefix : value.member "prefix" = (Value.nat n.prefixLen).val := by
    rw [hvalue "prefix" (by decide), member_eq_get, hget]
    rfl
  have hgateway : value.member "gateway" = (Value.str n.gateway).val := by
    rw [hvalue "gateway" (by decide), member_eq_get, hget]
    rfl
  have hdns : value.member "dns" = (ofItems Value.str n.dns).val := by
    rw [hvalue "dns" (by decide), member_eq_get, hget]
    rfl
  cases hm : n.mode with
  | dhcp =>
    have hdhcp : value.member "mode" = .str "dhcp" := by
      rw [hmode, hm]
      rfl
    rw [normalizeRow_dhcp hm] at hn
    have hrow : Base.ofRow n = {} := by
      rw [← hn]
      simp only [Base.ofRow, hm]
    rw [normalize, if_pos hdhcp, hrow]
  | «static» =>
    have hstatic : value.member "mode" = .str "static" := by
      rw [hmode, hm]
      rfl
    have hnot : value.member "mode" ≠ .str "dhcp" := by
      rw [hstatic]
      decide
    obtain ⟨a, ha⟩ := h.2 hm
    have hnumber : (number (Value.nat n.prefixLen).val).filter (fun p => 8 ≤ p && p ≤ 30) =
        some n.prefixLen := by
      have hmin := ha.prefixMin
      have hmax := ha.prefixMax
      rw [number, asU64_nat (by omega)]
      exact Option.filter_eq_some_iff.mpr ⟨rfl, by simp [hmin, hmax]⟩
    have hedges : (!([(subnet a n.prefixLen).1, (subnet a n.prefixLen).2].contains a.toU32)) =
        true := by
      simp [ha.notLow, ha.notHigh]
    have hservers : (decide (n.dns.length ≤ 3) && n.dns.all fun s =>
        (Ipv4Addr.parse s).isSome) = true := by
      rw [decide_eq_true ha.dnsCount, Bool.true_and]
      exact List.all_eq_true.mpr hwritten.dns
    rw [normalize, if_neg hnot, if_pos hstatic, normalizeStatic, haddress, hprefix, hgateway, hdns,
      text_address hwritten.address, text_address hwritten.gateway, servers_json hwritten.dns,
      ha.address, Option.elim_some, Outcome.bind_ok, hnumber, Option.elim_some, Outcome.bind_ok,
      check_ok ha.unicast, Outcome.bind_ok]
    simp only [check_ok hedges, Outcome.bind_ok, checkGateway_row ha, check_ok hservers]
    rw [Base.ofRow, hm]

/-! ### The merge -/

theorem get_baseJson (b : Base) (k : String) :
    get k b.json.val = (SortedMap.lookup k b.members).map Subtype.val :=
  get_object (show (b.members.map Prod.fst).Nodup from (by decide : baseKeys.Nodup)) k

theorem setAll_row (b : Base) (n : NetworkProfile) :
    setAll ((asObject b.json.val).getD []) (networkProfileJson n).val =
      (networkProfileJson (b.over n)).val := by
  obtain ⟨m, hm⟩ : ∃ m : SortedMap String Json, b.json.val = .obj m.entries := ⟨_, rfl⟩
  obtain ⟨row, hrow⟩ : ∃ m : SortedMap String Json, (networkProfileJson n).val = .obj m.entries :=
    ⟨_, rfl⟩
  obtain ⟨laid, hover⟩ : ∃ m : SortedMap String Json,
      (networkProfileJson (b.over n)).val = .obj m.entries := ⟨_, rfl⟩
  have hnodup : (m.entries.map Prod.fst).Nodup :=
    (List.pairwise_map.mpr m.sorted).imp fun hlt => hlt.ne
  rw [hm, hrow, hover]
  change setAll m.entries (.obj row.entries) = _
  rw [setAll_obj]
  refine obj_ext fun k => ?_
  rw [← setAll_obj, get_setAll hnodup, ← hover, get_profileJson]
  have hk : SortedMap.lookup k m.entries = get k b.json.val := by
    rw [hm]
    rfl
  have hr : row.get? k = get k (networkProfileJson n).val := by
    rw [hrow]
    rfl
  rw [hk, hr, get_baseJson, get_profileJson]
  by_cases hin : k ∈ profileFields.map Prod.fst
  · simp only [profileFields, List.map_cons, List.map_nil, List.mem_cons, List.not_mem_nil,
      or_false] at hin
    rcases hin with rfl | rfl | rfl | rfl | rfl | rfl | rfl | rfl | rfl <;> rfl
  · have hbase : k ∉ b.members.map Prod.fst := by
      intro hk
      have hsubset : ∀ l ∈ baseKeys, l ∈ profileFields.map Prod.fst := by decide
      exact hin (hsubset k hk)
    rw [SortedMap.lookup_eq_none_iff.mpr hin, SortedMap.lookup_eq_none_iff.mpr hbase]
    rfl

theorem set_rows (b : Base) (p : NetworkProfiles) (r : ℕ) :
    set "networks" (.arr ((edited b p).networks.map fun n => (networkProfileJson n).val))
      (profileDoc p r).val = (profileDoc (edited b p) r).val := by
  obtain ⟨m, hm⟩ : ∃ m : SortedMap String Json, (profileDoc p r).val = .obj m.entries := ⟨_, rfl⟩
  obtain ⟨after, hafter⟩ : ∃ m : SortedMap String Json,
      (profileDoc (edited b p) r).val = .obj m.entries := ⟨_, rfl⟩
  rw [hm, hafter, set_obj]
  refine obj_ext fun k => ?_
  rw [← set_obj, get_set _ _ _ rfl, ← hm, ← hafter, get_profileDoc, get_profileDoc]
  by_cases hin : k ∈ legacyKeys
  · simp only [legacyKeys, List.mem_cons, List.not_mem_nil, or_false] at hin
    rcases hin with rfl | rfl | rfl | rfl | rfl | rfl | rfl | rfl <;> rfl
  · have hother : k ≠ "networks" := by
      rintro rfl
      exact hin (by decide)
    have hnone : ∀ r, SortedMap.lookup k (profileDocFields r) = none := fun r =>
      SortedMap.lookup_eq_none_iff.mpr hin
    rw [if_neg hother, hnone]
    rfl

theorem merge_profileDoc {p : NetworkProfiles} {r : ℕ} {current : Json}
    (hcurrent : current.member "profiles" = (profileDoc p r).val)
    (hids : (p.networks.map (·.id)).Nodup)
    (hmanagement : p.roles.management ∈ p.networks.map (·.id)) (b : Base) :
    merge current b.json.val = .ok (profileDoc (edited b p) r).val := by
  have hm : (profileDoc p r).val.member "management" = (Value.str p.roles.management).val :=
    member_profileDoc rfl
  have hid : ∀ n : NetworkProfile,
      decide ((networkProfileJson n).val.member "id" = (Value.str p.roles.management).val) =
        decide (n.id = p.roles.management) := by
    intro n
    have hmember : (networkProfileJson n).val.member "id" = (Value.str n.id).val := by
      rw [member_eq_get, get_profileJson]
      rfl
    rw [hmember]
    simp [Value.str]
  have hany : ((p.networks.map fun n => (networkProfileJson n).val).any fun n =>
      n.member "id" = (Value.str p.roles.management).val) = true := by
    obtain ⟨n, hn, hnid⟩ := List.mem_map.mp hmanagement
    refine List.any_eq_true.mpr ⟨_, List.mem_map_of_mem hn, ?_⟩
    rw [hid]
    exact decide_eq_true hnid
  have hmembers : asObject b.json.val = some ((asObject b.json.val).getD []) := rfl
  have hrows : updateFirst (fun n => n.member "id" = (Value.str p.roles.management).val)
      (setAll ((asObject b.json.val).getD []))
      (p.networks.map fun n => (networkProfileJson n).val) =
        (edited b p).networks.map fun n => (networkProfileJson n).val :=
    updateFirst_eq_map (·.id) (fun n => (networkProfileJson n).val) b.over _ _ p.roles.management
      hids (fun n _ => hid n) fun n _ _ => setAll_row b n
  rw [merge, hcurrent, hm, profileDoc_rows, Option.filter_some, if_pos hany, Option.elim_some,
    Outcome.bind_ok, hmembers, Option.elim_some, Outcome.bind_ok, hrows]
  exact congrArg Except.ok (set_rows b p r)

/-! ### What is shown -/

theorem rowStatus_member (value : Json) (p : NetworkProfiles) (n : NetworkProfile) {k : String}
    (hk : k ∈ "id" :: baseKeys) :
    (rowStatus value p n).member k = (networkProfileJson n).val.member k := by
  refine member_setAll (fun hin => ?_) rfl
  have hapart : ∀ l ∈ "id" :: baseKeys,
      l ∉ ["interface", "live_address", "live_prefix", "ready", "used_by"] := by decide
  exact hapart k hk hin

theorem withManagement_object (profiles : Json) {value : Json} (h : (asObject value).isSome) :
    (asObject (withManagement profiles value)).isSome := by
  unfold withManagement
  dsimp only
  split
  · exact h
  · split
    · exact asObject_set _ _ (asObject_setAll _ h)
    · exact asObject_setAll _ h

theorem withManagement_other (profiles : Json) {value : Json} (h : (asObject value).isSome)
    {k : String} (hk : k ∉ "dns_search" :: rowNames) :
    (withManagement profiles value).member k = value.member k := by
  rw [List.mem_cons, not_or] at hk
  have hnames : ∀ row : Json,
      k ∉ (rowNames.map fun name => (name, row.member name)).map Prod.fst := by
    intro row
    rw [List.map_map]
    exact fun hin => hk.2 (by simpa using hin)
  unfold withManagement
  dsimp only
  split
  · rfl
  · rename_i row _
    split
    · rw [member_set _ _ _ (asObject_setAll _ h), if_neg hk.1, member_setAll (hnames row) h]
    · exact member_setAll (hnames row) h

theorem withManagement_row {profiles value row : Json} (h : (asObject value).isSome)
    (hrow : ((asArray (profiles.member "networks")).bind fun rows => rows.find? fun n =>
      n.member "id" = (profiles.member "settings").member "management") = some row)
    {k : String} (hk : k ∈ rowNames) : (withManagement profiles value).member k = row.member k := by
  have hnodup : ((rowNames.map fun name => (name, row.member name)).map Prod.fst).Nodup := by
    rw [List.map_map]
    exact (by decide : rowNames.Nodup)
  have hmem : (k, row.member k) ∈ rowNames.map fun name => (name, row.member name) :=
    List.mem_map_of_mem hk
  have hother : k ≠ "dns_search" := by
    rintro rfl
    exact absurd hk (by decide)
  unfold withManagement
  simp only [hrow]
  split
  · rw [member_set _ _ _ (asObject_setAll _ h), if_neg hother, member_setAll_of_mem hnodup hmem h]
  · exact member_setAll_of_mem hnodup hmem h

theorem withRefusal_member (profiles : Json) {value : Json} (h : (asObject value).isSome)
    {k : String} (hk : k ∉ ["reason", "refusal", "interface", "live_address", "live_prefix"]) :
    (withRefusal profiles value).member k = value.member k := by
  have hreason : k ∉ ["reason", "refusal"] := fun hin => hk (by simp_all)
  have hlive : k ∉ ["interface", "live_address", "live_prefix"] := fun hin => hk (by simp_all)
  unfold withRefusal
  split
  · dsimp only
    split
    · exact member_setAll hreason h
    · exact (member_setAll hlive (asObject_setAll _ h)).trans (member_setAll hreason h)
  · rfl

theorem withRefusal_object (profiles : Json) {value : Json} (h : (asObject value).isSome) :
    (asObject (withRefusal profiles value)).isSome := by
  unfold withRefusal
  split
  · dsimp only
    split
    · exact asObject_setAll _ h
    · exact asObject_setAll _ (asObject_setAll _ h)
  · exact h

variable (reader : Reader)

theorem projectStatus_json {native : Json} {p : NetworkProfiles}
    (h : ∀ n ∈ p.networks, RowBounded n)
    (hnative : native.member "profiles" = (networkProfilesJson p).val) (r : ℕ) :
    ∃ view, projectStatus reader native r = .ok view ∧
      view.member "settings" = (profileDoc p r).val ∧
      view.member "networks" = .arr (p.networks.map (rowStatus native p)) := by
  unfold projectStatus
  rw [hnative, decodeNetworkProfiles_json h, Option.elim_some, Outcome.bind_ok]
  refine ⟨_, rfl, ?_, ?_⟩
  · split
    · rw [member_setAll (by simp) rfl]
      exact member_ofMembers (by simp) rfl
    · exact member_ofMembers (by simp) rfl
  · split
    · rw [member_setAll (by simp) rfl]
      exact member_ofMembers (by simp) rfl
    · exact member_ofMembers (by simp) rfl

/-- The status shows the profiles' document, and of base settings those of the management row. -/
theorem statusValue_json {native : Json} {p : NetworkProfiles}
    (h : ∀ n ∈ p.networks, RowBounded n)
    (hmanagement : p.roles.management ∈ p.networks.map (·.id))
    (hnative : native.member "profiles" = (networkProfilesJson p).val) :
    ∃ status, statusValue reader native = .ok status ∧
      status.member "profiles" = (profileDoc p (domainRevision native)).val ∧
      status.member "applicable" = native.member "writable" ∧
      ∃ n ∈ p.networks, n.id = p.roles.management ∧
        ∀ k ∈ baseKeys, status.member k = (networkProfileJson n).val.member k := by
  obtain ⟨view, hview, hsettings, hnetworks⟩ :=
    projectStatus_json reader h hnative (domainRevision native)
  have hm : (profileDoc p (domainRevision native)).val.member "management" =
    (Value.str p.roles.management).val := member_profileDoc rfl
  obtain ⟨n, hfind⟩ : ∃ n, p.networks.find? (fun n => n.id = p.roles.management) = some n := by
    obtain ⟨n, hn, hid⟩ := List.mem_map.mp hmanagement
    exact Option.isSome_iff_exists.mp (List.find?_isSome.mpr ⟨n, hn, decide_eq_true hid⟩)
  have hid : n.id = p.roles.management := by simpa using List.find?_some hfind
  have hrow : ((asArray (view.member "networks")).bind fun rows => rows.find? fun n =>
      n.member "id" = (view.member "settings").member "management") =
        some (rowStatus native p n) := by
    have hfound : ((fun m : Json => decide (m.member "id" = (Value.str p.roles.management).val)) ∘
        rowStatus native p) = fun n => decide (n.id = p.roles.management) := by
      funext m
      have hmember : (networkProfileJson m).val.member "id" = (Value.str m.id).val := by
        rw [member_eq_get, get_profileJson]
        rfl
      rw [Function.comp_apply, rowStatus_member native p m (by decide), hmember]
      simp [Value.str]
    rw [hnetworks, hsettings, hm]
    change (p.networks.map (rowStatus native p)).find? _ = _
    rw [List.find?_map, hfound, hfind]
    rfl
  unfold statusValue
  rw [hview, Outcome.bind_ok]
  dsimp only
  generalize hfields : ofMembers [("ok", Json.bool true), _, _, _, _, _, _, _, _, _] = fields
  have hobject : (asObject fields).isSome := hfields ▸ rfl
  have hrefused := withRefusal_object view (withManagement_object view hobject)
  refine ⟨_, rfl, ?_, ?_, n, List.mem_of_find?_eq_some hfind, hid, fun k hk => ?_⟩
  · rw [member_set _ _ _ hrefused, if_neg (by decide),
      withRefusal_member view (withManagement_object view hobject) (by decide),
      withManagement_other view hobject (by decide), ← hfields, ← hsettings]
    exact member_ofMembers (by simp) rfl
  · rw [member_set _ _ _ hrefused, if_neg (by decide),
      withRefusal_member view (withManagement_object view hobject) (by decide),
      withManagement_other view hobject (by decide), ← hfields]
    exact member_ofMembers (by simp) rfl
  · have hnames : ∀ k ∈ baseKeys, k ≠ "vlans" ∧ k ∈ rowNames ∧ k ∈ "id" :: baseKeys ∧
        k ∉ ["reason", "refusal", "interface", "live_address", "live_prefix"] := by decide
    obtain ⟨hvlans, hname, hshown, hkept⟩ := hnames k hk
    rw [member_set _ _ _ hrefused, if_neg hvlans,
      withRefusal_member view (withManagement_object view hobject) hkept,
      withManagement_row hobject hrow hname, rowStatus_member native p n hshown]

/-! ### Posted over what is shown -/

theorem edited_same {p : NetworkProfiles} (hids : (p.networks.map (·.id)).Nodup)
    {n : NetworkProfile} (hn : n ∈ p.networks) (hid : n.id = p.roles.management) :
    edited (.ofRow n) p = p := by
  have hrows : (p.networks.map fun m =>
      if m.id = p.roles.management then (Base.ofRow n).over m else m) = p.networks := by
    conv_rhs => rw [← List.map_id p.networks]
    refine List.map_congr_left fun m hm => ?_
    split
    · rename_i hmid
      rw [List.inj_on_of_nodup_map hids hm hn (hmid.trans hid.symm)]
      rfl
    · rfl
  rw [edited, hrows]

/-- A row of the edited profiles is a row as it was, or the one that was posted over. -/
theorem mem_edited {b : Base} {p : NetworkProfiles} {m : NetworkProfile}
    (hm : m ∈ (edited b p).networks) : ∃ n ∈ p.networks, m = n ∨ m = b.over n := by
  obtain ⟨n, hn, rfl⟩ := List.mem_map.mp hm
  refine ⟨n, hn, ?_⟩
  split
  · exact .inr rfl
  · exact .inl rfl

theorem Base.Accepted.bounded {b : Base} (hb : b.Accepted) {n : NetworkProfile}
    (h : RowBounded n) : RowBounded (b.over n) where
  id := h.id
  name := h.name
  tag := h.tag
  prefixLen := hb.prefixMax
  address := chars_address hb.address
  gateway := chars_address hb.gateway
  dnsCount := hb.count
  dns := fun d hd => chars_address (.inr (hb.dns d hd))
  searchCount := h.searchCount
  search := h.search

theorem Base.Accepted.written {b : Base} (hb : b.Accepted) (n : NetworkProfile) :
    Written (b.over n) := ⟨hb.address, hb.gateway, hb.dns⟩

theorem Base.Accepted.normal {b : Base} (hb : b.Accepted) {n : NetworkProfile}
    (hn : normalizeRow n = n) : normalizeRow (b.over n) = b.over n := by
  have hname : trim n.name = n.name := by
    rw [← normalizeRow_name, hn]
  cases hm : b.mode with
  | dhcp =>
    rw [normalizeRow_dhcp hm, hb.dhcp hm]
    simp only [Base.over, hname]
  | «static» =>
    rw [normalizeRow_static hm]
    simp only [Base.over, hname]

theorem edited_bounded {b : Base} (hb : b.Accepted) {p : NetworkProfiles}
    (h : ProfilesBounded p) : ProfilesBounded (edited b p) where
  rows := by
    intro m hm
    obtain ⟨n, hn, rfl | rfl⟩ := mem_edited hm
    · exact h.rows _ hn
    · exact hb.bounded (h.rows n hn)
  count := by
    rw [edited, List.length_map]
    exact h.count
  interface := h.interface
  management := h.management
  ndi := h.ndi
  audio := h.audio

theorem edited_normal {b : Base} (hb : b.Accepted) {p : NetworkProfiles}
    (hn : Engine.normalize p = p) : Engine.normalize (edited b p) = edited b p := by
  have hrows : (edited b p).networks.map normalizeRow = (edited b p).networks := by
    conv_rhs => rw [← List.map_id (edited b p).networks]
    refine List.map_congr_left fun m hm => ?_
    obtain ⟨n, hin, rfl | rfl⟩ := mem_edited hm
    · exact rows_fixed hn _ hin
    · exact hb.normal (rows_fixed hn n hin)
  rw [Engine.normalize, hrows]

/-- What the legacy document of profiles within their limits is read as, if it is read. -/
theorem parseProfiles_json {p : NetworkProfiles} (h : ProfilesBounded p)
    (hw : ∀ n ∈ p.networks, Written n) (hn : Engine.normalize p = p) {r : ℕ}
    (policy : ConfirmPolicy) {result : ℕ × NetworkProfiles}
    (hok : parseProfiles floatLen policy (profileDoc p r).val = .ok result) :
    result = (r, { p with confirmPolicy := policy }) := by
  obtain ⟨⟨r', q⟩, himport, hresult⟩ := Outcome.bind_eq_ok.mp hok
  have hr := importLegacy_revision floatLen himport
  rw [importLegacy_json floatLen h hw hr, validate_policy] at himport
  obtain ⟨q', hq', hpair⟩ := Outcome.map_eq_ok.mp himport
  obtain ⟨q'', hvalid, rfl⟩ := Outcome.map_eq_ok.mp hq'
  cases hpair
  rw [(validate_ok hvalid).2, hn] at hresult
  exact (Except.ok.inj hresult).symm

/-- The profiles that validate to themselves are read back from their legacy document; the base
settings that are shown of them, posted back, change nothing; and whatever base settings are taken
change the management row to what was asked for, and nothing else. -/
theorem legacy_views_inverted {p : NetworkProfiles} (hp : Engine.validate p p = .ok p) :
    (∀ r ≤ maxRevision, importLegacy floatLen (.ofJson floatLen (profileDoc p r).val) =
      .ok (r, { p with confirmPolicy := .tokenOnly })) ∧
    ∀ native : Json, native.member "profiles" = (networkProfilesJson p).val →
      ∃ status, statusValue reader native = .ok status ∧
        (∀ value : Json, (∀ k ∈ baseKeys, value.member k = status.member k) →
          ∃ clean, normalize value = .ok clean ∧
            merge status clean = .ok (profileDoc p (domainRevision native)).val ∧
            (native.member "writable" ≠ .bool false → domainRevision native ≤ maxRevision →
              ∀ policy, applyBase floatLen reader policy native value =
                .ok ⟨value.member "dry_run" = .bool true, domainRevision native,
                  { p with confirmPolicy := policy }⟩)) ∧
        ∀ value clean : Json, normalize value = .ok clean →
          merge status clean =
            .ok (profileDoc (edited (.asked value) p) (domainRevision native)).val ∧
          ∀ policy submitted, applyBase floatLen reader policy native value = .ok submitted →
            submitted = ⟨value.member "dry_run" = .bool true, domainRevision native,
              { edited (.asked value) p with confirmPolicy := policy }⟩ := by
  obtain ⟨hok, hfixed⟩ := validate_ok hp
  have hn : Engine.normalize p = p := hfixed.symm
  have hbounded := hok.bounded hn
  have hwritten : ∀ n ∈ p.networks, Written n := by
    intro n hin
    obtain ⟨seen, hrow⟩ := hok.rows.row hin
    exact written_of_ok hrow (rows_fixed hn n hin)
  have hids := hok.rows.distinct.1.1
  have himport : ∀ r ≤ maxRevision, importLegacy floatLen (.ofJson floatLen (profileDoc p r).val) =
      .ok (r, { p with confirmPolicy := .tokenOnly }) := by
    intro r hr
    rw [importLegacy_json floatLen hbounded hwritten hr, validate_policy, hp]
    rfl
  refine ⟨himport, fun native hnative => ?_⟩
  obtain ⟨status, hstatus, hprofiles, happlicable, n, hin, hid, hshown⟩ :=
    statusValue_json reader hbounded.rows hok.management hnative
  have hmerge := merge_profileDoc hprofiles hids hok.management
  refine ⟨status, hstatus, fun value hvalue => ?_, fun value clean hclean => ?_⟩
  · obtain ⟨seen, hrow⟩ := hok.rows.row hin
    have hclean := normalize_shown hrow (rows_fixed hn n hin) fun k hk =>
      (hvalue k hk).trans (hshown k hk)
    have hsame := hmerge (.ofRow n)
    rw [edited_same hids hin hid] at hsame
    refine ⟨_, hclean, hsame, fun hwritable hr policy => ?_⟩
    rw [applyBase, hclean, Outcome.bind_ok, hstatus, Outcome.bind_ok, happlicable,
      check_ok (decide_eq_true hwritable), Outcome.bind_ok, hsame, Outcome.bind_ok, parseProfiles,
      himport _ hr]
    rfl
  · obtain ⟨rfl, hb⟩ := normalize_ok hclean
    refine ⟨hmerge _, fun policy submitted happly => ?_⟩
    rw [applyBase, hclean, Outcome.bind_ok, hstatus, Outcome.bind_ok] at happly
    obtain ⟨⟨⟩, _, happly⟩ := Outcome.bind_eq_ok.mp happly
    rw [hmerge, Outcome.bind_ok] at happly
    obtain ⟨result, hparse, hsubmitted⟩ := Outcome.bind_eq_ok.mp happly
    have hrows : ∀ m ∈ (edited (.asked value) p).networks, Written m := by
      intro m hm
      obtain ⟨k, hk, rfl | rfl⟩ := mem_edited hm
      · exact hwritten _ hk
      · exact hb.written k
    rw [parseProfiles_json floatLen (edited_bounded hb hbounded) hrows (edited_normal hb hn) policy
      hparse] at hsubmitted
    exact (Except.ok.inj hsubmitted).symm

def plainReader : Reader := ⟨0, fun _ => "", fun _ => none⟩

/-- A status of the sample profiles, and a form that turns DHCP on. -/
def sampleNative : Json :=
  ofMembers
    [("profiles", (networkProfilesJson (Engine.normalize sampleProfiles)).val),
      ("writable", .bool true), ("domain_revision", .int 7)]

def dhcpForm : Json := ofMembers [("mode", .str "dhcp")]

theorem sample_views_inverted :
    importLegacy (fun _ => 0)
        (.ofJson (fun _ => 0) (profileDoc (Engine.normalize sampleProfiles) 7).val) =
      .ok (7, Engine.normalize sampleProfiles) ∧
    ∃ status, statusValue plainReader sampleNative = .ok status ∧
      merge status (Base.json {}).val =
        .ok (profileDoc (edited {} (Engine.normalize sampleProfiles)) 7).val := by
  have hp : Engine.validate (Engine.normalize sampleProfiles) (Engine.normalize sampleProfiles) =
      .ok (Engine.normalize sampleProfiles) := rfl
  obtain ⟨himport, hviews⟩ := legacy_views_inverted (fun _ => 0) plainReader hp
  obtain ⟨status, hstatus, -, hposted⟩ := hviews sampleNative
    (member_ofMembers (by simp) rfl)
  exact ⟨himport 7 (by decide), status, hstatus, (hposted dhcpForm _ rfl).1⟩

end NdimonR.Compat.Network
