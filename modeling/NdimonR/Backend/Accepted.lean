import NdimonR.Backend.Common
import NdimonR.Engine.ValidatorsAgree
import NdimonR.Types.Valid

/-! What the texts of an accepted profile are made of, whichever backend writes them. -/

namespace NdimonR.Backend

open Types Text Engine

/-- Accepted by the document's validator, or returned by the engine's. -/
def Accepted (p : NetworkProfiles) : Prop :=
  Validator.network p = [] ∨ ∃ candidate previous, Engine.validate candidate previous = .ok p

/-- Before adoption there is neither a port nor a network. -/
theorem Accepted.cases {p : NetworkProfiles} (h : Accepted p) :
    (p.interface = "" ∧ p.networks = []) ∨ NetworkValid p := by
  have hnil : Validator.network p = [] := by
    rcases h with h | ⟨candidate, previous, h⟩
    · exact h
    · obtain ⟨hok, rfl⟩ := validate_ok h
      exact hok.normalized.network_errors (normalize_normalize candidate)
  rcases network_valid hnil with ⟨-, hinterface, hempty, -⟩ | hvalid
  · exact .inl ⟨hinterface, hempty⟩
  · exact .inr hvalid

theorem Accepted.valid {p : NetworkProfiles} (h : Accepted p) {n : NetworkProfile}
    (hn : n ∈ p.networks) : NetworkValid p := by
  rcases h.cases with ⟨-, hempty⟩ | hvalid
  · simp [hempty] at hn
  · exact hvalid

/-- Letters, digits and the marks of addresses and names. -/
def plainChar (c : Char) : Bool :=
  isAsciiAlphanumeric c || c == '.' || c == '-' || c == '_' || c == '/'

/-- A text that no separator, quote or comment mark of a configuration file is in. -/
structure Plain (s : String) : Prop where
  nonempty : s ≠ ""
  letters : all plainChar s = true

theorem Plain.forall {s : String} (h : Plain s) : ∀ c ∈ s.toList, plainChar c = true :=
  List.all_eq_true.mp h.letters

theorem Plain.not_mem {s : String} (h : Plain s) {c : Char} (hc : plainChar c = false) :
    c ∉ s.toList := by
  intro hm
  simp [h.forall c hm] at hc

theorem alphanumeric_ascii {c : Char} (h : isAsciiAlphanumeric c = true) :
    (48 ≤ c.toNat ∧ c.toNat ≤ 57) ∨ (65 ≤ c.toNat ∧ c.toNat ≤ 90) ∨
      (97 ≤ c.toNat ∧ c.toNat ≤ 122) := by
  have hval : c.val.toNat = c.toNat := rfl
  simp only [isAsciiAlphanumeric, isAsciiAlphabetic, isAsciiLowercase, isAsciiUppercase,
    isAsciiDigit, Bool.or_eq_true, Bool.and_eq_true, decide_eq_true_eq, Char.le_def,
    UInt32.le_iff_toNat_le] at h
  simp at h
  omega

theorem plainChar_not_whitespace {c : Char} (h : plainChar c = true) : isWhitespace c = false := by
  simp only [plainChar, Bool.or_eq_true, beq_iff_eq] at h
  rcases h with (((h | rfl) | rfl) | rfl) | rfl
  · have := alphanumeric_ascii h
    simp only [isWhitespace, Bool.or_eq_false_iff, Bool.and_eq_false_iff, decide_eq_false_iff_not,
      beq_eq_false_iff_ne]
    omega
  all_goals rfl

theorem Plain.word {s : String} (h : Plain s) : Word s :=
  word_of_all h.nonempty (fun _ => plainChar_not_whitespace) h.letters

theorem Plain.append {a b : String} (ha : Plain a) (hb : Plain b) : Plain (a ++ b) where
  nonempty h := ha.nonempty (by
    have := congrArg String.toList h
    simp only [String.toList_append, String.toList_empty, List.append_eq_nil_iff] at this
    simpa using this.1)
  letters := by
    have hl := ha.letters
    have hr := hb.letters
    simp only [all, String.toList_append, List.all_append, Bool.and_eq_true] at *
    exact ⟨hl, hr⟩

theorem plain_of_all {p : Char → Bool} {s : String} (hne : s ≠ "")
    (hp : ∀ c, p c = true → plainChar c = true) (h : all p s = true) : Plain s where
  nonempty := hne
  letters := List.all_eq_true.mpr fun c hc => hp c (List.all_eq_true.mp h c hc)

theorem plain_toString (n : Nat) : Plain (toString n) :=
  plain_of_all (toString_ne_empty n) (fun c h => by simp [plainChar, isAsciiAlphanumeric, h])
    (digits_toString n)

theorem plain_address {s : String} (h : (Ipv4Addr.parse s).isSome = true) : Plain s := by
  obtain ⟨a, ha⟩ := Option.isSome_iff_exists.mp h
  constructor
  · rintro rfl
    cases ha
  · apply List.all_eq_true.mpr
    intro c hc
    rcases Ipv4Addr.parse_digits ha c hc with rfl | hd
    · rfl
    · simp [plainChar, isAsciiAlphanumeric, hd]

theorem plain_search {s : String} (h : validDnsSearchDomain s = true) : Plain s := by
  simp only [validDnsSearchDomain, Bool.and_eq_true, decide_eq_true_eq, List.all_eq_true] at h
  obtain ⟨⟨hlen, -⟩, hlabels⟩ := h
  constructor
  · rintro rfl
    simp [len] at hlen
  · apply List.all_eq_true.mpr
    intro c hc
    rcases mem_split '.' hc with rfl | ⟨label, hl, hcl⟩
    · rfl
    · have hlabel := hlabels label hl
      simp only [validDeviceLabel, Bool.and_eq_true] at hlabel
      have hchar := List.all_eq_true.mp hlabel.2 c hcl
      simp only [Bool.or_eq_true] at hchar
      simp only [plainChar, Bool.or_eq_true]
      tauto

theorem plain_interface {p : NetworkProfiles} (h : NetworkValid p) : Plain p.interface := by
  have hne : p.interface ≠ "" := by
    intro he
    have := h.interface.1
    simp [he, len] at this
  apply plain_of_all hne _ h.letters
  intro c hc
  simp only [Bool.or_eq_true] at hc
  simp only [plainChar, Bool.or_eq_true]
  tauto

theorem plain_ifname {p : NetworkProfiles} (h : NetworkValid p) (n : NetworkProfile) :
    Plain (ifname p n) := by
  unfold ifname
  cases n.vlanId with
  | none => exact plain_interface h
  | some tag =>
    have hdot : Plain "." := ⟨by decide, rfl⟩
    exact ((plain_interface h).append hdot).append (plain_toString tag)

/-- The first untagged row is the only one. -/
theorem find_untagged {p : NetworkProfiles} (h : NetworkValid p) {n : NetworkProfile}
    (hn : n ∈ p.networks) (hu : n.vlanId = none) :
    p.networks.find? (·.vlanId.isNone) = some n := by
  obtain ⟨m, hm⟩ : ∃ m, p.networks.find? (·.vlanId.isNone) = some m :=
    Option.isSome_iff_exists.mp (List.find?_isSome.mpr ⟨n, hn, by simp [hu]⟩)
  have hmu : m.vlanId = none := by simpa using List.find?_some hm
  rw [hm, List.inj_on_of_nodup_map h.tags (List.mem_of_find?_eq_some hm) hn (hmu.trans hu.symm)]

/-! ### Rows -/

/-- The texts of a row are plain, where its mode has them. -/
structure RowPlain (n : NetworkProfile) : Prop where
  search : ∀ d ∈ n.dnsSearch, Plain d
  dns : ∀ d ∈ n.dns, Plain d
  address : n.mode = .static → Plain n.address
  gateway : n.gateway ≠ "" → Plain n.gateway

theorem plain_cidr {n : NetworkProfile} (h : Plain n.address) :
    Plain (n.address ++ "/" ++ toString n.prefixLen) := by
  have hslash : Plain "/" := ⟨by decide, rfl⟩
  exact (h.append hslash).append (plain_toString n.prefixLen)

theorem colon_of_plain {s : String} (h : Plain s) : any (· == ':') s = false := by
  rw [any, List.any_eq_false]
  intro c hc
  simpa using ne_of_mem_of_not_mem hc (h.not_mem rfl)

theorem rowPlain_of_valid {p : NetworkProfiles} {n : NetworkProfile} (h : RowValid p n) :
    RowPlain n where
  search d hd := plain_search (h.search d hd)
  dns d hd := plain_address (h.dns d hd)
  address hm := plain_address (h.static hm).2.1
  gateway hg := by
    cases hm : n.mode with
    | dhcp => exact absurd (h.dhcp hm).2.2.1 hg
    | «static» => exact plain_address ((h.static hm).2.2.resolve_left hg)

theorem searchList_ok {search : List String} (hcount : search.length ≤ maxDnsSearch)
    (hvalid : ∀ d ∈ search, validDnsSearchDomain d = true) (key : String) :
    searchList search key = .ok search := by
  have hany : search.any (fun d => !validDnsSearchDomain d) = false := by
    rw [List.any_eq_false]
    intro d hd
    simp [hvalid d hd]
  simp [searchList, hany, hcount]

theorem cut_cidr {p : NetworkProfiles} {n : NetworkProfile} (h : RowValid p n)
    (hm : n.mode = .static) :
    splitOnce "/" (n.address ++ "/" ++ toString n.prefixLen) =
      some (n.address, toString n.prefixLen) := by
  obtain ⟨a, ha⟩ := Option.isSome_iff_exists.mp (h.static hm).2.1
  apply splitOnce_append rfl
  intro hslash
  rcases Ipv4Addr.parse_digits ha '/' hslash with hdot | hdigit
  · cases hdot
  · cases hdigit

theorem bits_cidr {p : NetworkProfiles} {n : NetworkProfile} (h : RowValid p n)
    (hm : n.mode = .static) : parseUnsigned 255 (toString n.prefixLen) = some n.prefixLen :=
  parseUnsigned_toString ((h.static hm).1.2.trans (by simp))

/-- The row adoption makes of an untagged one. -/
def adopted (n : NetworkProfile) : NetworkProfile :=
  { dhcpRow with
    mode := n.mode
    address := n.address
    prefixLen := n.prefixLen
    gateway := n.gateway
    dns := n.dns
    dnsSearch := n.dnsSearch }

/-- The management row of the sample port, as validation leaves it. -/
def managementRow : NetworkProfile where
  id := "lan"
  name := "Studio LAN"
  mode := .static
  address := "10.0.0.5"
  prefixLen := 24
  gateway := "10.0.0.1"
  dns := ["10.0.0.1"]

end NdimonR.Backend
