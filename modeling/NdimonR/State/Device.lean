import NdimonR.Library.Lines
import NdimonR.Types.Valid

/-! The host name an alias gives, and the settings command that derives it. -/

namespace NdimonR.State.Device

open NdimonR.Types Text

def hostnameChar (c : Char) : Bool := isAsciiAlphanumeric c || c == '-'

/-- The loop over the alias: what was written so far, and whether a separator was skipped. -/
def convert : List Char → List Char → Bool → List Char
  | [], out, _ => out
  | c :: rest, out, separator =>
    if hostnameChar c then
      convert rest ((if separator && !out.isEmpty then out ++ ['-'] else out) ++ [c]) false
    else convert rest out true

def trimHyphens (l : List Char) : List Char := (l.dropWhile (· == '-')).rdropWhile (· == '-')

def aliasHostname (name : String) : String :=
  let value := (trimHyphens (convert (trim name).toList [] false)).take 63
  if value = [] then "ndimon" else String.ofList value

def sortedDays (days : List Weekday) : List Weekday :=
  [.sun, .mon, .tue, .wed, .thu, .fri, .sat].filter (· ∈ days)

def assigned (device : Types.Device) (patch : DevicePatch) : Types.Device where
  hostname := patch.hostname.getD device.hostname
  ndiAlias := patch.ndiAlias.getD device.ndiAlias
  mode := patch.mode.getD device.mode
  decodeMode := patch.decodeMode.getD device.decodeMode
  watchdogMode := patch.watchdogMode.getD device.watchdogMode
  ntpServer := patch.ntpServer.getD device.ntpServer
  rebootSchedule := patch.rebootSchedule.getD device.rebootSchedule
  about := patch.about.getD device.about
  analogAudioInGain := patch.analogAudioInGain.getD device.analogAudioInGain
  analogAudioOutGain := patch.analogAudioOutGain.getD device.analogAudioOutGain
  pluginFeeds := patch.pluginFeeds.getD device.pluginFeeds
  allowInsecureFeeds := patch.allowInsecureFeeds.getD device.allowInsecureFeeds
  webAllowedHosts := patch.webAllowedHosts.getD device.webAllowedHosts

def patch (device : Types.Device) (p : DevicePatch) : Types.Device :=
  let next := assigned device p
  let name := trim next.ndiAlias
  { next with
    ndiAlias := name
    ntpServer := trim next.ntpServer
    webAllowedHosts := next.webAllowedHosts.map toAsciiLowercase
    hostname := if p.ndiAlias.isSome && name ≠ "" then aliasHostname name else next.hostname
    rebootSchedule := { next.rebootSchedule with days := sortedDays next.rebootSchedule.days } }

/-! ### Words -/

/-- The runs of characters a host name may hold. -/
def words (l : List Char) : List (List Char) :=
  (l.splitOnP fun c => !hostnameChar c).filter (· ≠ [])

def joined : List (List Char) → List Char
  | [] => []
  | w :: rest => w ++ rest.flatMap ('-' :: ·)

/-- The words of an alias with a hyphen between them, without hyphens at the ends. -/
def hyphenated (name : String) : List Char := trimHyphens (joined (words name.toList))

theorem words_keep {c : Char} {l : List Char} (h : hostnameChar c = true) :
    ∃ first rest, l.splitOnP (fun c => !hostnameChar c) = first :: rest ∧
      (c :: l).splitOnP (fun c => !hostnameChar c) = (c :: first) :: rest := by
  obtain ⟨first, rest, hsplit⟩ := List.exists_cons_of_ne_nil
    (List.splitOnP_ne_nil (fun c => !hostnameChar c) l)
  refine ⟨first, rest, hsplit, ?_⟩
  rw [List.splitOnP_cons_eq_if_modifyHead]
  simp [h, hsplit]

theorem words_skip {c : Char} {l : List Char} (h : hostnameChar c = false) :
    (c :: l).splitOnP (fun c => !hostnameChar c) =
      [] :: l.splitOnP (fun c => !hostnameChar c) := by
  rw [List.splitOnP_cons_eq_if_modifyHead]
  simp [h]

theorem words_skip_cons {c : Char} {l : List Char} (h : hostnameChar c = false) :
    words (c :: l) = words l := by
  simp [words, words_skip h]

/-- Once something is written, the rest of a word goes on and each further word gets a hyphen. -/
theorem convert_started (l : List Char) {out : List Char} (hout : out ≠ []) :
    convert l out true = out ++ (words l).flatMap ('-' :: ·) ∧
    ∀ first rest, l.splitOnP (fun c => !hostnameChar c) = first :: rest →
      convert l out false = out ++ first ++ (rest.filter (· ≠ [])).flatMap ('-' :: ·) := by
  induction l generalizing out with
  | nil =>
    refine ⟨by simp [convert, words], fun first rest h => ?_⟩
    simp only [List.splitOnP_nil, List.cons.injEq] at h
    obtain ⟨rfl, rfl⟩ := h
    simp [convert]
  | cons c l ih =>
    cases hc : hostnameChar c with
    | true =>
      obtain ⟨first, rest, hsplit, hcons⟩ := words_keep (l := l) hc
      constructor
      · have hnext := (@ih (out ++ ['-'] ++ [c]) (by simp)).2 first rest hsplit
        simp [convert, hc, hout, words, hcons] at hnext ⊢
        simpa using hnext
      · intro first' rest' h
        rw [hcons, List.cons.injEq] at h
        obtain ⟨rfl, rfl⟩ := h
        have hnext := (@ih (out ++ [c]) (by simp)).2 first rest hsplit
        simp [convert, hc] at hnext ⊢
        simpa using hnext
    | false =>
      have hskip := words_skip (l := l) hc
      have hnext := (ih hout).1
      constructor
      · simpa [convert, hc, words, hskip] using hnext
      · intro first rest h
        rw [hskip, List.cons.injEq] at h
        obtain ⟨rfl, rfl⟩ := h
        simpa [convert, hc, words] using hnext

theorem convert_eq (l : List Char) (separator : Bool) :
    convert l [] separator = joined (words l) := by
  induction l generalizing separator with
  | nil => simp [convert, words, joined]
  | cons c l ih =>
    cases hc : hostnameChar c with
    | true =>
      obtain ⟨first, rest, hsplit, hcons⟩ := words_keep (l := l) hc
      have hnext := (convert_started l (List.cons_ne_nil c [])).2 first rest hsplit
      simp [convert, hc, words, hcons, joined] at hnext ⊢
      simpa using hnext
    | false =>
      have hskip := words_skip (l := l) hc
      simpa [convert, hc, words, hskip] using ih true

/-! ### White space at the ends -/

theorem words_append_skip {c : Char} {l : List Char} (h : hostnameChar c = false) :
    words (l ++ [c]) = words l := by
  have hsplit : (l ++ [c]).splitOnP (fun c => !hostnameChar c) =
      l.splitOnP (fun c => !hostnameChar c) ++ [[]] := by
    induction l with
    | nil => simp [List.splitOnP_cons_eq_if_modifyHead, h]
    | cons d l ih =>
      cases hd : hostnameChar d with
      | true =>
        obtain ⟨first, rest, hl, hcons⟩ := words_keep (l := l) hd
        obtain ⟨first', rest', hl', hcons'⟩ := words_keep (l := l ++ [c]) hd
        rw [ih, hl, List.cons_append, List.cons.injEq] at hl'
        obtain ⟨rfl, rfl⟩ := hl'
        simp [hcons, hcons']
      | false => simp [words_skip hd, ih]
  simp [words, hsplit]

theorem hostnameChar_code {c : Char} (h : hostnameChar c = true) :
    c.toNat = 45 ∨ (48 ≤ c.toNat ∧ c.toNat ≤ 57) ∨ (65 ≤ c.toNat ∧ c.toNat ≤ 90) ∨
      (97 ≤ c.toNat ∧ c.toNat ≤ 122) := by
  simp only [hostnameChar, isAsciiAlphanumeric, isAsciiAlphabetic, isAsciiLowercase,
    isAsciiUppercase, isAsciiDigit, Char.le_def, UInt32.le_iff_toNat_le, Bool.or_eq_true,
    Bool.and_eq_true, decide_eq_true_eq, beq_iff_eq] at h
  rcases h with ((h | h) | h) | rfl
  · exact .inr (.inr (.inr h))
  · exact .inr (.inr (.inl h))
  · exact .inr (.inl h)
  · exact .inl rfl

theorem not_hostnameChar_of_whitespace {c : Char} (h : isWhitespace c = true) :
    hostnameChar c = false := by
  cases hc : hostnameChar c with
  | false => rfl
  | true =>
    have hcode := hostnameChar_code hc
    simp [isWhitespace] at h
    omega

theorem words_trim (s : String) : words (trim s).toList = words s.toList := by
  have hfront : ∀ l : List Char, words (l.dropWhile isWhitespace) = words l := by
    intro l
    induction l with
    | nil => rfl
    | cons c l ih =>
      rw [List.dropWhile_cons]
      split
      · rename_i hc
        rw [ih, words_skip_cons (not_hostnameChar_of_whitespace hc)]
      · rfl
  have hback : ∀ l : List Char, words (l.rdropWhile isWhitespace) = words l := by
    intro l
    induction l using List.reverseRecOn with
    | nil => rfl
    | append_singleton l c ih =>
      rw [List.rdropWhile_concat]
      split
      · rename_i hc
        rw [ih, words_append_skip (not_hostnameChar_of_whitespace hc)]
      · rfl
  rw [toList_trim, trimList, hback, hfront]

theorem aliasHostname_eq (s : String) :
    aliasHostname s =
      if (hyphenated s).take 63 = [] then "ndimon" else String.ofList ((hyphenated s).take 63) := by
  rw [aliasHostname, convert_eq, words_trim]
  rfl

/-! ### Labels -/

/-- What a host name label is made of. -/
structure Label (l : List Char) : Prop where
  nonempty : l ≠ []
  short : l.length ≤ 63
  made : ∀ c ∈ l, hostnameChar c = true
  first : l.head? ≠ some '-'
  last : l.getLast? ≠ some '-'

theorem alphanumeric_iff {c : Char} (h : hostnameChar c = true) :
    isAsciiAlphanumeric c = true ↔ c ≠ '-' := by
  constructor
  · rintro hc rfl
    exact absurd hc (by decide)
  · intro hc
    simpa [hostnameChar, hc] using h

theorem validDeviceLabel_iff {l : List Char} :
    validDeviceLabel (String.ofList l) = true ↔ Label l := by
  have hlen : (∀ c ∈ l, hostnameChar c = true) → len (String.ofList l) = l.length := by
    intro hl
    have hascii : ∀ c ∈ (String.ofList l).toList, c.toNat < 128 := by
      intro c hc
      have := hostnameChar_code (hl c (by simpa using hc))
      omega
    rw [len_ascii hascii, chars, String.toList_ofList]
  have hend : (∀ c ∈ l, hostnameChar c = true) → ∀ e : Option Char, (∀ c, e = some c → c ∈ l) →
      e ≠ none → (e.any isAsciiAlphanumeric = true ↔ e ≠ some '-') := by
    intro hl e he hne
    obtain ⟨c, rfl⟩ := Option.ne_none_iff_exists'.mp hne
    simpa using alphanumeric_iff (hl c (he c rfl))
  simp only [validDeviceLabel, all, startsWith, endsWith, String.toList_ofList, Bool.and_eq_true,
    decide_eq_true_eq, List.all_eq_true]
  constructor
  · rintro ⟨⟨⟨⟨hpos, hshort⟩, hfirst⟩, hlast⟩, hmade⟩
    have hne : l ≠ [] := by
      rintro rfl
      simp at hfirst
    rw [hlen hmade] at hshort
    exact ⟨hne, hshort, hmade,
      (hend hmade _ (fun c hc => List.mem_of_mem_head? hc) (by simpa using hne)).mp hfirst,
      (hend hmade _ (fun c hc => List.mem_of_getLast? hc) (by simpa using hne)).mp hlast⟩
  · intro h
    rw [hlen h.made]
    exact ⟨⟨⟨⟨List.length_pos_of_ne_nil h.nonempty, h.short⟩,
      (hend h.made _ (fun c hc => List.mem_of_mem_head? hc) (by simpa using h.nonempty)).mpr h.first⟩,
      (hend h.made _ (fun c hc => List.mem_of_getLast? hc) (by simpa using h.nonempty)).mpr h.last⟩,
      h.made⟩

theorem words_made {l w : List Char} (h : w ∈ words l) : w ≠ [] ∧ ∀ c ∈ w, hostnameChar c = true := by
  obtain ⟨hw, hne⟩ := List.mem_filter.mp h
  refine ⟨by simpa using hne, fun c hc => ?_⟩
  simpa using not_mem_of_splitOnP hw c hc

theorem joined_made {ws : List (List Char)} (h : ∀ w ∈ ws, ∀ c ∈ w, hostnameChar c = true) :
    ∀ c ∈ joined ws, hostnameChar c = true := by
  cases ws with
  | nil => simp [joined]
  | cons w rest =>
    intro c hc
    rcases List.mem_append.mp hc with hc | hc
    · exact h w (by simp) c hc
    · obtain ⟨v, hv, hc⟩ := List.mem_flatMap.mp hc
      rcases List.mem_cons.mp hc with rfl | hc
      · decide
      · exact h v (by simp [hv]) c hc

theorem trimHyphens_ends (l : List Char) :
    (trimHyphens l).head? ≠ some '-' ∧ (trimHyphens l).getLast? ≠ some '-' := by
  constructor
  · have hfirst := List.head?_dropWhile_not (· == '-') l
    intro h
    have hprefix : trimHyphens l <+: l.dropWhile (· == '-') := List.rdropWhile_prefix _ _
    obtain ⟨t, ht⟩ := hprefix
    rw [← ht, List.head?_append, h] at hfirst
    simp at hfirst
  · intro h
    have hne : trimHyphens l ≠ [] := by
      intro he
      simp [he] at h
    have hlast := List.rdropWhile_last_not (· == '-') (l.dropWhile (· == '-')) hne
    rw [List.getLast?_eq_some_getLast hne, Option.some.injEq] at h
    exact hlast (by simp only [beq_iff_eq]; exact h)

theorem trimHyphens_eq_self {l : List Char} (hfirst : l.head? ≠ some '-')
    (hlast : l.getLast? ≠ some '-') : trimHyphens l = l := by
  have hfront : l.dropWhile (· == '-') = l := by
    cases l with
    | nil => rfl
    | cons c rest =>
      have hc : (c == '-') = false := by simpa using hfirst
      rw [List.dropWhile_cons, hc]
      rfl
  rw [trimHyphens, hfront, List.rdropWhile_eq_self_iff]
  intro hne
  rw [List.getLast?_eq_some_getLast hne] at hlast
  simpa using hlast

theorem hyphenated_made (s : String) : ∀ c ∈ hyphenated s, hostnameChar c = true := by
  intro c hc
  have hmem : c ∈ joined (words s.toList) :=
    ((List.rdropWhile_prefix _ _).sublist.trans (List.dropWhile_sublist _)).subset hc
  exact joined_made (fun w hw => (words_made hw).2) c hmem

/-- A label is its own only word. -/
theorem aliasHostname_label {l : List Char} (h : Label l) :
    aliasHostname (String.ofList l) = String.ofList l := by
  have hsplit : l.splitOnP (fun c => !hostnameChar c) = [l] := by
    have hmade := h.made
    clear h
    induction l with
    | nil => rfl
    | cons c l ih =>
      rw [List.splitOnP_cons_eq_if_modifyHead, ih fun d hd => hmade d (by simp [hd])]
      simp [hmade c (by simp)]
  have hwhole : hyphenated (String.ofList l) = l := by
    simp [hyphenated, words, hsplit, h.nonempty, joined, trimHyphens_eq_self h.first h.last]
  rw [aliasHostname_eq, hwhole, List.take_of_length_le h.short, if_neg h.nonempty]

theorem default_label : Label "ndimon".toList where
  nonempty := by decide
  short := by decide
  made := List.all_eq_true.mp rfl
  first := by decide
  last := by decide

/-- The cut after 63 characters does not fall behind a hyphen. -/
def CutsCleanly (name : String) : Prop := (hyphenated name)[62]? ≠ some '-'

instance (name : String) : Decidable (CutsCleanly name) := inferInstanceAs (Decidable (_ ≠ _))

theorem cut_last (name : String) :
    ((hyphenated name).take 63).getLast? ≠ some '-' ↔ CutsCleanly name := by
  have hlast : (hyphenated name).getLast? ≠ some '-' := (trimHyphens_ends _).2
  rw [List.getLast?_take, CutsCleanly]
  cases h : (hyphenated name)[62]? with
  | none => simpa using hlast
  | some c => simp

theorem label_iff (name : String) :
    validDeviceLabel (aliasHostname name) = true ↔ CutsCleanly name := by
  rw [aliasHostname_eq]
  split
  · rename_i hnil
    rw [show "ndimon" = String.ofList "ndimon".toList by rfl, validDeviceLabel_iff, ← cut_last]
    simpa [hnil] using default_label
  · rename_i hne
    rw [validDeviceLabel_iff, ← cut_last]
    constructor
    · exact Label.last
    · intro hlast
      refine ⟨hne, by simp, fun c hc => hyphenated_made name c (List.mem_of_mem_take hc), ?_, hlast⟩
      have hfirst : (hyphenated name).head? ≠ some '-' := (trimHyphens_ends _).1
      simpa [List.head?_take] using hfirst

/-! ### Acceptable names -/

theorem mem_check {condition : Bool} {path reason : String} {e : FieldError}
    (h : e ∈ Validator.check condition path reason) : e.field = path ∧ condition = false := by
  cases condition <;> simp_all [Validator.check]

theorem indexed_ne (s t : String) : s ++ t ++ "]" ≠ "device.hostname" := by
  intro h
  have hlast := congrArg (fun t => t.toList.getLast?) h
  simp only [String.toList_append] at hlast
  rw [show "]".toList = [']'] by rfl, List.getLast?_concat] at hlast
  exact absurd hlast (by decide)

/-- Only one check of the device's section names the host name. -/
theorem hostname_error {d : Types.Device} {e : FieldError} (h : e ∈ Validator.device d)
    (he : e.field = "device.hostname") : validDeviceLabel d.hostname = false := by
  have hother : ∀ {c : Bool} {path reason : String}, path ≠ "device.hostname" →
      e ∉ Validator.check c path reason := fun hne hm => hne ((mem_check hm).1 ▸ he)
  simp only [Validator.device, Validator.range, List.mem_append, List.mem_flatMap] at h
  rcases h with (((((((((h | ⟨x, -, h⟩) | h) | h) | h) | h) | h) | h) | h) | h) | ⟨x, -, h⟩
  · exact absurd h (hother (by decide))
  · exact absurd h (hother (indexed_ne _ _))
  · exact absurd h (hother (by decide))
  · have hrefused := (mem_check h).2
    simp only [Bool.or_eq_false_iff, Bool.and_eq_false_iff, decide_eq_false_iff_not] at hrefused
    rcases hrefused.2 with hlong | hlabel
    · simp [validDeviceLabel, hlong]
    · exact hlabel
  · exact absurd h (hother (by decide))
  · exact absurd h (hother (by decide))
  · exact absurd h (hother (by decide))
  · exact absurd h (hother (by decide))
  · exact absurd h (hother (by decide))
  · exact absurd h (hother (by decide))
  · exact absurd h (hother (indexed_ne _ _))

/-- What an alias is promised: a host name that is valid, is accepted with the settings command
that derives it, and stays as it is. -/
structure Acceptable (name : String) : Prop where
  nonempty : aliasHostname name ≠ ""
  short : len (aliasHostname name) ≤ 63
  label : validDeviceLabel (aliasHostname name) = true
  accepted : ∀ (d : Types.Device) (p : DevicePatch), p.ndiAlias = some name → trim name ≠ "" →
    ∀ e ∈ Validator.device (patch d p), e.field ≠ "device.hostname"
  stable : aliasHostname (aliasHostname name) = aliasHostname name

theorem refused_hostname {d : Types.Device} (hne : d.hostname ≠ "")
    (h : validDeviceLabel d.hostname = false) :
    ⟨"device.hostname", "must be a hostname label of at most 63 bytes"⟩ ∈ Validator.device d := by
  simp [Validator.device, Validator.check, hne, h]

theorem aliasHostname_ne (name : String) : aliasHostname name ≠ "" := by
  rw [aliasHostname_eq]
  split
  · decide
  · rename_i hne
    intro h
    exact hne (by simpa using congrArg String.toList h)

theorem aliasHostname_trim (name : String) : aliasHostname (trim name) = aliasHostname name := by
  rw [aliasHostname_eq, aliasHostname_eq, hyphenated, words_trim, hyphenated]

theorem patch_hostname {d : Types.Device} {p : DevicePatch} {name : String}
    (hp : p.ndiAlias = some name) (hname : trim name ≠ "") :
    (patch d p).hostname = aliasHostname name := by
  simp [patch, assigned, hp, hname, aliasHostname_trim]

theorem acceptable_iff (name : String) : Acceptable name ↔ CutsCleanly name := by
  constructor
  · intro h
    exact (label_iff name).mp h.label
  · intro hcut
    have hlabel := (label_iff name).mpr hcut
    have hmade : Label (aliasHostname name).toList := by
      rw [← validDeviceLabel_iff, String.ofList_toList]
      exact hlabel
    refine ⟨aliasHostname_ne name, ?_, hlabel, ?_, ?_⟩
    · simp only [validDeviceLabel, Bool.and_eq_true, decide_eq_true_eq] at hlabel
      exact hlabel.1.1.1.2
    · intro d p hp hname e he hfield
      have hrefused := hostname_error he hfield
      rw [patch_hostname hp hname, hlabel] at hrefused
      exact Bool.noConfusion hrefused
    · simpa using aliasHostname_label hmade

/-- Sixty-two letters, a hyphen and one more. -/
def longAlias : String := String.ofList (List.replicate 62 'a' ++ ['-', 'b'])

theorem long_alias_refused : ¬Acceptable longAlias ∧
    ∃ e ∈ Validator.device (patch {} { ndiAlias := some longAlias }),
      e.field = "device.hostname" := by
  have hbad : validDeviceLabel (aliasHostname longAlias) = false := by
    rw [Bool.eq_false_iff, ne_eq, label_iff]
    decide
  constructor
  · intro h
    exact absurd h.label (by simp [hbad])
  · have hname : (patch {} { ndiAlias := some longAlias }).hostname = aliasHostname longAlias :=
      patch_hostname rfl (by decide)
    exact ⟨_, refused_hostname (hname ▸ aliasHostname_ne longAlias) (hname ▸ hbad), rfl⟩

end NdimonR.State.Device
