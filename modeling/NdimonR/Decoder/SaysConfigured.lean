import NdimonR.Decoder.SdkText

/-! When the texts for the NDI SDK say what was configured. -/

namespace NdimonR.Decoder

open Json Text Config

namespace SdkText

/-! ### Lists -/

/-- The items that a text with commas has. -/
def itemsOf (s : String) : List String := if s = "" then [] else split ',' s

/-- A text holds the list of a document. -/
def Lists (items : Json) (s : String) : Prop := items = .arr ((itemsOf s).map .str)

theorem listEntry_eq_ok {addresses : Bool} {item : Json} {s : String}
    (h : listEntry addresses item = .ok s) : item = .str s ∧ s ≠ "" ∧ ',' ∉ s.toList := by
  obtain ⟨t, ht, h⟩ := Outcome.bind_eq_ok.mp h
  obtain ⟨_, hentry, h⟩ := Outcome.bind_eq_ok.mp h
  obtain ⟨_, _, h⟩ := Outcome.bind_eq_ok.mp h
  cases h
  have hentry := require_eq_ok.mp hentry
  simp only [Bool.and_eq_true, decide_eq_true_eq, Text.all, List.all_eq_true] at hentry
  have hitem : item = .str s := by
    cases item with
    | str u => exact congrArg Json.str (Except.ok.inj ht)
    | _ => cases ht
  refine ⟨hitem, hentry.1, fun hc => ?_⟩
  have hno := hentry.2 ',' hc
  simp at hno

theorem itemsOf_intercalate {entries : List String} (h : ∀ s ∈ entries, s ≠ "" ∧ ',' ∉ s.toList) :
    itemsOf (String.intercalate "," entries) = entries := by
  cases entries with
  | nil => rfl
  | cons s rest =>
    have hne : String.intercalate "," (s :: rest) ≠ "" := by
      have hs := (h s List.mem_cons_self).1
      cases rest with
      | nil => simpa using hs
      | cons t rest => simp [hs]
    have hsplit : ([','].intercalate ((s :: rest).map String.toList)).splitOn ',' =
        (s :: rest).map String.toList := by
      refine List.splitOn_intercalate ',' ?_ (List.cons_ne_nil _ _)
      intro l hl
      obtain ⟨t, ht, rfl⟩ := List.mem_map.mp hl
      exact (h t ht).2
    rw [itemsOf, if_neg hne, split, String.toList_intercalate]
    refine (congrArg (List.map String.ofList) hsplit).trans ?_
    simp [Function.comp_def]

theorem list_eq_ok {j : Json} {addresses : Bool} {s : String} (h : list j addresses = .ok s) :
    Lists j s := by
  cases j with
  | arr items =>
    obtain ⟨entries, hentries, rfl⟩ := Outcome.map_eq_ok.mp h
    have hread := Outcome.mapM_eq_ok.mp hentries
    have hentry : ∀ s ∈ entries, s ≠ "" ∧ ',' ∉ s.toList := by
      intro s hs
      obtain ⟨item, _, hitem⟩ := Outcome.mem_of_forall₂ hread.flip hs
      exact (listEntry_eq_ok hitem).2
    rw [Lists, itemsOf_intercalate hentry]
    congr 1
    have hsame : List.Forall₂ (fun x s => x = Json.str s) items entries :=
      hread.imp fun _ _ h => (listEntry_eq_ok h).1
    rw [← List.forall₂_eq_eq_eq, List.forall₂_map_right_iff]
    exact hsame
  | _ => cases h

/-! ### What the follower accepts -/

theorem choice_eq_ok {j : Json} {k : String} {values : List String} {s : String}
    (h : choice j k values = .ok s) : s ∈ values := by
  obtain ⟨t, ht, h⟩ := Outcome.bind_eq_ok.mp h
  split at h
  · cases h
    assumption
  · cases h

theorem plain_of_choice {j : Json} {k : String} {values : List String} {s : String}
    (hvalues : ∀ v ∈ values, v.toList.all Xml.isPlain = true) (h : choice j k values = .ok s) :
    Xml.Plain s.toList :=
  List.all_eq_true.mp (hvalues s (choice_eq_ok h))

theorem plain_append {l r : List Char} (hl : Xml.Plain l) (hr : Xml.Plain r) :
    Xml.Plain (l ++ r) := by
  intro c hc
  exact (List.mem_append.mp hc).elim (hl c) (hr c)

theorem plain_of_all {s : String} (h : s.toList.all Xml.isPlain = true) : Xml.Plain s.toList :=
  List.all_eq_true.mp h

/-- A side of a mode. -/
theorem plain_toString {n : ℤ} (h : 0 ≤ n) : Xml.Plain (toString n).toList := by
  obtain ⟨m, rfl⟩ := Int.eq_ofNat_of_zero_le h
  have hdigits : all isAsciiDigit (toString m) = true := digits_toString m
  have hplain : ∀ k < 58, 48 ≤ k → Xml.isPlain (Char.ofNat k) = true := by decide
  intro c hc
  have hbounds := isAsciiDigit_bounds (List.all_eq_true.mp hdigits c hc)
  rw [← Char.ofNat_toNat c]
  exact hplain _ (by omega) hbounds.1

theorem integer_eq_ok {j : Json} {low high n : ℤ} (h : integer j low high = .ok n) :
    low ≤ n ∧ n ≤ high := by
  unfold integer at h
  split at h
  · split_ifs at h with _ hrange
    cases h
    exact hrange
  · cases h

/-- What an accepted output says about itself, its alias apart. -/
structure Mild (out : OutputConfig) : Prop where
  mode : Xml.Plain (modeOf out).toList
  scaleMode : Xml.Plain out.scaleMode.toList
  screensaver : Xml.Plain out.screensaverMode.toList

theorem mild_default : Mild {} where
  mode := plain_of_all rfl
  scaleMode := nofun
  screensaver := plain_of_all rfl

theorem plain_resolution {j : Json} {mode : String} {hz : ℚ}
    (h : parseResolution j = .ok (mode, hz)) : mode = "" ∨ Xml.Plain mode.toList := by
  unfold parseResolution at h
  split at h
  · cases h
    exact .inl rfl
  · obtain ⟨_, _, h⟩ := Outcome.bind_eq_ok.mp h
    obtain ⟨_, _, h⟩ := Outcome.bind_eq_ok.mp h
    obtain ⟨_, _, h⟩ := Outcome.bind_eq_ok.mp h
    obtain ⟨width, hwidth, h⟩ := Outcome.bind_eq_ok.mp h
    obtain ⟨_, _, h⟩ := Outcome.bind_eq_ok.mp h
    obtain ⟨height, hheight, h⟩ := Outcome.bind_eq_ok.mp h
    obtain ⟨_, _, h⟩ := Outcome.bind_eq_ok.mp h
    obtain ⟨_, _, h⟩ := Outcome.bind_eq_ok.mp h
    obtain ⟨_, _, h⟩ := Outcome.bind_eq_ok.mp h
    cases h
    have hwidth := integer_eq_ok hwidth
    have hheight := integer_eq_ok hheight
    right
    rw [String.toList_append, String.toList_append]
    exact plain_append (plain_append (plain_toString (by omega)) (plain_of_all rfl))
      (plain_toString (by omega))

theorem mild_of_parseOutput {entry : String × Json} {ch : ℕ} {out : OutputConfig}
    (h : parseOutput entry = .ok (ch, out)) : Mild out := by
  unfold parseOutput at h
  obtain ⟨key, v⟩ := entry
  simp only at h
  split at h
  · obtain ⟨_, _, h⟩ := Outcome.bind_eq_ok.mp h
    obtain ⟨_, _, h⟩ := Outcome.bind_eq_ok.mp h
    obtain ⟨_, _, h⟩ := Outcome.bind_eq_ok.mp h
    obtain ⟨_, _, h⟩ := Outcome.bind_eq_ok.mp h
    obtain ⟨saver, _, h⟩ := Outcome.bind_eq_ok.mp h
    obtain ⟨video, _, h⟩ := Outcome.bind_eq_ok.mp h
    obtain ⟨scaleMode, hscale, h⟩ := Outcome.bind_eq_ok.mp h
    obtain ⟨_, _, h⟩ := Outcome.bind_eq_ok.mp h
    obtain ⟨_, _, h⟩ := Outcome.bind_eq_ok.mp h
    obtain ⟨_, _, h⟩ := Outcome.bind_eq_ok.mp h
    obtain ⟨_, _, h⟩ := Outcome.bind_eq_ok.mp h
    obtain ⟨⟨mode, hz⟩, hmode, h⟩ := Outcome.bind_eq_ok.mp h
    obtain ⟨_, _, h⟩ := Outcome.bind_eq_ok.mp h
    obtain ⟨_, _, h⟩ := Outcome.bind_eq_ok.mp h
    cases h
    constructor
    · have hmode := plain_resolution hmode
      simp only [modeOf]
      split_ifs with hempty
      · exact plain_of_all rfl
      · exact hmode.resolve_left hempty
    · exact plain_of_choice (by decide) hscale
    · simp only
      split_ifs
      all_goals exact plain_of_all rfl
  · cases h

theorem mild_of_parseOutputs {j : Json} {outputs : SortedMap ℕ OutputConfig}
    (h : parseOutputs j = .ok outputs) (ch : ℕ) : Mild ((outputs.get? ch).getD {}) := by
  obtain ⟨_, _, h⟩ := Outcome.bind_eq_ok.mp h
  obtain ⟨entries, hentries, h⟩ := Outcome.bind_eq_ok.mp h
  cases h
  cases hget : (SortedMap.ofList entries).get? ch with
  | none => exact mild_default
  | some out =>
    have hmem := SortedMap.mem_ofList (SortedMap.mem_entries_iff.mpr hget)
    obtain ⟨entry, _, hentry⟩ := Outcome.mem_of_forall₂ (Outcome.mapM_eq_ok.mp hentries).flip hmem
    exact mild_of_parseOutput hentry

/-- What an accepted document of NDI settings says. -/
structure Listed (doc : Json) (n : NdiConfig) : Prop where
  groups : ∃ items, Json.get "groups" doc = some items ∧ Lists items n.group.groups
  named : n.group.groups ≠ ""
  servers : ∃ items, Json.get "discovery_servers" doc = some items ∧
    Lists items n.finder.discoveryServerIp
  enabled : n.finder.discoveryServerIp ≠ "" → n.finder.discoveryServerMode = "NDIDisServEn"
  sources : ∃ items, Json.get "off_subnet_sources" doc = some items ∧ Lists items n.offSubnetIps
  tally : Xml.Plain n.tallyMode.toList
  color : Xml.Plain n.colorSpace.toList

theorem listed_of_parseNdi {doc : Json} {n : NdiConfig} (h : parseNdi doc = .ok n) :
    Listed doc n := by
  obtain ⟨_, _, h⟩ := Outcome.bind_eq_ok.mp h
  obtain ⟨servers, hservers, h⟩ := Outcome.bind_eq_ok.mp h
  obtain ⟨ip, hip, h⟩ := Outcome.bind_eq_ok.mp h
  obtain ⟨_, _, h⟩ := Outcome.bind_eq_ok.mp h
  obtain ⟨_, _, h⟩ := Outcome.bind_eq_ok.mp h
  obtain ⟨_, _, h⟩ := Outcome.bind_eq_ok.mp h
  obtain ⟨items, hitems, h⟩ := Outcome.bind_eq_ok.mp h
  obtain ⟨groups, hgroups, h⟩ := Outcome.bind_eq_ok.mp h
  obtain ⟨_, hnamed, h⟩ := Outcome.bind_eq_ok.mp h
  obtain ⟨sources, hsources, h⟩ := Outcome.bind_eq_ok.mp h
  obtain ⟨ips, hips, h⟩ := Outcome.bind_eq_ok.mp h
  obtain ⟨_, _, h⟩ := Outcome.bind_eq_ok.mp h
  obtain ⟨_, _, h⟩ := Outcome.bind_eq_ok.mp h
  cases h
  constructor
  · exact ⟨items, atKey_eq_ok.mp hitems, list_eq_ok hgroups⟩
  · simpa using require_eq_ok.mp hnamed
  · exact ⟨servers, atKey_eq_ok.mp hservers, list_eq_ok hip⟩
  · intro hne
    exact if_neg hne
  · exact ⟨sources, atKey_eq_ok.mp hsources, list_eq_ok hips⟩
  · simp only
    split_ifs
    all_goals exact plain_of_all rfl
  · simp only
    split_ifs
    all_goals exact plain_of_all rfl

/-! ### The configuration -/

variable {narrow : ℚ → ℚ} {c : Config}

theorem document_of {d : Domain} (h : Inv narrow c) (hd : d.name ∈ c.followed) :
    ∃ doc, c.followedConfig.get? d.name = some doc ∧ d.parse narrow doc = .ok (c.view d) := by
  obtain ⟨doc, hdoc⟩ := Option.isSome_iff_exists.mp ((h.followed _).mp hd)
  obtain ⟨e, hname, hparse⟩ := h.documents _ doc hdoc
  obtain rfl := Domain.name_injective hname
  exact ⟨doc, hdoc, hparse⟩

/-- The settings of an output, as a followed document has them. -/
def outputOf (c : Config) (chNum : ℕ) : OutputConfig := (c.outputCache.get? chNum).getD {}

theorem outputs_mild (h : Inv narrow c) (houtputs : "outputs" ∈ c.followed) (chNum : ℕ) :
    Mild (outputOf c chNum) ∧ Xml.Plain c.decoder.screensaverMode.toList := by
  obtain ⟨doc, _, hparse⟩ := @document_of narrow c .outputs h houtputs
  obtain ⟨outputs, hread, hview⟩ := Outcome.map_eq_ok.mp hparse
  obtain ⟨rfl, _, _, hsaver, _⟩ := View.outputs.inj hview
  refine ⟨mild_of_parseOutputs hread chNum, ?_⟩
  have hfirst := (mild_of_parseOutputs hread 1).screensaver
  rw [← hsaver]
  have hsame : (takeOutputs c.outputCache {}).decoder.screensaverMode =
      ((c.outputCache.get? 1).getD {}).screensaverMode := by
    cases hget : c.outputCache.get? 1 <;> simp [takeOutputs, hget]
  rw [hsame]
  exact hfirst

theorem ndi_listed (h : Inv narrow c) (hndi : "ndi" ∈ c.followed) :
    ∃ doc, c.followedConfig.get? "ndi" = some doc ∧
      Listed doc ⟨c.transport, c.finder, c.ndiGroup, c.offSubnetIps, c.decoder.tallyMode,
        c.decoder.colorSpace⟩ := by
  obtain ⟨doc, hdoc, hparse⟩ := @document_of narrow c .ndi h hndi
  obtain ⟨n, hread, hview⟩ := Outcome.map_eq_ok.mp hparse
  have hn := View.ndi.inj hview
  refine ⟨doc, hdoc, ?_⟩
  rw [← hn]
  exact listed_of_parseNdi hread

/-- The texts for an output say what is configured and nothing else. -/
structure SaysConfigured (float : List Char → Option ℚ) (disk : Disk) (env : Surroundings)
    (chNum : ℕ) (connector : String) (c : Config) : Prop where
  metadata : ∃ t, connectMetadata disk c chNum connector = .ok t ∧
    Xml.read t.toList = some (elements c (outputOf c chNum) connector)
  file : Reader.read float (sdkConfig env c).toList = some (settings env c)
  lists : ∃ doc groups servers sources, c.followedConfig.get? "ndi" = some doc ∧
    (Json.get "groups" doc = some groups ∧ Lists groups (groupsOf c)) ∧
    (Json.get "discovery_servers" doc = some servers ∧ Lists servers (discoveryOf c)) ∧
    (Json.get "off_subnet_sources" doc = some sources ∧ Lists sources c.offSubnetIps)

/-- The texts that go into the metadata as they are. -/
def texts (c : Config) (chNum : ℕ) (connector : String) : List String :=
  [c.device.ndiRecvName, aliasOf (outputOf c chNum) connector, connector, c.ndiGroup.groups]

theorem connectMetadata_eq (disk : Disk) (houtputs : "outputs" ∈ c.followed) (chNum : ℕ)
    (connector : String) : connectMetadata disk c chNum connector =
      .ok (metadata c (outputOf c chNum) connector) := by
  have hfollows : c.follows "outputs" = true := decide_eq_true houtputs
  unfold connectMetadata getOutput outputOf
  cases c.outputCache.get? chNum with
  | none => simp [hfollows, Outcome.bind_ok]
  | some out => rfl

/-- A name of a tag or of an attribute. -/
def isName (s : String) : Bool :=
  s.toList.head?.any Xml.isNameStart && s.toList.all Xml.isNameChar

theorem isName_text {s : String} (h : isName s = true) : Xml.IsName s.toList := by
  obtain ⟨hstart, hchars⟩ := Bool.and_eq_true_iff.mp h
  refine ⟨?_, List.all_eq_true.mp hchars⟩
  cases hhead : s.toList.head? with
  | none => simp [hhead] at hstart
  | some c => exact ⟨c, rfl, by simpa [hhead] using hstart⟩

theorem formed_element {name : String} {attributes : List (String × String)} (keys : List String)
    (hkeys : attributes.map Prod.fst = keys) (hname : isName name = true)
    (hnames : keys.all isName = true) (hnodup : keys.Nodup) :
    Xml.Formed (xmlElement name attributes) where
  name := isName_text hname
  names := by
    intro a ha
    obtain ⟨b, hb, rfl⟩ := List.mem_map.mp ha
    rw [← hkeys] at hnames
    exact isName_text (List.all_eq_true.mp hnames b.1 (List.mem_map_of_mem hb))
  nodup := by
    rw [← hkeys] at hnodup
    have hmap : ((attributes.map Prod.fst).map String.toList).Nodup :=
      hnodup.map fun _ _ => String.toList_inj.mp
    simpa [xmlElement, Function.comp_def] using hmap

theorem elements_formed (c : Config) (out : OutputConfig) (connector : String) :
    ∀ e ∈ elements c out connector, Xml.Formed e := by
  intro e he
  simp only [elements, List.mem_cons, List.not_mem_nil, or_false] at he
  rcases he with rfl | rfl | rfl | rfl
  · exact formed_element ["long_name", "short_name", "manufacturer", "model", "session", "serial"]
      rfl (by decide) (by decide) (by decide)
  · exact formed_element ["enabled", "channels", "sample_rate", "bit_depth"] rfl
      (by decide) (by decide) (by decide)
  · exact formed_element ["output", "connector", "scale_mode"] rfl
      (by decide) (by decide) (by decide)
  · exact formed_element ["tally", "screensaver", "color_space", "ndi_group", "tally_on"] rfl
      (by decide) (by decide) (by decide)

theorem plain_flag (b : Bool) : Xml.Plain (flag b).toList := by
  cases b
  · exact plain_of_all rfl
  · exact plain_of_all rfl

theorem read_metadata_iff (h : Inv narrow c) (houtputs : "outputs" ∈ c.followed)
    (hndi : "ndi" ∈ c.followed) (chNum : ℕ) (connector : String) :
    Xml.read (metadata c (outputOf c chNum) connector).toList =
        some (elements c (outputOf c chNum) connector) ↔
      ∀ s ∈ texts c chNum connector, Xml.Plain s.toList := by
  obtain ⟨hmild, hsaver⟩ := outputs_mild h houtputs chNum
  obtain ⟨doc, _, hlisted⟩ := ndi_listed h hndi
  rw [toList_metadata, Xml.read_text_iff (elements_formed c _ connector)]
  simp only [elements, texts, List.forall_mem_cons, xmlElement, List.map_cons, List.map_nil]
  have hmaker : Xml.Plain "NDI Decoder".toList := plain_of_all rfl
  have hchannels : Xml.Plain "2".toList := plain_of_all rfl
  have hrate : Xml.Plain "48000".toList := plain_of_all rfl
  have hdepth : Xml.Plain "32".toList := plain_of_all rfl
  constructor
  · rintro ⟨⟨hname, halias, -⟩, -, ⟨-, hconnector, -⟩, ⟨-, -, -, hgroups, -⟩, -⟩
    exact ⟨hname, halias, hconnector, hgroups, List.forall_mem_nil _⟩
  · rintro ⟨hname, halias, hconnector, hgroups, -⟩
    exact ⟨⟨hname, halias, hmaker, hmaker, halias, hname, List.forall_mem_nil _⟩,
      ⟨plain_flag _, hchannels, hrate, hdepth, List.forall_mem_nil _⟩,
      ⟨hmild.mode, hconnector, hmild.scaleMode, List.forall_mem_nil _⟩,
      ⟨hlisted.tally, hsaver, hlisted.color, hgroups, plain_flag _, List.forall_mem_nil _⟩,
      List.forall_mem_nil _⟩

theorem lists_said (h : Inv narrow c) (hndi : "ndi" ∈ c.followed) :
    ∃ doc groups servers sources, c.followedConfig.get? "ndi" = some doc ∧
      (Json.get "groups" doc = some groups ∧ Lists groups (groupsOf c)) ∧
      (Json.get "discovery_servers" doc = some servers ∧ Lists servers (discoveryOf c)) ∧
      (Json.get "off_subnet_sources" doc = some sources ∧ Lists sources c.offSubnetIps) := by
  obtain ⟨doc, hdoc, hlisted⟩ := ndi_listed h hndi
  obtain ⟨groups, hgroups, hgroupsSaid⟩ := hlisted.groups
  obtain ⟨servers, hservers, hserversSaid⟩ := hlisted.servers
  obtain ⟨sources, hsources, hsourcesSaid⟩ := hlisted.sources
  refine ⟨doc, groups, servers, sources, hdoc, ⟨hgroups, ?_⟩, ⟨hservers, ?_⟩, hsources,
    hsourcesSaid⟩
  · rw [groupsOf, if_neg hlisted.named]
    exact hgroupsSaid
  · have hsame : discoveryOf c = c.finder.discoveryServerIp := by
      unfold discoveryOf
      split_ifs with henabled
      · rfl
      · by_contra hne
        exact henabled ⟨hlisted.enabled (Ne.symm hne), Ne.symm hne⟩
    rw [hsame]
    exact hserversSaid

/-- In every run, the texts for an output say what is configured exactly where those that go into
the metadata as they are have no character that XML reads otherwise. -/
theorem says_configured_iff (narrow : ℚ → ℚ) (float : List Char → Option ℚ) (ops : List Op)
    (disk : Disk) {env : Surroundings} (sound : env.Sound) (chNum : ℕ) (connector : String)
    (houtputs : "outputs" ∈ (after narrow ops).followed)
    (hndi : "ndi" ∈ (after narrow ops).followed) :
    SaysConfigured float disk env chNum connector (after narrow ops) ↔
      ∀ s ∈ texts (after narrow ops) chNum connector, Xml.Plain s.toList := by
  have hinv : Inv narrow (after narrow ops) := inv_after ops
  rw [← read_metadata_iff hinv houtputs hndi]
  constructor
  · intro hsays
    obtain ⟨t, ht, hread⟩ := hsays.metadata
    rw [connectMetadata_eq disk houtputs] at ht
    cases ht
    exact hread
  · intro hread
    exact ⟨⟨_, connectMetadata_eq disk houtputs chNum connector, hread⟩, sdkConfig_reads sound _,
      lists_said hinv hndi⟩

def deviceDocument (name : String) : Json :=
  .obj [("about", .obj [("device_name", .str "")]), ("decode_mode", .str "auto"),
    ("hostname", .str ""), ("mode", .str "decode"), ("ndi_alias", .str name)]

def ndiDocument : Json :=
  .obj [("color_space", .str "yuv"), ("discovery_servers", .arr [.str "10.0.0.5"]),
    ("groups", .arr [.str "public", .str "studio"]), ("off_subnet_sources", .arr []),
    ("receive", .str "rudp"), ("tally", .str "on")]

/-- What a request for a device of a name supplies. -/
def namedRequest (name : String) : Json :=
  .obj [("config", .obj [("device", deviceDocument name), ("ndi", ndiDocument),
    ("outputs", .obj [])]), ("revision", .int 1)]

def plainlyNamed : List Op := [.apply ⟨namedRequest "Studio 1", by decide⟩ none]

def withAmpersand : List Op := [.apply ⟨namedRequest "Studio A & B", by decide⟩ none]

/-- Nothing selected and no directory for logs. -/
def bare : Surroundings := ⟨none, fun _ => "", none⟩

theorem bare_sound : bare.Sound where
  dotted := fun _ => rfl
  path := nofun

theorem plainlyNamed_texts : texts (after id plainlyNamed) 1 "HDMI-A-1" =
    ["Studio 1", "HDMI-1", "HDMI-A-1", "public,studio"] := by decide

theorem plainlyNamed_says :
    SaysConfigured (fun _ => none) (fun _ => .null) bare 1 "HDMI-A-1" (after id plainlyNamed) := by
  refine (says_configured_iff id (fun _ => none) plainlyNamed (fun _ => .null) bare_sound 1
    "HDMI-A-1" (by decide) (by decide)).mpr ?_
  rw [plainlyNamed_texts]
  have hall : ["Studio 1", "HDMI-1", "HDMI-A-1", "public,studio"].all
      (fun s => s.toList.all Xml.isPlain) = true := by decide
  intro s hs
  exact plain_of_all (List.all_eq_true.mp hall s hs)

/-- A device with an ampersand in its name sends metadata that is no XML. -/
theorem ampersand_misread : ¬ SaysConfigured (fun _ => none) (fun _ => .null) bare 1 "HDMI-A-1"
    (after id withAmpersand) := by
  intro hsays
  obtain ⟨t, ht, hread⟩ := hsays.metadata
  have houtputs : "outputs" ∈ (after id withAmpersand).followed := by decide
  have hndi : "ndi" ∈ (after id withAmpersand).followed := by decide
  rw [connectMetadata_eq _ houtputs] at ht
  cases ht
  have hplain := (read_metadata_iff (inv_after withAmpersand) houtputs hndi 1 "HDMI-A-1").mp hread
  have hname : (after id withAmpersand).device.ndiRecvName = "Studio A & B" := by decide
  have hchar := hplain "Studio A & B" (hname ▸ List.mem_cons_self) '&' (by decide)
  cases hchar

end SdkText

end NdimonR.Decoder
