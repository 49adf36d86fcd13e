import NdimonR.Library.Outcome
import NdimonR.Plugins.Versions
import NdimonR.Privd.Manifest
import NdimonR.Release.Manifest
import Mathlib.Data.Set.Function

/-! Plugin archives in a feed. A release listing names its archives, and the name is all that says
which plugin and which version an archive holds. -/

namespace NdimonR.Plugins

open Text Privd

/-- The Debian names of the devices that install plugins. -/
def archiveArchitectures : List String := ["amd64", "arm64"]

def archiveName (plugin version arch : String) : String :=
  plugin ++ "-plugin_" ++ replace '~' '-' version ++ ("_" ++ arch ++ ".tar.gz")

def parseArchiveName (file arch : String) : Option (String × String) := do
  let (name, suffix) ← splitOnce "-plugin_" file
  let version ← stripSuffix ("_" ++ arch ++ ".tar.gz") suffix
  some (name, version)

/-- What a feed is read through: the bounded fetch of an address, the JSON reader and the rule
for addresses. -/
structure FeedHost where
  architecture : String
  read : String → Nat → Except String Release.Bytes
  fromSlice : Release.Bytes → Option Json
  url : String → Except String Unit

def asText (error : String) : Json → Except String String
  | .str s => .ok s
  | _ => .error error

def checksums (text : String) : List (String × String) :=
  (lines text).filterMap fun line =>
    match splitWhitespace line with
    | hash :: name :: _ => some (hash, trimStartMatches '*' name)
    | _ => none

def feedEntry (name version hash : String) (asset : Json) : Json :=
  .obj [("asset_url", asset.member "browser_download_url"), ("name", .str name),
    ("sha256", .str (toAsciiLowercase hash)),
    ("size", match asset with
      | .obj members => (SortedMap.lookup "size" members).getD (.int 0)
      | _ => .int 0),
    ("version", .str version)]

/-- An asset is offered if it is an archive for this architecture and its checksum is listed. -/
def assetEntry (arch : String) (sums : List (String × String)) (asset : Json) : Option Json :=
  match asset.member "name" with
  | .str file =>
    (parseArchiveName file arch).bind fun (name, version) =>
      (sums.find? (·.2 == file)).map fun (hash, _) => feedEntry name version hash asset
  | _ => none

namespace FeedHost

variable (host : FeedHost)

def release (release : Json) : Except String (List Json) :=
  match release.member "assets" with
  | .arr assets =>
    match assets.find? fun a => a.member "name" == .str "SHA256SUMS" with
    | none => .ok []
    | some sums => do
      let target ← asText "invalid checksum URL" (sums.member "browser_download_url")
      let bytes ← host.read target (1024 * 1024)
      match Release.fromUtf8 bytes with
      | none => .error "invalid utf-8"
      | some text => .ok (assets.filterMap (assetEntry host.architecture (checksums text)))
  | _ => .ok []

/-- An entry of a directory index, without its architecture. -/
def indexEntry (entry : Json) : Except String (List Json) :=
  match entry with
  | .obj members =>
    if (SortedMap.lookup "arch" members).all (· == .str host.architecture) then
      .ok [.obj (members.filter (·.1 ≠ "arch"))]
    else .ok []
  | _ => .error "invalid feed entry"

def checkEntry (p : Json) : Except String Unit := do
  let name ← asText "invalid feed entry" (p.member "name")
  let version ← asText "invalid feed entry" (p.member "version")
  let hash ← asText "invalid feed entry" (p.member "sha256")
  if !plugin name || !debianVersion version || len hash ≠ 64 || !all isAsciiHexdigit hash then
    .error "invalid feed entry"
  else do
    let target ← asText "invalid feed entry" (p.member "asset_url")
    host.url target

def versionOf (p : Json) : String :=
  match p.member "version" with
  | .str version => version
  | _ => ""

/-- Newest first; entries of one version keep their order. -/
def newestFirst (plugins : List Json) : List Json :=
  plugins.mergeSort fun a b => compareVersions (versionOf b) (versionOf a) != .gt

def fetchFeed (target : String) : Except String (List Json) := do
  let bytes ← host.read target (8 * 1024 * 1024)
  let plugins ← match host.fromSlice bytes with
    | none => .error "feed is not JSON"
    | some (.arr releases) => (releases.mapM host.release).map List.flatten
    | some doc =>
      match doc.member "plugins" with
      | .arr entries => (entries.mapM host.indexEntry).map List.flatten
      | _ => .error "invalid feed shape"
  plugins.forM host.checkEntry
  .ok (newestFirst plugins)

/-- The feed's document has a release that names the file and the checksum of the file. -/
def Lists (target file : String) : Prop :=
  ∃ bytes releases release assets sums address listed text asset,
    host.read target (8 * 1024 * 1024) = .ok bytes ∧
    host.fromSlice bytes = some (.arr releases) ∧ release ∈ releases ∧
    release.member "assets" = .arr assets ∧
    assets.find? (fun a => a.member "name" == .str "SHA256SUMS") = some sums ∧
    sums.member "browser_download_url" = .str address ∧
    host.read address (1024 * 1024) = .ok listed ∧ Release.fromUtf8 listed = some text ∧
    asset ∈ assets ∧ asset.member "name" = .str file ∧ file ∈ (checksums text).map Prod.snd

variable {host}

/-- A listed archive of this architecture is reported under what its name says. -/
theorem fetchFeed_reports {target file name version : String} {entries : List Json}
    (hfetch : host.fetchFeed target = .ok entries) (hlists : host.Lists target file)
    (hparse : parseArchiveName file host.architecture = some (name, version)) :
    ∃ e ∈ entries, e.member "name" = .str name ∧ e.member "version" = .str version := by
  obtain ⟨bytes, releases, release, assets, sums, address, listed, text, asset, hread, hdoc,
    hrelease, hassets, hsums, haddress, hlisted, htext, hasset, hfile, hnamed⟩ := hlists
  obtain ⟨⟨hash, _⟩, hsum⟩ : ∃ pair, (checksums text).find? (·.2 == file) = some pair := by
    obtain ⟨pair, hpair, hsnd⟩ := List.mem_map.mp hnamed
    exact Option.isSome_iff_exists.mp
      (List.find?_isSome.mpr ⟨pair, hpair, beq_iff_eq.mpr hsnd⟩)
  have hentry : assetEntry host.architecture (checksums text) asset =
      some (feedEntry name version hash asset) := by
    simp [assetEntry, hfile, hparse, hsum]
  have hkept : host.release release =
      .ok (assets.filterMap (assetEntry host.architecture (checksums text))) := by
    simp only [FeedHost.release, hassets, hsums, haddress, asText, bind, Except.bind, hlisted, htext]
  simp only [fetchFeed, hread, hdoc, bind, Except.bind] at hfetch
  cases hmap : releases.mapM host.release with
  | error e => simp [hmap, Except.map] at hfetch
  | ok lists =>
    simp only [hmap, Except.map] at hfetch
    split at hfetch
    · cases hfetch
    · cases hfetch
      obtain ⟨own, hown, hrel⟩ := Outcome.mem_of_forall₂ (Outcome.mapM_eq_ok.mp hmap) hrelease
      rw [hkept] at hrel
      cases hrel
      refine ⟨feedEntry name version hash asset, ?_, rfl, rfl⟩
      rw [newestFirst, List.mem_mergeSort, List.mem_flatten]
      exact ⟨_, hown, List.mem_filterMap.mpr ⟨asset, hasset, hentry⟩⟩

end FeedHost

/-- The entry a request picks: of the name, and of the version if it asks for one. -/
def requestedEntry (plugins : List Json) (name : String) (version : Json) : Option Json :=
  plugins.find? fun p =>
    p.member "name" == .str name && (version == .null || version == p.member "version")

/-- The version the archive of an entry is inspected for. -/
def expectedVersion (entry : Json) : Option DebianVersion :=
  match entry.member "version" with
  | .str version => if h : debianVersion version = true then some ⟨version, h⟩ else none
  | _ => none

theorem plugin_no_underscore (name : PluginName) : '_' ∉ name.val.toList := by
  intro hc
  have h := name.2
  simp only [plugin, all, Bool.and_eq_true, List.all_eq_true] at h
  exact absurd (h.2 _ hc) (by decide)

theorem splitOnce_marker (name : PluginName) (suffix : String) :
    splitOnce "-plugin_" (name.val ++ "-plugin_" ++ suffix) = some (name.val, suffix) := by
  have hmark : '_' ∉ "-plugin".toList := by decide
  have hcut := cut_append suffix.toList (plugin_no_underscore name) hmark
  have hlit : "-plugin_".toList = "-plugin".toList ++ ['_'] := by decide
  rw [splitOnce, String.toList_append, String.toList_append, hlit, hcut]
  simp

theorem parseArchiveName_archiveName (name : PluginName) (version arch other : String) :
    parseArchiveName (archiveName name version arch) other =
      (stripSuffix ("_" ++ other ++ ".tar.gz")
        (replace '~' '-' version ++ ("_" ++ arch ++ ".tar.gz"))).map fun v => (name.val, v) := by
  have hfile : archiveName name version arch = name.val ++ "-plugin_" ++
      (replace '~' '-' version ++ ("_" ++ arch ++ ".tar.gz")) := by
    simp only [archiveName, String.append_assoc]
  rw [parseArchiveName, hfile, splitOnce_marker]
  simp only [Option.bind_eq_bind, Option.bind_some]
  cases stripSuffix ("_" ++ other ++ ".tar.gz")
    (replace '~' '-' version ++ ("_" ++ arch ++ ".tar.gz")) <;> rfl

/-- What an archive name says: the plugin, and the version with its `~` replaced. -/
theorem parse_own (name : PluginName) (version arch : String) :
    parseArchiveName (archiveName name version arch) arch =
      some (name.val, replace '~' '-' version) := by
  rw [parseArchiveName_archiveName, stripSuffix_append]
  rfl

theorem parse_other (name : PluginName) (version : String) {arch other : String}
    (ha : arch ∈ archiveArchitectures) (ho : other ∈ archiveArchitectures) (hne : other ≠ arch) :
    parseArchiveName (archiveName name version arch) other = none := by
  have hends : ∀ (v : String), ∀ a ∈ archiveArchitectures, ∀ b ∈ archiveArchitectures, b ≠ a →
      stripSuffix ("_" ++ b ++ ".tar.gz") (v ++ ("_" ++ a ++ ".tar.gz")) = none := by
    intro v a ha b hb hba
    have hlen : ∀ c ∈ archiveArchitectures, ("_" ++ c ++ ".tar.gz").toList.length = 13 := by
      decide
    rw [stripSuffix, if_neg]
    rw [List.isSuffixOf_iff_suffix]
    rintro ⟨t, ht⟩
    have ht : t ++ ("_" ++ b ++ ".tar.gz").toList = v.toList ++ ("_" ++ a ++ ".tar.gz").toList := by
      rw [ht, ← String.toList_append]
    obtain ⟨-, h⟩ := List.append_inj' ht ((hlen b hb).trans (hlen a ha).symm)
    have hs := String.toList_inj.mp h
    apply hba
    simpa using hs
  rw [parseArchiveName_archiveName, hends _ _ ha _ ho hne]
  rfl

/-- Two archives share a name only where the substitution makes their versions one. -/
theorem archiveName_inj {n m : PluginName} {v w a b : String} (ha : a ∈ archiveArchitectures)
    (hb : b ∈ archiveArchitectures) (h : archiveName n v a = archiveName m w b) :
    n = m ∧ replace '~' '-' v = replace '~' '-' w ∧ a = b := by
  have hab : a = b := by
    by_contra hne
    have hown := parse_own n v a
    rw [h, parse_other m w hb ha hne] at hown
    cases hown
  subst hab
  have hown := (parse_own n v a).symm
  rw [h, parse_own m w a] at hown
  simp only [Option.some.injEq, Prod.mk.injEq] at hown
  exact ⟨Subtype.ext hown.1, hown.2, rfl⟩

/-- A published archive. -/
structure Archive where
  plugin : PluginName
  version : DebianVersion
  architecture : { arch : String // arch ∈ archiveArchitectures }

namespace Archive

def file (p : Archive) : String := archiveName p.plugin p.version p.architecture

/-- The version a feed reports, as the requests that inspect and install an archive take it. -/
def reported (p : Archive) : Option DebianVersion :=
  (parseArchiveName p.file p.architecture).bind fun (_, version) =>
    if h : debianVersion version = true then some ⟨version, h⟩ else none

/-- A device of the architecture can install what a feed offers as this archive. -/
structure Installable (floatLen : ℚ → Nat) (p : Archive) : Prop where
  named : (parseArchiveName p.file p.architecture).map Prod.fst = some p.plugin.val
  elsewhere : ∀ other ∈ archiveArchitectures, other ≠ p.architecture →
    parseArchiveName p.file other = none
  accepted : ∃ version, p.reported = some version ∧ ∀ m : Manifest, m.name = p.plugin →
    m.version = p.version → m.validate floatLen p.plugin none = .ok () →
    m.validate floatLen p.plugin (some version) = .ok ()
  ordered : ∃ version, p.reported = some version ∧ ∀ installed : DebianVersion,
    compareVersions version installed = compareVersions p.version installed

def Plain (p : Archive) : Prop := '~' ∉ p.version.val.toList

theorem debianVersion_replace {v : String} (h : debianVersion v = true) :
    debianVersion (replace '~' '-' v) = true := by
  have hlen := len_replace (c := '~') (d := '-') (by decide) v
  simp only [debianVersion, Bool.and_eq_true, decide_eq_true_eq, hlen] at h ⊢
  obtain ⟨⟨⟨hne, hshort⟩, hstart⟩, hall⟩ := h
  refine ⟨⟨⟨?_, hshort⟩, ?_⟩, ?_⟩
  · intro he
    apply hne
    simpa [replace] using congrArg String.toList he
  · cases hv : v.toList with
    | nil => simp [startsWith, hv] at hstart
    | cons c rest =>
      have hc : isAsciiDigit c = true := by simpa [startsWith, hv] using hstart
      have hne : c ≠ '~' := by
        rintro rfl
        exact absurd hc (by decide)
      simpa [startsWith, toList_replace, hv, hne] using hc
  · simp only [all, toList_replace, List.all_map, List.all_eq_true] at hall ⊢
    intro c hc
    by_cases htilde : c = '~'
    · rw [Function.comp_apply, if_pos htilde]
      decide
    · rw [Function.comp_apply, if_neg htilde]
      exact hall c hc

theorem reported_eq (p : Archive) : p.reported =
    some ⟨replace '~' '-' p.version.val, debianVersion_replace p.version.2⟩ := by
  simp only [reported, file, parse_own, Option.bind_some]
  exact dif_pos (debianVersion_replace p.version.2)

/-- A manifest of a name and a version that declares nothing. -/
def plainManifest (name : PluginName) (version : DebianVersion) : Manifest where
  name := name
  version := version
  title := "Plugin"
  minNdimon := version

theorem plainManifest_valid (floatLen : ℚ → Nat) (name : PluginName) (version : DebianVersion) :
    (plainManifest name version).validate floatLen name none = .ok () := by
  rw [Manifest.validate_ok_iff]
  have htitle : 1 ≤ chars "Plugin" ∧ chars "Plugin" ≤ 40 := by decide
  have hicon : Manifest.iconRefused "bi-puzzle" = false := by decide
  have hfiles : ∀ s ∈ ["routes.js", "ui.html", "install.sh", "uninstall.sh", "backup.js"],
      simpleFile s = true := by decide
  refine ⟨rfl, by simp, htitle, hicon, hfiles, ?_⟩
  simp [plainManifest, Manifest.validateProcess, SortedMap.isEmpty, SortedMap.empty]

theorem ascii_of_debianVersion (v : DebianVersion) : ∀ c ∈ v.val.toList, c.toNat < 128 := by
  intro c hc
  have h := v.2
  simp only [debianVersion, all, Bool.and_eq_true, List.all_eq_true] at h
  have hc := h.2 c hc
  simp only [isAsciiAlphanumeric, isAsciiAlphabetic, isAsciiLowercase, isAsciiUppercase,
    isAsciiDigit, Bool.or_eq_true, Bool.and_eq_true, decide_eq_true_eq, List.contains_iff_mem,
    Char.le_def, UInt32.le_iff_toNat_le] at hc
  rcases hc with ((hc | hc) | hc) | hc
  · exact Nat.lt_of_le_of_lt hc.2 (by decide)
  · exact Nat.lt_of_le_of_lt hc.2 (by decide)
  · exact Nat.lt_of_le_of_lt hc.2 (by decide)
  · exact forall_chars (p := fun c => c.toNat < 128) (by decide) c hc

theorem tildes_version (v : DebianVersion) : tildes (bytes v.val) = v.val.toList.count '~' :=
  tildes_bytes (ascii_of_debianVersion v)

theorem count_replace (s : String) : (replace '~' '-' s).toList.count '~' = 0 := by
  rw [toList_replace, List.count_eq_zero]
  intro h
  obtain ⟨c, -, hc⟩ := List.mem_map.mp h
  split at hc
  · cases hc
  · contradiction

/-- The installer accepts the version a feed reports only if the substitution left it alone. -/
theorem accepted_iff (floatLen : ℚ → Nat) (p : Archive) :
    (∃ version, p.reported = some version ∧ ∀ m : Manifest, m.name = p.plugin →
      m.version = p.version → m.validate floatLen p.plugin none = .ok () →
      m.validate floatLen p.plugin (some version) = .ok ()) ↔ p.Plain := by
  constructor
  · rintro ⟨version, hreported, h⟩ htilde
    have hvalid := h (plainManifest p.plugin p.version) rfl rfl
      (plainManifest_valid floatLen p.plugin p.version)
    obtain ⟨-, hsame, -⟩ := Manifest.validate_ok_iff.mp hvalid
    have hversion : version = p.version := hsame version rfl
    rw [reported_eq, Option.some.injEq, hversion] at hreported
    have hcount := count_replace p.version.val
    have htext : replace '~' '-' p.version.val = p.version.val := congrArg Subtype.val hreported
    rw [htext, List.count_eq_zero] at hcount
    exact hcount htilde
  · intro hplain
    refine ⟨_, reported_eq p, fun m hname hversion hvalid => ?_⟩
    have hsame := replace_of_not_mem (d := '-') hplain
    rw [Manifest.validate_ok_iff] at hvalid ⊢
    obtain ⟨hn, -, hrest⟩ := hvalid
    refine ⟨hn, ?_, hrest⟩
    rintro v ⟨⟩
    exact Subtype.ext (hsame.trans (congrArg Subtype.val hversion).symm)

theorem ordered_iff (p : Archive) :
    (∃ version, p.reported = some version ∧ ∀ installed : DebianVersion,
      compareVersions version installed = compareVersions p.version installed) ↔ p.Plain := by
  constructor
  · rintro ⟨version, hreported, h⟩ htilde
    have hrank := (h p.version).trans (compareVersions_self p.version.val)
    have hcount := tildes_eq_of_compareVersions hrank
    rw [tildes_version, tildes_version] at hcount
    rw [reported_eq, Option.some.injEq] at hreported
    have htext : replace '~' '-' p.version.val = version.val := congrArg Subtype.val hreported
    rw [← htext, count_replace] at hcount
    exact List.count_eq_zero.mp hcount.symm htilde
  · intro hplain
    refine ⟨_, reported_eq p, fun installed => ?_⟩
    change compareVersions (replace '~' '-' p.version.val) installed = _
    rw [replace_of_not_mem hplain]

theorem installable_iff (floatLen : ℚ → Nat) (p : Archive) :
    p.Installable floatLen ↔ p.Plain := by
  constructor
  · intro h
    exact (accepted_iff floatLen p).mp h.accepted
  · intro h
    exact {
      named := by rw [file, parse_own]; rfl
      elsewhere := fun other ho hne => parse_other _ _ p.architecture.2 ho hne
      accepted := (accepted_iff floatLen p).mpr h
      ordered := (ordered_iff p).mpr h }

/-- Every published archive can be installed, and no two share a name, exactly when no version
that is published contains a tilde. -/
theorem published_installable_iff (floatLen : ℚ → Nat) (published : Set Archive) :
    ((∀ p ∈ published, p.Installable floatLen) ∧ Set.InjOn file published) ↔
      ∀ p ∈ published, p.Plain := by
  constructor
  · rintro ⟨h, -⟩ p hp
    exact (installable_iff floatLen p).mp (h p hp)
  · intro h
    refine ⟨fun p hp => (installable_iff floatLen p).mpr (h p hp), ?_⟩
    intro p hp q hq hfile
    obtain ⟨hn, hv, ha⟩ := archiveName_inj p.architecture.2 q.architecture.2 hfile
    rw [replace_of_not_mem (h p hp), replace_of_not_mem (h q hq)] at hv
    cases p
    cases q
    simp_all [Subtype.ext_iff]

/-- A request for a listed archive, at the version the feed shows, picks an entry that is
inspected for that version. -/
theorem fetchFeed_reported {host : FeedHost} {target : String} {entries : List Json} {p : Archive}
    (hfetch : host.fetchFeed target = .ok entries) (hlists : host.Lists target p.file)
    (harch : host.architecture = p.architecture) :
    ∃ e, requestedEntry entries p.plugin.val (.str (replace '~' '-' p.version.val)) = some e ∧
      expectedVersion e = p.reported := by
  have hparse := parse_own p.plugin p.version.val p.architecture
  rw [← harch] at hparse
  obtain ⟨e, he, hname, hversion⟩ := FeedHost.fetchFeed_reports hfetch (harch ▸ hlists) hparse
  obtain ⟨picked, hpicked⟩ : ∃ picked, requestedEntry entries p.plugin.val
      (.str (replace '~' '-' p.version.val)) = some picked := by
    apply Option.isSome_iff_exists.mp
    exact List.find?_isSome.mpr ⟨e, he, by simp [hname, hversion]⟩
  have hsame := List.find?_some hpicked
  simp only [Bool.and_eq_true, Bool.or_eq_true, beq_iff_eq, reduceCtorEq, false_or] at hsame
  refine ⟨picked, hpicked, ?_⟩
  rw [reported_eq, expectedVersion, ← hsame.2]
  exact dif_pos (debianVersion_replace p.version.2)

def beta : Archive :=
  ⟨⟨"clock", by decide⟩, ⟨"1.2.0~beta", by decide⟩, ⟨"amd64", by decide⟩⟩

/-- The installer refuses a beta for the version its archive name says, and another release has
the same archive name. -/
theorem beta_not_installable :
    (∀ floatLen : ℚ → Nat, ¬ beta.Installable floatLen) ∧ ¬ Function.Injective file := by
  constructor
  · intro floatLen h
    exact (installable_iff floatLen beta).mp h (by decide)
  · intro h
    have hsame := @h beta { beta with version := ⟨"1.2.0-beta", by decide⟩ } (by decide)
    exact absurd (congrArg (fun p => p.version.val) hsame) (by decide)

end Archive

end NdimonR.Plugins
