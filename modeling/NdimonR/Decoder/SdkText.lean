import NdimonR.Decoder.WholeDomains
import NdimonR.Library.JsonSpaced
import NdimonR.Library.Xml

/-! The texts the decoder gives the NDI SDK: the metadata of a connection and the file of settings,
both put together from strings. -/

namespace NdimonR.Decoder

open Json Text

namespace SdkText

/-! ### The metadata of a connection -/

/-- A DRM connector name as a short label: "HDMI-A-1" is "HDMI-1". -/
def defaultOutputAlias (connector : String) : String :=
  match stripPrefix "HDMI-A-" connector with
  | some number => "HDMI-" ++ number
  | none => connector

def aliasOf (out : OutputConfig) (connector : String) : String :=
  if out.outputAlias = "" then defaultOutputAlias connector else out.outputAlias

def modeOf (out : OutputConfig) : String :=
  if out.preferredMode = "" then "auto" else out.preferredMode

def flag (b : Bool) : String := if b then "true" else "false"

/-- A value put between quotes, as it is. -/
def attr (name value : String) : String := " " ++ name ++ "=\"" ++ value ++ "\""

def tag (name : String) (attributes : List (String × String)) : String :=
  "<" ++ name ++ String.join (attributes.map fun a => attr a.1 a.2) ++ "/>"

def metadata (c : Config) (out : OutputConfig) (connector : String) : String :=
  tag "ndi_product" [("long_name", c.device.ndiRecvName), ("short_name", aliasOf out connector),
    ("manufacturer", "NDI Decoder"), ("model", "NDI Decoder"),
    ("session", aliasOf out connector), ("serial", c.device.ndiRecvName)] ++
  tag "ndi_audio_setup" [("enabled", flag (c.decoder.ndiAudio == "NDIAudioEn")),
    ("channels", "2"), ("sample_rate", "48000"), ("bit_depth", "32")] ++
  tag "ndi_video_setup" [("output", modeOf out), ("connector", connector),
    ("scale_mode", out.scaleMode)] ++
  tag "ndi_general_setup" [("tally", c.decoder.tallyMode),
    ("screensaver", c.decoder.screensaverMode), ("color_space", c.decoder.colorSpace),
    ("ndi_group", c.ndiGroup.groups), ("tally_on", flag (c.decoder.tallyMode == "TallyOn"))]

/-- The metadata that `connect_source` builds for an output. -/
def connectMetadata (disk : Disk) (c : Config) (chNum : Nat) (connector : String) :
    Result String := do
  let (out, c) ← c.getOutput disk chNum
  .ok (metadata c out connector)

/-! ### The file of settings -/

/-- A character inside quotes. -/
def jsonEscape (c : Char) : List Char :=
  if c = '"' then ['\\', '"']
  else if c = '\\' then ['\\', '\\']
  else if c = '\n' then ['\\', 'n']
  else if c = '\r' then ['\\', 'r']
  else if c = '\t' then ['\\', 't']
  else if c.toNat < 32 then ['\\', 'u', '0', '0', hexDigit (c.toNat / 16), hexDigit (c.toNat % 16)]
  else [c]

def escaped (s : String) : String := String.ofList (s.toList.flatMap jsonEscape)

structure TransportKeys where
  rudp : Bool := true
  multicast : Bool := false
  tcp : Bool := false
  unicast : Bool := false

/-- Exactly one transport is enabled; what is not known is the default. -/
def transportKeys (rxpm : String) : TransportKeys :=
  if rxpm = "Multicast" then { multicast := true }
  else if rxpm = "M-TCP" then { rudp := false, tcp := true }
  else if rxpm = "UDP" then { rudp := false, unicast := true }
  else if rxpm = "TCP" then { rudp := false }
  else {}

def transportObject (name : String) (v : Bool) : String :=
  "    \"" ++ name ++ "\": \x7b \"recv\": \x7b \"enable\": " ++ flag v ++ " \x7d \x7d"

def transportJson (rxpm : String) : String :=
  let k := transportKeys rxpm
  transportObject "rudp" k.rudp ++ ",\n" ++ transportObject "multicast" k.multicast ++ ",\n" ++
    transportObject "tcp" k.tcp ++ ",\n" ++ transportObject "unicast" k.unicast ++ "\n"

/-- What the process sees of the system: the interface that a file names where network settings are
not followed, the IPv4 address of an interface that is up, and the directory for logs. -/
structure Surroundings where
  named : Option String
  addressOf : String → String
  logDir : Option String

/-- The address of the selected interface, where one is selected. -/
def selectedAddress (env : Surroundings) (c : Config) : Option String :=
  match c.binding with
  | some b => if b.managed then some (env.addressOf b.ndi) else none
  | none => env.named.map env.addressOf

def popBack (s : String) : String := String.ofList s.toList.dropLast

/-- Quotes and backslashes of a path. -/
def pathEscape (c : Char) : List Char := if c = '"' ∨ c = '\\' then ['\\', c] else [c]

def configTailJson (env : Surroundings) (c : Config) : String :=
  let t := transportJson c.transport.rxpm
  let t := match selectedAddress env c with
    | some address => "    \"adapters\": \x7b \"allowed\": [\"" ++ address ++ "\"] \x7d,\n" ++ t
    | none => t
  match env.logDir with
  | some dir =>
    if dir = "" then t
    else popBack t ++ ",\n    \"log\": \x7b \"enable\": true, \"level\": 5, \"dir\": \"" ++
      String.ofList (dir.toList.flatMap pathEscape) ++ "\" \x7d\n"
  | none => t

def groupsOf (c : Config) : String := if c.ndiGroup.groups = "" then "public" else c.ndiGroup.groups

def discoveryOf (c : Config) : String :=
  if c.finder.discoveryServerMode = "NDIDisServEn" ∧ c.finder.discoveryServerIp ≠ "" then
    c.finder.discoveryServerIp
  else ""

/-- The content that `write_ndi_sdk_config` writes. -/
def sdkConfig (env : Surroundings) (c : Config) : String :=
  "\x7b\n  \"ndi\": \x7b\n    \"groups\": \x7b\n      \"recv\": \"" ++ escaped (groupsOf c) ++
    "\",\n      \"send\": \"" ++ escaped (groupsOf c) ++
    "\"\n    \x7d,\n    \"networks\": \x7b\n      \"ips\": \"" ++ escaped c.offSubnetIps ++
    "\",\n      \"discovery\": \"" ++ escaped (discoveryOf c) ++ "\"\n    \x7d,\n" ++
    configTailJson env c ++ "  \x7d\n\x7d\n"

/-! ### What the texts should say -/

def xmlElement (name : String) (attributes : List (String × String)) : Xml.Element :=
  ⟨name.toList, attributes.map fun a => (a.1.toList, a.2.toList)⟩

/-- The four elements of the metadata. -/
def elements (c : Config) (out : OutputConfig) (connector : String) : List Xml.Element :=
  [xmlElement "ndi_product" [("long_name", c.device.ndiRecvName),
      ("short_name", aliasOf out connector), ("manufacturer", "NDI Decoder"),
      ("model", "NDI Decoder"), ("session", aliasOf out connector),
      ("serial", c.device.ndiRecvName)],
    xmlElement "ndi_audio_setup" [("enabled", flag (c.decoder.ndiAudio == "NDIAudioEn")),
      ("channels", "2"), ("sample_rate", "48000"), ("bit_depth", "32")],
    xmlElement "ndi_video_setup" [("output", modeOf out), ("connector", connector),
      ("scale_mode", out.scaleMode)],
    xmlElement "ndi_general_setup" [("tally", c.decoder.tallyMode),
      ("screensaver", c.decoder.screensaverMode), ("color_space", c.decoder.colorSpace),
      ("ndi_group", c.ndiGroup.groups), ("tally_on", flag (c.decoder.tallyMode == "TallyOn"))]]

def logDirOf (env : Surroundings) : Option String := env.logDir.filter (· ≠ "")

def received (enable : Bool) : Json := ofMembers [("recv", ofMembers [("enable", .bool enable)])]

/-- The settings of the file. -/
def settings (env : Surroundings) (c : Config) : Json :=
  let k := transportKeys c.transport.rxpm
  ofMembers [("ndi", ofMembers (
    ("groups", ofMembers [("recv", .str (groupsOf c)), ("send", .str (groupsOf c))]) ::
    ("networks", ofMembers [("ips", .str c.offSubnetIps), ("discovery", .str (discoveryOf c))]) ::
    (((selectedAddress env c).map fun address =>
        ("adapters", ofMembers [("allowed", .arr [.str address])])).toList ++
      ("rudp", received k.rudp) :: ("multicast", received k.multicast) ::
      ("tcp", received k.tcp) :: ("unicast", received k.unicast) ::
      ((logDirOf env).map fun dir =>
        ("log", ofMembers [("enable", .bool true), ("level", .int 5),
          ("dir", .str dir)])).toList)))]

/-! ### The texts, put together another way -/

theorem toList_attr (name value : String) :
    (attr name value).toList = Xml.attributeText (name.toList, value.toList) := by
  simp [attr, Xml.attributeText]

theorem toList_tag (name : String) (attributes : List (String × String)) :
    (tag name attributes).toList = Xml.elementText (xmlElement name attributes) := by
  have hattributes : (String.join (attributes.map fun a => attr a.1 a.2)).toList =
      (attributes.map fun a => (a.1.toList, a.2.toList)).flatMap Xml.attributeText := by
    induction attributes with
    | nil => rfl
    | cons a as ih =>
      simp only [List.map_cons, List.flatMap_cons, String.join_cons, String.toList_append, ih,
        toList_attr]
  simp [tag, Xml.elementText, xmlElement, hattributes]

theorem toList_metadata (c : Config) (out : OutputConfig) (connector : String) :
    (metadata c out connector).toList = Xml.text (elements c out connector) := by
  simp only [metadata, String.toList_append, toList_tag, elements, Xml.text, List.flatMap_cons,
    List.flatMap_nil, List.append_assoc, List.append_nil]

open Reader

def receivedText (enable : Bool) : String :=
  objectText " " [memberText "recv" (objectText " " [memberText "enable" (flag enable)] " ")] " "

/-- An object of two texts. -/
def textsText (k v k' v' : String) : String :=
  objectText "\n      " [memberText k (inQuotes (escaped v)), memberText k' (inQuotes (escaped v'))]
    "\n    "

def adaptersText (address : String) : String :=
  memberText "adapters" (objectText " " [memberText "allowed" (arrayText [inQuotes address])] " ")

def logText (dir : String) : String :=
  memberText "log" (objectText " " [memberText "enable" "true", memberText "level" "5",
    memberText "dir" (inQuotes (String.ofList (dir.toList.flatMap pathEscape)))] " ")

def transportTexts (rxpm : String) : List String :=
  [memberText "rudp" (receivedText (transportKeys rxpm).rudp),
    memberText "multicast" (receivedText (transportKeys rxpm).multicast),
    memberText "tcp" (receivedText (transportKeys rxpm).tcp),
    memberText "unicast" (receivedText (transportKeys rxpm).unicast)]

/-- The last members of `ndi`, as they are written. -/
def tailTexts (env : Surroundings) (c : Config) : List String :=
  ((selectedAddress env c).map adaptersText).toList ++ transportTexts c.transport.rxpm ++
    ((logDirOf env).map logText).toList

theorem transportObject_eq (name : String) (v : Bool) :
    transportObject name v = "    " ++ memberText name (receivedText v) := by
  apply String.toList_inj.mp
  simp [transportObject, memberText, receivedText, objectText, spaced, inQuotes]

theorem adapters_eq (address : String) : "    \"adapters\": \x7b \"allowed\": [\"" ++ address ++
    "\"] \x7d,\n" = "    " ++ adaptersText address ++ ",\n" := by
  apply String.toList_inj.mp
  simp [adaptersText, memberText, arrayText, objectText, spaced, inQuotes]

theorem log_eq (dir : String) :
    ",\n    \"log\": \x7b \"enable\": true, \"level\": 5, \"dir\": \"" ++
      String.ofList (dir.toList.flatMap pathEscape) ++ "\" \x7d\n" =
    ",\n    " ++ logText dir ++ "\n" := by
  apply String.toList_inj.mp
  simp [logText, memberText, objectText, spaced, inQuotes]

theorem groups_eq (v v' : String) :
    "\x7b\n  \"ndi\": \x7b\n    \"groups\": \x7b\n      \"recv\": \"" ++ escaped v ++
      "\",\n      \"send\": \"" ++ escaped v' ++ "\"\n    \x7d,\n    " =
    "\x7b\n  " ++ inQuotes "ndi" ++ ": \x7b\n    " ++
      memberText "groups" (textsText "recv" v "send" v') ++ ",\n    " := by
  apply String.toList_inj.mp
  simp [textsText, memberText, objectText, spaced, inQuotes]

theorem networks_eq (v v' : String) : "\"networks\": \x7b\n      \"ips\": \"" ++ escaped v ++
    "\",\n      \"discovery\": \"" ++ escaped v' ++ "\"\n    \x7d,\n" =
    memberText "networks" (textsText "ips" v "discovery" v') ++ ",\n" := by
  apply String.toList_inj.mp
  simp [textsText, memberText, objectText, spaced, inQuotes]

theorem popBack_newline (s : String) : popBack (s ++ "\n") = s := by
  apply String.toList_inj.mp
  simp [popBack]

theorem separator_eq : (",\n    " : String) = ",\n" ++ "    " := rfl

/-- Lines with an indented text each. -/
def indented (texts : List String) : String :=
  "    " ++ String.intercalate ",\n    " texts ++ "\n"

theorem indented_cons (t : String) {ts : List String} (h : ts ≠ []) :
    indented (t :: ts) = "    " ++ t ++ ",\n" ++ indented ts := by
  simp only [indented, String.intercalate_cons_of_ne_nil h, separator_eq, String.append_assoc]

theorem indented_append {ts : List String} (t : String) (h : ts ≠ []) :
    indented (ts ++ [t]) = popBack (indented ts) ++ (",\n    " ++ t ++ "\n") := by
  rw [indented, indented, popBack_newline,
    String.intercalate_append_of_ne_nil h (List.cons_ne_nil t []), String.intercalate_singleton]
  simp only [String.append_assoc]

theorem transportJson_eq (rxpm : String) : transportJson rxpm = indented (transportTexts rxpm) := by
  simp only [transportJson, transportTexts, indented, transportObject_eq,
    String.intercalate_cons_cons, String.intercalate_singleton, separator_eq, String.append_assoc]

theorem transportTexts_ne (rxpm : String) : transportTexts rxpm ≠ [] := List.cons_ne_nil _ _

theorem configTailJson_eq (env : Surroundings) (c : Config) :
    configTailJson env c = indented (tailTexts env c) := by
  have hadapters : (match selectedAddress env c with
      | some address => "    \"adapters\": \x7b \"allowed\": [\"" ++ address ++ "\"] \x7d,\n" ++
          transportJson c.transport.rxpm
      | none => transportJson c.transport.rxpm) =
      indented (((selectedAddress env c).map adaptersText).toList ++
        transportTexts c.transport.rxpm) := by
    cases selectedAddress env c with
    | none => exact transportJson_eq _
    | some address =>
      simp only [adapters_eq, transportJson_eq, ← indented_cons _ (transportTexts_ne _)]
      rfl
  have hne : ((selectedAddress env c).map adaptersText).toList ++
      transportTexts c.transport.rxpm ≠ [] :=
    List.append_ne_nil_of_right_ne_nil _ (transportTexts_ne _)
  rw [configTailJson, hadapters, tailTexts]
  cases hdir : env.logDir with
  | none => simp [logDirOf, hdir]
  | some dir =>
    by_cases hempty : dir = ""
    · simp [logDirOf, hdir, hempty, Option.filter]
    · have hlog : logDirOf env = some dir := by simp [logDirOf, hdir, hempty]
      simp only [hlog, if_neg hempty, Option.map_some, Option.toList_some]
      rw [indented_append _ hne, ← log_eq]
      simp only [String.append_assoc]

/-- The text of the file as an object of objects. -/
theorem sdkConfig_eq (env : Surroundings) (c : Config) : sdkConfig env c =
    objectText "\n  " [memberText "ndi" (objectText "\n    "
      (memberText "groups" (textsText "recv" (groupsOf c) "send" (groupsOf c)) ::
        memberText "networks" (textsText "ips" c.offSubnetIps "discovery" (discoveryOf c)) ::
        tailTexts env c) "\n  ")] "\n" ++ "\n" := by
  have htail : tailTexts env c ≠ [] := by
    rw [tailTexts, List.append_assoc]
    exact List.append_ne_nil_of_right_ne_nil _
      (List.append_ne_nil_of_left_ne_nil (transportTexts_ne _) _)
  have hmiddle : ("\"\n    \x7d,\n    \"networks\": \x7b\n      \"ips\": \"" : String) =
      "\"\n    \x7d,\n    " ++ "\"networks\": \x7b\n      \"ips\": \"" := rfl
  have hopening : (": \x7b\n    " : String) = ": " ++ ("\x7b" ++ "\n    ") := rfl
  have hclosing : ("  \x7d\n\x7d\n" : String) =
      "  " ++ ("\x7d" ++ ("\n" ++ ("\x7d" ++ "\n"))) := rfl
  have hfirst : ("\x7b\n  " : String) = "\x7b" ++ "\n  " := rfl
  have hcomma : (",\n    " : String) = "," ++ ("\n" ++ "    ") := rfl
  have hline : (",\n" : String) = "," ++ "\n" := rfl
  have hnewline : ("\n    " : String) = "\n" ++ "    " := rfl
  have hindent : ("\n  " : String) = "\n" ++ "  " := rfl
  calc sdkConfig env c
    _ = "\x7b\n  \"ndi\": \x7b\n    \"groups\": \x7b\n      \"recv\": \"" ++ escaped (groupsOf c) ++
          "\",\n      \"send\": \"" ++ escaped (groupsOf c) ++ "\"\n    \x7d,\n    " ++
        ("\"networks\": \x7b\n      \"ips\": \"" ++ escaped c.offSubnetIps ++
          "\",\n      \"discovery\": \"" ++ escaped (discoveryOf c) ++ "\"\n    \x7d,\n") ++
        (indented (tailTexts env c) ++ "  \x7d\n\x7d\n") := by
      unfold sdkConfig
      rw [configTailJson_eq, hmiddle]
      simp only [String.append_assoc]
    _ = _ := by
      rw [groups_eq, networks_eq, indented, hclosing, hopening, hfirst]
      simp only [objectText, spaced, String.intercalate_singleton, memberText,
        String.intercalate_cons_of_ne_nil (List.cons_ne_nil _ _),
        String.intercalate_cons_of_ne_nil htail, String.append_assoc]
      simp only [hcomma, hline, hnewline, hindent, String.append_assoc]

/-! ### Reading the file -/

theorem jsonEscape_written (c : Char) : Escaped c (jsonEscape c) := by
  unfold jsonEscape
  split_ifs with hquote hslash hn hr ht hcontrol
  · exact .inl ⟨_, rfl, by rw [hquote]; rfl⟩
  · exact .inl ⟨_, rfl, by rw [hslash]; rfl⟩
  · exact .inl ⟨_, rfl, by rw [hn]; rfl⟩
  · exact .inl ⟨_, rfl, by rw [hr]; rfl⟩
  · exact .inl ⟨_, rfl, by rw [ht]; rfl⟩
  · exact .inr (.inl ⟨_, _, rfl, codeUnit_hexDigit hcontrol⟩)
  · exact .inr (.inr ⟨rfl, hquote, hslash, by omega⟩)

theorem pathEscape_written {c : Char} (h : 32 ≤ c.toNat) : Escaped c (pathEscape c) := by
  unfold pathEscape
  split_ifs with hc
  · rcases hc with rfl | rfl
    · exact .inl ⟨_, rfl, rfl⟩
    · exact .inl ⟨_, rfl, rfl⟩
  · obtain ⟨hquote, hslash⟩ := not_or.mp hc
    exact .inr (.inr ⟨rfl, hquote, hslash, h⟩)

/-- Addresses are in dotted form, and no control character stands in a path. -/
structure Surroundings.Sound (env : Surroundings) : Prop where
  dotted : ∀ i, (env.addressOf i).toList.all (fun c => isAsciiDigit c || c = '.') = true
  path : ∀ dir, env.logDir = some dir → ∀ c ∈ dir.toList, 32 ≤ c.toNat

section
variable {float : List Char → Option ℚ} {d : ℕ}

theorem flag_written (b : Bool) : Written float d (flag b).toList (.bool b) := written_bool b

theorem texts_written {k k' : String} (hk : k.toList.all isUnescaped = true)
    (hk' : k'.toList.all isUnescaped = true) (v v' : String) :
    Written float (d + 1) (textsText k v k' v').toList
      (ofMembers [(k, .str v), (k', .str v')]) := by
  have hstring : ∀ s, Written float d (inQuotes (escaped s)).toList (.str s) :=
    fun s => written_string (quoted_written fun c _ => jsonEscape_written c)
  refine object_written rfl rfl ?_
  exact .cons (member_written hk (hstring v)) (.cons (member_written hk' (hstring v')) .nil)

theorem received_written (enable : Bool) :
    Written float (d + 2) (receivedText enable).toList (received enable) := by
  refine object_written rfl rfl (.cons (member_written rfl ?_) .nil)
  exact object_written rfl rfl
    (.cons (member_written rfl (flag_written enable)) .nil)

theorem adapters_written {address : String}
    (h : address.toList.all (fun c => isAsciiDigit c || c = '.') = true) :
    MemberText (Written float (d + 2)) (adaptersText address).toList
      ("adapters", ofMembers [("allowed", .arr [.str address])]) := by
  have hunescaped : address.toList.all isUnescaped = true := by
    rw [List.all_eq_true] at h ⊢
    intro c hc
    have hc := h c hc
    simp only [Bool.or_eq_true, decide_eq_true_eq] at hc
    rcases hc with hc | rfl
    · have hbounds := isAsciiDigit_bounds hc
      have hquote : c ≠ '"' := by
        rintro rfl
        cases hc
      have hslash : c ≠ '\\' := by
        rintro rfl
        cases hc
      simp [isUnescaped, hquote, hslash]
      omega
    · rfl
  refine member_written rfl (object_written rfl rfl ?_)
  refine .cons (member_written rfl (array_written ?_)) .nil
  exact .cons (written_string (quoted_unescaped hunescaped)) .nil

theorem log_written {dir : String} (h : ∀ c ∈ dir.toList, 32 ≤ c.toNat) :
    MemberText (Written float (d + 1)) (logText dir).toList
      ("log", ofMembers [("enable", .bool true), ("level", .int 5), ("dir", .str dir)]) := by
  refine member_written rfl (object_written rfl rfl ?_)
  have hlevel : Written float d "5".toList (.int 5) :=
    written_simple (.inr ⟨by simp, List.all_eq_true.mp rfl, rfl⟩)
  have hdir : Written float d
      (inQuotes (String.ofList (dir.toList.flatMap pathEscape))).toList (.str dir) :=
    written_string (quoted_written fun c hc => pathEscape_written (h c hc))
  exact .cons (member_written rfl (flag_written true)) (.cons (member_written rfl hlevel)
    (.cons (member_written rfl hdir) .nil))

theorem tail_written {env : Surroundings} (sound : env.Sound) (c : Config) :
    List.Forall₂ (fun t e => MemberText (Written float (d + 2)) t.toList e) (tailTexts env c)
      (((selectedAddress env c).map fun address =>
          ("adapters", ofMembers [("allowed", .arr [.str address])])).toList ++
        ("rudp", received (transportKeys c.transport.rxpm).rudp) ::
        ("multicast", received (transportKeys c.transport.rxpm).multicast) ::
        ("tcp", received (transportKeys c.transport.rxpm).tcp) ::
        ("unicast", received (transportKeys c.transport.rxpm).unicast) ::
        ((logDirOf env).map fun dir =>
          ("log", ofMembers [("enable", .bool true), ("level", .int 5),
            ("dir", .str dir)])).toList) := by
  have hadapters : ∀ a, selectedAddress env c = some a →
      a.toList.all (fun c => isAsciiDigit c || c = '.') = true := by
    intro a ha
    unfold selectedAddress at ha
    split at ha
    · split at ha
      · cases ha
        exact sound.dotted _
      · cases ha
    · obtain ⟨i, -, rfl⟩ := Option.map_eq_some_iff.mp ha
      exact sound.dotted i
  have hlog : ∀ dir, logDirOf env = some dir → ∀ c ∈ dir.toList, 32 ≤ c.toNat := by
    intro dir hdir
    exact sound.path dir (Option.filter_eq_some_iff.mp hdir).1
  rw [tailTexts, List.append_assoc]
  refine List.rel_append ?_ (.cons ?_ (.cons ?_ (.cons ?_ (.cons ?_ ?_))))
  · cases ha : selectedAddress env c with
    | none => exact .nil
    | some address => exact .cons (adapters_written (hadapters address ha)) .nil
  case refine_6 =>
    cases hdir : logDirOf env with
    | none => exact .nil
    | some dir => exact .cons (log_written (hlog dir hdir)) .nil
  all_goals exact member_written rfl (received_written _)

/-- The file reads as the settings. -/
theorem sdkConfig_reads {env : Surroundings} (sound : env.Sound) (c : Config) :
    Reader.read float (sdkConfig env c).toList = some (settings env c) := by
  rw [sdkConfig_eq]
  refine read_objectText rfl rfl rfl (.cons (member_written rfl ?_) .nil)
  refine object_written rfl rfl (.cons (member_written rfl (texts_written rfl rfl _ _)) ?_)
  exact .cons (member_written rfl (texts_written rfl rfl _ _)) (tail_written sound c)

end

end SdkText

end NdimonR.Decoder
