import NdimonR.State.ImportTessera
import NdimonR.State.TesseraAgrees

/-! What is written for the Tessera daemon is read back as it was. -/

namespace NdimonR.State.ImportTessera

open NdimonR.Types Text Json Toml Render.Tessera

/-! ### What validation promises -/

theorem plain_of_controls {s : String} (h : controls s = false) : Plain s := by
  rw [controls, Text.any, List.any_eq_false] at h
  intro c hc he
  refine h c hc ?_
  rw [he]
  rfl

theorem plain_of_all {p : Char → Bool} {s : String} (hp : p '\x7f' = false)
    (h : Text.all p s = true) : Plain s := by
  intro c hc he
  have hdel : c = '\x7f' := Char.toNat_inj.mp he
  have hpc := List.all_eq_true.mp h c hc
  rw [hdel, hp] at hpc
  cases hpc

theorem plain_toString (n : Nat) : Plain (toString n) := plain_of_all (by decide) (digits_toString n)

theorem plain_address {s : String} {a : Ipv4Addr} (h : Ipv4Addr.parse s = some a) : Plain s := by
  refine plain_of_all (p := fun c => c = '.' || isAsciiDigit c) (by decide) ?_
  rw [Text.all, List.all_eq_true]
  intro c hc
  simpa using Ipv4Addr.parse_digits h c hc

structure LabelsValid (labels : SortedMap Nat String) : Prop where
  channel : ∀ e ∈ labels.entries, e.1 ≤ 65535
  plain : ∀ e ∈ labels.entries, Plain e.2

structure DeviceValid (d : TesseraDevice) : Prop where
  named : d.name ≠ ""
  plain : Plain d.name
  sampleRate : d.sampleRate ≤ 384000
  encoding : d.encoding ≤ 32
  latencyUs : d.latencyUs ≤ 1000000
  rxChannels : d.rxChannels ≤ 16
  txChannels : d.txChannels ≤ 16
  rxLabels : LabelsValid d.rxLabels
  txLabels : LabelsValid d.txLabels

structure FlowValid (f : TesseraFlow) : Prop where
  id : Plain f.id
  port : f.port ≤ 65535
  anySource : f.anySource = true → f.direction = .rx
  peer : f.anySource = false → ∃ peer, f.peer = some peer ∧ Plain peer
  frames : ∀ n, f.framesPerPacket = some n → n ≤ 1024

/-- Two flows that are not one and do not carry the same stream. -/
def Distinct (x f : TesseraFlow) : Prop :=
  x.id ≠ f.id ∧ (x.direction, x.peer, x.port, x.anySource) ≠ (f.direction, f.peer, f.port, f.anySource)

theorem labels_valid {direction : String} {count : Nat} {labels : SortedMap Nat String}
    (hcount : count ≤ 16)
    (h : (labels.entries.flatMap fun (channel, label) =>
      let path := s!"tessera.device.{direction}_labels.{channel}"
      Validator.range channel 1 count path ++
        Validator.check (len label ≤ 31 && !controls label) path
          "label must be at most 31 UTF-8 bytes without controls") = []) : LabelsValid labels := by
  rw [List.flatMap_eq_nil_iff] at h
  constructor
  · intro e he
    have hlabel := h e he
    simp only [List.append_eq_nil_iff, range_eq_nil] at hlabel
    omega
  · intro e he
    have hlabel := h e he
    simp only [List.append_eq_nil_iff, check_eq_nil, Bool.and_eq_true, Bool.not_eq_true'] at hlabel
    exact plain_of_controls hlabel.2.2

theorem device_valid {t : Types.Tessera} {audio : Audio} (h : Validator.tessera t audio = []) :
    DeviceValid t.device := by
  simp only [Validator.tessera, List.append_eq_nil_iff, check_eq_nil, range_eq_nil,
    List.flatMap_cons, List.flatMap_nil, Bool.and_eq_true, decide_eq_true_eq, Bool.not_eq_true',
    List.contains_iff_mem] at h
  obtain ⟨⟨⟨⟨⟨⟨⟨⟨⟨⟨hname, hrate⟩, hencoding⟩, hlatency⟩, hrx⟩, htx⟩, hlabels⟩, -⟩, -⟩, -⟩, -⟩ := h
  simp only [List.mem_cons, List.not_mem_nil, or_false] at hencoding
  exact
    { named := by simpa using hname.1.1
      plain := plain_of_controls hname.2
      sampleRate := hrate.2
      encoding := by omega
      latencyUs := hlatency.2
      rxChannels := hrx.2
      txChannels := htx.2
      rxLabels := labels_valid hrx.2 hlabels.1
      txLabels := labels_valid htx.2 hlabels.2.1 }

theorem flow_valid {st : Validator.FlowState} {i : Nat} {f : TesseraFlow}
    (h : (Validator.flow st i f).1 = []) : FlowValid f ∧ f.id ∉ st.ids ∧
      (f.direction, f.peer, f.port, f.anySource) ∉ st.targets ∧
      f.id ∈ (Validator.flow st i f).2.ids := by
  simp only [Validator.flow, List.append_eq_nil_iff, check_eq_nil, range_eq_nil, Bool.and_eq_true,
    Bool.not_eq_true', Bool.or_eq_true, List.contains_eq_mem, decide_eq_false_iff_not] at h
  obtain ⟨⟨⟨⟨⟨⟨hshape, hid⟩, hport⟩, htarget⟩, hany⟩, hpeer⟩, hframes⟩ := h
  refine ⟨⟨plain_of_all (by decide) hshape.2, hport.2, ?_, ?_, ?_⟩, hid, htarget, ?_⟩
  · intro hsource
    rcases hany with hnot | ⟨hrx, -⟩
    · rw [hsource] at hnot
      cases hnot
    · exact eq_of_beq hrx
  · intro hsource
    rw [hsource, if_neg (by decide), check_eq_nil] at hpeer
    obtain ⟨a, ha, -⟩ := (Option.any_eq_true ..).mp hpeer
    obtain ⟨peer, hsome, hparse⟩ := Option.bind_eq_some_iff.mp ha
    exact ⟨peer, hsome, plain_address hparse⟩
  · intro n hn
    rw [hn, Option.elim_some, List.append_eq_nil_iff, range_eq_nil] at hframes
    exact hframes.2.2
  · simp only [Validator.flow, Bool.and_eq_true, hshape, and_self, if_true]
    exact List.mem_cons_self

theorem flow_rx (st : Validator.FlowState) (i : Nat) (f : TesseraFlow) :
    (Validator.flow st i f).2.rx = st.rx + if f.direction = .rx then 1 else 0 := by
  simp only [Validator.flow]
  split <;> rfl

theorem flow_seen (st : Validator.FlowState) (i : Nat) (f : TesseraFlow) :
    st.ids ⊆ (Validator.flow st i f).2.ids ∧ (Validator.flow st i f).2.targets =
      (f.direction, f.peer, f.port, f.anySource) :: st.targets := by
  simp only [Validator.flow, and_true]
  split
  · exact List.subset_cons_self _ _
  · exact List.Subset.refl _

/-- Every flow is new to those before it. -/
theorem flows_valid {st : Validator.FlowState} {i : Nat} {l : List TesseraFlow}
    (h : (Validator.flows st i l).1 = []) :
    (∀ f ∈ l, FlowValid f) ∧ l.Pairwise Distinct ∧
      (∀ f ∈ l, f.id ∉ st.ids ∧ (f.direction, f.peer, f.port, f.anySource) ∉ st.targets) ∧
      (Validator.flows st i l).2.rx = st.rx + l.countP (·.direction = .rx) := by
  induction l generalizing st i with
  | nil => simp [Validator.flows]
  | cons f l ih =>
    simp only [Validator.flows, List.append_eq_nil_iff] at h ⊢
    obtain ⟨hf, hl⟩ := h
    obtain ⟨hvalid, hid, htarget, hadded⟩ := flow_valid hf
    obtain ⟨hsub, htargets⟩ := flow_seen st i f
    obtain ⟨hvalids, hpairwise, hnew, hrx⟩ := ih hl
    refine ⟨?_, ?_, ?_, ?_⟩
    · exact List.forall_mem_cons.mpr ⟨hvalid, hvalids⟩
    · refine List.pairwise_cons.mpr ⟨fun g hg => ⟨fun he => ?_, fun he => ?_⟩, hpairwise⟩
      · exact (hnew g hg).1 (he ▸ hadded)
      · refine (hnew g hg).2 ?_
        rw [htargets, ← he]
        exact List.mem_cons_self
    · refine List.forall_mem_cons.mpr ⟨⟨hid, htarget⟩, fun g hg => ⟨fun he => ?_, fun he => ?_⟩⟩
      · exact (hnew g hg).1 (hsub he)
      · refine (hnew g hg).2 ?_
        rw [htargets]
        exact List.mem_cons_of_mem _ he
    · rw [hrx, flow_rx, List.countP_cons]
      simp only [decide_eq_true_eq]
      omega

/-- A flow as it is read back: any source means no peer. -/
def unpeered (f : TesseraFlow) : TesseraFlow :=
  { f with peer := if f.anySource then none else f.peer }

/-- No two flows are one, or carry the same stream, for the importer. -/
theorem pairwise_apart {l : List TesseraFlow} (hvalid : ∀ f ∈ l, FlowValid f)
    (hpairwise : l.Pairwise Distinct) (hrx : l.countP (·.direction = .rx) ≤ 1) :
    l.Pairwise fun x f => meets (unpeered x) (unpeered f) = false := by
  induction l with
  | nil => exact .nil
  | cons x l ih =>
    obtain ⟨hx, hl⟩ := List.pairwise_cons.mp hpairwise
    obtain ⟨hxvalid, hlvalid⟩ := List.forall_mem_cons.mp hvalid
    have hrest : l.countP (·.direction = .rx) ≤ 1 :=
      le_trans ((List.sublist_cons_self x l).countP_le) hrx
    refine List.pairwise_cons.mpr ⟨fun f hf => ?_, ih hlvalid hl hrest⟩
    have hrecv : ¬(x.direction = .rx ∧ f.direction = .rx) := by
      intro ⟨hxrx, hfrx⟩
      have hpos : 0 < l.countP (·.direction = .rx) :=
        List.countP_pos_iff.mpr ⟨f, hf, by simp [hfrx]⟩
      rw [List.countP_cons, if_pos (by simp [hxrx])] at hrx
      omega
    obtain ⟨hid, htarget⟩ := hx f hf
    rw [Bool.eq_false_iff]
    intro hmeets
    simp only [meets, unpeered, Bool.or_eq_true, Bool.and_eq_true, beq_iff_eq] at hmeets
    rcases hmeets with hsame | ⟨⟨hdirection, hpeer⟩, hport⟩
    · exact hid hsame
    · cases hxs : x.anySource with
      | true =>
        have hxrx := hxvalid.anySource hxs
        exact hrecv ⟨hxrx, hdirection ▸ hxrx⟩
      | false =>
        cases hfs : f.anySource with
        | true =>
          have hfrx := (hlvalid f hf).anySource hfs
          exact hrecv ⟨hdirection.trans hfrx, hfrx⟩
        | false =>
          simp only [hxs, hfs, Bool.false_eq_true, if_false] at hpeer
          exact htarget (by rw [hdirection, hpeer, hport, hxs, hfs])

/-! ### The texts as TOML -/

def labelMembers (labels : SortedMap Nat String) : List (String × String) :=
  labels.entries.map fun e => (toString e.1, e.2)

def labelsJson (labels : SortedMap Nat String) : Json :=
  ofMembers ((labelMembers labels).map fun e => (e.1, .str e.2))

theorem quote_toString (n : Nat) : quote (toString n) = "\"" ++ toString n ++ "\"" := by
  have hplain : (toString n).toList.flatMap escape = (toString n).toList := by
    have hdigits := digits_toString n
    rw [Text.all, List.all_eq_true] at hdigits
    generalize (toString n).toList = l at hdigits
    induction l with
    | nil => rfl
    | cons c l ih =>
      obtain ⟨hc, hl⟩ := List.forall_mem_cons.mp hdigits
      have hsame : escape c = [c] := by
        have hbounds := isAsciiDigit_bounds hc
        have hnot : ∀ d : Char, isAsciiDigit d = false → c ≠ d := by
          intro d hd he
          rw [he, hd] at hc
          cases hc
        unfold escape
        rw [if_neg (hnot _ (by decide)), if_neg (hnot _ (by decide)), if_neg (hnot _ (by decide)),
          if_neg (hnot _ (by decide)), if_neg (hnot _ (by decide)), if_neg (hnot _ (by decide)),
          if_neg (hnot _ (by decide)), if_neg (by omega)]
      rw [List.flatMap_cons, hsame, ih hl]
      rfl
  rw [quote, hplain, String.ofList_toList]

theorem labels_eq (labels : SortedMap Nat String) :
    Render.Tessera.labels labels = inlineTable (labelMembers labels) := by
  have hmembers : labels.entries.map (fun e => "\"" ++ toString e.1 ++ "\" = " ++ quote e.2) =
      (labelMembers labels).map Toml.member := by
    rw [labelMembers, List.map_map]
    refine List.map_congr_left fun e _ => ?_
    simp only [Function.comp_apply, Toml.member]
    rw [quote_toString]
    apply String.toList_inj.mp
    simp
  rw [Render.Tessera.labels, hmembers]
  rfl

theorem natKey_injective : Function.Injective (toString : Nat → String) := by
  intro a b h
  have ha := parseUnsigned_toString (Nat.le_max_left a b)
  rw [h, parseUnsigned_toString (Nat.le_max_right a b)] at ha
  exact (Option.some.inj ha).symm

theorem nodup_labelMembers (labels : SortedMap Nat String) :
    ((labelMembers labels).map Prod.fst).Nodup := by
  have hkeys := labels.keys_nodup.map natKey_injective
  rw [SortedMap.keys, List.map_map] at hkeys
  rw [labelMembers, List.map_map]
  exact hkeys

theorem writes_labels {labels : SortedMap Nat String} (h : LabelsValid labels) :
    Writes (Render.Tessera.labels labels) (labelsJson labels) := by
  rw [labels_eq]
  refine writes_inlineTable (nodup_labelMembers labels) fun e he => ?_
  obtain ⟨d, hd, rfl⟩ := List.mem_map.mp he
  exact ⟨plain_toString d.1, h.plain d hd⟩

/-- The locks as the file has them. -/
def locks (keys : List String) : Json := .arr (keys.map .str)

def deviceEntries (d : TesseraDevice) : List (String × Json) :=
  [("id", .str "main"), ("name", .str d.name), ("sample_rate", .int d.sampleRate),
    ("encoding", .int d.encoding), ("latency_us", .int d.latencyUs),
    ("rx_channels", .int d.rxChannels), ("tx_channels", .int d.txChannels),
    ("locked", locks ["name", "sample_rate", "encoding", "latency", "rx_channels", "tx_channels",
      "rx_channel_labels", "tx_channel_labels"]),
    ("rx_channel_labels", labelsJson d.rxLabels), ("tx_channel_labels", labelsJson d.txLabels)]

def clockEntries (c : TesseraClock) : List (String × Json) :=
  [("role", .str c.role.text), ("priority", .int c.priority),
    ("locked", locks ["role", "priority"])]

def controlLines (lock : Bool) : List Toml.Line :=
  if lock then .blank :: .table "control" :: entries [("locked", locks ["flows"])] else []

def deviceRead (t : Types.Tessera) : List Toml.Line :=
  .element "device" :: entries (deviceEntries t.device) ++
    (.blank :: .table "clock" :: entries (clockEntries t.clock)) ++
    controlLines t.protocolFlowLock ++
    (.blank :: .table "discovery" ::
      entries [("advertise_devices", .bool t.device.advertiseDevices)])

theorem reads_blank : Reads "" .blank := ⟨by decide +kernel, by decide +kernel⟩

theorem reads_deviceLines {t : Types.Tessera} (h : DeviceValid t.device)
    (hpriority : t.clock.priority < 256) :
    List.Forall₂ Reads (deviceLines t) (deviceRead t) := by
  have hrate := h.sampleRate
  have hencoding := h.encoding
  have hlatency := h.latencyUs
  have hrx := h.rxChannels
  have htx := h.txChannels
  have hnumber : ∀ {k : String} {n : Nat}, k ≠ "" → Text.all isBare k = true → n ≤ 1000000 →
      Reads (assign k (toString n)) (.entry k (.int n)) :=
    fun hne hk hn => reads_assign hne hk (writes_toString (by omega))
  have hrole : Plain t.clock.role.text := by
    cases t.clock.role <;> exact plain_of_all (p := isAsciiLowercase) (by decide) (by decide)
  have hhead : List.Forall₂ Reads
      ["[[device]]", "id = \"main\"", assign "name" (quote t.device.name),
        assign "sample_rate" (toString t.device.sampleRate),
        assign "encoding" (toString t.device.encoding),
        assign "latency_us" (toString t.device.latencyUs),
        assign "rx_channels" (toString t.device.rxChannels),
        assign "tx_channels" (toString t.device.txChannels),
        "locked = [\"name\", \"sample_rate\", \"encoding\", \"latency\", \"rx_channels\", " ++
          "\"tx_channels\", \"rx_channel_labels\", \"tx_channel_labels\"]",
        assign "rx_channel_labels" (Render.Tessera.labels t.device.rxLabels),
        assign "tx_channel_labels" (Render.Tessera.labels t.device.txLabels), "", "[clock]",
        assign "role" (quote t.clock.role.text), assign "priority" (toString t.clock.priority),
        "locked = [\"role\", \"priority\"]"]
      (.element "device" :: entries (deviceEntries t.device) ++
        (.blank :: .table "clock" :: entries (clockEntries t.clock))) := by
    refine .cons ⟨by decide +kernel, by decide +kernel⟩ ?_
    refine .cons ⟨by decide +kernel, by decide +kernel⟩ ?_
    refine .cons (reads_assign (by decide) (by decide) (writes_quote h.plain)) ?_
    refine .cons (hnumber (by decide) (by decide) (by omega)) ?_
    refine .cons (hnumber (by decide) (by decide) (by omega)) ?_
    refine .cons (hnumber (by decide) (by decide) (by omega)) ?_
    refine .cons (hnumber (by decide) (by decide) (by omega)) ?_
    refine .cons (hnumber (by decide) (by decide) (by omega)) ?_
    refine .cons ⟨by decide +kernel, by decide +kernel⟩ ?_
    refine .cons (reads_assign (by decide) (by decide) (writes_labels h.rxLabels)) ?_
    refine .cons (reads_assign (by decide) (by decide) (writes_labels h.txLabels)) ?_
    refine .cons reads_blank (.cons ⟨by decide +kernel, by decide +kernel⟩ ?_)
    refine .cons (reads_assign (by decide) (by decide) (writes_quote hrole)) ?_
    refine .cons (hnumber (by decide) (by decide) (by omega)) ?_
    exact .cons ⟨by decide +kernel, by decide +kernel⟩ .nil
  have hcontrol : List.Forall₂ Reads
      (if t.protocolFlowLock then ["", "[control]", "locked = [\"flows\"]"] else [])
      (controlLines t.protocolFlowLock) := by
    cases t.protocolFlowLock with
    | false => exact .nil
    | true => exact .cons reads_blank (.cons ⟨by decide +kernel, by decide +kernel⟩ (.cons ⟨by decide +kernel, by decide +kernel⟩ .nil))
  have htail : List.Forall₂ Reads
      ["", "[discovery]", assign "advertise_devices" (toString t.device.advertiseDevices)]
      (.blank :: .table "discovery" ::
        entries [("advertise_devices", .bool t.device.advertiseDevices)]) :=
    .cons reads_blank (.cons ⟨by decide +kernel, by decide +kernel⟩
      (.cons (reads_assign (by decide) (by decide) (writes_bool _)) .nil))
  exact List.rel_append (List.rel_append hhead hcontrol) htail

/-- The document of a device. -/
structure Config (t : Types.Tessera) (config : Json) : Prop where
  device : get "device" config = some (.arr [ofMembers (deviceEntries t.device)])
  clock : get "clock" config = some (ofMembers (clockEntries t.clock))
  control : get "control" config =
    if t.protocolFlowLock then some (ofMembers [("locked", locks ["flows"])]) else none
  discovery : get "discovery" config =
    some (ofMembers [("advertise_devices", .bool t.device.advertiseDevices)])

def deviceDoc (t : Types.Tessera) : Doc :=
  ⟨.insert .empty "device" { earlier := some [], last := .ofList (deviceEntries t.device) },
    some "device"⟩

def clockDoc (t : Types.Tessera) : Doc :=
  ⟨(deviceDoc t).tables.insert "clock" { last := .ofList (clockEntries t.clock) }, some "clock"⟩

def controlDoc (t : Types.Tessera) : Doc :=
  if t.protocolFlowLock then
    ⟨(clockDoc t).tables.insert "control" { last := .ofList [("locked", locks ["flows"])] },
      some "control"⟩
  else clockDoc t

def configDoc (t : Types.Tessera) : Doc :=
  ⟨(controlDoc t).tables.insert "discovery"
    { last := .ofList [("advertise_devices", .bool t.device.advertiseDevices)] }, some "discovery"⟩

theorem nodup_deviceEntries (d : TesseraDevice) : ((deviceEntries d).map Prod.fst).Nodup := by
  simp [deviceEntries]

theorem nodup_clockEntries (c : TesseraClock) : ((clockEntries c).map Prod.fst).Nodup := by
  simp [clockEntries]

theorem foldlM_deviceRead (t : Types.Tessera) :
    (deviceRead t).foldlM Doc.add {} = some (configDoc t) := by
  have hdevice : (.element "device" :: entries (deviceEntries t.device)).foldlM Doc.add {} =
      some (deviceDoc t) := foldlM_element rfl (nodup_deviceEntries _)
  have hclock : (.blank :: .table "clock" :: entries (clockEntries t.clock)).foldlM Doc.add
      (deviceDoc t) = some (clockDoc t) := by
    rw [foldlM_blank, foldlM_table _ (nodup_clockEntries _)]
    · rfl
    · simp [deviceDoc, SortedMap.contains]
  have hcontrol : (controlLines t.protocolFlowLock).foldlM Doc.add (clockDoc t) =
      some (controlDoc t) := by
    unfold controlLines controlDoc
    split
    · rw [foldlM_blank, foldlM_table _ (by simp)]
      simp [clockDoc, deviceDoc, SortedMap.contains]
    · rfl
  have hdiscovery : (.blank :: .table "discovery" :: entries
      [("advertise_devices", .bool t.device.advertiseDevices)]).foldlM Doc.add (controlDoc t) =
      some (configDoc t) := by
    rw [foldlM_blank, foldlM_table _ (by simp)]
    · rfl
    · unfold controlDoc
      split <;> simp [clockDoc, deviceDoc, SortedMap.contains]
  rw [deviceRead, List.foldlM_append, List.foldlM_append, List.foldlM_append, hdevice]
  simp only [Option.bind_eq_bind, Option.bind_some, hclock, hcontrol, hdiscovery]

theorem config_of_doc (t : Types.Tessera) : Config t (configDoc t).json := by
  constructor <;> rw [get_json] <;> unfold configDoc controlDoc clockDoc deviceDoc <;>
    cases t.protocolFlowLock <;> simp [Table.json, ofMembers]

def sourceEntry (f : TesseraFlow) : String × Json :=
  if f.anySource then ("any_source", .bool true) else ("peer", .str (f.peer.getD ""))

def framesEntry (f : TesseraFlow) : List (String × Json) :=
  (f.framesPerPacket.map fun n : Nat => ("frames_per_packet", Json.int n)).toList

def flowEntries (f : TesseraFlow) : List (String × Json) :=
  [("id", .str f.id), ("direction", .str f.direction.text), ("device", .str "main"),
    ("channels", .arr []), sourceEntry f, ("port", .int f.port)] ++ framesEntry f

def flowRead (f : TesseraFlow) : List Toml.Line := .element "flow" :: entries (flowEntries f)

theorem nodup_flowEntries (f : TesseraFlow) : ((flowEntries f).map Prod.fst).Nodup := by
  unfold flowEntries sourceEntry framesEntry
  cases f.anySource <;> cases f.framesPerPacket <;> simp

theorem reads_flowLines {f : TesseraFlow} (h : FlowValid f) :
    ∃ ls, flowLines f = .ok ls ∧ List.Forall₂ Reads ls (flowRead f) := by
  have hport := h.port
  have hsource : ∃ l, sourceLine f = .ok l ∧
      Reads l (.entry (sourceEntry f).1 (sourceEntry f).2) := by
    unfold sourceLine sourceEntry
    cases hs : f.anySource with
    | true => exact ⟨_, rfl, reads_assign (by decide) (by decide) (writes_bool true)⟩
    | false =>
      obtain ⟨peer, hpeer, hplain⟩ := h.peer hs
      rw [hpeer]
      exact ⟨_, rfl, reads_assign (by decide) (by decide) (writes_quote hplain)⟩
  have hdirection : Plain f.direction.text := by
    cases f.direction <;> exact plain_of_all (p := isAsciiLowercase) (by decide) (by decide)
  have hframes : List.Forall₂ Reads
      (f.framesPerPacket.map fun n => assign "frames_per_packet" (toString n)).toList
      (entries (framesEntry f)) := by
    unfold framesEntry
    cases hf : f.framesPerPacket with
    | none => exact .nil
    | some n =>
      have hn := h.frames n hf
      exact .cons (reads_assign (by decide) (by decide) (writes_toString (by omega))) .nil
  obtain ⟨source, hok, hsource⟩ := hsource
  refine ⟨_, Outcome.bind_eq_ok.mpr ⟨source, hok, rfl⟩, ?_⟩
  have hentries : flowRead f = .element "flow" :: entries
      [("id", .str f.id), ("direction", .str f.direction.text), ("device", .str "main"),
        ("channels", .arr []), sourceEntry f, ("port", .int f.port)] ++ entries (framesEntry f) := by
    simp [flowRead, entries, flowEntries]
  rw [hentries]
  refine List.rel_append ?_ hframes
  refine .cons ⟨by decide +kernel, by decide +kernel⟩ ?_
  refine .cons (reads_assign (by decide) (by decide) (writes_quote h.id)) ?_
  refine .cons (reads_assign (by decide) (by decide) (writes_quote hdirection)) ?_
  refine .cons ⟨by decide +kernel, by decide +kernel⟩ ?_
  refine .cons ⟨by decide +kernel, by decide +kernel⟩ (.cons hsource ?_)
  exact .cons (reads_assign (by decide) (by decide) (writes_toString (by omega))) .nil

theorem forall₂_intercalate {α β : Type} {R : α → β → Prop} {a : α} {b : β} (hsep : R a b)
    {ls : List (List α)} {xs : List (List β)} (h : List.Forall₂ (List.Forall₂ R) ls xs) :
    List.Forall₂ R ([a].intercalate ls) ([b].intercalate xs) := by
  induction h with
  | nil => exact .nil
  | cons hx hrest ih =>
    cases hrest with
    | nil => simpa using hx
    | cons hy hrest =>
      simp only [List.intercalate, List.intersperse, List.flatten_cons] at ih ⊢
      exact List.rel_append hx (.cons hsep ih)

def flowsRead (flows : List TesseraFlow) : List Toml.Line :=
  .blank :: if flows.isEmpty then [.blank] else [.blank].intercalate (flows.map flowRead)

theorem reads_flowsLines {flows : List TesseraFlow} (h : ∀ f ∈ flows, FlowValid f) :
    ∃ ls, flowsLines flows = .ok ls ∧ List.Forall₂ Reads ls (flowsRead flows) := by
  have hblocks : ∃ blocks, flows.mapM flowLines = .ok blocks ∧
      List.Forall₂ (List.Forall₂ Reads) blocks (flows.map flowRead) := by
    induction flows with
    | nil => exact ⟨[], rfl, .nil⟩
    | cons f flows ih =>
      obtain ⟨hf, hflows⟩ := List.forall_mem_cons.mp h
      obtain ⟨ls, hls, hread⟩ := reads_flowLines hf
      obtain ⟨blocks, hblocks, hreads⟩ := ih hflows
      refine ⟨ls :: blocks, ?_, .cons hread hreads⟩
      rw [List.mapM_cons, hls, hblocks]
      rfl
  obtain ⟨blocks, hok, hread⟩ := hblocks
  refine ⟨_, Outcome.bind_eq_ok.mpr ⟨blocks, hok, rfl⟩, ?_⟩
  refine .cons ⟨by decide +kernel, by decide +kernel⟩ ?_
  split
  · exact .cons reads_blank .nil
  · exact forall₂_intercalate reads_blank hread

/-- Flow after flow is one more table of the array. -/
theorem foldlM_flows {flows : List TesseraFlow} {d : Doc} {done : List (SortedMap String Json)}
    (hdone : d.array "flow" = some done) : ∃ doc,
    ([.blank].intercalate (flows.map flowRead)).foldlM Doc.add d = some doc ∧
      doc.array "flow" = some (done ++ flows.map fun f => .ofList (flowEntries f)) := by
  induction flows generalizing d done with
  | nil => exact ⟨d, rfl, by simpa using hdone⟩
  | cons f flows ih =>
    have hfold := foldlM_element hdone (nodup_flowEntries f)
    have hnext : Doc.array ⟨d.tables.insert "flow"
        { earlier := some done, last := .ofList (flowEntries f) }, some "flow"⟩ "flow" =
        some (done ++ [.ofList (flowEntries f)]) := by
      simp [Doc.array]
    obtain ⟨doc, hdoc, harray⟩ := ih hnext
    refine ⟨doc, ?_, by simpa using harray⟩
    cases flows with
    | nil =>
      cases hdoc
      simpa [flowRead] using hfold
    | cons g flows =>
      simp only [List.map_cons, List.intercalate, List.intersperse, List.flatten_cons,
        List.foldlM_append] at hdoc ⊢
      rw [flowRead, hfold]
      exact hdoc

theorem read_flows {flows : List TesseraFlow} (h : ∀ f ∈ flows, FlowValid f) :
    ∃ ls v, flowsLines flows = .ok ls ∧ Toml.read (unlines ls) = some v ∧
      asArray (Json.member "flow" v) =
        if flows = [] then none else some (flows.map fun f => ofMembers (flowEntries f)) := by
  obtain ⟨ls, hls, hreads⟩ := reads_flowsLines h
  have hfold : ∃ doc, (flowsRead flows).foldlM Doc.add {} = some doc ∧
      doc.array "flow" = some (flows.map fun f => .ofList (flowEntries f)) := by
    have hempty : Doc.array {} "flow" = some [] := rfl
    obtain ⟨doc, hdoc, harray⟩ := foldlM_flows hempty
    refine ⟨doc, ?_, by simpa using harray⟩
    rw [flowsRead, foldlM_blank]
    split
    · rename_i hnone
      rw [List.isEmpty_iff.mp hnone] at hdoc
      exact hdoc
    · exact hdoc
  obtain ⟨doc, hdoc, harray⟩ := hfold
  refine ⟨ls, doc.json, hls, read_unlines hreads hdoc, ?_⟩
  rw [member_eq_get, get_json]
  unfold Doc.array at harray
  split at harray
  · rename_i hget
    have hnone : flows = [] := by simpa using harray
    rw [hget, if_pos hnone]
    rfl
  · rename_i t hget
    obtain ⟨done, hdone, hall⟩ := Option.map_eq_some_iff.mp harray
    have hsome : flows ≠ [] := by
      intro he
      rw [he] at hall
      simp at hall
    rw [hget, if_neg hsome, Option.map_some, Option.getD_some, Table.json, hdone]
    simp only [asArray, hall, List.map_map]
    rfl

/-! ### The records read back -/

theorem get?_put (k : String) (v : Option Json) (m : SortedMap String Json) (j : String) :
    (put k v m).get? j = if j = k then v.or (m.get? j) else m.get? j := by
  cases v <;> simp [put]

theorem closed_map {m : SortedMap String Json} {known : List String}
    (h : ∀ k, k ∉ known → m.get? k = none) : closed known (.obj m.entries) = some () := by
  refine if_pos ⟨rfl, fun k hk => ?_⟩
  by_contra hnot
  have hcontains : m.contains k = true := SortedMap.mem_keys_iff.mp hk
  rw [SortedMap.contains, h k hnot] at hcontains
  cases hcontains

theorem need_map {α : Type} {dec : Json → Option α} {k : String} {m : SortedMap String Json}
    {v : Json} {a : α} (hk : m.get? k = some v) (h : dec v = some a) :
    need dec k (.obj m.entries) = some a := need_of_get hk h

theorem natBelow_int {bound n : Nat} (h : n < bound) : natBelow bound (.int n) = some n :=
  natBelow_nat h

theorem boolOf_bool (b : Bool) : boolOf (.bool b) = some b := rfl

theorem flowOf_fields {f : TesseraFlow} (h : FlowValid f) :
    flowOf (.obj (flowFields (ofMembers (flowEntries f))).entries) = some (unpeered f) := by
  have hget : ∀ k, get k (ofMembers (flowEntries f)) = SortedMap.lookup k (flowEntries f) :=
    get_ofMembers (nodup_flowEntries f)
  have hid : get "id" (ofMembers (flowEntries f)) = some (.str f.id) := by
    rw [hget]
    rfl
  have hdirection : get "direction" (ofMembers (flowEntries f)) = some (.str f.direction.text) := by
    rw [hget]
    rfl
  have hpeer : get "peer" (ofMembers (flowEntries f)) =
      if f.anySource then none else some (.str (f.peer.getD "")) := by
    rw [hget, flowEntries, sourceEntry, framesEntry]
    cases f.anySource <;> cases f.framesPerPacket <;> simp [SortedMap.lookup]
  have hany : get "any_source" (ofMembers (flowEntries f)) =
      if f.anySource then some (.bool true) else none := by
    rw [hget, flowEntries, sourceEntry, framesEntry]
    cases f.anySource <;> cases f.framesPerPacket <;> simp [SortedMap.lookup]
  have hport : get "port" (ofMembers (flowEntries f)) = some (.int f.port) := by
    rw [hget, flowEntries, sourceEntry]
    cases f.anySource <;> simp [SortedMap.lookup]
  have hframes : get "frames_per_packet" (ofMembers (flowEntries f)) =
      f.framesPerPacket.map fun n : Nat => Json.int n := by
    rw [hget, flowEntries, sourceEntry, framesEntry]
    cases f.anySource <;> cases f.framesPerPacket <;> simp [SortedMap.lookup]
  have hmap : ∀ k, (flowFields (ofMembers (flowEntries f))).get? k =
      if k = "frames_per_packet" then some ((f.framesPerPacket.map fun n : Nat => Json.int n).getD .null)
      else if k = "any_source" then some (.bool f.anySource)
      else if k = "peer" then some (if f.anySource then .null else .str (f.peer.getD ""))
      else if k = "id" then some (.str f.id)
      else if k = "direction" then some (.str f.direction.text)
      else if k = "port" then some (.int f.port)
      else none := by
    intro k
    unfold flowFields
    simp only [List.foldl_cons, List.foldl_nil, get?_put, member_eq_get, hid, hdirection, hpeer, hany,
      hport, hframes, Option.getD_some]
    rw [SortedMap.get?_ofList (by simp)]
    by_cases hkframes : k = "frames_per_packet"
    · subst hkframes
      cases f.framesPerPacket <;> simp [SortedMap.lookup]
    by_cases hkany : k = "any_source"
    · subst hkany
      cases f.anySource <;> simp [SortedMap.lookup]
    by_cases hkpeer : k = "peer"
    · subst hkpeer
      cases f.anySource <;> simp [SortedMap.lookup]
    simp [hkframes, hkany, hkpeer, SortedMap.lookup]
  have hclosed : closed ["id", "direction", "peer", "port", "any_source", "frames_per_packet"]
      (.obj (flowFields (ofMembers (flowEntries f))).entries) = some () := by
    refine closed_map fun k hk => ?_
    simp only [List.mem_cons, List.not_mem_nil, or_false, not_or] at hk
    rw [hmap k]
    simp [hk]
  have hneedPeer : nullable asStr (if f.anySource then .null else .str (f.peer.getD "")) =
      some (if f.anySource then none else f.peer) := by
    cases hs : f.anySource with
    | true => rfl
    | false =>
      obtain ⟨peer, hsome, -⟩ := h.peer hs
      rw [hsome]
      rfl
  have hneedFrames : nullable (natBelow (2 ^ 16))
      ((f.framesPerPacket.map fun n : Nat => Json.int n).getD .null) = some f.framesPerPacket := by
    cases hn : f.framesPerPacket with
    | none => rfl
    | some n =>
      have hbound := h.frames n hn
      rw [Option.map_some, Option.getD_some, nullable, natBelow_int (by omega)]
      · rfl
      · intro he
        cases he
  have hneedDirection : oneOf Direction.text [.rx, .tx] (.str f.direction.text) =
      some f.direction := by
    cases f.direction <;> rfl
  have hneedPort : natBelow (2 ^ 16) (.int f.port) = some f.port :=
    natBelow_int (by have := h.port; omega)
  rw [flowOf, hclosed, need_map (hmap "id") (asStr_str _),
    need_map (hmap "direction") hneedDirection, need_map (hmap "peer") hneedPeer,
    need_map (hmap "port") hneedPort, need_map (hmap "any_source") (boolOf_bool _),
    need_map (hmap "frames_per_packet") hneedFrames]
  rfl

theorem representable (f : TesseraFlow) : unrepresentable (ofMembers (flowEntries f)) = false := by
  have hget : ∀ k, get k (ofMembers (flowEntries f)) = SortedMap.lookup k (flowEntries f) :=
    get_ofMembers (nodup_flowEntries f)
  have hdevice : get "device" (ofMembers (flowEntries f)) = some (.str "main") := by
    rw [hget]
    rfl
  have hchannels : get "channels" (ofMembers (flowEntries f)) = some (.arr []) := by
    rw [hget]
    rfl
  rw [unrepresentable, hdevice, hchannels]
  rfl

/-- Flows that are apart are all taken, in order. -/
theorem addFlows {l done : List TesseraFlow} (hvalid : ∀ f ∈ l, FlowValid f)
    (hdone : ∀ x ∈ done, ∀ f ∈ l, meets x (unpeered f) = false)
    (hl : l.Pairwise fun x f => meets (unpeered x) (unpeered f) = false) :
    (l.map fun f => ofMembers (flowEntries f)).foldlM addFlow done =
      .ok (done ++ l.map unpeered) := by
  induction l generalizing done with
  | nil => simp [Outcome.pure_eq_ok]
  | cons f l ih =>
    obtain ⟨hf, hvalids⟩ := List.forall_mem_cons.mp hvalid
    obtain ⟨hapart, hrest⟩ := List.pairwise_cons.mp hl
    have hnew : done.find? (meets · (unpeered f)) = none := by
      rw [List.find?_eq_none]
      intro x hx
      simp [hdone x hx f List.mem_cons_self]
    have hadd : addFlow done (ofMembers (flowEntries f)) = .ok (done ++ [unpeered f]) := by
      rw [addFlow, if_neg (by simp [representable]), flowOf_fields hf]
      simp only [typed, Outcome.bind_ok, hnew]
    rw [List.map_cons, List.foldlM_cons, hadd, Outcome.bind_ok, ih hvalids ?_ hrest]
    · simp
    · intro x hx g hg
      rcases List.mem_append.mp hx with hx | hx
      · exact hdone x hx g (List.mem_cons_of_mem _ hg)
      · rw [List.mem_singleton.mp hx]
        exact hapart g hg

theorem labelOf_text {n : Nat} (h : n ≤ 65535) (s : String) :
    labelOf (toString n, .str s) = some (n, s) := by
  have hkey : channelKey (toString n) = some n := by
    rw [channelKey, parseUnsigned_toString h]
    simp
  rw [labelOf, hkey]
  rfl

theorem mapM_eq_map {α β : Type} {f : α → Option β} {g : α → β} {l : List α}
    (h : ∀ a ∈ l, f a = some (g a)) : l.mapM f = some (l.map g) := by
  induction l with
  | nil => rfl
  | cons a l ih =>
    rw [List.mapM_cons, h a List.mem_cons_self, ih fun b hb => h b (List.mem_cons_of_mem _ hb)]
    rfl

def labelEntries (labels : SortedMap Nat String) : List (String × Json) :=
  labels.entries.map fun e => (toString e.1, .str e.2)

/-- Labels come back whatever the order of their keys as texts. -/
theorem labelsOf_labelsJson {labels : SortedMap Nat String} (h : LabelsValid labels) :
    labelsOf (labelsJson labels) = some labels := by
  have hentries : (labelMembers labels).map (fun e => (e.1, Json.str e.2)) = labelEntries labels := by
    rw [labelMembers, List.map_map]
    rfl
  have hnodup : ((labelEntries labels).map Prod.fst).Nodup := by
    have hkeys := nodup_labelMembers labels
    rw [labelMembers, List.map_map] at hkeys
    rw [labelEntries, List.map_map]
    exact hkeys
  have hperm := SortedMap.perm_ofList hnodup
  have hread : ∀ e ∈ (SortedMap.ofList (labelEntries labels)).entries,
      labelOf e = some ((labelOf e).getD (0, "")) := by
    intro e he
    obtain ⟨d, hd, rfl⟩ := List.mem_map.mp (SortedMap.mem_ofList he)
    rw [labelOf_text (h.channel d hd)]
    rfl
  have hback : (labelEntries labels).map (fun e => (labelOf e).getD (0, "")) = labels.entries := by
    rw [labelEntries, List.map_map]
    refine (List.map_congr_left fun e he => ?_).trans (List.map_id _)
    rw [Function.comp_apply, labelOf_text (h.channel e he)]
    rfl
  have hsame := (hperm.map fun e => (labelOf e).getD (0, "")).trans (.of_eq hback)
  rw [labelsJson, hentries, labelsOf, asObject_ofMembers, Option.bind_some, mapM_eq_map hread,
    Option.map_some, SortedMap.ofList_perm hsame]

theorem lists_locks {s : String} {keys : List String} :
    lists s (asArray (locks keys)) = true ↔ s ∈ keys := by
  simp [lists, locks, asArray]

/-- What the configuration locks is read from it, whatever the daemon runs. -/
theorem setting_locked (d : TesseraDevice) (effective : Json) (key : String)
    (h : lockKey key ∈ ["name", "sample_rate", "encoding", "latency", "rx_channels", "tx_channels",
      "rx_channel_labels", "tx_channel_labels"]) :
    setting (ofMembers (deviceEntries d)) effective key =
      SortedMap.lookup key (deviceEntries d) := by
  have hget : ∀ k, get k (ofMembers (deviceEntries d)) = SortedMap.lookup k (deviceEntries d) :=
    get_ofMembers (nodup_deviceEntries d)
  have hlocked : get "locked" (ofMembers (deviceEntries d)) = some (locks ["name", "sample_rate",
      "encoding", "latency", "rx_channels", "tx_channels", "rx_channel_labels",
      "tx_channel_labels"]) := by
    rw [hget]
    rfl
  rw [setting, hlocked, Option.bind_some, if_pos (lists_locks.mpr h), hget]

theorem get?_fields (v : Json.Value) (k : String) : (fields v).get? k = Json.get k v.val := by
  unfold fields Json.get
  cases hv : asObject v.val with
  | none => rfl
  | some members =>
    have hcanonical : KeysSorted members := by
      cases hval : v.val with
      | obj l =>
        rw [hval] at hv
        cases hv
        exact (canonical_obj_iff.mp (hval ▸ v.property)).1
      | null | bool | int | float | str | arr =>
        rw [hval] at hv
        cases hv
    have hnodup : (members.map Prod.fst).Nodup :=
      List.pairwise_map.mpr (hcanonical.imp fun h => ne_of_lt h)
    exact SortedMap.get?_ofList hnodup k

theorem get?_deviceFields (name : String) (latencyUs : Nat) (k : String)
    (h : k ∉ ["sample_rate", "encoding", "rx_channels", "tx_channels", "rx_labels", "tx_labels",
      "advertise_devices"]) :
    (fields (tesseraDeviceJson { name, latencyUs })).get? k =
      if k = "name" then some (.str name) else if k = "latency_us" then some (.int latencyUs)
      else none := by
  simp only [List.mem_cons, List.not_mem_nil, or_false, not_or] at h
  obtain ⟨hrate, hencoding, hrx, htx, hrxLabels, htxLabels, hadvertise⟩ := h
  rw [get?_fields, tesseraDeviceJson, get_record (by simp)]
  by_cases hname : k = "name"
  · subst hname
    rfl
  by_cases hlatency : k = "latency_us"
  · subst hlatency
    rfl
  simp [SortedMap.lookup, hname, hlatency, hrate, hencoding, hrx, htx, hrxLabels, htxLabels,
    hadvertise]

section
variable {t : Types.Tessera} {config effective : Json}

theorem deviceFields_config (hconfig : Config t config) :
    deviceFields config (setting (ofMembers (deviceEntries t.device)) effective)
      { name := t.device.name, latencyUs := t.device.latencyUs } =
    ((((((((fields (tesseraDeviceJson { name := t.device.name, latencyUs := t.device.latencyUs })).insert
      "sample_rate" (.int t.device.sampleRate)).insert
      "encoding" (.int t.device.encoding)).insert
      "rx_channels" (.int t.device.rxChannels)).insert
      "tx_channels" (.int t.device.txChannels)).insert
      "rx_labels" (labelsJson t.device.rxLabels)).insert
      "tx_labels" (labelsJson t.device.txLabels)).insert
      "advertise_devices" (.bool t.device.advertiseDevices)) := by
  have hadvertise : pointer "discovery" "advertise_devices" config =
      some (.bool t.device.advertiseDevices) := by
    rw [pointer, hconfig.discovery, Option.bind_some, get_ofMembers (by simp)]
    rfl
  have hset := setting_locked t.device effective
  simp only [deviceFields, List.foldl_cons, List.foldl_nil, hadvertise,
    hset "sample_rate" (by decide), hset "encoding" (by decide), hset "rx_channels" (by decide),
    hset "tx_channels" (by decide), hset "rx_labels" (by decide), hset "tx_labels" (by decide),
    hset "rx_channel_labels" (by decide), hset "tx_channel_labels" (by decide)]
  rfl

theorem importDevice_config (h : DeviceValid t.device) (hconfig : Config t config) :
    importDevice config (setting (ofMembers (deviceEntries t.device)) effective)
      { name := t.device.name, latencyUs := t.device.latencyUs } = .ok t.device := by
  have hmap : deviceFields config (setting (ofMembers (deviceEntries t.device)) effective) _ = _ :=
    deviceFields_config hconfig
  obtain ⟨m, hm⟩ : ∃ m, deviceFields config (setting (ofMembers (deviceEntries t.device)) effective)
    { name := t.device.name, latencyUs := t.device.latencyUs } = m := ⟨_, rfl⟩
  rw [hm] at hmap
  have hother : ∀ k, k ∉ ["sample_rate", "encoding", "rx_channels", "tx_channels", "rx_labels",
      "tx_labels", "advertise_devices"] → m.get? k =
        if k = "name" then some (.str t.device.name)
        else if k = "latency_us" then some (.int t.device.latencyUs) else none := by
    intro k hk
    rw [← get?_deviceFields _ _ k hk, hmap]
    simp only [List.mem_cons, List.not_mem_nil, or_false, not_or] at hk
    simp [hk]
  have hset : m.get? "sample_rate" = some (.int t.device.sampleRate) ∧
      m.get? "encoding" = some (.int t.device.encoding) ∧
      m.get? "rx_channels" = some (.int t.device.rxChannels) ∧
      m.get? "tx_channels" = some (.int t.device.txChannels) ∧
      m.get? "rx_labels" = some (labelsJson t.device.rxLabels) ∧
      m.get? "tx_labels" = some (labelsJson t.device.txLabels) ∧
      m.get? "advertise_devices" = some (.bool t.device.advertiseDevices) := by
    simp [hmap]
  obtain ⟨hrate, hencoding, hrx, htx, hrxLabels, htxLabels, hadvertise⟩ := hset
  have hclosed : closed ["name", "sample_rate", "encoding", "latency_us", "rx_channels",
      "tx_channels", "rx_labels", "tx_labels", "advertise_devices"] (.obj m.entries) = some () := by
    refine closed_map fun k hk => ?_
    simp only [List.mem_cons, List.not_mem_nil, or_false, not_or] at hk
    rw [hother k (by simp [hk])]
    simp [hk]
  have hbounds := And.intro h.sampleRate (And.intro h.encoding (And.intro h.latencyUs
    (And.intro h.rxChannels h.txChannels)))
  have hdevice : deviceOf (.obj m.entries) = some t.device := by
    rw [deviceOf, hclosed, need_map (hother "name" (by simp)) (asStr_str _),
      need_map hrate (natBelow_int (by omega)), need_map hencoding (natBelow_int (by omega)),
      need_map (hother "latency_us" (by simp)) (natBelow_int (by omega)),
      need_map hrx (natBelow_int (by omega)), need_map htx (natBelow_int (by omega)),
      need_map hrxLabels (labelsOf_labelsJson h.rxLabels),
      need_map htxLabels (labelsOf_labelsJson h.txLabels), need_map hadvertise (boolOf_bool _)]
    rfl
  rw [importDevice, hm, hdevice]
  rfl

theorem importClock_config {runtime : Json} (hpriority : t.clock.priority < 256)
    (hconfig : Config t config) : importClock config runtime {} = .ok t.clock := by
  have hpointer : ∀ k, pointer "clock" k config = SortedMap.lookup k (clockEntries t.clock) := by
    intro k
    rw [pointer, hconfig.clock, Option.bind_some, get_ofMembers (nodup_clockEntries _)]
  have hlocked : pointer "clock" "locked" config = some (locks ["role", "priority"]) := by
    rw [hpointer]
    rfl
  have hsetting : ∀ k ∈ ["role", "priority"], clockSetting config runtime k =
      SortedMap.lookup k (clockEntries t.clock) := by
    intro k hk
    rw [clockSetting, hlocked, Option.bind_some, if_pos (lists_locks.mpr hk), hpointer,
      Option.none_or]
  obtain ⟨m, hm⟩ : ∃ m, clockFields config runtime {} = m := ⟨_, rfl⟩
  have hmap : m = ((fields (tesseraClockJson {})).insert "role" (.str t.clock.role.text)).insert
      "priority" (.int t.clock.priority) := by
    rw [← hm]
    simp only [clockFields, List.foldl_cons, List.foldl_nil, hsetting "role" (by decide),
      hsetting "priority" (by decide)]
    rfl
  have hset : m.get? "role" = some (.str t.clock.role.text) ∧
      m.get? "priority" = some (.int t.clock.priority) := by
    simp [hmap]
  have hclosed : closed ["role", "priority"] (.obj m.entries) = some () := by
    refine closed_map fun k hk => ?_
    simp only [List.mem_cons, List.not_mem_nil, or_false, not_or] at hk
    rw [hmap, SortedMap.get?_insert, if_neg hk.2, SortedMap.get?_insert, if_neg hk.1, get?_fields,
      tesseraClockJson, get_record (by simp)]
    simp [SortedMap.lookup, hk]
  have hrole : oneOf ClockRole.text [.auto, .follower, .leader] (.str t.clock.role.text) =
      some t.clock.role := by
    cases t.clock.role <;> rfl
  have hclock : clockOf (.obj m.entries) = some t.clock := by
    rw [clockOf, hclosed, need_map hset.1 hrole, need_map hset.2 (natBelow_int (by omega))]
    rfl
  rw [importClock, hm, hclock]
  rfl

end

/-! ### The whole document -/

section
variable {floatLen : ℚ → Nat} {s document : DesiredState} {t : Types.Tessera} {config : Json}
  {toml : String → Except String Json}

theorem deviceOrError_config (h : Config t config) :
    deviceOrError config = .ok (ofMembers (deviceEntries t.device)) := by
  have hid : (ofMembers (deviceEntries t.device)).member "id" = .str "main" := by
    rw [member_eq_get, get_ofMembers (nodup_deviceEntries _)]
    rfl
  rw [deviceOrError, mainDevice, h.device]
  simp [asArray, hid]

theorem lock_config (h : Config t config) :
    lists "flows" ((pointer "control" "locked" config).bind asArray) = t.protocolFlowLock := by
  rw [pointer, h.control]
  cases t.protocolFlowLock with
  | false => rfl
  | true =>
    rw [if_pos rfl, Option.bind_some, get_ofMembers (by simp)]
    rfl

theorem tomlJson_read (htoml : ∀ raw v, Toml.read raw = some v → toml raw = .ok v) {raw : String}
    {v : Json} (h : Toml.read raw = some v) : tomlJson toml raw = .ok v := by
  rw [tomlJson, htoml raw v h]
  rfl

theorem latency_config (h : DeviceValid t.device) (effective : Json) :
    latency (setting (ofMembers (deviceEntries t.device)) effective) = .ok t.device.latencyUs := by
  have hbound := h.latencyUs
  have hread : asU64 (.int t.device.latencyUs) = some t.device.latencyUs := asU64_nat (by omega)
  have hvalue : SortedMap.lookup "latency_us" (deviceEntries t.device) =
      some (.int t.device.latencyUs) := rfl
  have hfits : decide (t.device.latencyUs < 2 ^ 32) = true := by
    rw [decide_eq_true_eq]
    omega
  rw [latency, setting_locked _ _ "latency_us" (by decide), hvalue, Option.some_or,
    Option.bind_some, hread, Option.filter_some, if_pos hfits]

theorem deviceName_config (h : DeviceValid t.device) (files : LegacyFiles) (effective : Json) :
    deviceName files (setting (ofMembers (deviceEntries t.device)) effective) = t.device.name := by
  have hvalue : SortedMap.lookup "name" (deviceEntries t.device) = some (.str t.device.name) := rfl
  have hne : decide (t.device.name ≠ "") = true := decide_eq_true h.named
  rw [deviceName, setting_locked _ _ "name" (by decide), hvalue, Option.bind_some, asStr,
    Option.filter_some, if_pos hne, Option.getD_some]

/-- The daemon's files as this side writes them, beside any state of its own. -/
structure Written (toml : String → Except String Json) (device flows : String)
    (files : LegacyFiles) : Prop where
  device : files.get? "/etc/tessera/config.d/60-ndimon.toml" = some device
  flows : files.get? "/etc/tessera/config.d/61-ndimon-flows.toml" = some flows
  probe : files.get? "/etc/tessera/config.d/90-probe-flows.toml" = some ""
  runtime : ∀ raw, files.get? "/var/lib/tessera/state.toml" = some raw → ∃ v, toml raw = .ok v

theorem runtimeState_ok {device flows : String} {files : LegacyFiles}
    (h : Written toml device flows files) : ∃ runtime, runtimeState toml files = .ok runtime := by
  unfold runtimeState
  cases hraw : files.get? "/var/lib/tessera/state.toml" with
  | none => exact ⟨_, rfl⟩
  | some raw =>
    obtain ⟨v, hv⟩ := h.runtime raw hraw
    refine ⟨v, ?_⟩
    simp only [tomlJson, hv]
    rfl

/-- The rendered flows are all there is to import. -/
theorem importFlows_written {device flows : String} {files : LegacyFiles} {v : Json}
    (hfiles : Written toml device flows files)
    (htoml : ∀ raw v, Toml.read raw = some v → toml raw = .ok v)
    (hread : Toml.read flows = some v)
    (hv : asArray (Json.member "flow" v) =
      if t.flows = [] then none else some (t.flows.map fun f => ofMembers (flowEntries f)))
    (hvalid : ∀ f ∈ t.flows, FlowValid f)
    (hapart : t.flows.Pairwise fun x f => meets (unpeered x) (unpeered f) = false) :
    ["/etc/tessera/config.d/61-ndimon-flows.toml",
      "/etc/tessera/config.d/90-probe-flows.toml"].foldlM (importFlows toml files) [] =
      .ok (t.flows.map unpeered) := by
  have hfirst : importFlows toml files [] "/etc/tessera/config.d/61-ndimon-flows.toml" =
      .ok (t.flows.map unpeered) := by
    rw [importFlows, hfiles.flows]
    simp only [tomlJson_read htoml hread, Outcome.bind_ok, hv]
    by_cases hnone : t.flows = []
    · rw [if_pos hnone, hnone]
      rfl
    · have hnew : ∀ x ∈ ([] : List TesseraFlow), ∀ f ∈ t.flows, meets x (unpeered f) = false := by
        intro x hx
        cases hx
      rw [if_neg hnone]
      exact addFlows hvalid hnew hapart
  have hsecond : importFlows toml files (t.flows.map unpeered)
      "/etc/tessera/config.d/90-probe-flows.toml" = .ok (t.flows.map unpeered) := by
    have hempty : Toml.read "" = some (.obj []) := by decide +kernel
    rw [importFlows, hfiles.probe]
    simp only [tomlJson_read htoml hempty, Outcome.bind_ok]
    rfl
  rw [List.foldlM_cons, hfirst, Outcome.bind_ok, List.foldlM_cons, hsecond]
  rfl

def readBack (document : DesiredState) (t : Types.Tessera) : Types.Tessera :=
  { newTessera t.device.name t.device.latencyUs with
    enabled := (document.plugins.get? "tessera").any (·.enabled)
    device := t.device
    clock := t.clock
    flows := t.flows.map unpeered
    protocolFlowLock := t.protocolFlowLock }

/-- What is rendered for a valid document reads back as its Tessera settings. -/
theorem tessera_round_trip (hvalid : validate floatLen s = .ok ()) (ht : s.tessera = some t)
    (hpriority : t.clock.priority < 256)
    (htoml : ∀ raw v, Toml.read raw = some v → toml raw = .ok v) :
    ∃ device flows, renderArtifact "tessera-device" s = .ok device ∧
      renderArtifact "tessera-flows" s = .ok flows ∧
      renderArtifact "tessera-probe-flows" s = .ok "" ∧
      (Toml.read device).isSome = true ∧ (Toml.read flows).isSome = true ∧
      ∀ files, Written toml device flows files →
        ∃ next t', importTessera toml document files = .ok next ∧ next.tessera = some t' ∧
          t'.device = t.device ∧ t'.clock = t.clock ∧
          t'.protocolFlowLock = t.protocolFlowLock ∧ t'.flows = t.flows.map unpeered := by
  have herrors := tessera_of_valid hvalid ht
  have hdevice := device_valid herrors
  have hflows : (∀ f ∈ t.flows, FlowValid f) ∧
      t.flows.Pairwise fun x f => meets (unpeered x) (unpeered f) = false := by
    simp only [Validator.tessera, List.append_eq_nil_iff, check_eq_nil, decide_eq_true_eq] at herrors
    obtain ⟨⟨⟨-, hflows⟩, hrx⟩, -⟩ := herrors
    obtain ⟨hvalids, hpairwise, -, hcount⟩ := flows_valid hflows
    refine ⟨hvalids, pairwise_apart hvalids hpairwise ?_⟩
    rw [hcount] at hrx
    simpa using hrx
  have hconfig := config_of_doc t
  have hreadDevice := read_unlines (reads_deviceLines hdevice hpriority) (foldlM_deviceRead t)
  obtain ⟨ls, v, hlines, hreadFlows, hv⟩ := read_flows hflows.1
  have hrender : ∀ id, renderArtifact id s = (artifact id s t).map unlines := by
    intro id
    rw [renderArtifact, ht]
  refine ⟨unlines (deviceLines t), unlines ls, ?_, ?_, ?_, Option.isSome_of_eq_some hreadDevice,
    Option.isSome_of_eq_some hreadFlows, fun files hfiles => ?_⟩
  · rw [hrender, artifact, if_pos rfl, Outcome.map_ok]
  · rw [hrender, artifact, if_neg (by decide), if_pos rfl, hlines, Outcome.map_ok]
  · rw [hrender, artifact, if_neg (by decide), if_neg (by decide), if_pos rfl, Outcome.map_ok]
    rfl
  · obtain ⟨runtime, hruntime⟩ := runtimeState_ok hfiles
    have himport : importConfig toml document files (unlines (deviceLines t)) =
        .ok (readBack document t) := by
      refine Outcome.bind_eq_ok.mpr ⟨_, tomlJson_read htoml hreadDevice, ?_⟩
      refine Outcome.bind_eq_ok.mpr ⟨_, deviceOrError_config hconfig, ?_⟩
      refine Outcome.bind_eq_ok.mpr ⟨_, hruntime, ?_⟩
      refine Outcome.bind_eq_ok.mpr ⟨_, latency_config hdevice _, ?_⟩
      rw [deviceName_config hdevice]
      refine Outcome.bind_eq_ok.mpr ⟨_, importDevice_config hdevice hconfig, ?_⟩
      refine Outcome.bind_eq_ok.mpr ⟨_, importClock_config hpriority hconfig, ?_⟩
      refine Outcome.bind_eq_ok.mpr
        ⟨_, importFlows_written hfiles htoml hreadFlows hv hflows.1 hflows.2, ?_⟩
      rw [lock_config hconfig]
      rfl
    refine ⟨{ document with tessera := some (readBack document t) }, readBack document t, ?_, rfl,
      rfl, rfl, rfl, rfl⟩
    rw [importTessera, hfiles.device]
    exact congrArg (Except.map _) himport

end

/-- A reader of this part of TOML alone. -/
def plainToml (raw : String) : Except String Json :=
  match Toml.read raw with
  | some v => .ok v
  | none => .error "outside the subset"

def labelled : Types.Tessera where
  enabled := true
  device := { name := "Stage \"A\"", latencyUs := 1000, rxLabels := .singleton 2 "Bass" }
  clock := { role := .follower, priority := 200 }
  flows := [⟨"in", .rx, some "", 5004, true, none⟩, ⟨"out", .tx, some "10.0.0.7", 5004, false, some 32⟩]
  locks := .empty
  protocolFlowLock := false

def labelledState : DesiredState := { tessera := some labelled }

theorem labelled_round_trip : ∃ device flows,
    renderArtifact "tessera-device" labelledState = .ok device ∧
    renderArtifact "tessera-flows" labelledState = .ok flows ∧
    ∀ files, Written plainToml device flows files →
      ∃ next t, importTessera plainToml {} files = .ok next ∧ next.tessera = some t ∧
        t.device = labelled.device ∧ t.flows = labelled.flows.map unpeered := by
  have htoml : ∀ raw v, Toml.read raw = some v → plainToml raw = .ok v := by
    intro raw v h
    rw [plainToml, h]
  have hvalid : validate (fun _ => 0) labelledState = .ok () := by decide +kernel
  have hpriority : labelled.clock.priority < 256 := by decide
  obtain ⟨device, flows, hdevice, hflows, -, -, -, himport⟩ :=
    tessera_round_trip hvalid rfl hpriority htoml
  refine ⟨device, flows, hdevice, hflows, fun files hfiles => ?_⟩
  obtain ⟨next, t, hok, ht, hsame, -, -, hflow⟩ := himport files hfiles
  exact ⟨next, t, hok, ht, hsame, hflow⟩

end NdimonR.State.ImportTessera
