import NdimonR.Library.JsonLength
import NdimonR.State.AudioLossless
import NdimonR.State.TesseraRoundTrip

/-! The limit on a set of Tessera flows: what the validator counts, the text that control shows of
the flows, and the text that the privileged writer measures. -/

namespace NdimonR.State.Flows

open NdimonR.Types Text ImportTessera

/-! ### The texts -/

def directionText : Direction → String
  | .rx => "rx"
  | .tx => "tx"

def idMembers (f : TesseraFlow) : List (String × Json) :=
  [("id", .str f.id), ("direction", .str (directionText f.direction)), ("port", .int f.port)]

def peerMember (f : TesseraFlow) : List (String × Json) :=
  f.peer.toList.map fun peer => ("peer", .str peer)

def framesMember (f : TesseraFlow) : List (String × Json) :=
  f.framesPerPacket.toList.map fun n => ("frames_per_packet", .int n)

/-- The members of a flow in the order they are assigned. -/
def flowMembers (f : TesseraFlow) : List (String × Json) :=
  idMembers f ++ peerMember f ++ (if f.anySource then [("any_source", .bool true)] else []) ++
    framesMember f

def flowValues (flows : List TesseraFlow) : Json :=
  .arr (flows.map fun f => .obj (flowMembers f))

/-- The members of the flow in a privileged request. Only the options are left out where they are
unset. -/
def specMembers (f : TesseraFlow) : List (String × Json) :=
  idMembers f ++ peerMember f ++ [("any_source", .bool f.anySource)] ++ framesMember f

def specValues (flows : List TesseraFlow) : Json :=
  .arr (flows.map fun f => .obj (specMembers f))

section
variable (floatText : ℚ → String)

/-- The size check of the privileged write of flows. -/
def writeAccepts (flows : List TesseraFlow) : Bool :=
  len ((specValues flows).render floatText) ≤ 60000

/-! ### Their sizes -/

variable {floatText} {floatLen : ℚ → Nat}

theorem size_values (members : TesseraFlow → List (String × Json)) (flows : List TesseraFlow) :
    Json.size floatLen (.arr (flows.map fun f => .obj (members f))) =
      2 + (flows.map fun f => Json.size floatLen (.obj (members f))).sum + (flows.length - 1) := by
  rw [Json.size, Json.sizeItems_eq, List.map_map, List.length_map]
  rfl

theorem flowWriteSize_sum (flows : List TesseraFlow) :
    flowWriteSize flows = 2 + (flows.map flowSize).sum + (flows.length - 1) := by
  have h : ∀ n, flows.foldl (fun n flow => n + flowSize flow) n = n + (flows.map flowSize).sum := by
    induction flows with
    | nil => simp
    | cons f rest ih =>
      intro n
      rw [List.foldl_cons, ih, List.map_cons, List.sum_cons, Nat.add_assoc]
  rw [flowWriteSize, h]

theorem size_members {members : List (String × Json)} (h : members ≠ []) :
    Json.size floatLen (.obj members) = 1 + (members.map (Json.memberSize floatLen)).sum := by
  have hsum := Json.sizeMembers_add_length floatLen members
  have hpos := List.length_pos_of_ne_nil h
  rw [Json.size]
  omega

theorem memberSize_str (k v : String) :
    Json.memberSize floatLen (k, .str v) = Json.stringSize k + 2 + Json.stringSize v := by
  rw [Json.memberSize, Json.size]

theorem memberSize_nat (k : String) (n : Nat) :
    Json.memberSize floatLen (k, .int n) = Json.stringSize k + 2 + len (toString n) := by
  rw [Json.memberSize, Json.size]
  rfl

theorem memberSize_bool (k : String) (b : Bool) :
    Json.memberSize floatLen (k, .bool b) = Json.stringSize k + 2 + if b then 4 else 5 := by
  rw [Json.memberSize, Json.size]

theorem idMembers_size (f : TesseraFlow) :
    ((idMembers f).map (Json.memberSize floatLen)).sum + 1 =
      2 + len "\"id\":" + Json.stringSize f.id + len ",\"direction\":" +
        Json.stringSize (directionText f.direction) + len ",\"port\":" + len (toString f.port) := by
  simp only [idMembers, List.map_cons, List.map_nil, List.sum_cons, List.sum_nil, memberSize_str,
    memberSize_nat]
  change 4 + 2 + _ + (11 + 2 + _ + (6 + 2 + _ + 0)) + 1 = 2 + 5 + _ + 13 + _ + 8 + _
  omega

theorem peerMember_size (f : TesseraFlow) :
    ((peerMember f).map (Json.memberSize floatLen)).sum =
      f.peer.elim 0 fun peer => len ",\"peer\":" + Json.stringSize peer := by
  unfold peerMember
  cases f.peer with
  | none => rfl
  | some peer => exact memberSize_str "peer" peer

theorem framesMember_size (f : TesseraFlow) :
    ((framesMember f).map (Json.memberSize floatLen)).sum =
      f.framesPerPacket.elim 0 fun n => len ",\"frames_per_packet\":" + len (toString n) := by
  unfold framesMember
  cases f.framesPerPacket with
  | none => rfl
  | some n => exact memberSize_nat "frames_per_packet" n

theorem size_flow (f : TesseraFlow) : Json.size floatLen (.obj (flowMembers f)) = flowSize f := by
  have hany : ((if f.anySource then [("any_source", Json.bool true)] else []).map
      (Json.memberSize floatLen)).sum = if f.anySource then len ",\"any_source\":true" else 0 := by
    cases f.anySource with
    | false => rfl
    | true => exact @memberSize_bool floatLen "any_source" true
  have hid := @idMembers_size floatLen f
  rw [size_members (by simp [flowMembers, idMembers]), flowMembers]
  simp only [List.map_append, List.sum_append]
  rw [hany, peerMember_size, framesMember_size]
  change _ = 2 + _ + _ + _ + Json.stringSize (directionText f.direction) + _ + _ + _ + _ + _
  omega

/-- What the privileged request has besides the shown flow: `any_source` where it is unset. -/
theorem size_spec (f : TesseraFlow) : Json.size floatLen (.obj (specMembers f)) =
    flowSize f + if f.anySource then 0 else 19 := by
  have hflow := @size_flow floatLen f
  rw [size_members (by simp [flowMembers, idMembers]), flowMembers] at hflow
  rw [size_members (by simp [specMembers, idMembers]), specMembers]
  simp only [List.map_append, List.sum_append, List.map_singleton, List.sum_singleton,
    memberSize_bool] at hflow ⊢
  have hname : Json.stringSize "any_source" = 12 := rfl
  cases hany : f.anySource with
  | false =>
    rw [hany] at hflow
    simp only [Bool.false_eq_true, if_false, List.map_nil, List.sum_nil] at hflow ⊢
    omega
  | true =>
    rw [hany] at hflow
    simp only [if_true, List.map_singleton, List.sum_singleton, memberSize_bool] at hflow ⊢
    omega

/-! ### The limit -/

theorem len_flowValues {flows : List TesseraFlow} {arranged : List (List (String × Json))}
    (h : List.Forall₂ (fun m f => m.Perm (flowMembers f)) arranged flows) :
    len ((Json.arr (arranged.map .obj)).render floatText) = flowWriteSize flows := by
  have hsizes : (arranged.map .obj).map (Json.size fun q => len (floatText q)) =
      flows.map flowSize := by
    induction h with
    | nil => rfl
    | cons hperm _ ih =>
      simp only [List.map_cons] at ih ⊢
      rw [ih, Json.size_perm _ hperm, size_flow]
  rw [Json.len_render, Json.size, Json.sizeItems_eq, hsizes, List.length_map, h.length_eq,
    flowWriteSize_sum]

theorem len_specValues (flows : List TesseraFlow) :
    len ((specValues flows).render floatText) =
      flowWriteSize flows + 19 * flows.countP (!·.anySource) := by
  have hsum : (flows.map fun f => Json.size (fun q => len (floatText q)) (.obj (specMembers f))).sum =
      (flows.map flowSize).sum + 19 * flows.countP (!·.anySource) := by
    induction flows with
    | nil => rfl
    | cons f rest ih =>
      rw [List.map_cons, List.sum_cons, ih, size_spec, List.map_cons, List.sum_cons,
        List.countP_cons]
      cases f.anySource <;> simp <;> omega
  rw [Json.len_render, specValues, size_values, hsum, flowWriteSize_sum]
  omega

variable (floatText)

/-- The validator counts the text that is shown of the flows, in any order of their members, and
admits the sets that the privileged write admits. -/
structure Measured (flows : List TesseraFlow) : Prop where
  shown : ∀ arranged, List.Forall₂ (fun m f => m.Perm (flowMembers f)) arranged flows →
    len ((Json.arr (arranged.map .obj)).render floatText) = flowWriteSize flows
  admitted : flowWriteSize flows ≤ 60000 ↔ writeAccepts floatText flows = true

/-- The count is always that of the shown text. The two limits agree unless the nineteen bytes that
the request has for each flow without `any_source` carry it past the limit. -/
theorem measured_iff (flows : List TesseraFlow) : Measured floatText flows ↔
    (60000 < len ((flowValues flows).render floatText) ∨
      len ((flowValues flows).render floatText) + 19 * flows.countP (!·.anySource) ≤ 60000) := by
  have hself : List.Forall₂ (fun m f => m.Perm (flowMembers f)) (flows.map flowMembers) flows :=
    List.forall₂_map_left_iff.mpr (List.forall₂_same.mpr fun f _ => .refl _)
  have hshown : len ((flowValues flows).render floatText) = flowWriteSize flows := by
    rw [← @len_flowValues floatText _ _ hself, List.map_map]
    rfl
  have hwrite : writeAccepts floatText flows = true ↔
      flowWriteSize flows + 19 * flows.countP (!·.anySource) ≤ 60000 := by
    rw [writeAccepts, decide_eq_true_eq, len_specValues]
  rw [hshown]
  constructor
  · intro h
    have hadmitted := h.admitted.trans hwrite
    omega
  · intro h
    exact ⟨fun _ => len_flowValues, by rw [hwrite]; omega⟩

end

/-! ### A set between the limits -/

theorem flow_admitted {st : Validator.FlowState} {i j : Nat} {f : TesseraFlow}
    (h : (Validator.flow {} j f).1 = []) (hid : f.id ∉ st.ids)
    (htarget : (f.direction, f.peer, f.port, f.anySource) ∉ st.targets) :
    (Validator.flow st i f).1 = [] := by
  simp only [Validator.flow, List.append_eq_nil_iff, check_eq_nil, range_eq_nil, Bool.and_eq_true,
    Bool.not_eq_true', Bool.or_eq_true, List.contains_eq_mem, decide_eq_false_iff_not] at h ⊢
  obtain ⟨⟨⟨⟨⟨⟨hshape, -⟩, hport⟩, -⟩, hany⟩, hpeer⟩, hframes⟩ := h
  refine ⟨⟨⟨⟨⟨⟨hshape, hid⟩, hport⟩, htarget⟩, hany⟩, ?_⟩, ?_⟩
  · split
    · rfl
    · rename_i hno
      rw [if_neg hno, check_eq_nil] at hpeer
      exact check_eq_nil.mpr hpeer
  · cases hn : f.framesPerPacket with
    | none => rfl
    | some n =>
      simp only [hn, Option.elim_some, List.append_eq_nil_iff, check_eq_nil, range_eq_nil]
        at hframes ⊢
      exact hframes

/-- Flows that are admitted one by one and are all distinct are admitted together. -/
theorem flows_admitted {st : Validator.FlowState} {i : Nat} {l : List TesseraFlow}
    (heach : ∀ f ∈ l, (Validator.flow {} 0 f).1 = [])
    (hnew : ∀ f ∈ l, f.id ∉ st.ids ∧ (f.direction, f.peer, f.port, f.anySource) ∉ st.targets)
    (hdistinct : l.Pairwise Distinct) : (Validator.flows st i l).1 = [] := by
  induction l generalizing st i with
  | nil => rfl
  | cons f l ih =>
    obtain ⟨hfirst, hrest⟩ := List.pairwise_cons.mp hdistinct
    obtain ⟨hid, htarget⟩ := hnew f List.mem_cons_self
    simp only [Validator.flows, List.append_eq_nil_iff]
    refine ⟨flow_admitted (heach f List.mem_cons_self) hid htarget, ih ?_ ?_ hrest⟩
    · exact fun g hg => heach g (List.mem_cons_of_mem _ hg)
    · intro g hg
      obtain ⟨hgid, hgtarget⟩ := hnew g (List.mem_cons_of_mem _ hg)
      obtain ⟨hne, hother⟩ := hfirst g hg
      constructor
      · simp only [Validator.flow]
        split
        · simpa using ⟨Ne.symm hne, hgid⟩
        · exact hgid
      · rw [(flow_seen st i f).2]
        exact List.not_mem_cons_of_ne_of_not_mem (Ne.symm hother) hgtarget

/-- One of the streams of a studio to its receiver. -/
def studioFlow (i : Nat) : TesseraFlow where
  id := toString (1000 + i)
  direction := .tx
  peer := some "192.168.100.100"
  port := 20000 + i
  anySource := false
  framesPerPacket := none

def studioFlows (n : Nat) : List TesseraFlow := (List.range n).map studioFlow

def studio (n : Nat) : Types.Tessera where
  enabled := true
  device := { name := "studio", latencyUs := 1000 }
  clock := {}
  flows := studioFlows n
  locks := .empty

theorem code_of_digit {c : Char} (h : isAsciiDigit c = true) : 48 ≤ c.toNat ∧ c.toNat ≤ 57 := by
  simpa [isAsciiDigit, Char.le_def, UInt32.le_iff_toNat_le] using h

/-- A number of `k + 1` digits. -/
theorem len_number {n k : Nat} (hlow : 10 ^ k ≤ n) (hhigh : n < 10 ^ (k + 1)) (hk : 0 < k) :
    len (toString n) = k + 1 := by
  have hdigits := List.all_eq_true.mp (digits_toString n)
  rw [len_ascii fun c hc => (code_of_digit (hdigits c hc)).2.trans_lt (by decide), chars,
    String.length_toList]
  have hle := (Nat.length_repr_le_iff (Nat.succ_pos k)).mpr hhigh
  have hlt := mt (Nat.length_repr_le_iff hk).mp (not_lt.mpr hlow)
  change (Nat.repr n).length = k + 1
  omega

theorem stringSize_number (n : Nat) : Json.stringSize (toString n) = 2 + len (toString n) := by
  have hdigits := List.all_eq_true.mp (digits_toString n)
  rw [Json.stringSize_eq, len_eq_sum, List.map_congr_left]
  intro c hc
  obtain ⟨hlow, hhigh⟩ := code_of_digit (hdigits c hc)
  unfold Json.escapeSize
  rw [if_neg, if_neg (by omega)]
  intro hspecial
  simp only [List.mem_cons, List.not_mem_nil, or_false] at hspecial
  rcases hspecial with rfl | rfl | rfl | rfl | rfl | rfl | rfl <;> revert hlow hhigh <;> decide

theorem studioFlow_size {i : Nat} (hi : i < 700) : flowSize (studioFlow i) = 68 := by
  have hid : len (toString (1000 + i)) = 3 + 1 := len_number (by omega) (by omega) (by decide)
  have hport : len (toString (20000 + i)) = 4 + 1 := len_number (by omega) (by omega) (by decide)
  have hpeer : Json.stringSize "192.168.100.100" = 17 := rfl
  simp only [flowSize, studioFlow, Option.elim_some, Option.elim_none, Bool.false_eq_true, if_false,
    stringSize_number, hid, hport, hpeer]
  rfl

theorem studioFlow_admitted {i : Nat} (hi : i < 700) :
    (Validator.flow {} 0 (studioFlow i)).1 = [] := by
  have hid : len (studioFlow i).id = 3 + 1 := len_number (by omega) (by omega) (by decide)
  have hall : all (fun c => isAsciiAlphanumeric c || c == '_' || c == '-') (studioFlow i).id =
      true := by
    refine List.all_eq_true.mpr fun c hc => ?_
    have hdigit := List.all_eq_true.mp (digits_toString (1000 + i)) c hc
    rw [isAsciiAlphanumeric, hdigit, Bool.or_true, Bool.true_or, Bool.true_or]
  have hport : 1024 ≤ (studioFlow i).port ∧ (studioFlow i).port ≤ 65535 := by
    change 1024 ≤ 20000 + i ∧ 20000 + i ≤ 65535
    omega
  have hpeer : ((studioFlow i).peer.bind Ipv4Addr.parse).any (fun ip =>
      ip.o0 ≠ 0 && ip.o0 ≠ 127 && ip.o0 < 224) = true := by
    change ((some "192.168.100.100").bind Ipv4Addr.parse).any _ = true
    decide +kernel
  have hany : (studioFlow i).anySource = false := rfl
  have hframes : (studioFlow i).framesPerPacket = none := rfl
  simp only [Validator.flow, List.append_eq_nil_iff, hid, hall, hany, hframes, Bool.false_eq_true,
    if_false, Option.elim_none, check_eq_nil, range_eq_nil]
  exact ⟨⟨⟨⟨⟨rfl, hport⟩, rfl⟩, rfl⟩, hpeer⟩, trivial⟩

section
variable {n : Nat}

theorem mem_studioFlows {f : TesseraFlow} (h : f ∈ studioFlows n) : ∃ i < n, f = studioFlow i := by
  obtain ⟨i, hi, rfl⟩ := List.mem_map.mp h
  exact ⟨i, List.mem_range.mp hi, rfl⟩

theorem length_studioFlows : (studioFlows n).length = n := by
  rw [studioFlows, List.length_map, List.length_range]

theorem studioFlows_distinct : (studioFlows n).Pairwise Distinct := by
  rw [studioFlows, List.pairwise_map]
  refine List.nodup_range.imp fun {i j} hne => ⟨fun hid => hne ?_, fun htarget => hne ?_⟩
  · have hsame := Audio.toString_inj (congrArg String.toList hid)
    omega
  · have hport : 20000 + i = 20000 + j := congrArg (·.2.2.1) htarget
    omega

theorem studioFlows_size (hn : n ≤ 700) : flowWriteSize (studioFlows n) = 2 + n * 68 + (n - 1) := by
  have hsame : (studioFlows n).map flowSize = List.replicate n 68 := by
    rw [List.eq_replicate_iff, List.length_map, length_studioFlows]
    refine ⟨rfl, fun k hk => ?_⟩
    obtain ⟨f, hf, rfl⟩ := List.mem_map.mp hk
    obtain ⟨i, hi, rfl⟩ := mem_studioFlows hf
    exact studioFlow_size (by omega)
  rw [flowWriteSize_sum, hsame, List.sum_replicate, length_studioFlows, smul_eq_mul]

theorem studio_valid (hn : n ≤ 700) : Validator.tessera (studio n) {} = [] := by
  have hflows : (Validator.flows {} 0 (studio n).flows).1 = [] := by
    refine flows_admitted ?_ (by simp) studioFlows_distinct
    intro f hf
    obtain ⟨i, hi, rfl⟩ := mem_studioFlows hf
    exact studioFlow_admitted (by omega)
  have hrx : (Validator.flows {} 0 (studio n).flows).2.rx = 0 := by
    rw [(flows_valid hflows).2.2.2]
    have hnone : (studio n).flows.countP (·.direction = .rx) = 0 := by
      rw [List.countP_eq_zero]
      intro f hf
      obtain ⟨i, -, rfl⟩ := mem_studioFlows hf
      simp [studioFlow]
    rw [hnone]
  have hsize : flowWriteSize (studio n).flows ≤ 60000 :=
    (studioFlows_size hn).trans_le (by omega)
  have hdevice : (studio n).device = { name := "studio", latencyUs := 1000 } := rfl
  simp only [Validator.tessera, List.append_eq_nil_iff, check_eq_nil, range_eq_nil, hrx, hdevice]
  refine ⟨⟨⟨⟨⟨⟨⟨⟨⟨⟨by decide, by decide⟩, by decide⟩, by decide⟩, by decide⟩, by decide⟩, rfl⟩,
    by decide⟩, hflows⟩, by decide⟩, by simpa using hsize⟩

theorem studio_exceeds (floatText : ℚ → String) (hn : n ≤ 700) (hmany : 682 ≤ n) :
    writeAccepts floatText (studio n).flows = false := by
  have hcount : (studio n).flows.countP (!·.anySource) = n := by
    rw [List.countP_eq_length.mpr]
    · exact length_studioFlows
    · intro f hf
      obtain ⟨i, -, rfl⟩ := mem_studioFlows hf
      rfl
  have hsize : flowWriteSize (studio n).flows = 2 + n * 68 + (n - 1) := studioFlows_size hn
  rw [writeAccepts, decide_eq_false_iff_not, len_specValues, hsize, hcount]
  omega

end

/-- The validator admits the studio, and the privileged write refuses its flows for their size. -/
theorem studio_refused : Validator.tessera (studio 700) {} = [] ∧
    ∀ floatText, writeAccepts floatText (studio 700).flows = false :=
  ⟨studio_valid le_rfl, fun floatText => studio_exceeds floatText le_rfl (by decide)⟩

end NdimonR.State.Flows
