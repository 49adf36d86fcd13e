import Mathlib.Algebra.Order.Ring.Rat
import Mathlib.Data.List.Perm.Basic
import Mathlib.Data.Prod.Lex
import NdimonR.State.AudioCompiled

/-! A kept legacy matrix: when a selection counts as unchanged, and what its routes keep. -/

namespace NdimonR.State.Audio

open NdimonR.Types Text Json

/-! ### Sorting a selection -/

theorem keyLe_iff (a b : String × ℚ) : keyLe a b = true ↔ toLex a ≤ toLex b := by
  simp [keyLe, Prod.Lex.le_iff]

theorem sorted_keys (l : List (String × ℚ)) : (l.mergeSort keyLe).Pairwise fun a b => keyLe a b := by
  refine List.pairwise_mergeSort (fun a b c hab hbc => ?_) (fun a b => ?_) l
  · rw [keyLe_iff] at hab hbc ⊢
    exact hab.trans hbc
  · rw [Bool.or_eq_true, keyLe_iff, keyLe_iff]
    exact le_total (toLex a) (toLex b)

theorem mergeSort_keys_eq_iff {l m : List (String × ℚ)} :
    l.mergeSort keyLe = m.mergeSort keyLe ↔ l.Perm m := by
  constructor
  · intro h
    have hl := List.mergeSort_perm l keyLe
    rw [h] at hl
    exact hl.symm.trans (List.mergeSort_perm m keyLe)
  · intro h
    refine List.Perm.eq_of_pairwise (fun a b _ _ hab hba => ?_) (sorted_keys l) (sorted_keys m) ?_
    · rw [keyLe_iff] at hab hba
      exact toLex.injective (le_antisymm hab hba)
    · exact (List.mergeSort_perm l keyLe).trans (h.trans (List.mergeSort_perm m keyLe).symm)

theorem mergeSort_names_eq_iff {l m : List String} :
    l.mergeSort (· ≤ ·) = m.mergeSort (· ≤ ·) ↔ l.Perm m := by
  have hsorted : ∀ l : List String, (l.mergeSort (· ≤ ·)).Pairwise fun a b => a ≤ b := by
    intro l
    have h := @List.pairwise_mergeSort String (fun a b => decide (a ≤ b))
      (fun a b c hab hbc => by simpa using le_trans (of_decide_eq_true hab) (of_decide_eq_true hbc))
      (fun a b => by simpa using le_total a b) l
    simpa using h
  constructor
  · intro h
    have hl := List.mergeSort_perm l (· ≤ ·)
    rw [h] at hl
    exact hl.symm.trans (List.mergeSort_perm m (· ≤ ·))
  · intro h
    refine List.Perm.eq_of_pairwise (fun a b _ _ hab hba => le_antisymm hab hba)
      (hsorted l) (hsorted m) ?_
    exact (List.mergeSort_perm l _).trans (h.trans (List.mergeSort_perm m _).symm)

/-! ### Same selections -/

/-- Two selections of the same nodes, the inputs at the same gains, in any order. -/
structure SameMix (catalog : Json) (a b : OutputAudio) : Prop where
  inputs : (a.inputs.map (inputKey catalog)).Perm (b.inputs.map (inputKey catalog))
  destinations :
    (a.destinations.map (destinationKey catalog)).Perm (b.destinations.map (destinationKey catalog))

/-- Two selections of the same endpoints, the inputs at the same gains, in any order. -/
structure SameEndpoints (a b : OutputAudio) : Prop where
  inputs : (a.inputs.map fun i => (i.endpoint, i.gainDb)).Perm
    (b.inputs.map fun i => (i.endpoint, i.gainDb))
  destinations : (a.destinations.map (·.endpoint)).Perm (b.destinations.map (·.endpoint))

theorem SameEndpoints.sameMix {a b : OutputAudio} (h : SameEndpoints a b) (catalog : Json) :
    SameMix catalog a b := by
  constructor
  · have hkeys := h.inputs.map fun k : String × ℚ => inputKey catalog ⟨k.1, k.2, 0⟩
    rw [List.map_map, List.map_map] at hkeys
    exact hkeys
  · have hkeys := h.destinations.map fun k : String => destinationKey catalog ⟨k, 0⟩
    rw [List.map_map, List.map_map] at hkeys
    exact hkeys

section
variable {catalog : Json} {a b : OutputAudio}

theorem signature_ok {x : List (String × ℚ) × List String} (h : signature catalog a = .ok x) :
    ∃ (inputs : List (String × ℚ)) (destinations : List String), a.inputs.map (inputKey catalog) = inputs.map .ok ∧
      a.destinations.map (destinationKey catalog) = destinations.map .ok ∧
      x = (inputs.mergeSort keyLe, destinations.mergeSort (· ≤ ·)) := by
  obtain ⟨inputs, hinputs, h⟩ := Outcome.bind_eq_ok.mp h
  obtain ⟨destinations, hdestinations, h⟩ := Outcome.bind_eq_ok.mp h
  exact ⟨inputs, destinations, Outcome.mapM_eq_ok_iff_map.mp hinputs,
    Outcome.mapM_eq_ok_iff_map.mp hdestinations, (Except.ok.inj h).symm⟩

theorem ok_injective {α : Type} : Function.Injective (Except.ok : α → Except ApiError α) :=
  fun _ _ h => Except.ok.inj h

/-- The comparison of signatures is the comparison of selections. -/
theorem sameSelection_iff {same : Bool} (h : sameSelection catalog (some a) b = .ok same) :
    same = true ↔ SameMix catalog a b := by
  obtain ⟨x, hx, h⟩ := Outcome.bind_eq_ok.mp h
  obtain ⟨y, hy, h⟩ := Outcome.bind_eq_ok.mp h
  obtain ⟨i, d, hi, hd, rfl⟩ := signature_ok hx
  obtain ⟨i', d', hi', hd', rfl⟩ := signature_ok hy
  rw [← Except.ok.inj h, decide_eq_true_iff, Prod.mk.injEq, mergeSort_keys_eq_iff,
    mergeSort_names_eq_iff]
  constructor
  · rintro ⟨hinputs, hdestinations⟩
    exact ⟨by rw [hi, hi']; exact hinputs.map _, by rw [hd, hd']; exact hdestinations.map _⟩
  · intro hsame
    have hinputs := hsame.inputs
    have hdestinations := hsame.destinations
    rw [hi, hi', List.map_perm_map_iff ok_injective] at hinputs
    rw [hd, hd', List.map_perm_map_iff ok_injective] at hdestinations
    exact ⟨hinputs, hdestinations⟩

end

/-! ### The matrix check -/

section
variable {digest : String → String} {floatText : ℚ → String} {original : Types.Audio}
  {output : OutputId} {previous choice : OutputAudio} {catalog : Json}

theorem compileOutput_of_sameMix (hprevious : original.outputs.get? output = some previous)
    (h : SameMix catalog previous choice) :
    compileOutput digest floatText original output choice false catalog =
      compileOutput digest floatText original output choice true catalog := by
  unfold compileOutput
  split
  · rfl
  · refine bind_congr fun inputs => bind_congr fun destinations => bind_congr fun _ =>
      bind_congr fun _ => ?_
    have hbefore : (canonicalize digest original).outputs.get? output = some previous := hprevious
    simp only [hbefore]
    cases hs : sameSelection catalog (some previous)
        (settle (canonicalize digest original) output choice) with
    | error e => rfl
    | ok same =>
      have hsame : same = true := (sameSelection_iff hs).mpr ⟨h.inputs, h.destinations⟩
      subst hsame
      simp only [Outcome.bind_ok, Bool.not_true, Bool.and_false, Bool.false_and]

/-- A kept matrix is compiled only for an unchanged selection. -/
theorem sameMix_of_ok {result : Types.Audio} (hprevious : original.outputs.get? output = some previous)
    (hlegacy : previous.legacyMatrix = true)
    (h : compileOutput digest floatText original output choice false catalog = .ok result) :
    SameMix catalog previous choice := by
  unfold compileOutput at h
  split at h
  · cases h
  · obtain ⟨_, -, h⟩ := Outcome.bind_eq_ok.mp h
    obtain ⟨_, -, h⟩ := Outcome.bind_eq_ok.mp h
    obtain ⟨_, -, h⟩ := Outcome.bind_eq_ok.mp h
    obtain ⟨_, -, h⟩ := Outcome.bind_eq_ok.mp h
    obtain ⟨same, hs, h⟩ := Outcome.bind_eq_ok.mp h
    have hbefore : (canonicalize digest original).outputs.get? output = some previous := hprevious
    rw [hbefore] at hs h
    cases same with
    | true =>
      have hmix := (sameSelection_iff hs).mp rfl
      exact ⟨hmix.inputs, hmix.destinations⟩
    | false => simp [hlegacy] at h

/-- Nothing but the matrix check stands in the way of comparing two selections. -/
structure Comparable (floatText : ℚ → String) (catalog : Json) (previous choice : OutputAudio) :
    Prop where
  inputs : ∃ entries, choice.inputs.map (fun i => resolve catalog "inputs" i.endpoint) =
    entries.map .ok ∧ checkSelection floatText [] entries = .ok ()
  destinations : ∃ entries, choice.destinations.map
    (fun d => resolve catalog "destinations" d.endpoint) = entries.map .ok ∧
      checkSelection floatText [] entries = .ok ()
  savedInputs : ∀ i ∈ previous.inputs, (resolve catalog "inputs" i.endpoint).isOk = true
  savedDestinations :
    ∀ d ∈ previous.destinations, (resolve catalog "destinations" d.endpoint).isOk = true

theorem signature_isOk {a : OutputAudio}
    (hi : ∀ i ∈ a.inputs, (resolve catalog "inputs" i.endpoint).isOk = true)
    (hd : ∀ d ∈ a.destinations, (resolve catalog "destinations" d.endpoint).isOk = true) :
    ∃ x, signature catalog a = .ok x := by
  have hinputs : (a.inputs.mapM (inputKey catalog)).isOk = true := by
    refine Outcome.isOk_mapM.mpr fun i hmem => ?_
    obtain ⟨v, hv⟩ := Outcome.isOk_iff.mp (hi i hmem)
    rw [inputKey, hv]
    rfl
  have hdestinations : (a.destinations.mapM (destinationKey catalog)).isOk = true := by
    refine Outcome.isOk_mapM.mpr fun d hmem => ?_
    obtain ⟨v, hv⟩ := Outcome.isOk_iff.mp (hd d hmem)
    rw [destinationKey, hv]
    rfl
  obtain ⟨x, hx⟩ := Outcome.isOk_iff.mp hinputs
  obtain ⟨y, hy⟩ := Outcome.isOk_iff.mp hdestinations
  exact ⟨_, by rw [signature, hx, Outcome.bind_ok, hy]; rfl⟩

theorem isOk_of_map_ok {α : Type} {f : α → Except ApiError Json} {l : List α} {entries : List Json}
    (h : l.map f = entries.map .ok) : ∀ x ∈ l, (f x).isOk = true := by
  intro x hx
  have hmem : f x ∈ entries.map Except.ok := h ▸ List.mem_map_of_mem hx
  obtain ⟨v, -, hv⟩ := List.mem_map.mp hmem
  rw [← hv]
  rfl

theorem compileOutput_unconfirmed (hprevious : original.outputs.get? output = some previous)
    (hlegacy : previous.legacyMatrix = true) (houtput : 1 ≤ output ∧ output ≤ 8)
    (hcomparable : Comparable floatText catalog previous choice)
    (hdiffers : ¬SameMix catalog previous choice) :
    compileOutput digest floatText original output choice false catalog =
      .error matrixUnconfirmed := by
  obtain ⟨inputs, hinputs, hci⟩ := hcomparable.inputs
  obtain ⟨destinations, hdestinations, hcd⟩ := hcomparable.destinations
  have hbefore : (canonicalize digest original).outputs.get? output = some previous := hprevious
  obtain ⟨x, hx⟩ := signature_isOk hcomparable.savedInputs hcomparable.savedDestinations
  obtain ⟨y, hy⟩ := signature_isOk (a := settle (canonicalize digest original) output choice)
    (isOk_of_map_ok hinputs) (isOk_of_map_ok hdestinations)
  have hs : sameSelection catalog (some previous)
      (settle (canonicalize digest original) output choice) = .ok (decide (x = y)) := by
    rw [sameSelection, hx, Outcome.bind_ok, hy, Outcome.bind_ok]
  have hne : x ≠ y := by
    intro heq
    have hmix := (sameSelection_iff hs).mp (decide_eq_true heq)
    exact hdiffers ⟨hmix.inputs, hmix.destinations⟩
  unfold compileOutput
  rw [if_neg (by simpa using houtput)]
  simp only
  rw [show (settle (canonicalize digest original) output choice).inputs = choice.inputs from rfl,
    show (settle (canonicalize digest original) output choice).destinations = choice.destinations
      from rfl,
    Outcome.mapM_eq_ok_iff_map.mpr hinputs, Outcome.bind_ok,
    Outcome.mapM_eq_ok_iff_map.mpr hdestinations, Outcome.bind_ok, hci, Outcome.bind_ok, hcd,
    Outcome.bind_ok, hbefore, hs, Outcome.bind_ok]
  simp [hlegacy, hne]

/-! ### The gains -/

/-- Each route of the output that joins what one of its routes joined before has that one's
gain. -/
def GainsKept (digest : String → String) (original result : Types.Audio) (output : OutputId) :
    Prop :=
  ∀ r ∈ result.routes.values, r.output = output → ∀ e, e.2.output = output →
    sourceName original e.2.source = r.source → sinkName original e.2.sink = r.sink →
      original.routes.LastUnder (fun _ => routeKey digest original)
        (routeId digest output r.source r.sink) e → r.gainDb = e.2.gainDb

/-- The only canonical route between two nodes is the one found. -/
theorem keptGain_eq {e : String × AudioRoute} {i : AudioInput} {d : AudioDestination}
    {source sink : String} (ho : e.2.output = output)
    (hsource : sourceName original e.2.source = source) (hsink : sinkName original e.2.sink = sink)
    (hlast : original.routes.LastUnder (fun _ => routeKey digest original)
      (routeId digest output source sink) e) :
    keptGain (canonicalize digest original) previous output i d source sink = e.2.gainDb := by
  have hget : (canonicalize digest original).routes.get? (routeId digest output source sink) =
      some (canonicalRoute original e.2) := hlast.get?_rekey
  have hmem : canonicalRoute original e.2 ∈ (canonicalize digest original).routes.values :=
    SortedMap.mem_values.mpr ⟨_, hget⟩
  unfold keptGain
  cases hfind : (canonicalize digest original).routes.values.find? fun r =>
      r.output == output && r.source == source && r.sink == sink with
  | none =>
    have hno := List.find?_eq_none.mp hfind _ hmem
    simp [canonicalRoute, ho, hsource, hsink] at hno
  | some prior =>
    have htest := List.find?_some hfind
    simp only [Bool.and_eq_true, beq_iff_eq] at htest
    obtain ⟨⟨hpo, hps⟩, hpt⟩ := htest
    obtain ⟨k, hk⟩ := SortedMap.mem_values.mp (List.mem_of_find?_eq_some hfind)
    have hid := canonical_route hk
    rw [hpo, hps, hpt] at hid
    rw [← hid, hget] at hk
    cases hk
    rfl

theorem gainsKept_of_ok {result : Types.Audio} (hprevious : original.outputs.get? output = some previous)
    (hlegacy : previous.legacyMatrix = true) (hmix : SameMix catalog previous choice)
    {normalize : Bool}
    (h : compileOutput digest floatText original output choice normalize catalog = .ok result) :
    GainsKept digest original result output := by
  obtain ⟨same, inputs, destinations, mid, rfl, hmid⟩ := compileOutput_ok h
  have hs := hmid.same
  simp only [hprevious] at hs
  have hsame : same = true := (sameSelection_iff hs).mpr ⟨hmix.inputs, hmix.destinations⟩
  intro r hr ho e heo hsource hsink hlast
  have hmade : r ∈ ((refresh mid).routes.filter fun _ r => r.output = output).values := by
    rw [SortedMap.values_filter]
    exact List.mem_filter.mpr ⟨hr, decide_eq_true ho⟩
  rw [hmid.routes_own] at hmade
  obtain ⟨k, hk⟩ := SortedMap.mem_values.mp hmade
  obtain ⟨pair, -, hpair⟩ :=
    List.mem_filterMap.mp (SortedMap.mem_ofList (SortedMap.mem_entries_iff.mpr hk))
  obtain ⟨nodes, -, heq⟩ := Option.map_eq_some_iff.mp hpair
  obtain ⟨-, rfl⟩ := Prod.mk.inj heq
  change routeGain _ pair.1.1 pair.2.1 nodes.1 nodes.2 = _
  simp only [routeGain, hprevious, hsame, hlegacy, Bool.and_self, if_true]
  exact keptGain_eq heo hsource hsink hlast

end

def mixedOutput : OutputAudio where
  enabled := true
  primary := true
  inputs := [⟨"ndi-1", 0, 0⟩]
  destinations := [⟨"hdmi-1", 0⟩]
  legacyMatrix := true

/-- The fresh document's graph, with the matrix of its first output kept. -/
def mixed : Types.Audio where
  outputs := .singleton 1 mixedOutput

end NdimonR.State.Audio
