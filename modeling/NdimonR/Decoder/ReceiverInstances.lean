import Mathlib.Data.List.Range
import Mathlib.Tactic.Common
import NdimonR.Decoder.NDIReceiver

/-! What every operation of the receiver keeps of the instances that the SDK has given it. -/

namespace NdimonR.Decoder.Receiver

/-! ### What holds of the instances at every step -/

/-- The receiver has what it takes to be registered. -/
def wanted (s : State) : Bool := s.advertiser.isSome && s.recv.isSome && s.advertise

/-- The registration that the fields ask for. -/
def entries (s : State) : List Registration :=
  match s.advertiser, s.recv, s.advertise with
  | some a, some r, true => [⟨a, r, s.allowControl, s.inputName⟩]
  | _, _, _ => []

/-- The advertiser that the advertiser thread has been given and has not placed yet. -/
def Keeper.pending : Keeper → List (ℕ × String)
  | .created url (some a) => [(a, url)]
  | _ => []

def Keeper.making : Keeper → Bool
  | .creating _ | .created .. => true
  | _ => false

def current (s : State) : List (ℕ × String) := (s.advertiser.map (·, s.discoveryServer)).toList

structure Core (s : State) : Prop where
  recvs : s.sdk.recvs = s.recv.toList
  advertisers : s.sdk.advertisers = s.keeper.pending ++ current s
  making : s.keeper.making = true → s.advertiser = none
  implied : s.registered = true → wanted s = true
  registrations : s.sdk.registrations = if s.registered then entries s else []
  used : s.sdk.misused = false
  /-- Every instance ever created is alive or was destroyed, once. -/
  instances : (s.sdk.recvs ++ s.sdk.advertisers.map (·.1) ++ s.sdk.destroyed).Perm
    (List.range s.sdk.next)

theorem entries_of_not_wanted {s : State} (h : wanted s = false) : entries s = [] := by
  unfold entries
  split
  · rename_i ha hr had
    simp [wanted, ha, hr, had] at h
  · rfl

theorem pending_of_advertiser {s : State} (h : Core s) {a : ℕ} (ha : s.advertiser = some a) :
    s.keeper.pending = [] := by
  have hmaking := h.making
  cases hkeeper : s.keeper with
  | created url made =>
    rw [hkeeper, ha] at hmaking
    cases hmaking rfl
  | unstarted | looking | creating | waiting | stopped => rfl

theorem Core.knows {s : State} (h : Core s) {a : ℕ} (ha : s.advertiser = some a) :
    s.sdk.knows a = true := by
  simp [Sdk.knows, h.advertisers, current, ha]

theorem Core.alive {s : State} (h : Core s) {r : ℕ} (hr : s.recv = some r) :
    s.sdk.recvs.contains r = true := by
  simp [h.recvs, hr]

/-! ### Each operation, where they hold -/

theorem registration_same {s : State} {b : Bool} {l : List Registration} (hb : s.registered = b)
    (hl : s.sdk.registrations = l) :
    { s with registered := b, sdk := { s.sdk with registrations := l } } = s := by
  subst hb hl
  rfl

theorem Core.unregistered {s : State} (h : Core s) (hwanted : wanted s = false) :
    s.registered = false ∧ s.sdk.registrations = [] := by
  have hregistered : s.registered = false := by
    cases hregistered : s.registered
    · rfl
    · rw [h.implied hregistered] at hwanted
      cases hwanted
  refine ⟨hregistered, ?_⟩
  rw [h.registrations, hregistered]
  rfl

theorem registerReceiver_eq {s : State} (h : Core s) : registerReceiver s =
    { s with registered := wanted s, sdk := { s.sdk with registrations := entries s } } := by
  cases hwanted : wanted s with
  | false =>
    obtain ⟨hregistered, hregistrations⟩ := h.unregistered hwanted
    rw [entries_of_not_wanted hwanted, registration_same hregistered hregistrations]
    unfold registerReceiver
    split
    · rename_i a r ha hr
      have hadvertise : s.advertise = false := by simpa [wanted, ha, hr] using hwanted
      simp [hadvertise]
    · rfl
  | true =>
    obtain ⟨⟨ha, hr⟩, hadvertise⟩ : (s.advertiser.isSome = true ∧ s.recv.isSome = true) ∧
        s.advertise = true := by simpa [wanted] using hwanted
    obtain ⟨a, ha⟩ := Option.isSome_iff_exists.mp ha
    obtain ⟨r, hr⟩ := Option.isSome_iff_exists.mp hr
    have hentries : entries s = [⟨a, r, s.allowControl, s.inputName⟩] := by
      simp [entries, ha, hr, hadvertise]
    have hregistrations := h.registrations
    cases hregistered : s.registered with
    | true =>
      rw [hregistered, if_pos rfl] at hregistrations
      rw [registration_same hregistered hregistrations]
      simp [registerReceiver, ha, hr, hregistered]
    | false =>
      rw [hregistered] at hregistrations
      simp only [Bool.false_eq_true, if_false] at hregistrations
      simp [registerReceiver, ha, hr, hregistered, hadvertise, hentries, Sdk.addReceiver,
        hregistrations, h.knows ha, h.recvs]

theorem unregisterReceiver_eq {s : State} (h : Core s) : unregisterReceiver s =
    { s with registered := false, sdk := { s.sdk with registrations := [] } } := by
  have hregistrations := h.registrations
  cases hregistered : s.registered with
  | false =>
    rw [hregistered] at hregistrations
    simp only [Bool.false_eq_true, if_false] at hregistrations
    rw [registration_same hregistered hregistrations]
    unfold unregisterReceiver
    split
    · simp only [hregistered, Bool.false_eq_true, if_false]
      exact registration_same hregistered rfl
    · exact registration_same hregistered rfl
  | true =>
    obtain ⟨⟨ha, hr⟩, hadvertise⟩ : (s.advertiser.isSome = true ∧ s.recv.isSome = true) ∧
        s.advertise = true := by simpa [wanted] using h.implied hregistered
    obtain ⟨a, ha⟩ := Option.isSome_iff_exists.mp ha
    obtain ⟨r, hr⟩ := Option.isSome_iff_exists.mp hr
    rw [hregistered, if_pos rfl] at hregistrations
    have hentries : entries s = [⟨a, r, s.allowControl, s.inputName⟩] := by
      simp [entries, ha, hr, hadvertise]
    simp [unregisterReceiver, ha, hr, hregistered, Sdk.delReceiver, hregistrations, hentries,
      h.knows ha, h.recvs]

theorem useRecv_eq {s : State} (h : Core s) : useRecv s = s := by
  unfold useRecv
  split
  · rename_i r hr
    have hsdk : s.sdk.recvUse r = s.sdk := by simp only [Sdk.recvUse, h.alive hr, Bool.not_true,
      Bool.or_false]
    rw [hsdk]
  · rfl

theorem current_none {s : State} (h : s.advertiser = none) : current s = [] := by
  simp [current, h]

theorem destroyAdvertiser_eq {s : State} (h : Core s) : destroyAdvertiser s =
    { s with
      registered := false
      advertiser := none
      sdk := { s.sdk with
        registrations := []
        advertisers := s.keeper.pending
        destroyed := s.advertiser.toList ++ s.sdk.destroyed } } := by
  have hadvertisers := h.advertisers
  unfold destroyAdvertiser
  rw [unregisterReceiver_eq h]
  dsimp only
  split
  · rename_i a ha
    have hpending := pending_of_advertiser h ha
    have hknows := h.knows ha
    simp only [hpending, List.nil_append, current, ha, Option.map_some,
      Option.toList_some] at hadvertisers
    simp [Sdk.advertiserDestroy, Sdk.knows, hpending, hadvertisers, ha]
  · rename_i hnone
    simp only [current_none hnone, List.append_nil] at hadvertisers
    simp [hnone, ← hadvertisers]

theorem destroyRecv_eq {s : State} (h : Core s) (hregistered : s.registered = false) :
    destroyRecv s = { s with
      recv := none
      sdk := { s.sdk with recvs := [], destroyed := s.recv.toList ++ s.sdk.destroyed } } := by
  have hregistrations := h.registrations
  have hrecvs := h.recvs
  rw [hregistered] at hregistrations
  unfold destroyRecv
  split
  · rename_i r hr
    simp only [hr, Option.toList_some] at hrecvs
    simp [Sdk.recvDestroy, hregistrations, hrecvs, hr]
  · rename_i hnone
    simp only [hnone, Option.toList_none] at hrecvs
    obtain ⟨⟩ := s
    rename_i sdk
    obtain ⟨⟩ := sdk
    simp_all

/-! ### That they keep it -/

theorem Core.register {s : State} (h : Core s) : Core (registerReceiver s) := by
  rw [registerReceiver_eq h]
  refine ⟨h.recvs, h.advertisers, h.making, fun hregistered => hregistered, ?_, h.used,
    h.instances⟩
  cases hwanted : wanted s with
  | true => simp [entries]
  | false => simp [entries_of_not_wanted hwanted]

theorem Core.unregister {s : State} (h : Core s) : Core (unregisterReceiver s) := by
  rw [unregisterReceiver_eq h]
  refine ⟨h.recvs, h.advertisers, h.making, fun hregistered => ?_, rfl, h.used, h.instances⟩
  cases hregistered

theorem Core.dropAdvertiser {s : State} (h : Core s) : Core (destroyAdvertiser s) := by
  have hinstances := h.instances
  have hmaking := h.making
  rw [destroyAdvertiser_eq h]
  refine ⟨h.recvs, by simp [current], fun _ => rfl, fun hregistered => ?_, rfl, h.used, ?_⟩
  · cases hregistered
  · rw [h.advertisers] at hinstances
    refine .trans ?_ hinstances
    rw [List.perm_iff_count]
    intro n
    cases hadvertiser : s.advertiser <;>
      simp [current, hadvertiser, List.count_append, List.count_cons]

theorem Core.dropRecv {s : State} (h : Core s) (hregistered : s.registered = false) :
    Core (destroyRecv s) := by
  have hinstances := h.instances
  have hregistrations := h.registrations
  rw [hregistered] at hregistrations
  rw [destroyRecv_eq h hregistered]
  refine ⟨rfl, h.advertisers, h.making, fun himplied => ?_, ?_, h.used, ?_⟩
  · simp [hregistered] at himplied
  · simp [hregistered, hregistrations]
  · refine .trans ?_ hinstances
    rw [h.recvs, List.perm_iff_count]
    intro n
    simp only [List.count_append, List.count_nil]
    omega

theorem Core.createRecv {s : State} (h : Core s) (hregistered : s.registered = false ∨ s.recv.isSome)
    (ok : Bool) : Core (createRecv s ok).1 := by
  unfold Receiver.createRecv
  split
  · exact h
  · rename_i hnone
    have hregistered : s.registered = false := by simpa [hnone] using hregistered
    have hregistrations := h.registrations
    rw [hregistered] at hregistrations
    split
    · refine ⟨?_, h.advertisers, h.making, fun himplied => ?_, ?_, h.used, ?_⟩
      · simp [Sdk.recvCreate, h.recvs, hnone]
      · simp [hregistered] at himplied
      · simp [Sdk.recvCreate, hregistered, hregistrations]
      · simp only [Sdk.recvCreate, List.range_succ]
        exact (h.instances.cons _).trans (List.perm_append_singleton _ _).symm
    · exact h

end NdimonR.Decoder.Receiver
