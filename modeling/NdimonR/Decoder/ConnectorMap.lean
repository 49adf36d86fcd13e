import Mathlib.Data.Finset.Card
import Mathlib.Data.List.Infix
import Mathlib.Data.List.Permutation
import Mathlib.Data.String.Basic
import Mathlib.Order.Interval.Finset.Nat
import NdimonR.Library.SortBy

/-! The channel of each connector, which names its settings, its worker and its audio. -/

namespace NdimonR.Decoder.ConnectorMap

def has (n part : String) : Bool := decide (part.toList <:+: n.toList)

def isOutputConn (n : String) : Bool := has n "HDMI" || has n "DP"

def fixedCh (n : String) : ℕ :=
  if has n "HDMI-A-1" then 1
  else if has n "HDMI-A-2" then 2
  else if has n "DP-1" && !has n "eDP" then 3
  else 0

structure Channels where
  connCh : String → Option ℕ := fun _ => none
  used : Finset ℕ := ∅

def Channels.set (s : Channels) (n : String) (ch : ℕ) : Channels :=
  { connCh := Function.update s.connCh n (some ch), used := insert ch s.used }

def giveFixed (s : Channels) (n : String) : Channels :=
  if isOutputConn n && decide (0 < fixedCh n) then s.set n (fixedCh n) else s

/-- `while (used.count(ch)) ch++`, as far as the fuel goes. -/
def nextFree (used : Finset ℕ) : ℕ → ℕ → ℕ
  | 0, ch => ch
  | fuel + 1, ch => if ch ∈ used then nextFree used fuel (ch + 1) else ch

/-- There is a turn for each channel in use. -/
def giveFree (s : Channels) (n : String) : Channels := s.set n (nextFree s.used s.used.card 1)

def unknown (s : Channels) (connectors : List String) : List String :=
  sortBy id (connectors.filter fun n => isOutputConn n && (s.connCh n).isNone)

def connectorMap (connectors : List String) : Channels :=
  let s := connectors.foldl giveFixed {}
  (unknown s connectors).foldl giveFree s

structure DisplayWorker where
  connector : String
  chNum : ℕ
  deriving DecidableEq

def workers (connectors : List String) : List DisplayWorker :=
  let made := (connectors.filter isOutputConn).map fun n =>
    ⟨n, ((connectorMap connectors).connCh n).getD 1⟩
  if made = [] then [⟨"HDMI-A-1", 1⟩] else made

def getWorker (workers : List DisplayWorker) (idx : ℕ) : Option DisplayWorker :=
  if idx > 7 then none else workers.find? fun w => w.chNum = idx + 1

/-- The first worker of a channel stays in the map. -/
def audioWorkers (workers : List DisplayWorker) (ch : ℕ) : Option DisplayWorker :=
  workers.find? fun w => w.chNum = ch

/-! ### What is asked of the map -/

def outputs (connectors : List String) : List String := connectors.filter isOutputConn

structure OwnChannel (connectors : List String) : Prop where
  own : ∀ a ∈ outputs connectors, ∀ b ∈ outputs connectors,
    (connectorMap connectors).connCh a = (connectorMap connectors).connCh b → a = b
  fixed : ∀ p ∈ [("HDMI-A-1", 1), ("HDMI-A-2", 2), ("DP-1", 3)], p.1 ∈ connectors →
    (connectorMap connectors).connCh p.1 = some p.2
  range : (outputs connectors).length ≤ 8 → ∀ n ∈ outputs connectors,
    ∃ ch, (connectorMap connectors).connCh n = some ch ∧ 1 ≤ ch ∧ ch ≤ 8
  order : ∀ connectors', connectors.Perm connectors' →
    (connectorMap connectors').connCh = (connectorMap connectors).connCh
  added : ∀ more, (∀ n ∈ more, fixedCh n = 0) → ∀ n ∈ outputs connectors, fixedCh n ≠ 0 →
    (connectorMap (connectors ++ more)).connCh n = (connectorMap connectors).connCh n
  worker : ∀ w ∈ workers connectors, audioWorkers (workers connectors) w.chNum = some w ∧
    (w.chNum ≤ 8 → getWorker (workers connectors) (w.chNum - 1) = some w) ∧
    ∀ w' ∈ workers connectors, w'.chNum = w.chNum → w' = w

/-- Two names with the same fixed channel. -/
def SharesFixed (a b : String) : Prop :=
  (has a "HDMI-A-1" ∧ has b "HDMI-A-1") ∨
  ((¬ has a "HDMI-A-1" ∧ ¬ has b "HDMI-A-1") ∧ has a "HDMI-A-2" ∧ has b "HDMI-A-2") ∨
  ((¬ has a "HDMI-A-1" ∧ ¬ has b "HDMI-A-1") ∧ (¬ has a "HDMI-A-2" ∧ ¬ has b "HDMI-A-2") ∧
    (has a "DP-1" ∧ ¬ has a "eDP") ∧ has b "DP-1" ∧ ¬ has b "eDP")

instance (a b : String) : Decidable (SharesFixed a b) :=
  inferInstanceAs (Decidable (_ ∨ _ ∨ _))

def Apart (connectors : List String) : Prop :=
  ∀ a ∈ outputs connectors, ∀ b ∈ outputs connectors, a ≠ b → ¬ SharesFixed a b

instance (connectors : List String) : Decidable (Apart connectors) :=
  inferInstanceAs (Decidable (∀ a ∈ outputs connectors, ∀ b ∈ outputs connectors, _ → _))

theorem sharesFixed_iff {a b : String} :
    SharesFixed a b ↔ fixedCh a = fixedCh b ∧ fixedCh a ≠ 0 := by
  unfold SharesFixed fixedCh
  cases has a "HDMI-A-1" <;> cases has b "HDMI-A-1" <;> cases has a "HDMI-A-2" <;>
    cases has b "HDMI-A-2" <;> cases has a "DP-1" <;> cases has b "DP-1" <;>
    cases has a "eDP" <;> cases has b "eDP" <;> decide

/-! ### The fixed channels -/

section
variable {connectors : List String}

theorem mem_outputs {n : String} :
    n ∈ outputs connectors ↔ n ∈ connectors ∧ isOutputConn n = true :=
  List.mem_filter

def IsFixed (n : String) : Prop := isOutputConn n = true ∧ 0 < fixedCh n

instance (n : String) : Decidable (IsFixed n) :=
  inferInstanceAs (Decidable (isOutputConn n = true ∧ 0 < fixedCh n))

theorem giveFixed_fold (connectors : List String) (s : Channels) :
    (∀ n, (connectors.foldl giveFixed s).connCh n =
      if n ∈ connectors ∧ IsFixed n then some (fixedCh n) else s.connCh n) ∧
    ∀ ch, ch ∈ (connectors.foldl giveFixed s).used ↔
      ch ∈ s.used ∨ ∃ n ∈ connectors, IsFixed n ∧ fixedCh n = ch := by
  induction connectors generalizing s with
  | nil => simp
  | cons first connectors ih =>
    obtain ⟨hconn, hused⟩ := ih (giveFixed s first)
    rw [List.foldl_cons]
    by_cases hfixed : IsFixed first
    · have hgive : giveFixed s first = s.set first (fixedCh first) := by
        rw [giveFixed, hfixed.1, decide_eq_true hfixed.2]
        rfl
      rw [hgive] at hconn hused ⊢
      refine ⟨fun n => ?_, fun ch => ?_⟩
      · rw [hconn n, Channels.set]
        by_cases hn : n = first
        · subst hn
          simp [hfixed]
        · simp [hn]
      · rw [hused ch, Channels.set]
        simp only [Finset.mem_insert, List.mem_cons, exists_eq_or_imp]
        constructor
        · rintro ((rfl | h) | h)
          · exact .inr (.inl ⟨hfixed, rfl⟩)
          · exact .inl h
          · exact .inr (.inr h)
        · rintro (h | ⟨-, rfl⟩ | h)
          · exact .inl (.inr h)
          · exact .inl (.inl rfl)
          · exact .inr h
    · have hgive : giveFixed s first = s := by
        rw [giveFixed, if_neg]
        simpa [IsFixed] using hfixed
      rw [hgive] at hconn hused ⊢
      refine ⟨fun n => ?_, fun ch => ?_⟩
      · rw [hconn n]
        by_cases hn : n = first
        · subst hn
          simp [hfixed]
        · simp [hn]
      · rw [hused ch]
        simp [hfixed]

def afterFixed (connectors : List String) : Channels := connectors.foldl giveFixed {}

theorem afterFixed_connCh (n : String) : (afterFixed connectors).connCh n =
    if n ∈ connectors ∧ IsFixed n then some (fixedCh n) else none :=
  (giveFixed_fold connectors {}).1 n

theorem mem_afterFixed_used {ch : ℕ} :
    ch ∈ (afterFixed connectors).used ↔ ∃ n ∈ connectors, IsFixed n ∧ fixedCh n = ch := by
  have h := (giveFixed_fold connectors {}).2 ch
  simp only [Finset.notMem_empty, false_or] at h
  exact h

theorem afterFixed_perm {connectors' : List String} (h : connectors.Perm connectors') :
    afterFixed connectors' = afterFixed connectors := by
  have hconn : (afterFixed connectors').connCh = (afterFixed connectors).connCh := by
    funext n
    simp only [afterFixed_connCh, h.mem_iff]
  have hused : (afterFixed connectors').used = (afterFixed connectors).used := by
    ext ch
    simp only [mem_afterFixed_used, h.mem_iff]
  calc
    afterFixed connectors' = ⟨(afterFixed connectors').connCh, (afterFixed connectors').used⟩ := rfl
    _ = afterFixed connectors := by rw [hconn, hused]

theorem mem_unknown {n : String} : n ∈ unknown (afterFixed connectors) connectors ↔
    n ∈ outputs connectors ∧ ¬ IsFixed n := by
  rw [unknown, SortBy.mem_iff, List.mem_filter, mem_outputs, afterFixed_connCh]
  by_cases hn : n ∈ connectors ∧ IsFixed n
  · simp [hn]
  · rw [if_neg hn]
    simp only [Option.isNone_none, Bool.and_true]
    tauto

theorem connectorMap_perm {connectors' : List String} (h : connectors.Perm connectors') :
    connectorMap connectors' = connectorMap connectors := by
  have hfixed := afterFixed_perm h
  have hunknown : unknown (afterFixed connectors) connectors' =
      unknown (afterFixed connectors) connectors :=
    SortBy.eq_of_perm (h.symm.filter _) fun _ _ _ _ heq => heq
  change (unknown (afterFixed connectors') connectors').foldl giveFree (afterFixed connectors') =
    (unknown (afterFixed connectors) connectors).foldl giveFree (afterFixed connectors)
  rw [hfixed, hunknown]

/-! ### The free channels -/

theorem passed_le {used : Finset ℕ} {ch : ℕ} (hpassed : ∀ c, 1 ≤ c → c < ch → c ∈ used) :
    ch ≤ used.card + 1 := by
  have hsub : Finset.Ico 1 ch ⊆ used := by
    intro c hc
    obtain ⟨hlow, hhigh⟩ := Finset.mem_Ico.mp hc
    exact hpassed c hlow hhigh
  have hcard := Finset.card_le_card hsub
  rw [Nat.card_Ico] at hcard
  omega

/-- Every channel that is passed over is in use, so the fuel is enough. -/
theorem nextFree_spec (used : Finset ℕ) {fuel ch : ℕ} (hch : 1 ≤ ch)
    (hpassed : ∀ c, 1 ≤ c → c < ch → c ∈ used) (hfuel : used.card + 1 ≤ ch + fuel) :
    nextFree used fuel ch ∉ used ∧ 1 ≤ nextFree used fuel ch ∧
      nextFree used fuel ch ≤ used.card + 1 := by
  have hmore : ch ∈ used → ∀ c, 1 ≤ c → c < ch + 1 → c ∈ used := by
    intro hin c hlow hhigh
    rcases Nat.lt_succ_iff_lt_or_eq.mp hhigh with hhigh | rfl
    · exact hpassed c hlow hhigh
    · exact hin
  induction fuel generalizing ch with
  | zero =>
    rw [nextFree]
    refine ⟨fun hin => ?_, hch, passed_le hpassed⟩
    have := passed_le (hmore hin)
    omega
  | succ fuel ih =>
    rw [nextFree]
    split_ifs with hin
    · refine ih (by omega) (hmore hin) (by omega) fun hin' c hlow hhigh => ?_
      rcases Nat.lt_succ_iff_lt_or_eq.mp hhigh with hhigh | rfl
      · exact hmore hin c hlow hhigh
      · exact hin'
    · exact ⟨hin, hch, passed_le hpassed⟩

theorem giveFree_kept {l : List String} {n : String} (hn : n ∉ l) (s : Channels) :
    (l.foldl giveFree s).connCh n = s.connCh n := by
  induction l generalizing s with
  | nil => rfl
  | cons first l ih =>
    obtain ⟨hne, hn⟩ : n ≠ first ∧ n ∉ l := by simpa using hn
    rw [List.foldl_cons, ih hn, giveFree, Channels.set]
    exact Function.update_of_ne hne _ _

theorem giveFree_fold {l : List String} (hl : l.Nodup) (s : Channels) :
    (∀ n ∈ l, ∃ ch, (l.foldl giveFree s).connCh n = some ch ∧ ch ∉ s.used ∧ 1 ≤ ch ∧
      ch ≤ s.used.card + l.length) ∧
    ∀ n ∈ l, ∀ n' ∈ l, (l.foldl giveFree s).connCh n = (l.foldl giveFree s).connCh n' → n = n' := by
  induction l generalizing s with
  | nil => simp
  | cons first l ih =>
    obtain ⟨hfirst, hl⟩ := List.nodup_cons.mp hl
    obtain ⟨hgiven, hown⟩ := ih hl (giveFree s first)
    obtain ⟨hfree, hlow, hhigh⟩ : nextFree s.used s.used.card 1 ∉ s.used ∧
        1 ≤ nextFree s.used s.used.card 1 ∧ nextFree s.used s.used.card 1 ≤ s.used.card + 1 :=
      nextFree_spec s.used le_rfl (by omega) (by omega)
    have hnew : (l.foldl giveFree (giveFree s first)).connCh first =
        some (nextFree s.used s.used.card 1) := by
      rw [giveFree_kept hfirst]
      simp [giveFree, Channels.set]
    have hcard : (giveFree s first).used.card = s.used.card + 1 :=
      Finset.card_insert_of_notMem hfree
    have hother : ∀ n ∈ l, (l.foldl giveFree (giveFree s first)).connCh n ≠
        some (nextFree s.used s.used.card 1) := by
      intro n hn heq
      obtain ⟨ch, hch, hfree', -⟩ := hgiven n hn
      rw [heq] at hch
      cases hch
      exact hfree' (Finset.mem_insert_self _ _)
    rw [List.foldl_cons]
    refine ⟨fun n hn => ?_, fun n hn n' hn' heq => ?_⟩
    · rcases List.mem_cons.mp hn with rfl | hn
      · refine ⟨_, hnew, hfree, hlow, ?_⟩
        rw [List.length_cons]
        omega
      · obtain ⟨ch, hch, hfree', hlow', hhigh'⟩ := hgiven n hn
        refine ⟨ch, hch, fun hin => hfree' (Finset.mem_insert_of_mem hin), hlow', ?_⟩
        rw [List.length_cons]
        omega
    · rcases List.mem_cons.mp hn with hn | hn <;> rcases List.mem_cons.mp hn' with hn' | hn'
      · rw [hn, hn']
      · rw [hn] at heq
        exact absurd (heq.symm.trans hnew) (hother n' hn')
      · rw [hn'] at heq
        exact absurd (heq.trans hnew) (hother n hn)
      · exact hown n hn n' hn' heq

/-! ### The whole map -/

theorem unknown_once (h : connectors.Nodup) :
    (unknown (afterFixed connectors) connectors).Nodup :=
  (SortBy.perm _ _).nodup_iff.mpr (h.filter _)

theorem connCh_fixed {n : String} (hn : n ∈ connectors) (hfixed : IsFixed n) :
    (connectorMap connectors).connCh n = some (fixedCh n) := by
  have hnot : n ∉ unknown (afterFixed connectors) connectors := fun hmem =>
    (mem_unknown.mp hmem).2 hfixed
  have hkept := giveFree_kept hnot (afterFixed connectors)
  rw [afterFixed_connCh, if_pos ⟨hn, hfixed⟩] at hkept
  exact hkept

theorem used_few (connectors : List String) : (afterFixed connectors).used.card +
    (unknown (afterFixed connectors) connectors).length ≤ (outputs connectors).length := by
  have hunknown : (unknown (afterFixed connectors) connectors).length =
      ((outputs connectors).filter fun n => ¬ IsFixed n).length := by
    rw [unknown, (SortBy.perm _ _).length_eq, outputs, List.filter_filter]
    congr 1
    apply List.filter_congr
    intro n hn
    rw [afterFixed_connCh]
    by_cases hfixed : IsFixed n
    · simp [hn, hfixed]
    · simp [hfixed]
  have hused : (afterFixed connectors).used.card ≤
      ((outputs connectors).filter fun n => IsFixed n).length := by
    have hsub : (afterFixed connectors).used ⊆
        (((outputs connectors).filter fun n => IsFixed n).map fixedCh).toFinset := by
      intro ch hch
      obtain ⟨n, hn, hfixed, rfl⟩ := mem_afterFixed_used.mp hch
      rw [List.mem_toFinset]
      apply List.mem_map_of_mem
      rw [List.mem_filter, mem_outputs]
      exact ⟨⟨hn, hfixed.1⟩, decide_eq_true hfixed⟩
    calc
      (afterFixed connectors).used.card ≤ _ := Finset.card_le_card hsub
      _ ≤ _ := List.toFinset_card_le _
      _ = _ := List.length_map _
  have hsplit := List.length_eq_length_filter_add (l := outputs connectors) fun n => IsFixed n
  simp only [← decide_not] at hsplit
  omega

/-- Every output has a channel, a fixed one or one that no fixed connector has. -/
theorem connCh_output (h : connectors.Nodup) {n : String} (hn : n ∈ outputs connectors) :
    ∃ ch, (connectorMap connectors).connCh n = some ch ∧ 1 ≤ ch ∧
      (ch ≤ 3 ∨ ch ≤ (outputs connectors).length) ∧
      (IsFixed n ∧ ch = fixedCh n ∨ ¬ IsFixed n ∧ ch ∉ (afterFixed connectors).used) := by
  by_cases hfixed : IsFixed n
  · refine ⟨fixedCh n, connCh_fixed (mem_outputs.mp hn).1 hfixed, hfixed.2, .inl ?_,
      .inl ⟨hfixed, rfl⟩⟩
    unfold fixedCh
    split_ifs <;> omega
  · have hmem := mem_unknown.mpr ⟨hn, hfixed⟩
    obtain ⟨ch, hch, hfree, hlow, hhigh⟩ :=
      (giveFree_fold (unknown_once h) (afterFixed connectors)).1 n hmem
    exact ⟨ch, hch, hlow, .inr (hhigh.trans (used_few connectors)), .inr ⟨hfixed, hfree⟩⟩

/-- Two outputs have one channel only where it is the fixed channel of both. -/
theorem connCh_eq_iff (h : connectors.Nodup) {a b : String} (ha : a ∈ outputs connectors)
    (hb : b ∈ outputs connectors) :
    (connectorMap connectors).connCh a = (connectorMap connectors).connCh b ↔
      a = b ∨ SharesFixed a b := by
  obtain ⟨chA, hchA, -, -, hkindA⟩ := connCh_output h ha
  obtain ⟨chB, hchB, -, -, hkindB⟩ := connCh_output h hb
  have hfree : ∀ n ∈ outputs connectors, IsFixed n → fixedCh n ∈ (afterFixed connectors).used :=
    fun n hn hfixed => mem_afterFixed_used.mpr ⟨n, (mem_outputs.mp hn).1, hfixed, rfl⟩
  rw [sharesFixed_iff]
  constructor
  · intro heq
    have hch : chA = chB := by
      rw [hchA, hchB] at heq
      exact Option.some.inj heq
    rcases hkindA with ⟨hfixedA, hA⟩ | ⟨hfixedA, hA⟩ <;>
      rcases hkindB with ⟨hfixedB, hB⟩ | ⟨hfixedB, hB⟩
    · exact .inr ⟨hA.symm.trans (hch.trans hB), hfixedA.2.ne'⟩
    · exact absurd (hfree a ha hfixedA) (hA ▸ hch ▸ hB)
    · exact absurd (hfree b hb hfixedB) (hB ▸ hch ▸ hA)
    · exact .inl ((giveFree_fold (unknown_once h) (afterFixed connectors)).2 a
        (mem_unknown.mpr ⟨ha, hfixedA⟩) b (mem_unknown.mpr ⟨hb, hfixedB⟩) heq)
  · rintro (rfl | ⟨hsame, hpos⟩)
    · rfl
    · obtain ⟨hinA, houtA⟩ := mem_outputs.mp ha
      obtain ⟨hinB, houtB⟩ := mem_outputs.mp hb
      rw [connCh_fixed hinA ⟨houtA, Nat.pos_of_ne_zero hpos⟩,
        connCh_fixed hinB ⟨houtB, Nat.pos_of_ne_zero (hsame ▸ hpos)⟩, hsame]

/-! ### Workers -/

theorem find_self {l : List DisplayWorker} {w : DisplayWorker} (hw : w ∈ l)
    (hone : ∀ w' ∈ l, w'.chNum = w.chNum → w' = w) :
    l.find? (fun w' => w'.chNum = w.chNum) = some w := by
  cases hfind : l.find? fun w' => w'.chNum = w.chNum with
  | none =>
    have := List.find?_eq_none.mp hfind w hw
    simp at this
  | some w' =>
    have hch := List.find?_some hfind
    rw [hone w' (List.mem_of_find?_eq_some hfind) (by simpa using hch)]

theorem worker_found {l : List DisplayWorker} {w : DisplayWorker} (hw : w ∈ l) (hch : 1 ≤ w.chNum)
    (hone : ∀ w' ∈ l, w'.chNum = w.chNum → w' = w) : audioWorkers l w.chNum = some w ∧
      (w.chNum ≤ 8 → getWorker l (w.chNum - 1) = some w) ∧
      ∀ w' ∈ l, w'.chNum = w.chNum → w' = w := by
  refine ⟨find_self hw hone, fun hle => ?_, hone⟩
  have hidx : w.chNum - 1 + 1 = w.chNum := by omega
  rw [getWorker, if_neg (by omega), hidx]
  exact find_self hw hone

theorem mem_workers {w : DisplayWorker} (h : w ∈ workers connectors)
    (hsome : outputs connectors ≠ []) :
    w.connector ∈ outputs connectors ∧
      w.chNum = ((connectorMap connectors).connCh w.connector).getD 1 := by
  rw [workers, if_neg (by simpa [outputs] using hsome)] at h
  obtain ⟨n, hn, rfl⟩ := List.mem_map.mp h
  exact ⟨hn, rfl⟩

theorem workers_none (hnone : outputs connectors = []) : workers connectors = [⟨"HDMI-A-1", 1⟩] :=
  if_pos (List.map_eq_nil_iff.mpr hnone)

theorem worker_own (h : connectors.Nodup) (happart : Apart connectors) :
    ∀ w ∈ workers connectors, audioWorkers (workers connectors) w.chNum = some w ∧
      (w.chNum ≤ 8 → getWorker (workers connectors) (w.chNum - 1) = some w) ∧
      ∀ w' ∈ workers connectors, w'.chNum = w.chNum → w' = w := by
  intro w hw
  by_cases hnone : outputs connectors = []
  · rw [workers_none hnone, List.mem_singleton] at hw
    subst hw
    rw [workers_none hnone]
    exact worker_found (List.mem_singleton_self _) le_rfl fun w' hw' _ => List.mem_singleton.mp hw'
  · obtain ⟨hconn, hnum⟩ := mem_workers hw hnone
    obtain ⟨ch, hch, hlow, -⟩ := connCh_output h hconn
    rw [hch, Option.getD_some] at hnum
    refine worker_found hw (by omega) fun w' hw' heq => ?_
    obtain ⟨hconn', hnum'⟩ := mem_workers hw' hnone
    obtain ⟨ch', hch', -⟩ := connCh_output h hconn'
    rw [hch', Option.getD_some] at hnum'
    have hname : w'.connector = w.connector := by
      rcases (connCh_eq_iff h hconn' hconn).mp (by rw [hch, hch', ← hnum, ← hnum', heq]) with
        hsame | hshares
      · exact hsame
      · by_contra hne
        exact happart _ hconn' _ hconn hne hshares
    obtain ⟨connector, chNum⟩ := w
    obtain ⟨connector', chNum'⟩ := w'
    exact DisplayWorker.mk.injEq .. ▸ ⟨hname, heq⟩

end

/-- Every output has its own channel exactly when no two have the same fixed one. -/
theorem own_channel_iff {connectors : List String} (h : connectors.Nodup) :
    OwnChannel connectors ↔ Apart connectors := by
  constructor
  · intro hown a ha b hb hne hshares
    exact hne (hown.own a ha b hb ((connCh_eq_iff h ha hb).mpr (.inr hshares)))
  · intro happart
    refine ⟨?own, ?fixed, ?range, ?order, ?added, worker_own h happart⟩
    case own =>
      intro a ha b hb heq
      rcases (connCh_eq_iff h ha hb).mp heq with hsame | hshares
      · exact hsame
      · by_contra hne
        exact happart a ha b hb hne hshares
    case fixed =>
      intro p hp hin
      simp only [List.mem_cons, List.not_mem_nil, or_false] at hp
      rcases hp with rfl | rfl | rfl
      · exact connCh_fixed hin (by decide)
      · exact connCh_fixed hin (by decide)
      · exact connCh_fixed hin (by decide)
    case range =>
      intro hfew n hn
      obtain ⟨ch, hch, hlow, hhigh, -⟩ := connCh_output h hn
      exact ⟨ch, hch, hlow, by omega⟩
    case order =>
      intro connectors' hperm
      rw [connectorMap_perm hperm]
    case added =>
      intro more hmore n hn hfixed
      obtain ⟨hin, hout⟩ := mem_outputs.mp hn
      have hfixed' : IsFixed n := ⟨hout, Nat.pos_of_ne_zero hfixed⟩
      rw [connCh_fixed hin hfixed', connCh_fixed (List.mem_append_left more hin) hfixed']

theorem sample_own : OwnChannel ["DP-1", "HDMI-A-2", "eDP-1", "VGA-1"] :=
  (own_channel_iff (by decide)).mpr (by decide)

/-- The name of a connector with two digits contains the one with the first. -/
theorem outputs_collide : ¬ OwnChannel ["HDMI-A-1", "HDMI-A-10"] := by
  intro h
  have hfirst : (connectorMap ["HDMI-A-1", "HDMI-A-10"]).connCh "HDMI-A-1" = some 1 :=
    connCh_fixed (by decide) (by decide)
  have hsecond : (connectorMap ["HDMI-A-1", "HDMI-A-10"]).connCh "HDMI-A-10" = some 1 :=
    connCh_fixed (by decide) (by decide)
  have hsame := h.own "HDMI-A-1" (by decide) "HDMI-A-10" (by decide) (hfirst.trans hsecond.symm)
  exact absurd hsame (by decide)

end NdimonR.Decoder.ConnectorMap
