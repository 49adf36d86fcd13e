import Mathlib.Tactic.Linarith
import NdimonR.State.TesseraReload

/-! A replay that has looked sends no reload exactly while the daemon has what a reload would give
it, as far as a look can tell. -/

namespace NdimonR.State.TesseraReload

open Steps

variable {B : Type}

/-! ### What a look knows -/

/-- The process was measured between the look's beginning and an instant. -/
def Within (s : System B) (l : Look B) (m : Measured) (latest : ℤ) : Prop :=
  ∃ started moment, s.processes[m.process]? = some started ∧ started ≤ moment ∧
    l.sent ≤ moment ∧ moment ≤ latest ∧ m.uptime = ((moment - started) / millisecond).toNat

structure Looks (s : System B) (l : Look B) (latest : ℤ) : Prop where
  sent : l.sent ≤ latest
  writes : l.writes ≤ s.writes
  starts : l.starts ≤ s.processes.length
  measured : ∀ m, l.measured = some m → l.starts ≤ m.process + 1 ∧ Within s l m latest
  reported : l.reported = true → l.measured.isSome = true

structure Complete (s : System B) (l : Look B) : Prop extends Looks s l l.received where
  files : l.writes = s.writes → l.artifacts = readFiles s.files configPaths

/-- The reload after a look, as the daemon carried it out. -/
structure Carried (s : System B) (l : Look B) (e : Executed B) : Prop where
  process : e.process < s.processes.length
  after : ∀ m, l.measured = some m → m.process ≤ e.process
  disk : l.writes = e.writes → e.disk = l.artifacts

/-- The world has gone on: processes are added, and files change only by being written. -/
structure Later (s s' : System B) : Prop where
  now : s.now ≤ s'.now
  processes : s.processes <+: s'.processes
  writes : s.writes ≤ s'.writes
  files : s'.writes = s.writes → s'.files = s.files

theorem Later.refl (s : System B) : Later s s := ⟨le_rfl, List.prefix_refl _, le_rfl, fun _ => rfl⟩

theorem getElem?_of_prefix {xs ys : List ℤ} (h : xs <+: ys) {n : ℕ} {x : ℤ}
    (hx : xs[n]? = some x) : ys[n]? = some x := by
  obtain ⟨more, rfl⟩ := h
  obtain ⟨hlt, -⟩ := List.getElem?_eq_some_iff.mp hx
  rw [List.getElem?_append_left hlt, hx]

theorem Looks.later {s s' : System B} {l : Look B} {latest latest' : ℤ} (h : Looks s l latest)
    (hlater : Later s s') (hle : latest ≤ latest') : Looks s' l latest' where
  sent := h.sent.trans hle
  writes := h.writes.trans hlater.writes
  starts := h.starts.trans hlater.processes.length_le
  measured := by
    intro m hm
    obtain ⟨hstarts, started, moment, hprocess, hbefore, hsent, hlatest, huptime⟩ := h.measured m hm
    exact ⟨hstarts, started, moment, getElem?_of_prefix hlater.processes hprocess, hbefore, hsent,
      hlatest.trans hle, huptime⟩
  reported := h.reported

theorem Complete.later {s s' : System B} {l : Look B} (h : Complete s l) (hlater : Later s s') :
    Complete s' l where
  toLooks := h.toLooks.later hlater le_rfl
  files := by
    intro hwrites
    have hold := h.writes
    have hgrown := hlater.writes
    rw [h.files (by omega), hlater.files (by omega)]

theorem Carried.later {s s' : System B} {l : Look B} {e : Executed B} (h : Carried s l e)
    (hlater : Later s s') : Carried s' l e where
  process := h.process.trans_le hlater.processes.length_le
  after := h.after
  disk := h.disk

/-! ### The invariant -/

def Activity.look : Activity B → Option (Look B)
  | .idle | .asking => none
  | .measuring l | .reading l _ | .deciding l | .reloading l _ => some l

/-- What is known of the look under way. -/
def Underway (s : System B) : Prop :=
  match s.activity with
  | .idle | .asking => True
  | .measuring l => Looks s l s.now ∧ l.artifacts = some []
  | .reading l rest => Looks s l l.received ∧ ∃ done a, configPaths = done ++ rest ∧
      l.artifacts = some a ∧ (l.writes = s.writes → readFiles s.files done = some a)
  | .deciding l => Complete s l
  | .reloading l none => Complete s l
  | .reloading l (some e) => Complete s l ∧ Carried s l e

structure Inv (s : System B) : Prop where
  underway : Underway s
  told : ∀ t, s.told = some t → Complete s t.look ∧ Carried s t.look t.executed
  /-- A look under way began after the last reload that control was told of. -/
  since : ∀ t l, s.told = some t → s.activity.look = some l →
    t.executed.process + 1 ≤ l.starts ∧ t.look.writes ≤ l.writes
  last : ∀ seen, s.last = some seen → ∃ t, s.told = some t ∧ seen = t.look.seen
  past : ∀ p ∈ s.processes, p ≤ s.now

theorem Inv.new (files : String → File B) : Inv (new files) where
  underway := trivial
  told := fun t ht => by cases ht
  since := fun t l ht => by cases ht
  last := fun seen hseen => by cases hseen
  past := fun p hp => by cases hp

/-- The world goes on beside control. -/
theorem Inv.later {s s' : System B} (h : Inv s) (hlater : Later s s')
    (hactivity : s'.activity = s.activity) (htold : s'.told = s.told) (hlast : s'.last = s.last)
    (hpast : ∀ p ∈ s'.processes, p ≤ s'.now) : Inv s' where
  underway := by
    have hunderway := h.underway
    unfold Underway at hunderway ⊢
    rw [hactivity]
    cases hs : s.activity with
    | idle => trivial
    | asking => trivial
    | measuring l =>
      rw [hs] at hunderway
      exact ⟨hunderway.1.later hlater hlater.now, hunderway.2⟩
    | reading l rest =>
      rw [hs] at hunderway
      obtain ⟨hlooks, done, a, hpaths, ha, hfiles⟩ := hunderway
      refine ⟨hlooks.later hlater le_rfl, done, a, hpaths, ha, fun hwrites => ?_⟩
      have hold := hlooks.writes
      have hgrown := hlater.writes
      rw [hlater.files (by omega)]
      exact hfiles (by omega)
    | deciding l =>
      rw [hs] at hunderway
      exact Complete.later hunderway hlater
    | reloading l done =>
      rw [hs] at hunderway
      cases done with
      | none => exact Complete.later hunderway hlater
      | some e => exact ⟨hunderway.1.later hlater, hunderway.2.later hlater⟩
  told := by
    rw [htold]
    exact fun t ht => ⟨(h.told t ht).1.later hlater, (h.told t ht).2.later hlater⟩
  since := by
    rw [htold, hactivity]
    exact h.since
  last := by
    rw [htold, hlast]
    exact h.last
  past := hpast

/-- Control goes on to another activity. -/
theorem Inv.turn {s : System B} (h : Inv s) (activity : Activity B)
    (hunderway : Underway { s with activity })
    (hsince : ∀ t l, s.told = some t → activity.look = some l →
      t.executed.process + 1 ≤ l.starts ∧ t.look.writes ≤ l.writes) : Inv { s with activity } where
  underway := hunderway
  told := fun t ht => ⟨(h.told t ht).1.later ⟨le_rfl, List.prefix_refl _, le_rfl, fun _ => rfl⟩,
    (h.told t ht).2.later ⟨le_rfl, List.prefix_refl _, le_rfl, fun _ => rfl⟩⟩
  since := hsince
  last := h.last
  past := h.past

theorem Inv.rest {s : System B} (h : Inv s) : Inv { s with activity := .idle } :=
  h.turn .idle trivial fun t l _ hl => by cases hl

theorem Inv.forget {s : System B} (h : Inv s) : Inv { s with last := none, activity := .idle } where
  underway := trivial
  told := fun t ht => ⟨(h.told t ht).1.later ⟨le_rfl, List.prefix_refl _, le_rfl, fun _ => rfl⟩,
    (h.told t ht).2.later ⟨le_rfl, List.prefix_refl _, le_rfl, fun _ => rfl⟩⟩
  since := fun t l _ hl => by cases hl
  last := fun seen hseen => by cases hseen
  past := h.past

theorem Inv.look {s : System B} (h : Inv s) (replay : Bool) :
    Inv { s with activity := .measuring (look s replay) } := by
  refine h.turn _ ⟨⟨le_rfl, le_rfl, le_rfl, fun m hm => (by cases hm), fun hr => (by cases hr)⟩, rfl⟩ ?_
  intro t l ht hl
  cases hl
  exact ⟨(h.told t ht).2.process, (h.told t ht).1.writes⟩

theorem running_spec {s : System B} {process : ℕ} {started : ℤ}
    (h : running s = some (process, started)) :
    s.processes[process]? = some started ∧ process + 1 = s.processes.length := by
  unfold running at h
  split at h
  · obtain ⟨last, hlast, heq⟩ := Option.map_eq_some_iff.mp h
    cases heq
    rw [List.getLast?_eq_getElem?] at hlast
    have hlt := (List.getElem?_eq_some_iff.mp hlast).1
    exact ⟨hlast, by omega⟩
  · cases h

theorem Inv.measure {s : System B} (h : Inv s) {l : Look B} {process : ℕ} {started : ℤ}
    (hactivity : s.activity = .measuring l) (hrunning : running s = some (process, started)) :
    Inv { s with
      activity := .measuring { l with
        measured := some ⟨process, ((s.now - started) / millisecond).toNat⟩ } } := by
  obtain ⟨hprocess, hlength⟩ := running_spec hrunning
  have hunderway := h.underway
  simp only [Underway, hactivity] at hunderway
  obtain ⟨hlooks, hartifacts⟩ := hunderway
  have hstarts := hlooks.starts
  have hstarted : started ≤ s.now := h.past started (List.mem_of_getElem? hprocess)
  refine h.turn _ ⟨⟨hlooks.sent, hlooks.writes, hlooks.starts, fun m hm => ?_, fun _ => rfl⟩,
    hartifacts⟩ fun t l' ht hl => ?_
  · cases hm
    exact ⟨by dsimp only; omega, started, s.now, hprocess, hstarted, hlooks.sent, le_rfl, rfl⟩
  · cases hl
    exact h.since t l ht (by rw [hactivity]; rfl)

theorem Inv.metrics {s : System B} (h : Inv s) {l : Look B} {reported : Bool}
    (hactivity : s.activity = .measuring l)
    (hreported : reported = true → l.measured.isSome = true) :
    Inv { s with activity := .reading { l with received := s.now, reported } configPaths } := by
  have hunderway := h.underway
  simp only [Underway, hactivity] at hunderway
  obtain ⟨hlooks, hartifacts⟩ := hunderway
  refine h.turn _ ⟨⟨hlooks.sent, hlooks.writes, hlooks.starts, hlooks.measured, hreported⟩, [], [],
    rfl, hartifacts, fun _ => rfl⟩ fun t l' ht hl => ?_
  cases hl
  exact h.since t l ht (by rw [hactivity]; rfl)

theorem readFiles_append (files : String → File B) (paths : List String) (path : String)
    {a : Artifacts B} (h : readFiles files paths = some a) :
    readFiles files (paths ++ [path]) = (files path).read.map fun bytes => a ++ [(path, bytes)] := by
  unfold readFiles at *
  rw [List.mapM_append, h]
  cases hread : (files path).read <;> simp [hread]

theorem readFiles_none {files : String → File B} {paths : List String} {path : String}
    (hmem : path ∈ paths) (h : (files path).read = none) : readFiles files paths = none := by
  induction paths with
  | nil => cases hmem
  | cons p paths ih =>
    unfold readFiles at *
    rw [List.mapM_cons]
    rcases List.mem_cons.mp hmem with rfl | hmem
    · simp [h]
    · rw [ih hmem]
      cases (files p).read <;> rfl

/-- What a look that is complete goes on to. -/
theorem Inv.looked {s : System B} (h : Inv s) {l : Look B} (hcomplete : Complete s l)
    (hsince : ∀ t, s.told = some t →
      t.executed.process + 1 ≤ l.starts ∧ t.look.writes ≤ l.writes) :
    Inv { s with activity := looked l } := by
  have hlater : Later s { s with activity := TesseraReload.looked l } :=
    ⟨le_rfl, List.prefix_refl _, le_rfl, fun _ => rfl⟩
  have hcomplete' := hcomplete.later hlater
  unfold TesseraReload.looked at hcomplete' ⊢
  split
  · rename_i hreplay
    rw [if_pos hreplay] at hcomplete'
    refine h.turn _ hcomplete' fun t l' ht hl => ?_
    cases hl
    exact hsince t ht
  · rename_i hreplay
    rw [if_neg hreplay] at hcomplete'
    refine h.turn _ hcomplete' fun t l' ht hl => ?_
    cases hl
    exact hsince t ht

theorem Inv.read {s : System B} (h : Inv s) {l : Look B} {rest : List String}
    (hactivity : s.activity = .reading l rest) : Inv { s with activity := readOne s l rest } := by
  have hunderway := h.underway
  simp only [Underway, hactivity] at hunderway
  obtain ⟨hlooks, done, a, hpaths, ha, hfiles⟩ := hunderway
  have hsince : ∀ t, s.told = some t →
      t.executed.process + 1 ≤ l.starts ∧ t.look.writes ≤ l.writes :=
    fun t ht => h.since t l ht (by rw [hactivity]; rfl)
  cases rest with
  | nil =>
    rw [List.append_nil] at hpaths
    refine h.looked ⟨hlooks, fun hwrites => ?_⟩ hsince
    rw [ha, hpaths, hfiles hwrites]
  | cons path rest =>
    simp only [readOne]
    split
    · rename_i bytes hread
      refine h.turn _ ⟨⟨hlooks.sent, hlooks.writes, hlooks.starts, hlooks.measured,
        hlooks.reported⟩, done ++ [path], a ++ [(path, bytes)], ?_, ?_, fun hwrites => ?_⟩
        fun t l' ht hl => ?_
      · rw [hpaths, List.append_assoc]
        rfl
      · rw [ha]
        rfl
      · rw [readFiles_append _ _ _ (hfiles hwrites), hread]
        rfl
      · cases hl
        exact hsince t ht
    · rename_i hread
      refine h.looked ⟨⟨hlooks.sent, hlooks.writes, hlooks.starts, hlooks.measured,
        hlooks.reported⟩, fun _ => ?_⟩ hsince
      have hmem : path ∈ configPaths := by simp [hpaths]
      exact (readFiles_none hmem hread).symm

theorem Inv.execute {s : System B} (h : Inv s) {l : Look B} {process : ℕ} {started : ℤ}
    (hactivity : s.activity = .reloading l none) (hrunning : running s = some (process, started)) :
    Inv { s with
      activity := .reloading l (some ⟨process, s.writes, readFiles s.files configPaths⟩) } := by
  obtain ⟨hprocess, hlength⟩ := running_spec hrunning
  have hunderway := h.underway
  simp only [Underway, hactivity] at hunderway
  refine h.turn _ ⟨hunderway.later ⟨le_rfl, List.prefix_refl _, le_rfl, fun _ => rfl⟩, ?_⟩
    fun t l' ht hl => ?_
  · refine ⟨by dsimp only; omega, fun m hm => ?_, fun hwrites => (hunderway.files hwrites).symm⟩
    obtain ⟨-, started', moment, hmeasured, -⟩ := hunderway.measured m hm
    have hlt := (List.getElem?_eq_some_iff.mp hmeasured).1
    dsimp only
    omega
  · cases hl
    exact h.since t l ht (by rw [hactivity]; rfl)

theorem Inv.reloaded {s : System B} (h : Inv s) {l : Look B} {e : Executed B}
    (hactivity : s.activity = .reloading l (some e)) :
    Inv { s with activity := .idle, last := some l.seen, told := some ⟨l, e⟩ } := by
  have hunderway := h.underway
  simp only [Underway, hactivity] at hunderway
  refine ⟨trivial, fun t ht => ?_, fun t l' _ hl => (by cases hl), fun seen hseen => ?_, h.past⟩
  · cases ht
    exact ⟨hunderway.1.later ⟨le_rfl, List.prefix_refl _, le_rfl, fun _ => rfl⟩,
      hunderway.2.later ⟨le_rfl, List.prefix_refl _, le_rfl, fun _ => rfl⟩⟩
  · cases hseen
    exact ⟨_, rfl, rfl⟩

theorem Inv.step [DecidableEq B] {s s' : System B} {a : Act B} (h : Inv s)
    (hstep : step s a = some s') : Inv s' := by
  cases a with
  | wait d =>
    cases hstep
    have hlater : s.now ≤ s.now + d := by omega
    refine h.later ⟨hlater, List.prefix_refl _, le_rfl, fun _ => rfl⟩ rfl rfl rfl fun p hp => ?_
    exact (h.past p hp).trans hlater
  | write path file =>
    simp only [TesseraReload.step] at hstep
    split at hstep
    · cases hstep
      refine h.later ⟨le_rfl, List.prefix_refl _, Nat.le_succ _, fun hwrites => ?_⟩ rfl rfl rfl h.past
      dsimp only at hwrites
      omega
    · cases hstep
  | start =>
    simp only [TesseraReload.step] at hstep
    split at hstep
    · cases hstep
    · cases hstep
      refine h.later ⟨le_rfl, List.prefix_append _ _, le_rfl, fun _ => rfl⟩ rfl rfl rfl fun p hp => ?_
      rcases List.mem_append.mp hp with hold | hnew
      · exact h.past p hold
      · exact (List.mem_singleton.mp hnew).le
  | stop =>
    cases hstep
    exact h.later ⟨le_rfl, List.prefix_refl _, le_rfl, fun _ => rfl⟩ rfl rfl rfl h.past
  | restartControl =>
    cases hstep
    exact h.forget
  | replay =>
    simp only [TesseraReload.step] at hstep
    split at hstep
    · cases hstep
      exact h.turn _ trivial fun t l _ hl => by cases hl
    · cases hstep
  | command =>
    simp only [TesseraReload.step] at hstep
    split at hstep
    · cases hstep
      exact h.look false
    · cases hstep
  | status answer =>
    simp only [TesseraReload.step] at hstep
    split at hstep
    · split at hstep
      · cases hstep
        exact h.look true
      · cases hstep
    · cases hstep
      exact h.forget
    · cases hstep
      exact h.rest
    · cases hstep
  | measure =>
    simp only [TesseraReload.step] at hstep
    split at hstep
    · rename_i l process started hactivity hrunning
      split at hstep
      · cases hstep
        exact h.measure hactivity hrunning
      · cases hstep
    · cases hstep
  | metrics reported =>
    simp only [TesseraReload.step] at hstep
    split at hstep
    · rename_i l hactivity
      split at hstep
      · cases hstep
      · rename_i hnot
        cases hstep
        refine h.metrics hactivity fun hreported => ?_
        simpa [hreported, Option.isSome_iff_ne_none] using hnot
    · cases hstep
  | read =>
    simp only [TesseraReload.step] at hstep
    split at hstep
    · rename_i l rest hactivity
      cases hstep
      exact h.read hactivity
    · cases hstep
  | decide =>
    simp only [TesseraReload.step] at hstep
    split at hstep
    · rename_i l hactivity
      cases hstep
      have hunderway := h.underway
      simp only [Underway, hactivity] at hunderway
      split
      · refine h.turn _ (hunderway.later ⟨le_rfl, List.prefix_refl _, le_rfl, fun _ => rfl⟩)
          fun t l' ht hl => ?_
        cases hl
        exact h.since t l ht (by rw [hactivity]; rfl)
      · exact h.rest
    · cases hstep
  | execute =>
    simp only [TesseraReload.step] at hstep
    split at hstep
    · rename_i l process started hactivity hrunning
      cases hstep
      exact h.execute hactivity hrunning
    · cases hstep
  | reloaded ok =>
    simp only [TesseraReload.step] at hstep
    split at hstep
    · rename_i l done hactivity
      split at hstep
      · cases hstep
        exact h.reloaded hactivity
      · cases hstep
      · cases hstep
        exact h.rest
    · cases hstep

/-! ### The spans of two looks -/

/-- The start of the measured process lies in the span that the look takes it to be in. -/
theorem Within.span {s : System B} {l : Look B} {m : Measured} (h : Within s l m l.received) :
    ∃ started, s.processes[m.process]? = some started ∧
      (Started.fromUptime l.sent l.received m.uptime).earliest < started ∧
      started ≤ (Started.fromUptime l.sent l.received m.uptime).latest := by
  obtain ⟨started, moment, hprocess, hbefore, hsent, hlatest, huptime⟩ := h
  refine ⟨started, hprocess, ?_, ?_⟩
  all_goals
    simp only [Started.fromUptime, huptime, millisecond]
    omega

/-- Two spans around one instant overlap. -/
theorem overlaps_of_between {a b : Started} {instant : ℤ} (ha : a.earliest < instant)
    (ha' : instant ≤ a.latest) (hb : b.earliest < instant) (hb' : instant ≤ b.latest) :
    a.overlaps b = true := by
  simp only [Started.overlaps, decide_eq_true_eq]
  omega

/-- The instants in two spans that overlap are no further apart than both are long. -/
theorem near_of_overlaps {sent received sent' received' : ℤ} {uptime uptime' : ℕ} {x y : ℤ}
    (h : (Started.fromUptime sent received uptime).overlaps
      (Started.fromUptime sent' received' uptime') = true)
    (hx : (Started.fromUptime sent received uptime).earliest < x ∧
      x ≤ (Started.fromUptime sent received uptime).latest)
    (hy : (Started.fromUptime sent' received' uptime').earliest < y ∧
      y ≤ (Started.fromUptime sent' received' uptime').latest) :
    |x - y| ≤ (received - sent) + (received' - sent') + 2 * millisecond := by
  obtain ⟨hfirst, hsecond⟩ := of_decide_eq_true h
  simp only [Started.fromUptime, millisecond] at *
  rw [abs_le]
  omega

/-! ### A replay that has looked -/

/-- What a reload gave the daemon is what one would give it now. -/
structure Same (s : System B) (l : Look B) (t : Told B) : Prop where
  /-- What each file held when it was read, before that reload and now. -/
  artifacts : ∃ a, l.artifacts = some a ∧ t.look.artifacts = some a ∧
    (l.writes = s.writes → readFiles s.files configPaths = some a) ∧
    (t.look.writes = t.executed.writes → t.executed.disk = some a)
  reported : l.reported = t.look.reported
  /-- The process that answered is the one that reloaded, unless two processes started within the
  exchanges that measured them. -/
  process : l.reported = true → ∃ m before, l.measured = some m ∧ t.look.measured = some before ∧
    (m.process = t.executed.process ∨ m.process ≠ before.process ∧ ∃ x y,
      s.processes[m.process]? = some x ∧ s.processes[before.process]? = some y ∧
      |x - y| ≤ (l.received - l.sent) + (t.look.received - t.look.sent) + 2 * millisecond)

theorem sameAs_cases [DecidableEq B] {now before : Seen B} (h : now.sameAs before = true) :
    ∃ a, now.artifacts = some a ∧ before.artifacts = some a ∧
      (now.daemon = none ∧ before.daemon = none ∨
        ∃ x y, now.daemon = some x ∧ before.daemon = some y ∧ x.overlaps y = true) := by
  unfold Seen.sameAs at h
  split at h
  · rename_i a b ha hb
    rw [Bool.and_eq_true, decide_eq_true_eq] at h
    obtain ⟨rfl, hdaemon⟩ := h
    refine ⟨a, ha, hb, ?_⟩
    split at hdaemon
    · rename_i x y hx hy
      exact .inr ⟨x, y, hx, hy, hdaemon⟩
    · exact .inl ⟨‹_›, ‹_›⟩
    · cases hdaemon
  · cases h

/-- The span that a look reports. -/
theorem Complete.daemon {s : System B} {l : Look B} (h : Complete s l) :
    l.reported = false ∧ l.seen.daemon = none ∨ l.reported = true ∧ ∃ m, l.measured = some m ∧
      l.seen.daemon = some (Started.fromUptime l.sent l.received m.uptime) := by
  cases hreported : l.reported with
  | false => exact .inl ⟨rfl, by simp [Look.seen, hreported]⟩
  | true =>
    obtain ⟨m, hm⟩ := Option.isSome_iff_exists.mp (h.reported hreported)
    exact .inr ⟨rfl, m, hm, by simp [Look.seen, hreported, hm]⟩

theorem Inv.same [DecidableEq B] {s : System B} (h : Inv s) {l : Look B}
    (hactivity : s.activity = .deciding l) (hdue : due s l.seen = false) :
    ∃ t, s.told = some t ∧ Same s l t := by
  have hcomplete : Complete s l := by simpa [Underway, hactivity] using h.underway
  unfold due at hdue
  split at hdue
  · rename_i seen hlast
    obtain ⟨t, ht, rfl⟩ := h.last seen hlast
    obtain ⟨htcomplete, hcarried⟩ := h.told t ht
    have hsince := (h.since t l ht (by rw [hactivity]; rfl)).1
    obtain ⟨a, hnow, hbefore, hdaemon⟩ := sameAs_cases (by simpa using hdue)
    have hnow : l.artifacts = some a := hnow
    have hbefore : t.look.artifacts = some a := hbefore
    refine ⟨t, ht, ⟨a, hnow, hbefore, fun hwrites => ?_, fun hwrites => ?_⟩, ?_, fun hreported => ?_⟩
    · rw [← hcomplete.files hwrites, hnow]
    · rw [hcarried.disk hwrites, hbefore]
    · rcases hcomplete.daemon with ⟨hr, hd⟩ | ⟨hr, m, -, hd⟩ <;>
        rcases htcomplete.daemon with ⟨hr', hd'⟩ | ⟨hr', m', -, hd'⟩ <;>
        simp_all
    · rcases hcomplete.daemon with ⟨hr, -⟩ | ⟨-, m, hm, hd⟩
      · rw [hr] at hreported
        cases hreported
      rcases hdaemon with ⟨hnone, -⟩ | ⟨x, y, hx, hy, hoverlaps⟩
      · rw [hd] at hnone
        cases hnone
      rcases htcomplete.daemon with ⟨-, hd'⟩ | ⟨-, before, hm', hd'⟩
      · rw [hd'] at hy
        cases hy
      refine ⟨m, before, hm, hm', ?_⟩
      obtain ⟨started, hstarted, hspan⟩ := (hcomplete.measured m hm).2.span
      obtain ⟨started', hstarted', hspan'⟩ := (htcomplete.measured before hm').2.span
      obtain rfl := Option.some.inj (hd.symm.trans hx)
      obtain rfl := Option.some.inj (hd'.symm.trans hy)
      -- a process that was measured before the reload carried it out if it is still there
      have hafter := hcarried.after before hm'
      have hbegan := (hcomplete.measured m hm).1
      by_cases hsame : m.process = before.process
      · exact .inl (by omega)
      · exact .inr ⟨hsame, started, started', hstarted, hstarted',
          near_of_overlaps hoverlaps hspan hspan'⟩
  · cases hdue

/-- While nothing changes and every look sees all there is, nothing is due. -/
theorem Inv.still [DecidableEq B] {s : System B} (h : Inv s) {l : Look B} {t : Told B}
    (hactivity : s.activity = .deciding l) (ht : s.told = some t) (hlast : s.last ≠ none)
    (hwrites : t.look.writes = s.writes) (hstarts : t.look.starts = s.processes.length)
    (hread : t.look.artifacts ≠ none) (hreported : l.reported = t.look.reported) :
    due s l.seen = false := by
  have hcomplete : Complete s l := by simpa [Underway, hactivity] using h.underway
  obtain ⟨htcomplete, hcarried⟩ := h.told t ht
  have hsince := h.since t l ht (by rw [hactivity]; rfl)
  obtain ⟨seen, hseen⟩ := Option.ne_none_iff_exists'.mp hlast
  obtain ⟨t', ht', rfl⟩ := h.last seen hseen
  obtain rfl := Option.some.inj (ht.symm.trans ht')
  obtain ⟨hstarted, hwritten⟩ := hsince
  have hold := hcomplete.writes
  have hfiles : l.artifacts = t.look.artifacts := by
    rw [htcomplete.files hwrites, hcomplete.files (by omega)]
  obtain ⟨a, ha⟩ := Option.ne_none_iff_exists'.mp hread
  have hdaemon : (l.seen.daemon = none ∧ t.look.seen.daemon = none) ∨ ∃ x y,
      l.seen.daemon = some x ∧ t.look.seen.daemon = some y ∧ x.overlaps y = true := by
    rcases hcomplete.daemon with ⟨hr, hd⟩ | ⟨hr, m, hm, hd⟩ <;>
      rcases htcomplete.daemon with ⟨hr', hd'⟩ | ⟨hr', before, hbefore, hd'⟩
    · exact .inl ⟨hd, hd'⟩
    · simp [hr, hr'] at hreported
    · simp [hr, hr'] at hreported
    · refine .inr ⟨_, _, hd, hd', ?_⟩
      obtain ⟨hlate, hwithin⟩ := hcomplete.measured m hm
      obtain ⟨hlate', hwithin'⟩ := htcomplete.measured before hbefore
      obtain ⟨started, hprocess, hspan⟩ := hwithin.span
      obtain ⟨started', hprocess', hspan'⟩ := hwithin'.span
      have hlt := (List.getElem?_eq_some_iff.mp hprocess).1
      have hlt' := (List.getElem?_eq_some_iff.mp hprocess').1
      have hexecuted := hcarried.after before hbefore
      have hsame : m.process = before.process := by omega
      rw [hsame, hprocess'] at hprocess
      cases hprocess
      exact overlaps_of_between hspan.1 hspan.2 hspan'.1 hspan'.2
  have hnow : l.seen.artifacts = some a := hfiles.trans ha
  have hthen : t.look.seen.artifacts = some a := ha
  unfold due
  rw [hseen]
  simp only [Seen.sameAs, hnow, hthen, Bool.not_eq_false']
  rcases hdaemon with ⟨hd, hd'⟩ | ⟨x, y, hd, hd', hoverlaps⟩
  · simp [hd, hd']
  · simp [hd, hd', hoverlaps]

/-! ### Whole runs -/

/-- A replay is under way. -/
def Activity.isReplay : Activity B → Bool
  | .asking => true
  | .measuring l | .reading l _ | .deciding l => l.replay
  | _ => false

/-- How a replay ends without a reload: the daemon did not answer its question, control went, or
nothing was due. -/
theorem replay_ends [DecidableEq B] {s s' : System B} {a : Act B} (h : step s a = some s')
    (hreplay : s.activity.isReplay = true) (hidle : s'.activity = .idle) :
    a = .status .io ∨ a = .status .error ∨ a = .restartControl ∨
      ∃ l, s.activity = .deciding l ∧ due s l.seen = false := by
  have hgone : s'.activity = s.activity → False := by
    intro hsame
    rw [← hsame, hidle] at hreplay
    cases hreplay
  have hmoved : ∀ activity, s' = { s with activity } → activity ≠ .idle → False := by
    rintro activity rfl hne
    exact hne hidle
  cases a with
  | wait d =>
    cases h
    exact (hgone rfl).elim
  | write path file =>
    simp only [step] at h
    split at h
    · cases h
      exact (hgone rfl).elim
    · cases h
  | start =>
    simp only [step] at h
    split at h
    · cases h
    · cases h
      exact (hgone rfl).elim
  | stop =>
    cases h
    exact (hgone rfl).elim
  | restartControl => exact .inr (.inr (.inl rfl))
  | status answer =>
    cases answer with
    | io => exact .inl rfl
    | error => exact .inr (.inl rfl)
    | ok =>
      simp only [step] at h
      split at h
      · split at h
        · cases h
          exact (hmoved _ rfl nofun).elim
        · cases h
      all_goals simp_all
  | decide =>
    simp only [step] at h
    split at h
    · rename_i l hactivity
      cases h
      cases hdue : due s l.seen with
      | true => simp [hdue] at hidle
      | false => exact .inr (.inr (.inr ⟨l, hactivity, hdue⟩))
    · cases h
  | read =>
    simp only [step] at h
    split at h
    · rename_i l rest hactivity
      cases h
      refine (hmoved _ rfl ?_).elim
      unfold readOne looked
      split
      · split <;> nofun
      · split
        · nofun
        · split <;> nofun
    · cases h
  | replay | command =>
    simp only [step] at h
    split at h
    · rename_i hactivity
      rw [hactivity] at hreplay
      cases hreplay
    · cases h
  | measure =>
    simp only [step] at h
    split at h
    · split at h
      · cases h
        exact (hmoved _ rfl nofun).elim
      · cases h
    · cases h
  | metrics reported =>
    simp only [step] at h
    split at h
    · split at h
      · cases h
      · cases h
        exact (hmoved _ rfl nofun).elim
    · cases h
  | execute =>
    simp only [step] at h
    split at h
    · cases h
      exact (hmoved _ rfl nofun).elim
    · cases h
  | reloaded ok =>
    simp only [step] at h
    split at h
    · rename_i l done hactivity
      rw [hactivity] at hreplay
      cases hreplay
    · cases h

/-- What is promised of every replay. -/
structure Exact [DecidableEq B] (s : System B) : Prop where
  quiet : ∀ a s', step s a = some s' → s.activity.isReplay = true → s'.activity = .idle →
    a = .status .io ∨ a = .status .error ∨ a = .restartControl ∨
      ∃ l t, s.activity = .deciding l ∧ s.told = some t ∧ Same s l t
  still : ∀ l t, s.activity = .deciding l → s.told = some t → s.last ≠ none →
    t.look.writes = s.writes → t.look.starts = s.processes.length → t.look.artifacts ≠ none →
    l.reported = t.look.reported → due s l.seen = false

theorem replays_exact [DecidableEq B] (files : String → File B) (acts : List (Act B))
    (s : System B) (h : after step (new files) acts = some s) : Exact s := by
  have hinv : Inv s := after_inv (fun _ _ _ => Inv.step) (.new files) h
  refine ⟨fun a s' hstep hreplay hidle => ?_, fun l t hactivity ht hlast hwrites hstarts hread
    hreported => hinv.still hactivity ht hlast hwrites hstarts hread hreported⟩
  rcases replay_ends hstep hreplay hidle with hio | herror | hgone | ⟨l, hactivity, hdue⟩
  · exact .inl hio
  · exact .inr (.inl herror)
  · exact .inr (.inr (.inl hgone))
  · obtain ⟨t, ht, hsame⟩ := hinv.same hactivity hdue
    exact .inr (.inr (.inr ⟨l, t, hactivity, ht, hsame⟩))

/-! ### Where a look cannot tell -/

def rendered : String → File ℕ := fun _ => .missing

/-- A replay whose daemon reports no uptime, up to where it decides. -/
def lookOnce (reported : Bool) : List (Act ℕ) :=
  [.replay, .status .ok, .measure, .metrics reported] ++ List.replicate 5 .read

def reloadOnce (reported : Bool) : List (Act ℕ) :=
  lookOnce reported ++ [.decide, .execute, .reloaded true]

/-- The daemon starts, and one that cannot be told apart starts an hour later. -/
def untold : List (Act ℕ) :=
  .start :: reloadOnce false ++ [.stop, .wait 3600000000000, .start] ++ lookOnce false

/-- The daemon's socket fails once, between two replays. -/
def unreachable : List (Act ℕ) :=
  .start :: reloadOnce true ++ [.replay, .status .io] ++ lookOnce true

/-- Another process runs than the one reloaded and nothing is due; and a reload is due though
neither a file nor the process has changed. -/
theorem looks_cannot_tell :
    (∃ s l t, after step (new rendered) untold = some s ∧ s.activity = .deciding l ∧
      due s l.seen = false ∧ s.told = some t ∧ t.executed.process + 1 < s.processes.length) ∧
    ∃ s l t, after step (new rendered) unreachable = some s ∧ s.activity = .deciding l ∧
      due s l.seen = true ∧ s.told = some t ∧ t.look.writes = s.writes ∧
      t.look.starts = s.processes.length ∧ t.executed.process + 1 = s.processes.length :=
  ⟨⟨_, _, _, rfl, rfl, rfl, rfl, by decide⟩, _, _, _, rfl, rfl, rfl, rfl, rfl, rfl, rfl⟩

theorem unreachable_exact :
    ∃ s, after step (new rendered) unreachable = some s ∧ s.last = none ∧ Exact s :=
  ⟨_, rfl, rfl, replays_exact rendered unreachable _ rfl⟩

end NdimonR.State.TesseraReload
