import NdimonR.State.AssetsCollected
import NdimonR.State.Imperative

/-! A transaction of the store, cut off anywhere: what either recovery makes of the files is the
document before it until its commit, and the next one from then on. -/

namespace NdimonR.State.AssetStore

open NdimonR.Types

variable {R Action : Type} {env : Env Action}

/-- The same document; the rest of an envelope records the jobs of plugins. -/
def Same (f g : StateFile R) : Prop := f.document = g.document

namespace Phase

/-- The transaction that has not been committed. -/
def undecided : Phase R → Option (Transaction R)
  | .admitted t | .saved t | .marked t | .staged t | .restored t => some t
  | _ => none

/-- The transaction whose commit may have been reported as failed. -/
def unsure : Phase R → Option (Transaction R)
  | .failing t => some t
  | _ => none

def done : Phase R → Option (Transaction R)
  | .committed t => some t
  | _ => none

/-- What the files hold in each phase of a transaction. -/
def Finds (d : Disk R) : Phase R → Prop
  | .admitted t => d.pending = false ∧ d.state = some t.previous
  | .saved t => d.pending = false ∧ d.state = some t.previous ∧ d.previous = some t.previous
  | .marked t => d.pending = true ∧ d.previous = some t.previous
  | .staged t => d.pending = true ∧ d.previous = some t.previous ∧ d.state = some t.next
  | .committed t => d.pending = false ∧ d.state = some t.next
  | .failing t =>
    ∃ f, d.committed = some f ∧ (Same f t.previous ∨ d.pending = false ∧ f = t.next)
  | .restored t => d.state = some t.previous ∧ ∃ f, d.committed = some f ∧ Same f t.previous
  | .down | .starting _ | .idle _ | .booting _ => True

end Phase

/-- Steps of a recovery: of a start until it writes, of a turn that begins, and of a root job. -/
def Act.recovers : Act R → Bool
  | .crash | .start _ | .migrate .. | .serve | .restorePrevious | .unmark | .refresh => true
  | _ => false

theorem Disk.committed_marked {d : Disk R} (h : d.pending = true) : d.committed = d.previous :=
  if_pos h

theorem Disk.committed_unmarked {d : Disk R} (h : d.pending = false) : d.committed = d.state := by
  rw [Disk.committed, h]
  rfl

namespace System

variable {s s' : System R}

structure Atomic (s : System R) : Prop where
  marker : s.disk.pending = true → ∃ f, s.disk.previous = some f
  finds : s.phase.Finds s.disk

theorem Atomic.fresh (assets : Directory) : Atomic ({ disk := { assets } } : System R) :=
  ⟨fun h => (by cases h), trivial⟩

/-- Outside a transaction only the marker's promise remains. -/
theorem Atomic.unlocked (marker : s.disk.pending = true → ∃ f, s.disk.previous = some f)
    (hfree : s.phase.unlocked = true) : Atomic s := by
  refine ⟨marker, ?_⟩
  cases hphase : s.phase with
  | down | starting | idle | booting => trivial
  | admitted | saved | marked | staged | committed | failing | restored =>
    rw [hphase] at hfree
    cases hfree

theorem Atomic.phase (h : Atomic s) {p : Phase R} (hp : s.phase = p) : p.Finds s.disk :=
  hp ▸ h.finds

/-- Writing assets changes none of the three files. -/
theorem Phase.Finds.assets {d : Disk R} {p : Phase R} (h : p.Finds d) (assets : Directory) :
    p.Finds { d with assets } := by
  cases p <;> exact h

theorem Atomic.apart (h : Atomic s) (assets : Directory) (pins : String → ℕ)
    (held : List (ℕ × AssetRef)) (queue : List Message) :
    Atomic { s with
      disk.assets := assets
      pins, held, queue } :=
  ⟨h.marker, Phase.Finds.assets h.finds assets⟩

theorem Atomic.storeFiles (h : Atomic s) {bytes : Bytes} {written : ℕ} {asset : AssetRef}
    {whole : Bool} (hstore : s.storeFiles env bytes written = some (asset, whole, s')) :
    Atomic s' := by
  obtain ⟨files, d, _, _, _, rfl⟩ := storeFiles_eq hstore
  exact h.apart d s.pins s.held s.queue

/-- Before the commit, the envelope before counts. -/
theorem finds_previous {d : Disk R} {t : Transaction R} {p : Phase R} (h : p.Finds d)
    (hp : p = .admitted t ∨ p = .saved t ∨ p = .marked t ∨ p = .staged t) :
    d.committed = some t.previous := by
  rcases hp with rfl | rfl | rfl | rfl
  · exact (Disk.committed_unmarked h.1).trans h.2
  · exact (Disk.committed_unmarked h.1).trans h.2.1
  · exact (Disk.committed_marked h.1).trans h.2
  · exact (Disk.committed_marked h.1).trans h.2.1

/-- The present envelope is written again while the one before still counts, or counts itself. -/
theorem committed_rewritten {d : Disk R} {t : Transaction R} {f : StateFile R}
    (h : (Phase.failing t).Finds d) (hf : Same f t.previous) :
    ∃ g, ({ d with state := some f } : Disk R).committed = some g ∧ Same g t.previous := by
  obtain ⟨g, hg, hsame⟩ := h
  by_cases hpending : d.pending = true
  · refine ⟨g, ?_, hsame.resolve_right fun hnext => ?_⟩
    · rw [← hg, Disk.committed, Disk.committed, if_pos hpending, if_pos hpending]
    · exact absurd (hnext.1.symm.trans hpending) (by simp)
  · refine ⟨f, ?_, hf⟩
    rw [Disk.committed, if_neg hpending]

variable [DecidableEq R]

theorem Atomic.step (h : Atomic s) {a : Act R} (hstep : s.step env a = some s') : Atomic s' := by
  unfold System.step at hstep
  cases a <;> dsimp only at hstep
  case put request bytes written =>
    split_ifs at hstep
    obtain ⟨⟨asset, whole, mid⟩, hstore, heq⟩ := Option.map_eq_some_iff.mp hstep
    have hmid := h.storeFiles hstore
    dsimp only at heq
    split_ifs at heq <;> subst heq
    · exact hmid.apart _ _ _ _
    · exact hmid
  case send request command asset =>
    split_ifs at hstep
    cases hstep
    exact h.apart _ _ _ _
  case release request asset =>
    unfold System.releaseAsset at hstep
    split_ifs at hstep
    cases hstep
    exact h.apart _ _ _ _
  case crash =>
    cases hstep
    exact ⟨h.marker, trivial⟩
  case importLegacy bytes written =>
    split at hstep
    · unfold System.importLegacy at hstep
      split_ifs at hstep
      obtain ⟨⟨asset, whole, mid⟩, hstore, heq⟩ := Option.map_eq_some_iff.mp hstep
      have hmid := h.storeFiles hstore
      dsimp only at heq
      split_ifs at heq <;> subst heq
      · exact ⟨hmid.marker, trivial⟩
      · exact hmid
    · cases hstep
  case restorePrevious | decide =>
    split at hstep
    · split_ifs at hstep with hfree
      cases hstep
      rw [Bool.and_eq_true] at hfree
      exact .unlocked h.marker hfree.1
    · cases hstep
  case unmark =>
    split_ifs at hstep with hfree
    cases hstep
    simp only [Bool.and_eq_true] at hfree
    exact .unlocked (fun hpending => by cases hpending) hfree.1.1
  case boot =>
    obtain ⟨f, _, hboot⟩ := Option.bind_eq_some_iff.mp hstep
    obtain ⟨d, _, rfl⟩ := Option.map_eq_some_iff.mp hboot
    exact ⟨h.marker, trivial⟩
  case record rest =>
    obtain ⟨f, _, rfl⟩ := Option.map_eq_some_iff.mp hstep
    exact ⟨h.marker, trivial⟩
  case submit context rest =>
    obtain ⟨f, hf, hsubmit⟩ := Option.bind_eq_some_iff.mp hstep
    obtain ⟨_, hstate, hpending⟩ := refreshed_eq hf
    unfold System.submit at hsubmit
    split at hsubmit
    · cases hsubmit
    · obtain ⟨next, _, hsubmit⟩ := Option.bind_eq_some_iff.mp hsubmit
      obtain ⟨p, _, hsubmit⟩ := Option.bind_eq_some_iff.mp hsubmit
      split_ifs at hsubmit
      all_goals
        obtain ⟨d, _, hsubmit⟩ := Option.bind_eq_some_iff.mp hsubmit
        cases hsubmit
        exact ⟨h.marker, hpending, hstate⟩
  case complete plugins rest =>
    obtain ⟨f, hf, rfl⟩ := Option.map_eq_some_iff.mp hstep
    obtain ⟨_, hstate, hpending⟩ := refreshed_eq hf
    exact ⟨h.marker, hpending, hstate⟩
  case reserve rest =>
    split at hstep
    · rename_i t hphase
      cases hstep
      exact ⟨h.marker, (h.phase hphase).1, rfl⟩
    · cases hstep
  case save =>
    split at hstep
    · rename_i t hphase
      cases hstep
      obtain ⟨hpending, hstate⟩ := h.phase hphase
      exact ⟨fun _ => ⟨_, rfl⟩, hpending, hstate, rfl⟩
    · cases hstep
  case mark =>
    split at hstep
    · rename_i t hphase
      cases hstep
      obtain ⟨_, _, hprevious⟩ := h.phase hphase
      exact ⟨fun _ => ⟨_, hprevious⟩, rfl, hprevious⟩
    · cases hstep
  case publish =>
    split at hstep
    · rename_i t hphase
      cases hstep
      obtain ⟨hpending, hprevious⟩ := h.phase hphase
      exact ⟨h.marker, hpending, hprevious, rfl⟩
    · cases hstep
  case accept rest =>
    split at hstep
    · rename_i t hphase
      cases hstep
      obtain ⟨hpending, hprevious, _⟩ := h.phase hphase
      exact ⟨h.marker, hpending, hprevious, rfl⟩
    · cases hstep
  case commit =>
    split at hstep
    · rename_i t hphase
      cases hstep
      obtain ⟨_, _, hstate⟩ := h.phase hphase
      split_ifs
      · exact ⟨fun hpending => (by cases hpending), rfl, hstate⟩
      · exact ⟨fun hpending => (by cases hpending), trivial⟩
    · cases hstep
  case commitUnsynced =>
    split at hstep
    · rename_i t hphase
      cases hstep
      obtain ⟨_, _, hstate⟩ := h.phase hphase
      exact ⟨fun hpending => (by cases hpending), t.next, hstate, .inr ⟨rfl, rfl⟩⟩
    · cases hstep
  case fail =>
    split at hstep
    case h_5 => cases hstep
    all_goals
      rename_i t hphase
      cases hstep
      exact ⟨h.marker, t.previous, finds_previous (h.phase hphase) (by simp), .inl rfl⟩
  case releaseReservation rest =>
    split at hstep
    · rename_i t hphase
      cases hstep
      obtain ⟨g, hg, hsame⟩ := committed_rewritten (h.phase hphase) (f := ⟨_, rest⟩) rfl
      exact ⟨h.marker, g, hg, .inl hsame⟩
    · cases hstep
  case putBack =>
    split at hstep
    · rename_i t hphase
      cases hstep
      exact ⟨h.marker, rfl, committed_rewritten (h.phase hphase) rfl⟩
    · cases hstep
  case unmarkBack =>
    split at hstep
    · cases hstep
      exact ⟨fun hpending => (by cases hpending), trivial⟩
    · cases hstep
  case refuse =>
    split at hstep
    · cases hstep
      exact h.apart _ _ _ _
    · cases hstep
  all_goals
    repeat' split at hstep
    all_goals
      cases hstep
      try exact ⟨h.marker, trivial⟩

/-- A recovery changes what the files are, not what they mean. -/
theorem committed_recovers {a : Act R} (ha : a.recovers = true)
    (hstep : s.step env a = some s') : s'.disk.committed = s.disk.committed := by
  unfold System.step at hstep
  cases a <;> dsimp only at hstep
  case crash =>
    cases hstep
    rfl
  case restorePrevious =>
    split at hstep
    · rename_i f hprevious
      split_ifs at hstep with hfree
      cases hstep
      rw [Bool.and_eq_true] at hfree
      rw [Disk.committed_marked hfree.2]
      exact Disk.committed_marked hfree.2
    · cases hstep
  case unmark =>
    split_ifs at hstep with hfree
    cases hstep
    simp only [Bool.and_eq_true, decide_eq_true_eq] at hfree
    rw [Disk.committed_marked hfree.1.2, ← hfree.2]
    exact Disk.committed_unmarked rfl
  case start | migrate | serve | refresh =>
    repeat' split at hstep
    all_goals
      cases hstep
      try rfl
  all_goals cases ha

omit [DecidableEq R] in
theorem Atomic.undecided (h : Atomic s) {t : Transaction R} (ht : s.phase.undecided = some t) :
    ∃ f, s.disk.committed = some f ∧ Same f t.previous := by
  cases hphase : s.phase with
  | admitted t' | saved t' | marked t' | staged t' =>
    rw [hphase] at ht
    obtain rfl := Option.some.inj ht
    exact ⟨t'.previous, finds_previous (h.phase hphase) (by simp), rfl⟩
  | restored t' =>
    rw [hphase] at ht
    cases ht
    exact (h.phase hphase).2
  | down | starting | idle | booting | committed | failing =>
    rw [hphase] at ht
    cases ht

omit [DecidableEq R] in
theorem Atomic.done (h : Atomic s) {t : Transaction R} (ht : s.phase.done = some t) :
    s.disk.committed = some t.next := by
  cases hphase : s.phase with
  | committed t' =>
    rw [hphase] at ht
    cases ht
    obtain ⟨hpending, hstate⟩ := h.phase hphase
    exact (Disk.committed_unmarked hpending).trans hstate
  | down | starting | idle | booting | admitted | saved | marked | staged | failing | restored =>
    rw [hphase] at ht
    cases ht

omit [DecidableEq R] in
theorem Atomic.unsure (h : Atomic s) {t : Transaction R} (ht : s.phase.unsure = some t) :
    ∃ f, s.disk.committed = some f ∧ (Same f t.previous ∨ f = t.next) := by
  cases hphase : s.phase with
  | failing t' =>
    rw [hphase] at ht
    cases ht
    obtain ⟨f, hf, hsame⟩ := h.phase hphase
    exact ⟨f, hf, hsame.imp_right And.right⟩
  | down | starting | idle | booting | admitted | saved | marked | staged | committed | restored =>
    rw [hphase] at ht
    cases ht

/-- Where the marker is there, a recovery that is not cut off takes it away. -/
theorem Atomic.recover (env : Env Action) (h : Atomic s) (hpending : s.disk.pending = true) :
    ∃ s', Steps.after (System.step env) s [.crash, .restorePrevious, .unmark] = some s' ∧
      s'.disk.pending = false ∧ s'.disk.state = s.disk.committed := by
  obtain ⟨f, hf⟩ := h.marker hpending
  have hrestore : s.crash.step env .restorePrevious = some (s.crash.writeState f .down) := by
    simp [System.step, System.crash, hf, hpending, Phase.unlocked]
  have hunmark : (s.crash.writeState f .down).step env .unmark =
      some { s.crash.writeState f .down with disk.pending := false } := by
    simp [System.step, System.crash, System.writeState, hf, hpending, Phase.unlocked]
  refine ⟨_, Steps.after_cons.mpr ⟨s.crash, rfl, Steps.after_cons.mpr ⟨_, hrestore,
    Steps.after_cons.mpr ⟨_, hunmark, rfl⟩⟩⟩, rfl, ?_⟩
  rw [Disk.committed_marked hpending, hf]
  rfl

end System

namespace Calling

variable [DecidableEq R] {c : Calling R}

theorem atomic_step {c' : Calling R} (h : c.system.Atomic) {m : Move R}
    (hstep : c.step env m = some c') : c'.system.Atomic := by
  have hkeeps : Keeps System.Atomic (fun _ => True) c := ⟨h, fun _ _ => trivial⟩
  refine (hkeeps.step ?_ ?_ ?_ ?_ hstep).system
  · rintro a s' rfl hact
    exact h.step hact
  · exact fun _ _ _ _ => trivial
  · exact fun _ _ _ _ => trivial
  · exact fun f _ => .unlocked h.marker rfl

def started : Calling Unit := { system := fresh }

/-- The first command, up to the envelope that is not committed. -/
def staging : List (Act Unit) := upload ++ [.submit 0 (), .save, .mark, .publish]

end Calling

end NdimonR.State.AssetStore
