import NdimonR.State.CrashAtomic

/-! The envelopes in play, which a process or a recovery may still make count. What an act adds to
them is said once here. -/

namespace NdimonR.State.AssetStore

open NdimonR.Types

variable {R Action : Type} {env : Env Action}

namespace Phase

/-- The envelopes in memory that the process may still write. -/
def binding : Phase R → List (StateFile R)
  | .starting f => [f]
  | .down | .idle _ | .booting _ => []
  | .admitted t | .saved t | .marked t | .staged t | .committed t | .failing t | .restored t =>
    [t.previous, t.next]

def isStarting : Phase R → Bool
  | .starting _ => true
  | _ => false

theorem binding_of_unlocked (p : Phase R) (hfree : p.unlocked = true)
    (hstart : p.isStarting = false) : p.binding = [] := by
  cases p with
  | down | idle | booting => rfl
  | starting => cases hstart
  | admitted | saved | marked | staged | committed | failing | restored => cases hfree

end Phase

namespace System

variable {s s' : System R}

def InPlay (s : System R) (f : StateFile R) : Prop :=
  s.disk.state = some f ∨ (s.disk.pending = true ∧ s.disk.previous = some f) ∨ f ∈ s.phase.binding

variable [DecidableEq R]

/-- The envelopes that an act makes of those that it finds. -/
inductive Made (env : Env Action) (s : System R) : Act R → StateFile R → Prop
  | imported {f : StateFile R} (h : s.disk.state = none) : Made env s (.start f) f
  | logo {f : StateFile R} {bytes : Bytes} {written : ℕ} (h : s.phase = .starting f)
      (asset : AssetRef) : Made env s (.importLegacy bytes written)
        { f with document.display.splash.logo := some asset }
  | migrated {f : StateFile R} {presets : SortedMap String Preset} {rest : R}
      (h : s.phase = .starting f) :
      Made env s (.migrate presets rest) { document := { f.document with presets }, rest }
  | decided {f : StateFile R} {network : NetworkProfiles} {rest : R}
      (h : s.disk.state = some f) : Made env s (.decide network rest)
        { document := { f.document with
            network
            revision := f.document.revision + 1 }
          rest }
  | recorded {f : StateFile R} {rest : R} (h : s.refreshed = some f) :
      Made env s (.record rest) { f with rest }
  | submitted {f : StateFile R} {m : Message} {next : DesiredState} {p : Plan Action}
      {context : ℕ} {rest : R} (h : s.refreshed = some f) (hm : s.queue.head? = some m)
      (hreduce : env.reduce f.document m.command = .ok next)
      (hplan : plan env.planner { f.document with revision := context } next m.command = .ok p) :
      Made env s (.submit context rest)
        { document := { next with revision := f.document.revision + 1 }, rest }
  | completed {f : StateFile R} {plugins : SortedMap String PluginState} {rest : R}
      (h : s.refreshed = some f) : Made env s (.complete plugins rest)
        { document := { f.document with
            plugins
            revision := if plugins = f.document.plugins then f.document.revision
              else f.document.revision + 1 }
          rest }
  | reserved {t : Transaction R} {rest : R} (h : s.phase = .admitted t) :
      Made env s (.reserve rest) { t.previous with rest }
  | accepted {t : Transaction R} {rest : R} (h : s.phase = .staged t) :
      Made env s (.accept rest) { t.next with rest }
  | released {t : Transaction R} {rest : R} (h : s.phase = .failing t) :
      Made env s (.releaseReservation rest) { t.previous with rest }

/-- All envelopes in play are alike in some way, and where there has been one, there is one. -/
structure Holding (served : Prop) (P : StateFile R → Prop) (s : System R) : Prop where
  atomic : Atomic s
  state : served → ∃ f, s.disk.state = some f
  play : ∀ f, s.InPlay f → P f

variable {served : Prop} {P : StateFile R → Prop}

omit [DecidableEq R] in
theorem Holding.committed (h : Holding True P s) : ∃ f, s.disk.committed = some f ∧ P f := by
  unfold Disk.committed
  split_ifs with hpending
  · obtain ⟨f, hf⟩ := h.atomic.marker hpending
    exact ⟨f, hf, h.play f (.inr (.inl ⟨hpending, hf⟩))⟩
  · obtain ⟨f, hf⟩ := h.state trivial
    exact ⟨f, hf, h.play f (.inl hf)⟩

omit [DecidableEq R] in
/-- An envelope is written, and the process goes on with envelopes in play. -/
theorem Holding.writes (h : Holding served P s) {f : StateFile R} (hf : P f) {p : Phase R}
    (hatomic : Atomic (s.writeState f p)) (hbinding : ∀ g ∈ p.binding, P g) :
    Holding served P (s.writeState f p) where
  atomic := hatomic
  state _ := ⟨f, rfl⟩
  play g hg := by
    rcases hg with hg | hg | hg
    · exact Option.some.inj hg ▸ hf
    · exact h.play g (.inr (.inl hg))
    · exact hbinding g hg

omit [DecidableEq R] in
/-- Files other than the present envelope and the marker, and envelopes in memory. -/
theorem Holding.goes (h : Holding served P s) {disk : Disk R} {pins : String → ℕ}
    {held : List (ℕ × AssetRef)} {queue : List Message} {p : Phase R}
    (hatomic : Atomic { disk, pins, held, queue, phase := p }) (hstate : disk.state = s.disk.state)
    (hmarker : ∀ f, disk.pending = true → disk.previous = some f → P f)
    (hbinding : ∀ g ∈ p.binding, P g) :
    Holding served P { disk, pins, held, queue, phase := p } where
  atomic := hatomic
  state hserved := (h.state hserved).imp fun _ hf => hstate.trans hf
  play g hg := by
    rcases hg with hg | hg | hg
    · exact h.play g (.inl (hstate.symm.trans hg))
    · exact hmarker g hg.1 hg.2
    · exact hbinding g hg

omit [DecidableEq R] in
theorem Holding.bound (h : Holding served P s) {p : Phase R} (hphase : s.phase = p) :
    ∀ g ∈ p.binding, P g := fun g hg => h.play g (.inr (.inr (hphase ▸ hg)))

omit [DecidableEq R] in
theorem Holding.marker (h : Holding served P s) : ∀ f, s.disk.pending = true →
    s.disk.previous = some f → P f := fun f hpending hf => h.play f (.inr (.inl ⟨hpending, hf⟩))

theorem Holding.refreshed (h : Holding served P s) {f : StateFile R}
    (hf : s.refreshed = some f) : P f := h.play f (.inl (refreshed_eq hf).2.1)

omit [DecidableEq R] in
theorem nothing_bound : ∀ g ∈ ([] : List (StateFile R)), P g := fun _ hg => (by cases hg)

omit [DecidableEq R] in
theorem both_bound {f g : StateFile R} (hf : P f) (hg : P g) : ∀ e ∈ [f, g], P e := by
  intro e he
  rcases List.mem_cons.mp he with rfl | he
  · exact hf
  · exact List.mem_singleton.mp he ▸ hg

omit [DecidableEq R] in
theorem one_bound {f : StateFile R} (hf : P f) : ∀ e ∈ [f], P e :=
  fun _ he => List.mem_singleton.mp he ▸ hf

/-- Where the envelopes that an act makes are like those in play, so is everything in play. -/
theorem Holding.step (h : Holding served P s) {a : Act R} (hmade : ∀ f, Made env s a f → P f)
    (hstep : s.step env a = some s') : Holding served P s' := by
  have hatomic := h.atomic.step hstep
  unfold System.step at hstep
  cases a <;> dsimp only at hstep
  case put request bytes written =>
    split_ifs at hstep
    obtain ⟨⟨asset, whole, mid⟩, hstore, heq⟩ := Option.map_eq_some_iff.mp hstep
    obtain ⟨files, d, _, _, _, rfl⟩ := storeFiles_eq hstore
    dsimp only at heq
    split_ifs at heq <;> subst heq
    · exact h.goes hatomic rfl h.marker (h.bound rfl)
    · exact h.goes hatomic rfl h.marker (h.bound rfl)
  case send request command asset =>
    split_ifs at hstep
    cases hstep
    exact h.goes hatomic rfl h.marker (h.bound rfl)
  case release request asset =>
    unfold System.releaseAsset at hstep
    split_ifs at hstep
    cases hstep
    exact h.goes hatomic rfl h.marker (h.bound rfl)
  case crash =>
    cases hstep
    exact h.goes hatomic rfl h.marker nothing_bound
  case start imported =>
    split at hstep
    · rename_i f hphase hstate
      split_ifs at hstep
      cases hstep
      exact h.goes hatomic rfl h.marker (one_bound (h.play f (.inl hstate)))
    · rename_i hphase hstate
      split_ifs at hstep
      cases hstep
      exact h.goes hatomic rfl h.marker (one_bound (hmade imported (.imported hstate)))
    · cases hstep
  case importLegacy bytes written =>
    split at hstep
    · rename_i f hphase
      unfold System.importLegacy at hstep
      split_ifs at hstep
      obtain ⟨⟨asset, whole, mid⟩, hstore, heq⟩ := Option.map_eq_some_iff.mp hstep
      obtain ⟨files, d, _, _, _, rfl⟩ := storeFiles_eq hstore
      dsimp only at heq
      split_ifs at heq <;> subst heq
      · exact h.goes hatomic rfl h.marker (one_bound (hmade _ (.logo hphase asset)))
      · exact h.goes hatomic rfl h.marker (h.bound rfl)
    · cases hstep
  case migrate presets rest =>
    split at hstep
    · rename_i f hphase
      cases hstep
      exact h.goes hatomic rfl h.marker (one_bound (hmade _ (.migrated hphase)))
    · cases hstep
  case initializeState =>
    split at hstep
    · rename_i f hphase
      cases hstep
      exact h.writes (h.bound hphase f (.head _)) hatomic (h.bound hphase)
    · cases hstep
  case serve | refresh =>
    split at hstep
    · first
        | cases hstep
        | split_ifs at hstep
          cases hstep
      exact h.goes hatomic rfl h.marker nothing_bound
    · cases hstep
  case restorePrevious =>
    split at hstep
    · rename_i f hprevious
      split_ifs at hstep with hfree
      cases hstep
      rw [Bool.and_eq_true] at hfree
      exact h.writes (h.marker f hfree.2 hprevious) hatomic (h.bound rfl)
    · cases hstep
  case unmark =>
    split_ifs at hstep
    cases hstep
    exact h.goes hatomic rfl (fun _ hpending => (by cases hpending)) (h.bound rfl)
  case decide network rest =>
    split at hstep
    · rename_i f hstate
      split_ifs at hstep
      cases hstep
      exact h.writes (hmade _ (.decided hstate)) hatomic (h.bound rfl)
    · cases hstep
  case boot =>
    obtain ⟨f, _, hboot⟩ := Option.bind_eq_some_iff.mp hstep
    obtain ⟨d, _, rfl⟩ := Option.map_eq_some_iff.mp hboot
    exact h.goes hatomic rfl h.marker nothing_bound
  case refuse =>
    split at hstep
    · cases hstep
      exact h.goes hatomic rfl h.marker (h.bound rfl)
    · cases hstep
  case record rest =>
    obtain ⟨f, hf, rfl⟩ := Option.map_eq_some_iff.mp hstep
    exact h.writes (hmade _ (.recorded hf)) hatomic nothing_bound
  case submit context rest =>
    obtain ⟨f, hf, hsubmit⟩ := Option.bind_eq_some_iff.mp hstep
    unfold System.submit at hsubmit
    split at hsubmit
    · cases hsubmit
    · rename_i m queue hqueue
      obtain ⟨next, hreduce, hsubmit⟩ := Option.bind_eq_some_iff.mp hsubmit
      obtain ⟨p, hplan, hsubmit⟩ := Option.bind_eq_some_iff.mp hsubmit
      have hnext : P { document := { next with revision := f.document.revision + 1 }, rest } :=
        hmade _ (.submitted hf (by rw [hqueue]; rfl) (toOption_eq_some.mp hreduce)
          (toOption_eq_some.mp hplan))
      split_ifs at hsubmit
      all_goals
        obtain ⟨d, _, hsubmit⟩ := Option.bind_eq_some_iff.mp hsubmit
        cases hsubmit
        exact h.goes hatomic rfl h.marker (both_bound (h.refreshed hf) hnext)
  case complete plugins rest =>
    obtain ⟨f, hf, rfl⟩ := Option.map_eq_some_iff.mp hstep
    exact h.goes hatomic rfl h.marker (both_bound (h.refreshed hf) (hmade _ (.completed hf)))
  case reserve rest =>
    split at hstep
    · rename_i t hphase
      cases hstep
      have hreserved : P { t.previous with rest } := hmade _ (.reserved hphase)
      exact h.writes hreserved hatomic
        (both_bound hreserved (h.bound hphase t.next (.tail _ (.head _))))
    · cases hstep
  case save =>
    split at hstep
    · rename_i t hphase
      cases hstep
      apply h.goes hatomic rfl _ fun g hg => h.bound hphase g hg
      intro f _ hf
      exact Option.some.inj hf ▸ h.bound hphase t.previous (.head _)
    · cases hstep
  case mark =>
    split at hstep
    · rename_i t hphase
      cases hstep
      apply h.goes hatomic rfl _ fun g hg => h.bound hphase g hg
      intro f _ hf
      obtain rfl := Option.some.inj (hatomic.finds.2.symm.trans hf)
      exact h.bound hphase t.previous (.head _)
    · cases hstep
  case publish =>
    split at hstep
    · rename_i t hphase
      cases hstep
      exact h.writes (h.bound hphase t.next (.tail _ (.head _))) hatomic
        fun g hg => h.bound hphase g hg
    · cases hstep
  case accept rest =>
    split at hstep
    · rename_i t hphase
      cases hstep
      have haccepted : P { t.next with rest } := hmade _ (.accepted hphase)
      exact h.writes haccepted hatomic
        (both_bound (h.bound hphase t.previous (.head _)) haccepted)
    · cases hstep
  case commit =>
    split at hstep
    · rename_i t hphase
      cases hstep
      apply h.goes hatomic rfl fun _ hpending => (by cases hpending)
      split_ifs
      · exact fun g hg => h.bound hphase g hg
      · exact nothing_bound
    · cases hstep
  case commitUnsynced =>
    split at hstep
    · rename_i t hphase
      cases hstep
      exact h.goes hatomic rfl (fun _ hpending => (by cases hpending))
        fun g hg => h.bound hphase g hg
    · cases hstep
  case fail =>
    split at hstep
    case h_5 => cases hstep
    all_goals
      rename_i t hphase
      cases hstep
      exact h.goes hatomic rfl h.marker fun g hg => h.bound hphase g hg
  case releaseReservation rest =>
    split at hstep
    · rename_i t hphase
      cases hstep
      have hreleased : P { t.previous with rest } := hmade _ (.released hphase)
      exact h.writes hreleased hatomic
        (both_bound hreleased (h.bound hphase t.next (.tail _ (.head _))))
    · cases hstep
  case putBack =>
    split at hstep
    · rename_i t hphase
      cases hstep
      exact h.writes (h.bound hphase t.previous (.head _)) hatomic fun g hg => h.bound hphase g hg
    · cases hstep
  case unmarkBack =>
    split at hstep
    · cases hstep
      exact h.goes hatomic rfl (fun _ hpending => (by cases hpending)) nothing_bound
    · cases hstep
  case abandon =>
    split at hstep
    case h_4 => cases hstep
    all_goals
      cases hstep
      exact h.goes hatomic rfl h.marker nothing_bound
  case collect gone =>
    split at hstep
    · cases hstep
      exact h.goes hatomic rfl h.marker nothing_bound
    · cases hstep

end System

end NdimonR.State.AssetStore
