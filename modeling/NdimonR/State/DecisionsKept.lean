import NdimonR.State.Imperative
import NdimonR.State.InPlay
import NdimonR.State.AssetsCollected

/-! Decisions of the root job among the commands of the actor: no turn of the actor writes over one.
Only a start can, which reads the envelope without the lock, and a call that is refused, after which
the actor writes the copy that it held. -/

namespace NdimonR.State.AssetStore

open NdimonR.Types

variable {R Action : Type} {env : Env Action}

/-- No command reduces the network; it has its own confirmed transaction. -/
def KeepsNetwork (env : Env Action) : Prop :=
  ∀ document command next, env.reduce document command = .ok next →
    next.network = document.network

/-- The envelope has this network, and a revision of at least this. -/
def Fits (network : NetworkProfiles) (revision : ℕ) (f : StateFile R) : Prop :=
  f.document.network = network ∧ revision ≤ f.document.revision

def Act.decides : Act R → Bool
  | .decide .. => true
  | _ => false

def Move.decides : Move R → Bool
  | .act a => a.decides
  | _ => false

variable [DecidableEq R] {network : NetworkProfiles} {revision : ℕ}

namespace System

variable {s s' : System R}

/-- Whatever is made of envelopes with the decision has it, until there is another one. -/
theorem Holding.fits (hkeeps : KeepsNetwork env) (h : Holding True (Fits network revision) s)
    {a : Act R} (hother : a.decides = false) {f : StateFile R} (hmade : Made env s a f) :
    Fits network revision f := by
  cases hmade with
  | imported hnone =>
    obtain ⟨g, hg⟩ := h.state trivial
    cases hnone.symm.trans hg
  | @logo f _ _ hphase asset =>
    have hf : Fits network revision f := h.bound hphase f (.head _)
    exact hf
  | @migrated f _ _ hphase =>
    have hf : Fits network revision f := h.bound hphase f (.head _)
    exact hf
  | decided => cases hother
  | @recorded f _ hf =>
    have hf : Fits network revision f := h.refreshed hf
    exact hf
  | submitted hf hm hreduce hplan =>
    obtain ⟨hnetwork, hrevision⟩ := h.refreshed hf
    exact ⟨(hkeeps _ _ _ hreduce).trans hnetwork, Nat.le_succ_of_le hrevision⟩
  | completed hf =>
    obtain ⟨hnetwork, hrevision⟩ := h.refreshed hf
    refine ⟨hnetwork, ?_⟩
    dsimp only
    split <;> omega
  | @reserved t _ hphase | @released t _ hphase =>
    have ht : Fits network revision t.previous := h.bound hphase t.previous (.head _)
    exact ht
  | @accepted t _ hphase =>
    have ht : Fits network revision t.next := h.bound hphase t.next (.tail _ (.head _))
    exact ht

/-- A decision is in play alone from the moment it is written. -/
theorem decided_holding {rest : R} (hstart : s.phase.isStarting = false)
    (hstep : s.step env (.decide network rest) = some s') :
    ∃ g, s.disk.state = some g ∧ s.disk.pending = false ∧
      Holding True (Fits network (g.document.revision + 1)) s' := by
  unfold System.step at hstep
  dsimp only at hstep
  split at hstep
  · rename_i g hstate
    split_ifs at hstep with hfree
    cases hstep
    rw [Bool.and_eq_true, Bool.not_eq_true'] at hfree
    have hmarker : ∀ {p : Prop}, s.disk.pending = true → p := fun hpending =>
      absurd (hfree.2.symm.trans hpending) (by simp)
    refine ⟨g, hstate, hfree.2, .unlocked (fun hpending => hmarker hpending) hfree.1,
      fun _ => ⟨_, rfl⟩, fun f hf => ?_⟩
    rcases hf with hf | hf | hf
    · obtain rfl := Option.some.inj hf
      exact ⟨rfl, Nat.le_refl _⟩
    · exact hmarker hf.1
    · rw [System.writeState, s.phase.binding_of_unlocked hfree.1 hstart] at hf
      cases hf
  · cases hstep

end System

namespace Calling

variable {c c' : Calling R}

theorem Keeps.fits (hkeeps : KeepsNetwork env)
    (h : Keeps (System.Holding True (Fits network revision)) (Fits network revision) c)
    {m : Move R} (hother : m.decides = false) (hstep : c.step env m = some c') :
    Keeps (System.Holding True (Fits network revision)) (Fits network revision) c' := by
  apply h.step _ _ _ _ hstep
  · rintro a s' rfl hact
    exact h.system.step (fun f hmade => h.system.fits hkeeps hother hmade) hact
  · rintro f rest rfl hf
    have hfits : Fits network revision f := h.system.refreshed hf
    exact hfits
  · rintro f rest rfl hf
    have hfits : Fits network revision f := h.call f hf
    exact hfits
  · intro f hf
    exact h.system.writes hf (.unlocked h.system.atomic.marker rfl) System.nothing_bound

end Calling

theorem displayEnv_keeps : KeepsNetwork displayEnv := by
  intro document command next hreduce
  unfold displayEnv displayReduce at hreduce
  dsimp only at hreduce
  split at hreduce <;> cases hreduce <;> rfl

def studio : NetworkProfiles := { interface := "eth0" }

namespace Calling

/-- The decision is made while a call runs, which is refused. -/
theorem refused_call_loses : ∃ c ∈ Steps.after (step displayEnv) started
    ((([.start ⟨{}, ()⟩, .initializeState, .serve] : List (Act Unit)).map Move.act) ++
      [.call (), .act (.decide studio ()), .refused (some ())]),
    c.system.disk.committed.map (·.document.revision) = some 0 := by
  decide +kernel

end Calling

end NdimonR.State.AssetStore
