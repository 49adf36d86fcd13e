import NdimonR.State.AssetSystem

/-! Commands that change nothing of the document: the actor may write a reservation, lets the lock
go, calls, and where the call was refused writes its own copy again, without the reservation and
without another look. -/

namespace NdimonR.State.AssetStore

variable {R Action : Type}

/-- The system, with the envelope that the actor holds during a call. -/
structure Calling (R : Type) where
  system : System R
  call : Option (StateFile R) := none

/-- What others than the actor do, and the end of the process. -/
def Act.outside : Act R → Bool
  | .put .. | .send .. | .release .. | .crash | .restorePrevious | .unmark | .decide .. => true
  | _ => false

def Act.isCrash : Act R → Bool
  | .crash => true
  | _ => false

inductive Move (R : Type) where
  | act (a : Act R)
  /-- The reservation is written, if there is one, before the lock goes. -/
  | call (rest : R)
  | answered
  /-- The call fails; a reservation is released. -/
  | refused (rest : Option R)

namespace Calling

variable [DecidableEq R] (env : Env Action)

def step (c : Calling R) : Move R → Option (Calling R)
  | .act a =>
    if c.call.isSome && !a.outside then none
    else (c.system.step env a).map fun system =>
      { system, call := if a.isCrash then none else c.call }
  | .call rest =>
    if c.call.isSome then none
    else c.system.refreshed.map fun f =>
      let reserved := { f with rest }
      { system := c.system.writeState reserved (.idle reserved), call := some reserved }
  | .answered => c.call.map fun _ => { c with call := none }
  | .refused rest => c.call.map fun f =>
    let released := { f with rest := rest.getD f.rest }
    { system := if rest.isSome then c.system.writeState released (.idle released) else c.system
      call := none }

variable {env} {c c' : Calling R}

/-- An invariant of the system whose writes outside the lock are of envelopes that keep it. -/
structure Keeps (I : System R → Prop) (J : StateFile R → Prop) (c : Calling R) : Prop where
  system : I c.system
  call : ∀ f, c.call = some f → J f

/-- What the act keeps, and what the envelopes are that a call holds and writes. -/
theorem Keeps.step {I : System R → Prop} {J : StateFile R → Prop} (h : Keeps I J c) {m : Move R}
    (hact : ∀ a s', m = .act a → c.system.step env a = some s' → I s')
    (hcall : ∀ f rest, m = .call rest → c.system.refreshed = some f → J { f with rest })
    (hrefused : ∀ f rest, m = .refused (some rest) → c.call = some f → J { f with rest })
    (hwrite : ∀ f, J f → I (c.system.writeState f (.idle f)))
    (hstep : c.step env m = some c') : Keeps I J c' := by
  unfold Calling.step at hstep
  cases m <;> dsimp only at hstep
  case act a =>
    split at hstep
    · cases hstep
    · obtain ⟨system, hsystem, rfl⟩ := Option.map_eq_some_iff.mp hstep
      refine ⟨hact a _ rfl hsystem, fun f hf => h.call f ?_⟩
      dsimp only at hf
      split at hf
      · cases hf
      · exact hf
  case call rest =>
    split_ifs at hstep
    obtain ⟨f, hf, rfl⟩ := Option.map_eq_some_iff.mp hstep
    have hreserved : J { f with rest } := hcall f rest rfl hf
    refine ⟨hwrite _ hreserved, fun g hg => ?_⟩
    obtain rfl := Option.some.inj hg
    exact hreserved
  case answered =>
    obtain ⟨_, _, rfl⟩ := Option.map_eq_some_iff.mp hstep
    exact ⟨h.system, fun _ hf => (by cases hf)⟩
  case refused rest =>
    obtain ⟨f, hf, rfl⟩ := Option.map_eq_some_iff.mp hstep
    refine ⟨?_, fun _ hg => (by cases hg)⟩
    cases rest with
    | none => exact h.system
    | some rest => exact hwrite _ (hrefused f rest rfl hf)

end Calling

end NdimonR.State.AssetStore
