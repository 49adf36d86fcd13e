import NdimonR.Library.Effects

/-! Programs whose every effect may be refused, take place and be reported as failed, or never come
about because the program is killed. -/

namespace NdimonR

inductive Fault (ε : Type) where
  | pass
  | refused (error : ε)
  | late (error : ε)
  | killed

/-- A state with what is still to go wrong, one entry an effect. -/
structure Faulty (σ ε : Type) where
  state : σ
  faults : List (Fault ε) := []

namespace Proc

variable {σ ε α : Type}

def effect (f : σ → Except ε (α × σ)) : Proc (Faulty σ ε) ε α := fun w =>
  let rest := w.faults.drop 1
  match w.faults.head?.getD .pass, f w.state with
  | .killed, _ => (.crash, ⟨w.state, rest⟩)
  | .refused e, _ => (.err e, ⟨w.state, rest⟩)
  | .late e, .ok (_, s) => (.err e, ⟨s, rest⟩)
  | .late e, .error _ => (.err e, ⟨w.state, rest⟩)
  | .pass, .ok (a, s) => (.ok a, ⟨s, rest⟩)
  | .pass, .error e => (.err e, ⟨w.state, rest⟩)

/-- A look at the state. -/
def look (view : σ → Except ε α) : Proc (Faulty σ ε) ε α := effect fun s => (view s).map (·, s)

/-- A look that cannot fail. -/
def peek (view : σ → α) : Proc (Faulty σ ε) ε α := read fun w => view w.state

def change (f : σ → σ) : Proc (Faulty σ ε) ε Unit := effect fun s => .ok ((), f s)

/-- Any two states; the specifications here are about what holds, not about how it moves. -/
abbrev Free : Faulty σ ε → Faulty σ ε → Prop := fun _ _ => True

/-- A specification of a program with faults, in terms of its state. -/
def Endures (K P : σ → Prop) (p : Proc (Faulty σ ε) ε α) (Q : α → σ → Prop) : Prop :=
  Sound Free (fun w => K w.state) (fun w => P w.state) p fun a w => Q a w.state

variable {K P B : σ → Prop} {p : Proc (Faulty σ ε) ε α} {Q T : α → σ → Prop}

theorem Endures.keeps (h : Endures K P p Q) {s : σ} (hk : K s) (hp : P s)
    (faults : List (Fault ε)) : K (p ⟨s, faults⟩).2.state :=
  (h ⟨s, faults⟩ hk hp).2.1

theorem Endures.ends (h : Endures K P p Q) {s : σ} (hk : K s) (hp : P s)
    {faults : List (Fault ε)} {a : α} (hok : (p ⟨s, faults⟩).1 = .ok a) :
    Q a (p ⟨s, faults⟩).2.state :=
  (h ⟨s, faults⟩ hk hp).2.2.1 a hok

theorem Endures.effect {f : σ → Except ε (α × σ)}
    (h : ∀ s a t, K s → P s → f s = .ok (a, t) → K t ∧ Q a t) :
    Endures K P (Proc.effect f) Q := by
  intro w hk hp
  refine ⟨.single trivial, ?_⟩
  unfold Proc.effect
  cases hf : f w.state with
  | ok r =>
    obtain ⟨hk', hq⟩ := h w.state r.1 r.2 hk hp hf
    cases w.faults.head?.getD .pass with
    | pass => exact ⟨hk', fun a ha => by cases ha; exact hq, nofun⟩
    | refused e => exact ⟨hk, nofun, fun _ _ => trivial⟩
    | late e => exact ⟨hk', nofun, fun _ _ => trivial⟩
    | killed => exact ⟨hk, nofun, nofun⟩
  | error e =>
    cases w.faults.head?.getD .pass with
    | pass => exact ⟨hk, nofun, fun _ _ => trivial⟩
    | refused e => exact ⟨hk, nofun, fun _ _ => trivial⟩
    | late e => exact ⟨hk, nofun, fun _ _ => trivial⟩
    | killed => exact ⟨hk, nofun, nofun⟩

theorem Endures.look {view : σ → Except ε α} (h : ∀ s a, K s → P s → view s = .ok a → Q a s) :
    Endures K P (Proc.look view) Q := by
  refine Endures.effect fun s a t hk hp hf => ?_
  cases hview : view s with
  | error e =>
    rw [hview] at hf
    cases hf
  | ok b =>
    rw [hview] at hf
    cases hf
    exact ⟨hk, h s _ hk hp hview⟩

/-- A look that may fail but asks nothing of the state. -/
theorem Endures.glance {r : Except ε α} : Endures K P (Proc.look fun _ => r) fun _ => P :=
  Endures.look fun _ _ _ hp _ => hp

theorem Endures.change {f : σ → σ} {Q : σ → Prop} (h : ∀ s, K s → P s → K (f s) ∧ Q (f s)) :
    Endures (ε := ε) K P (Proc.change f) fun _ => Q := by
  refine Endures.effect fun s a t hk hp hf => ?_
  cases hf
  exact h s hk hp

theorem Endures.pure {a : α} (h : ∀ s, K s → P s → Q a s) :
    Endures (ε := ε) K P (Pure.pure a) Q := by
  unfold Endures
  exact Spec.pure fun w => h w.state

theorem Endures.fail {e : ε} : Endures K P (Proc.fail e) Q := by
  unfold Endures
  exact Spec.fail fun _ _ _ => trivial

theorem Endures.peek {view : σ → α} (h : ∀ s, K s → P s → Q (view s) s) :
    Endures (ε := ε) K P (Proc.peek view) Q := by
  unfold Endures
  exact Spec.read fun w => h w.state

theorem Endures.ofExcept {r : Except ε α} (h : ∀ a s, r = .ok a → K s → P s → Q a s) :
    Endures K P (Proc.ofExcept r) Q := by
  unfold Endures
  exact Spec.ofExcept (fun a w hr => h a w.state hr) fun _ _ _ _ _ => trivial

theorem Endures.bind {β : Type} {f : α → Proc (Faulty σ ε) ε β} {R : β → σ → Prop}
    (hp : Endures K P p Q) (hf : ∀ a, Endures K (Q a) (f a) R) : Endures K P (p >>= f) R := by
  unfold Endures at *
  exact Spec.bind hp hf

theorem Endures.weaken (h : Endures K B p T) (hp : ∀ s, K s → P s → B s)
    (hq : ∀ a s, K s → T a s → Q a s) : Endures K P p Q := by
  unfold Endures at *
  exact Spec.weaken h (fun w => hp w.state) fun a w => hq a w.state

theorem Endures.require {c : Prop} [Decidable c] {e : ε} :
    Endures K P (Proc.require c e) fun _ s => P s ∧ c := by
  unfold Endures
  exact Spec.require fun _ _ _ _ => trivial

theorem Endures.when {c : Prop} [Decidable c] {p : Proc (Faulty σ ε) ε Unit} {Q : σ → Prop}
    (ht : c → Endures K P p fun _ => Q) (hf : ∀ s, ¬ c → K s → P s → Q s) :
    Endures K P (Proc.when c p) fun _ => Q := by
  unfold Endures at *
  exact Spec.when ht fun w => hf w.state

/-- What an attempt promises of its value; its error may leave anything the invariant allows. -/
theorem Endures.attempt (h : Endures K P p Q) :
    Endures K P (Proc.attempt p) fun r s => ∀ a, r = .ok a → Q a s := by
  unfold Endures at *
  exact (Spec.attempt h).weaken (fun _ _ hs => hs) fun _ _ _ hq => hq.1

theorem Endures.ignore (h : Endures K P p Q) : Endures K P (Proc.ignore p) fun _ _ => True := by
  unfold Endures at *
  exact (Spec.ignore h).weaken (fun _ _ hs => hs) fun _ _ _ _ => trivial

end Proc

end NdimonR
