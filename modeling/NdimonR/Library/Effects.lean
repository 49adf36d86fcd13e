import Mathlib.Logic.Relation

/-! Programs that read and write a state, may fail, and may be cut off by a crash.

An error unwinds to the nearest handler; a crash ends the program in the state it has reached.
A specification speaks about every way a program can end, so what it promises of a crash holds
between any two effects. -/

namespace NdimonR

inductive Outcome (ε α : Type) where
  | ok (value : α)
  | err (error : ε)
  | crash
  deriving DecidableEq

def Proc (σ ε α : Type) : Type := σ → Outcome ε α × σ

namespace Proc

variable {σ ε α β : Type}

def done (a : α) : Proc σ ε α := fun s => (.ok a, s)

def andThen (p : Proc σ ε α) (f : α → Proc σ ε β) : Proc σ ε β := fun s =>
  match p s with
  | (.ok a, s) => f a s
  | (.err e, s) => (.err e, s)
  | (.crash, s) => (.crash, s)

instance : Monad (Proc σ ε) where
  pure := done
  bind := andThen

def fail (e : ε) : Proc σ ε α := fun s => (.err e, s)

def stop : Proc σ ε α := fun s => (.crash, s)

def read (view : σ → α) : Proc σ ε α := fun s => (.ok (view s), s)

def modify (change : σ → σ) : Proc σ ε Unit := fun s => (.ok (), change s)

def ofExcept : Except ε α → Proc σ ε α
  | .ok a => done a
  | .error e => fail e

/-- The error becomes a value; a crash is not caught. -/
def attempt (p : Proc σ ε α) : Proc σ ε (Except ε α) := fun s =>
  match p s with
  | (.ok a, s) => (.ok (.ok a), s)
  | (.err e, s) => (.ok (.error e), s)
  | (.crash, s) => (.crash, s)

/-- Best effort: the result is dropped. -/
def ignore (p : Proc σ ε α) : Proc σ ε Unit := do
  let _ ← attempt p
  pure ()

def when (c : Prop) [Decidable c] (p : Proc σ ε Unit) : Proc σ ε Unit := if c then p else pure ()

/-- Goes on only if the condition holds. -/
def require (c : Prop) [Decidable c] (e : ε) : Proc σ ε Unit := if c then pure () else fail e

/-- Runs a program on a part of the state. -/
def onPart {τ : Type} (part : σ → τ) (put : τ → σ → σ) (p : Proc τ ε α) : Proc σ ε α := fun s =>
  ((p (part s)).1, put (p (part s)).2 s)

def each (f : α → Proc σ ε Unit) : List α → Proc σ ε Unit
  | [] => pure ()
  | a :: rest => do
    f a
    each f rest

theorem bind_ok {p : Proc σ ε α} {f : α → Proc σ ε β} {s t : σ} {a : α} (h : p s = (.ok a, t)) :
    (p >>= f) s = f a t := by
  change andThen p f s = f a t
  unfold andThen
  rw [h]

/-- A program that ends with a value has had one from each of its parts. -/
theorem bind_eq_ok {p : Proc σ ε α} {f : α → Proc σ ε β} {s t : σ} {b : β} :
    (p >>= f) s = (.ok b, t) ↔ ∃ a u, p s = (.ok a, u) ∧ f a u = (.ok b, t) := by
  change andThen p f s = (.ok b, t) ↔ _
  unfold andThen
  rcases p s with ⟨o, u⟩
  cases o with
  | ok a =>
    constructor
    · intro h
      exact ⟨a, u, rfl, h⟩
    · rintro ⟨a', u', heq, h⟩
      cases heq
      exact h
  | err e => simp
  | crash => simp

theorem bind_err {p : Proc σ ε α} {f : α → Proc σ ε β} {s t : σ} {e : ε}
    (h : p s = (.err e, t)) : (p >>= f) s = (.err e, t) := by
  change andThen p f s = (.err e, t)
  unfold andThen
  rw [h]

theorem attempt_ok {p : Proc σ ε α} {s t : σ} {a : α} (h : p s = (.ok a, t)) :
    attempt p s = (.ok (.ok a), t) := by
  unfold attempt
  rw [h]

theorem attempt_err {p : Proc σ ε α} {s t : σ} {e : ε} (h : p s = (.err e, t)) :
    attempt p s = (.ok (.error e), t) := by
  unfold attempt
  rw [h]

theorem require_ok {c : Prop} [Decidable c] {e : ε} {s : σ} (h : c) :
    (require c e : Proc σ ε Unit) s = (.ok (), s) := by
  unfold require
  rw [if_pos h]
  rfl

/-! ## Specifications -/

/-- From a state with `K` and `P` the program moves only along `R`, keeps `K` however it ends,
gives `Q` with its value and `E` with its error. -/
def Spec (R : σ → σ → Prop) (K P : σ → Prop) (p : Proc σ ε α) (Q : α → σ → Prop)
    (E : ε → σ → Prop) : Prop :=
  ∀ s, K s → P s → Relation.ReflTransGen R s (p s).2 ∧ K (p s).2 ∧
    (∀ a, (p s).1 = .ok a → Q a (p s).2) ∧ ∀ e, (p s).1 = .err e → E e (p s).2

/-- A specification that says nothing more about errors. -/
abbrev Sound (R : σ → σ → Prop) (K P : σ → Prop) (p : Proc σ ε α) (Q : α → σ → Prop) : Prop :=
  Spec R K P p Q fun _ _ => True

variable {R S : σ → σ → Prop} {K L P B : σ → Prop} {p : Proc σ ε α} {f : α → Proc σ ε β}
  {Q T : α → σ → Prop} {Q₂ : β → σ → Prop} {E F : ε → σ → Prop}

theorem Spec.pure {a : α} (h : ∀ s, K s → P s → Q a s) :
    Spec R K P (Pure.pure a : Proc σ ε α) Q E := by
  intro s hk hp
  refine ⟨.refl, hk, ?_, ?_⟩
  · intro b hb
    cases hb
    exact h s hk hp
  · intro e he
    cases he

theorem Spec.fail {e : ε} (h : ∀ s, K s → P s → E e s) :
    Spec R K P (Proc.fail e : Proc σ ε α) Q E := by
  intro s hk hp
  refine ⟨.refl, hk, ?_, ?_⟩
  · intro b hb
    cases hb
  · intro e' he
    cases he
    exact h s hk hp

theorem Spec.stop : Spec R K P (Proc.stop : Proc σ ε α) Q E := by
  intro s hk _
  refine ⟨.refl, hk, ?_, ?_⟩
  · intro b hb
    cases hb
  · intro e he
    cases he

theorem Spec.read {view : σ → α} (h : ∀ s, K s → P s → Q (view s) s) :
    Spec R K P (Proc.read view : Proc σ ε α) Q E := by
  intro s hk hp
  refine ⟨.refl, hk, ?_, ?_⟩
  · intro b hb
    cases hb
    exact h s hk hp
  · intro e he
    cases he

theorem Spec.modify {change : σ → σ} {Q : Unit → σ → Prop}
    (h : ∀ s, K s → P s → Relation.ReflTransGen R s (change s) ∧ K (change s) ∧ Q () (change s)) :
    Spec R K P (Proc.modify change : Proc σ ε Unit) Q E := by
  intro s hk hp
  obtain ⟨hr, hk', hq⟩ := h s hk hp
  refine ⟨hr, hk', ?_, ?_⟩
  · intro b _
    exact hq
  · intro e he
    cases he

/-- Outside the part nothing changes, whatever the program does. -/
theorem Spec.onPart {τ : Type} {part : σ → τ} {put : τ → σ → σ} {p : Proc τ ε α}
    (h : ∀ s t, K s → P s → R s (put t s) ∧ K (put t s) ∧ P (put t s)) :
    Spec R K P (Proc.onPart part put p) (fun _ => P) (fun _ => P) := by
  intro s hk hp
  obtain ⟨hr, hk', hp'⟩ := h s (p (part s)).2 hk hp
  exact ⟨.single hr, hk', fun _ _ => hp', fun _ _ => hp'⟩

theorem Spec.ofExcept {r : Except ε α} (hok : ∀ a s, r = .ok a → K s → P s → Q a s)
    (herr : ∀ e s, r = .error e → K s → P s → E e s) :
    Spec R K P (Proc.ofExcept r : Proc σ ε α) Q E := by
  cases r with
  | ok a => exact Spec.pure fun s hk hp => hok a s rfl hk hp
  | error e => exact Spec.fail fun s hk hp => herr e s rfl hk hp

theorem Spec.bind (hp : Spec R K P p Q E) (hf : ∀ a, Spec R K (Q a) (f a) Q₂ E) :
    Spec R K P (p >>= f) Q₂ E := by
  intro s hk hpre
  obtain ⟨hr, hk', hok, herr⟩ := hp s hk hpre
  change Relation.ReflTransGen R s (andThen p f s).2 ∧ K (andThen p f s).2 ∧
    (∀ b, (andThen p f s).1 = .ok b → Q₂ b (andThen p f s).2) ∧
      ∀ e, (andThen p f s).1 = .err e → E e (andThen p f s).2
  rcases hrun : p s with ⟨o, s'⟩
  rw [hrun] at hr hk' hok herr
  cases o with
  | ok a =>
    obtain ⟨hr₂, hk₂, hok₂, herr₂⟩ := hf a s' hk' (hok a rfl)
    simp only [andThen, hrun]
    exact ⟨hr.trans hr₂, hk₂, hok₂, herr₂⟩
  | err e =>
    simp only [andThen, hrun]
    refine ⟨hr, hk', ?_, ?_⟩
    · intro b hb
      cases hb
    · intro e' he
      cases he
      exact herr e rfl
  | crash =>
    simp only [andThen, hrun]
    refine ⟨hr, hk', ?_, ?_⟩
    · intro b hb
      cases hb
    · intro e he
      cases he

theorem Spec.attempt {F : ε → σ → Prop} (h : Spec R K P p Q E) :
    Spec R K P (Proc.attempt p)
      (fun r s => (∀ a, r = .ok a → Q a s) ∧ ∀ e, r = .error e → E e s) F := by
  intro s hk hpre
  obtain ⟨hr, hk', hok, herr⟩ := h s hk hpre
  rcases hrun : p s with ⟨o, s'⟩
  rw [hrun] at hr hk' hok herr
  cases o with
  | ok a =>
    simp only [Proc.attempt, hrun]
    refine ⟨hr, hk', ?_, ?_⟩
    · intro r hr'
      cases hr'
      refine ⟨?_, fun e he => nomatch he⟩
      intro b hb
      cases hb
      exact hok a rfl
    · intro e he
      cases he
  | err e =>
    simp only [Proc.attempt, hrun]
    refine ⟨hr, hk', ?_, ?_⟩
    · intro r hr'
      cases hr'
      refine ⟨fun b hb => (nomatch hb), ?_⟩
      intro e' he
      cases he
      exact herr e rfl
    · intro e' he
      cases he
  | crash =>
    simp only [Proc.attempt, hrun]
    refine ⟨hr, hk', ?_, ?_⟩
    · intro r hr'
      cases hr'
    · intro e he
      cases he

/-- Enters a region with its own invariant `L` and smaller steps `S`, and leaves it again. -/
theorem Spec.within (h : Spec S L B p T F) (hin : ∀ s, K s → P s → L s ∧ B s)
    (hstep : ∀ s t, S s t → R s t) (hout : ∀ s, L s → K s)
    (hq : ∀ a s, L s → T a s → Q a s) (he : ∀ e s, L s → F e s → E e s) :
    Spec R K P p Q E := by
  intro s hk hp
  obtain ⟨hk', hp'⟩ := hin s hk hp
  obtain ⟨hr, hk₂, hok, herr⟩ := h s hk' hp'
  exact ⟨Relation.ReflTransGen.mono hstep _ _ hr, hout _ hk₂, fun a ha => hq a _ hk₂ (hok a ha),
    fun e he' => he e _ hk₂ (herr e he')⟩

theorem Spec.weaken (h : Spec R K B p T E) (hp : ∀ s, K s → P s → B s)
    (hq : ∀ a s, K s → T a s → Q a s) : Spec R K P p Q E :=
  h.within (fun s hk hs => ⟨hk, hp s hk hs⟩) (fun _ _ hr => hr) (fun _ hk => hk) hq
    fun _ _ _ he => he

/-- What every step of the program keeps is kept by the program. -/
theorem Spec.frame (h : Spec S L B p T F) (hin : ∀ s, K s → P s → L s ∧ B s)
    (hstep : ∀ s t, K s → P s → S s t → R s t ∧ K t ∧ P t) (he : ∀ e s, K s → P s → F e s → E e s) :
    Spec R K P p (fun a s => P s ∧ T a s) E := by
  intro s hk hp
  obtain ⟨hk', hp'⟩ := hin s hk hp
  obtain ⟨hr, _, hok, herr⟩ := h s hk' hp'
  have hchain : ∀ t, Relation.ReflTransGen S s t →
      Relation.ReflTransGen R s t ∧ K t ∧ P t := by
    intro t ht
    induction ht with
    | refl => exact ⟨.refl, hk, hp⟩
    | tail _ hlast ih =>
      obtain ⟨hr₁, hk₁, hp₁⟩ := ih
      obtain ⟨hr₂, hk₂, hp₂⟩ := hstep _ _ hk₁ hp₁ hlast
      exact ⟨hr₁.tail hr₂, hk₂, hp₂⟩
  obtain ⟨hr₁, hk₁, hp₁⟩ := hchain _ hr
  exact ⟨hr₁, hk₁, fun a ha => ⟨hp₁, hok a ha⟩, fun e he' => he e _ hk₁ hp₁ (herr e he')⟩

/-- A fact that does not mention the state may be assumed. -/
theorem Spec.assume {φ : Prop} (hφ : ∀ s, K s → P s → φ) (h : φ → Spec R K P p Q E) :
    Spec R K P p Q E :=
  fun s hk hp => h (hφ s hk hp) s hk hp

theorem Spec.exists {ι : Type} {P : ι → σ → Prop} (h : ∀ i, Spec R K (P i) p Q E) :
    Spec R K (fun s => ∃ i, P i s) p Q E :=
  fun s hk ⟨i, hi⟩ => h i s hk hi

theorem Spec.ite {c : Prop} [Decidable c] {q : Proc σ ε α} (ht : c → Spec R K P p Q E)
    (hf : ¬ c → Spec R K P q Q E) : Spec R K P (if c then p else q) Q E := by
  by_cases h : c
  · rw [if_pos h]
    exact ht h
  · rw [if_neg h]
    exact hf h

theorem Spec.when {c : Prop} [Decidable c] {p : Proc σ ε Unit} {Q : σ → Prop}
    (ht : c → Spec R K P p (fun _ => Q) E) (hf : ∀ s, ¬ c → K s → P s → Q s) :
    Spec R K P (Proc.when c p) (fun _ => Q) E :=
  Spec.ite ht fun hc => Spec.pure fun s => hf s hc

theorem Spec.require {c : Prop} [Decidable c] {e : ε} (he : ∀ s, ¬ c → K s → P s → E e s) :
    Spec R K P (Proc.require c e : Proc σ ε Unit) (fun _ s => P s ∧ c) E :=
  Spec.ite (fun hc => Spec.pure fun _ _ hp => ⟨hp, hc⟩) fun hc => Spec.fail fun s => he s hc

theorem Spec.ignore {F : ε → σ → Prop} (h : Spec R K P p Q E) :
    Spec R K P (Proc.ignore p) (fun _ s => (∃ a, Q a s) ∨ ∃ e, E e s) F := by
  refine Spec.bind (Spec.attempt h) ?_
  intro r
  refine Spec.pure fun s _ hq => ?_
  cases r with
  | ok a => exact .inl ⟨a, hq.1 a rfl⟩
  | error e => exact .inr ⟨e, hq.2 e rfl⟩

/-- The loop rule: `I` counts what has been done, one element at a time. -/
theorem Spec.each {g : α → Proc σ ε Unit} {I : List α → σ → Prop} (xs : List α)
    (h : ∀ past a rest, xs = past ++ a :: rest →
      Spec R K (I past) (g a) (fun _ => I (past ++ [a])) E) :
    Spec R K (I []) (Proc.each g xs) (fun _ => I xs) E := by
  suffices hgen : ∀ past rest, xs = past ++ rest →
      Spec R K (I past) (Proc.each g rest) (fun _ => I xs) E from hgen [] xs rfl
  intro past rest
  induction rest generalizing past with
  | nil =>
    intro hxs
    rw [List.append_nil] at hxs
    subst hxs
    exact Spec.pure fun _ _ hi => hi
  | cons a rest ih =>
    intro hxs
    refine Spec.bind (h past a rest hxs) ?_
    intro _
    exact ih (past ++ [a]) (by rw [hxs, List.append_assoc]; rfl)

/-- The loop rule for a body that keeps one fact. -/
theorem Spec.each_keeps {g : α → Proc σ ε Unit} (xs : List α)
    (h : ∀ a ∈ xs, Spec R K P (g a) (fun _ => P) E) :
    Spec R K P (Proc.each g xs) (fun _ => P) E := by
  refine Spec.each (I := fun _ => P) xs ?_
  intro past a rest hxs
  exact h a (by rw [hxs]; simp)

/-- The loop rule for runs that end with a value. -/
theorem each_eq_ok {g : α → Proc σ ε Unit} {I : List α → σ → Prop} {xs : List α} {s t : σ}
    (h : ∀ past a rest s t, xs = past ++ a :: rest → I past s → g a s = (.ok (), t) →
      I (past ++ [a]) t)
    (hs : I [] s) (hrun : each g xs s = (.ok (), t)) : I xs t := by
  suffices hgen : ∀ past rest s, xs = past ++ rest → I past s → each g rest s = (.ok (), t) →
      I xs t from hgen [] xs s rfl hs hrun
  intro past rest
  induction rest generalizing past with
  | nil =>
    intro s hxs hi hrun
    cases hrun
    rw [hxs, List.append_nil]
    exact hi
  | cons a rest ih =>
    intro s hxs hi hrun
    obtain ⟨_, u, ha, hrest⟩ := bind_eq_ok.mp hrun
    refine ih (past ++ [a]) u ?_ (h past a rest s u hxs hi ha) hrest
    rw [hxs, List.append_assoc]
    rfl

/-- A loop whose body always ends with a value ends with one. -/
theorem each_total {g : α → Proc σ ε Unit} {I : σ → Prop} {xs : List α} {s : σ}
    (h : ∀ a ∈ xs, ∀ s, I s → ∃ t, g a s = (.ok (), t) ∧ I t) (hs : I s) :
    ∃ t, each g xs s = (.ok (), t) ∧ I t := by
  induction xs generalizing s with
  | nil => exact ⟨s, rfl, hs⟩
  | cons a rest ih =>
    obtain ⟨u, ha, hu⟩ := h a List.mem_cons_self s hs
    obtain ⟨t, ht, hi⟩ := ih (fun b hb => h b (List.mem_cons_of_mem _ hb)) hu
    exact ⟨t, (bind_ok ha).trans ht, hi⟩

end Proc

/-- An inductive invariant holds along a chain of steps. -/
theorem chain_invariant {σ : Type} {R : σ → σ → Prop} {I : σ → Prop} {s t : σ}
    (hstep : ∀ a b, R a b → I a → I b) (h : Relation.ReflTransGen R s t) (hs : I s) : I t := by
  induction h with
  | refl => exact hs
  | tail _ hlast ih => exact hstep _ _ hlast ih

/-- A property that a chain ends with and did not begin with is gained in one of its steps. -/
theorem chain_gains {σ : Type} {R : σ → σ → Prop} {p : σ → Prop} {s t : σ}
    (h : Relation.ReflTransGen R s t) (hs : ¬ p s) (ht : p t) :
    ∃ a b, Relation.ReflTransGen R s a ∧ R a b ∧ Relation.ReflTransGen R b t ∧ ¬ p a ∧ p b := by
  induction h with
  | refl => exact absurd ht hs
  | @tail b c hbefore hlast ih =>
    by_cases hb : p b
    · obtain ⟨x, y, hx, hxy, hy, hnot, hp⟩ := ih hb
      exact ⟨x, y, hx, hxy, hy.tail hlast, hnot, hp⟩
    · exact ⟨b, c, hbefore, hlast, .refl, hb, ht⟩

end NdimonR
