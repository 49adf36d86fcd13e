import Mathlib.Data.List.Forall2

/-! Programs that end with a value or an error: when they end with a given value. -/

namespace NdimonR.Outcome

universe u v w

variable {ε : Type u} {α β : Type v}

theorem bind_eq_ok {x : Except ε α} {f : α → Except ε β} {b : β} :
    x >>= f = .ok b ↔ ∃ a, x = .ok a ∧ f a = .ok b := by
  cases x with
  | error e => simp [bind, Except.bind]
  | ok a => simp [bind, Except.bind]

theorem bind_ok {a : α} {f : α → Except ε β} : (Except.ok a : Except ε α) >>= f = f a := rfl

theorem map_eq_ok {x : Except ε α} {f : α → β} {b : β} :
    x.map f = .ok b ↔ ∃ a, x = .ok a ∧ f a = b := by
  cases x with
  | error e => simp [Except.map]
  | ok a => simp [Except.map]

theorem map_ok (a : α) (f : α → β) : (Except.ok a : Except ε α).map f = .ok (f a) := rfl

theorem map_bind {γ : Type v} (x : Except ε α) (f : α → Except ε β) (g : β → γ) :
    (x >>= f).map g = x >>= fun a => (f a).map g := by
  cases x with
  | error e => rfl
  | ok a => rfl

theorem pure_eq_ok {a b : α} : (pure a : Except ε α) = .ok b ↔ a = b := by
  simp [pure, Except.pure]

theorem mapM_eq_ok {γ : Type w} {f : γ → Except ε α} {l : List γ} {r : List α} :
    l.mapM f = .ok r ↔ List.Forall₂ (fun x a => f x = .ok a) l r := by
  induction l generalizing r with
  | nil =>
    rw [List.mapM_nil, pure_eq_ok, List.forall₂_nil_left_iff]
    exact eq_comm
  | cons x l ih =>
    rw [List.mapM_cons, bind_eq_ok, List.forall₂_cons_left_iff]
    constructor
    · rintro ⟨a, ha, h⟩
      obtain ⟨rest, hrest, h⟩ := bind_eq_ok.mp h
      exact ⟨a, rest, ha, ih.mp hrest, (pure_eq_ok.mp h).symm⟩
    · rintro ⟨a, rest, ha, hrest, rfl⟩
      exact ⟨a, ha, bind_eq_ok.mpr ⟨rest, ih.mpr hrest, rfl⟩⟩

theorem mapM_eq_ok_iff_map {γ : Type w} {f : γ → Except ε α} {l : List γ} {r : List α} :
    l.mapM f = .ok r ↔ l.map f = r.map .ok := by
  rw [mapM_eq_ok, ← List.forall₂_eq_eq_eq, List.forall₂_map_left_iff, List.forall₂_map_right_iff]

theorem forM_eq_ok {γ : Type w} {f : γ → Except ε PUnit} {l : List γ} :
    l.forM f = .ok ⟨⟩ ↔ ∀ x ∈ l, f x = .ok ⟨⟩ := by
  induction l with
  | nil => simp [pure, Except.pure]
  | cons x l ih =>
    rw [List.forM_eq_forM, List.forM_cons, bind_eq_ok, List.forall_mem_cons, ← ih]
    constructor
    · rintro ⟨⟨⟩, hx, hl⟩
      exact ⟨hx, hl⟩
    · rintro ⟨hx, hl⟩
      exact ⟨⟨⟩, hx, hl⟩

/-- A left element of related lists has a partner. -/
theorem mem_of_forall₂ {γ : Type w} {r : γ → α → Prop} {l : List γ} {m : List α}
    (h : List.Forall₂ r l m) {x : γ} (hx : x ∈ l) : ∃ a ∈ m, r x a := by
  induction h with
  | nil => cases hx
  | cons hr _ ih =>
    rcases List.mem_cons.mp hx with rfl | hx
    · exact ⟨_, List.mem_cons_self, hr⟩
    · obtain ⟨a, ha, hra⟩ := ih hx
      exact ⟨a, List.mem_cons_of_mem _ ha, hra⟩

/-! ### Programs that end with a value -/

theorem isOk_iff {x : Except ε α} : x.isOk = true ↔ ∃ a, x = .ok a := by
  cases x with
  | error e => simp [Except.isOk, Except.toBool]
  | ok a => simp [Except.isOk, Except.toBool]

@[simp] theorem isOk_ok (a : α) : (Except.ok a : Except ε α).isOk = true := rfl

@[simp] theorem isOk_error (e : ε) : (Except.error e : Except ε α).isOk = false := rfl

theorem isOk_bind {x : Except ε α} {f : α → Except ε β} :
    (x >>= f).isOk = true ↔ ∃ a, x = .ok a ∧ (f a).isOk = true := by
  cases x with
  | error e => simp [bind, Except.bind]
  | ok a => simp [bind, Except.bind]

/-- A step whose value the rest does not look at. -/
theorem isOk_bind_const {x : Except ε α} {y : Except ε β} :
    (x >>= fun _ => y).isOk = true ↔ x.isOk = true ∧ y.isOk = true := by
  cases x with
  | error e => simp [bind, Except.bind]
  | ok a => simp [bind, Except.bind]

theorem isOk_map {x : Except ε α} {f : α → β} : (x.map f).isOk = x.isOk := by
  cases x <;> rfl

theorem isOk_mapM {γ : Type w} {f : γ → Except ε α} {l : List γ} :
    (l.mapM f).isOk = true ↔ ∀ x ∈ l, (f x).isOk = true := by
  induction l with
  | nil => simp [pure, Except.pure]
  | cons x l ih =>
    have htail : ∀ a, ((l.mapM f >>= fun rest => pure (a :: rest)).isOk = true ↔
        (l.mapM f).isOk = true) := by
      intro a
      cases l.mapM f <;> simp [bind, Except.bind, pure, Except.pure]
    simp only [List.mapM_cons, isOk_bind, htail, exists_and_right, ← isOk_iff, ih,
      List.forall_mem_cons]

/-- A loop that compares each element with those before it: `Holds` ties the state to the elements
seen, and a step goes through exactly when the element is good and apart from each of them. -/
theorem isOk_foldlM {σ : Type v} {γ : Type w} {step : σ → γ → Except ε σ}
    {Holds : List γ → σ → Prop} {good : γ → Prop} {apart : γ → γ → Prop}
    (hstep : ∀ seen st x, Holds seen st →
      ((step st x).isOk = true ↔ good x ∧ ∀ y ∈ seen, apart y x))
    (hnext : ∀ seen st x st', Holds seen st → step st x = .ok st' → Holds (x :: seen) st')
    {seen : List γ} {st : σ} (hs : Holds seen st) (l : List γ) :
    (l.foldlM step st).isOk = true ↔
      (∀ x ∈ l, good x) ∧ (∀ x ∈ l, ∀ y ∈ seen, apart y x) ∧ l.Pairwise apart := by
  induction l generalizing seen st with
  | nil => simp [pure, Except.pure]
  | cons x l ih =>
    rw [List.foldlM_cons]
    have hx := hstep seen st x hs
    cases h : step st x with
    | error e =>
      rw [h] at hx
      have hno : ¬ (good x ∧ ∀ y ∈ seen, apart y x) := fun hg => Bool.noConfusion (hx.mpr hg)
      constructor
      · intro herr
        cases herr
      · rintro ⟨hgood, hapart, -⟩
        exact absurd ⟨hgood x List.mem_cons_self, hapart x List.mem_cons_self⟩ hno
    | ok st' =>
      rw [h] at hx
      have hok := hx.mp rfl
      rw [bind_ok, ih (hnext seen st x st' hs h), List.forall_mem_cons, List.forall_mem_cons,
        List.pairwise_cons]
      simp only [List.forall_mem_cons]
      constructor
      · rintro ⟨hgood, hapart, hpair⟩
        exact ⟨⟨hok.1, hgood⟩, ⟨hok.2, fun y hy => (hapart y hy).2⟩,
          fun y hy => (hapart y hy).1, hpair⟩
      · rintro ⟨⟨-, hgood⟩, ⟨-, hapart⟩, hfirst, hpair⟩
        exact ⟨hgood, fun y hy => ⟨hfirst y hy, hapart y hy⟩, hpair⟩

/-- What each step of a fold establishes from what was handled before holds of the whole list. -/
theorem foldlM_ensures {γ : Type w} {f : α → γ → Except ε α} {P : List γ → α → Prop}
    (hstep : ∀ done a x a', P done a → f a x = .ok a' → P (done ++ [x]) a') {l : List γ}
    {a b : α} (ha : P [] a) (h : l.foldlM f a = .ok b) : P l b := by
  have general : ∀ (l done : List γ) (a : α), P done a → l.foldlM f a = .ok b →
      P (done ++ l) b := by
    intro l
    induction l with
    | nil =>
      intro done a hp h
      rw [List.foldlM_nil, pure_eq_ok] at h
      rw [List.append_nil, ← h]
      exact hp
    | cons x l ih =>
      intro done a hp h
      rw [List.foldlM_cons, bind_eq_ok] at h
      obtain ⟨a', hx, hl⟩ := h
      have hrest := ih (done ++ [x]) a' (hstep done a x a' hp hx) hl
      rwa [List.append_assoc, List.singleton_append] at hrest
  exact general l [] a ha h

/-- A loop that refuses a key it has seen. -/
theorem nodup_of_foldlM {σ : Type v} {γ κ : Type w} {step : σ → γ → Except ε σ} {key : γ → κ}
    (seen : σ → List κ)
    (hstep : ∀ st x st', step st x = .ok st' →
      key x ∉ seen st ∧ seen st ⊆ seen st' ∧ key x ∈ seen st')
    {l : List γ} {st st' : σ} (h : l.foldlM step st = .ok st') : (l.map key).Nodup := by
  have hseen := @foldlM_ensures ε _ _ step
    (fun done st => (done.map key).Nodup ∧ ∀ x ∈ done, key x ∈ seen st) ?_ l st st'
    ⟨List.nodup_nil, nofun⟩ h
  · exact hseen.1
  · rintro done st x st' ⟨hnodup, hin⟩ hx
    obtain ⟨hnew, hkept, hadded⟩ := hstep st x st' hx
    refine ⟨?_, ?_⟩
    · rw [List.map_append, List.nodup_append]
      refine ⟨hnodup, by simp, ?_⟩
      intro k hk k' hk' he
      obtain ⟨y, hy, rfl⟩ := List.mem_map.mp hk
      rw [List.map_singleton, List.mem_singleton] at hk'
      rw [← hk', ← he] at hnew
      exact hnew (hin y hy)
    · intro y hy
      rcases List.mem_append.mp hy with hy | hy
      · exact hkept (hin y hy)
      · rw [List.mem_singleton.mp hy]
        exact hadded

end NdimonR.Outcome
