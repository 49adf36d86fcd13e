import NdimonR.Privd.Packages
import NdimonR.Privd.Scopes

/-! Plugin packages survive a killed worker, as long as no operation meets the state an
interrupted swap leaves: a live tree that is not installed beside a previous tree that is. -/

namespace NdimonR.Privd

open Proc

/-- The whole tree of an install is in one of the two directories. -/
def Holds (w : Dirs) (id : Nat) : Prop :=
  ∃ t, (w.dest = some t ∨ w.previous = some t) ∧ t.id = id ∧ t.whole = true

def Marked (w : Dirs) (t : Tree) : Prop := .installed t.id ∈ w.trace ∨ t.broken = true

/-- What holds between any two durable steps. A previous tree may lose its marker to an
interrupted removal, but then a live tree stands in front of it. -/
structure Inv (w : Dirs) : Prop where
  kept : ∀ id, current w.trace = some id → Holds w id
  marked : ∀ t, w.dest = some t → Marked w t
  hidden : ∀ t, w.previous = some t → w.dest = none ∨ t.whole = true → Marked w t
  gone : w.trace.head? = some .uninstalled → w.dest = none ∧ w.previous = none

/-- The current tree is the previous one, and another stands in its place. -/
def Stranded (w : Dirs) : Prop :=
  ∃ p, w.previous = some p ∧ w.dest.isSome ∧ current w.trace = some p.id

def Uninstall.removes (u : Uninstall) : Prop :=
  u.mode = .force ∨ u.readable = .ok () ∧ u.lifecycle = .ok ()

/-- No call meets or makes a state the operations cannot handle: no install goes on while the
current tree is stranded, no uninstall removes the live tree in front of a previous one, and no
worker is killed while it removes a live tree that is current or that has lost its marker. -/
def Careful (name : PluginName) (w : Dirs) : PackageCall → Prop
  | .install i => ∀ m, i.admitted name w.live = .ok m → ¬ Stranded w ∧
      (w.live.isSome → (∃ e, i.outcome name m = .error e) → i.kill ≠ some (.removing false))
  | .uninstall u => u.removes → ¬ (w.dest.isSome ∧ w.previous.isSome) ∧
      (w.live.isSome → ∀ marker, u.kill = some (.removing marker) →
        marker = true ∧ current w.trace = none)
  | .execute _ _ => True
  | .inspect _ _ => True

/-- A program that keeps the invariant whenever the worker is killed. -/
abbrev Survives {α : Type} (P : Dirs → Prop) (p : PackageAction α) (Q : α → Dirs → Prop)
    (E : Error → Dirs → Prop) : Prop :=
  Spec (fun _ _ => True) Inv P p Q E

section Rules

variable {P : Dirs → Prop} {Q : Unit → Dirs → Prop} {E : Error → Dirs → Prop}

theorem survives_modify {change : Dirs → Dirs}
    (h : ∀ w, Inv w → P w → Inv (change w) ∧ Q () (change w)) :
    Survives P (modify change) Q E :=
  Spec.modify fun w hi hp => ⟨.single trivial, h w hi hp⟩

theorem survives_stopAt {kill : Option Kill} {here : Kill} (h : ∀ w, Inv w → P w → Q () w) :
    Survives P (stopAt kill here) Q E :=
  Spec.ite (fun _ => Spec.stop) fun _ => Spec.pure h

/-- A durable step and the place behind it where the worker may be killed. -/
theorem survives_durable {change : Dirs → Dirs} {kill : Option Kill} {here : Kill}
    (h : ∀ w, Inv w → P w → Inv (change w) ∧ Q () (change w)) :
    Survives P (do modify change; stopAt kill here) Q E := by
  refine Spec.bind (Q := fun _ => Q ()) (survives_modify h) ?_
  intro _
  exact survives_stopAt fun _ _ hq => hq

theorem survives_removeTree {kill : Option Kill} {tear : Bool → Dirs → Dirs}
    {drop : Dirs → Dirs} {inside : Bool → Kill} {after : Kill}
    (htear : ∀ marker w, kill = some (inside marker) → Inv w → P w → Inv (tear marker w))
    (hdrop : ∀ w, Inv w → P w → Inv (drop w) ∧ Q () (drop w)) :
    Survives P (removeTree kill tear drop inside after) Q E := by
  unfold removeTree
  refine Spec.ite ?_ fun _ => Spec.ite ?_ fun _ => survives_durable hdrop
  · intro hk
    refine Spec.bind (Q := fun _ _ => True)
      (survives_modify fun w hi hp => ⟨htear true w hk hi hp, trivial⟩) ?_
    intro _
    exact Spec.stop
  · intro hk
    refine Spec.bind (Q := fun _ _ => True)
      (survives_modify fun w hi hp => ⟨htear false w hk hi hp, trivial⟩) ?_
    intro _
    exact Spec.stop

end Rules

/-! ### The durable steps -/

/-- After the recovery there is no previous tree without a live one. -/
def Settled (w : Dirs) : Prop := w.dest = none → w.previous = none

theorem inv_restore {w : Dirs} (h : Inv w) (hd : w.dest = none) : Inv w.restore where
  kept id hid := by
    obtain ⟨t, ht, hw⟩ := h.kept id hid
    exact ⟨t, .inl (ht.resolve_left (by simp [hd])), hw⟩
  marked t ht := h.hidden t ht (.inl hd)
  hidden t ht := by cases ht
  gone hg := ⟨(h.gone hg).2, rfl⟩

/-- What `recover` leaves. -/
def Dirs.recovered (w : Dirs) : Dirs :=
  if w.previous.isSome ∧ w.dest.isNone then w.restore else w

theorem dest_recovered (w : Dirs) : w.recovered.dest = w.live := by
  obtain ⟨dest, previous, trace⟩ := w
  cases dest <;> cases previous <;> rfl

theorem trace_recovered (w : Dirs) : w.recovered.trace = w.trace := by
  unfold Dirs.recovered
  split <;> rfl

theorem settled_recovered (w : Dirs) : Settled w.recovered := by
  obtain ⟨dest, previous, trace⟩ := w
  intro h
  cases dest <;> cases previous <;> simp_all [Dirs.recovered, Dirs.restore]

theorem inv_recovered {w : Dirs} (h : Inv w) : Inv w.recovered := by
  unfold Dirs.recovered
  split
  · rename_i hw
    exact inv_restore h (Option.isNone_iff_eq_none.mp hw.2)
  · exact h

theorem stranded_of_recovered {w : Dirs} (h : Stranded w.recovered) : Stranded w := by
  unfold Dirs.recovered at h
  split at h
  · obtain ⟨p, hp, -⟩ := h
    cases hp
  · exact h

theorem survives_recover (w₀ : Dirs) (kill : Option Kill) {E : Error → Dirs → Prop} :
    Survives (fun w => w = w₀) (recover kill) (fun _ w => w = w₀.recovered) E := by
  refine Spec.bind (Q := fun v w => v = w₀ ∧ w = w₀) (Spec.read fun w _ hw => ⟨hw, hw⟩) ?_
  intro v
  refine Spec.ite ?_ ?_
  · intro hv
    refine survives_durable ?_
    intro w hi ⟨rfl, hw⟩
    subst hw
    refine ⟨inv_restore hi (Option.isNone_iff_eq_none.mp hv.2), ?_⟩
    rw [Dirs.recovered, if_pos hv]
  · intro hv
    refine Spec.pure ?_
    intro w _ ⟨rfl, hw⟩
    rw [hw, Dirs.recovered, if_neg hv]

/-- Between the move of the new tree and the end of its hook. -/
structure Placed (live : Option Tree) (w : Dirs) : Prop where
  fresh : ∃ t, w.dest = some t ∧ t.broken = true ∧ t.whole = true
  previous : w.previous = live
  kept : ∀ id, current w.trace = some id → ∃ p, live = some p ∧ p.id = id ∧ p.whole = true
  marked : ∀ p, live = some p → Marked w p
  head : w.trace.head? ≠ some .uninstalled

/-- The failed tree is gone and the old one not yet back. -/
structure Emptied (live : Option Tree) (w : Dirs) : Prop where
  dest : w.dest = none
  previous : w.previous = live

theorem Placed.mark {live : Option Tree} {w : Dirs} (hi : Inv w) (h : Placed live w) :
    Inv w.mark ∧ Placed live w.mark := by
  obtain ⟨t, ht, hb, hw⟩ := h.fresh
  have heq : w.mark = w := by
    obtain ⟨dest, previous, trace⟩ := w
    obtain rfl : dest = some t := ht
    simp [Dirs.mark, ← hb]
  rw [heq]
  exact ⟨hi, h⟩

theorem Placed.tearDest {live : Option Tree} {w : Dirs} (h : Placed live w) :
    Inv (w.tearDest true) where
  kept id hid := by
    obtain ⟨p, hp, hw⟩ := h.kept id hid
    exact ⟨p, .inr (h.previous.trans hp), hw⟩
  marked t ht := by
    obtain ⟨u, hu, hb, -⟩ := h.fresh
    simp only [Dirs.tearDest, hu, Option.map_some, Option.some.injEq] at ht
    subst ht
    exact .inr (by simp [Tree.torn, hb])
  hidden p hp _ := h.marked p (h.previous.symm.trans hp)
  gone hg := absurd hg h.head

theorem Placed.dropDest {live : Option Tree} {w : Dirs} (h : Placed live w) :
    Inv w.dropDest ∧ Emptied live w.dropDest := by
  refine ⟨⟨?_, ?_, ?_, ?_⟩, rfl, h.previous⟩
  · intro id hid
    obtain ⟨p, hp, hw⟩ := h.kept id hid
    exact ⟨p, .inr (h.previous.trans hp), hw⟩
  · intro t ht
    cases ht
  · intro p hp _
    exact h.marked p (h.previous.symm.trans hp)
  · intro hg
    exact absurd hg h.head

theorem inv_mark {w : Dirs} (h : Inv w) : Inv w.mark := by
  obtain ⟨dest, previous, trace⟩ := w
  cases dest with
  | none => exact h
  | some t =>
    refine ⟨?_, ?_, ?_, ?_⟩
    · intro id hid
      obtain ⟨u, hu | hu, hw⟩ := h.kept id hid
      · cases hu
        exact ⟨_, .inl rfl, hw⟩
      · exact ⟨u, .inr hu, hw⟩
    · intro u hu
      cases hu
      exact .inr rfl
    · intro p hp hd
      exact h.hidden p hp (.inr (hd.resolve_left (by simp [Dirs.mark])))
    · intro hg
      exact absurd (h.gone hg).1 (by simp)

theorem survives_rollBack {live : Option Tree} {kill : Option Kill} {E : Error → Dirs → Prop}
    (hkill : live.isSome → kill ≠ some (.removing false)) :
    Survives (Placed live) (rollBack kill)
      (fun _ w => ∀ t, live = some t → w.dest = some { t with broken := true }) E := by
  refine Spec.bind (Q := fun _ => Placed live)
    (survives_modify fun w hi h => h.mark hi) fun _ => ?_
  refine Spec.bind (Q := fun _ => Placed live) (survives_stopAt fun _ _ h => h) fun _ => ?_
  refine Spec.bind (Q := fun v w => v = w ∧ Placed live w) (Spec.read fun w _ h => ⟨rfl, h⟩) ?_
  intro v
  refine Spec.when ?_ ?_
  · intro hv
    refine Spec.bind (Q := fun _ => Emptied live) (survives_removeTree ?_ ?_) fun _ => ?_
    · intro marker w hk _ ⟨hvw, h⟩
      subst hvw
      cases marker with
      | true => exact h.tearDest
      | false => exact absurd hk (hkill (by rw [← h.previous]; exact hv))
    · intro w _ ⟨_, h⟩
      exact h.dropDest
    refine Spec.bind (Q := fun _ w => w.dest = live) (survives_modify ?_) fun _ => ?_
    · intro w hi h
      exact ⟨inv_restore hi h.dest, h.previous⟩
    refine Spec.bind (Q := fun _ w => w.dest = live)
      (survives_stopAt fun _ _ h => h) fun _ => ?_
    refine survives_modify fun w hi h => ⟨inv_mark hi, ?_⟩
    intro t ht
    simp [Dirs.mark, h, ht]
  · intro w hv _ ⟨hvw, h⟩ t ht
    subst hvw
    rw [h.previous, ht] at hv
    exact absurd rfl hv

/-- The tree an install found is the live one again, with or without the marker. -/
def Restored (live : Option Tree) (w : Dirs) : Prop :=
  ∀ t, live = some t → ∃ marker, w.dest = some { t with broken := marker }

/-- Before the swap: nothing has moved yet. -/
structure Found (live : Option Tree) (w : Dirs) : Prop where
  dest : w.dest = live
  settled : Settled w
  reached : ¬ Stranded w

/-- The live tree is the current one wherever a previous one is about to go. -/
theorem Found.kept {live : Option Tree} {w : Dirs} (hi : Inv w) (h : Found live w) {id : Nat}
    (hid : current w.trace = some id) : ∃ t, w.dest = some t ∧ t.id = id ∧ t.whole = true := by
  obtain ⟨t, hd | hp, ht⟩ := hi.kept id hid
  · exact ⟨t, hd, ht⟩
  · cases hd : w.dest with
    | none =>
      rw [h.settled hd] at hp
      cases hp
    | some u => exact absurd ⟨t, hp, by simp [hd], by rw [hid, ht.1]⟩ h.reached

theorem Found.clear {live : Option Tree} {w : Dirs} (hi : Inv w) (h : Found live w)
    {previous : Option Tree} (hp : ∀ p, previous = some p → p.whole = false ∧ w.dest ≠ none) :
    Inv { w with previous } where
  kept id hid := by
    obtain ⟨t, ht, hw⟩ := h.kept hi hid
    exact ⟨t, .inl ht, hw⟩
  marked := hi.marked
  hidden p hpp hd := by
    obtain ⟨hw, hn⟩ := hp p hpp
    rw [hw] at hd
    simp [hn] at hd
  gone hg := by
    obtain ⟨hd, -⟩ := hi.gone hg
    refine ⟨hd, ?_⟩
    cases hpp : previous with
    | none => rfl
    | some p => exact absurd hd (hp p hpp).2

theorem Found.tear {live : Option Tree} {w : Dirs} (hi : Inv w) (h : Found live w)
    (marker : Bool) : Inv (w.tearPrevious marker) := by
  refine h.clear hi ?_
  intro p hp
  obtain ⟨q, hq, rfl⟩ := Option.map_eq_some_iff.mp hp
  refine ⟨rfl, ?_⟩
  intro hd
  rw [h.settled hd] at hq
  cases hq

/-- The live tree has moved away, if there was one. -/
theorem Emptied.place {live : Option Tree} {w : Dirs} (hi : Inv w) (h : Emptied live w)
    (m : Manifest) : Inv (w.place m) ∧ Placed live (w.place m) := by
  have hkept : ∀ id, current w.trace = some id →
      ∃ p, live = some p ∧ p.id = id ∧ p.whole = true := by
    intro id hid
    obtain ⟨t, hd | hp, ht⟩ := hi.kept id hid
    · rw [h.dest] at hd
      cases hd
    · exact ⟨t, h.previous.symm.trans hp, ht⟩
  have hmarked : ∀ p, live = some p → Marked (w.place m) p := by
    intro p hp
    obtain h' | h' := hi.hidden p (h.previous.trans hp) (.inl h.dest)
    · exact .inl (List.mem_cons_of_mem _ h')
    · exact .inr h'
  refine ⟨⟨?_, ?_, ?_, ?_⟩, ⟨⟨_, rfl, rfl, rfl⟩, h.previous, hkept, hmarked, by simp [Dirs.place]⟩⟩
  · intro id hid
    obtain ⟨p, hp, hw⟩ := hkept id hid
    exact ⟨p, .inr (h.previous.trans hp), hw⟩
  · intro t ht
    cases ht
    exact .inr rfl
  · intro p hp _
    exact hmarked p (h.previous.symm.trans hp)
  · intro hg
    cases hg

theorem inv_moveAway {w : Dirs} (hi : Inv w) (hp : w.previous = none) : Inv w.moveAway where
  kept id hid := by
    obtain ⟨t, ht, hw⟩ := hi.kept id hid
    exact ⟨t, .inr (ht.resolve_right (by simp [hp])), hw⟩
  marked t ht := by cases ht
  hidden t ht _ := hi.marked t ht
  gone hg := ⟨rfl, (hi.gone hg).1⟩

/-- The install has ended; what is left of the tree before it may go. -/
structure Ended (w : Dirs) : Prop where
  whole : ∃ t, w.dest = some t ∧ current w.trace = some t.id ∧ t.whole = true
  head : w.trace.head? ≠ some .uninstalled

theorem Placed.unmark {live : Option Tree} {w : Dirs} (h : Placed live w) :
    Inv w.unmark ∧ Ended w.unmark := by
  obtain ⟨dest, previous, trace⟩ := w
  obtain ⟨t, rfl, -, hw⟩ := h.fresh
  refine ⟨⟨?_, ?_, ?_, ?_⟩, ⟨_, rfl, rfl, hw⟩, by simp [Dirs.unmark]⟩
  · intro id hid
    cases hid
    exact ⟨_, .inl rfl, rfl, hw⟩
  · intro u hu
    cases hu
    exact .inl List.mem_cons_self
  · intro p hp _
    obtain h' | h' := h.marked p (h.previous.symm.trans hp)
    · exact .inl (List.mem_cons_of_mem _ h')
    · exact .inr h'
  · intro hg
    cases hg

theorem Ended.discard {w : Dirs} (hi : Inv w) (h : Ended w) {previous : Option Tree}
    (hp : ∀ p, previous = some p → p.whole = false) : Inv { w with previous } where
  kept id hid := by
    obtain ⟨t, ht, hc, hw⟩ := h.whole
    exact ⟨t, .inl ht, Option.some.inj (hc.symm.trans hid), hw⟩
  marked := hi.marked
  hidden p hpp hd := by
    obtain ⟨t, ht, -⟩ := h.whole
    rw [hp p hpp] at hd
    simp [ht] at hd
  gone hg := absurd hg h.head

theorem survives_swap {name : PluginName} {i : Install} {m : Manifest} {live : Option Tree}
    (hkill : live.isSome → (∃ e, i.outcome name m = .error e) →
      i.kill ≠ some (.removing false)) :
    Survives (Found live) (swap name i m) (fun _ _ => True) (fun _ => Restored live) := by
  refine Spec.bind (Q := fun _ w => w.dest = live ∧ w.previous = none)
    (survives_removeTree ?_ ?_) fun _ => ?_
  · intro marker w _ hi h
    exact h.tear hi marker
  · intro w hi h
    exact ⟨h.clear hi (by simp), h.dest, rfl⟩
  refine Spec.bind (Q := fun v w => v = w ∧ w.dest = live ∧ w.previous = none)
    (Spec.read fun w _ h => ⟨rfl, h⟩) fun v => ?_
  refine Spec.bind (Q := fun _ => Emptied live) (Spec.when ?_ ?_) fun _ => ?_
  · intro _
    refine survives_durable ?_
    intro w hi ⟨_, hd, hp⟩
    exact ⟨inv_moveAway hi hp, rfl, hd⟩
  · intro w hv _ ⟨hvw, hd, hp⟩
    subst hvw
    have hnone : v.dest = none := by simpa using hv
    exact ⟨hnone, hp.trans (hnone.symm.trans hd)⟩
  refine Spec.bind (Q := fun _ => Placed live)
    (survives_modify fun w hi h => h.place hi m) fun _ => ?_
  refine Spec.bind (Q := fun _ => Placed live) (survives_stopAt fun _ _ h => h) fun _ => ?_
  cases ho : i.outcome name m with
  | error e =>
    refine Spec.bind (survives_rollBack fun hl => hkill hl ⟨e, ho⟩) fun _ => Spec.fail ?_
    intro w _ h t ht
    exact ⟨true, h t ht⟩
  | ok u =>
    refine Spec.bind (Q := fun _ => Ended)
      (survives_modify fun w _ h => h.unmark) fun _ => ?_
    refine Spec.bind (Q := fun _ => Ended) (survives_stopAt fun _ _ h => h) fun _ => ?_
    refine survives_removeTree ?_ ?_
    · intro marker w _ hi h
      refine h.discard hi ?_
      intro p hp
      obtain ⟨q, -, rfl⟩ := Option.map_eq_some_iff.mp hp
      rfl
    · intro w hi h
      exact ⟨h.discard hi (by simp), trivial⟩

theorem survives_install {name : PluginName} {i : Install} {w₀ : Dirs}
    (h : Careful name w₀ (.install i)) :
    Survives (fun w => w = w₀) (install name i) (fun _ _ => True) (fun _ => Restored w₀.live) := by
  refine Spec.bind (survives_recover w₀ i.kill) fun _ => ?_
  refine Spec.bind (Q := fun v w => v = w ∧ w = w₀.recovered)
    (Spec.read fun w _ h => ⟨rfl, h⟩) fun v => ?_
  refine Spec.bind (Q := fun m w => w = w₀.recovered ∧ i.admitted name w₀.live = .ok m)
    (Spec.ofExcept ?_ ?_) fun m => ?_
  · intro m w hm _ ⟨hvw, hw⟩
    subst hvw hw
    rw [dest_recovered] at hm
    exact ⟨rfl, hm⟩
  · intro e w _ _ ⟨_, hw⟩ t ht
    subst hw
    exact ⟨t.broken, by rw [dest_recovered, ht]⟩
  · refine Spec.assume (φ := i.admitted name w₀.live = .ok m) (fun w _ h => h.2) fun hm => ?_
    obtain ⟨hreach, hkill⟩ := h m hm
    refine (survives_swap hkill).weaken ?_ fun _ _ _ h => h
    intro w _ ⟨hw, _⟩
    subst hw
    exact ⟨dest_recovered w₀, settled_recovered w₀, fun hs => hreach (stranded_of_recovered hs)⟩

/-- No tree is left, and the last thing that ended is the uninstall. -/
structure Removed (w : Dirs) : Prop where
  dest : w.dest = none
  previous : w.previous = none
  head : w.trace.head? = some .uninstalled

theorem inv_removed {w : Dirs} (h : Removed w) : Inv w where
  kept id hid := by
    obtain ⟨rest, ht⟩ : ∃ rest, w.trace = .uninstalled :: rest := by
      cases ht : w.trace with
      | nil =>
        have he := h.head
        rw [ht] at he
        cases he
      | cons e rest =>
        have he := h.head
        rw [ht, List.head?_cons, Option.some.injEq] at he
        exact ⟨rest, by rw [he]⟩
    rw [ht] at hid
    cases hid
  marked t ht := by simp [h.dest] at ht
  hidden t ht := by simp [h.previous] at ht
  gone _ := ⟨h.dest, h.previous⟩

theorem previous_recovered {w : Dirs} (h : ¬ (w.dest.isSome ∧ w.previous.isSome)) :
    w.recovered.previous = none := by
  obtain ⟨dest, previous, trace⟩ := w
  cases dest <;> cases previous <;> simp_all [Dirs.recovered, Dirs.restore]

theorem inv_tearDest {w : Dirs} (hi : Inv w) (hp : w.previous = none)
    (hc : current w.trace = none) : Inv (w.tearDest true) where
  kept id hid := by
    have := hc.symm.trans hid
    cases this
  marked t ht := by
    obtain ⟨u, hu, rfl⟩ := Option.map_eq_some_iff.mp ht
    obtain h | h := hi.marked u hu
    · exact .inl h
    · exact .inr (by simp [Tree.torn, h])
  hidden t ht := by
    have := hp.symm.trans ht
    cases this
  gone hg := by
    obtain ⟨hd, -⟩ := hi.gone hg
    exact ⟨by simp [Dirs.tearDest, hd], hp⟩

theorem tearPrevious_none {w : Dirs} (h : w.previous = none) (marker : Bool) :
    w.tearPrevious marker = w := by
  obtain ⟨dest, previous, trace⟩ := w
  cases h
  rfl

theorem dropPrevious_none {w : Dirs} (h : w.previous = none) : w.dropPrevious = w := by
  obtain ⟨dest, previous, trace⟩ := w
  cases h
  rfl

theorem survives_quit {u : Uninstall} {w₁ : Dirs} :
    Survives (fun w => w = w₁) u.quit (fun _ w => w = w₁ ∧ u.removes) (fun _ _ => True) := by
  refine Spec.ite ?_ ?_
  · intro hm
    exact Spec.pure fun w _ h => ⟨h, .inl hm⟩
  · intro _
    refine Spec.bind (Q := fun _ w => w = w₁ ∧ u.readable = .ok ())
      (Spec.ofExcept (fun _ w hr _ h => ⟨h, hr⟩) fun _ _ _ _ _ => trivial) fun _ => ?_
    cases hl : u.lifecycle with
    | error e =>
      refine Spec.bind (Q := fun _ _ => True)
        (survives_modify fun w hi _ => ⟨inv_mark hi, trivial⟩) fun _ => ?_
      exact Spec.fail fun _ _ _ => trivial
    | ok _ => exact Spec.pure fun w _ h => ⟨h.1, .inr ⟨h.2, hl⟩⟩

theorem survives_uninstall {name : PluginName} {u : Uninstall} {w₀ : Dirs}
    (h : Careful name w₀ (.uninstall u)) :
    Survives (fun w => w = w₀) (uninstall u) (fun _ => Removed) (fun _ _ => True) := by
  refine Spec.bind (survives_recover w₀ u.kill) fun _ => ?_
  refine Spec.bind (Q := fun v w => v = w₀.recovered ∧ w = w₀.recovered)
    (Spec.read fun w _ h => ⟨h, h⟩) fun v => ?_
  refine Spec.assume (φ := v = w₀.recovered) (fun w _ h => h.1) fun hv => ?_
  subst hv
  cases hd : w₀.recovered.dest with
  | none =>
    have hp : w₀.recovered.previous = none := settled_recovered w₀ hd
    refine Spec.bind (Q := fun _ w => w.dest = none ∧ w.previous = none)
      (survives_removeTree ?_ ?_) fun _ => ?_
    · intro marker w _ hi ⟨_, hw⟩
      subst hw
      rw [tearPrevious_none hp]
      exact hi
    · intro w hi ⟨_, hw⟩
      subst hw
      rw [dropPrevious_none hp]
      exact ⟨hi, hd, hp⟩
    · refine survives_modify fun w _ h => ?_
      have hr : Removed (w.note .uninstalled) := ⟨h.1, h.2, rfl⟩
      exact ⟨inv_removed hr, hr⟩
  | some t =>
    refine Spec.bind (Q := fun _ w => w = w₀.recovered ∧ u.removes)
      (survives_quit.weaken (fun w _ h => h.2) fun _ _ _ h => h) fun _ => ?_
    refine Spec.assume (φ := u.removes) (fun w _ h => h.2) fun hrem => ?_
    obtain ⟨hboth, hkill⟩ := h hrem
    have hp := previous_recovered hboth
    have hlive : w₀.live.isSome := by rw [← dest_recovered, hd]; rfl
    refine Spec.bind (Q := fun _ => Removed) (survives_removeTree ?_ ?_) fun _ => ?_
    · intro marker w hk hi ⟨hw, _⟩
      subst hw
      obtain ⟨rfl, hc⟩ := hkill hlive marker hk
      exact inv_tearDest hi hp (by rw [trace_recovered, hc])
    · intro w _ ⟨hw, _⟩
      subst hw
      have hr : Removed (w₀.recovered.dropDest.note .uninstalled) := ⟨rfl, hp, rfl⟩
      exact ⟨inv_removed hr, hr⟩
    · refine Spec.ite (fun _ => ?_) fun _ => Spec.pure fun _ _ h => h
      exact Spec.ofExcept (fun _ _ _ _ h => h) fun _ _ _ _ _ => trivial

/-! ### Runs -/

theorem inv_step {name : PluginName} {w : Dirs} {c : PackageCall} (hi : Inv w)
    (hc : Careful name w c) : Inv (w.step name c) := by
  cases c with
  | install i => exact (survives_install hc w hi rfl).2.1
  | uninstall u => exact (survives_uninstall hc w hi rfl).2.1
  | execute kill result | inspect kill result =>
    have h : Survives (fun v => v = w) (do recover kill; Proc.ofExcept result) (fun _ _ => True)
        (fun _ _ => True) := by
      refine Spec.bind (survives_recover w kill) fun _ => ?_
      exact Spec.ofExcept (fun _ _ _ _ _ => trivial) fun _ _ _ _ _ => trivial
    exact (h w hi rfl).2.1

theorem inv_init : Inv {} where
  kept id hid := by cases hid
  marked t ht := by cases ht
  hidden t ht := by cases ht
  gone hg := by cases hg

theorem inv_reachable {name : PluginName} {w : Dirs} (h : ReachableDirs name (Careful name) w) :
    Inv w := by
  induction h with
  | init => exact inv_init
  | step _ hc ih => exact inv_step ih hc

def PackageCall.isInstall : PackageCall → Bool
  | .install _ => true
  | _ => false

/-- Where no tree is left, only an install brings one. -/
theorem empty_step {name : PluginName} {w : Dirs} {c : PackageCall}
    (hw : w.dest = none ∧ w.previous = none) (hc : c.isInstall = false) :
    (w.step name c).dest = none ∧ (w.step name c).previous = none := by
  obtain ⟨dest, previous, trace⟩ := w
  obtain ⟨rfl, rfl⟩ := hw
  have hrec : ∀ kill, recover kill ⟨none, none, trace⟩ = (.ok (), ⟨none, none, trace⟩) :=
    fun _ => rfl
  cases c with
  | install i => cases hc
  | uninstall u =>
    have hrun : uninstall u ⟨none, none, trace⟩ =
        (do
          removeTree u.kill Dirs.tearPrevious Dirs.dropPrevious .discarding .discarded
          modify (Dirs.note .uninstalled) : PackageAction Unit) ⟨none, none, trace⟩ := by
      unfold uninstall
      rw [Proc.bind_ok (hrec u.kill)]
      rfl
    change (uninstall u ⟨none, none, trace⟩).2.dest = none ∧
      (uninstall u ⟨none, none, trace⟩).2.previous = none
    rw [hrun]
    unfold removeTree stopAt
    split
    · exact ⟨rfl, rfl⟩
    · split
      · exact ⟨rfl, rfl⟩
      · split <;> exact ⟨rfl, rfl⟩
  | execute kill result | inspect kill result =>
    cases result <;> exact ⟨rfl, rfl⟩

theorem empty_run {name : PluginName} {w : Dirs} {calls : List PackageCall}
    (hw : w.dest = none ∧ w.previous = none) (hc : ∀ c ∈ calls, c.isInstall = false) :
    (w.run name calls).dest = none ∧ (w.run name calls).previous = none := by
  induction calls generalizing w with
  | nil => exact hw
  | cons c rest ih =>
    exact ih (empty_step hw (hc c (by simp))) fun d hd => hc d (by simp [hd])

theorem ReachableDirs.run {name : PluginName} {w : Dirs} (calls : List PackageCall)
    (h : ReachableDirs name (fun _ _ => True) w) :
    ReachableDirs name (fun _ _ => True) (w.run name calls) := by
  induction calls generalizing w with
  | nil => exact h
  | cons c rest ih => exact ih (h.step trivial)

/-- How a tree shows in the plugin directory; its manifest may be refused. -/
def Tree.entry (t : Tree) (fileName : String) (readable : Except Error Unit) : PluginEntry :=
  ⟨fileName, true, t.broken, readable.map fun _ => t.manifest⟩

variable (floatLen : ℚ → Nat)

theorem allows_broken {host : Host} {unit : PluginUnit} {entry : PluginEntry}
    (h : entry.broken = true) : host.allows floatLen unit entry = false := by
  unfold Host.allows
  split <;> simp [h]

/-- A hidden directory is no plugin. -/
theorem allows_hidden {host : Host} {unit : PluginUnit} {entry : PluginEntry} {name : String}
    (h : entry.fileName = ".previous-" ++ name) : host.allows floatLen unit entry = false := by
  have hplugin : plugin entry.fileName = false := by
    rw [h, plugin]
    simp [Text.startsWith, Text.isAsciiLowercase]
  unfold Host.allows
  rw [dif_neg (by simp [hplugin])]

/-- In a run of careful calls, killed anywhere: the current tree is in one of the directories, a
failed install leaves the tree it found, a tree that is not installed is marked and none of its
units is controlled, and after an uninstall only an install brings a tree back. -/
theorem packages_crash_safe (name : PluginName) {w : Dirs}
    (h : ReachableDirs name (Careful name) w) :
    (∀ id, current w.trace = some id → Holds w id) ∧
    (∀ i e t, Careful name w (.install i) → w.live = some t → (install name i w).1 = .err e →
      ∃ marker, (install name i w).2.dest = some { t with broken := marker }) ∧
    (∀ t, w.dest = some t → .installed t.id ∉ w.trace → t.broken = true ∧
      ∀ (host : Host) (unit : PluginUnit) (readable : Except Error Unit),
        host.allows floatLen unit (t.entry name readable) = false) ∧
    (∀ t, w.previous = some t → (t.whole = true → .installed t.id ∉ w.trace → t.broken = true) ∧
      ∀ (host : Host) (unit : PluginUnit) (readable : Except Error Unit),
        host.allows floatLen unit (t.entry (".previous-" ++ name) readable) = false) ∧
    (∀ u later, Careful name w (.uninstall u) → (uninstall u w).1 = .ok () →
      (∀ c ∈ later, c.isInstall = false) →
        (Dirs.run name (w.step name (.uninstall u)) later).dest = none) := by
  have hi := inv_reachable h
  refine ⟨hi.kept, ?_, ?_, ?_, ?_⟩
  · intro i e t hc ht he
    exact (survives_install hc w hi rfl).2.2.2 e he t ht
  · intro t ht hn
    have hb : t.broken = true := (hi.marked t ht).resolve_left hn
    exact ⟨hb, fun host unit readable => allows_broken floatLen hb⟩
  · intro t ht
    refine ⟨fun hw hn => (hi.hidden t ht (.inr hw)).resolve_left hn, ?_⟩
    intro host unit readable
    exact allows_hidden floatLen rfl
  · intro u later hc hok hlater
    obtain ⟨hd, hp, -⟩ := (survives_uninstall hc w hi rfl).2.2.1 () hok
    exact (empty_run ⟨hd, hp⟩ hlater).1

/-- An install that nothing refuses. -/
def plainInstall : Install :=
  { prepared := .ok (bare audioName [] []), firmware := .ok oldest
    dpkg := fun _ op _ => op == "ge", force := false }

def killedInstall (kill : Kill) : Install := { plainInstall with kill := some kill }

/-- An update killed between its two renames, and a command that recovers from it. -/
def recoveredRun : Dirs :=
  Dirs.run audioName {}
    [.install plainInstall, .install (killedInstall .movedAway), .execute none (.ok ())]

theorem careful_plain {i : Install} {w : Dirs} (hw : w.previous = none)
    (hi : i.kill ≠ some (.removing false)) : Careful audioName w (.install i) := by
  intro m _
  refine ⟨?_, fun _ _ => hi⟩
  intro ⟨p, hp, _⟩
  rw [hw] at hp
  cases hp

theorem reachable_recoveredRun : ReachableDirs audioName (Careful audioName) recoveredRun := by
  refine .step (.step (.step .init ?_) ?_) trivial
  · exact careful_plain rfl (by decide)
  · exact careful_plain (by rfl) (by decide)

theorem packages_crash_safe_audio : Holds recoveredRun 0 :=
  (packages_crash_safe (fun _ => 0) audioName reachable_recoveredRun).1 0 (by rfl)

/-- An update killed while its hook runs; the retry deletes the tree that was kept, then fails. -/
def lostRun : Dirs :=
  Dirs.run audioName {} [.install plainInstall, .install (killedInstall .placed),
    .install { plainInstall with lifecycle := .error .permissionDenied }]

/-- An update killed after it removed its marker, before it removed the tree it had kept. -/
def leftoverRun : Dirs :=
  Dirs.run audioName {} [.install plainInstall, .install (killedInstall .unmarked)]

def plainUninstall : Uninstall := { mode := .keepState }

theorem crash_safe_false :
    (¬ ∀ w, ReachableDirs audioName (fun _ _ => True) w →
      ∀ id, current w.trace = some id → Holds w id) ∧
    ¬ ∀ w, ReachableDirs audioName (fun _ _ => True) w → ∀ u later,
      (uninstall u w).1 = .ok () → (∀ c ∈ later, c.isInstall = false) →
        (Dirs.run audioName (w.step audioName (.uninstall u)) later).dest = none := by
  constructor
  · intro h
    obtain ⟨t, ht, hid, -⟩ := h lostRun (.run _ .init) 0 (by rfl)
    have hd : lostRun.dest.map Tree.id = some 2 := by rfl
    have hp : lostRun.previous.map Tree.id = none := by rfl
    obtain ht | ht := ht
    · simp [ht, hid] at hd
    · simp [ht] at hp
  · intro h
    have := h leftoverRun (.run _ .init) plainUninstall [.execute none (.ok ())] (by rfl)
      (by simp [PackageCall.isInstall])
    have hid : (Dirs.run audioName (leftoverRun.step audioName (.uninstall plainUninstall))
        [.execute none (.ok ())]).dest.map Tree.id = some 0 := by rfl
    rw [this] at hid
    cases hid

end NdimonR.Privd
