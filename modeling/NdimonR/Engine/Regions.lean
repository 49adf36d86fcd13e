import NdimonR.Engine.Changes

/-! How to reason about a call: what the outside may do between two effects, and what the engine
knows while it holds a journal. -/

namespace NdimonR.Engine

open NdimonR.Types

/-- What may happen around an effect that changes nothing the engine depends on. -/
inductive Quiet (w : World) : World → Prop where
  | pass (elapsed writes : Nat) : Quiet w (w.pass elapsed writes)
  | load : Quiet w (w.note (.loaded w.authority))
  | observe (interface : String) (live : List String) :
      Quiet w (w.note (.addresses interface live))

def Calm (f f' : Frame) : Prop := f'.job = f.job ∧ Quiet f.world f'.world

/-- A fact about a frame that quiet steps keep. -/
def Stable (P : Frame → Prop) : Prop := ∀ f f', Calm f f' → P f → P f'

theorem Stable.and {P Q : Frame → Prop} (hp : Stable P) (hq : Stable Q) :
    Stable fun f => P f ∧ Q f :=
  fun f f' hc h => ⟨hp f f' hc h.1, hq f f' hc h.2⟩

theorem Stable.const {φ : Prop} : Stable fun _ => φ := fun _ _ _ h => h

theorem Stable.imp {φ : Prop} {P : Frame → Prop} (hp : Stable P) : Stable fun f => φ → P f :=
  fun f f' hc h hφ => hp f f' hc (h hφ)

theorem Stable.exists {α : Type} {P : α → Frame → Prop} (hp : ∀ a, Stable (P a)) :
    Stable fun f => ∃ a, P a f :=
  fun f f' hc ⟨a, h⟩ => ⟨a, hp a f f' hc h⟩

section stable

variable {w w' : World} (h : Quiet w w')
include h

theorem Quiet.pending : w'.pending = w.pending := by cases h <;> rfl

theorem Quiet.files : w'.files = w.files := by cases h <;> rfl

theorem Quiet.last : w'.last = w.last := by cases h <;> rfl

theorem Quiet.quiesced : w'.quiesced = w.quiesced := by cases h <;> rfl

theorem Quiet.external : w'.peerExternal = w.peerExternal := by cases h <;> rfl

theorem Quiet.bootId : w'.bootId = w.bootId := by cases h <;> rfl

theorem Quiet.decides (j : Journal) : w'.authority.decides j = w.authority.decides j := by
  cases h <;> rfl

theorem Quiet.trace {e : Event} (he : e ∈ w.trace) : e ∈ w'.trace := by
  cases h with
  | pass => exact he
  | load => exact List.mem_cons_of_mem _ he
  | observe => exact List.mem_cons_of_mem _ he

theorem Quiet.released {i : Journal} {files : Files} (he : .released i files ∈ w'.trace) :
    .released i files ∈ w.trace := by
  cases h with
  | pass => exact he
  | load => simpa [World.note] using he
  | observe => simpa [World.note] using he

theorem Quiet.freed {t : Transfer} (hf : Freed t w) : Freed t w' := by
  intro o ho
  rw [h.external] at ho
  exact hf o ho

theorem Quiet.reserved {j : Journal} (hr : Reserved j w) : Reserved j w' := by
  intro t ht
  rw [h.external]
  exact hr t ht

theorem Quiet.told {j : Journal} (ht : Told j w) : Told j w' where
  kept := fun hd t hj => h.trace (ht.kept ((h.decides j).symm.trans hd) t hj)
  freed := fun hu t hj => h.freed (ht.freed ((h.decides j).symm.trans hu) t hj)

theorem Quiet.change {A : Journal → World → Prop} {G : Prop} :
    Change A G w w' := by
  cases h with
  | pass elapsed writes => exact .pass elapsed writes
  | load => exact .load
  | observe interface live => exact .observe interface live

theorem Quiet.wf (hw : w.Wf) : w'.Wf :=
  (Quiet.change (A := fun _ _ => False) (G := False) h).wf hw

end stable

theorem Stable.ofWorld {P : World → Journal → Prop}
    (h : ∀ w w' j, Quiet w w' → P w j → P w' j) : Stable fun f => P f.world f.job := by
  intro f f' ⟨hj, hq⟩ hp
  rw [hj]
  exact h _ _ _ hq hp

/-- A step of a frame: its world changes, or only what the running call holds. -/
def Moves (A : Journal → World → Prop) (G : Prop) (f f' : Frame) : Prop :=
  f'.world = f.world ∨ Change A G f.world f'.world

theorem Moves.changes {A : Journal → World → Prop} {G : Prop} {f f' : Frame}
    (h : Relation.ReflTransGen (Moves A G) f f') :
    Changes A G f.world f'.world := by
  induction h with
  | refl => exact .refl
  | tail _ hlast ih =>
    rcases hlast with he | hc
    · rw [he]
      exact ih
    · exact ih.tail hc

variable {α β : Type} {A : Journal → World → Prop} {G : Prop} {K P : Frame → Prop}

abbrev Sound (A : Journal → World → Prop) (G : Prop) (K P : Frame → Prop) (p : Action α)
    (Q : α → Frame → Prop) : Prop :=
  Proc.Sound (Moves A G) K P p Q

/-! ## Effects -/

theorem Frame.next_calm (f : Frame) : f.next.2 = f ∨ Calm f f.next.2 := by
  unfold Frame.next
  cases f.script with
  | nil => exact .inl rfl
  | cons a rest => exact .inr ⟨rfl, .pass a.elapsed a.writes⟩

theorem Stable.next {f : Frame} (hp : Stable P) (h : P f) : P f.next.2 := by
  rcases f.next_calm with he | hc
  · rw [he]
    exact h
  · exact hp _ _ hc h

theorem Frame.next_moves (f : Frame) : Relation.ReflTransGen (Moves A G) f f.next.2 := by
  rcases f.next_calm with he | hc
  · rw [he]
  · exact .single (.inr hc.2.change)

theorem effect_sound {change : Answer → Frame → World} {view : Answer → Frame → α}
    {Q : α → Frame → Prop} (hK : Stable K) (hP : Stable P)
    (h : ∀ a f, K f → P f → Moves A G f { f with world := change a f } ∧
      K { f with world := change a f } ∧ Q (view a f) { f with world := change a f }) :
    Sound A G K P (effect change view) Q := by
  intro f hk hp
  have hk₁ := hK.next hk
  have hp₁ := hP.next hp
  have hmoves := f.next_moves (A := A) (G := G)
  unfold effect
  rcases hnext : f.next with ⟨a, f₁⟩
  rw [hnext] at hk₁ hp₁ hmoves
  obtain ⟨hm, hk₂, hq⟩ := h a f₁ hk₁ hp₁
  have hafter := hmoves.tail hm
  simp only
  cases a.fault with
  | none =>
    refine ⟨hafter, hk₂, ?_, fun _ _ => trivial⟩
    intro b hb
    cases hb
    exact hq
  | fail e => exact ⟨hmoves, hk₁, fun b hb => (nomatch hb), fun _ _ => trivial⟩
  | failAfter e => exact ⟨hafter, hk₂, fun b hb => (nomatch hb), fun _ _ => trivial⟩
  | crash => exact ⟨hmoves, hk₁, fun b hb => (nomatch hb), fun _ _ => trivial⟩
  | crashAfter => exact ⟨hafter, hk₂, fun b hb => (nomatch hb), fun _ _ => trivial⟩

theorem act_sound {change : Answer → Frame → World} {Q : Frame → Prop} (hK : Stable K)
    (hP : Stable P) (h : ∀ a f, K f → P f → Change A G f.world (change a f) ∧
      K { f with world := change a f } ∧ Q { f with world := change a f }) :
    Sound A G K P (act change) fun _ => Q := by
  refine effect_sound hK hP fun a f hk hp => ?_
  obtain ⟨hc, hk', hq⟩ := h a f hk hp
  exact ⟨.inr hc, hk', hq⟩

theorem ask_sound {view : Answer → World → α} (hK : Stable K) (hP : Stable P) :
    Sound A G K P (ask view) fun x f => P f ∧ ∃ a, x = view a f.world :=
  effect_sound hK hP fun a _ hk hp => ⟨.inl rfl, hk, hp, a, rfl⟩

theorem job_sound : Sound A G K P job fun j f => P f ∧ f.job = j :=
  Proc.Spec.read fun _ _ hp => ⟨hp, rfl⟩

theorem setJob_sound {change : Journal → Journal} {Q : Frame → Prop}
    (h : ∀ f, K f → P f → K { f with job := change f.job } ∧ Q { f with job := change f.job }) :
    Sound A G K P (setJob change) fun _ => Q := by
  refine Proc.Spec.modify fun f hk hp => ?_
  obtain ⟨hk', hq⟩ := h f hk hp
  exact ⟨.single (.inl rfl), hk', hq⟩

theorem require_sound {c : Prop} [Decidable c] {e : ApiError} :
    Sound A G K P (Proc.require c e) fun _ f => P f ∧ c :=
  Proc.Spec.require fun _ _ _ _ => trivial

/-- A caught error leaves what the procedure keeps at every point. -/
theorem Sound.attempt {p : Action α} {Q : α → Frame → Prop}
    (h : Sound A G (fun f => K f ∧ P f) (fun _ => True) p Q) :
    Sound A G K P (Proc.attempt p) fun r f => P f ∧ ∀ a, r = .ok a → Q a f :=
  Proc.Spec.within (Proc.Spec.attempt (F := fun _ _ => True) h)
    (fun _ hk hp => ⟨⟨hk, hp⟩, trivial⟩) (fun _ _ h => h) (fun _ h => h.1)
    (fun _ _ hk hq => ⟨hk.2, hq.1⟩) fun _ _ _ _ => trivial

theorem Sound.ignore {p : Action α} {Q : α → Frame → Prop}
    (h : Sound A G (fun f => K f ∧ P f) (fun _ => True) p Q) :
    Sound A G K P (Proc.ignore p) fun _ => P :=
  Proc.Spec.bind (Sound.attempt h) fun _ => Proc.Spec.pure fun _ _ hq => hq.1

/-! ## Procedures that only look -/

/-- Whatever the engine knows before, it knows after. -/
abbrev IsCalm (p : Action α) : Prop :=
  Proc.Sound Calm (fun _ => True) (fun _ => True) p fun _ _ => True

theorem IsCalm.keeps {p : Action α} (h : IsCalm p) (hK : Stable K) (hP : Stable P) :
    Sound A G K P p fun _ => P :=
  Proc.Spec.weaken
    (Proc.Spec.frame h (fun _ _ _ => ⟨trivial, trivial⟩)
      (fun s t hk hp hc => ⟨.inr hc.2.change, hK s t hc hk, hP s t hc hp⟩) fun _ _ _ _ _ => trivial)
    (fun _ _ hp => hp) fun _ _ _ hq => hq.1

theorem IsCalm.pure {a : α} : IsCalm (Pure.pure a : Action α) :=
  Proc.Spec.pure fun _ _ _ => trivial

theorem IsCalm.fail {e : ApiError} : IsCalm (Proc.fail e : Action α) :=
  Proc.Spec.fail fun _ _ _ => trivial

theorem IsCalm.bind {p : Action α} {g : α → Action β} (hp : IsCalm p) (hg : ∀ a, IsCalm (g a)) :
    IsCalm (p >>= g) :=
  Proc.Spec.bind hp hg

theorem IsCalm.ite {c : Prop} [Decidable c] {p q : Action α} (hp : IsCalm p) (hq : IsCalm q) :
    IsCalm (if c then p else q) :=
  Proc.Spec.ite (fun _ => hp) fun _ => hq

theorem IsCalm.when {c : Prop} [Decidable c] {p : Action Unit} (hp : IsCalm p) :
    IsCalm (Proc.when c p) :=
  IsCalm.ite hp IsCalm.pure

theorem IsCalm.require {c : Prop} [Decidable c] {e : ApiError} :
    IsCalm (Proc.require c e : Action Unit) :=
  IsCalm.ite IsCalm.pure IsCalm.fail

theorem IsCalm.ofExcept {r : Except ApiError α} : IsCalm (Proc.ofExcept r) := by
  cases r with
  | ok a => exact IsCalm.pure
  | error e => exact IsCalm.fail

theorem IsCalm.attempt {p : Action α} (hp : IsCalm p) : IsCalm (Proc.attempt p) :=
  Proc.Spec.weaken (Proc.Spec.attempt hp) (fun _ _ h => h) fun _ _ _ _ => trivial

theorem IsCalm.ignore {p : Action α} (hp : IsCalm p) : IsCalm (Proc.ignore p) :=
  IsCalm.bind hp.attempt fun _ => IsCalm.pure

theorem IsCalm.each {g : α → Action Unit} {xs : List α} (hg : ∀ a, IsCalm (g a)) :
    IsCalm (Proc.each g xs) :=
  Proc.Spec.each_keeps xs fun a _ => hg a

theorem effect_calm {change : Answer → Frame → World} {view : Answer → Frame → α}
    (h : ∀ a f, change a f = f.world ∨ Quiet f.world (change a f)) :
    IsCalm (effect change view) := by
  intro f _ _
  have hmoves : Relation.ReflTransGen Calm f f.next.2 := by
    rcases f.next_calm with he | hc
    · rw [he]
    · exact .single hc
  unfold effect
  rcases hnext : f.next with ⟨a, f₁⟩
  rw [hnext] at hmoves
  have hafter : Relation.ReflTransGen Calm f { f₁ with world := change a f₁ } := by
    rcases h a f₁ with he | hq
    · rw [he]
      exact hmoves
    · exact hmoves.tail ⟨rfl, hq⟩
  simp only
  cases a.fault with
  | none => exact ⟨hafter, trivial, fun _ _ => trivial, fun _ _ => trivial⟩
  | fail e => exact ⟨hmoves, trivial, fun _ _ => trivial, fun _ _ => trivial⟩
  | failAfter e => exact ⟨hafter, trivial, fun _ _ => trivial, fun _ _ => trivial⟩
  | crash => exact ⟨hmoves, trivial, fun _ _ => trivial, fun _ _ => trivial⟩
  | crashAfter => exact ⟨hafter, trivial, fun _ _ => trivial, fun _ _ => trivial⟩

theorem ask_calm {view : Answer → World → α} : IsCalm (ask view) :=
  effect_calm fun _ _ => .inl rfl

theorem load_calm : IsCalm load := effect_calm fun _ _ => .inr .load

theorem job_calm : IsCalm job := Proc.Spec.read fun _ _ _ => trivial

theorem command_calm {program : String} {args : List String} : IsCalm (command program args) :=
  ask_calm

theorem active_calm {unit : String} : IsCalm (active unit) := ask_calm

theorem table_calm {name : String} : IsCalm (table name) := ask_calm

theorem slices_calm : IsCalm slices := command_calm.bind fun _ => command_calm

theorem stopConsumers_calm {p : Plan} {recovery : Bool} : IsCalm (stopConsumers p recovery) :=
  IsCalm.each fun _ => (active_calm.bind fun _ => command_calm.when).when

theorem restoreConsumers_calm {p : Plan} {recovery : Bool} :
    IsCalm (restoreConsumers p recovery) :=
  command_calm.bind fun _ => IsCalm.each fun _ => command_calm.when

theorem resumeConsumers_calm {p : Plan} : IsCalm (resumeConsumers p) :=
  command_calm.ignore.bind fun _ => IsCalm.each fun _ =>
    (active_calm.attempt.bind fun _ => command_calm.ignore.when).when

theorem deconfigure_calm {p : NetworkProfiles} {force : Bool} : IsCalm (deconfigure p force) :=
  ask_calm

theorem readiness_calm {p : NetworkProfiles} {m : Metadata} {recovery owned : Bool} :
    IsCalm (readiness p m recovery owned) :=
  ask_calm

theorem sourceReadiness_calm {p : Plan} : IsCalm (sourceReadiness p) :=
  readiness_calm.bind fun _ => command_calm

theorem schedule_calm {kind : String} {delay : Nat} {repeated : Bool} :
    IsCalm (schedule kind delay repeated) :=
  job_calm.bind fun _ => command_calm

theorem armRetry_calm : IsCalm armRetry :=
  job_calm.bind fun _ => active_calm.bind fun _ => schedule_calm.when

theorem stopTimers_calm : IsCalm stopTimers :=
  job_calm.bind fun _ => (IsCalm.each fun _ => command_calm.ignore).bind fun _ =>
    IsCalm.each fun _ => command_calm.ignore

theorem pruneNm_calm {p : Plan} : IsCalm (pruneNm p) :=
  (ask_calm.bind fun _ => IsCalm.each fun _ => command_calm.when).when

theorem lockSource_calm {t : Option Transfer} : IsCalm (lockSource t) := by
  cases t with
  | none => exact IsCalm.pure
  | some t =>
    exact IsCalm.require.bind fun _ => IsCalm.require.bind fun _ => command_calm

theorem check_calm {t : Transfer} {id : String} : IsCalm (check t id) :=
  command_calm.bind fun _ => ask_calm.bind fun _ => IsCalm.require.bind fun _ =>
    ask_calm.bind fun _ => IsCalm.require

theorem checkPlan_calm {p : Plan} : IsCalm (checkPlan p) :=
  (IsCalm.each fun _ => ask_calm.bind fun _ => IsCalm.require).bind fun _ =>
    table_calm.bind fun _ => IsCalm.require.bind fun _ => command_calm

theorem managementAddress_calm {p : NetworkProfiles} : IsCalm (managementAddress p) :=
  IsCalm.ofExcept.bind fun _ =>
    (effect_calm fun _ _ => .inr (.observe _ _)).bind fun _ => IsCalm.pure

theorem setTable_none_calm {rules : Option String} : IsCalm (setTable none rules) :=
  table_calm.bind fun _ => IsCalm.when (effect_calm fun _ _ => .inl rfl)

theorem deadlinePassed_calm {j : Journal} : IsCalm (deadlinePassed j) :=
  ask_calm.bind fun _ => IsCalm.ite IsCalm.pure (ask_calm.bind fun _ => IsCalm.pure)

theorem pendingView_calm : IsCalm pendingView :=
  job_calm.bind fun _ =>
    (ask_calm.bind fun _ => IsCalm.ite (ask_calm.bind fun _ => IsCalm.pure) IsCalm.pure).bind
      fun _ => command_calm.bind fun _ => IsCalm.pure

theorem preflight_calm {config : EngineConfig} {j : Journal} : IsCalm (preflight config j) := by
  have hcheck : IsCalm (checkHandoff j) := by
    unfold checkHandoff
    cases j.handoff with
    | none => exact IsCalm.pure
    | some t => exact check_calm
  exact (IsCalm.when ask_calm).bind fun _ => load_calm.bind fun _ =>
    IsCalm.ite (load_calm.bind fun _ => IsCalm.fail)
      (IsCalm.require.bind fun _ => hcheck.bind fun _ => checkPlan_calm)

end NdimonR.Engine
