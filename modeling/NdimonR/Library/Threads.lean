import Mathlib.Data.List.Infix
import Mathlib.Logic.Function.Basic

/-! Threads that take locks. What each has left to do is a list, and a step is that of one thread.

A discipline says of a list that it takes no lock it holds and gives back all it takes; it is kept
by every step whose acts leave something orderly to do, and then no thread waits for itself. -/

namespace NdimonR.Threads

inductive Op (Mutex Act : Type) where
  | lock (m : Mutex)
  | unlock (m : Mutex)
  | act (a : Act)
  deriving DecidableEq

structure Machine (Thread Mutex Act Entry Data : Type) where
  /-- What an act does, and what is to be done before the rest; none while it has to wait. -/
  exec : (busy : Thread → Bool) → Data → Thread → Act → Option (Data × List (Op Mutex Act))
  /-- What a thread at rest sets out to do. -/
  enter : Data → Thread → Entry → Option (Data × List (Op Mutex Act))

structure State (Thread Mutex Act Data : Type) where
  owner : Mutex → Option Thread
  code : Thread → List (Op Mutex Act)
  data : Data

inductive Event (Thread Entry : Type) where
  | run (t : Thread)
  | enter (t : Thread) (e : Entry)

variable {Thread Mutex Act Entry Data : Type}

def State.busy (s : State Thread Mutex Act Data) (t : Thread) : Bool := !(s.code t).isEmpty

/-- Every thread at rest, every lock free. -/
def atRest (data : Data) : State Thread Mutex Act Data where
  owner _ := none
  code _ := []
  data := data

namespace Machine

variable [DecidableEq Thread] [DecidableEq Mutex] (M : Machine Thread Mutex Act Entry Data)

def runThread (s : State Thread Mutex Act Data) (t : Thread) : Option (State Thread Mutex Act Data) :=
  match s.code t with
  | [] => none
  | .lock m :: rest =>
    match s.owner m with
    | some _ => none
    | none =>
      some { s with
        owner := Function.update s.owner m (some t)
        code := Function.update s.code t rest }
  | .unlock m :: rest =>
    some { s with
      owner := Function.update s.owner m none
      code := Function.update s.code t rest }
  | .act a :: rest =>
    (M.exec s.busy s.data t a).map fun next =>
      { s with data := next.1, code := Function.update s.code t (next.2 ++ rest) }

def step (s : State Thread Mutex Act Data) : Event Thread Entry → Option (State Thread Mutex Act Data)
  | .run t => M.runThread s t
  | .enter t e =>
    match s.code t with
    | _ :: _ => none
    | [] =>
      (M.enter s.data t e).map fun next =>
        { s with data := next.1, code := Function.update s.code t next.2 }

/-- The state after some events, where each of them can take place. -/
def after (s : State Thread Mutex Act Data) (events : List (Event Thread Entry)) :
    Option (State Thread Mutex Act Data) := events.foldlM M.step s

/-- Every way a step can go. -/
inductive Step (s : State Thread Mutex Act Data) :
    Event Thread Entry → State Thread Mutex Act Data → Prop where
  | lock {t m rest} : s.code t = .lock m :: rest → s.owner m = none →
      Step s (.run t) { s with
        owner := Function.update s.owner m (some t), code := Function.update s.code t rest }
  | unlock {t m rest} : s.code t = .unlock m :: rest →
      Step s (.run t) { s with
        owner := Function.update s.owner m none, code := Function.update s.code t rest }
  | act {t a rest data more} : s.code t = .act a :: rest →
      M.exec s.busy s.data t a = some (data, more) →
      Step s (.run t) { s with data, code := Function.update s.code t (more ++ rest) }
  | enter {t e data code} : s.code t = [] → M.enter s.data t e = some (data, code) →
      Step s (.enter t e) { s with data, code := Function.update s.code t code }

variable {M} in
theorem step_cases {s s' : State Thread Mutex Act Data} {e : Event Thread Entry}
    (h : M.step s e = some s') : M.Step s e s' := by
  cases e with
  | run t =>
    simp only [step, runThread] at h
    split at h
    · cases h
    · rename_i m rest hcode
      split at h
      · cases h
      · rename_i howner
        cases h
        exact .lock hcode howner
    · rename_i m rest hcode
      cases h
      exact .unlock hcode
    · rename_i a rest hcode
      obtain ⟨⟨data, more⟩, hexec, rfl⟩ := Option.map_eq_some_iff.mp h
      exact .act hcode hexec
  | enter t e =>
    simp only [step] at h
    split at h
    · cases h
    · rename_i hcode
      obtain ⟨⟨data, code⟩, henter, rfl⟩ := Option.map_eq_some_iff.mp h
      exact .enter hcode henter

end Machine

/-! ### Lock discipline -/

/-- No lock is taken twice or given back unheld, and none is left at the end. `needs` is what an act
asks of the locks held. -/
def Orderly (needs : Act → (Mutex → Prop) → Prop) :
    (Mutex → Prop) → List (Op Mutex Act) → Prop
  | held, [] => ∀ m, ¬ held m
  | held, .lock m :: rest => ¬ held m ∧ Orderly needs (fun n => n = m ∨ held n) rest
  | held, .unlock m :: rest => held m ∧ Orderly needs (fun n => n ≠ m ∧ held n) rest
  | held, .act a :: rest => needs a held ∧ Orderly needs held rest

def State.holds (s : State Thread Mutex Act Data) (t : Thread) (m : Mutex) : Prop :=
  s.owner m = some t

def Disciplined (needs : Act → (Mutex → Prop) → Prop)
    (s : State Thread Mutex Act Data) : Prop := ∀ t, Orderly needs (s.holds t) (s.code t)

/-- A thread is about to take a lock that it holds. -/
def Relocks (s : State Thread Mutex Act Data) : Prop :=
  ∃ t m rest, s.code t = .lock m :: rest ∧ s.owner m = some t

section
variable {needs : Act → (Mutex → Prop) → Prop}
  {s s' : State Thread Mutex Act Data}

theorem Disciplined.not_relocks (h : Disciplined needs s) : ¬ Relocks s := by
  rintro ⟨t, m, rest, hcode, howner⟩
  have ht := h t
  rw [hcode] at ht
  exact ht.1 howner

theorem Disciplined.act (h : Disciplined needs s) {t : Thread} {a : Act} {rest : List (Op Mutex Act)}
    (hcode : s.code t = .act a :: rest) :
    needs a (s.holds t) ∧ Orderly needs (s.holds t) rest := by
  have ht := h t
  rw [hcode] at ht
  exact ht

/-- A thread at rest holds nothing. -/
theorem Disciplined.rest (h : Disciplined needs s) {t : Thread} (hcode : s.code t = []) (m : Mutex) :
    s.owner m ≠ some t := by
  have ht := h t
  rw [hcode] at ht
  exact ht m

theorem disciplined_atRest (data : Data) :
    Disciplined needs (atRest data : State Thread Mutex Act Data) := by
  intro t m hm
  cases hm

/-- A change of one thread's code that is orderly for the locks it holds. -/
theorem Disciplined.update [DecidableEq Thread] (h : Disciplined needs s) {t : Thread} {code : List (Op Mutex Act)}
    (hcode : Orderly needs (s.holds t) code) (data : Data) :
    Disciplined needs { s with data, code := Function.update s.code t code } := by
  intro u
  change Orderly needs (s.holds u) (Function.update s.code t code u)
  by_cases hu : u = t
  · subst hu
    simpa using hcode
  · simpa [hu] using h u

/-- What is held once a lock is taken and given back. -/
theorem unlock_lock {held : Mutex → Prop} {m : Mutex} (h : ¬ held m) :
    (fun n => n ≠ m ∧ (n = m ∨ held n)) = held := by
  funext n
  by_cases hn : n = m
  · subst hn
    simpa using h
  · simp [hn]

theorem holds_lock [DecidableEq Mutex] (s : State Thread Mutex Act Data) {t : Thread} {m : Mutex}
    (hfree : s.owner m = none) (u : Thread) (n : Mutex) :
    Function.update s.owner m (some t) n = some u ↔ (u = t ∧ n = m) ∨ s.owner n = some u := by
  by_cases hn : n = m
  · subst hn
    simp [hfree, eq_comm]
  · simp [hn]

theorem holds_unlock [DecidableEq Mutex] (s : State Thread Mutex Act Data) {m : Mutex} (u : Thread) (n : Mutex) :
    Function.update s.owner m none n = some u ↔ n ≠ m ∧ s.owner n = some u := by
  by_cases hn : n = m
  · subst hn
    simp
  · simp [hn]

/-- Every step keeps the discipline if what its act leaves to do is orderly. -/
theorem Disciplined.step [DecidableEq Thread] [DecidableEq Mutex]
    {M : Machine Thread Mutex Act Entry Data} {e : Event Thread Entry} (h : Disciplined needs s)
    (hstep : M.step s e = some s')
    (hact : ∀ t a rest data more, e = .run t → s.code t = .act a :: rest →
      M.exec s.busy s.data t a = some (data, more) → needs a (s.holds t) →
      Orderly needs (s.holds t) rest → Orderly needs (s.holds t) (more ++ rest))
    (henter : ∀ t x data code, M.enter s.data t x = some (data, code) →
      Orderly needs (fun _ => False) code) : Disciplined needs s' := by
  cases Machine.step_cases hstep with
  | @lock t m rest hcode hfree =>
    have hown := h t
    rw [hcode] at hown
    intro u
    have hholds : State.holds { s with
        owner := Function.update s.owner m (some t), code := Function.update s.code t rest } u =
        fun n => (u = t ∧ n = m) ∨ s.holds u n :=
      funext fun n => propext (holds_lock s hfree u n)
    rw [hholds]
    by_cases hu : u = t
    · subst hu
      simpa using hown.2
    · simpa [hu] using h u
  | @unlock t m rest hcode =>
    have hown := h t
    rw [hcode] at hown
    intro u
    have hholds : State.holds { s with
        owner := Function.update s.owner m none, code := Function.update s.code t rest } u =
        fun n => n ≠ m ∧ s.holds u n :=
      funext fun n => propext (holds_unlock s u n)
    rw [hholds]
    by_cases hu : u = t
    · subst hu
      simpa using hown.2
    · have hkept : (fun n => n ≠ m ∧ s.holds u n) = s.holds u := by
        funext n
        refine propext ⟨And.right, fun hn => ⟨?_, hn⟩⟩
        -- the lock given back was held by the thread that ran
        rintro rfl
        exact hu (Option.some.inj (hn.symm.trans hown.1))
      simpa [hu, hkept] using h u
  | @act t a rest data more hcode hexec =>
    obtain ⟨hneeds, hrest⟩ := h.act hcode
    exact h.update (hact t a rest data more rfl hcode hexec hneeds hrest) data
  | @enter t x data code hcode henters =>
    have hfree : s.holds t = fun _ => False := funext fun m => eq_false (h.rest hcode m)
    apply h.update _ data
    rw [hfree]
    exact henter t x data code henters

end

/-! ### Runs -/

section
variable [DecidableEq Thread] [DecidableEq Mutex] {M : Machine Thread Mutex Act Entry Data}
  {s : State Thread Mutex Act Data}

theorem after_concat {events : List (Event Thread Entry)} {e : Event Thread Entry}
    {s' : State Thread Mutex Act Data} : M.after s (events ++ [e]) = some s' ↔
      ∃ mid, M.after s events = some mid ∧ M.step mid e = some s' := by
  simp only [Machine.after, List.foldlM_append, List.foldlM_cons, List.foldlM_nil]
  cases events.foldlM M.step s with
  | none => simp
  | some mid =>
    simp only [Option.bind_eq_bind, Option.bind_some, Option.some.injEq, exists_eq_left']
    cases M.step mid e <;> simp

/-- A property that an invariant gives, and that a step taken without leave ends, holds all along a
run exactly when each of its steps has leave. -/
theorem holds_iff_meets {I P : State Thread Mutex Act Data → Prop}
    {leave : State Thread Mutex Act Data → Event Thread Entry → Prop} (hs : I s)
    (hP : ∀ t, I t → P t)
    (hkeeps : ∀ t e t', I t → leave t e → M.step t e = some t' → I t')
    (hends : ∀ t e t', I t → ¬ leave t e → M.step t e = some t' → ¬ P t')
    (events : List (Event Thread Entry)) :
    (∀ past, past <+: events → ∀ t, M.after s past = some t → P t) ↔
      ∀ past e, past ++ [e] <+: events → ∀ t t', M.after s past = some t →
        M.step t e = some t' → leave t e := by
  have hreach : (∀ past e, past ++ [e] <+: events → ∀ t t', M.after s past = some t →
      M.step t e = some t' → I t → leave t e) →
      ∀ past, past <+: events → ∀ t, M.after s past = some t → I t := by
    intro hleave past
    induction past using List.reverseRecOn with
    | nil =>
      intro _ t ht
      cases ht
      exact hs
    | append_singleton past e ih =>
      intro hpre t ht
      obtain ⟨mid, hmid, hstep⟩ := after_concat.mp ht
      have hbefore : past <+: events := (List.prefix_append past [e]).trans hpre
      have hI := ih hbefore mid hmid
      exact hkeeps mid e t hI (hleave past e hpre mid t hmid hstep hI) hstep
  constructor
  · intro hholds
    have hleave : ∀ past e, past ++ [e] <+: events → ∀ t t', M.after s past = some t →
        M.step t e = some t' → I t → leave t e := by
      intro past e hpre t t' ht hstep hI
      by_contra hno
      exact hends t e t' hI hno hstep (hholds _ hpre t' (after_concat.mpr ⟨t, ht, hstep⟩))
    intro past e hpre t t' ht hstep
    have hbefore : past <+: events := (List.prefix_append past [e]).trans hpre
    exact hleave past e hpre t t' ht hstep (hreach hleave past hbefore t ht)
  · intro hmeets past hpre t ht
    exact hP t (hreach (fun past e hpre t t' ht hstep _ => hmeets past e hpre t t' ht hstep)
      past hpre t ht)

end

end NdimonR.Threads
