import Mathlib.Data.List.Infix
import Mathlib.Data.List.Nodup
import Mathlib.Data.List.Sublists
import Mathlib.Logic.Function.Basic

/-! Events pushed to the subscribers of the decoder's socket: one line each, sent without waiting. -/

namespace NdimonR.Decoder.EventStream

/-- What a send that does not wait returns. -/
inductive Sent where
  | accepted (count : ℕ)
  | again
  | failed

structure IPCServer where
  subscribers : List ℕ := []
  /-- What each descriptor has received since it was last handed out. -/
  received : ℕ → List UInt8 := fun _ => []

inductive Act (Event : Type) where
  | subscribe (fd : ℕ)
  | push (event : Event) (send : ℕ → Sent)

section
variable {Event : Type} (dump : Event → List UInt8)

def line (event : Event) : List UInt8 := dump event ++ [10]

/-- What is sent to one subscriber, and whether it is dead. -/
def sendLine (msg : List UInt8) (send : ℕ → Sent) (received : ℕ → List UInt8) (dead : List ℕ)
    (fd : ℕ) : (ℕ → List UInt8) × List ℕ :=
  match send fd with
  | .accepted n => (Function.update received fd (received fd ++ msg.take n), dead)
  -- a slow subscriber loses this event
  | .again => (received, dead)
  | .failed => (received, dead ++ [fd])

def pushEvent (s : IPCServer) (event : Event) (send : ℕ → Sent) : IPCServer :=
  let sent := s.subscribers.foldl (fun p fd => sendLine (line dump event) send p.1 p.2 fd)
    (s.received, [])
  { subscribers := sent.2.foldl (fun l fd => l.filter (· ≠ fd)) s.subscribers
    received := sent.1 }

/-- The kernel hands out no descriptor that is open. -/
def subscribe (s : IPCServer) (fd : ℕ) : IPCServer :=
  if fd ∈ s.subscribers then s
  else
    { subscribers := s.subscribers ++ [fd], received := Function.update s.received fd [] }

def step (s : IPCServer) : Act Event → IPCServer
  | .subscribe fd => subscribe s fd
  | .push event send => pushEvent dump s event send

def run (acts : List (Act Event)) : IPCServer := acts.foldl (step dump) {}

def lines (acts : List (Act Event)) : List (List UInt8) :=
  acts.filterMap fun
    | .push event _ => some (line dump event)
    | .subscribe _ => none

/-- A beginning of some of the lines, each whole and in their order. -/
def Framed (lines : List (List UInt8)) (r : List UInt8) : Prop :=
  ∃ l : List (List UInt8), l.Sublist lines ∧ r <+: l.flatten

def AtLineEnd (r : List UInt8) : Prop := r = [] ∨ r.getLast? = some 10

/-- No bytes are accepted for a subscriber that is inside a line. -/
def Meets (s : IPCServer) : Act Event → Prop
  | .subscribe _ => True
  | .push _ send =>
    ∀ fd ∈ s.subscribers, ∀ n, send fd = .accepted n → 0 < n → AtLineEnd (s.received fd)

/-- What of an act concerns one descriptor. -/
inductive View (Event : Type) where
  | subscribe
  | push (event : Event) (sent : Sent)

def view (fd : ℕ) (acts : List (Act Event)) : List (View Event) :=
  acts.filterMap fun
    | .subscribe fd' => if fd' = fd then some .subscribe else none
    | .push event send => some (.push event (send fd))

/-! ### One push -/

variable {dump}

/-- What a push does to one descriptor, for as long as each stands in the list once. -/
def after (msg : List UInt8) (sent : Sent) (r : List UInt8) : List UInt8 :=
  match sent with
  | .accepted n => r ++ msg.take n
  | _ => r

theorem sendLine_fold (msg : List UInt8) (send : ℕ → Sent) {l : List ℕ} (hl : l.Nodup)
    (received : ℕ → List UInt8) (dead : List ℕ) :
    let sent := l.foldl (fun p fd => sendLine msg send p.1 p.2 fd) (received, dead)
    (∀ fd, sent.1 fd = if fd ∈ l then after msg (send fd) (received fd) else received fd) ∧
      ∀ fd, fd ∈ sent.2 ↔ fd ∈ dead ∨ fd ∈ l ∧ send fd = .failed := by
  induction l generalizing received dead with
  | nil => simp
  | cons first l ih =>
    obtain ⟨hfirst, hl⟩ := List.nodup_cons.mp hl
    have hrest := ih hl (sendLine msg send received dead first).1
      (sendLine msg send received dead first).2
    simp only [List.foldl_cons] at hrest ⊢
    refine ⟨fun fd => ?_, fun fd => ?_⟩
    · rw [hrest.1 fd]
      by_cases hfd : fd = first
      · subst hfd
        rw [if_neg hfirst, if_pos List.mem_cons_self, sendLine]
        cases send fd <;> simp [after]
      · have hsame : (sendLine msg send received dead first).1 fd = received fd := by
          rw [sendLine]
          cases send first <;> simp [hfd]
        simp only [hsame, List.mem_cons, hfd, false_or]
    · rw [hrest.2 fd]
      have hdead : fd ∈ (sendLine msg send received dead first).2 ↔
          fd ∈ dead ∨ fd = first ∧ send fd = .failed := by
        rw [sendLine]
        by_cases hfd : fd = first
        · subst hfd
          cases send fd <;> simp
        · cases send first <;> simp [hfd]
      rw [hdead, List.mem_cons]
      tauto

theorem filter_fold (dead l : List ℕ) :
    dead.foldl (fun l fd => l.filter (· ≠ fd)) l = l.filter (· ∉ dead) := by
  induction dead generalizing l with
  | nil => simp
  | cons fd dead ih =>
    rw [List.foldl_cons, ih, List.filter_filter]
    apply List.filter_congr
    intro a _
    simp only [List.mem_cons, not_or, ← Bool.decide_and, and_comm]

structure Pushed (s s' : IPCServer) (msg : List UInt8) (send : ℕ → Sent) : Prop where
  received : ∀ fd, s'.received fd =
    if fd ∈ s.subscribers then after msg (send fd) (s.received fd) else s.received fd
  subscribers : ∀ fd, fd ∈ s'.subscribers ↔ fd ∈ s.subscribers ∧ send fd ≠ .failed
  once : s'.subscribers.Nodup

theorem pushEvent_pushed {s : IPCServer} (hs : s.subscribers.Nodup) (event : Event)
    (send : ℕ → Sent) : Pushed s (pushEvent dump s event send) (line dump event) send := by
  obtain ⟨hreceived, hdead⟩ := sendLine_fold (line dump event) send hs s.received []
  refine ⟨hreceived, fun fd => ?_, ?_⟩
  · simp only [pushEvent, filter_fold, List.mem_filter, decide_eq_true_eq]
    rw [hdead fd]
    simp only [List.not_mem_nil, false_or]
    tauto
  · simp only [pushEvent, filter_fold]
    exact hs.filter _

theorem subscribers_once (acts : List (Act Event)) : (run dump acts).subscribers.Nodup := by
  induction acts using List.reverseRecOn with
  | nil => exact List.nodup_nil
  | append_singleton acts a ih =>
    rw [run, List.foldl_append]
    change (step dump (run dump acts) a).subscribers.Nodup
    cases a with
    | push event send => exact (pushEvent_pushed ih event send).once
    | subscribe fd =>
      rw [step, subscribe]
      split_ifs with hfd
      · exact ih
      · exact List.nodup_append_comm.mp (List.nodup_cons.mpr ⟨hfd, ih⟩)

/-! ### Framing -/

theorem Framed.mono {lines more : List (List UInt8)} {r : List UInt8} (h : Framed lines r) :
    Framed (lines ++ more) r := by
  obtain ⟨l, hl, hr⟩ := h
  exact ⟨l, hl.trans (List.sublist_append_left lines more), hr⟩

/-- What ends at the end of a line consists of whole lines. -/
theorem whole_lines {l : List (List UInt8)} (hl : ∀ x ∈ l, ∃ text, x = text ++ [10] ∧ 10 ∉ text)
    {r : List UInt8} (hr : r <+: l.flatten) (hend : AtLineEnd r) :
    ∃ l', l' <+: l ∧ r = l'.flatten := by
  induction l generalizing r with
  | nil =>
    rw [List.flatten_nil, List.prefix_nil] at hr
    exact ⟨[], List.prefix_rfl, hr⟩
  | cons x l ih =>
    rcases hend with rfl | hend
    · exact ⟨[], List.nil_prefix, rfl⟩
    · obtain ⟨text, rfl, htext⟩ := hl x List.mem_cons_self
      rw [List.flatten_cons] at hr
      rcases List.prefix_or_prefix_of_prefix hr (List.prefix_append (text ++ [10]) l.flatten) with
        hshort | ⟨rest, rfl⟩
      · -- it ends inside the first line, and so at its end
        obtain ⟨left, hleft⟩ := hshort
        rcases List.eq_nil_or_concat left with rfl | ⟨left, b, rfl⟩
        · rw [List.append_nil] at hleft
          exact ⟨[text ++ [10]], by simp, by simp [hleft]⟩
        · exfalso
          rw [List.concat_eq_append, ← List.append_assoc] at hleft
          have htext' : r ++ left = text := (List.append_inj' hleft rfl).1
          apply htext
          rw [← htext']
          exact List.mem_append_left left (List.mem_of_getLast? hend)
      · have hrest := (List.prefix_append_right_inj _).mp hr
        have hrest' : AtLineEnd rest := by
          rcases List.eq_nil_or_concat rest with rfl | ⟨init, b, rfl⟩
          · exact .inl rfl
          · right
            rw [List.concat_eq_append, ← List.append_assoc, List.getLast?_concat] at hend
            rw [List.concat_eq_append, List.getLast?_concat]
            exact hend
        obtain ⟨l', hl', rfl⟩ := ih (fun y hy => hl y (List.mem_cons_of_mem _ hy)) hrest hrest'
        exact ⟨(text ++ [10]) :: l', (List.prefix_cons_inj _).mpr hl', rfl⟩

theorem lines_end (hdump : ∀ e, 10 ∉ dump e) (acts : List (Act Event)) :
    ∀ x ∈ lines dump acts, ∃ text, x = text ++ [10] ∧ 10 ∉ text := by
  intro x hx
  obtain ⟨a, -, ha⟩ := List.mem_filterMap.mp hx
  cases a with
  | subscribe fd => cases ha
  | push event send =>
    cases ha
    exact ⟨dump event, rfl, hdump event⟩

/-- The beginning of the next line, after whole lines. -/
theorem Framed.line {lines : List (List UInt8)} {r : List UInt8} (h : Framed lines r)
    (hlines : ∀ x ∈ lines, ∃ text, x = text ++ [10] ∧ 10 ∉ text) (hend : AtLineEnd r)
    (msg : List UInt8) (n : ℕ) : Framed (lines ++ [msg]) (r ++ msg.take n) := by
  obtain ⟨l, hl, hr⟩ := h
  obtain ⟨l', hl', rfl⟩ := whole_lines (fun x hx => hlines x (hl.subset hx)) hr hend
  refine ⟨l' ++ [msg], (hl'.sublist.trans hl).append (List.Sublist.refl [msg]), ?_⟩
  rw [List.flatten_append, List.flatten_singleton]
  exact (List.prefix_append_right_inj _).mpr (List.take_prefix n msg)

theorem framed_step (hdump : ∀ e, 10 ∉ dump e) (acts : List (Act Event)) (a : Act Event)
    (hmeets : Meets (run dump acts) a)
    (h : ∀ fd, Framed (lines dump acts) ((run dump acts).received fd)) (fd : ℕ) :
    Framed (lines dump (acts ++ [a])) ((run dump (acts ++ [a])).received fd) := by
  have hrun : run dump (acts ++ [a]) = step dump (run dump acts) a := List.foldl_append
  have hlines : lines dump (acts ++ [a]) = lines dump acts ++ lines dump [a] :=
    List.filterMap_append
  rw [hrun, hlines]
  cases a with
  | subscribe fd' =>
    rw [step, subscribe]
    split_ifs
    · exact (h fd).mono
    · by_cases hfd : fd = fd'
      · subst hfd
        simp only [Function.update_self]
        exact ⟨[], List.nil_sublist _, List.nil_prefix⟩
      · simp only [Function.update_of_ne hfd]
        exact (h fd).mono
  | push event send =>
    rw [step, (pushEvent_pushed (subscribers_once acts) event send).received fd]
    split_ifs with hfd
    · cases hsent : send fd with
      | accepted n =>
        rcases Nat.eq_zero_or_pos n with rfl | hn
        · simpa [after] using (h fd).mono
        · exact (h fd).line (lines_end hdump acts) (hmeets fd hfd n hsent hn) _ n
      | again => exact (h fd).mono
      | failed => exact (h fd).mono
    · exact (h fd).mono

/-! ### One subscriber and the others -/

/-- Whether a descriptor subscribes and what it has received, from what concerns it alone. -/
def stepView (dump : Event → List UInt8) (p : Bool × List UInt8) : View Event → Bool × List UInt8
  | .subscribe => if p.1 then p else (true, [])
  | .push event sent =>
    if p.1 then (match sent with | .failed => false | _ => true, after (line dump event) sent p.2)
    else p

theorem run_view (acts : List (Act Event)) (fd : ℕ) :
    (fd ∈ (run dump acts).subscribers ↔
        ((view fd acts).foldl (stepView dump) (false, [])).1 = true) ∧
      (run dump acts).received fd = ((view fd acts).foldl (stepView dump) (false, [])).2 := by
  induction acts using List.reverseRecOn with
  | nil => simp [run, view]
  | append_singleton acts a ih =>
    have hrun : run dump (acts ++ [a]) = step dump (run dump acts) a := List.foldl_append
    have hview : view fd (acts ++ [a]) = view fd acts ++ view fd [a] := List.filterMap_append
    obtain ⟨hmember, hreceived⟩ := ih
    rw [hrun, hview, List.foldl_append]
    generalize (view fd acts).foldl (stepView dump) (false, []) = p at hmember hreceived ⊢
    obtain ⟨known, r⟩ := p
    subst hreceived
    cases a with
    | subscribe fd' =>
      by_cases hfd : fd' = fd
      · subst hfd
        cases known <;> simp [view, step, subscribe, stepView, hmember]
      · have hfd' : fd ≠ fd' := Ne.symm hfd
        by_cases hmem : fd' ∈ (run dump acts).subscribers
        · simp [view, step, subscribe, hfd, hmem, hmember]
        · simp [view, step, subscribe, hfd, hfd', hmem, hmember]
    | push event send =>
      have hpushed : Pushed (run dump acts) _ (line dump event) send :=
        pushEvent_pushed (subscribers_once acts) event send
      rw [step, hpushed.received fd, hpushed.subscribers fd]
      cases known with
      | false => simp [view, stepView, hmember]
      | true => cases hsent : send fd <;> simp [view, stepView, hmember, hsent]

end

/-- In a run where nothing is accepted for a subscriber inside a line every stream is a beginning of
whole lines in push order, and what one descriptor receives in any run is decided by what concerns
it. -/
theorem events_framed {Event : Type} {dump : Event → List UInt8} (hdump : ∀ e, 10 ∉ dump e) :
    (∀ acts : List (Act Event),
      (∀ past a, past ++ [a] <+: acts → Meets (run dump past) a) →
        ∀ past, past <+: acts → ∀ fd, Framed (lines dump past) ((run dump past).received fd)) ∧
    ∀ (acts acts' : List (Act Event)) (fd : ℕ), view fd acts = view fd acts' →
      (run dump acts).received fd = (run dump acts').received fd := by
  constructor
  · intro acts hmeets past hpast
    induction past using List.reverseRecOn with
    | nil => exact fun fd => ⟨[], List.nil_sublist _, List.nil_prefix⟩
    | append_singleton past a ih =>
      have hbefore : past <+: acts := (List.prefix_append past [a]).trans hpast
      exact framed_step hdump past a (hmeets past a hpast) (ih hbefore)
  · intro acts acts' fd hview
    rw [(run_view acts fd).2, (run_view acts' fd).2, hview]

/-- The texts of the runs below. -/
def sample : Bool → List UInt8
  | true => [123, 125]
  | false => [123, 49, 125]

/-- All of the first line is accepted and the beginning of the second. -/
def stalling : List (Act Bool) :=
  [.subscribe 5, .push true fun _ => .accepted 3, .push false fun _ => .accepted 1]

theorem stalling_framed : Framed (lines sample stalling) ((run sample stalling).received 5) := by
  refine (events_framed ?_).1 stalling ?_ stalling List.prefix_rfl 5
  · intro e
    cases e <;> simp [sample]
  · intro past a hpast
    obtain ⟨rest, hrest⟩ := hpast
    rcases past with _ | ⟨b, _ | ⟨c, _ | ⟨d, past⟩⟩⟩
    · cases hrest
      trivial
    · cases hrest
      exact fun fd _ n _ _ => .inl (by simp [run, step, subscribe])
    · cases hrest
      intro fd hfd n _ _
      obtain rfl : fd = 5 := List.mem_singleton.mp hfd
      exact .inr rfl
    · simp [stalling] at hrest

/-- The rest of a line that was accepted in part is never sent, and the next line follows its
beginning. -/
theorem events_joined :
    ¬ ∀ (acts : List (Act Bool)) (fd : ℕ),
      Framed (lines sample acts) ((run sample acts).received fd) := by
  intro h
  obtain ⟨l, hl, hr⟩ := h [.subscribe 5, .push true fun _ => .accepted 1,
    .push true fun _ => .accepted 3] 5
  have hcuts : ∀ l ∈ [[123, 125, 10], [123, 125, 10]].sublists,
      ¬ ([123, 123, 125, 10] : List UInt8) <+: l.flatten := by decide
  exact hcuts l (List.mem_sublists.mpr hl) hr

end NdimonR.Decoder.EventStream
