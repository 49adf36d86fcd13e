import NdimonR.Delivery.Deliver
import NdimonR.Delivery.Followers

/-! A delivery that succeeds leaves the follower showing what was delivered, and one that loses no
message succeeds. -/

namespace NdimonR.Delivery

open Json Decoder

variable {σ : Type} {F : Follower σ} {Proper : σ → Prop} {Saved : Json → Prop}

/-- What control sends. -/
inductive Request : Json → Prop
  | status : Request statusRequest
  | apply (revision : Nat) (config : SortedMap String Json) (reset : Bool) :
      Request (applyRequest revision config reset)

theorem applyRequest_ne_status {revision : Nat} {config : SortedMap String Json} {reset : Bool} :
    applyRequest revision config reset ≠ statusRequest := by
  intro h
  have hget := congrArg (Json.get "revision") h
  rw [get_applyRequest.2.2.1] at hget
  cases hget

namespace World

/-- What is answered was sent before everything in flight, and while nothing newer was sent the
follower shows the content of an accepted request. -/
structure Inv (Proper : σ → Prop) (Saved : Json → Prop) (w : World F) : Prop where
  proper : Proper w.follower
  saved : ∀ j, w.saved = some j → Saved j
  durable : w.durable = true → ∃ j, w.saved = some j ∧
    (w.intact = true → F.Alike w.follower (F.restore j))
  ordered : w.inFlight.Pairwise (fun p q => p.id < q.id)
  pending : ∀ q ∈ w.inFlight, q.id < w.sent ∧ Request q.command
  answered : ∀ a ∈ w.replies, a.id < w.sent ∧ ∀ q ∈ w.inFlight, a.id < q.id
  acknowledged : ∀ a ∈ w.replies, ∀ revision config reset,
    a.command = applyRequest revision config reset → isOk a.reply = true →
      Json.get "revision" a.reply = some (.int revision) ∧
      (a.id + 1 = w.sent → w.intact = true → F.Shows revision config w.follower)

variable {w : World F}

theorem Inv.nothing_in_flight (h : Inv Proper Saved w) {a : Reply} (ha : a ∈ w.replies)
    (hlast : a.id + 1 = w.sent) : w.inFlight = [] := by
  refine List.eq_nil_iff_forall_not_mem.mpr fun q hq => ?_
  have hlate := (h.answered a ha).2 q hq
  have hsent := (h.pending q hq).1
  omega

theorem Inv.send (h : Inv Proper Saved w) {command : Json} (hc : Request command) :
    Inv Proper Saved (w.send command) where
  proper := h.proper
  saved := h.saved
  durable := h.durable
  ordered := by
    refine List.pairwise_append.mpr ⟨h.ordered, List.pairwise_singleton _ _, ?_⟩
    intro p hp q hq
    obtain rfl := List.mem_singleton.mp hq
    exact (h.pending p hp).1
  pending q hq := by
    rcases List.mem_append.mp hq with hq | hq
    · obtain ⟨hsent, hrequest⟩ := h.pending q hq
      exact ⟨Nat.lt_succ_of_lt hsent, hrequest⟩
    · obtain rfl := List.mem_singleton.mp hq
      exact ⟨Nat.lt_succ_self _, hc⟩
  answered a ha := by
    obtain ⟨hsent, hlate⟩ := h.answered a ha
    refine ⟨Nat.lt_succ_of_lt hsent, fun q hq => ?_⟩
    rcases List.mem_append.mp hq with hq | hq
    · exact hlate q hq
    · obtain rfl := List.mem_singleton.mp hq
      exact hsent
  acknowledged a ha revision config reset hcommand hok := by
    obtain ⟨hrevision, _⟩ := h.acknowledged a ha revision config reset hcommand hok
    refine ⟨hrevision, fun hlast => ?_⟩
    have hsent := (h.answered a ha).1
    have hnext : a.id + 1 = w.sent + 1 := hlast
    omega

/-- Some requests are gone, and the follower shows the same where it is intact. -/
theorem Inv.quiet (h : Inv Proper Saved w) {w' : World F} (hproper : Proper w'.follower)
    (hsaved : w'.saved = w.saved) (hdurable : w'.durable = w.durable)
    (hflight : w'.inFlight.Sublist w.inFlight) (hreplies : w'.replies = w.replies)
    (hsent : w'.sent = w.sent)
    (hintact : w'.intact = true → w.intact = true ∧ F.Alike w.follower w'.follower) :
    Inv Proper Saved w' where
  proper := hproper
  saved := by rw [hsaved]; exact h.saved
  durable hd := by
    rw [hdurable] at hd
    obtain ⟨j, hj, halike⟩ := h.durable hd
    refine ⟨j, hsaved.trans hj, fun hi => ?_⟩
    obtain ⟨hbefore, hsame⟩ := hintact hi
    have hrestored := halike hbefore
    exact ⟨hrestored.revision.trans hsame.revision.symm,
      fun k => (hrestored.document k).trans (hsame.document k).symm⟩
  ordered := h.ordered.sublist hflight
  pending q hq := by
    rw [hsent]
    exact h.pending q (hflight.subset hq)
  answered a ha := by
    rw [hreplies] at ha
    rw [hsent]
    exact ⟨(h.answered a ha).1, fun q hq => (h.answered a ha).2 q (hflight.subset hq)⟩
  acknowledged a ha revision config reset hcommand hok := by
    rw [hreplies] at ha
    obtain ⟨hrevision, hshows⟩ := h.acknowledged a ha revision config reset hcommand hok
    refine ⟨hrevision, fun hlast hi => ?_⟩
    obtain ⟨hbefore, hsame⟩ := hintact hi
    exact Follower.Shows.alike F (hshows (hlast.trans hsent) hbefore) hsame

/-- The oldest request gets its reply; `hnew` is what a positive one says. -/
theorem Inv.reply (h : Inv Proper Saved w) {q : Sent} {rest : List Sent} {reply : Json}
    {w' : World F} (hflight : w.inFlight = q :: rest) (hproper : Proper w'.follower)
    (hsaved : ∀ j, w'.saved = some j → Saved j)
    (hdurable : w'.durable = true → ∃ j, w'.saved = some j ∧
      (w'.intact = true → F.Alike w'.follower (F.restore j)))
    (hrest : w'.inFlight = rest) (hreplies : w'.replies = ⟨q.id, q.command, reply⟩ :: w.replies)
    (hsent : w'.sent = w.sent)
    (hnew : ∀ revision config reset, q.command = applyRequest revision config reset →
      isOk reply = true → Json.get "revision" reply = some (.int revision) ∧
        F.Shows revision config w'.follower) : Inv Proper Saved w' := by
  have hordered := h.ordered
  rw [hflight] at hordered
  obtain ⟨hlate, hordered⟩ := List.pairwise_cons.mp hordered
  have hq : q ∈ w.inFlight := by rw [hflight]; exact List.mem_cons_self
  have hmem : ∀ p ∈ w'.inFlight, p ∈ w.inFlight := by
    intro p hp
    rw [hflight]
    exact List.mem_cons_of_mem _ (hrest ▸ hp)
  refine ⟨hproper, hsaved, hdurable, by rw [hrest]; exact hordered, ?_, ?_, ?_⟩
  · intro p hp
    rw [hsent]
    exact h.pending p (hmem p hp)
  · intro a ha
    rw [hreplies] at ha
    rw [hsent]
    rcases List.mem_cons.mp ha with rfl | ha
    · exact ⟨(h.pending q hq).1, fun p hp => hlate p (hrest ▸ hp)⟩
    · exact ⟨(h.answered a ha).1, fun p hp => (h.answered a ha).2 p (hmem p hp)⟩
  · intro a ha revision config reset hcommand hok
    rw [hreplies] at ha
    rcases List.mem_cons.mp ha with rfl | ha
    · obtain ⟨hrevision, hshows⟩ := hnew revision config reset hcommand hok
      exact ⟨hrevision, fun _ _ => hshows⟩
    · refine ⟨(h.acknowledged a ha revision config reset hcommand hok).1, fun hlast => ?_⟩
      have hnone := h.nothing_in_flight ha (hlast.trans hsent)
      rw [hflight] at hnone
      cases hnone

variable (laws : F.Laws Proper Saved)

include laws

theorem Inv.process (h : Inv Proper Saved w) (env : F.Env) (saves : Bool) :
    Inv Proper Saved (w.process env saves) := by
  unfold World.process
  cases hflight : w.inFlight with
  | nil => exact h
  | cons q rest =>
    have hrequest := (h.pending q (by rw [hflight]; exact List.mem_cons_self)).2
    have hkept : w.inFlight = q :: rest := hflight
    simp only
    generalize hcommand : q.command = command at hrequest
    cases hrequest with
    | status =>
      obtain ⟨hnext, hsnapshot, _⟩ := laws.status env w.follower
      rw [hsnapshot, hnext]
      refine h.reply hkept h.proper h.saved h.durable rfl (by rw [hcommand]) rfl ?_
      intro revision config reset happly
      exact absurd (happly.symm.trans hcommand) applyRequest_ne_status
    | apply revision config reset =>
      cases hok : isOk (F.answer env (applyRequest revision config reset) w.follower).reply with
      | false =>
        obtain ⟨hnext, hsnapshot⟩ := laws.refused env revision config reset w.follower hok
        rw [hsnapshot, hnext]
        refine h.reply hkept h.proper h.saved h.durable rfl (by rw [hcommand]) rfl ?_
        intro revision config reset _ hyes
        rw [hok] at hyes
        cases hyes
      | true =>
        obtain ⟨hproper, _, _, j, hsnapshot, hj, halike⟩ :=
          laws.accepted env revision config reset w.follower h.proper hok
        rw [hsnapshot]
        refine h.reply hkept hproper ?_ ?_ rfl (by rw [hcommand]) rfl ?_
        · intro i hi
          cases saves
          · exact h.saved i hi
          · obtain rfl := Option.some.inj hi
            exact hj
        · intro hsaves
          obtain rfl : saves = true := hsaves
          exact ⟨j, rfl, fun _ => halike⟩
        · intro revision' config' reset' happly hyes
          have hsame := happly.symm.trans hcommand
          rw [← hsame] at hyes ⊢
          obtain ⟨_, hshows, hrevision, _⟩ :=
            laws.accepted env revision' config' reset' w.follower h.proper hyes
          exact ⟨hrevision, hshows⟩

theorem Inv.restart (h : Inv Proper Saved w) (fromSaved : Bool) :
    Inv Proper Saved (w.restart fromSaved) := by
  have hproper : Proper (w.restart fromSaved).follower := by
    unfold World.restart
    cases hs : (if fromSaved then w.saved else none) with
    | none => exact laws.start
    | some j =>
      refine laws.restore j (h.saved j ?_)
      cases fromSaved
      · cases hs
      · exact hs
  refine h.quiet hproper rfl rfl (List.Sublist.refl _) rfl rfl fun hintact => ?_
  simp only [World.restart, Bool.and_eq_true] at hintact
  obtain ⟨⟨hbefore, rfl⟩, hdurable⟩ := hintact
  obtain ⟨j, hj, halike⟩ := h.durable hdurable
  refine ⟨hbefore, ?_⟩
  simp only [World.restart, if_pos, hj, Option.map_some, Option.getD_some]
  exact halike hbefore

theorem Inv.move (h : Inv Proper Saved w) (m : Move F) : Inv Proper Saved (w.move m) := by
  cases m with
  | process env saves => exact h.process laws env saves
  | lose id =>
    exact h.quiet h.proper rfl rfl List.filter_sublist rfl rfl
      fun hi => ⟨hi, ⟨rfl, fun _ => rfl⟩⟩
  | restart fromSaved => exact h.restart laws fromSaved
  | operate op =>
    obtain ⟨hproper, halike⟩ := laws.operate op w.follower h.proper
    exact h.quiet hproper rfl rfl (List.Sublist.refl _) rfl rfl fun hi => ⟨hi, halike⟩

theorem Inv.moves (h : Inv Proper Saved w) (ms : List (Move F)) :
    Inv Proper Saved (w.moves ms) := by
  induction ms generalizing w with
  | nil => exact h
  | cons m ms ih => exact ih (h.move laws m)

omit laws

/-- The last request sent is this one. -/
structure Latest (command : Json) (w : World F) : Prop where
  inFlight : ∀ q ∈ w.inFlight, q.id + 1 = w.sent → q.command = command
  replies : ∀ a ∈ w.replies, a.id + 1 = w.sent → a.command = command

theorem Latest.move {command : Json} (h : Latest command w) (m : Move F) :
    Latest command (w.move m) := by
  cases m with
  | process env saves =>
    simp only [World.move, World.process]
    cases hflight : w.inFlight with
    | nil => exact h
    | cons q rest =>
      have hreplies : ∀ a ∈ (⟨q.id, q.command, (F.answer env q.command w.follower).reply⟩ : Reply) ::
          w.replies, a.id + 1 = w.sent → a.command = command := by
        intro a ha hlast
        rcases List.mem_cons.mp ha with rfl | ha
        · exact h.inFlight q (by rw [hflight]; exact List.mem_cons_self) hlast
        · exact h.replies a ha hlast
      have hrest : ∀ p ∈ rest, p.id + 1 = w.sent → p.command = command := by
        intro p hp
        exact h.inFlight p (by rw [hflight]; exact List.mem_cons_of_mem _ hp)
      simp only
      cases (F.answer env q.command w.follower).snapshot with
      | none => exact ⟨hrest, hreplies⟩
      | some j => exact ⟨hrest, hreplies⟩
  | lose id => exact ⟨fun q hq => h.inFlight q (List.mem_filter.mp hq).1, h.replies⟩
  | restart fromSaved => exact ⟨h.inFlight, h.replies⟩
  | operate op => exact ⟨h.inFlight, h.replies⟩

theorem Latest.moves {command : Json} (h : Latest command w) (ms : List (Move F)) :
    Latest command (w.moves ms) := by
  induction ms generalizing w with
  | nil => exact h
  | cons m ms ih => exact ih (h.move m)

/-- What was just sent is the last request. -/
theorem Inv.latest (h : Inv Proper Saved w) (command : Json) : Latest command (w.send command) where
  inFlight q hq hlast := by
    have hnext : q.id + 1 = w.sent + 1 := hlast
    rcases List.mem_append.mp hq with hq | hq
    · have hsent := (h.pending q hq).1
      omega
    · rw [List.mem_singleton.mp hq]
  replies a ha hlast := by
    have hnext : a.id + 1 = w.sent + 1 := hlast
    have hsent := (h.answered a ha).1
    omega

/-- The last request sent was answered so. -/
def Told (command reply : Json) (w : World F) : Prop :=
  ∃ a ∈ w.replies, a.id + 1 = w.sent ∧ a.command = command ∧ a.reply = reply

theorem move_sent (w : World F) (m : Move F) :
    (w.move m).sent = w.sent ∧ ∀ a ∈ w.replies, a ∈ (w.move m).replies := by
  cases m with
  | process env saves =>
    simp only [World.move, World.process]
    cases w.inFlight with
    | nil => exact ⟨rfl, fun _ ha => ha⟩
    | cons q rest =>
      simp only
      cases (F.answer env q.command w.follower).snapshot with
      | none => exact ⟨rfl, fun _ ha => List.mem_cons_of_mem _ ha⟩
      | some j => exact ⟨rfl, fun _ ha => List.mem_cons_of_mem _ ha⟩
  | lose id => exact ⟨rfl, fun _ ha => ha⟩
  | restart fromSaved => exact ⟨rfl, fun _ ha => ha⟩
  | operate op => exact ⟨rfl, fun _ ha => ha⟩

theorem Told.moves {command reply : Json} (h : Told command reply w) (ms : List (Move F)) :
    Told command reply (w.moves ms) := by
  induction ms generalizing w with
  | nil => exact h
  | cons m ms ih =>
    obtain ⟨a, ha, hlast, htold⟩ := h
    obtain ⟨hsent, hkeeps⟩ := move_sent w m
    exact ih ⟨a, hkeeps a ha, hlast.trans hsent.symm, htold⟩

end World

/-! ### Control -/

/-- Whatever the surroundings do, the program keeps the invariant and gives `Q` with its value. -/
abbrev Ensures (Proper : σ → Prop) (Saved : Json → Prop) {α : Type}
    (p : Proc (World F) String α) (Q : α → World F → Prop) : Prop :=
  Proc.Sound (fun _ _ => True) (World.Inv Proper Saved) (fun _ => True) p Q

section

variable (laws : F.Laws Proper Saved) (floatText : ℚ → String)

include laws

theorem client_ensures {command : Json} (hc : Request command) :
    Ensures Proper Saved (client (F := F) command) (World.Told command) := by
  refine Proc.Spec.bind (Q := fun _ w => World.Latest command w) (Proc.Spec.modify ?_) fun _ => ?_
  · intro w h _
    exact ⟨.single trivial, h.send hc, h.latest command⟩
  refine Proc.Spec.bind (Q := fun _ w => World.Latest command w) (Proc.Spec.read fun _ _ h => h) ?_
  intro call
  refine Proc.Spec.bind (Q := fun _ w => World.Latest command w) (Proc.Spec.modify ?_) fun _ => ?_
  · intro w h hlatest
    have hrest : World.Inv Proper Saved { w with schedule := w.schedule.tail } :=
      ⟨h.proper, h.saved, h.durable, h.ordered, h.pending, h.answered, h.acknowledged⟩
    have hsame : World.Latest command { w with schedule := w.schedule.tail } :=
      ⟨hlatest.inFlight, hlatest.replies⟩
    exact ⟨.single trivial, hrest.moves laws _, hsame.moves _⟩
  refine Proc.Spec.bind (Q := fun _ w => World.Latest command w)
    (Proc.Spec.when (fun _ => Proc.Spec.stop) fun _ _ _ hlatest => hlatest) fun _ => ?_
  refine Proc.Spec.bind (Q := fun reply w => ∀ r, reply = some r → World.Told command r w)
    (Proc.Spec.read ?_) fun reply => Proc.Spec.ofExcept ?_ fun _ _ _ _ _ => trivial
  · intro w h hlatest r hr
    obtain ⟨a, ha, rfl⟩ := Option.map_eq_some_iff.mp hr
    have hmem := List.mem_of_find?_eq_some ha
    have hlast : a.id + 1 = w.sent := by simpa using List.find?_some ha
    exact ⟨a, hmem, hlast, hlatest.replies a hmem hlast, rfl⟩
  · intro r w hr _ htold
    cases hf : call.failure with
    | some e =>
      rw [hf] at hr
      cases hr
    | none =>
      rw [hf] at hr
      cases reply with
      | none => cases hr
      | some r' =>
        obtain rfl := Except.ok.inj hr
        exact htold r' rfl

omit laws in
theorem settled_ok {reply r : Json} (h : settled floatText reply = .ok r) :
    r = reply ∧ isOk reply = true := by
  unfold settled at h
  split at h
  · rename_i hok
    exact ⟨(Except.ok.inj h).symm, hok⟩
  · cases h

theorem requestFrom_ensures {command : Json} (hc : Request command) (remaining : Nat) :
    Ensures Proper Saved (requestFrom (F := F) floatText command remaining)
      (fun reply w => World.Told command reply w ∧ isOk reply = true) := by
  induction remaining with
  | zero =>
    refine Proc.Spec.bind (client_ensures laws hc) fun reply =>
      Proc.Spec.ofExcept ?_ fun _ _ _ _ _ => trivial
    intro r w hr _ htold
    obtain ⟨rfl, hok⟩ := settled_ok floatText hr
    exact ⟨htold, hok⟩
  | succ remaining ih =>
    refine Proc.Spec.bind (Proc.Spec.attempt (client_ensures laws hc)) fun r => ?_
    cases r with
    | ok reply =>
      refine Proc.Spec.ofExcept ?_ fun _ _ _ _ _ => trivial
      intro r w hr _ htold
      obtain ⟨rfl, hok⟩ := settled_ok floatText hr
      exact ⟨htold.1 r rfl, hok⟩
    | error e => exact Proc.Spec.weaken ih (fun _ _ _ => trivial) fun _ _ _ h => h

/-- A positive reply to the delivery of this content at this revision. -/
def Positive (state : Nat) (config : SortedMap String Json) (r : Nat × Json) (w : World F) : Prop :=
  (r.1 = state ∨ r.1 = state + 1) ∧ isOk r.2 = true ∧
    ∃ reset, World.Told (applyRequest r.1 config reset) r.2 w

theorem request_ensures (state revision : Nat) (config : SortedMap String Json) (reset : Bool)
    (hr : revision = state ∨ revision = state + 1) :
    Ensures Proper Saved
      (request (F := F) floatText (applyRequest revision config reset) >>= fun reply =>
        pure (revision, reply)) (Positive state config) := by
  refine Proc.Spec.bind (requestFrom_ensures laws floatText (.apply revision config reset) 4)
    fun reply => Proc.Spec.pure ?_
  intro w _ h
  exact ⟨hr, h.2, reset, h.1⟩

theorem ahead_ensures (state : Nat) (config : SortedMap String Json) (refusal : String) :
    Ensures Proper Saved (ahead (F := F) floatText state config refusal)
      (Positive state config) := by
  refine Proc.Spec.bind (Proc.Spec.attempt (client_ensures laws .status)) fun status => ?_
  refine Proc.Spec.weaken (B := fun _ => True) (T := Positive state config) ?_
    (fun _ _ _ => trivial) fun _ _ _ h => h
  cases cached state status with
  | none => exact Proc.Spec.fail fun _ _ _ => trivial
  | some r =>
    refine Proc.Spec.ite (fun hnext => ?_) fun _ => ?_
    · exact request_ensures laws floatText state r config false (.inr hnext.symm)
    · exact request_ensures laws floatText state state config true (.inl rfl)

theorem attempted_ensures (state : Nat) (config : SortedMap String Json) :
    Ensures Proper Saved (attempted (F := F) floatText state config) (Positive state config) := by
  refine Proc.Spec.bind (Proc.Spec.attempt
    (requestFrom_ensures laws floatText (.apply state config false) 4)) fun r => ?_
  cases r with
  | ok reply =>
    refine Proc.Spec.pure fun w _ h => ?_
    obtain ⟨htold, hok⟩ := h.1 reply rfl
    exact ⟨.inl rfl, hok, false, htold⟩
  | error refusal =>
    refine Proc.Spec.weaken (B := fun _ => True) (T := Positive state config) ?_
      (fun _ _ _ => trivial) fun _ _ _ h => h
    exact Proc.Spec.ite (fun _ => ahead_ensures laws floatText state config refusal)
      fun _ => Proc.Spec.fail fun _ _ _ => trivial

theorem deliver_ensures (state : Nat) (config : SortedMap String Json) :
    Ensures Proper Saved (deliver (F := F) floatText state config)
      (fun reply w => ∃ revision, Positive state config (revision, reply) w) := by
  refine Proc.Spec.bind (attempted_ensures laws floatText state config) fun r =>
    Proc.Spec.ofExcept ?_ fun _ _ _ _ _ => trivial
  intro reply w hreply _ h
  unfold acknowledged at hreply
  split at hreply
  · cases hreply
  · split at hreply
    · cases hreply
    · obtain rfl := Except.ok.inj hreply
      exact ⟨r.1, h⟩

omit laws in
theorem inv_schedule {w : World F} (h : World.Inv Proper Saved w) (calls : List (Call F)) :
    World.Inv Proper Saved (w.scheduled calls) :=
  ⟨h.proper, h.saved, h.durable, h.ordered, h.pending, h.answered, h.acknowledged⟩

theorem inv_run {w : World F} (h : World.Inv Proper Saved w) (action : Action F) :
    World.Inv Proper Saved (action.run floatText w) := by
  cases action with
  | deliver state config calls =>
    exact (deliver_ensures laws floatText state config _ (inv_schedule h calls) trivial).2.1
  | idle ms => exact h.moves laws ms

theorem inv_after (actions : List (Action F)) :
    World.Inv Proper Saved (World.after floatText actions) := by
  have hstart : World.Inv Proper Saved ({ follower := F.start } : World F) :=
    { proper := laws.start
      saved := fun _ h => by cases h
      durable := fun h => by cases h
      ordered := List.Pairwise.nil
      pending := fun _ h => by cases h
      answered := fun _ h => by cases h
      acknowledged := fun _ h => by cases h }
  unfold World.after
  generalize ({ follower := F.start } : World F) = w at hstart
  induction actions generalizing w with
  | nil => exact hstart
  | cons action rest ih => exact ih _ (inv_run laws floatText hstart action)

/-- Whatever happens later, short of a loss, the follower shows what was delivered. -/
theorem delivered_stays {w w' : World F} (h : World.Inv Proper Saved w) {state : Nat}
    {config : SortedMap String Json} {reply : Json}
    (hd : deliver floatText state config w = (.ok reply, w')) :
    ∃ revision : Nat, Json.get "revision" reply = some (.int revision) ∧
      (revision = state ∨ revision = state + 1) ∧
      ∀ ms, (w'.moves ms).inFlight = [] ∧
        ((w'.moves ms).intact = true → F.Shows revision config (w'.moves ms).follower) := by
  obtain ⟨_, hinv, hok, _⟩ := deliver_ensures laws floatText state config w h trivial
  rw [hd] at hinv hok
  obtain ⟨revision, hrevision, hyes, reset, htold⟩ := hok reply rfl
  obtain ⟨a, ha, hlast, hcommand, rfl⟩ := htold
  refine ⟨revision, (hinv.acknowledged a ha _ _ _ hcommand hyes).1, hrevision, fun ms => ?_⟩
  have hlater := hinv.moves laws ms
  obtain ⟨b, hb, hlast, hcommand, hreply⟩ :=
    World.Told.moves (⟨a, ha, hlast, hcommand, rfl⟩ : World.Told _ a.reply w') ms
  refine ⟨hlater.nothing_in_flight hb hlast, ?_⟩
  exact (hlater.acknowledged b hb _ _ _ hcommand (by rw [hreply]; exact hyes)).2 hlast

end

/-! ### Deliveries that lose nothing -/

/-- A move that loses nothing, while the follower accepts this content. -/
def Move.Smooth (config : SortedMap String Json) : Move F → Prop
  | .process env _ => F.accepts env config
  | .operate _ => True
  | .lose _ | .restart _ => False

def Move.processes : Move F → Bool
  | .process .. => true
  | _ => false

/-- The reply comes in time, also where earlier requests are still in flight. -/
structure Call.Smooth (config : SortedMap String Json) (backlog : Nat) (call : Call F) : Prop where
  failure : call.failure = none
  alive : call.dies = false
  moves : ∀ m ∈ call.moves, m.Smooth config
  enough : backlog < call.moves.countP Move.processes

theorem Call.Smooth.mono {config : SortedMap String Json} {m n : Nat} {call : Call F}
    (h : call.Smooth config n) (hle : m ≤ n) : call.Smooth config m :=
  ⟨h.failure, h.alive, h.moves, lt_of_le_of_lt hle h.enough⟩

/-- The reply is the follower's in state `s`, and nothing has happened since. -/
def Exchanged (Proper : σ → Prop) (config : SortedMap String Json) (command : Json) (s : σ)
    (reply : Json) (w : World F) : Prop :=
  ∃ env, F.accepts env config ∧ Proper s ∧ reply = (F.answer env command s).reply ∧
    F.Alike (F.answer env command s).next w.follower ∧ w.inFlight = []

section

variable (laws : F.Laws Proper Saved) {config : SortedMap String Json}

include laws

omit laws in
theorem World.process_head {w : World F} (env : F.Env) (saves : Bool) {q : Sent}
    {rest : List Sent} (hflight : w.inFlight = q :: rest) :
    (w.process env saves).inFlight = rest ∧
      (w.process env saves).replies =
        ⟨q.id, q.command, (F.answer env q.command w.follower).reply⟩ :: w.replies ∧
      (w.process env saves).sent = w.sent ∧
      (w.process env saves).follower = (F.answer env q.command w.follower).next := by
  simp only [World.process, hflight]
  cases (F.answer env q.command w.follower).snapshot <;> exact ⟨rfl, rfl, rfl, rfl⟩

/-- With nothing in flight only the follower itself moves. -/
theorem idle_moves {w : World F} (h : World.Inv Proper Saved w) {ms : List (Move F)}
    (hms : ∀ m ∈ ms, m.Smooth config) (hnone : w.inFlight = []) :
    (w.moves ms).inFlight = [] ∧ (w.moves ms).replies = w.replies ∧ (w.moves ms).sent = w.sent ∧
      F.Alike w.follower (w.moves ms).follower := by
  induction ms generalizing w with
  | nil => exact ⟨hnone, rfl, rfl, Follower.Alike.refl F _⟩
  | cons m ms ih =>
    obtain ⟨hm, hsmooth⟩ := List.forall_mem_cons.mp hms
    cases m with
    | process env saves =>
      have hsame : w.process env saves = w := by simp [World.process, hnone]
      have hrest := ih h hsmooth hnone
      simpa only [World.moves, List.foldl_cons, World.move, hsame] using hrest
    | operate op =>
      obtain ⟨_, halike⟩ := laws.operate op w.follower h.proper
      obtain ⟨hflight, hreplies, hsent, hlater⟩ := ih (h.move laws (.operate op)) hsmooth hnone
      exact ⟨hflight, hreplies, hsent, Follower.Alike.trans F halike hlater⟩
    | lose id => cases hm
    | restart fromSaved => cases hm

/-- The requests in flight are answered one after the other, the last one last. -/
theorem smooth_moves {w : World F} (h : World.Inv Proper Saved w) {ms : List (Move F)}
    (hms : ∀ m ∈ ms, m.Smooth config) {before : List Sent} {q : Sent}
    (hflight : w.inFlight = before ++ [q]) (hlast : q.id + 1 = w.sent)
    (henough : before.length < ms.countP Move.processes) :
    ∃ s reply, (w.moves ms).replied = some reply ∧
      Exchanged Proper config q.command s reply (w.moves ms) ∧
      (before = [] → F.Alike w.follower s) := by
  induction ms generalizing w before with
  | nil => cases henough
  | cons m ms ih =>
    obtain ⟨hm, hsmooth⟩ := List.forall_mem_cons.mp hms
    cases m with
    | process env saves =>
      have hcount : before.length < ms.countP Move.processes + 1 := by
        simpa [List.countP_cons, Move.processes] using henough
      have hnext := h.move laws (.process env saves)
      cases before with
      | nil =>
        obtain ⟨hnone, hreplies, hsent, hfollower⟩ := World.process_head env saves hflight
        obtain ⟨hflight', hreplies', hsent', halike⟩ := idle_moves laws hnext hsmooth hnone
        refine ⟨w.follower, (F.answer env q.command w.follower).reply, ?_,
          ⟨env, hm, h.proper, rfl, ?_, hflight'⟩, fun _ => Follower.Alike.refl F _⟩
        · have hall := hreplies'.trans hreplies
          have hcurrent := hsent'.trans hsent
          simp only [World.moves, List.foldl_cons] at hall hcurrent ⊢
          simp only [World.replied, hall, hcurrent]
          rw [List.find?_cons_of_pos (by simpa using hlast)]
          rfl
        · have hsame := halike
          rw [show (w.move (.process env saves)).follower = _ from hfollower] at hsame
          exact hsame
      | cons p before =>
        obtain ⟨hrest, _, hsent, _⟩ := World.process_head env saves hflight
        simp only [List.length_cons] at hcount
        obtain ⟨s, reply, hreplied, hexchanged, _⟩ :=
          ih hnext hsmooth hrest (hlast.trans hsent.symm) (by omega)
        exact ⟨s, reply, hreplied, hexchanged, fun hnone => nomatch hnone⟩
    | operate op =>
      obtain ⟨_, halike⟩ := laws.operate op w.follower h.proper
      have hcount : before.length < ms.countP Move.processes := by
        simpa [List.countP_cons, Move.processes] using henough
      obtain ⟨s, reply, hreplied, hexchanged, hbefore⟩ :=
        ih (h.move laws (.operate op)) hsmooth hflight hlast hcount
      exact ⟨s, reply, hreplied, hexchanged,
        fun hnone => Follower.Alike.trans F halike (hbefore hnone)⟩
    | lose id => cases hm
    | restart fromSaved => cases hm

omit laws in
theorem client_eq (command : Json) {w : World F} (h : (w.schedule.headD {}).dies = false) :
    client command w = Proc.ofExcept
      (received (w.schedule.headD {}).failure (w.send command).pass.replied)
      (w.send command).pass := by
  have halive : (Proc.when ((w.schedule.headD {}).dies = true) Proc.stop : Proc (World F) String Unit)
      (w.send command).pass = (.ok (), (w.send command).pass) := by
    unfold Proc.when
    rw [h]
    rfl
  exact (Proc.bind_ok (p := Proc.when _ Proc.stop) halive).trans rfl

omit laws in
theorem moves_schedule (w : World F) (ms : List (Move F)) :
    (w.moves ms).schedule = w.schedule := by
  induction ms generalizing w with
  | nil => rfl
  | cons m ms ih =>
    refine (ih (w.move m)).trans ?_
    cases m with
    | process env saves =>
      simp only [World.move, World.process]
      cases w.inFlight with
      | nil => rfl
      | cons q rest =>
        simp only
        cases (F.answer env q.command w.follower).snapshot <;> rfl
    | lose id => rfl
    | restart fromSaved => rfl
    | operate op => rfl

/-- A smooth call gets its reply. -/
theorem client_smooth {w : World F} (h : World.Inv Proper Saved w) {command : Json}
    (hc : Request command) {call : Call F} {calls : List (Call F)}
    (hschedule : w.schedule = call :: calls) (hcall : call.Smooth config w.inFlight.length) :
    ∃ s reply w', client command w = (.ok reply, w') ∧ World.Inv Proper Saved w' ∧
      w'.schedule = calls ∧ Exchanged Proper config command s reply w' ∧
      (w.inFlight = [] → F.Alike w.follower s) := by
  have hsent : World.Inv Proper Saved { w.send command with schedule := calls } :=
    inv_schedule (h.send hc) calls
  obtain ⟨s, reply, hreplied, hexchanged, hbefore⟩ :=
    smooth_moves laws hsent hcall.moves
      (show ({ w.send command with schedule := calls } : World F).inFlight =
        w.inFlight ++ [⟨w.sent, command⟩] from rfl) rfl hcall.enough
  have hpass : (w.send command).pass =
      ({ w.send command with schedule := calls } : World F).moves call.moves := by
    have hlater : (w.send command).schedule = call :: calls := hschedule
    simp only [World.pass, hlater, List.headD_cons, List.tail_cons]
  refine ⟨s, reply, _, ?_, hsent.moves laws call.moves, ?_, hexchanged, hbefore⟩
  · have halive : (w.schedule.headD {}).dies = false := by
      rw [hschedule]
      exact hcall.alive
    rw [client_eq command halive, hpass, hschedule, List.headD_cons, hcall.failure, hreplied]
    rfl
  · rw [moves_schedule]

variable (floatText : ℚ → String)

omit laws in
/-- The first attempt of a request is the only one. -/
theorem requestFrom_eq {command reply : Json} {w w' : World F} (remaining : Nat)
    (hrun : client command w = (.ok reply, w')) :
    requestFrom floatText command remaining w =
      if isOk reply then (.ok reply, w') else (.err (reply.render floatText), w') := by
  have hsettled : Proc.ofExcept (σ := World F) (settled floatText reply) w' =
      if isOk reply then (.ok reply, w') else (.err (reply.render floatText), w') := by
    unfold settled
    cases isOk reply <;> rfl
  cases remaining with
  | zero => exact (Proc.bind_ok hrun).trans hsettled
  | succ remaining => exact (Proc.bind_ok (Proc.attempt_ok hrun)).trans hsettled

omit laws in
theorem acknowledged_ok {revision : Nat} {reply : Json} (hlt : revision < 2 ^ 64)
    (hrevision : Json.get "revision" reply = some (.int revision))
    (hrefused : Json.get "refused" reply = none) :
    acknowledged floatText revision reply = .ok reply := by
  unfold acknowledged
  rw [hrevision, hrefused, Option.bind_some, asU64_int hlt, if_neg (not_not.mpr rfl)]
  rfl

/-- A smooth request that is not too old is accepted. -/
theorem request_smooth {w : World F} (h : World.Inv Proper Saved w) {revision : Nat}
    {reset : Bool} {call : Call F} {calls : List (Call F)} (hlt : revision < 2 ^ 64)
    (hschedule : w.schedule = call :: calls) (hcall : call.Smooth config w.inFlight.length)
    (hnone : w.inFlight = []) (holder : F.older revision reset w.follower = false) :
    ∃ reply w', request floatText (applyRequest revision config reset) w = (.ok reply, w') ∧
      acknowledged floatText revision reply = .ok reply := by
  obtain ⟨s, reply, w', hrun, _, _, ⟨env, haccepts, hproper, hreply, _, _⟩, hbefore⟩ :=
    client_smooth laws h (.apply revision config reset) hschedule hcall
  have hfresh : F.older revision reset s = false := by
    unfold Follower.older
    rw [(hbefore hnone).revision]
    exact holder
  obtain ⟨hok, hrefused⟩ := laws.taken env revision config reset s haccepts hlt hfresh
  obtain ⟨_, _, hrevision, _⟩ := laws.accepted env revision config reset s hproper hok
  rw [← hreply] at hok hrefused hrevision
  refine ⟨reply, w', ?_, acknowledged_ok floatText hlt hrevision hrefused⟩
  rw [request, requestFrom_eq floatText 4 hrun, hok]
  rfl

/-- The follower is ahead, and nothing is lost. -/
theorem ahead_smooth {w : World F} (h : World.Inv Proper Saved w) {state : Nat}
    {second third : Call F} {calls : List (Call F)} (refusal : String)
    (hlt : state < 2 ^ 64) (hschedule : w.schedule = second :: third :: calls)
    (hsecond : second.Smooth config 0) (hthird : third.Smooth config 0) (hnone : w.inFlight = [])
    (holder : F.older state false w.follower = true) :
    ∃ r w', ahead floatText state config refusal w = (.ok r, w') ∧
      acknowledged floatText r.1 r.2 = .ok r.2 := by
  obtain ⟨happlied, hless, _⟩ := F.older_iff.mp holder
  obtain ⟨s, status, w', hrun, hinv, hschedule', ⟨env, haccepts, hproper, hreply, halike, hnone'⟩,
    hbefore⟩ := client_smooth laws h .status hschedule (by rw [hnone]; exact hsecond)
  obtain ⟨hnext, _, hstatus⟩ := laws.status env s
  have hrevision : F.revision s = F.revision w.follower := (hbefore hnone).revision
  have hvalue : (F.revision s).value < 2 ^ 64 := laws.bounded s hproper
  rw [← hreply, revisionStatus, hrevision, happlied, if_pos rfl] at hstatus
  rw [hrevision] at hvalue
  have hcached := cached_of_status hvalue hless hstatus
  have hfollower : F.revision w'.follower = F.revision w.follower := by
    rw [halike.revision, hnext, hrevision]
  have hthird' : third.Smooth config w'.inFlight.length := by
    rw [hnone']
    exact hthird
  have hnewest : F.older (F.revision w.follower).value false w'.follower = false := by
    simp [Follower.older, hfollower]
  have hreset : F.older state true w'.follower = false := by
    simp [Follower.older]
  have hstep := Proc.bind_ok (f := fun status =>
    catchUp floatText state config refusal (cached state status)) (Proc.attempt_ok hrun)
  rw [hcached, catchUp] at hstep
  by_cases hone : state + 1 = (F.revision w.follower).value
  · obtain ⟨reply, w'', hrequest, hack⟩ :=
      request_smooth laws floatText hinv hvalue hschedule' hthird' hnone' hnewest
    refine ⟨((F.revision w.follower).value, reply), w'', hstep.trans ?_, hack⟩
    simp only [if_pos hone]
    exact Proc.bind_ok hrequest
  · obtain ⟨reply, w'', hrequest, hack⟩ :=
      request_smooth laws floatText hinv hlt hschedule' hthird' hnone' hreset
    refine ⟨(state, reply), w'', hstep.trans ?_, hack⟩
    simp only [if_neg hone]
    exact Proc.bind_ok hrequest

theorem deliver_smooth {w : World F} (h : World.Inv Proper Saved w) {state : Nat}
    {calls : List (Call F)} (hlt : state < 2 ^ 64) (hschedule : w.schedule = calls)
    (hlength : 3 ≤ calls.length) (hcalls : ∀ call ∈ calls, call.Smooth config w.inFlight.length) :
    ∃ reply w', deliver floatText state config w = (.ok reply, w') := by
  obtain ⟨first, second, third, rest, rfl⟩ : ∃ first second third rest,
      calls = first :: second :: third :: rest := by
    match calls, hlength with
    | first :: second :: third :: rest, _ => exact ⟨first, second, third, rest, rfl⟩
  simp only [List.forall_mem_cons] at hcalls
  obtain ⟨hfirst, hsecond, hthird, _⟩ := hcalls
  obtain ⟨s, reply, w', hrun, hinv, hschedule', ⟨env, haccepts, hproper, hreply, halike, hnone⟩,
    _⟩ := client_smooth laws h (.apply state config false) hschedule hfirst
  have hrequest := requestFrom_eq floatText 4 hrun
  have hattempted : ∃ r w'', attempted floatText state config w = (.ok r, w'') ∧
      acknowledged floatText r.1 r.2 = .ok r.2 := by
    cases holder : F.older state false s with
    | false =>
      obtain ⟨hok, hrefused⟩ := laws.taken env state config false s haccepts hlt holder
      obtain ⟨_, _, hrevision, _⟩ := laws.accepted env state config false s hproper hok
      rw [← hreply] at hok hrefused hrevision
      rw [hok] at hrequest
      exact ⟨(state, reply), w', Proc.bind_ok (Proc.attempt_ok hrequest),
        acknowledged_ok floatText hlt hrevision hrefused⟩
    | true =>
      obtain ⟨hno, hfailure⟩ := laws.older env state config false s hproper holder
      obtain ⟨hnext, _⟩ := laws.refused env state config false s hno
      rw [← hreply] at hno
      rw [hno, hreply, hfailure haccepts] at hrequest
      have hstill : F.older state false w'.follower = true := by
        unfold Follower.older
        rw [halike.revision, hnext]
        exact holder
      obtain ⟨r, w'', hahead, hack⟩ := ahead_smooth laws floatText hinv
        ((failure [olderRevision]).render floatText) hlt hschedule' (hsecond.mono (Nat.zero_le _))
        (hthird.mono (Nat.zero_le _)) hnone hstill
      refine ⟨r, w'', (Proc.bind_ok (Proc.attempt_err hrequest)).trans ?_, hack⟩
      simp only [if_pos (older_refusal floatText)]
      exact hahead
  obtain ⟨r, w'', hr, hack⟩ := hattempted
  refine ⟨r.2, w'', (Proc.bind_ok hr).trans ?_⟩
  rw [hack]
  rfl

end

/-- After a successful delivery the follower shows what was delivered until it loses it, nothing
is in flight that could replace it, an older request changes nothing, and no past keeps a delivery
from succeeding. -/
structure Converges (F : Follower σ) (floatText : ℚ → String) : Prop where
  delivered : ∀ (past : List (Action F)) state config calls reply (w' : World F),
    deliver floatText state config ((World.after floatText past).scheduled calls) =
      (.ok reply, w') →
    ∃ revision : Nat, Json.get "revision" reply = some (.int revision) ∧
      (revision = state ∨ revision = state + 1) ∧
      ∀ later, (w'.moves later).inFlight = [] ∧
        ((w'.moves later).intact = true → F.Shows revision config (w'.moves later).follower)
  outdated : ∀ (past : List (Action F)) env revision config,
    F.older revision false (World.after floatText past).follower = true →
      (F.answer env (applyRequest revision config false) (World.after floatText past).follower).next =
        (World.after floatText past).follower
  unblocked : ∀ (past : List (Action F)) state config calls, state < 2 ^ 64 →
    3 ≤ calls.length →
    (∀ call ∈ calls, call.Smooth config (World.after floatText past).inFlight.length) →
    ∃ reply w', deliver floatText state config ((World.after floatText past).scheduled calls) =
      (.ok reply, w')

theorem converges (laws : F.Laws Proper Saved) (floatText : ℚ → String) : Converges F floatText where
  delivered past _ _ calls _ _ h :=
    delivered_stays laws floatText (inv_schedule (inv_after laws floatText past) calls) h
  outdated past env revision config h := by
    have hinv := inv_after laws floatText past
    exact (laws.refused env revision config false _
      (laws.older env revision config false _ hinv.proper h).1).1
  unblocked past _ _ calls hlt hlength hcalls :=
    deliver_smooth laws floatText (inv_schedule (inv_after laws floatText past) calls) hlt rfl
      hlength hcalls

theorem followers_converge (narrow : ℚ → ℚ) (floatText : ℚ → String) :
    Converges (decoder narrow) floatText ∧ Converges finder floatText :=
  ⟨converges (decoder_laws narrow) floatText, converges finder_laws floatText⟩

/-! ### Restarts that lose what was delivered -/

def network : SortedMap String Json := .singleton "network" networkDocument

def processed : Move (decoder id) := .process ⟨false, fun _ => .ok ""⟩ true

/-- The decoder starts again from nothing before control reads the reply. -/
def restartsFirst : List (Call (decoder id)) := [{ moves := [processed, .restart false] }]

/-- The decoder has applied revision 7. -/
def atSeven : World (decoder id) :=
  World.after (fun _ => "") [.deliver 7 network [{ moves := [processed] }]]

/-- The decoder starts again between its refusal and the question for its status. -/
def restartsBetween : List (Call (decoder id)) :=
  [{ moves := [processed] }, { moves := [.restart false, processed] }]

/-- A delivery succeeds and the follower is at no revision, and one that loses no message fails. -/
theorem restart_undoes :
    (∃ reply w', deliver (fun _ => "") 5 network
        ((World.after (fun _ => "") []).scheduled restartsFirst) = (.ok reply, w') ∧
      Json.get "revision" reply = some (.int 5) ∧ (decoder id).revision w'.follower = ⟨false, 0⟩) ∧
    ∃ error w', deliver (fun _ => "") 5 network (atSeven.scheduled restartsBetween) =
      (.err error, w') :=
  ⟨⟨_, _, rfl, rfl, rfl⟩, ⟨_, _, rfl⟩⟩

end NdimonR.Delivery
