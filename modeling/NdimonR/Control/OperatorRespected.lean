import NdimonR.Control.Supervisor

/-! The recovery of sources respects what the operator chose. -/

namespace NdimonR.Control.Supervisor

open Types Json State.Outputs
open Throttle (second)

/-! ### What a run has to say -/

/-- Commands after which an output is left alone for a while. -/
def Chooses (output : OutputId) : Command → Prop
  | .selectSource id _ | .reconnectSource id | .adoptRemoteSource id _ => id = output
  | _ => False

/-- The decoder says in an event that the output is connected; a status reply does not count, since
right after a choice it may speak of the source before. -/
structure SaysConnected (output : OutputId) (data : Json) : Prop where
  type : data.member "type" = .str "connection"
  output : outputId data "output" = some output
  connected : data.member "connected" = .bool true
  ready : data.member "drm_ready" ≠ .bool false

/-- Ends the rest that a choice gives to an output. -/
def Reopens (output : OutputId) : Deed → Prop
  | .admitted (.forgetSource id) _ => id = output
  | .heard data => SaysConnected output data
  | _ => False

/-- The command that a deed admitted, and when. -/
def admission : Deed → Option (Command × ℕ)
  | .admitted command time => some (command, time)
  | .retried output source _ time => some (.retrySource output source, time)
  | _ => none

def admissions (deeds : List Deed) : List (Command × ℕ) := deeds.filterMap admission

def Named (source : NdiSourceRef) : Prop := source.name ≠ "" ∧ source.name ≠ "None"

/-- A retry that nothing speaks against. -/
structure Right (output : OutputId) (source : NdiSourceRef) (saved : Option NdiSourceRef)
    (time : ℕ) (earlier : List Deed) : Prop where
  saved : ∃ ref, saved = some ref ∧ ref.name = source.name
  named : Named source
  fenced : ∃ between before, earlier = between ++ .fenced :: before ∧ admissions between = []
  rested : ∀ between command t before, earlier = between ++ .admitted command t :: before →
    Chooses output command → (∃ d ∈ between, Reopens output d) ∨ t + grace ≤ time
  paced : ∀ ref old t, .retried output ref old t ∈ earlier → t + 5 * second ≤ time

@[simp] theorem admissions_append (deeds more : List Deed) :
    admissions (deeds ++ more) = admissions deeds ++ admissions more := List.filterMap_append

@[simp] theorem admissions_admitted (command : Command) (time : ℕ) (deeds : List Deed) :
    admissions (.admitted command time :: deeds) = (command, time) :: admissions deeds := rfl

theorem admissions_cons_none {d : Deed} (hd : admission d = none) (deeds : List Deed) :
    admissions (d :: deeds) = admissions deeds := List.filterMap_cons_none hd

theorem admissions_cons_some {d : Deed} {e : Command × ℕ} (hd : admission d = some e)
    (deeds : List Deed) : admissions (d :: deeds) = e :: admissions deeds :=
  List.filterMap_cons_some hd

theorem admissions_eq_nil_iff {deeds : List Deed} :
    admissions deeds = [] ↔ ∀ d ∈ deeds, admission d = none := List.filterMap_eq_nil_iff

/-! ### Recovery without activity -/

theorem retry_of_drop {id other : OutputId} {r : Recovery} {retry : Retry}
    (h : (r.drop id).retries.get? other = some retry) : r.retries.get? other = some retry := by
  rw [Recovery.drop, SortedMap.get?_erase] at h
  split at h
  · cases h
  · exact h

/-- What everything but an activity makes of the recovery: rests end where they are over or `heard`
says so, timers only move on, and new timers are for outputs that do not rest. -/
structure Calm (heard : OutputId → Prop) (now : ℕ) (r r' : Recovery) : Prop where
  grace : ∀ id, r'.grace.get? id = r.grace.get? id ∨ heard id ∨
    ∀ rest, r.grace.get? id = some rest → rest ≤ now
  retries : ∀ id retry, r'.retries.get? id = some retry →
    (∃ old, r.retries.get? id = some old ∧ old.due ≤ retry.due ∧ retry.source = old.source) ∨
    now + 5 * second ≤ retry.due ∧ (1 ≤ id ∧ id ≤ 8) ∧ Named retry.source ∧
      ((∀ rest, r.grace.get? id = some rest → rest ≤ now) ∨ heard id)

variable {heard : OutputId → Prop} {now : ℕ} {r r' r'' : Recovery}

namespace Calm

theorem refl (r : Recovery) : Calm heard now r r where
  grace _ := .inl rfl
  retries _ retry h := .inl ⟨retry, h, le_rfl, rfl⟩

theorem trans (h : Calm heard now r r') (h' : Calm heard now r' r'') : Calm heard now r r'' where
  grace id := by
    obtain hsame | hheard | hover := h'.grace id
    · rw [hsame]
      exact h.grace id
    · exact .inr (.inl hheard)
    · obtain hsame | hheard | hover' := h.grace id
      · exact .inr (.inr fun rest hrest => hover rest (hsame ▸ hrest))
      · exact .inr (.inl hheard)
      · exact .inr (.inr hover')
  retries id retry hretry := by
    obtain ⟨old, hold, hdue, hsource⟩ | ⟨hdue, hid, hnamed, hrest⟩ := h'.retries id retry hretry
    · obtain ⟨first, hfirst, hfirstDue, hfirstSource⟩ | ⟨hnew, hid, hnamed, hrest⟩ :=
        h.retries id old hold
      · exact .inl ⟨first, hfirst, hfirstDue.trans hdue, hsource.trans hfirstSource⟩
      · exact .inr ⟨hnew.trans hdue, hid, hsource ▸ hnamed, hrest⟩
    · refine .inr ⟨hdue, hid, hnamed, ?_⟩
      obtain hrest | hheard := hrest
      · obtain hsame | hheard | hover := h.grace id
        · exact .inl fun rest hgrace => hrest rest (hsame ▸ hgrace)
        · exact .inr hheard
        · exact .inl hover
      · exact .inr hheard

/-- Nothing but timers changes, and those stay or go. -/
theorem of_retries (hgrace : r'.grace = r.grace)
    (hretries : ∀ id retry, r'.retries.get? id = some retry → r.retries.get? id = some retry) :
    Calm heard now r r' where
  grace _ := .inl (by rw [hgrace])
  retries id retry h := .inl ⟨retry, hretries id retry h, le_rfl, rfl⟩

theorem drop (id : OutputId) (r : Recovery) : Calm heard now r (r.drop id) :=
  of_retries rfl fun _ _ h => retry_of_drop h

theorem filter (test : OutputId → Retry → Bool) (saved : DesiredState) (r : Recovery) :
    Calm heard now r { r with saved, retries := r.retries.filter test } := by
  refine of_retries rfl fun id retry h => ?_
  rw [SortedMap.get?_filter] at h
  exact (Option.filter_eq_some_iff.mp h).1

theorem start {id : OutputId} (hid : 1 ≤ id ∧ id ≤ 8) (stalled : Bool) (r : Recovery) :
    Calm heard now r (r.start now id stalled) := by
  unfold Recovery.start
  split
  · exact refl r
  rename_i hwaits
  split
  · exact drop id r
  rename_i source hsource
  split
  · exact refl r
  refine ⟨fun _ => .inl rfl, fun other retry h => ?_⟩
  rw [SortedMap.get?_insert] at h
  split at h
  · rename_i hother
    subst hother
    cases h
    have hnamed : source.name ≠ "" ∧ source.name ≠ "None" := by
      simpa using (Option.filter_eq_some_iff.mp hsource).2
    refine .inr ⟨le_rfl, hid, hnamed, .inl fun rest hrest => ?_⟩
    rw [Recovery.waits, hrest] at hwaits
    simpa using hwaits
  · exact .inl ⟨retry, h, le_rfl, rfl⟩

theorem connection {id : OutputId} (hid : 1 ≤ id ∧ id ≤ 8) {data : Json} (r : Recovery)
    (hheard : data.member "drm_ready" ≠ .bool false → data.member "connected" = .bool true →
      heard id ∨ ∀ rest, r.grace.get? id = some rest → rest ≤ now) :
    Calm heard now r (r.connection now id data) := by
  unfold Recovery.connection
  split
  · exact drop id r
  rename_i hready
  split
  · rename_i hconnected
    have hopened : Calm heard now r { r with grace := r.grace.erase id } := by
      refine ⟨fun other => ?_, fun _ retry h => .inl ⟨retry, h, le_rfl, rfl⟩⟩
      rw [SortedMap.get?_erase]
      split
      · rename_i hother
        subst hother
        exact .inr (hheard hready hconnected)
      · exact .inl rfl
    dsimp only
    split
    · exact hopened
    · exact hopened.trans (drop id _)
  split
  · exact start hid false r
  · exact refl r

end Calm

theorem outputId_range {data : Json} {key : String} {id : OutputId}
    (h : outputId data key = some id) : 1 ≤ id ∧ id ≤ 8 := by
  obtain ⟨n, hn, rfl⟩ := Option.map_eq_some_iff.mp h
  have hlt : n < 8 := by simpa using (Option.filter_eq_some_iff.mp hn).2
  exact ⟨Nat.le_add_left 1 n, hlt⟩

theorem calm_foldl {α : Type} {f : Recovery → α → Recovery} {l : List α}
    (h : ∀ a ∈ l, ∀ r, Calm heard now r (f r a)) (r : Recovery) :
    Calm heard now r (l.foldl f r) := by
  induction l generalizing r with
  | nil => exact .refl r
  | cons a rest ih =>
    exact (h a (.head _) r).trans (ih (fun b hb => h b (.tail _ hb)) _)

theorem calm_event (data : Json) (r : Recovery) :
    Calm (SaysConnected · data) now r (r.event now data) := by
  unfold Recovery.event
  split
  · rename_i htype
    split
    · exact .refl r
    · rename_i id hid
      have hcalm (r : Recovery) : Calm (SaysConnected · data) now r (r.connection now id data) :=
        .connection (outputId_range hid) r fun hready hconnected =>
          .inl ⟨htype, hid, hconnected, hready⟩
      split
      · exact (Calm.drop id r).trans (hcalm _)
      · exact hcalm r
  · exact .refl r

theorem calm_status (data : Json) (r : Recovery) : Calm heard now r (r.status now data) := by
  refine calm_foldl (fun output _ r => ?_) r
  unfold Recovery.statusOf
  split
  · exact .refl r
  rename_i hwaits
  split
  · exact .refl r
  · rename_i id hid
    refine .connection (outputId_range hid) r fun _ hconnected => .inr fun rest hrest => ?_
    have hover : ¬r.waits now id = true := fun h => hwaits ⟨hconnected, by rwa [hid]⟩
    rw [Recovery.waits, hrest] at hover
    simpa using hover

theorem calm_health (reply : Option Json) (r : Recovery) :
    Calm heard now r (r.health now reply) := by
  unfold Recovery.health
  split
  · exact .refl r
  rename_i data
  have hrecovered : Calm heard now r (r.recovered data) := by
    refine calm_foldl (fun output _ r => ?_) r
    split
    · split
      · exact .refl r
      · split
        · exact .drop _ r
        · exact .refl r
    · exact .refl r
  refine hrecovered.trans (calm_foldl (fun id hid r => ?_) _)
  obtain ⟨output, _, houtput⟩ := List.mem_filterMap.mp hid
  split at houtput
  · cases houtput
  split at houtput
  · exact .start (outputId_range houtput) true r
  · cases houtput

theorem calm_update (document : DesiredState) (r : Recovery) :
    Calm heard now r (r.update document) := .filter _ _ r

/-- A timer takes the place of one for the same source that is not later. -/
theorem calm_put {id : OutputId} {old retry : Retry} (hold : r.retries.get? id = some old)
    (hdue : old.due ≤ retry.due) (hsource : retry.source = old.source) :
    Calm heard now r { r with retries := r.retries.insert id retry } := by
  refine ⟨fun _ => .inl rfl, fun other entry h => ?_⟩
  rw [SortedMap.get?_insert] at h
  split at h
  · rename_i hother
    subst hother
    cases h
    exact .inl ⟨old, hold, hdue, hsource⟩
  · exact .inl ⟨entry, h, le_rfl, rfl⟩

/-! ### Deeds and activities -/

variable {past unsent fresh known newer later between before : List Deed} {d : Deed}
  {announcing : Option Command} {queue rest : List CommandActivity} {a : CommandActivity}
  {lost : Bool} {output : OutputId} {t : ℕ}

/-- The recovery knows of a choice at that time, or something ended the rest since. -/
def Heeded (now : ℕ) (output : OutputId) (later : List Deed) (r : Recovery) (t : ℕ) : Prop :=
  (∃ d ∈ later, Reopens output d) ∨
    (now < t + grace → ∃ rest, r.grace.get? output = some rest ∧ t + grace ≤ rest) ∧
      ∀ retry, r.retries.get? output = some retry → t + grace ≤ retry.due

def Knows (now : ℕ) (newer known : List Deed) (r : Recovery) : Prop :=
  ∀ output, 1 ≤ output → output ≤ 8 → ∀ between command t before,
    known = between ++ .admitted command t :: before → Chooses output command →
      Heeded now output (newer ++ between) r t

/-- An activity announces an admission. -/
def Announces (a : CommandActivity) (e : Command × ℕ) : Prop := a.command = e.1 ∧ e.2 ≤ a.time

/-- The latest admission may still be unsent, those before wait in the queue, and of the choices
among the others the recovery knows, unless some were lost. -/
def Delivered (now : ℕ) (past : List Deed) (announcing : Option Command)
    (queue : List CommandActivity) (lagged : Bool) (r : Recovery) : Prop :=
  ∃ unsent fresh known, past = unsent ++ (fresh ++ known) ∧
    (admissions unsent).map Prod.fst = announcing.toList ∧
    List.Forall₂ Announces queue (admissions fresh).reverse ∧
    (lagged = false → Knows now (unsent ++ fresh) known r)

/-- Admissions are in the order of the clock. -/
structure Ordered (now : ℕ) (past : List Deed) : Prop where
  sorted : (admissions past).Pairwise fun late early => early.2 ≤ late.2
  reached : ∀ e ∈ admissions past, e.2 ≤ now

theorem Heeded.calm (h : Heeded now output later r t) (hcalm : Calm heard now r r')
    (hmore : ∀ d ∈ later, d ∈ newer)
    (hheard : heard output → ∃ d ∈ newer, Reopens output d) : Heeded now output newer r' t := by
  obtain ⟨d, hd, hreopens⟩ | ⟨hrests, hretries⟩ := h
  · exact .inl ⟨d, hmore d hd, hreopens⟩
  by_cases hended : heard output
  · exact .inl (hheard hended)
  have hover (hrests' : ∀ rest, r.grace.get? output = some rest → rest ≤ now) :
      t + grace ≤ now := by
    by_contra hearly
    obtain ⟨rest, hgrace, hrest⟩ := hrests (not_le.mp hearly)
    have hnow := hrests' rest hgrace
    omega
  refine .inr ⟨fun hearly => ?_, fun retry hretry => ?_⟩
  · obtain hsame | hheard | hrests' := hcalm.grace output
    · rw [hsame]
      exact hrests hearly
    · exact absurd hheard hended
    · exact absurd (hover hrests') (not_le.mpr hearly)
  · obtain ⟨old, hold, hdue, _⟩ | ⟨hdue, _, _, hnew⟩ := hcalm.retries output retry hretry
    · exact (hretries old hold).trans hdue
    · have hnow := hover (hnew.resolve_right hended)
      omega

theorem Delivered.tick (h : Delivered now past announcing queue lost r) {later : ℕ}
    (hlater : now ≤ later) : Delivered later past announcing queue lost r := by
  obtain ⟨unsent, fresh, known, hpast, hunsent, hfresh, hknows⟩ := h
  refine ⟨unsent, fresh, known, hpast, hunsent, hfresh, fun hlagged => ?_⟩
  intro output hlow hhigh between command t before hknown hchooses
  obtain hreopens | ⟨hrests, hretries⟩ :=
    hknows hlagged output hlow hhigh between command t before hknown hchooses
  · exact .inl hreopens
  · exact .inr ⟨fun hearly => hrests (hlater.trans_lt hearly), hretries⟩

theorem Delivered.calm (h : Delivered now past announcing queue lost r)
    (hcalm : Calm heard now r r') (hheard : ∀ output, ¬heard output) :
    Delivered now past announcing queue lost r' := by
  obtain ⟨unsent, fresh, known, hpast, hunsent, hfresh, hknows⟩ := h
  refine ⟨unsent, fresh, known, hpast, hunsent, hfresh, fun hlagged => ?_⟩
  intro output hlow hhigh between command t before hknown hchooses
  exact (hknows hlagged output hlow hhigh between command t before hknown hchooses).calm hcalm
    (fun _ hd => hd) fun hended => absurd hended (hheard output)

/-- A deed without an admission, and what the recovery makes of it. -/
theorem Delivered.push (h : Delivered now past announcing queue lost r) (hd : admission d = none)
    (hcalm : Calm heard now r r') (hheard : ∀ output, heard output → Reopens output d) :
    Delivered now (d :: past) announcing queue lost r' := by
  obtain ⟨unsent, fresh, known, hpast, hunsent, hfresh, hknows⟩ := h
  refine ⟨d :: unsent, fresh, known, by rw [hpast]; rfl, ?_, hfresh, fun hlagged => ?_⟩
  · rw [admissions_cons_none hd]
    exact hunsent
  intro output hlow hhigh between command t before hknown hchooses
  refine (hknows hlagged output hlow hhigh between command t before hknown hchooses).calm hcalm
    (fun e he => List.mem_cons_of_mem _ he) fun hended => ⟨d, .head _, hheard output hended⟩

theorem Delivered.record (h : Delivered now past none queue lost r) {command : Command} {time : ℕ}
    (hd : admission d = some (command, time)) :
    Delivered now (d :: past) (some command) queue lost r := by
  obtain ⟨unsent, fresh, known, hpast, hunsent, hfresh, hknows⟩ := h
  have hnone : admissions unsent = [] := List.map_eq_nil_iff.mp hunsent
  refine ⟨[d], unsent ++ fresh, known, by rw [hpast]; simp, ?_, ?_, fun hlagged => ?_⟩
  · rw [admissions_cons_some hd]
    rfl
  · rw [admissions_append, hnone]
    exact hfresh
  have hcalm : Calm (fun _ => False) now r r := .refl r
  intro output hlow hhigh between command t before hknown hchooses
  exact (hknows hlagged output hlow hhigh between command t before hknown hchooses).calm hcalm
    (fun e he => List.mem_cons_of_mem _ he) fun hfalse => hfalse.elim

theorem Delivered.announce {command : Command} (h : Delivered now past (some command) queue lost r)
    (hordered : Ordered now past) : Delivered now past none (queue ++ [⟨command, now⟩]) lost r := by
  obtain ⟨unsent, fresh, known, hpast, hunsent, hfresh, hknows⟩ := h
  obtain ⟨e, he, hcommand⟩ := List.map_eq_singleton_iff.mp hunsent
  refine ⟨[], unsent ++ fresh, known, by rw [hpast]; simp, rfl, ?_, hknows⟩
  have hreached : e.2 ≤ now := by
    apply hordered.reached e
    rw [hpast, admissions_append, he]
    exact .head _
  rw [admissions_append, he]
  simp only [List.singleton_append, List.reverse_cons]
  exact List.rel_append hfresh (.cons ⟨hcommand.symm, hreached⟩ .nil)

/-- The deeds up to the one that the oldest activity announces. -/
theorem oldest (h : List.Forall₂ Announces (a :: rest) (admissions fresh).reverse) :
    ∃ newer d e older, fresh = newer ++ d :: older ∧ admission d = some e ∧ Announces a e ∧
      List.Forall₂ Announces rest (admissions newer).reverse ∧ admissions older = [] := by
  obtain ⟨e, es, hannounces, hrest, hreverse⟩ := List.forall₂_cons_left_iff.mp h
  have hfresh : admissions fresh = es.reverse ++ [e] := by
    rw [← List.reverse_reverse (admissions fresh), hreverse, List.reverse_cons]
  obtain ⟨newer, last, rfl, hnewer, hlast⟩ := List.filterMap_eq_append_iff.mp hfresh
  obtain ⟨quiet, d, older, rfl, hquiet, hd, holder⟩ := List.filterMap_eq_cons_iff.mp hlast
  refine ⟨newer ++ quiet, d, e, older, by simp, hd, hannounces, ?_, holder⟩
  have hsame : admissions (newer ++ quiet) = es.reverse := by
    rw [admissions_append, admissions_eq_nil_iff.mpr hquiet, List.append_nil]
    exact hnewer
  rw [hsame, List.reverse_reverse]
  exact hrest

/-- The oldest activity is lost. -/
theorem Delivered.lose (h : Delivered now past announcing (a :: rest) lost r) :
    Delivered now past announcing rest true r := by
  obtain ⟨unsent, fresh, known, hpast, hunsent, hfresh, _⟩ := h
  obtain ⟨newer, d, e, older, rfl, _, _, hrest, _⟩ := oldest hfresh
  exact ⟨unsent, newer, d :: (older ++ known), by rw [hpast]; simp, hunsent, hrest, nofun⟩

theorem Delivered.lagged (h : Delivered now past announcing queue true r)
    (hordered : Ordered now past) : Delivered now past announcing queue false (r.lagged now) := by
  obtain ⟨unsent, fresh, known, hpast, hunsent, hfresh, _⟩ := h
  refine ⟨unsent, fresh, known, hpast, hunsent, hfresh, fun _ => ?_⟩
  intro output hlow hhigh between command t before hknown _
  have hreached : t ≤ now := by
    apply hordered.reached (command, t)
    rw [hpast, hknown]
    simp [admissions, admission]
  refine .inr ⟨fun _ => ⟨now + grace, ?_, by omega⟩, fun retry hretry => by cases hretry⟩
  rw [Recovery.lagged]
  simp only [List.foldl_cons, List.foldl_nil, SortedMap.get?_insert]
  interval_cases output <;> rfl

/-- Deeds without admissions stand before an admission as they are. -/
theorem quiet_prefix {quiet more : List Deed} (hquiet : admissions quiet = [])
    (hd : admission d ≠ none) (h : quiet ++ more = between ++ d :: before) :
    ∃ rest, between = quiet ++ rest ∧ more = rest ++ d :: before := by
  induction quiet generalizing between with
  | nil => exact ⟨between, rfl, h⟩
  | cons first quiet ih =>
    have hnone := admissions_eq_nil_iff.mp hquiet
    cases between with
    | nil =>
      obtain ⟨rfl, _⟩ := List.cons.inj h
      exact absurd (hnone first (.head _)) hd
    | cons head between =>
      obtain ⟨rfl, htail⟩ := List.cons.inj h
      have hrest : admissions quiet = [] :=
        admissions_eq_nil_iff.mpr fun e he => hnone e (.tail _ he)
      obtain ⟨rest, rfl, hmore⟩ := ih hrest htail
      exact ⟨rest, rfl, hmore⟩

theorem activity_of_chooses {id : OutputId} (h : Chooses id a.command) (r : Recovery) :
    r.activity a = { r.drop id with grace := r.grace.insert id (a.time + grace) } := by
  unfold Chooses at h
  split at h
  case h_4 => exact h.elim
  all_goals
    rename_i hcommand
    subst h
    rw [Recovery.activity, hcommand]

theorem activity_of_forget {id : OutputId} (h : a.command = .forgetSource id) (r : Recovery) :
    r.activity a = { r.drop id with grace := r.grace.erase id } := by
  rw [Recovery.activity, h]

theorem activity_of_other (hchooses : ∀ id, ¬Chooses id a.command)
    (hforget : ∀ id, a.command ≠ .forgetSource id) (r : Recovery) : r.activity a = r := by
  unfold Recovery.activity
  split
  case h_4 id hcommand => exact absurd hcommand (hforget id)
  case h_5 => rfl
  all_goals
    rename_i hcommand
    rw [hcommand] at hchooses
    exact absurd rfl (hchooses _)

theorem Heeded.of_chooses (hchooses : Chooses output a.command) (ht : t ≤ a.time) :
    Heeded now output later (r.activity a) t := by
  rw [activity_of_chooses hchooses]
  refine .inr ⟨fun _ => ⟨a.time + grace, by simp, by omega⟩, fun retry hretry => ?_⟩
  rw [Recovery.drop, SortedMap.get?_erase, if_pos rfl] at hretry
  cases hretry

/-- Something else has happened that leaves the output as it was. -/
theorem Heeded.beside (h : Heeded now output later r t)
    (hgrace : r'.grace.get? output = r.grace.get? output)
    (hretries : ∀ retry, r'.retries.get? output = some retry →
      r.retries.get? output = some retry) : Heeded now output later r' t := by
  obtain hreopens | ⟨hrests, hdue⟩ := h
  · exact .inl hreopens
  · refine .inr ⟨fun hearly => ?_, fun retry hretry => hdue retry (hretries retry hretry)⟩
    rw [hgrace]
    exact hrests hearly

theorem Heeded.activity (h : Heeded now output later r t) (ht : t ≤ a.time)
    (hforget : a.command = .forgetSource output → ∃ d ∈ later, Reopens output d) :
    Heeded now output later (r.activity a) t := by
  by_cases hchooses : ∃ id, Chooses id a.command
  · obtain ⟨id, hid⟩ := hchooses
    by_cases hsame : output = id
    · exact .of_chooses (hsame ▸ hid) ht
    rw [activity_of_chooses hid]
    apply h.beside
    · rw [SortedMap.get?_insert, if_neg hsame]
    · exact fun _ hretry => retry_of_drop hretry
  by_cases hforgets : ∃ id, a.command = .forgetSource id
  · obtain ⟨id, hid⟩ := hforgets
    by_cases hsame : output = id
    · exact .inl (hforget (hsame ▸ hid))
    rw [activity_of_forget hid]
    apply h.beside
    · rw [SortedMap.get?_erase, if_neg hsame]
    · exact fun _ hretry => retry_of_drop hretry
  · rw [activity_of_other (not_exists.mp hchooses) (not_exists.mp hforgets)]
    exact h

theorem reopens_of_forget {e : Command × ℕ} (hd : admission d = some e)
    (h : e.1 = .forgetSource output) : Reopens output d := by
  cases d with
  | admitted command time =>
    cases hd
    cases h
    rfl
  | retried id source saved time =>
    cases hd
    cases h
  | fenced => cases hd
  | heard data => cases hd

theorem Delivered.activity (h : Delivered now past announcing (a :: rest) false r)
    (hordered : Ordered now past) : Delivered now past announcing rest false (r.activity a) := by
  obtain ⟨unsent, fresh, known, hpast, hunsent, hfresh, hknows⟩ := h
  obtain ⟨newer, d, e, older, rfl, hd, hannounces, hrest, holder⟩ := oldest hfresh
  refine ⟨unsent, newer, d :: (older ++ known), by rw [hpast]; simp, hunsent, hrest, fun _ => ?_⟩
  intro output hlow hhigh between command t before hknown hchooses
  cases between with
  | nil =>
    obtain ⟨rfl, _⟩ := List.cons.inj hknown
    cases hd
    exact .of_chooses (hannounces.1 ▸ hchooses) hannounces.2
  | cons first between =>
    obtain ⟨rfl, htail⟩ := List.cons.inj hknown
    have hadmitted : admission (.admitted command t) ≠ none := Option.some_ne_none _
    obtain ⟨between, rfl, rfl⟩ := quiet_prefix holder hadmitted htail
    have hheeded := hknows rfl output hlow hhigh between command t before rfl hchooses
    have hlist : unsent ++ newer ++ d :: (older ++ between) =
        unsent ++ (newer ++ d :: older) ++ between := by simp
    have hearlier : t ≤ e.2 := by
      have hsorted := hordered.sorted
      have hpast' : past = (unsent ++ newer) ++ d ::
          (older ++ between ++ .admitted command t :: before) := by rw [hpast]; simp
      rw [hpast', admissions_append, admissions_cons_some hd] at hsorted
      have hlate := (List.pairwise_append.mp hsorted).2.1
      exact (List.pairwise_cons.mp hlate).1 (command, t) (by simp)
    rw [hlist]
    refine hheeded.activity (hearlier.trans hannounces.2) fun hforget => ?_
    exact ⟨d, by simp, reopens_of_forget hd (hannounces.1 ▸ hforget)⟩

/-! ### The system -/

def Rights (past : List Deed) : Prop := ∀ later output source saved time earlier,
  past = later ++ .retried output source saved time :: earlier →
    Right output source saved time earlier

/-- What holds of the system whatever the supervisor waits for; the timer of a retry that has just
been admitted is not yet moved. -/
structure Core (resting : Option OutputId) (s : System) : Prop where
  delivered : Delivered s.now s.past s.announcing s.queue s.lagged s.recovery
  ordered : Ordered s.now s.past
  named : ∀ id retry, s.recovery.retries.get? id = some retry →
    (1 ≤ id ∧ id ≤ 8) ∧ Named retry.source
  paced : ∀ id source saved t, .retried id source saved t ∈ s.past → resting ≠ some id →
    ∀ retry, s.recovery.retries.get? id = some retry → t + 5 * second ≤ retry.due
  right : Rights s.past

structure Fenced (s : System) (fence : ℕ) : Prop where
  le : fence ≤ s.sequence
  quiet : s.sequence = fence →
    ∃ between before, s.past = between ++ .fenced :: before ∧ admissions between = []

/-- What the supervisor can rely on while it waits. -/
def Held (s : System) : Phase → Prop
  | .refreshing (.retry fence) => Fenced s fence
  | .asking (.retry fence) => Fenced s fence ∧ (s.sequence = fence → s.announcing = none)
  | .retrying id source fence previous =>
    Fenced s fence ∧
    (s.sequence = fence → s.announcing = none ∧ s.queue = [] ∧ s.lagged = false) ∧
    ∃ retry, s.recovery.retries.get? id = some retry ∧ retry.due ≤ s.now ∧
      previous.due = retry.due ∧ previous.source = retry.source ∧
      source.name = retry.source.name
  | .retried id => ∀ retry, s.recovery.retries.get? id = some retry → retry.due ≤ s.now
  | _ => True

def Phase.resting : Phase → Option OutputId
  | .retried id => some id
  | _ => none

structure Inv (s : System) : Prop where
  core : Core s.phase.resting s
  held : Held s s.phase

variable {s s' : System} {resting resting' : Option OutputId} {command : Command}

theorem Ordered.time (h : Ordered now past) (hd : admission d = some (command, t))
    (hmem : d ∈ past) : t ≤ now :=
  h.reached _ (List.mem_filterMap.mpr ⟨d, hmem, hd⟩)

theorem Rights.cons (h : Rights past) (hd : ∀ output source saved time,
    d = .retried output source saved time → Right output source saved time past) :
    Rights (d :: past) := by
  intro later output source saved time earlier heq
  cases later with
  | nil =>
    obtain ⟨hhead, rfl⟩ := List.cons.inj heq
    exact hd output source saved time hhead
  | cons first later =>
    obtain ⟨_, htail⟩ := List.cons.inj heq
    exact h later output source saved time earlier htail

namespace Core

theorem calm_named (h : Core none s) (hcalm : Calm heard s.now s.recovery r') :
    ∀ id retry, r'.retries.get? id = some retry → (1 ≤ id ∧ id ≤ 8) ∧ Named retry.source := by
  intro id retry hretry
  obtain ⟨old, hold, _, hsource⟩ | ⟨_, hid, hnamed, _⟩ := hcalm.retries id retry hretry
  · rw [hsource]
    exact h.named id old hold
  · exact ⟨hid, hnamed⟩

theorem calm_paced (h : Core none s) (hcalm : Calm heard s.now s.recovery r') :
    ∀ id source saved t, .retried id source saved t ∈ s.past →
      ∀ retry, r'.retries.get? id = some retry → t + 5 * second ≤ retry.due := by
  intro id source saved t hmem retry hretry
  obtain ⟨old, hold, hdue, _⟩ | ⟨hdue, _⟩ := hcalm.retries id retry hretry
  · exact (h.paced id source saved t hmem nofun old hold).trans hdue
  · have hreached : t ≤ s.now := h.ordered.time rfl hmem
    omega

theorem calm (h : Core none s) (hcalm : Calm (fun _ => False) s.now s.recovery r') :
    Core none { s with recovery := r' } where
  delivered := h.delivered.calm hcalm fun _ hfalse => hfalse
  ordered := h.ordered
  named := h.calm_named hcalm
  paced id source saved t hmem _ := h.calm_paced hcalm id source saved t hmem
  right := h.right

theorem hear (h : Core none s) {data : Json}
    (hcalm : Calm (SaysConnected · data) s.now s.recovery r') : Core none (s.hear data r') where
  delivered := h.delivered.push rfl hcalm fun _ hsays => hsays
  ordered := ⟨h.ordered.sorted, h.ordered.reached⟩
  named := h.calm_named hcalm
  paced id source saved t hmem _ := by
    obtain heq | hmem := List.mem_cons.mp hmem
    · cases heq
    · exact h.calm_paced hcalm id source saved t hmem
  right := h.right.cons nofun

theorem fenced (h : Core none s) : Core none { s with past := .fenced :: s.past } where
  delivered := by
    have hcalm : Calm (fun _ => False) s.now s.recovery s.recovery := .refl _
    exact h.delivered.push rfl hcalm nofun
  ordered := ⟨h.ordered.sorted, h.ordered.reached⟩
  named := h.named
  paced id source saved t hmem := by
    obtain heq | hmem := List.mem_cons.mp hmem
    · cases heq
    · exact h.paced id source saved t hmem
  right := h.right.cons nofun

theorem record (h : Core resting s) (hnone : s.announcing = none)
    (hd : admission d = some (command, s.now))
    (hright : ∀ output source saved time, d = .retried output source saved time →
      Right output source saved time s.past ∧ resting' = some output)
    (hmore : ∀ id, resting = some id → resting' = some id) :
    Core resting' (s.record command d) where
  delivered := (hnone ▸ h.delivered).record hd
  ordered := by
    refine ⟨?_, fun e he => ?_⟩
    · rw [System.record, admissions_cons_some hd]
      exact List.pairwise_cons.mpr ⟨h.ordered.reached, h.ordered.sorted⟩
    · rw [System.record, admissions_cons_some hd] at he
      obtain rfl | he := List.mem_cons.mp he
      · exact le_rfl
      · exact h.ordered.reached e he
  named := h.named
  paced id source saved t hmem hresting := by
    obtain heq | hmem := List.mem_cons.mp hmem
    · exact absurd (hright id source saved t heq.symm).2 hresting
    · exact h.paced id source saved t hmem fun hid => hresting (hmore id hid)
  right := h.right.cons fun output source saved time heq => (hright output source saved time heq).1

theorem announce (h : Core resting s) (hsome : s.announcing = some command) :
    Core resting (s.announce command) := by
  have hdelivered : Delivered s.now s.past (some command) s.queue s.lagged s.recovery :=
    hsome ▸ h.delivered
  unfold System.announce
  dsimp only
  split
  · exact ⟨hdelivered.announce h.ordered, h.ordered, h.named, h.paced, h.right⟩
  · rename_i hfull
    cases hqueue : s.queue with
    | nil =>
      rw [hqueue] at hfull
      exact absurd (by decide) hfull
    | cons a rest =>
      rw [hqueue] at hdelivered
      exact ⟨hdelivered.lose.announce h.ordered, h.ordered, h.named, h.paced, h.right⟩

theorem tick (h : Core resting s) (time : ℕ) : Core resting { s with now := s.now + time } where
  delivered := h.delivered.tick (Nat.le_add_right _ _)
  ordered := ⟨h.ordered.sorted, fun e he => (h.ordered.reached e he).trans (Nat.le_add_right _ _)⟩
  named := h.named
  paced := h.paced
  right := h.right

/-- An activity only ends timers. -/
theorem activity_retries {id : OutputId} {retry : Retry}
    (h : (r.activity a).retries.get? id = some retry) : r.retries.get? id = some retry := by
  unfold Recovery.activity at h
  split at h
  case h_5 => exact h
  all_goals exact retry_of_drop h

theorem activity (h : Core none s) (hqueue : s.queue = a :: rest) (hlagged : s.lagged = false) :
    Core none { s with queue := rest, recovery := s.recovery.activity a } where
  delivered := by
    have hdelivered := h.delivered
    rw [hqueue, hlagged] at hdelivered
    rw [hlagged]
    exact hdelivered.activity h.ordered
  ordered := h.ordered
  named id retry hretry := h.named id retry (activity_retries hretry)
  paced id source saved t hmem hresting retry hretry :=
    h.paced id source saved t hmem hresting retry (activity_retries hretry)
  right := h.right

theorem lagged (h : Core none s) (hlagged : s.lagged = true) :
    Core none { s with lagged := false, recovery := s.recovery.lagged s.now } where
  delivered := (hlagged ▸ h.delivered).lagged h.ordered
  ordered := h.ordered
  named _ _ hretry := by cases hretry
  paced _ _ _ _ _ _ _ hretry := by cases hretry
  right := h.right

theorem drain (h : Core none s) : Core none s.drain := by
  have hqueue (queue : List CommandActivity) (r : Recovery)
      (hcore : Core none { s with lagged := false, queue, recovery := r }) : Core none { s with
        lagged := false
        queue := []
        recovery := queue.foldl (fun r a => r.activity a) r } := by
    induction queue generalizing r with
    | nil => exact hcore
    | cons a rest ih => exact ih _ (hcore.activity rfl rfl)
  unfold System.drain
  dsimp only
  split
  · rename_i hlagged
    exact hqueue s.queue _ (h.lagged hlagged)
  · rename_i hlagged
    refine hqueue s.queue s.recovery ?_
    rw [← Bool.eq_false_of_not_eq_true hlagged]
    exact h

/-- A timer is set on from now, where it was due. -/
theorem reschedule {id : OutputId} (h : Core resting s)
    (hresting : ∀ other, resting = some other → other = id)
    (hdue : ∀ retry, s.recovery.retries.get? id = some retry → retry.due ≤ s.now) :
    Core none (s.reschedule id) := by
  unfold System.reschedule
  split
  · rename_i hnone
    refine ⟨h.delivered, h.ordered, h.named, fun other source saved t hmem _ retry hretry => ?_,
      h.right⟩
    refine h.paced other source saved t hmem (fun hother => ?_) retry hretry
    rw [hresting other hother, hnone] at hretry
    cases hretry
  rename_i old hold
  have hpause : old.due ≤ (old.reschedule s.now).due ∧
      s.now + 5 * second ≤ (old.reschedule s.now).due := by
    have hle := hdue old hold
    have hfive : 5 * second ≤ Retry.pause old.attempts := by
      unfold Retry.pause
      split <;> omega
    unfold Retry.reschedule
    dsimp only
    omega
  have hcalm : Calm (fun _ => False) s.now s.recovery (s.put id (old.reschedule s.now)).recovery :=
    calm_put hold hpause.1 rfl
  refine ⟨h.delivered.calm hcalm fun _ hfalse => hfalse, h.ordered, ?_, ?_, h.right⟩
  · intro other retry hretry
    rw [System.put, SortedMap.get?_insert] at hretry
    split at hretry
    · rename_i hsame
      cases hretry
      exact hsame ▸ h.named id old hold
    · exact h.named other retry hretry
  · intro other source saved t hmem _ retry hretry
    rw [System.put, SortedMap.get?_insert] at hretry
    split at hretry
    · cases hretry
      have hreached : t ≤ s.now := h.ordered.time rfl hmem
      omega
    · rename_i hother
      exact h.paced other source saved t hmem (fun hid => hother (hresting other hid)) retry hretry

theorem «at» (h : Core resting s) (phase : Phase) : Core resting { s with phase } :=
  ⟨h.delivered, h.ordered, h.named, h.paced, h.right⟩

end Core

theorem Fenced.keep {fence : ℕ} (h : Fenced s fence) (hle : s.sequence ≤ s'.sequence)
    (hsame : s'.sequence = s.sequence → s'.past = s.past) : Fenced s' fence where
  le := h.le.trans hle
  quiet hfence := by
    have hbefore : s.sequence = fence := le_antisymm (hle.trans hfence.le) h.le
    rw [hsame (hfence.trans hbefore.symm)]
    exact h.quiet hbefore

theorem Held.keep {phase : Phase} (h : Held s phase) (hnow : s.now ≤ s'.now)
    (hrecovery : s'.recovery = s.recovery) (hle : s.sequence ≤ s'.sequence)
    (hsame : s'.sequence = s.sequence → s'.past = s.past ∧ (s.announcing = none →
      s'.announcing = none ∧ s'.queue = s.queue ∧ s'.lagged = s.lagged)) : Held s' phase := by
  have hfenced {fence : ℕ} (hfenced : Fenced s fence) : Fenced s' fence :=
    hfenced.keep hle fun hseq => (hsame hseq).1
  have hback {fence : ℕ} (hfenced : Fenced s fence) (hfence : s'.sequence = fence) :
      s.sequence = fence ∧ s'.sequence = s.sequence := by
    have hbefore : s.sequence = fence := le_antisymm (hle.trans hfence.le) hfenced.le
    exact ⟨hbefore, hfence.trans hbefore.symm⟩
  unfold Held at h ⊢
  split at h
  · exact hfenced h
  · refine ⟨hfenced h.1, fun hfence => ?_⟩
    obtain ⟨hbefore, hseq⟩ := hback h.1 hfence
    exact ((hsame hseq).2 (h.2 hbefore)).1
  · obtain ⟨hf, hquiet, retry, hretry, hdue, hrest⟩ := h
    refine ⟨hfenced hf, fun hfence => ?_, retry, hrecovery ▸ hretry, hdue.trans hnow, hrest⟩
    obtain ⟨hbefore, hseq⟩ := hback hf hfence
    obtain ⟨hnone, hqueue, hlagged⟩ := hquiet hbefore
    obtain ⟨hnone', hqueue', hlagged'⟩ := (hsame hseq).2 hnone
    exact ⟨hnone', hqueue'.trans hqueue, hlagged'.trans hlagged⟩
  · intro retry hretry
    rw [hrecovery] at hretry
    exact (h retry hretry).trans hnow
  · trivial

namespace Inv

theorem «from» (h : Core none s) {phase : Phase} (hresting : phase.resting = none)
    (hheld : Held s phase) : Inv { s with phase } where
  core := by
    rw [hresting]
    exact h.at phase
  held := hheld.keep le_rfl rfl le_rfl fun _ => ⟨rfl, fun hnone => ⟨hnone, rfl, rfl⟩⟩

theorem awake (h : Inv s) {phase : Phase} (hphase : s.phase = phase)
    (hresting : phase.resting = none) : Core none s := by
  have hcore := h.core
  rw [hphase, hresting] at hcore
  exact hcore

theorem hearStatus (h : Core none s) (reply : Option Json) : Core none (s.hearStatus reply) := by
  unfold System.hearStatus
  split
  · exact h
  · exact h.calm (calm_status _ _)

theorem proceed (h : Core none s) (hnone : s.announcing = none) {turn : Turn}
    (hheld : Held s (.refreshing turn)) : Inv (s.proceed turn) := by
  unfold System.proceed
  split
  · exact .from h rfl trivial
  · exact .from h.drain rfl trivial
  · exact .from h rfl trivial
  · rename_i fence
    exact .from h rfl ⟨hheld, fun _ => hnone⟩
  · dsimp only
    have hcore : Core none { s with recovery := if s.recovery.saved.device.watchdogMode = .active
        then s.recovery
        else { s.recovery with retries := s.recovery.retries.filter fun _ r => !r.stalled } } := by
      apply h.calm
      split
      · exact .refl _
      · exact .filter _ _ _
    by_cases hdisabled : s.recovery.saved.device.watchdogMode = .disabled
    · rw [if_pos hdisabled]
      exact .from hcore rfl trivial
    · rw [if_neg hdisabled]
      exact .from hcore rfl trivial
  · exact .from h.drain rfl trivial
  · exact .from h.drain rfl trivial
  · rename_i data
    have hcore := h.drain.hear (calm_event data s.drain.recovery)
    dsimp only
    refine .from hcore ?_ ?_
    · generalize remoteSource _ data = route
      cases route <;> rfl
    · generalize remoteSource _ data = route
      cases route <;> trivial

theorem attempt (h : Core none s) {fence : ℕ} (hfenced : Fenced s fence)
    (hquiet : s.sequence = fence → s.announcing = none ∧ s.queue = [] ∧ s.lagged = false)
    (sources : Json) : Inv (s.attempt fence sources) := by
  unfold System.attempt
  split
  · exact .from h rfl trivial
  rename_i id retry hdue
  have hmem : s.recovery.retries.get? id = some retry :=
    SortedMap.mem_entries_iff.mp (List.mem_of_find?_eq_some hdue)
  have hover : retry.due ≤ s.now := by simpa using List.find?_some hdue
  have hcore : Core none (s.put id (retry.endpoint sources).2) := h.calm (calm_put hmem le_rfl rfl)
  refine .from hcore rfl ⟨hfenced.keep le_rfl fun _ => rfl, hquiet, (retry.endpoint sources).2, ?_,
    hover, rfl, rfl, rfl⟩
  rw [System.put, SortedMap.get?_insert, if_pos rfl]

theorem answered (h : Core none s) {turn : Turn} (hheld : Held s (.asking turn))
    {reply : Option Json} (hstep : s.answered turn reply = some s') : Inv s' := by
  unfold System.answered at hstep
  split at hstep
  · cases hstep
    exact .from (hearStatus h reply) rfl trivial
  · cases hstep
    refine .from (hearStatus ?_ reply) rfl trivial
    split
    · exact h.drain
    · exact h
  · cases hstep
    exact .from (h.drain.calm (calm_health reply _)) rfl trivial
  · rename_i fence
    cases hstep
    obtain ⟨hfenced, hnone⟩ := hheld
    have hdrained : Fenced s.drain fence := hfenced.keep le_rfl fun _ => rfl
    exact attempt h.drain hdrained (fun hfence => ⟨hnone hfence, rfl, rfl⟩) _
  · cases hstep

/-- The actor admits the retry: nothing speaks against it. -/
theorem right (h : Core none s) {id : OutputId} {source : NdiSourceRef} {fence : ℕ}
    {previous : Retry} (hheld : Held s (.retrying id source fence previous))
    (hfence : s.sequence = fence) (hadmits : s.admits (.retrySource id source) = true) :
    Right id source (savedSource s.document id) s.now s.past := by
  obtain ⟨hfenced, hquiet, retry, hretry, hover, _, _, hname⟩ := hheld
  obtain ⟨hnone, hqueue, hlagged⟩ := hquiet hfence
  obtain ⟨⟨hlow, hhigh⟩, hnamed⟩ := h.named id retry hretry
  refine ⟨?_, ?_, hfenced.quiet hfence, fun between command t before heq hchooses => ?_,
    fun ref old t hmem => ?_⟩
  · have hreduce : (reduce s.document (.retrySource id source)).toBool = true := by
      simpa [System.admits, State.owns] using (Bool.and_eq_true_iff.mp hadmits).2
    unfold reduce at hreduce
    dsimp only at hreduce
    split at hreduce
    · cases hreduce
    rename_i hsame
    cases hsaved : savedSource s.document id with
    | none =>
      rw [hsaved] at hsame
      exact absurd rfl hsame
    | some ref =>
      rw [hsaved] at hsame
      exact ⟨ref, rfl, by simpa using hsame⟩
  · rw [Named, hname]
    exact hnamed
  · obtain ⟨unsent, fresh, known, hpast, hunsent, hfresh, hknows⟩ := h.delivered
    rw [hnone] at hunsent
    rw [hqueue] at hfresh
    have hunsentNone : admissions unsent = [] := List.map_eq_nil_iff.mp hunsent
    have hfreshNone : admissions fresh = [] :=
      List.reverse_eq_nil_iff.mp (List.forall₂_nil_left_iff.mp hfresh)
    have hrecent : admissions (unsent ++ fresh) = [] := by
      rw [admissions_append, hunsentNone, hfreshNone]
      rfl
    have hadmitted : admission (.admitted command t) ≠ none := Option.some_ne_none _
    rw [hpast, ← List.append_assoc] at heq
    obtain ⟨between, rfl, hknown⟩ := quiet_prefix hrecent hadmitted heq
    have hheeded := hknows hlagged id hlow hhigh between command t before hknown hchooses
    obtain hreopens | ⟨_, hretries⟩ := hheeded
    · exact .inl hreopens
    · exact .inr ((hretries retry hretry).trans hover)
  · exact (h.paced id ref old t hmem nofun retry hretry).trans hover

theorem step (h : Inv s) {a : Act} (hstep : s.step a = some s') : Inv s' := by
  unfold System.step at hstep
  cases a <;> dsimp only at hstep
  case tick time =>
    cases hstep
    exact ⟨h.core.tick time, h.held.keep (Nat.le_add_right _ _) rfl le_rfl
      fun _ => ⟨rfl, fun hnone => ⟨hnone, rfl, rfl⟩⟩⟩
  case replace document =>
    cases hstep
    exact ⟨⟨h.core.delivered, h.core.ordered, h.core.named, h.core.paced, h.core.right⟩,
      h.held.keep le_rfl rfl le_rfl fun _ => ⟨rfl, fun hnone => ⟨hnone, rfl, rfl⟩⟩⟩
  case submit command =>
    split at hstep
    · rename_i hadmits
      cases hstep
      have hnone : s.announcing = none :=
        Option.isNone_iff_eq_none.mp (Bool.and_eq_true_iff.mp hadmits).1
      refine ⟨h.core.record hnone rfl nofun fun _ hid => hid, ?_⟩
      exact h.held.keep le_rfl rfl (Nat.le_succ _) fun hseq => absurd hseq (Nat.succ_ne_self _)
    · cases hstep
  case announce =>
    obtain ⟨command, hsome, rfl⟩ := Option.map_eq_some_iff.mp hstep
    have hphase : (s.announce command).phase = s.phase := by
      unfold System.announce
      dsimp only
      split <;> rfl
    refine ⟨?_, ?_⟩
    · rw [hphase]
      exact h.core.announce hsome
    · rw [hphase]
      unfold System.announce
      dsimp only
      have hnone {P : Prop} (hnone : s.announcing = none) : P := by
        rw [hsome] at hnone
        cases hnone
      split <;> exact h.held.keep le_rfl rfl le_rfl fun _ => ⟨rfl, hnone⟩
  case receive =>
    split at hstep
    · rename_i hphase hlagged
      cases hstep
      exact .from ((h.awake hphase rfl).lagged hlagged) rfl trivial
    · rename_i a rest hphase hlagged hqueue
      cases hstep
      exact .from ((h.awake hphase rfl).activity hqueue hlagged) rfl trivial
    · cases hstep
  case event | statusTick | healthTick =>
    split at hstep
    · rename_i hphase
      cases hstep
      exact .from (h.awake hphase rfl) rfl trivial
    · cases hstep
  case timer =>
    split at hstep
    · rename_i hphase
      cases hstep
      exact .from (h.awake hphase rfl).fenced rfl ⟨le_rfl, fun _ => ⟨[], s.past, rfl, rfl⟩⟩
    · cases hstep
  case refreshed snapshot =>
    split at hstep
    · rename_i turn hphase hnone
      cases hstep
      have hcore : Core none { s with
          recovery := if snapshot then s.recovery.update s.document else s.recovery } := by
        apply (h.awake hphase rfl).calm
        split
        · exact calm_update _ _
        · exact .refl _
      have hheld := h.held
      rw [hphase] at hheld
      refine proceed hcore hnone ?_
      cases turn with
      | retry fence => exact Fenced.keep hheld le_rfl fun _ => rfl
      | activity | event | status | health | routed => trivial
    · cases hstep
  case answered reply =>
    split at hstep
    · rename_i turn hphase
      have hheld := h.held
      rw [hphase] at hheld
      exact answered (h.awake hphase rfl) hheld hstep
    · cases hstep
  case routed admitted =>
    split at hstep
    · rename_i command hphase
      have hcore := h.awake hphase rfl
      split at hstep
      · cases hstep
        exact .from hcore rfl trivial
      split at hstep
      · rename_i hadmits
        cases hstep
        have hnone : s.announcing = none :=
          Option.isNone_iff_eq_none.mp (Bool.and_eq_true_iff.mp hadmits).1
        have hcommand : Core none (s.record command (.admitted command s.now)) :=
          hcore.record hnone rfl nofun nofun
        exact .from hcommand rfl trivial
      · cases hstep
    · cases hstep
  case retried admitted =>
    split at hstep
    · rename_i output source fence previous hphase
      have hcore := h.awake hphase rfl
      have hheld := h.held
      rw [hphase] at hheld
      have hentry := hheld
      obtain ⟨_, _, retry, hretry, hover, hdue, hsource, _⟩ := hentry
      split at hstep
      · cases hstep
      split at hstep
      · cases hstep
        have hcalm : Calm (fun _ => False) s.now s.recovery (s.put output previous).recovery :=
          calm_put hretry hdue.ge hsource
        exact .from (hcore.calm hcalm) rfl trivial
      rename_i hfence
      split at hstep
      · cases hstep
        have hpast : ∀ entry, s.recovery.retries.get? output = some entry →
            entry.due ≤ s.now := by
          intro entry hentry
          cases hretry.symm.trans hentry
          exact hover
        exact .from (hcore.reschedule nofun hpast) rfl trivial
      split at hstep
      · rename_i hadmits
        cases hstep
        have hnone : s.announcing = none :=
          Option.isNone_iff_eq_none.mp (Bool.and_eq_true_iff.mp hadmits).1
        have hright := right hcore hheld (not_not.mp hfence) hadmits
        refine ⟨(hcore.record hnone rfl (fun output source saved time heq => ?_) nofun).at _,
          fun entry hentry => ?_⟩
        · cases heq
          exact ⟨hright, rfl⟩
        · cases hretry.symm.trans hentry
          exact hover
      · cases hstep
    · cases hstep
  case returned =>
    split at hstep
    · rename_i id hphase
      have hcore := h.core
      have hheld := h.held
      rw [hphase] at hcore hheld
      cases hstep
      exact .from (hcore.reschedule (fun other hother => (Option.some.inj hother).symm) hheld) rfl
        trivial
    · cases hstep

theorem initial (document : DesiredState) (sequence : ℕ) : Inv { document, sequence } where
  core := {
    delivered := by
      have hknows : Knows 0 [] [] {} := by
        intro output _ _ between command t before heq
        cases between <;> cases heq
      exact ⟨[], [], [], rfl, rfl, .nil, fun _ => hknows⟩
    ordered := ⟨.nil, by simp [admissions]⟩
    named id retry hretry := by cases hretry
    paced id source saved t hmem := by cases hmem
    right later output source saved time earlier heq := by simp at heq }
  held := trivial

end Inv

/-- Whatever others command, the decoder says and the clock does while the supervisor waits, it
never retries a source that is not the saved one, past a command that it has not weighed, against a
fresh choice for the output, or sooner than its pace. -/
theorem retries_respect {document : DesiredState} {sequence : ℕ} {acts : List Act} {s : System}
    {later earlier : List Deed} {output : OutputId} {source : NdiSourceRef}
    {saved : Option NdiSourceRef} {time : ℕ}
    (h : Steps.after System.step { document, sequence } acts = some s)
    (hpast : s.past = later ++ .retried output source saved time :: earlier) :
    Right output source saved time earlier := by
  have hinv : Inv s :=
    Steps.after_inv (fun _ _ _ hkeeps hstep => hkeeps.step hstep) (.initial document sequence) h
  exact hinv.core.right later output source saved time earlier hpast

def camera : NdiSourceRef := ⟨"STUDIO (Camera)", ""⟩

def atRest : DesiredState := { outputs := .singleton 1 { source := some camera } }

def unplugged : Json :=
  .obj [("outputs", .arr [.obj [("connected", .bool false), ("output_index", .int 0)]])]

/-- The camera is chosen, does not connect, and is retried when the output has rested. -/
def chosen : List Act :=
  [.submit (.selectSource 1 camera), .announce, .receive, .refreshed true, .tick grace,
    .statusTick, .refreshed true, .answered (some unplugged), .tick (5 * second), .timer,
    .refreshed true, .answered none, .retried true]

theorem chosen_respected :
    ∃ s, Steps.after System.step { document := atRest } chosen = some s ∧
      s.past = [] ++ .retried 1 camera (some camera) (35 * second) ::
        [.fenced, .admitted (.selectSource 1 camera) 0] ∧
      Right 1 camera (some camera) (35 * second)
        [.fenced, .admitted (.selectSource 1 camera) 0] := by
  have hchosen : ∃ s, Steps.after System.step { document := atRest } chosen = some s ∧
      s.past = [] ++ .retried 1 camera (some camera) (35 * second) ::
        [.fenced, .admitted (.selectSource 1 camera) 0] := ⟨_, rfl, rfl⟩
  obtain ⟨s, hrun, hpast⟩ := hchosen
  exact ⟨s, hrun, hpast, retries_respect hrun hpast⟩

end NdimonR.Control.Supervisor
