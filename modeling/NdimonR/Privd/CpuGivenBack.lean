import NdimonR.Privd.Cpu

/-! The interval is given back by every call that lets go of it, whatever was cut off before. -/

namespace NdimonR.Privd.Cpu

open Proc

/-- What a snapshot says about the interval that is owed. A completed one leaves it open whether
an operator has written since. -/
structure Vouches (owed : Option Nat) (s : Sampling) (p : Snapshot) : Prop where
  applied : p.applied = target
  original : target < p.original
  present : s.rate ≠ none
  pending : p.pending = true → owed = some p.original
  ours : s.rate = some target → owed = some p.original
  theirs : p.pending = false → s.rate ≠ some target → owed = s.rate

/-- What holds between any two effects of a call. -/
structure Owed (owed : Option Nat) (s : Sampling) : Prop where
  free : s.snapshot = none → owed = s.rate
  vouched : ∀ p, s.snapshot = some p → Vouches owed s p

variable {owed : Option Nat}

theorem readRate_ok {s : Sampling} {value : Nat} (h : readRate s = .ok value) :
    s.rate = some value := by
  unfold readRate at h
  split at h
  · cases h
  · rename_i r hr
    split at h
    · cases h
    · split at h
      · cases h
        exact hr
      · cases h

theorem store_ok {s t : Sampling} {value : Nat} (h : store value s = .ok ((), t)) :
    s.rate ≠ none ∧ t = { s with rate := some value } := by
  unfold store at h
  split at h
  · cases h
  · rename_i r hr
    cases h
    exact ⟨by rw [hr]; exact nofun, rfl⟩

theorem owed_start (rate : Option Nat) : Owed rate { rate } where
  free _ := rfl
  vouched p h := by cases h

theorem owed_operate {s : Sampling} (value : Nat) (h : Owed owed s) :
    Owed (owed.map fun _ => owes value s) (operate value s) where
  free hs := by
    have hnone : s.snapshot = none := hs
    rw [h.free hnone]
    unfold owes operate
    rw [hnone]
  vouched p hs := by
    have hsome : s.snapshot = some p := hs
    obtain ⟨happlied, horiginal, hpresent, hpending, hours, htheirs⟩ := h.vouched p hsome
    obtain ⟨r, hr⟩ := Option.ne_none_iff_exists'.mp hpresent
    have howed : ∃ o, owed = some o := by
      by_cases hp : p.pending = true
      · exact ⟨_, hpending hp⟩
      · by_cases hrate : s.rate = some target
        · exact ⟨_, hours hrate⟩
        · exact ⟨r, by rw [htheirs (by simpa using hp) hrate, hr]⟩
    obtain ⟨o, ho⟩ := howed
    have hrate : (operate value s).rate = some value := by
      unfold operate
      rw [hr]
      rfl
    rw [ho]
    refine ⟨happlied, horiginal, ?_, ?_, ?_, ?_⟩
    · rw [hrate]
      exact nofun
    · intro hp
      simp [owes, hsome, hp]
    · intro hv
      rw [hrate] at hv
      simp [owes, hsome, happlied, Option.some.inj hv]
    · intro hp hv
      rw [hrate] at hv ⊢
      have hne : value ≠ target := fun heq => hv (by rw [heq])
      simp [owes, hsome, hp, happlied, hne]

/-! ### The steps of a call -/

/-- The write is described by what it does to a state that has an interval. -/
theorem endures_writeRate {K P Q : Sampling → Prop} {value : Nat}
    (h : ∀ s, s.rate ≠ none → K s → P s →
      K { s with rate := some value } ∧ Q { s with rate := some value }) :
    Endures K P (writeRate value) fun _ => Q := by
  refine Endures.bind (Q := fun _ => Q) ?_ fun _ => ?_
  · refine Endures.effect fun s _ t hk hp hs => ?_
    obtain ⟨hr, ht⟩ := store_ok hs
    rw [ht]
    exact h s hr hk hp
  · refine Endures.bind (Q := fun _ => Q) (Endures.look fun _ _ _ hq _ => hq) fun now => ?_
    exact Endures.require.weaken (fun _ _ hq => hq) fun _ _ _ hq => hq.1

theorem owed_forget {s : Sampling} (h : owed = s.rate) : Owed owed (forget s) where
  free _ := h
  vouched p hp := by cases hp

/-- Both kinds of snapshot lead back to what is owed. -/
theorem endures_giveBack (saved : Snapshot) :
    Endures (Owed owed) (fun s => s.snapshot = some saved) (giveBack saved)
      fun _ s => owed = s.rate := by
  refine Endures.bind (Q := fun present s => present = s.rate.isSome ∧ s.snapshot = some saved)
    (Endures.peek fun s _ hs => ⟨rfl, hs⟩) fun present => ?_
  refine Endures.when ?_ ?_
  · intro _
    refine Endures.bind (Q := fun current s => s.rate = some current ∧ s.snapshot = some saved)
      (Endures.look fun s current _ hs hread => ⟨readRate_ok hread, hs.2⟩) fun current => ?_
    refine Endures.when ?_ ?_
    · intro hours
      refine endures_writeRate fun s hr howed hs => ?_
      obtain ⟨happlied, horiginal, _, hpending, hown, _⟩ := howed.vouched saved hs.2
      have heq : owed = some saved.original := by
        rcases hours with hp | hc
        · exact hpending hp
        · exact hown (by rw [hs.1, hc, happlied])
      refine ⟨⟨?_, ?_⟩, heq⟩
      · intro hnone
        cases hs.2.symm.trans hnone
      · intro p hp
        have hsaved : saved = p := Option.some.inj (hs.2.symm.trans hp)
        rw [← hsaved]
        exact ⟨happlied, horiginal, nofun, fun _ => heq, fun _ => heq, fun _ _ => heq⟩
    · intro s hnot howed hs
      obtain ⟨hp, hc⟩ := not_or.mp hnot
      obtain ⟨happlied, _, _, _, _, htheirs⟩ := howed.vouched saved hs.2
      refine htheirs (by simpa using hp) ?_
      rw [hs.1]
      intro heq
      exact hc (by rw [happlied]; exact Option.some.inj heq)
  · intro s hnot howed hs
    have hnone : s.rate = none := by
      rw [hs.1] at hnot
      simpa using hnot
    exact absurd hnone (howed.vouched saved hs.2).present

theorem endures_restore :
    Endures (Owed owed) (fun _ => True) restore
      fun _ s => s.snapshot = none ∧ owed = s.rate := by
  refine Endures.bind (Q := fun file s => s.snapshot = file) ?_ fun file => ?_
  · refine Endures.look fun s file _ _ hview => ?_
    cases hview
    rfl
  · cases file with
    | none => exact Endures.pure fun s howed hs => ⟨hs, howed.free hs⟩
    | some saved =>
      refine Endures.bind Endures.glance fun _ => ?_
      refine Endures.bind Endures.require fun _ => ?_
      refine Endures.bind (Q := fun _ s => owed = s.rate)
        ((endures_giveBack saved).weaken (fun _ _ hs => hs.1) fun _ _ _ hq => hq) fun _ => ?_
      exact Endures.change fun s _ heq => ⟨owed_forget heq, rfl, heq⟩

theorem endures_orRestore {P Q : Sampling → Prop} {step : Tuning Unit}
    (h : Endures (Owed owed) P step fun _ => Q) :
    Endures (Owed owed) P (orRestore step) fun _ => Q := by
  refine Endures.bind h.attempt fun r => ?_
  cases r with
  | ok u => exact Endures.pure fun s _ hq => hq () rfl
  | error e =>
    refine Endures.bind (Q := fun _ _ => True) ?_ fun _ => Endures.fail
    exact endures_restore.ignore.weaken (fun _ _ _ => trivial) fun _ _ _ _ => trivial

/-- No change is left pending. -/
def Completed (s : Sampling) : Prop := ∀ p, s.snapshot = some p → p.pending = false

theorem owed_save {s : Sampling} {p : Snapshot} (h : Vouches owed s p) : Owed owed (save p s) where
  free hs := by cases hs
  vouched q hq := by
    cases hq
    exact ⟨h.applied, h.original, h.present, h.pending, h.ours, h.theirs⟩

theorem vouches_saved {s : Sampling} {original : Nat} {pending : Bool}
    (hlong : target < original) (heq : owed = some original)
    (hs : s.rate = some target ∨ s.rate = some original ∧ pending = true) :
    Vouches owed s ⟨original, target, pending⟩ := by
  refine ⟨rfl, hlong, ?_, fun _ => heq, fun _ => heq, ?_⟩
  · rcases hs with hs | ⟨hs, _⟩ <;> rw [hs] <;> exact nofun
  · intro hp hr
    rcases hs with hs | ⟨_, ht⟩
    · exact absurd hs hr
    · exact absurd (ht.symm.trans hp) nofun

theorem endures_shorten {original : Nat} (hlong : target < original) :
    Endures (Owed owed) (fun s => owed = s.rate ∧ s.rate = some original) (shorten original)
      fun _ => Completed := by
  refine Endures.bind (Q := fun _ s => owed = some original ∧
    s.snapshot = some ⟨original, target, true⟩) ?_ fun _ => ?_
  · refine Endures.change fun s _ hs => ?_
    have heq : owed = some original := hs.1.trans hs.2
    exact ⟨owed_save (vouches_saved hlong heq (.inr ⟨hs.2, rfl⟩)), heq, rfl⟩
  · refine Endures.bind (Q := fun _ s => owed = some original ∧ s.rate = some target)
      (endures_orRestore (endures_writeRate ?_)) fun _ => endures_orRestore ?_
    · intro s _ howed hs
      refine ⟨⟨?_, ?_⟩, hs.1, rfl⟩
      · intro hnone
        cases hs.2.symm.trans hnone
      · intro p hp
        cases Option.some.inj (hs.2.symm.trans hp)
        exact vouches_saved hlong hs.1 (.inl rfl)
    · refine Endures.change fun s _ hs => ⟨owed_save (vouches_saved hlong hs.1 (.inl hs.2)), ?_⟩
      intro p hp
      cases hp
      rfl

/-- What a call that ends well leaves. -/
def Ended (profile : CpuProfile) (enabled : Bool) (owed : Option Nat) (s : Sampling) : Prop :=
  Completed s ∧ (profile ≠ .decode ∨ enabled = false → owed = s.rate)

theorem ended_restored {profile : CpuProfile} {enabled : Bool} {s : Sampling}
    (hs : s.snapshot = none) (heq : owed = s.rate) : Ended profile enabled owed s := by
  refine ⟨?_, fun _ => heq⟩
  intro p hp
  cases hs.symm.trans hp

theorem endures_tune (profile : CpuProfile) (enabled : Bool) (m : Machine) :
    Endures (Owed owed) (fun _ => True) (tune profile enabled m)
      fun _ => Ended profile enabled owed := by
  refine Endures.bind Endures.glance fun _ => ?_
  refine Endures.bind Endures.glance fun _ => ?_
  refine Endures.bind endures_restore fun _ => ?_
  refine Endures.when ?_ fun s _ _ hs => ended_restored hs.1 hs.2
  rintro ⟨hdecode, henabled⟩
  refine Endures.bind (Q := fun _ s => s.snapshot = none ∧ owed = s.rate)
    (Endures.peek fun _ _ hs => hs) fun present => ?_
  refine Endures.bind (Q := fun _ s => s.snapshot = none ∧ owed = s.rate)
    (Endures.ofExcept fun _ _ _ _ hs => hs) fun go => ?_
  refine Endures.when ?_ fun s _ _ hs => ended_restored hs.1 hs.2
  intro _
  refine Endures.bind (Q := fun original s => s.snapshot = none ∧ owed = s.rate ∧
    s.rate = some original) (Endures.look fun s original _ hs hread =>
      ⟨hs.1, hs.2, readRate_ok hread⟩) fun original => ?_
  refine Endures.when ?_ fun s _ _ hs => ended_restored hs.1 hs.2.1
  intro hlong
  refine (endures_shorten hlong).weaken (fun _ _ hs => hs.2) fun _ s _ hc => ⟨hc, ?_⟩
  rintro (hp | he)
  · exact absurd hdecode hp
  · rw [he] at henabled
    cases henabled

theorem owed_run (c : Call) {s : Sampling} (h : Owed owed s) : Owed owed (c.run s).2 :=
  (endures_tune c.profile c.enabled c.machine).keeps h trivial c.faults

theorem ended_run (c : Call) {s : Sampling} (h : Owed owed s) (hok : (c.run s).1 = .ok ()) :
    Ended c.profile c.enabled owed (c.run s).2 :=
  (endures_tune c.profile c.enabled c.machine).ends h trivial hok

theorem owed_of_reached {s : Sampling} (h : Reached owed s) : Owed owed s := by
  induction h with
  | start rate => exact owed_start rate
  | operated value _ ih => exact owed_operate value ih
  | called c _ ih => exact owed_run c ih

/-! ### An operator's interval under a completed change -/

/-- The operator's interval stands, and no snapshot claims it. -/
structure Kept (rate : Option Nat) (s : Sampling) : Prop where
  stands : s.rate = rate
  unclaimed : ∀ p, s.snapshot = some p → p.pending = false ∧ p.applied = target

theorem kept_giveBack {rate : Option Nat} (hne : rate ≠ some target) (saved : Snapshot) :
    Endures (Kept rate) (fun s => s.snapshot = some saved) (giveBack saved) fun _ _ => True := by
  refine Endures.bind (Q := fun _ s => s.snapshot = some saved)
    (Endures.peek fun _ _ hs => hs) fun present => ?_
  refine Endures.when ?_ fun _ _ _ _ => trivial
  intro _
  refine Endures.bind (Q := fun current s => s.rate = some current ∧ s.snapshot = some saved)
    (Endures.look fun s current _ hs hread => ⟨readRate_ok hread, hs⟩) fun current => ?_
  refine Endures.when ?_ fun _ _ _ _ => trivial
  intro hours
  refine endures_writeRate fun s _ hkept hs => ?_
  obtain ⟨hp, ha⟩ := hkept.unclaimed saved hs.2
  rcases hours with hpending | hcurrent
  · exact absurd (hp.symm.trans hpending) nofun
  · exact absurd (hkept.stands.symm.trans (hs.1.trans (by rw [hcurrent, ha]))) hne

theorem kept_restore {rate : Option Nat} (hne : rate ≠ some target) :
    Endures (Kept rate) (fun _ => True) restore fun _ _ => True := by
  refine Endures.bind (Q := fun file s => s.snapshot = file) ?_ fun file => ?_
  · refine Endures.look fun s file _ _ hview => ?_
    cases hview
    rfl
  · cases file with
    | none => exact Endures.pure fun _ _ _ => trivial
    | some saved =>
      refine Endures.bind Endures.glance fun _ => ?_
      refine Endures.bind Endures.require fun _ => ?_
      refine Endures.bind (Q := fun _ _ => True)
        ((kept_giveBack hne saved).weaken (fun _ _ hs => hs.1) fun _ _ _ _ => trivial) fun _ => ?_
      exact Endures.change fun s hkept _ => ⟨⟨hkept.stands, nofun⟩, trivial⟩

/-- A call that lets go of the interval leaves an operator's alone, wherever it is cut off. -/
theorem kept_run {rate : Option Nat} (hne : rate ≠ some target) {c : Call} (hc : c.releases)
    {s : Sampling} (h : Kept rate s) : Kept rate (c.run s).2 := by
  have htune : Endures (Kept rate) (fun _ => True) (tune c.profile c.enabled c.machine)
      fun _ _ => True := by
    refine Endures.bind Endures.glance fun _ => ?_
    refine Endures.bind Endures.glance fun _ => ?_
    refine Endures.bind (kept_restore hne) fun _ => ?_
    refine Endures.when ?_ fun _ _ _ _ => trivial
    rintro ⟨hdecode, henabled⟩
    rcases hc with hp | he
    · exact absurd hdecode hp
    · exact absurd (he.symm.trans henabled) nofun
  exact htune.keeps h trivial c.faults

theorem kept_runs {rate : Option Nat} (hne : rate ≠ some target) {calls : List Call}
    (hcalls : ∀ c ∈ calls, c.releases) {s : Sampling} (h : Kept rate s) :
    Kept rate (calls.foldl (fun s c => (c.run s).2) s) := by
  induction calls generalizing s with
  | nil => exact h
  | cons c rest ih =>
    rw [List.foldl_cons]
    refine ih (fun d hd => hcalls d (List.mem_cons_of_mem _ hd)) ?_
    exact kept_run hne (hcalls c List.mem_cons_self) h

theorem kept_operate {s : Sampling} (h : Owed owed s) (hs : Completed s) (value : Nat) :
    Kept (operate value s).rate (operate value s) where
  stands := rfl
  unclaimed p hp := ⟨hs p hp, (h.vouched p hp).applied⟩

/-- In every run: a call that lets go of the interval and ends well leaves what is owed; an
operator's write after a Decode call that ended well stands through every later call that lets go;
and the target is never recorded as the original. -/
theorem interval_given_back {s : Sampling} (h : Reached owed s) :
    (∀ c : Call, c.releases → (c.run s).1 = .ok () → (c.run s).2.rate = owed) ∧
    (∀ c : Call, (c.run s).1 = .ok () → ∀ value, value ≠ target → ∀ calls : List Call,
      (∀ d ∈ calls, d.releases) →
        (calls.foldl (fun s d => (d.run s).2) (operate value (c.run s).2)).rate =
          (operate value (c.run s).2).rate) ∧
    ∀ p, s.snapshot = some p → p.applied = target ∧ target < p.original ∧
      (p.pending = true → owed = some p.original) := by
  have howed := owed_of_reached h
  refine ⟨?_, ?_, ?_⟩
  · intro c hc hok
    exact ((ended_run c howed hok).2 hc).symm
  · intro c hok value hvalue calls hcalls
    refine (kept_runs ?_ hcalls (kept_operate (owed_run c howed) (ended_run c howed hok).1
      value)).stands
    unfold operate
    cases (c.run s).2.rate with
    | none => exact nofun
    | some r => simpa using hvalue
  · intro p hp
    have hv := howed.vouched p hp
    exact ⟨hv.applied, hv.original, hv.pending⟩

def board : Machine where
  compatible := .ok (some (Text.bytes "rockchip,rk3588"))
  policies := .ok [("policy0", .ok "ondemand\n")]

def decodeCall (faults : List (Fault Error)) : Call := ⟨.decode, true, board, faults⟩

def releaseCall : Call := ⟨.restore, true, board, []⟩

/-- A Decode call shortens the interval, a restore gives it back, and what an operator writes in
between stands. -/
theorem interval_given_back_decoded :
    ((decodeCall []).run { rate := some 50000 }).2.rate = some 10000 ∧
    (releaseCall.run ((decodeCall []).run { rate := some 50000 }).2).2.rate = some 50000 ∧
    (releaseCall.run (operate 20000 ((decodeCall []).run { rate := some 50000 }).2)).2.rate =
      some 20000 := by
  have hstart := Reached.start (some 50000)
  refine ⟨rfl, ?_, ?_⟩
  · exact (interval_given_back (.called (decodeCall []) hstart)).1 releaseCall
      (.inl nofun) rfl
  · refine (interval_given_back hstart).2.1 (decodeCall []) rfl 20000 ?_ [releaseCall] ?_
    · exact nofun
    · intro d hd
      rw [List.mem_singleton.mp hd]
      exact .inl nofun

/-- The worker is killed once its snapshot is pending; the operator's write behind it is undone. -/
theorem given_back_false : ¬ ∀ (owed : Option Nat) (s : Sampling) (value : Nat) (c : Call),
    Reached owed s → s.rate ≠ none → c.releases → (c.run (operate value s)).1 = .ok () →
      (c.run (operate value s)).2.rate = some value := by
  intro hall
  have h := hall _ _ 20000 releaseCall
    (.called (decodeCall [.pass, .pass, .pass, .pass, .pass, .killed]) (.start (some 50000)))
    (by exact nofun) (.inl nofun) rfl
  exact absurd h (by decide)

end NdimonR.Privd.Cpu
