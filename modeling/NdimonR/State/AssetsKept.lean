import NdimonR.State.AssetSystem

/-! A referenced image is never collected, whatever the order of uploads, commands, decisions of the
root job, starts and crashes. -/

namespace NdimonR.State.AssetStore

open NdimonR.Types

variable {R Action : Type} {env : Env Action}

/-- The logo that an envelope names can be read. -/
def LogoHolds (digest : Bytes → String) (d : Directory) (f : StateFile R) : Prop :=
  ∀ asset, f.logo = some asset → Holds digest d asset

theorem LogoHolds.same {digest : Bytes → String} {d : Directory} {f g : StateFile R}
    (h : LogoHolds digest d f) (hlogo : g.logo = f.logo) : LogoHolds digest d g :=
  fun asset hasset => h asset (hlogo ▸ hasset)

/-- What is readable in the one directory is in the other. -/
def Extends (digest : Bytes → String) (d d' : Directory) : Prop :=
  ∀ asset, Holds digest d asset → Holds digest d' asset

namespace System

/-- The logo of every envelope on the disk and in memory can be read, and so can what requests
hold. The actor collects for the logo that is on the disk. -/
structure Inv (env : Env Action) (s : System R) : Prop where
  state : ∀ f, s.disk.state = some f → LogoHolds env.digest s.disk.assets f
  previous : ∀ f, s.disk.previous = some f → LogoHolds env.digest s.disk.assets f
  memory : ∀ f ∈ s.phase.files, LogoHolds env.digest s.disk.assets f
  current : ∀ f, s.phase.collecting = some f → ∀ g, s.disk.state = some g → g.logo = f.logo
  unmarked : ∀ f, s.phase.collecting = some f → s.disk.pending = false
  staged : ∀ t, s.phase.staging = some t → s.disk.state = some t.next
  held : ∀ e ∈ s.held, Holds env.digest s.disk.assets e.2
  pins : ∀ hash, s.pins hash = s.held.countP fun e => e.2.sha256 = hash

theorem Inv.new (assets : Directory) : Inv env ({ disk := { assets } } : System R) where
  state _ h := by cases h
  previous _ h := by cases h
  memory _ h := by cases h
  current _ h := by cases h
  unmarked _ h := by cases h
  staged _ h := by cases h
  held _ h := by cases h
  pins _ := rfl

variable {s s' : System R}

theorem Inv.assets (h : Inv env s) {d : Directory} (hd : Extends env.digest s.disk.assets d) :
    Inv env { s with disk.assets := d } where
  state f hf asset hasset := hd asset (h.state f hf asset hasset)
  previous f hf asset hasset := hd asset (h.previous f hf asset hasset)
  memory f hf asset hasset := hd asset (h.memory f hf asset hasset)
  current := h.current
  unmarked := h.unmarked
  staged := h.staged
  held e he := hd e.2 (h.held e he)
  pins := h.pins

/-- The actor moves on with envelopes whose logos can be read. -/
theorem Inv.phase (h : Inv env s) {p : Phase R}
    (memory : ∀ f ∈ p.files, LogoHolds env.digest s.disk.assets f)
    (current : ∀ f, p.collecting = some f → ∀ g, s.disk.state = some g → g.logo = f.logo)
    (unmarked : ∀ f, p.collecting = some f → s.disk.pending = false)
    (staged : ∀ t, p.staging = some t → s.disk.state = some t.next) :
    Inv env { s with phase := p } :=
  { h with memory, current, unmarked, staged }

/-- A moved actor that neither has staged anything nor collects. -/
theorem Inv.moves (h : Inv env s) {p : Phase R}
    (memory : ∀ f ∈ p.files, LogoHolds env.digest s.disk.assets f)
    (collecting : p.collecting = none) (staging : p.staging = none) :
    Inv env { s with phase := p } :=
  h.phase memory (fun f hf => absurd (collecting.symm.trans hf) (by simp))
    (fun f hf => absurd (collecting.symm.trans hf) (by simp))
    fun t ht => absurd (staging.symm.trans ht) (by simp)

theorem Inv.writeState (h : Inv env s) {f : StateFile R}
    (hf : LogoHolds env.digest s.disk.assets f) {p : Phase R}
    (memory : ∀ f ∈ p.files, LogoHolds env.digest s.disk.assets f)
    (current : ∀ g, p.collecting = some g → f.logo = g.logo ∧ s.disk.pending = false)
    (staged : ∀ t, p.staging = some t → f = t.next) : Inv env (s.writeState f p) where
  state g hg := by
    cases hg
    exact hf
  previous := h.previous
  memory := memory
  current g hg f' hf' := by
    cases hf'
    exact (current g hg).1
  unmarked g hg := (current g hg).2
  staged t ht := congrArg some (staged t ht)
  held := h.held
  pins := h.pins

/-- A written envelope, by an actor that neither has staged anything nor collects. -/
theorem Inv.rewrites (h : Inv env s) {f : StateFile R} {p : Phase R}
    (hf : LogoHolds env.digest s.disk.assets f)
    (memory : ∀ f ∈ p.files, LogoHolds env.digest s.disk.assets f)
    (collecting : p.collecting = none) (staging : p.staging = none) :
    Inv env (s.writeState f p) :=
  h.writeState hf memory (fun g hg => absurd (collecting.symm.trans hg) (by simp))
    fun t ht => absurd (staging.symm.trans ht) (by simp)

theorem Inv.mark (h : Inv env s) (collecting : s.phase.collecting = none) :
    Inv env { s with disk.pending := true } :=
  ⟨h.state, h.previous, h.memory, h.current,
    fun _ hf => absurd (collecting.symm.trans hf) (by simp), h.staged, h.held, h.pins⟩

theorem Inv.unmark (h : Inv env s) : Inv env { s with disk.pending := false } :=
  ⟨h.state, h.previous, h.memory, h.current, fun _ _ => rfl, h.staged, h.held, h.pins⟩

theorem Inv.save (h : Inv env s) {f : StateFile R} (hf : LogoHolds env.digest s.disk.assets f) :
    Inv env { s with disk.previous := some f } where
  state := h.state
  previous g hg := by
    cases hg
    exact hf
  memory := h.memory
  current := h.current
  unmarked := h.unmarked
  staged := h.staged
  held := h.held
  pins := h.pins

/-- The same envelopes in memory. -/
theorem Inv.goes (h : Inv env s) {p : Phase R} (files : ∀ f ∈ p.files, f ∈ s.phase.files)
    (collecting : p.collecting = none) (staging : p.staging = none) :
    Inv env { s with phase := p } :=
  h.moves (fun f hf => h.memory f (files f hf)) collecting staging

theorem Inv.queue (h : Inv env s) (queue : List Message) : Inv env { s with queue } :=
  ⟨h.state, h.previous, h.memory, h.current, h.unmarked, h.staged, h.held, h.pins⟩

theorem Inv.crash (h : Inv env s) : Inv env s.crash where
  state := h.state
  previous := h.previous
  memory _ h := by cases h
  current _ h := by cases h
  unmarked _ h := by cases h
  staged _ h := by cases h
  held _ h := by cases h
  pins _ := rfl

/-! ### Uploads -/

/-- What a request holds is pinned. -/
theorem Inv.pinned (h : Inv env s) {e : ℕ × AssetRef} (he : e ∈ s.held) : 0 < s.pins e.2.sha256 := by
  rw [h.pins, List.countP_pos_iff]
  exact ⟨e, he, by simp⟩

theorem toOption_eq_some {ε α : Type} {x : Except ε α} {a : α} :
    x.toOption = some a ↔ x = .ok a := by cases x <;> simp [Except.toOption]

theorem storeFiles_eq {bytes : Bytes} {written : ℕ} {asset : AssetRef} {whole : Bool}
    (hstore : s.storeFiles env bytes written = some (asset, whole, s')) :
    ∃ files d, stored env.digest bytes = .ok (asset, files) ∧
      s.disk.assets.writeAll (files.take written) = .ok d ∧
      whole = decide (files.length ≤ written) ∧ s' = { s with disk.assets := d } := by
  obtain ⟨⟨asset', files⟩, hstored, hstore⟩ := Option.bind_eq_some_iff.mp hstore
  obtain ⟨d, hwrite, hstore⟩ := Option.bind_eq_some_iff.mp hstore
  cases hstore
  exact ⟨files, d, toOption_eq_some.mp hstored, toOption_eq_some.mp hwrite, rfl, rfl⟩

/-- SHA-256 makes names of assets, and different ones for images of different types. -/
structure Digests (digest : Bytes → String) : Prop where
  valid : ∀ bytes, validHash (digest bytes) = true
  distinct : Distinct digest

/-- Files are stored without another asset going, and the whole of them can be read. -/
theorem storeFiles_holds (hdigest : Digests env.digest) (h : Inv env s) {bytes : Bytes}
    {written : ℕ} {asset : AssetRef} {whole : Bool}
    (hstore : s.storeFiles env bytes written = some (asset, whole, s')) :
    Inv env s' ∧ (∃ d, s' = { s with disk.assets := d }) ∧
      Extends env.digest s.disk.assets s'.disk.assets ∧
        (whole = true → Holds env.digest s'.disk.assets asset) := by
  obtain ⟨files, d, hstored, hwrite, rfl, rfl⟩ := storeFiles_eq hstore
  have hextends : Extends env.digest s.disk.assets d :=
    fun other hother => hother.writeAll hdigest.distinct hstored hwrite
  refine ⟨h.assets hextends, ⟨d, rfl⟩, hextends, fun hwhole => ?_⟩
  rw [List.take_of_length_le (of_decide_eq_true hwhole)] at hwrite
  exact holds_stored hdigest.valid hstored hwrite

theorem Inv.put (hdigest : Digests env.digest) (h : Inv env s) {request : ℕ} {bytes : Bytes}
    {written : ℕ} (hput : s.put env request bytes written = some s') : Inv env s' := by
  obtain ⟨⟨asset, whole, mid⟩, hstore, heq⟩ := Option.map_eq_some_iff.mp hput
  obtain ⟨hmid, _, _, hasset⟩ := storeFiles_holds hdigest h hstore
  dsimp only at heq
  split_ifs at heq with hwhole
  · subst heq
    refine { hmid with held := fun e he => ?_, pins := fun hash => ?_ }
    · rcases List.mem_cons.mp he with rfl | he
      · exact hasset hwhole
      · exact hmid.held e he
    · rw [List.countP_cons]
      dsimp only
      by_cases hhash : hash = asset.sha256
      · subst hhash
        rw [Function.update_self, hmid.pins]
        simp
      · rw [Function.update_of_ne hhash, hmid.pins]
        simp [Ne.symm hhash]
  · subst heq
    exact hmid

theorem Inv.releaseAsset (h : Inv env s) {request : ℕ} {asset : AssetRef}
    (hrelease : s.releaseAsset request asset = some s') : Inv env s' := by
  unfold System.releaseAsset at hrelease
  split_ifs at hrelease with hheld
  cases hrelease
  refine { h with held := fun e he => h.held e (List.mem_of_mem_erase he), pins := fun hash => ?_ }
  rw [List.countP_erase]
  dsimp only
  by_cases hhash : hash = asset.sha256
  · subst hhash
    rw [Function.update_self, h.pins]
    simp [hheld]
  · rw [Function.update_of_ne hhash, h.pins]
    simp [Ne.symm hhash]

theorem Inv.importLegacy (hdigest : Digests env.digest) (h : Inv env s) {bytes : Bytes}
    {written : ℕ} {f : StateFile R} (himport : s.importLegacy env bytes written f = some s') :
    Inv env s' := by
  unfold System.importLegacy at himport
  split_ifs at himport
  obtain ⟨⟨asset, whole, mid⟩, hstore, heq⟩ := Option.map_eq_some_iff.mp himport
  obtain ⟨hmid, _, _, hasset⟩ := storeFiles_holds hdigest h hstore
  dsimp only at heq
  split_ifs at heq with hwhole
  · subst heq
    refine hmid.moves (fun g hg => ?_) rfl rfl
    rw [List.mem_singleton.mp hg]
    intro other hother
    cases hother
    exact hasset hwhole
  · subst heq
    exact hmid

/-! ### Turns of the actor -/

/-- The actor collects what neither its document nor the one before names, nor a request holds. -/
theorem Inv.collectAssets (h : Inv env s) (gone : Option (String → Bool)) {f : StateFile R}
    (hf : s.phase.collecting = some f) : Inv env (s.collectAssets gone f) := by
  have hmemory : LogoHolds env.digest s.disk.assets f := by
    refine h.memory f ?_
    cases hphase : s.phase with
    | booting g =>
      rw [hphase] at hf
      cases hf
      exact .head _
    | committed t =>
      rw [hphase] at hf
      cases hf
      exact .tail _ (.head _)
    | down | starting | idle | admitted | saved | marked | staged | failing | restored =>
      rw [hphase] at hf
      cases hf
  have hkeeps : ∀ asset, Holds env.digest s.disk.assets asset → s.keep f asset.sha256 = true →
      Holds env.digest (s.collectAssets gone f).disk.assets asset :=
    fun asset hasset hkeep => hasset.collect hkeep _
  have hcurrent : ∀ asset, f.logo = some asset → s.keep f asset.sha256 = true := by
    intro asset hasset
    have hreferenced := logo_referenced hasset (hmemory asset hasset).valid
    simp [keep, keeps, hreferenced]
  have hprevious : ∀ g, s.disk.previous = some g → ∀ asset, g.logo = some asset →
      s.keep f asset.sha256 = true := by
    intro g hg asset hasset
    have hreferenced := logo_referenced hasset (h.previous g hg asset hasset).valid
    simp [keep, keeps, hg, hreferenced]
  refine ⟨fun g hg asset hasset => ?_, fun g hg asset hasset => ?_, fun g hg asset hasset => ?_,
    fun _ hg => (by cases hg), fun _ hg => (by cases hg), fun _ ht => (by cases ht),
    fun e he => ?_, h.pins⟩
  · exact hkeeps asset (h.state g hg asset hasset)
      (hcurrent asset ((h.current f hf g hg).symm.trans hasset))
  · exact hkeeps asset (h.previous g hg asset hasset) (hprevious g hg asset hasset)
  · rw [List.mem_singleton.mp hg] at hasset
    exact hkeeps asset (hmemory asset hasset) (hcurrent asset hasset)
  · refine hkeeps e.2 (h.held e he) ?_
    simp [keep, keeps, h.pinned he]

/-- The envelopes of a transaction. -/
theorem Inv.transaction (h : Inv env s) {t : Transaction R}
    (hphase : s.phase.files = [t.previous, t.next]) :
    LogoHolds env.digest s.disk.assets t.previous ∧ LogoHolds env.digest s.disk.assets t.next := by
  refine ⟨h.memory _ ?_, h.memory _ ?_⟩ <;> rw [hphase] <;> simp

theorem Inv.single (h : Inv env s) {f : StateFile R} (hphase : s.phase.files = [f]) :
    LogoHolds env.digest s.disk.assets f := by
  refine h.memory f ?_
  rw [hphase]
  exact .head _

theorem not_staging {p : Phase R} (hfree : p.unlocked = true) (t : Transaction R) :
    p.staging ≠ some t := by
  cases p <;> simp [Phase.unlocked, Phase.staging] at hfree ⊢

section Turns

variable [DecidableEq R]

theorem refreshed_eq {f : StateFile R} (h : s.refreshed = some f) :
    s.phase = .idle f ∧ s.disk.state = some f ∧ s.disk.pending = false := by
  unfold refreshed at h
  split at h
  · rename_i g g' hphase hstate
    split_ifs at h with hsame
    cases h
    exact ⟨hphase, hsame.2 ▸ hstate, hsame.1⟩
  · cases h

theorem Inv.refreshed (h : Inv env s) {f : StateFile R} (hf : s.refreshed = some f) :
    LogoHolds env.digest s.disk.assets f := h.state f (refreshed_eq hf).2.1

theorem Inv.boot (hdigest : Digests env.digest) (h : Inv env s) {f : StateFile R}
    (hf : s.refreshed = some f) (hboot : s.boot env f = some s') : Inv env s' := by
  obtain ⟨d, hvalidate, rfl⟩ := Option.map_eq_some_iff.mp hboot
  have hvalidate := toOption_eq_some.mp hvalidate
  have hextends : Extends env.digest s.disk.assets d :=
    fun asset hasset => hasset.validateAssets hdigest.distinct hvalidate
  refine (h.assets hextends).phase (fun g hg => ?_) (fun g hg g' hg' => ?_)
    (fun _ _ => (refreshed_eq hf).2.2) (fun _ ht => by cases ht)
  · rw [List.mem_singleton.mp hg]
    exact fun asset hasset => hextends asset (h.refreshed hf asset hasset)
  · cases hg
    have hstate := (refreshed_eq hf).2.1
    rw [Option.some.inj (hstate.symm.trans hg')]

omit [DecidableEq R] in
/-- Where the display differs its assets are validated. -/
theorem submit_logo (hdigest : Digests env.digest) {context : ℕ} {rest : R}
    {f : StateFile R} (hf : LogoHolds env.digest s.disk.assets f)
    (hsubmit : s.submit env context rest f = some s') :
    ∃ d m queue t, s' = { s with
        disk.assets := d
        queue
        phase := .admitted t } ∧ s.queue = m :: queue ∧ t.previous = f ∧
      Extends env.digest s.disk.assets d ∧ LogoHolds env.digest d t.next := by
  unfold System.submit at hsubmit
  split at hsubmit
  · cases hsubmit
  · rename_i m queue hqueue
    obtain ⟨next, hreduce, hsubmit⟩ := Option.bind_eq_some_iff.mp hsubmit
    obtain ⟨p, hplan, hsubmit⟩ := Option.bind_eq_some_iff.mp hsubmit
    split_ifs at hsubmit with hpaths hdisplay
    · obtain ⟨d, hvalidate, hsubmit⟩ := Option.bind_eq_some_iff.mp hsubmit
      have hvalidate := toOption_eq_some.mp hvalidate
      cases hsubmit
      refine ⟨d, m, queue, _, rfl, hqueue, rfl, ?_, ?_⟩
      · exact fun asset hasset => hasset.validateAssets hdigest.distinct hvalidate
      · exact fun asset hasset => holds_validated hdigest.distinct hvalidate hasset
    · cases hsubmit
      refine ⟨_, m, queue, _, rfl, hqueue, rfl, fun _ h => h, ?_⟩
      have hsame : sameSection { f.document with revision := context } next .display := by
        by_contra hdiffers
        refine hdisplay ?_
        rw [(plan_spec (toOption_eq_some.mp hplan)).2]
        refine List.mem_filter.mpr ⟨mem_planning_order _ _, ?_⟩
        have hdiff : sectionDiff { f.document with revision := context } next .display ≠ [] :=
          fun hnil => hdiffers (same_of_prune_eq (by decide)
            ((section_diff_eq_nil_iff _ _ _).mp hnil))
        simp [involved, hdiff]
      exact hf.same (congrArg (fun d : Display => d.splash.logo) hsame.symm)

theorem Inv.submit (hdigest : Digests env.digest) (h : Inv env s) {context : ℕ} {rest : R}
    {f : StateFile R} (hf : s.refreshed = some f)
    (hsubmit : s.submit env context rest f = some s') : Inv env s' := by
  obtain ⟨d, m, queue, t, rfl, _, hprevious, hextends, hnext⟩ :=
    submit_logo hdigest (h.refreshed hf) hsubmit
  refine ((h.assets hextends).queue queue).moves (fun g hg => ?_) rfl rfl
  rcases List.mem_cons.mp hg with rfl | hg
  · rw [hprevious]
    exact fun asset hasset => hextends asset (h.refreshed hf asset hasset)
  · rw [List.mem_singleton.mp hg]
    exact hnext

theorem Inv.step (hdigest : Digests env.digest) (h : Inv env s) {a : Act R}
    (hstep : s.step env a = some s') : Inv env s' := by
  unfold System.step at hstep
  cases a <;> dsimp only at hstep
  case put request bytes written =>
    split_ifs at hstep
    exact h.put hdigest hstep
  case send request command asset =>
    split_ifs at hstep
    cases hstep
    exact h.queue _
  case release request asset => exact h.releaseAsset hstep
  case crash =>
    cases hstep
    exact h.crash
  case start imported =>
    split at hstep
    · rename_i f hphase hstate
      split_ifs at hstep
      cases hstep
      refine h.moves (fun g hg => ?_) rfl rfl
      rw [List.mem_singleton.mp hg]
      exact h.state f hstate
    · split_ifs at hstep with hnone
      cases hstep
      refine h.moves (fun g hg => ?_) rfl rfl
      rw [List.mem_singleton.mp hg]
      exact fun asset hasset => absurd (hnone.2.symm.trans hasset) (by simp)
    · cases hstep
  case importLegacy bytes written =>
    split at hstep
    · exact h.importLegacy hdigest hstep
    · cases hstep
  case migrate presets rest =>
    split at hstep
    · rename_i f hphase
      cases hstep
      refine h.moves (fun g hg => ?_) rfl rfl
      rw [List.mem_singleton.mp hg]
      exact (h.single (f := f) (by rw [hphase, Phase.files])).same rfl
    · cases hstep
  case initializeState =>
    split at hstep
    · rename_i f hphase
      cases hstep
      have hf := h.single (f := f) (by rw [hphase, Phase.files])
      refine h.rewrites hf (fun g hg => ?_) rfl rfl
      rw [List.mem_singleton.mp hg]
      exact hf
    · cases hstep
  case serve =>
    split at hstep
    · rename_i f hphase
      cases hstep
      exact h.goes (by simp [hphase, Phase.files]) rfl rfl
    · cases hstep
  case restorePrevious =>
    split at hstep
    · rename_i f hprevious
      split_ifs at hstep with hfree
      cases hstep
      rw [Bool.and_eq_true] at hfree
      refine h.writeState (h.previous f hprevious) h.memory (fun g hg => ?_) (fun t ht => ?_)
      · exact absurd (hfree.2.symm.trans (h.unmarked g hg)) (by simp)
      · exact absurd ht (not_staging hfree.1 t)
    · cases hstep
  case unmark =>
    split_ifs at hstep
    cases hstep
    exact h.unmark
  case refresh =>
    split at hstep
    · rename_i f hphase hstate
      split_ifs at hstep
      cases hstep
      refine h.moves (fun g hg => ?_) rfl rfl
      rw [List.mem_singleton.mp hg]
      exact h.state f hstate
    · cases hstep
  case decide network rest =>
    split at hstep
    · rename_i f hstate
      split_ifs at hstep with hfree
      cases hstep
      rw [Bool.and_eq_true, Bool.not_eq_true'] at hfree
      refine h.writeState ?_ h.memory (fun g hg => ⟨?_, hfree.2⟩)
        (fun t ht => absurd ht (not_staging hfree.1 t))
      · exact (h.state f hstate).same rfl
      · exact h.current g hg f hstate
    · cases hstep
  case boot =>
    obtain ⟨f, hf, hboot⟩ := Option.bind_eq_some_iff.mp hstep
    exact h.boot hdigest hf hboot
  case refuse =>
    split at hstep
    · cases hstep
      exact h.queue _
    · cases hstep
  case record rest =>
    obtain ⟨f, hf, rfl⟩ := Option.map_eq_some_iff.mp hstep
    refine h.rewrites ?_ (fun g hg => ?_) rfl rfl
    · exact (h.refreshed hf).same rfl
    · rw [List.mem_singleton.mp hg]
      exact (h.refreshed hf).same rfl
  case submit context rest =>
    obtain ⟨f, hf, hsubmit⟩ := Option.bind_eq_some_iff.mp hstep
    exact h.submit hdigest hf hsubmit
  case complete plugins rest =>
    obtain ⟨f, hf, rfl⟩ := Option.map_eq_some_iff.mp hstep
    refine h.moves (fun g hg => ?_) rfl rfl
    rcases List.mem_cons.mp hg with rfl | hg
    · exact h.refreshed hf
    · rw [List.mem_singleton.mp hg]
      exact (h.refreshed hf).same rfl
  case reserve rest =>
    split at hstep
    · rename_i t hphase
      cases hstep
      obtain ⟨hprevious, hnext⟩ := h.transaction (t := t) (by rw [hphase, Phase.files])
      refine h.rewrites ?_ (fun g hg => ?_) rfl rfl
      · exact hprevious.same rfl
      · rcases List.mem_cons.mp hg with rfl | hg
        · exact hprevious.same rfl
        · rw [List.mem_singleton.mp hg]
          exact hnext
    · cases hstep
  case save =>
    split at hstep
    · rename_i t hphase
      cases hstep
      obtain ⟨hprevious, _⟩ := h.transaction (t := t) (by rw [hphase, Phase.files])
      exact (h.save hprevious).goes (by simp [hphase, Phase.files]) rfl rfl
    · cases hstep
  case mark =>
    split at hstep
    · rename_i t hphase
      cases hstep
      exact (h.mark (by rw [hphase]; rfl)).goes (by simp [hphase, Phase.files]) rfl rfl
    · cases hstep
  case publish =>
    split at hstep
    · rename_i t hphase
      cases hstep
      obtain ⟨_, hnext⟩ := h.transaction (t := t) (by rw [hphase, Phase.files])
      refine h.writeState hnext (fun g hg => h.memory g ?_) (fun _ hg => by cases hg) (fun u hu => ?_)
      · rw [hphase]
        exact hg
      · cases hu
        rfl
    · cases hstep
  case accept rest =>
    split at hstep
    · rename_i t hphase
      cases hstep
      obtain ⟨hprevious, hnext⟩ := h.transaction (t := t) (by rw [hphase, Phase.files])
      refine h.writeState ?_ (fun g hg => ?_) (fun g hg => ?_) (fun u hu => ?_)
      · exact hnext.same rfl
      · rcases List.mem_cons.mp hg with rfl | hg
        · exact hprevious
        · rw [List.mem_singleton.mp hg]
          exact hnext.same rfl
      · cases hg
      · cases hu
        rfl
    · cases hstep
  case commit =>
    split at hstep
    · rename_i t hphase
      cases hstep
      obtain ⟨_, hnext⟩ := h.transaction (t := t) (by rw [hphase, Phase.files])
      have hstaged := h.staged t (by rw [hphase, Phase.staging])
      split_ifs
      · refine h.unmark.phase (fun g hg => h.memory g ?_) (fun g hg g' hg' => ?_) (fun _ _ => rfl)
          (fun _ ht => by cases ht)
        · rw [hphase]
          exact hg
        · cases hg
          rw [Option.some.inj (hstaged.symm.trans hg')]
      · refine h.unmark.moves (fun g hg => ?_) rfl rfl
        rw [List.mem_singleton.mp hg]
        exact hnext
    · cases hstep
  case commitUnsynced =>
    split at hstep
    · rename_i t hphase
      cases hstep
      exact h.unmark.goes (by simp [hphase, Phase.files]) rfl rfl
    · cases hstep
  case fail =>
    split at hstep
    case h_5 => cases hstep
    all_goals
      rename_i t hphase
      cases hstep
      exact h.goes (by simp [hphase, Phase.files]) rfl rfl
  case releaseReservation rest =>
    split at hstep
    · rename_i t hphase
      cases hstep
      obtain ⟨hprevious, hnext⟩ := h.transaction (t := t) (by rw [hphase, Phase.files])
      refine h.rewrites ?_ (fun g hg => ?_) rfl rfl
      · exact hprevious.same rfl
      · rcases List.mem_cons.mp hg with rfl | hg
        · exact hprevious.same rfl
        · rw [List.mem_singleton.mp hg]
          exact hnext
    · cases hstep
  case putBack =>
    split at hstep
    · rename_i t hphase
      cases hstep
      obtain ⟨hprevious, _⟩ := h.transaction (t := t) (by rw [hphase, Phase.files])
      refine h.rewrites hprevious (fun g hg => h.memory g ?_) rfl rfl
      rw [hphase]
      exact hg
    · cases hstep
  case unmarkBack =>
    split at hstep
    · rename_i t hphase
      cases hstep
      exact h.unmark.goes (by simp [hphase, Phase.files]) rfl rfl
    · cases hstep
  case abandon =>
    split at hstep
    case h_4 => cases hstep
    all_goals
      rename_i t hphase
      cases hstep
      exact h.goes (by simp [hphase, Phase.files]) rfl rfl
  case collect gone =>
    split at hstep
    · rename_i f hf
      cases hstep
      exact h.collectAssets gone hf
    · cases hstep

end Turns

end System

end NdimonR.State.AssetStore
