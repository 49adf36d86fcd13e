import NdimonR.State.DecisionsKept
import NdimonR.State.Revisions

/-! What a client may conclude from revisions that it has read: an equal one means that nothing has
changed, in the whole document or in one domain. Neither crashes nor recoveries undo this. -/

namespace NdimonR.State.AssetStore

open NdimonR.Types

variable {O Action : Type} {env : Env Action}

theorem sectionJson_revision (s : DesiredState) (revision : ℕ) (d : Domain) :
    sectionJson { s with revision } d = sectionJson s d := by
  cases d <;> rfl

theorem sectionDiff_trans {a b c : DesiredState} {d : Domain} (hab : sectionDiff a b d = [])
    (hbc : sectionDiff b c d = []) : sectionDiff a c d = [] := by
  rw [section_diff_eq_nil_iff] at *
  exact hab.trans hbc

theorem sectionDiff_self (a : DesiredState) (d : Domain) : sectionDiff a a d = [] := by
  rw [section_diff_eq_nil_iff]

/-- A plan names every domain whose section is not as before. -/
theorem plan_silent {planner : Planner Action} {a next : DesiredState} {context revision : ℕ}
    {command : Command} {p : Plan Action}
    (hplan : plan planner { a with revision := context } next command = .ok p) {d : Domain}
    (hd : d ∉ p.domains) : sectionDiff a { next with revision } d = [] := by
  rw [(plan_spec hplan).2, List.mem_filter] at hd
  have hnot : involved { a with revision := context } next command d = false :=
    Bool.eq_false_iff.mpr fun h => hd ⟨mem_planning_order command d, h⟩
  rw [involved, Bool.or_eq_false_iff, Bool.not_eq_false', List.isEmpty_iff,
    section_diff_eq_nil_iff, sectionJson_revision] at hnot
  rw [section_diff_eq_nil_iff, sectionJson_revision]
  exact hnot.1

/-- What the code makes of an envelope. -/
inductive Succeeds (f : StateFile (Metadata O)) : StateFile (Metadata O) → Prop
  | told (others : O) : Succeeds f { f with rest := { f.rest with others } }
  | advanced {document : DesiredState} {domains : List Domain} {others : O} {rest : Metadata O}
      (hrest : f.rest.advance domains others = some rest)
      (hrevision : document.revision = f.document.revision + 1)
      (hsilent : ∀ d ∉ domains, sectionDiff f.document document d = []) :
      Succeeds f { document, rest }
  | decided {network : NetworkProfiles} {others : O} {rest : Metadata O}
      (hrest : f.rest.decide others = some rest) : Succeeds f
        { document := { f.document with
            network
            revision := f.document.revision + 1 }
          rest }

/-- A start may change the document, and keeps every revision. -/
inductive Migrates (f : StateFile (Metadata O)) : StateFile (Metadata O) → Prop
  | logo (asset : AssetRef) : Migrates f { f with document.display.splash.logo := some asset }
  | presets (presets : SortedMap String Preset) (others : O) : Migrates f
      { document := { f.document with presets }
        rest := { f.rest with others } }

theorem advance_eq {m next : Metadata O} {domains : List Domain} {others : O}
    (h : m.advance domains others = some next) : m.revision + 1 ≤ maxRevision ∧
      next.revision = m.revision + 1 ∧
      (∀ d, next.domainRevisions d = if d ∈ domains then m.revision + 1 else m.domainRevisions d) ∧
      next.networkCommitRevision = m.networkCommitRevision := by
  unfold Metadata.advance at h
  split_ifs at h with hlimit
  cases h
  exact ⟨hlimit, rfl, fun _ => rfl, rfl⟩

namespace StateFile.Numbered

variable {f g : StateFile (Metadata O)}

theorem advanced (h : f.Numbered) {document : DesiredState} {domains : List Domain} {others : O}
    {rest : Metadata O} (hrest : f.rest.advance domains others = some rest)
    (hrevision : document.revision = f.document.revision + 1) :
    StateFile.Numbered { document, rest } := by
  obtain ⟨hlimit, hnext, hdomains, hnetwork⟩ := advance_eq hrest
  refine ⟨⟨?_, fun d => ?_, fun r hr => ?_⟩, ?_⟩ <;> dsimp only
  · rw [hrevision, h.document, hnext]
  · rw [hdomains, hnext]
    split
    · exact Nat.le_refl _
    · exact Nat.le_succ_of_le (h.domains d)
  · rw [hnext]
    exact Nat.le_succ_of_le (h.network r (hnetwork ▸ hr))
  · exact hnext ▸ hlimit

theorem succeeds (h : f.Numbered) (hnext : Succeeds f g) : g.Numbered := by
  cases hnext with
  | told others => exact ⟨⟨h.document, h.domains, h.network⟩, h.limit⟩
  | advanced hrest hrevision => exact h.advanced hrest hrevision
  | @decided network others rest hrest =>
    obtain ⟨m, hm, rfl⟩ := Option.map_eq_some_iff.mp hrest
    have hadvanced : StateFile.Numbered { document := { f.document with
        network
        revision := f.document.revision + 1 }, rest := m } := h.advanced hm rfl
    refine ⟨⟨hadvanced.document, hadvanced.domains, fun r hr => ?_⟩, hadvanced.limit⟩
    obtain rfl := Option.some.inj hr
    exact Nat.le_refl _

theorem migrates (h : f.Numbered) (hnext : Migrates f g) : g.Numbered := by
  cases hnext with
  | logo | presets => exact ⟨⟨h.document, h.domains, h.network⟩, h.limit⟩

theorem fresh (document : DesiredState) (others : O) :
    StateFile.Numbered { document := { document with revision := 0 }, rest := .new 0 others } :=
  ⟨⟨rfl, fun _ => Nat.le_refl 0, fun _ hr => (by cases hr)⟩, Nat.zero_le _⟩

end StateFile.Numbered

namespace Follows

variable {a f g : StateFile (Metadata O)}

theorem refl (h : a.Numbered) : Follows a a :=
  ⟨h, Nat.le_refl _, fun _ => rfl, fun _ => Nat.le_refl _, fun d _ => sectionDiff_self a.document d⟩

/-- The revisions that have been counted on are not those of before. -/
theorem advanced (h : Follows a f) (ha : a.Numbered) {document : DesiredState}
    {domains : List Domain} {others : O} {rest : Metadata O}
    (hrest : f.rest.advance domains others = some rest)
    (hrevision : document.revision = f.document.revision + 1)
    (hsilent : ∀ d ∉ domains, sectionDiff f.document document d = []) :
    Follows a { document, rest } := by
  obtain ⟨_, hnext, hdomains, _⟩ := advance_eq hrest
  have hrevision' : a.rest.revision ≤ f.rest.revision := h.revision
  refine ⟨h.numbered.advanced hrest hrevision, ?_, fun hsame => ?_, fun d => ?_,
    fun d hsame => ?_⟩ <;> dsimp only at *
  · omega
  · omega
  · have hd := ha.domains d
    rw [hdomains]
    split
    · omega
    · exact h.domains d
  · have hd := ha.domains d
    rw [hdomains] at hsame
    split at hsame
    · omega
    · rename_i hother
      exact sectionDiff_trans (h.sections d hsame) (hsilent d hother)

theorem decided_silent (document : DesiredState) (network : NetworkProfiles) (revision : ℕ) :
    ∀ d ∉ [Domain.network], sectionDiff document { document with network, revision } d = [] := by
  intro d hd
  rw [section_diff_eq_nil_iff]
  cases d with
  | network => exact absurd (.head _) hd
  | device | outputs | ndi | audio | tessera | display | presets | plugins => rfl

theorem succeeds (h : Follows a f) (ha : a.Numbered) (hnext : Succeeds f g) : Follows a g := by
  cases hnext with
  | told others => exact ⟨h.numbered.succeeds (.told others), h.revision, h.document, h.domains,
      h.sections⟩
  | advanced hrest hrevision hsilent => exact h.advanced ha hrest hrevision hsilent
  | @decided network others rest hrest =>
    have hnumbered : StateFile.Numbered { document := { f.document with
        network
        revision := f.document.revision + 1 }, rest } := h.numbered.succeeds (.decided hrest)
    obtain ⟨m, hm, rfl⟩ := Option.map_eq_some_iff.mp hrest
    have hadvanced : Follows a { document := { f.document with
        network
        revision := f.document.revision + 1 }, rest := m } :=
      h.advanced ha hm rfl (decided_silent f.document network _)
    exact ⟨hnumbered, hadvanced.revision, hadvanced.document, hadvanced.domains, hadvanced.sections⟩

end Follows

variable [DecidableEq O]

namespace System

variable {s s' : System (Metadata O)}

/-- Where the envelopes come from that an act makes with the metadata of the code. -/
inductive From (s : System (Metadata O)) (x : Act O) : StateFile (Metadata O) → Prop
  | fresh (document : DesiredState) (others : O) (h : s.disk.state = none) : From s x
      { document := { document with revision := 0 }
        rest := .new 0 others }
  | next {f g : StateFile (Metadata O)} (hf : s.InPlay f) (hnext : Succeeds f g) : From s x g
  | migrated {f g : StateFile (Metadata O)} (hf : s.InPlay f) (hnext : Migrates f g)
      (hx : x.migrates s = true) : From s x g

omit [DecidableEq O] in
theorem inPlay_bound {f : StateFile (Metadata O)} {p : Phase (Metadata O)} (hphase : s.phase = p)
    (hf : f ∈ p.binding) : s.InPlay f := .inr (.inr (hphase ▸ hf))

theorem inPlay_refreshed {f : StateFile (Metadata O)} (hf : s.refreshed = some f) : s.InPlay f :=
  .inl (refreshed_eq hf).2.1

theorem made_from {x : Act O} {a : Act (Metadata O)} {f : StateFile (Metadata O)}
    (ha : x.envelope env s = some a) (hmade : Made env s a f) : From s x f := by
  unfold Act.envelope at ha
  cases x <;> dsimp only at ha
  case start imported =>
    cases ha
    cases hmade with
    | imported hnone => exact .fresh imported.document imported.rest hnone
  case importLegacy bytes written =>
    cases ha
    cases hmade with
    | logo hphase asset => exact .migrated (inPlay_bound hphase (.head _)) (.logo asset) rfl
  case migrate presets others =>
    split at ha
    · rename_i f hphase
      cases ha
      cases hmade with
      | migrated hstarting =>
        cases hphase.symm.trans hstarting
        by_cases hsame : f.document.presets = presets
        · subst hsame
          exact .next (inPlay_bound hphase (.head _)) (.told others)
        · refine .migrated (inPlay_bound hphase (.head _)) (.presets presets others) ?_
          simp [Act.migrates, hphase, hsame]
    · cases ha
  case decide network others =>
    obtain ⟨f, hf, ha⟩ := Option.bind_eq_some_iff.mp ha
    obtain ⟨rest, hrest, rfl⟩ := Option.map_eq_some_iff.mp ha
    cases hmade with
    | decided hstate =>
      cases hf.symm.trans hstate
      exact .next (.inl hf) (.decided hrest)
  case record others =>
    obtain ⟨f, hf, rfl⟩ := Option.map_eq_some_iff.mp ha
    cases hmade with
    | recorded hrefreshed =>
      cases hf.symm.trans hrefreshed
      exact .next (inPlay_refreshed hf) (.told others)
  case submit context others =>
    split at ha
    · rename_i f m queue hf hqueue
      obtain ⟨next, hreduce, ha⟩ := Option.bind_eq_some_iff.mp ha
      obtain ⟨p, hplan, ha⟩ := Option.bind_eq_some_iff.mp ha
      obtain ⟨rest, hrest, ha⟩ := Option.bind_eq_some_iff.mp ha
      cases ha
      cases hmade with
      | submitted hrefreshed hm hreduced hplanned =>
        cases hf.symm.trans hrefreshed
        rw [hqueue] at hm
        cases hm
        cases (toOption_eq_some.mp hreduce).symm.trans hreduced
        cases (toOption_eq_some.mp hplan).symm.trans hplanned
        exact .next (inPlay_refreshed hf) (.advanced hrest rfl fun d hd => plan_silent hplanned hd)
    · cases ha
  case complete plugins others =>
    obtain ⟨f, hf, ha⟩ := Option.bind_eq_some_iff.mp ha
    obtain ⟨rest, hrest, rfl⟩ := Option.map_eq_some_iff.mp ha
    cases hmade with
    | completed hrefreshed =>
      cases hf.symm.trans hrefreshed
      split_ifs at hrest with hsame
      · cases hrest
        subst hsame
        rw [if_pos rfl]
        exact .next (inPlay_refreshed hf) (.told others)
      · rw [if_neg hsame]
        refine .next (inPlay_refreshed hf) (.advanced hrest rfl fun d hd => ?_)
        rw [section_diff_eq_nil_iff]
        cases d with
        | plugins => exact absurd (.head _) hd
        | device | outputs | ndi | audio | network | tessera | display | presets => rfl
  case reserve others =>
    split at ha
    · rename_i t hphase
      cases ha
      cases hmade with
      | reserved hadmitted =>
        cases hphase.symm.trans hadmitted
        exact .next (inPlay_bound hphase (.head _)) (.told others)
    · cases ha
  case accept others =>
    split at ha
    · rename_i t hphase
      cases ha
      cases hmade with
      | accepted hstaged =>
        cases hphase.symm.trans hstaged
        exact .next (inPlay_bound hphase (.tail _ (.head _))) (.told others)
    · cases ha
  case releaseReservation others =>
    split at ha
    · rename_i t hphase
      cases ha
      cases hmade with
      | released hfailing =>
        cases hphase.symm.trans hfailing
        exact .next (inPlay_bound hphase (.head _)) (.told others)
    · cases ha
  all_goals
    cases ha
    cases hmade

variable {served : Prop} {a f : StateFile (Metadata O)}

omit [DecidableEq O] in
theorem From.numbered (h : Holding served StateFile.Numbered s) {x : Act O} (hfrom : From s x f) :
    f.Numbered := by
  cases hfrom with
  | fresh document others => exact .fresh document others
  | next hg hnext => exact (h.play _ hg).succeeds hnext
  | migrated hg hnext => exact (h.play _ hg).migrates hnext

omit [DecidableEq O] in
theorem From.follows (ha : a.Numbered) (h : Holding True (Follows a) s) {x : Act O}
    (hx : x.migrates s = false) (hfrom : From s x f) : Follows a f := by
  cases hfrom with
  | fresh _ _ hnone =>
    obtain ⟨g, hg⟩ := h.state trivial
    cases hnone.symm.trans hg
  | next hg hnext => exact (h.play _ hg).succeeds ha hnext
  | migrated _ _ hmigrates => cases hx.symm.trans hmigrates

omit [DecidableEq O] in
/-- Before the first start there is nothing. -/
theorem Holding.fresh (P : StateFile (Metadata O) → Prop) (assets : Directory) :
    Holding False P { disk := { assets } } where
  atomic := .fresh assets
  state := False.elim
  play f hf := by
    rcases hf with hf | hf | hf
    · cases hf
    · cases hf.1
    · cases hf

end System

namespace Calling

variable {c c' : Calling (Metadata O)} {served : Prop} {a : StateFile (Metadata O)}

theorem envelope_cases {m : Move O} {m' : Move (Metadata O)} (h : c.envelope env m = some m') :
    (∃ x x', m = .act x ∧ x.envelope env c.system = some x' ∧ m' = .act x') ∨
    (∃ f others, c.system.refreshed = some f ∧ m' = .call { f.rest with others }) ∨
    m' = .answered ∨ m' = .refused none ∨
    ∃ f others, c.call = some f ∧ m' = .refused (some { f.rest with others }) := by
  cases m with
  | act x =>
    obtain ⟨x', hx, rfl⟩ := Option.map_eq_some_iff.mp h
    exact .inl ⟨x, x', rfl, hx, rfl⟩
  | call others =>
    obtain ⟨f, hf, rfl⟩ := Option.map_eq_some_iff.mp h
    exact .inr (.inl ⟨f, others, hf, rfl⟩)
  | answered =>
    cases h
    exact .inr (.inr (.inl rfl))
  | refused rest =>
    cases rest with
    | none =>
      cases h
      exact .inr (.inr (.inr (.inl rfl)))
    | some others =>
      obtain ⟨f, hf, rfl⟩ := Option.map_eq_some_iff.mp h
      exact .inr (.inr (.inr (.inr ⟨f, others, hf, rfl⟩)))

/-- What is kept by whatever the code makes of an envelope is kept by a step, calls included. -/
theorem Keeps.envelope {P : StateFile (Metadata O) → Prop} (h : Keeps (System.Holding served P) P c)
    {m : Move O} (hfrom : ∀ x, m = .act x → ∀ f, System.From c.system x f → P f)
    (htold : ∀ f, P f → ∀ others, P { f with rest := { f.rest with others } })
    (hstep : c.stepEnvelope env m = some c') : Keeps (System.Holding served P) P c' := by
  obtain ⟨m', hm, hstep⟩ := Option.bind_eq_some_iff.mp hstep
  apply h.step _ _ _ _ hstep
  · rintro a s' rfl hact
    rcases envelope_cases hm with
      ⟨x, _, rfl, hx, heq⟩ | ⟨_, _, _, heq⟩ | heq | heq | ⟨_, _, _, heq⟩ <;> cases heq
    exact h.system.step (fun f hmade => hfrom x rfl f (System.made_from hx hmade)) hact
  · rintro f rest rfl hf
    rcases envelope_cases hm with
      ⟨_, _, _, _, heq⟩ | ⟨g, others, hg, heq⟩ | heq | heq | ⟨_, _, _, heq⟩ <;> cases heq
    cases hf.symm.trans hg
    exact htold f (h.system.refreshed hf) others
  · rintro f rest rfl hf
    rcases envelope_cases hm with
      ⟨_, _, _, _, heq⟩ | ⟨_, _, _, heq⟩ | heq | heq | ⟨g, others, hg, heq⟩ <;> cases heq
    cases hf.symm.trans hg
    exact htold f (h.call f hf) others
  · intro f hf
    exact h.system.writes hf (.unlocked h.system.atomic.marker rfl) System.nothing_bound

/-- Every envelope that counts or may count passes the check, from the first start on. -/
theorem Keeps.numbered {assets : Directory} {moves : List (Move O)}
    (hrun : Steps.after (stepEnvelope env) { system := { disk := { assets } } } moves = some c) :
    Keeps (System.Holding False StateFile.Numbered) StateFile.Numbered c := by
  refine Steps.after_inv (fun _ _ _ h hstep => h.envelope ?_ ?_ hstep)
    ⟨.fresh _ assets, fun _ hf => (by cases hf)⟩ hrun
  · exact fun _ _ _ hfrom => hfrom.numbered h.system
  · exact fun _ hf others => hf.succeeds (.told others)

theorem Keeps.read (h : Keeps (System.Holding False StateFile.Numbered) StateFile.Numbered c)
    (hread : c.system.refreshed = some a) (hcall : c.call = none) :
    Keeps (System.Holding True (Follows a)) (Follows a) c := by
  obtain ⟨hphase, hstate, hpending⟩ := System.refreshed_eq hread
  have hself : Follows a a := .refl (h.system.refreshed hread)
  refine ⟨⟨h.system.atomic, fun _ => ⟨a, hstate⟩, fun f hf => ?_⟩, fun f hf => ?_⟩
  · rcases hf with hf | hf | hf
    · exact Option.some.inj (hstate.symm.trans hf) ▸ hself
    · cases hpending.symm.trans hf.1
    · rw [hphase] at hf
      cases hf
  · cases hcall.symm.trans hf

/-- An envelope is read between the turns of the actor. However commands, plugin jobs, root jobs,
calls, failed writes, rollbacks, crashes and starts follow, other than a start that migrates:
whatever counts or may still count has no smaller revisions, and where one is the same, so is what
it is the revision of. -/
theorem revisions_kept {assets : Directory} {moves later : List (Move O)}
    {before : Calling (Metadata O)}
    (hrun : Steps.after (stepEnvelope env) { system := { disk := { assets } } } moves = some before)
    (hread : before.system.refreshed = some a) (hcall : before.call = none)
    (hlater : Steps.Meets (stepEnvelope env) (fun c m => m.migrates c = false) before later)
    (hmore : Steps.after (stepEnvelope env) before later = some c) :
    a.Numbered ∧ (∃ f, c.system.disk.committed = some f ∧ Follows a f) ∧
      (∀ f, c.system.InPlay f ∨ c.call = some f → Follows a f) ∧
      ∀ f, c.system.refreshed = some f → ∀ d ≠ .plugins,
        a.rest.domainRevisions d = f.rest.domainRevisions d →
          sameSection a.document f.document d := by
  have hnumbered := Keeps.numbered hrun
  have ha : a.Numbered := hnumbered.system.refreshed hread
  have hlast : Keeps (System.Holding True (Follows a)) (Follows a) c := by
    refine hlater.inv (fun _ m _ h hkeeps hstep => h.envelope ?_ ?_ hstep)
      (hnumbered.read hread hcall) hmore
    · rintro x rfl f hfrom
      exact hfrom.follows ha h.system hkeeps
    · exact fun _ hf others => hf.succeeds ha (.told others)
  refine ⟨ha, hlast.system.committed, fun f hf => ?_, fun f hf d hd hsame => ?_⟩
  · exact hf.elim (hlast.system.play f) (hlast.call f)
  · have hfollows : Follows a f := hlast.system.refreshed hf
    exact same_of_prune_eq hd ((section_diff_eq_nil_iff _ _ _).mp (hfollows.sections d hsame))

def unnumbered : Calling (Metadata Unit) := { system := { disk := { assets := fun _ => none } } }

/-- A decision and a command that waited, after an envelope was read. -/
def afterRead : List (Move Unit) := (.decide studio () :: .refresh :: turn).map .act

theorem display_revisions_kept : ∃ before a c,
    Steps.after (stepEnvelope displayEnv) unnumbered (upload.map .act) = some before ∧
    Steps.after (stepEnvelope displayEnv) before afterRead = some c ∧
    a.Numbered ∧ (∃ f, c.system.disk.committed = some f ∧ Follows a f) ∧
      (∀ f, c.system.InPlay f ∨ c.call = some f → Follows a f) ∧
      ∀ f, c.system.refreshed = some f → ∀ d ≠ .plugins,
        a.rest.domainRevisions d = f.rest.domainRevisions d →
          sameSection a.document f.document d := by
  have hsome : (Steps.after (stepEnvelope displayEnv) unnumbered (upload.map .act)).isSome = true :=
    by decide +kernel
  obtain ⟨before, hbefore⟩ := Option.isSome_iff_exists.mp hsome
  have hnext : ∀ t ∈ Steps.after (stepEnvelope displayEnv) unnumbered (upload.map .act),
      t.system.refreshed.isSome = true ∧ t.call = none ∧
        Steps.Meets (stepEnvelope displayEnv) (fun c m => m.migrates c = false) t afterRead ∧
        (Steps.after (stepEnvelope displayEnv) t afterRead).isSome = true := by
    decide +kernel
  obtain ⟨hread, hcall, hlater, hmore⟩ := hnext before hbefore
  obtain ⟨a, ha⟩ := Option.isSome_iff_exists.mp hread
  obtain ⟨c, hc⟩ := Option.isSome_iff_exists.mp hmore
  exact ⟨before, a, c, hbefore, hc, revisions_kept hbefore ha hcall hlater hc⟩

end Calling

end NdimonR.State.AssetStore
