import NdimonR.State.AssetsKept

/-! Uploads whose commands wait, what is left after a collection, and an upload that loses its pin
before its command is taken. -/

namespace NdimonR.State.AssetStore

open NdimonR.Types

variable {R Action : Type} {env : Env Action}

namespace System

variable [DecidableEq R] {s s' : System R}

/-! ### What a step leaves alone -/

/-- Acts that neither requests nor the queue take part in. -/
def Internal : Act R → Bool
  | .put .. | .send .. | .release .. | .crash | .refuse | .submit .. => false
  | _ => true

theorem internal_frame {a : Act R} (hinternal : Internal a = true)
    (hstep : s.step env a = some s') : s'.queue = s.queue ∧ s'.held = s.held := by
  unfold System.step at hstep
  cases a <;> dsimp only at hstep
  case put | send | release | crash | refuse | submit => cases hinternal
  case boot =>
    obtain ⟨f, _, hboot⟩ := Option.bind_eq_some_iff.mp hstep
    obtain ⟨d, _, rfl⟩ := Option.map_eq_some_iff.mp hboot
    exact ⟨rfl, rfl⟩
  case record | complete =>
    obtain ⟨f, _, rfl⟩ := Option.map_eq_some_iff.mp hstep
    exact ⟨rfl, rfl⟩
  case importLegacy bytes written =>
    split at hstep
    · unfold System.importLegacy at hstep
      split_ifs at hstep
      obtain ⟨⟨asset, whole, mid⟩, hstore, heq⟩ := Option.map_eq_some_iff.mp hstep
      obtain ⟨files, d, _, _, _, rfl⟩ := storeFiles_eq hstore
      dsimp only at heq
      split_ifs at heq <;> subst heq <;> exact ⟨rfl, rfl⟩
    · cases hstep
  all_goals
    repeat' split at hstep
    all_goals
      cases hstep
      try exact ⟨rfl, rfl⟩

omit [DecidableEq R] in
theorem put_frame {request : ℕ} {bytes : Bytes} {written : ℕ}
    (hput : s.put env request bytes written = some s') :
    s'.disk.committed = s.disk.committed ∧ s'.queue = s.queue ∧ ∀ e ∈ s.held, e ∈ s'.held := by
  obtain ⟨⟨asset, whole, mid⟩, hstore, heq⟩ := Option.map_eq_some_iff.mp hput
  obtain ⟨files, d, _, _, _, rfl⟩ := storeFiles_eq hstore
  dsimp only at heq
  split_ifs at heq
  · subst heq
    exact ⟨rfl, rfl, fun e he => .tail _ he⟩
  · subst heq
    exact ⟨rfl, rfl, fun e he => he⟩

omit [DecidableEq R] in
theorem submit_frame {context : ℕ} {rest : R} {f : StateFile R}
    (hsubmit : s.submit env context rest f = some s') : ∃ m, s.queue = m :: s'.queue ∧
      s'.held = s.held ∧ s'.disk.committed = s.disk.committed := by
  unfold System.submit at hsubmit
  split at hsubmit
  · cases hsubmit
  · rename_i m queue hqueue
    obtain ⟨next, _, hsubmit⟩ := Option.bind_eq_some_iff.mp hsubmit
    obtain ⟨p, _, hsubmit⟩ := Option.bind_eq_some_iff.mp hsubmit
    split_ifs at hsubmit
    · obtain ⟨d, _, hsubmit⟩ := Option.bind_eq_some_iff.mp hsubmit
      cases hsubmit
      exact ⟨m, hqueue, rfl, rfl⟩
    · cases hsubmit
      exact ⟨m, hqueue, rfl, rfl⟩

/-- A step that commits something leaves the assets as they are. -/
theorem commit_frame {a : Act R} (hstep : s.step env a = some s') :
    s'.disk.assets = s.disk.assets ∨ s'.disk.committed = s.disk.committed := by
  unfold System.step at hstep
  cases a <;> dsimp only at hstep
  case put request bytes written =>
    split_ifs at hstep
    exact .inr (put_frame hstep).1
  case submit context rest =>
    obtain ⟨f, _, hsubmit⟩ := Option.bind_eq_some_iff.mp hstep
    obtain ⟨m, _, _, hsame⟩ := submit_frame hsubmit
    exact .inr hsame
  case release request asset =>
    unfold System.releaseAsset at hstep
    split_ifs at hstep
    cases hstep
    exact .inl rfl
  case boot =>
    obtain ⟨f, _, hboot⟩ := Option.bind_eq_some_iff.mp hstep
    obtain ⟨d, _, rfl⟩ := Option.map_eq_some_iff.mp hboot
    exact .inr rfl
  case record | complete =>
    obtain ⟨f, _, rfl⟩ := Option.map_eq_some_iff.mp hstep
    exact .inl rfl
  case importLegacy bytes written =>
    split at hstep
    · unfold System.importLegacy at hstep
      split_ifs at hstep
      obtain ⟨⟨asset, whole, mid⟩, hstore, heq⟩ := Option.map_eq_some_iff.mp hstep
      obtain ⟨files, d, _, _, _, rfl⟩ := storeFiles_eq hstore
      dsimp only at heq
      split_ifs at heq <;> subst heq <;> exact .inr rfl
    · cases hstep
  case collect gone =>
    split at hstep
    · cases hstep
      exact .inr rfl
    · cases hstep
  all_goals
    repeat' split at hstep
    all_goals
      cases hstep
      try exact .inl rfl

/-! ### Commands that wait -/

/-- No request lets its asset go while a command of its waits. -/
def leave (s : System R) : Act R → Prop
  | .release request _ => ∀ m ∈ s.queue, m.request ≠ request
  | _ => True

/-- The request of a waiting command holds what it has uploaded for it. -/
def Waiting (s : System R) : Prop :=
  ∀ m ∈ s.queue, ∀ asset, m.asset = some asset → (m.request, asset) ∈ s.held

theorem Waiting.step (h : Waiting s) {a : Act R} (hleave : leave s a)
    (hstep : s.step env a = some s') : Waiting s' := by
  by_cases hinternal : Internal a = true
  · obtain ⟨hqueue, hheld⟩ := internal_frame hinternal hstep
    unfold Waiting
    rw [hqueue, hheld]
    exact h
  unfold System.step at hstep
  cases a <;> dsimp only at hstep
  case put request bytes written =>
    split_ifs at hstep
    obtain ⟨_, hqueue, hheld⟩ := put_frame hstep
    intro m hm asset hasset
    exact hheld _ (h m (hqueue ▸ hm) asset hasset)
  case send request command asset =>
    split_ifs at hstep with halive
    cases hstep
    intro m hm other hother
    rcases List.mem_append.mp hm with hm | hm
    · exact h m hm other hother
    · rw [List.mem_singleton.mp hm] at hother ⊢
      exact halive.2 other hother
  case release request asset =>
    unfold System.releaseAsset at hstep
    split_ifs at hstep
    cases hstep
    intro m hm other hother
    refine (List.mem_erase_of_ne fun heq => ?_).mpr (h m hm other hother)
    exact hleave m hm (congrArg Prod.fst heq)
  case crash =>
    cases hstep
    exact fun m hm => absurd hm List.not_mem_nil
  case refuse =>
    split at hstep
    · rename_i m queue hphase hqueue
      cases hstep
      exact fun other hother => h other (by rw [hqueue]; exact .tail _ hother)
    · cases hstep
  case submit context rest =>
    obtain ⟨f, _, hsubmit⟩ := Option.bind_eq_some_iff.mp hstep
    obtain ⟨m, hqueue, hheld, _⟩ := submit_frame hsubmit
    intro other hother
    rw [hheld]
    exact h other (by rw [hqueue]; exact .tail _ hother)
  all_goals exact absurd rfl hinternal

/-! ### Every run -/

/-- What the store should do at every moment: the logos of the committed document and of the one
before are there, a document is committed while its logo is, and what a whole collection leaves is
pinned or named. -/
structure Kept (env : Env Action) (s : System R) : Prop where
  committed : ∀ f, s.disk.committed = some f → LogoHolds env.digest s.disk.assets f
  previous : ∀ f, s.disk.previous = some f → LogoHolds env.digest s.disk.assets f
  commits : ∀ a s', s.step env a = some s' → ∀ f, s'.disk.committed = some f →
    s.disk.committed ≠ some f → LogoHolds env.digest s.disk.assets f
  collected : ∀ s', s.step env (.collect none) = some s' → ∃ current,
    s.phase.collecting = some current ∧ ∀ name bytes, s'.disk.assets name = some (.file bytes) →
      validHash (stem name) = true → 0 < s.pins (stem name) ∨
        stem name ∈ documentReferences current.document ∨
        ∃ f, s.disk.previous = some f ∧ stem name ∈ documentReferences f.document

omit [DecidableEq R] in
theorem Inv.committed (h : Inv env s) {f : StateFile R} (hf : s.disk.committed = some f) :
    LogoHolds env.digest s.disk.assets f := by
  unfold Disk.committed at hf
  split_ifs at hf
  · exact h.previous f hf
  · exact h.state f hf

theorem Inv.kept (hdigest : Digests env.digest) (h : Inv env s) : Kept env s where
  committed _ hf := h.committed hf
  previous := h.previous
  commits a s' hstep f hf hnew := by
    rcases commit_frame hstep with hassets | hsame
    · exact hassets ▸ (h.step hdigest hstep).committed hf
    · exact absurd (hsame ▸ hf) hnew
  collected s' hstep := by
    unfold System.step at hstep
    dsimp only at hstep
    split at hstep
    · rename_i current hcurrent
      cases hstep
      refine ⟨current, hcurrent, fun name bytes hfile hvalid => ?_⟩
      have hkeep := AssetStore.collected hfile hvalid
      simp only [keep, keeps, Bool.or_eq_true, decide_eq_true_eq, List.contains_iff_mem,
        Option.any_map, Option.any_eq_true] at hkeep
      exact hkeep.elim (fun h => h.elim .inl fun h => .inr (.inl h)) fun h => .inr (.inr h)
    · cases hstep

/-- From a device without state, however uploads, commands, decisions of the root job, failed
writes, starts and crashes follow each other: every image that counts is kept, and where requests
outlive their commands so is every upload that waits. -/
theorem assets_kept (hdigest : Digests env.digest) {assets : Directory} {acts : List (Act R)}
    (hrun : Steps.after (System.step env) { disk := { assets } } acts = some s) :
    Kept env s ∧ (Steps.Meets (System.step env) leave { disk := { assets } } acts →
      ∀ m ∈ s.queue, ∀ asset, m.asset = some asset → Holds env.digest s.disk.assets asset) := by
  have hinv : Inv env s := Steps.after_inv (fun _ _ _ h hstep => h.step hdigest hstep)
    (Inv.new assets) hrun
  refine ⟨hinv.kept hdigest, fun hmeets m hm asset hasset => ?_⟩
  have hwaiting : Waiting s := hmeets.inv (fun _ _ _ h hleave hstep => h.step hleave hstep)
    (fun m hm => absurd hm List.not_mem_nil) hrun
  exact hinv.held _ (hwaiting m hm asset hasset)

end System

/-! ### An upload -/

/-- The display's reducer. -/
def displayReduce (state : DesiredState) : Command → Except ApiError DesiredState
  | .setDisplay display => .ok { state with display }
  | .setLogo asset => .ok { state with display.splash.logo := asset }
  | .previewSplash _ => .ok state
  | .importBackup document .display => .ok { state with display := document.document.display }
  | _ => .error (ApiError.ofErrors [⟨"display", "unsupported display command"⟩])

/-- The signature of PNG, and nothing else. -/
def png : Bytes := [0x89, 0x50, 0x4E, 0x47, 0x0D, 0x0A, 0x1A, 0x0A]

/-- SHA-256 on that image, and one digest for each type on all others. -/
def pngDigest (bytes : Bytes) : String :=
  if bytes = png then "4c4b6a3be1314ab86138bef4314dde022e600960d8689a2c8f8631802d20dab6"
  else if (mediaType bytes).toOption = some "image/png" then
    "0000000000000000000000000000000000000000000000000000000000000000"
  else "1111111111111111111111111111111111111111111111111111111111111111"

theorem pngDigest_media {bytes : Bytes} {media : String} (h : mediaType bytes = .ok media) :
    media = if pngDigest bytes =
      "1111111111111111111111111111111111111111111111111111111111111111" then "image/jpeg"
      else "image/png" := by
  have heither : media = "image/png" ∨ media = "image/jpeg" := by
    unfold mediaType at h
    split_ifs at h <;> cases h
    · exact .inl rfl
    · exact .inr rfl
  unfold pngDigest
  rw [h, Except.toOption]
  by_cases hpng : bytes = png
  · subst hpng
    rw [if_pos rfl, if_neg (by decide)]
    exact Except.ok.inj (h.symm.trans (by decide +kernel : mediaType png = .ok "image/png"))
  · rw [if_neg hpng]
    rcases heither with rfl | rfl
    · rw [if_pos rfl, if_neg (by decide)]
    · rw [if_neg (by decide : ¬some "image/jpeg" = some "image/png"), if_pos rfl]

theorem pngDigest_digests : System.Digests pngDigest where
  valid bytes := by
    unfold pngDigest
    split_ifs <;> decide +kernel
  distinct a b media media' ha hb hsame := by
    rw [pngDigest_media ha, pngDigest_media hb, hsame]

def displayEnv : Env Unit where
  digest := pngDigest
  reduce := displayReduce
  planner := pluginDataPlanner

def logo : AssetRef := ⟨pngDigest png, "image/png"⟩

/-- A device starts; one request uploads a logo, after another has turned on the OSD. -/
def upload : List (Act Unit) :=
  [.start ⟨{}, ()⟩, .initializeState, .serve, .put 1 png 2, .send 2 (.setDisplay
    { osd := { enabled := true } }) none, .send 1 (.setLogo (some logo)) (some logo)]

/-- The actor takes the next command, commits it and collects. -/
def turn : List (Act Unit) := [.submit 0 (), .save, .mark, .publish, .commit, .collect none]

def fresh : System Unit := { disk := { assets := fun _ => none } }

namespace System

instance leave.decide (s : System Unit) : (a : Act Unit) → Decidable (leave s a)
  | .release request _ => inferInstanceAs (Decidable (∀ m ∈ s.queue, m.request ≠ request))
  | .put .. | .send .. | .crash | .start _ | .importLegacy .. | .migrate .. | .initializeState
  | .serve | .restorePrevious | .unmark | .refresh | .decide .. | .boot | .refuse | .record _
  | .submit .. | .complete .. | .reserve _ | .save | .mark | .publish | .accept _ | .commit
  | .commitUnsynced | .fail | .releaseReservation _ | .putBack | .unmarkBack | .abandon
  | .collect _ => isTrue trivial

/-- Both requests stay until the first command is committed. -/
theorem upload_kept : ∃ s, Steps.after (step displayEnv) fresh (upload ++ turn) = some s ∧
    Kept displayEnv s ∧ ∃ m ∈ s.queue, m.asset = some logo ∧
      Holds pngDigest s.disk.assets logo := by
  have hrun : (Steps.after (step displayEnv) fresh (upload ++ turn)).isSome = true := by
    decide +kernel
  obtain ⟨s, hs⟩ := Option.isSome_iff_exists.mp hrun
  obtain ⟨hkept, hwaiting⟩ := assets_kept pngDigest_digests hs
  have hqueue : ∀ t ∈ Steps.after (step displayEnv) fresh (upload ++ turn),
      ∃ m ∈ t.queue, m.asset = some logo := by decide +kernel
  obtain ⟨m, hm, hasset⟩ := hqueue s hs
  exact ⟨s, hs, hkept, m, hm, hasset, hwaiting (by decide +kernel) m hm logo hasset⟩

/-- The upload's connection is closed before its command is taken. -/
theorem upload_lost : ∃ before s, Steps.after (step displayEnv) fresh upload = some before ∧
    Holds pngDigest before.disk.assets logo ∧
    Steps.after (step displayEnv) before (.release 1 logo :: turn) = some s ∧
    ∃ m ∈ s.queue, m.asset = some logo ∧ ¬Holds pngDigest s.disk.assets logo := by
  have hrun : ((Steps.after (step displayEnv) fresh upload).any fun before =>
      decide (Holds pngDigest before.disk.assets logo) &&
        (Steps.after (step displayEnv) before (.release 1 logo :: turn)).any fun s =>
          decide (∃ m ∈ s.queue, m.asset = some logo ∧
            ¬Holds pngDigest s.disk.assets logo)) = true := by decide +kernel
  obtain ⟨before, hbefore, h⟩ := (Option.any_eq_true _ _).mp hrun
  obtain ⟨hholds, h⟩ := Bool.and_eq_true_iff.mp h
  obtain ⟨s, hs, hlost⟩ := (Option.any_eq_true _ _).mp h
  exact ⟨before, s, hbefore, of_decide_eq_true hholds, hs, of_decide_eq_true hlost⟩

end System

end NdimonR.State.AssetStore
