import NdimonR.Decoder.Domains

/-! A request changes the domains it supplies, as a whole, or nothing. -/

namespace NdimonR.Decoder

open Json Config

variable (narrow : ℚ → ℚ)

/-! ### The steps of the decoder -/

/-- `defaultAlias` is the start of the process, the rest the operations of `Config`. -/
inductive Op where
  | apply (request : Value) (audio : Option AudioApply)
  | load (disk : Disk)
  | saveDevice (disk : Disk)
  | getOutput (disk : Disk) (chNum : Nat)
  | setOutput (disk : Disk) (chNum : Nat) (out : OutputConfig)
  | setRuntimeIp (ip : String)
  | defaultAlias (name : String)

/-- Where an operation throws, what it has set stays. -/
def Op.run (op : Op) (c : Config) : Config :=
  match op with
  | .apply request audio => (c.applyConfig narrow request.val audio).2
  | .load disk => (c.load narrow disk).2
  | .saveDevice _ => c
  | .getOutput disk chNum => ((c.getOutput disk chNum).toOption.map Prod.snd).getD c
  | .setOutput disk chNum out => ((c.setOutput disk chNum out).toOption.map Prod.fst).getD c
  | .setRuntimeIp ip => c.setRuntimeIp ip
  | .defaultAlias name => c.defaultAlias name

def Config.after (ops : List Op) : Config := ops.foldl (fun c op => op.run narrow c) {}

namespace Config

variable {narrow} {request : Json} {apply : Option AudioApply} {c : Config}

/-! ### What leaves the followed domains alone -/

/-- The followed domains and what the snapshot says of them stay as they are. -/
structure Keeps (c c' : Config) : Prop where
  followed : c'.followed = c.followed
  followedConfig : c'.followedConfig = c.followedConfig
  revision : c'.revision = c.revision
  view : ∀ d, Domain.name d ∈ c.followed → c'.view d = c.view d

theorem Keeps.refl (c : Config) : Keeps c c := ⟨rfl, rfl, rfl, fun _ _ => rfl⟩

theorem Keeps.trans {a b c : Config} (hab : Keeps a b) (hbc : Keeps b c) : Keeps a c where
  followed := hbc.followed.trans hab.followed
  followedConfig := hbc.followedConfig.trans hab.followedConfig
  revision := hbc.revision.trans hab.revision
  view d hd := (hbc.view d (by rw [hab.followed]; exact hd)).trans (hab.view d hd)

/-- Only the settings of one domain change. -/
structure Touches (d : Domain) (c c' : Config) : Prop where
  followed : c'.followed = c.followed
  followedConfig : c'.followedConfig = c.followedConfig
  revision : c'.revision = c.revision
  view : ∀ e ≠ d, c'.view e = c.view e

theorem Touches.keeps {d : Domain} {c' : Config} (h : Touches d c c') (hd : d.name ∉ c.followed) :
    Keeps c c' where
  followed := h.followed
  followedConfig := h.followedConfig
  revision := h.revision
  view e he := h.view e fun hed => hd (hed ▸ he)

/-- A program that leaves the followed domains alone. -/
abbrev Careful (followed : Finset String) (p : Proc Config String Unit) : Prop :=
  Proc.Sound Keeps (fun c => c.followed = followed) (fun _ => True) p fun _ _ => True

theorem careful_modify {f : Finset String} {d : Domain} {change : Config → Config}
    (hd : d.name ∉ f) (h : ∀ c, Touches d c (change c)) : Careful f (Proc.modify change) := by
  refine Proc.Spec.modify fun c hf _ => ?_
  have hkeeps := (h c).keeps (by rw [hf]; exact hd)
  exact ⟨.single hkeeps, by rw [hkeeps.followed, hf], trivial⟩

theorem careful_assign {f : Finset String} {d : Domain} {α : Type} {value : Result α}
    {set : α → Config → Config} (hd : d.name ∉ f) (h : ∀ x c, Touches d c (set x c)) :
    Careful f (assign value set) := by
  refine Proc.Spec.bind (Q := fun _ _ => True) ?_ fun x => careful_modify hd (h x)
  exact Proc.Spec.ofExcept (fun _ _ _ _ _ => trivial) fun _ _ _ _ _ => trivial

theorem careful_onPart {f : Finset String} {d : Domain} {τ : Type} {part : Config → τ}
    {put : τ → Config → Config} {p : Proc τ String Unit} (hd : d.name ∉ f)
    (h : ∀ t c, Touches d c (put t c)) : Careful f (Proc.onPart part put p) := by
  refine Proc.Spec.onPart (P := fun _ => True) fun c t hf _ => ?_
  have hkeeps := (h t c).keeps (by rw [hf]; exact hd)
  exact ⟨hkeeps, by rw [hkeeps.followed, hf], trivial⟩

theorem careful_bind {f : Finset String} {p q : Proc Config String Unit} (hp : Careful f p)
    (hq : Careful f q) : Careful f (p >>= fun _ => q) :=
  Proc.Spec.bind hp fun _ => hq

theorem careful_when {f : Finset String} {φ : Prop} [Decidable φ] {p : Proc Config String Unit}
    (h : φ → Careful f p) : Careful f (Proc.when φ p) :=
  Proc.Spec.when h fun _ _ _ _ => trivial

theorem loadDecoder_careful (f : Finset String) (dec : Json) : Careful f (loadDecoder f dec) := by
  refine careful_bind (careful_when fun haudio => careful_assign (d := .audio) haudio ?_)
    (careful_bind (careful_when fun houtputs => ?_) (careful_when fun hndi => ?_))
  case refine_2 =>
    refine careful_bind (careful_assign (d := .outputs) houtputs ?_)
      (careful_bind (careful_assign (d := .outputs) houtputs ?_)
      (careful_bind (careful_assign (d := .outputs) houtputs ?_)
      (careful_bind (careful_assign (d := .outputs) houtputs ?_)
      (careful_assign (d := .outputs) houtputs ?_))))
    all_goals
      intro x c
      exact ⟨rfl, rfl, rfl, fun e he => by cases e <;> first | rfl | exact absurd rfl he⟩
  case refine_3 =>
    refine careful_bind (careful_assign (d := .ndi) hndi ?_) (careful_assign (d := .ndi) hndi ?_)
    all_goals
      intro x c
      exact ⟨rfl, rfl, rfl, fun e he => by cases e <;> first | rfl | exact absurd rfl he⟩
  intro x c
  exact ⟨rfl, rfl, rfl, fun e he => by cases e <;> first | rfl | exact absurd rfl he⟩

theorem loadDevice_careful (f : Finset String) (dev : Json) : Careful f (loadDevice f dev) := by
  refine careful_bind (careful_when fun hdevice => ?_)
    (careful_when fun haudio => careful_assign (d := .audio) haudio ?_)
  · refine careful_bind (careful_assign (d := .device) hdevice ?_)
      (careful_bind (careful_assign (d := .device) hdevice ?_)
      (careful_bind (careful_assign (d := .device) hdevice ?_)
      (careful_assign (d := .device) hdevice ?_)))
    all_goals
      intro x c
      exact ⟨rfl, rfl, rfl, fun e he => by cases e <;> first | rfl | exact absurd rfl he⟩
  · intro x c
    exact ⟨rfl, rfl, rfl, fun e he => by cases e <;> first | rfl | exact absurd rfl he⟩

/-- A file of one domain is read only while the domain is not followed. -/
theorem careful_unlessFollowed {f : Finset String} {d : Domain} {j : Json}
    {p : Json → Proc Config String Unit} (h : Domain.name d ∉ f → Careful f (p j)) :
    Careful f (Proc.when (readable (unlessFollowed f [d.name] j))
      (p (unlessFollowed f [d.name] j))) := by
  refine careful_when fun hreadable => ?_
  by_cases hd : Domain.name d ∈ f
  · have hnull : unlessFollowed f [d.name] j = .null := by simp [unlessFollowed, hd]
    rw [hnull] at hreadable
    exact absurd hreadable (by decide)
  · have hfile : unlessFollowed f [d.name] j = j := by simp [unlessFollowed, hd]
    rw [hfile]
    exact h hd

theorem careful_read {f : Finset String} {p : Finset String → Proc Config String Unit}
    (h : Careful f (p f)) : Careful f (Proc.read followed >>= p) := by
  intro c hc _
  have hrun := h c hc trivial
  subst hc
  exact hrun

theorem loadSources_careful (f : Finset String) (j : Json) :
    Careful f (Proc.modify (loadSources (unlessFollowed f ["ndi"] j))) := by
  by_cases hd : "ndi" ∈ f
  · have hnull : unlessFollowed f ["ndi"] j = .null := by simp [unlessFollowed, hd]
    rw [hnull]
    exact Proc.Spec.modify fun c hc _ => ⟨.refl, hc, trivial⟩
  · refine careful_modify (d := .ndi) hd fun c => ?_
    cases unlessFollowed f ["ndi"] j
    all_goals exact ⟨rfl, rfl, rfl, fun e he => by cases e <;> first | rfl | exact absurd rfl he⟩

theorem load_careful (disk : Disk) (f : Finset String) : Careful f (load narrow disk) := by
  refine careful_read ?_
  refine careful_bind (careful_when fun houtputs => careful_modify (d := .outputs) houtputs ?_) ?_
  · intro c
    exact ⟨rfl, rfl, rfl, fun e he => by cases e <;> first | rfl | exact absurd rfl he⟩
  refine careful_bind (careful_when fun _ => loadDecoder_careful _ _) ?_
  refine careful_bind (careful_unlessFollowed (d := .ndi)
    (p := fun j => Proc.onPart transport _ (loadTransport j))
    fun hndi => careful_onPart (d := .ndi) hndi ?_) ?_
  · intro t c
    exact ⟨rfl, rfl, rfl, fun e he => by cases e <;> first | rfl | exact absurd rfl he⟩
  refine careful_bind (careful_unlessFollowed (d := .ndi)
    (p := fun j => Proc.onPart finder _ (loadFinder j))
    fun hndi => careful_onPart (d := .ndi) hndi ?_) ?_
  · intro t c
    exact ⟨rfl, rfl, rfl, fun e he => by cases e <;> first | rfl | exact absurd rfl he⟩
  refine careful_bind (careful_when fun _ => loadDevice_careful _ _) ?_
  refine careful_bind (careful_unlessFollowed (d := .ndi)
    (p := fun j => Proc.onPart Config.ndiGroup _ (loadGroups j))
    fun hndi => careful_onPart (d := .ndi) hndi ?_) ?_
  · intro t c
    exact ⟨rfl, rfl, rfl, fun e he => by cases e <;> first | rfl | exact absurd rfl he⟩
  refine careful_bind (loadSources_careful _ _) (careful_bind (careful_unlessFollowed (d := .display)
    (p := fun j => Proc.onPart splash _ (loadSplash narrow j))
    fun hdisplay => careful_onPart (d := .display) hdisplay ?_)
    (careful_unlessFollowed (d := .display) (p := fun j => Proc.onPart osd _ (loadOsd j))
    fun hdisplay => careful_onPart (d := .display) hdisplay ?_))
  · intro t c
    exact ⟨rfl, rfl, rfl, fun e he => by cases e <;> first | rfl | exact absurd rfl he⟩
  · intro t c
    exact ⟨rfl, rfl, rfl, fun e he => by cases e <;> first | rfl | exact absurd rfl he⟩

theorem keeps_of_careful {f : Finset String} {p : Proc Config String Unit} (h : Careful f p)
    (hc : c.followed = f) : Keeps c (p c).2 := by
  obtain ⟨hchain, _⟩ := h c hc trivial
  generalize (p c).2 = c' at hchain
  induction hchain with
  | refl => exact Keeps.refl c
  | tail _ hstep ih => exact ih.trans hstep

theorem getOutput_keeps (disk : Disk) (chNum : Nat) (c : Config) :
    Keeps c (((c.getOutput disk chNum).toOption.map Prod.snd).getD c) := by
  unfold getOutput
  split
  · exact Keeps.refl c
  · split
    · exact Keeps.refl c
    · rename_i hfollows
      have houtputs : Domain.name .outputs ∉ c.followed := by
        simpa [follows, Domain.name] using hfollows
      cases readOutput disk c chNum with
      | error e => exact Keeps.refl c
      | ok out =>
        refine Touches.keeps (d := .outputs) ⟨rfl, rfl, rfl, fun e he => ?_⟩ houtputs
        cases e <;> first | rfl | exact absurd rfl he

theorem setOutput_keeps (disk : Disk) (chNum : Nat) (out : OutputConfig) (c : Config) :
    Keeps c (((c.setOutput disk chNum out).toOption.map Prod.fst).getD c) := by
  unfold setOutput
  split
  · exact Keeps.refl c
  · rename_i hfollows
    have houtputs : Domain.name .outputs ∉ c.followed := by
      simpa [follows, Domain.name] using hfollows
    simp only
    generalize setMembers _ _ = written
    cases written with
    | error e => exact Keeps.refl c
    | ok j =>
      by_cases hfirst : chNum = 1
      · simp only [hfirst]
        refine Touches.keeps (d := .outputs) ⟨rfl, rfl, rfl, fun e he => ?_⟩ houtputs
        cases e <;> first | rfl | exact absurd rfl he
      · simp only [hfirst]
        refine Touches.keeps (d := .outputs) ⟨rfl, rfl, rfl, fun e he => ?_⟩ houtputs
        cases e <;> first | rfl | exact absurd rfl he

theorem defaultAlias_keeps (name : String) (c : Config) : Keeps c (c.defaultAlias name) := by
  unfold defaultAlias
  split
  · rename_i h
    have hdevice : Domain.name .device ∉ c.followed := by
      simpa [follows, Domain.name] using h.2
    refine Touches.keeps (d := .device) ⟨rfl, rfl, rfl, fun e he => ?_⟩ hdevice
    cases e <;> first | rfl | exact absurd rfl he
  · exact Keeps.refl c

end Config

/-- Not a request of control. -/
def Op.local : Op → Bool
  | .apply .. => false
  | _ => true

theorem Op.run_keeps {op : Op} (h : op.local = true) (c : Config) : Keeps c (op.run narrow c) := by
  cases op with
  | apply request audio => cases h
  | load disk => exact keeps_of_careful (load_careful disk c.followed) rfl
  | saveDevice disk => exact Keeps.refl c
  | getOutput disk chNum => exact getOutput_keeps disk chNum c
  | setOutput disk chNum out => exact setOutput_keeps disk chNum out c
  | setRuntimeIp ip => exact ⟨rfl, rfl, rfl, fun d _ => by cases d <;> rfl⟩
  | defaultAlias name => exact defaultAlias_keeps name c

/-! ### The snapshot -/

/-- The configuration shows what the snapshot says. -/
structure Config.Inv (c : Config) : Prop where
  followed : ∀ k, k ∈ c.followed ↔ c.followedConfig.contains k = true
  documents : ∀ k j, c.followedConfig.get? k = some j →
    ∃ d, Domain.name d = k ∧ d.parse narrow j = .ok (c.view d)
  applied : c.followed ≠ ∅ → c.revision.applied = true
  revision : c.revision.value < 2 ^ 64

namespace Config

variable {narrow} {c : Config}

theorem Inv.keeps {c' : Config} (h : Inv narrow c) (hk : Keeps c c') : Inv narrow c' where
  followed k := by rw [hk.followed, hk.followedConfig]; exact h.followed k
  documents k j hj := by
    rw [hk.followedConfig] at hj
    obtain ⟨d, rfl, hd⟩ := h.documents k j hj
    refine ⟨d, rfl, ?_⟩
    rw [hk.view d ((h.followed _).mpr (by simp [SortedMap.contains, hj]))]
    exact hd
  applied hne := by rw [hk.followed] at hne; rw [hk.revision]; exact h.applied hne
  revision := by rw [hk.revision]; exact h.revision

theorem follow_eq (entries : List (String × Json)) (c : Config) :
    c.follow entries = { c with followed := (c.follow entries).followed
                                followedConfig := (c.follow entries).followedConfig } := by
  induction entries generalizing c with
  | nil => rfl
  | cons e rest ih => exact ih _

theorem mem_follow {entries : List (String × Json)} {c : Config} {k : String} :
    k ∈ (c.follow entries).followed ↔ k ∈ entries.map Prod.fst ∨ k ∈ c.followed := by
  induction entries generalizing c with
  | nil => simp [follow]
  | cons e rest ih =>
    refine (ih (c := _)).trans ?_
    simp only [Finset.mem_insert, List.map_cons, List.mem_cons]
    tauto

theorem follow_config (entries : List (String × Json)) (c : Config) :
    (c.follow entries).followedConfig =
      entries.foldl (fun m e => m.insert e.1 e.2) c.followedConfig := by
  induction entries generalizing c with
  | nil => rfl
  | cons e rest ih => exact ih _

theorem take_rest (ds : Domains) (c : Config) :
    (c.take ds).followed = c.followed ∧ (c.take ds).followedConfig = c.followedConfig ∧
      (c.take ds).device.deviceIp = c.device.deviceIp ∧
      (c.take ds).decoder.chNum = c.decoder.chNum ∧
      (c.take ds).audioSettings = (ds.audio.map AudioConfig.settings).getD c.audioSettings := by
  obtain ⟨device, outputs, ndi, audio, display, network⟩ := ds
  cases device <;> cases outputs <;> cases ndi <;> cases audio <;> cases display <;>
    cases network <;> exact ⟨rfl, rfl, rfl, rfl, rfl⟩

theorem atKey_eq_ok {j x : Json} {k : String} : atKey j k = .ok x ↔ Json.get k j = some x := by
  cases j with
  | obj entries => cases h : SortedMap.lookup k entries <;> simp [atKey, Json.get, asObject, h]
  | _ => simp [atKey, Json.get, asObject]

theorem keys_nodup {request : Value} {entries : List (String × Json)}
    (h : request.val.member "config" = .obj entries) : (entries.map Prod.fst).Nodup := by
  have hsorted := (canonical_obj_iff.mp (h ▸ member_canonical request.property "config")).1
  rw [List.Nodup, List.pairwise_map]
  exact hsorted.imp ne_of_lt

/-- The supplied domains take what the request says, the others and what no document decides stay. -/
structure Accepted (narrow : ℚ → ℚ) (request : Json) (next : Nat) (c c' : Config) : Prop where
  revision : c'.revision = ⟨true, next⟩
  followed : ∀ k, k ∈ c'.followed ↔ k ∈ keys (request.member "config") ∨ k ∈ c.followed
  document : ∀ k, c'.followedConfig.get? k =
    (Json.get k (request.member "config")).or (c.followedConfig.get? k)
  known : ∀ k ∈ keys (request.member "config"), ∃ d, Domain.name d = k
  supplied : ∀ d j, Json.get (Domain.name d) (request.member "config") = some j →
    d.parse narrow j = .ok (c'.view d)
  others : ∀ d, Json.get (Domain.name d) (request.member "config") = none → c'.view d = c.view d
  stamp : c'.audioSettings.revision =
    if (Json.get "audio" (request.member "config")).isSome then next else c.audioSettings.revision
  runtime : c'.device.deviceIp = c.device.deviceIp ∧ c'.decoder.chNum = c.decoder.chNum

theorem member_of_examine {d : Demand} (h : c.examine narrow request apply = .ok d) :
    request.member "config" = .obj d.entries := by
  rw [member_eq_get, atKey_eq_ok.mp (examine_ok.mp h).2.1]
  rfl

theorem accepted_of_examine {d : Demand} (h : c.examine narrow request apply = .ok d)
    (hnodup : (d.entries.map Prod.fst).Nodup) : Accepted narrow request d.next c (c.accept d) := by
  obtain ⟨_, hconfig, _, hread, hdomains, _⟩ := examine_ok.mp h
  have hmember := member_of_examine h
  obtain ⟨hin, hout⟩ := Domains.readAll_ok hnodup hread
  have hview : ∀ e, (c.accept d).view e = (d.domains.view e).getD (c.view e) := by
    intro e
    rw [← take_view, accept, follow_eq]
    cases e <;> rfl
  obtain ⟨hfollowed, hdocuments, hip, hch, haudio⟩ := take_rest d.domains c
  constructor
  all_goals try rw [hmember]
  · rfl
  · intro k
    refine (mem_follow (c := c.take d.domains)).trans ?_
    rw [hfollowed]
    rfl
  · intro k
    refine (congrArg (·.get? k) (follow_config d.entries (c.take d.domains))).trans ?_
    rw [SortedMap.get?_foldl_insert _ hnodup, hdocuments]
    rfl
  · intro k hk
    obtain ⟨e, he, rfl⟩ := List.mem_map.mp hk
    obtain ⟨dom, _, hname, _⟩ := hin e he
    exact ⟨dom, hname⟩
  · intro dom j hj
    have he := SortedMap.mem_of_lookup (show SortedMap.lookup dom.name d.entries = some j from hj)
    obtain ⟨dom', v, hname, hv, hshown⟩ := hin _ he
    obtain rfl := Domain.name_injective hname
    rw [hview, hdomains, hshown, hv]
    rfl
  · intro dom hdom
    have hno := SortedMap.lookup_eq_none_iff.mp
      (show SortedMap.lookup dom.name d.entries = none from hdom)
    rw [hview, hdomains, hout dom hno]
    cases dom <;> rfl
  · have hsettings : (c.accept d).audioSettings =
        (d.domains.audio.map AudioConfig.settings).getD c.audioSettings := by
      rw [← haudio, accept, follow_eq]
    rw [hsettings]
    cases haudio' : d.domains.audio with
    | none =>
      have hnone : Json.get "audio" (.obj d.entries) = none := by
        refine SortedMap.lookup_eq_none_iff.mpr fun hk => ?_
        obtain ⟨e, he, hname⟩ := List.mem_map.mp hk
        obtain ⟨dom, v, hdom, _, hshown⟩ := hin e he
        obtain rfl : dom = .audio := Domain.name_injective (hdom.trans hname)
        rw [← hdomains, Domains.view, haudio'] at hshown
        cases hshown
      rw [hnone]
      rfl
    | some a =>
      have hsome : (Json.get "audio" (.obj d.entries)).isSome = true := by
        by_contra hnone
        have hno := SortedMap.lookup_eq_none_iff.mp (Option.not_isSome_iff_eq_none.mp hnone)
        have hshown := hout .audio hno
        rw [← hdomains, Domains.view, haudio'] at hshown
        cases hshown
      rw [if_pos hsome]
      rw [hdomains] at haudio'
      rcases Domains.readAll_audio hread haudio' with hno | ⟨j, _, hparse⟩
      · cases hno
      · exact parseAudio_revision hparse
  · rw [← hip, ← hch, accept, follow_eq]
    exact ⟨rfl, rfl⟩

theorem Inv.accepted {request : Json} {next : Nat} {c' : Config} (h : Inv narrow c)
    (hnext : next < 2 ^ 64) (ha : Accepted narrow request next c c') : Inv narrow c' where
  followed k := by
    rw [ha.followed, h.followed, mem_keys_iff]
    simp [SortedMap.contains, ha.document]
  documents k j hj := by
    rw [ha.document] at hj
    cases hk : Json.get k (request.member "config") with
    | some x =>
      obtain ⟨d, rfl⟩ := ha.known k (mem_keys_iff.mpr (by simp [hk]))
      obtain rfl : x = j := by simpa [hk] using hj
      exact ⟨d, rfl, ha.supplied d x hk⟩
    | none =>
      obtain ⟨d, rfl, hd⟩ := h.documents k j (by simpa [hk] using hj)
      exact ⟨d, rfl, by rw [hd, ha.others d hk]⟩
  applied _ := by rw [ha.revision]
  revision := by rw [ha.revision]; exact hnext

theorem check_lt {r : Revision} {request : Json} {next : Nat} (h : r.check request = .ok next) :
    next < 2 ^ 64 := by
  obtain ⟨value, hvalue, h⟩ := Outcome.bind_eq_ok.mp h
  cases value with
  | int n =>
    obtain ⟨_, hn, h⟩ := Outcome.bind_eq_ok.mp h
    obtain ⟨_, _, h⟩ := Outcome.bind_eq_ok.mp h
    obtain ⟨_, _, h⟩ := Outcome.bind_eq_ok.mp h
    cases h
    have hrange := require_eq_ok.mp hn
    simp only [Privd.isInteger, Bool.and_eq_true, decide_eq_true_eq] at hrange
    omega
  | _ => cases h

/-- Every configuration the decoder reaches shows what its snapshot says. -/
theorem inv_after (ops : List Op) : Inv narrow (after narrow ops) := by
  have hinit : Inv narrow {} :=
    { followed := fun k => by simp [SortedMap.contains]
      documents := fun k j hj => by cases hj
      applied := fun h => absurd rfl h
      revision := by decide }
  unfold after
  generalize ({} : Config) = c at hinit
  induction ops generalizing c with
  | nil => exact hinit
  | cons op rest ih =>
    refine ih _ ?_
    cases hop : op.local with
    | true => exact hinit.keeps (Op.run_keeps narrow hop c)
    | false =>
      cases op with
      | apply request audio =>
        simp only [Op.run, applyConfig_eq]
        cases he : c.examine narrow request.val audio with
        | error errors => exact hinit
        | ok d =>
          exact hinit.accepted (check_lt (examine_ok.mp he).1)
            (accepted_of_examine he (keys_nodup (member_of_examine he)))
      | _ => cases hop

theorem askAudio_none (audio : Option AudioConfig) : askAudio none audio = .ok () := by
  cases audio <;> rfl

theorem Inv.restores (h : Inv narrow c) (hne : c.followed ≠ ∅) :
    ∃ c', applyConfig narrow c.snapshot none {} = (.ok c.revision.value, c') ∧ Keeps c c' := by
  have hentries : c.followedConfig.entries ≠ [] := by
    intro hempty
    obtain ⟨k, hk⟩ := Finset.nonempty_iff_ne_empty.mpr hne
    have hcontains := (h.followed k).mp hk
    simp [SortedMap.contains, SortedMap.get?, hempty, SortedMap.lookup] at hcontains
  have hcheck : ({} : Config).revision.check c.snapshot = .ok c.revision.value := by
    refine Outcome.bind_eq_ok.mpr ⟨.int c.revision.value, rfl, ?_⟩
    refine Outcome.bind_eq_ok.mpr ⟨(), require_eq_ok.mpr ?_, ?_⟩
    · have hlt := h.revision
      simp only [Privd.isInteger, Bool.and_eq_true, decide_eq_true_eq]
      omega
    · refine Outcome.bind_eq_ok.mpr ⟨false, rfl, ?_⟩
      exact Outcome.bind_eq_ok.mpr ⟨(), rfl, by simp⟩
  have hread : (Domains.readAll narrow c.revision.value c.followedConfig.entries {}).2 = [] := by
    refine Domains.readAll_complete _ (fun e he => ?_) {}
    obtain ⟨d, hd, hparse⟩ := h.documents e.1 e.2 (SortedMap.mem_entries_iff.mp he)
    exact ⟨d, _, hd, hparse⟩
  have hexamine : ({} : Config).examine narrow c.snapshot none =
      .ok ⟨c.revision.value, c.followedConfig.entries,
        (Domains.readAll narrow c.revision.value c.followedConfig.entries {}).1⟩ :=
    examine_ok.mpr ⟨hcheck, rfl, hentries, hread, rfl, askAudio_none _⟩
  have ha := accepted_of_examine hexamine c.followedConfig.keys_nodup
  refine ⟨_, by rw [applyConfig_eq, hexamine], ?_⟩
  have hget : ∀ k, Json.get k (c.snapshot.member "config") = c.followedConfig.get? k := fun _ => rfl
  constructor
  · ext k
    rw [ha.followed, mem_keys_iff, hget, h.followed]
    simp [SortedMap.contains]
  · refine SortedMap.ext fun k => ?_
    rw [ha.document, hget]
    simp [SortedMap.get?, SortedMap.lookup, SortedMap.empty]
  · rw [ha.revision]
    have happlied := h.applied hne
    cases hr : c.revision with
    | mk applied value =>
      rw [hr] at happlied
      simp only at happlied
      rw [happlied]
  · intro d hd
    obtain ⟨j, hj⟩ := Option.isSome_iff_exists.mp ((h.followed _).mp hd)
    obtain ⟨d', hname, hparse⟩ := h.documents _ j hj
    obtain rfl := Domain.name_injective hname
    have hsupplied := ha.supplied d' j (by rw [hget]; exact hj)
    exact Except.ok.inj (hsupplied.symm.trans hparse)

/-- A request takes the supplied domains as a whole or changes nothing, nothing else changes a
followed domain, and the snapshot brings the followed domains back. -/
structure WholeDomains (narrow : ℚ → ℚ) (c : Config) : Prop where
  answered : ∀ (request : Value) audio, (applyConfig narrow request.val audio c).1 ≠ .crash
  refused : ∀ (request : Value) audio errors,
    (applyConfig narrow request.val audio c).1 = .err errors →
      (applyConfig narrow request.val audio c).2 = c
  accepted : ∀ (request : Value) audio next,
    (applyConfig narrow request.val audio c).1 = .ok next →
      Accepted narrow request.val next c (applyConfig narrow request.val audio c).2
  kept : ∀ op : Op, op.local = true → Keeps c (op.run narrow c)
  restored : c.followed ≠ ∅ →
    ∃ c', applyConfig narrow c.snapshot none {} = (.ok c.revision.value, c') ∧ Keeps c c'

end Config

/-! ### A restart -/

def audioDocument : Json :=
  .obj [("engine", .str "v2"), ("outputs", .obj []), ("routes", .obj []),
    ("settings", .obj [("enabled", .bool true), ("master", .str ""), ("period_frames", .int 512),
      ("rate", .int 48000)]),
    ("sinks", .obj []), ("sources", .obj []), ("video_delay_ms", .int 0)]

def networkDocument : Json :=
  .obj [("backend", .null), ("interface", .str ""), ("networks", .arr []),
    ("roles", .obj [("audio", .str ""), ("management", .str ""), ("ndi", .str "")])]

/-- Audio at revision 5, then network at revision 6. -/
def audioThenNetwork : List Op :=
  [.apply ⟨.obj [("config", .obj [("audio", audioDocument)]), ("revision", .int 5)], by decide⟩ none,
    .apply ⟨.obj [("config", .obj [("network", networkDocument)]), ("revision", .int 6)],
      by decide⟩ none]

end NdimonR.Decoder
