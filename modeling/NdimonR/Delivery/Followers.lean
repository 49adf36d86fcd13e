import NdimonR.Delivery.Follower
import NdimonR.Decoder.NdiFollower
import NdimonR.Decoder.WholeDomains

/-! The two followers: the decoder, with its whole configuration, and the finder. -/

namespace NdimonR.Delivery

open Json Decoder

variable (narrow : ℚ → ℚ)

/-! ### The decoder -/

/-- Whether the second audio engine runs, and what it says to new settings. -/
structure DecoderEnv where
  v2 : Bool
  apply : AudioApply

def okReply (restartRequired : Bool) (revision : Nat) : Json :=
  .obj ([("ok", .bool true)] ++
    (if restartRequired then [("restart_required", .bool true)] else []) ++
    [("revision", .int revision)])

def engineRestart (v2 : Bool) (request : Json) : Result Bool := do
  let domains ← atKey request "config"
  if contains "audio" domains then do
    let engine ← atKey (← atKey domains "audio") "engine"
    .ok (engine ≠ .str (if v2 then "v2" else "v1"))
  else .ok false

/-- The engine is not asked where it does not run or restarts anyway. -/
def asked (env : DecoderEnv) (restart : Bool) : AudioApply := fun settings =>
  if !env.v2 || restart then .ok "" else env.apply settings

def decoderApply (env : DecoderEnv) (request : Json) (c : Config) : Answered Config :=
  match engineRestart env.v2 request with
  | .error e => ⟨failure [e], c, none⟩
  | .ok restart =>
    match c.applyConfig narrow request (some (asked env restart)) with
    | (.ok next, c) => ⟨okReply restart next, c, some c.snapshot⟩
    | (.err errors, c) => ⟨failure errors, c, none⟩
    | (.crash, c) => ⟨failure [], c, none⟩

/-- Other actions are not control's to deliver; of a status control reads the revision. -/
def decoderAnswer (env : DecoderEnv) (request : Json) (c : Config) : Answered Config :=
  match valueOr getString request "action" "" with
  | .ok "apply_config" => decoderApply narrow env request c
  | .ok "status" => ⟨.obj [("revision", revisionStatus c.revision)], c, none⟩
  | .ok _ => ⟨.obj [("ok", .bool true)], c, none⟩
  | .error e => ⟨failure [e], c, none⟩

/-- Every domain can be parsed, and the audio engine takes its settings. -/
structure DecoderAccepts (env : DecoderEnv) (config : SortedMap String Json) : Prop where
  nonempty : config.entries ≠ []
  domains : ∀ e ∈ config.entries, ∃ d v, Domain.name d = e.1 ∧ d.parse narrow e.2 = .ok v
  audio : ∀ j revision a, config.get? "audio" = some j →
    parseAudio narrow j revision = .ok a → env.apply a.settings = .ok ""

def decoder : Follower Config where
  Env := DecoderEnv
  Op := { op : Op // op.local = true }
  start := {}
  revision := Config.revision
  document c := c.followedConfig.get?
  answer := decoderAnswer narrow
  operate op c := op.val.run narrow c
  restore snapshot := (Config.applyConfig narrow snapshot none {}).2
  accepts := DecoderAccepts narrow

/-! ### The finder -/

def finderAnswer (apply : NdiConfig → Bool) (request : Json) (f : NdiFollower) :
    Answered NdiFollower :=
  match valueOr getString request "action" "" with
  | .ok "apply_config" =>
    match f.applyConfig request (some apply) with
    | (.ok next, f) => ⟨okReply false next, f, some request⟩
    | (.err e, f) => ⟨failure [e], f, none⟩
    | (.crash, f) => ⟨failure [], f, none⟩
  | .ok action =>
    if action = "status" ∨ action = "health" then
      ⟨.obj [("ok", .bool true), ("revision", revisionStatus f.revision)], f, none⟩
    else ⟨failure ["unknown action"], f, none⟩
  | .error e => ⟨failure [e], f, none⟩

/-- The one domain can be parsed, and the finder can be rebuilt for it. -/
def FinderAccepts (apply : NdiConfig → Bool) (config : SortedMap String Json) : Prop :=
  ∃ document candidate, config.entries = [("ndi", document)] ∧
    parseNdi document = .ok candidate ∧ apply candidate = true

def finder : Follower NdiFollower where
  Env := NdiConfig → Bool
  Op := PEmpty
  start := {}
  revision := NdiFollower.revision
  document f k := if k = "ndi" ∧ f.config.isSome then some f.document else none
  answer := finderAnswer
  operate op _ := op.elim
  restore snapshot := (NdiFollower.applyConfig snapshot none {}).2
  accepts := FinderAccepts

/-! ### What both check first -/

variable {narrow} {revision : Nat} {config : SortedMap String Json} {reset : Bool}

theorem get_applyRequest :
    Json.get "action" (applyRequest revision config reset) = some (.str "apply_config") ∧
    Json.get "config" (applyRequest revision config reset) = some (.obj config.entries) ∧
    Json.get "revision" (applyRequest revision config reset) = some (.int revision) ∧
    Json.get "reset" (applyRequest revision config reset) =
      if reset then some (.bool true) else none := by
  cases reset <;> exact ⟨rfl, rfl, rfl, rfl⟩

theorem atKey_applyRequest :
    atKey (applyRequest revision config reset) "config" = .ok (.obj config.entries) :=
  Config.atKey_eq_ok.mpr get_applyRequest.2.1

theorem check_applyRequest (r : Revision) (h : revision < 2 ^ 64) :
    r.check (applyRequest revision config reset) =
      if r.applied && decide (revision < r.value) && !reset then .error olderRevision
      else .ok revision := by
  have hvalue : atKey (applyRequest revision config reset) "revision" = .ok (.int revision) :=
    Config.atKey_eq_ok.mpr get_applyRequest.2.2.1
  have hreset : valueOr (fun j => if isBoolean j then getBool j else
      .error "reset: expected boolean") (applyRequest revision config reset) "reset" false =
        .ok reset := by
    cases reset <;> rfl
  have hinteger : (Privd.isInteger (.int revision) && decide ((0 : Int) ≤ revision)) = true := by
    simp only [Privd.isInteger, Bool.and_eq_true, decide_eq_true_eq]
    omega
  have hfirst : require (Privd.isInteger (.int revision) && decide ((0 : Int) ≤ revision))
      "revision: expected non-negative integer" = .ok () := by
    rw [hinteger]
    rfl
  have hlast : require (!(r.applied && decide (revision < r.value) && !reset)) olderRevision =
      if r.applied && decide (revision < r.value) && !reset then .error olderRevision
      else .ok () := by
    cases (r.applied && decide (revision < r.value) && !reset) <;> rfl
  unfold Revision.check
  rw [hvalue, Outcome.bind_ok]
  simp only
  rw [hfirst, Outcome.bind_ok, hreset, Outcome.bind_ok]
  refine (congrArg (· >>= _) hlast).trans ?_
  split
  · rfl
  · rfl

theorem check_next {r : Revision} {next : Nat}
    (h : r.check (applyRequest revision config reset) = .ok next) : next = revision := by
  obtain ⟨value, hvalue, h⟩ := Outcome.bind_eq_ok.mp h
  have hget := Config.atKey_eq_ok.mp hvalue
  rw [get_applyRequest.2.2.1] at hget
  obtain rfl := Option.some.inj hget
  obtain ⟨_, _, h⟩ := Outcome.bind_eq_ok.mp h
  obtain ⟨_, _, h⟩ := Outcome.bind_eq_ok.mp h
  obtain ⟨_, _, h⟩ := Outcome.bind_eq_ok.mp h
  exact (Except.ok.inj h).symm

theorem isOk_failure (errors : List String) : isOk (failure errors) = false := rfl

theorem isOk_okReply (restart : Bool) (revision : Nat) : isOk (okReply restart revision) = true := by
  cases restart <;> rfl

theorem get_okReply (restart : Bool) (revision : Nat) :
    Json.get "revision" (okReply restart revision) = some (.int revision) := by
  cases restart <;> rfl

/-! ### The laws of the decoder -/

theorem decoderAnswer_apply (env : DecoderEnv) (c : Config) :
    decoderAnswer narrow env (applyRequest revision config reset) c =
      decoderApply narrow env (applyRequest revision config reset) c := by
  cases reset <;> rfl

/-- A request is refused and changes nothing, or it was examined and accepted. -/
theorem decoderApply_cases (env : DecoderEnv) (request : Json) (c : Config) :
    (∃ errors, decoderApply narrow env request c = ⟨failure errors, c, none⟩) ∨
    ∃ restart d, engineRestart env.v2 request = .ok restart ∧
      c.examine narrow request (some (asked env restart)) = .ok d ∧
      decoderApply narrow env request c =
        ⟨okReply restart d.next, c.accept d, some (c.accept d).snapshot⟩ := by
  unfold decoderApply
  cases hrestart : engineRestart env.v2 request with
  | error e => exact .inl ⟨[e], rfl⟩
  | ok restart =>
    simp only [Config.applyConfig_eq]
    cases hexamine : c.examine narrow request (some (asked env restart)) with
    | error errors => exact .inl ⟨errors, rfl⟩
    | ok d => exact .inr ⟨restart, d, rfl, hexamine, rfl⟩

/-- The snapshots the decoder writes. -/
def DecoderSaved (narrow : ℚ → ℚ) (j : Json) : Prop :=
  ∃ c, Config.Inv narrow c ∧ c.followed ≠ ∅ ∧ j = c.snapshot

theorem restore_eq (j : Json) :
    (decoder narrow).restore j = (Config.applyConfig narrow j none {}).2 := rfl

theorem decoder_restore {c : Config} (h : Config.Inv narrow c) (hne : c.followed ≠ ∅) :
    Config.Inv narrow ((decoder narrow).restore c.snapshot) ∧
      (decoder narrow).Alike c ((decoder narrow).restore c.snapshot) := by
  obtain ⟨c', happly, hkeeps⟩ := h.restores hne
  have hrestore : (decoder narrow).restore c.snapshot = c' := by
    rw [restore_eq, happly]
  rw [hrestore]
  refine ⟨h.keeps hkeeps, hkeeps.revision, fun k => ?_⟩
  exact congrArg (·.get? k) hkeeps.followedConfig

/-- An examined request: what the decoder shows after it. -/
theorem decoder_accepted {audio : Option AudioApply} {c : Config} {d : Config.Demand}
    (h : Config.Inv narrow c)
    (hd : c.examine narrow (applyRequest revision config reset) audio = .ok d) :
    Config.Inv narrow (c.accept d) ∧ (c.accept d).followed ≠ ∅ ∧ d.next = revision ∧
      (decoder narrow).Shows revision config (c.accept d) := by
  obtain ⟨hcheck, hconfig, hne, hread, _, _⟩ := Config.examine_ok.mp hd
  have hentries : d.entries = config.entries := by
    rw [atKey_applyRequest] at hconfig
    exact (Json.obj.inj (Except.ok.inj hconfig)).symm
  have hnodup : (d.entries.map Prod.fst).Nodup := by
    rw [hentries]
    exact config.keys_nodup
  have ha := Config.accepted_of_examine hd hnodup
  have hinv := h.accepted (Config.check_lt hcheck) ha
  have hmember := Config.member_of_examine hd
  have hnext : d.next = revision := check_next hcheck
  refine ⟨hinv, ?_, hnext, ⟨by rw [← hnext]; exact ha.revision, fun k j hk => ?_⟩⟩
  · obtain ⟨e, he⟩ := List.exists_mem_of_ne_nil _ hne
    refine Finset.ne_empty_of_mem (a := e.1) ((ha.followed e.1).mpr (.inl ?_))
    rw [hmember]
    exact List.mem_map_of_mem he
  · have hget : Json.get k ((applyRequest revision config reset).member "config") = some j := by
      rw [hmember, hentries]
      exact hk
    refine (ha.document k).trans ?_
    rw [hget]
    rfl

theorem parseAudio_engine {j : Json} {revision : Nat} {a : AudioConfig}
    (h : parseAudio narrow j revision = .ok a) : ∃ engine, atKey j "engine" = .ok engine := by
  obtain ⟨_, hengine, _⟩ := Outcome.bind_eq_ok.mp h
  obtain ⟨_, htext, _⟩ := Outcome.bind_eq_ok.mp hengine
  obtain ⟨_, hstring, _⟩ := Outcome.bind_eq_ok.mp htext
  exact ⟨_, hstring⟩

theorem domain_of_audio {env : DecoderEnv} {j : Json} (h : DecoderAccepts narrow env config)
    (hj : config.get? "audio" = some j) : ∃ a, parseAudio narrow j 0 = .ok a := by
  obtain ⟨d, v, hname, hparse⟩ := h.domains ("audio", j) (SortedMap.mem_entries_iff.mpr hj)
  obtain rfl : d = .audio := Domain.name_injective hname
  obtain ⟨a, ha, _⟩ := Outcome.map_eq_ok.mp (show (parseAudio narrow j 0).map _ = .ok v from hparse)
  exact ⟨a, ha⟩

theorem engineRestart_ok {env : DecoderEnv} (h : DecoderAccepts narrow env config)
    (revision : Nat) (reset : Bool) :
    ∃ restart, engineRestart env.v2 (applyRequest revision config reset) = .ok restart := by
  unfold engineRestart
  rw [atKey_applyRequest, Outcome.bind_ok]
  cases haudio : config.get? "audio" with
  | none =>
    have hcontains : contains "audio" (.obj config.entries) = false :=
      congrArg Option.isSome haudio
    rw [hcontains]
    exact ⟨_, rfl⟩
  | some j =>
    have hcontains : contains "audio" (.obj config.entries) = true :=
      congrArg Option.isSome haudio
    obtain ⟨a, ha⟩ := domain_of_audio h haudio
    obtain ⟨engine, hengine⟩ := parseAudio_engine ha
    have hat : atKey (.obj config.entries) "audio" = .ok j := Config.atKey_eq_ok.mpr haudio
    rw [hcontains, if_pos rfl, hat, Outcome.bind_ok, hengine]
    exact ⟨_, rfl⟩

theorem decoder_taken {env : DecoderEnv} {c : Config} (h : DecoderAccepts narrow env config)
    (hlt : revision < 2 ^ 64) (holder : (decoder narrow).older revision reset c = false) :
    ∃ restart d, engineRestart env.v2 (applyRequest revision config reset) = .ok restart ∧
      c.examine narrow (applyRequest revision config reset) (some (asked env restart)) = .ok d := by
  obtain ⟨restart, hrestart⟩ := engineRestart_ok h revision reset
  have hcheck : c.revision.check (applyRequest revision config reset) = .ok revision := by
    rw [check_applyRequest _ hlt, if_neg]
    exact ne_true_of_eq_false holder
  have hread := Config.Domains.readAll_complete revision h.domains {}
  refine ⟨restart, ⟨revision, config.entries,
    (Config.Domains.readAll narrow revision config.entries {}).1⟩, hrestart,
    Config.examine_ok.mpr ⟨hcheck, atKey_applyRequest, h.nonempty, hread, rfl, ?_⟩⟩
  cases haudio : (Config.Domains.readAll narrow revision config.entries {}).1.audio with
  | none => rfl
  | some a =>
    rcases Config.Domains.readAll_audio hread haudio with hno | ⟨j, hj, hparse⟩
    · cases hno
    · have hasked : asked env restart a.settings = .ok "" := by
        unfold asked
        split
        · rfl
        · exact h.audio j revision a (SortedMap.mem_entries_iff.mp hj) hparse
      simp only [Config.askAudio, hasked]
      rfl

/-- A request that is too old fails the check of its revision. -/
theorem decoder_older (env : DecoderEnv) (config : SortedMap String Json) {c : Config}
    (hinv : Config.Inv narrow c)
    (h : (decoder narrow).older revision reset c = true) :
    ∃ errors, decoderApply narrow env (applyRequest revision config reset) c =
        ⟨failure errors, c, none⟩ ∧
      (DecoderAccepts narrow env config → errors = [olderRevision]) := by
  have hlt : revision < 2 ^ 64 := by
    have hless : revision < c.revision.value := ((decoder narrow).older_iff.mp h).2.1
    have hvalue := hinv.revision
    omega
  have hcheck : c.revision.check (applyRequest revision config reset) = .error olderRevision := by
    rw [check_applyRequest _ hlt]
    exact if_pos h
  have hexamine : ∀ audio, c.examine narrow (applyRequest revision config reset) audio =
      .error [olderRevision] := by
    intro audio
    unfold Config.examine
    rw [hcheck]
    rfl
  unfold decoderApply
  cases hrestart : engineRestart env.v2 (applyRequest revision config reset) with
  | error e =>
    refine ⟨[e], rfl, fun haccepts => ?_⟩
    obtain ⟨restart, hok⟩ := engineRestart_ok haccepts revision reset
    rw [hrestart] at hok
    cases hok
  | ok restart =>
    refine ⟨[olderRevision], ?_, fun _ => rfl⟩
    simp only [Config.applyConfig_eq, hexamine]

theorem decoder_laws (narrow : ℚ → ℚ) :
    (decoder narrow).Laws (Config.Inv narrow) (DecoderSaved narrow) where
  start := Config.inv_after []
  operate op c h := by
    have hkeeps := Op.run_keeps narrow op.property c
    exact ⟨h.keeps hkeeps, hkeeps.revision, fun k => congrArg (·.get? k) hkeeps.followedConfig⟩
  status env c := ⟨rfl, rfl, rfl⟩
  bounded c h := h.revision
  older env revision config reset c hinv h := by
    obtain ⟨errors, happly, herrors⟩ := decoder_older env config hinv h
    have hanswer : (decoder narrow).answer env (applyRequest revision config reset) c = _ :=
      (decoderAnswer_apply env c).trans happly
    rw [hanswer]
    exact ⟨rfl, fun haccepts => by rw [herrors haccepts]⟩
  refused env revision config reset c h := by
    have hanswer : (decoder narrow).answer env (applyRequest revision config reset) c = _ :=
      decoderAnswer_apply env c
    rw [hanswer] at h ⊢
    rcases decoderApply_cases env (applyRequest revision config reset) c with
      ⟨errors, happly⟩ | ⟨restart, d, _, _, happly⟩
    · rw [happly]
      exact ⟨rfl, rfl⟩
    · rw [happly, isOk_okReply] at h
      cases h
  accepted env revision config reset c hinv h := by
    have hanswer : (decoder narrow).answer env (applyRequest revision config reset) c = _ :=
      decoderAnswer_apply env c
    rw [hanswer] at h ⊢
    rcases decoderApply_cases env (applyRequest revision config reset) c with
      ⟨errors, happly⟩ | ⟨restart, d, _, hd, happly⟩
    · rw [happly, isOk_failure] at h
      cases h
    · obtain ⟨hnew, hne, hnext, hshows⟩ := decoder_accepted hinv hd
      rw [happly]
      exact ⟨hnew, hshows, by rw [← hnext]; exact get_okReply restart d.next, _, rfl,
        ⟨_, hnew, hne, rfl⟩, (decoder_restore hnew hne).2⟩
  taken env revision config reset c h hlt holder := by
    have hanswer : (decoder narrow).answer env (applyRequest revision config reset) c = _ :=
      decoderAnswer_apply env c
    rw [hanswer]
    obtain ⟨restart, d, hrestart, hd⟩ := decoder_taken h hlt holder
    unfold decoderApply
    simp only [hrestart, Config.applyConfig_eq, hd]
    cases restart <;> exact ⟨rfl, rfl⟩
  restore j hj := by
    obtain ⟨c, hinv, hne, rfl⟩ := hj
    exact (decoder_restore hinv hne).1

/-! ### The laws of the finder -/

section

variable {apply : Option (NdiConfig → Bool)} {f : NdiFollower}

theorem examine_ndi {next : Nat} {document : Json} {candidate : NdiConfig}
    (h : f.examine (applyRequest revision config reset) apply = .ok (next, document, candidate)) :
    f.revision.check (applyRequest revision config reset) = .ok next ∧
      config.entries = [("ndi", document)] ∧ parseNdi document = .ok candidate := by
  obtain ⟨next', hcheck, h⟩ := Outcome.bind_eq_ok.mp h
  obtain ⟨domains, hdomains, h⟩ := Outcome.bind_eq_ok.mp h
  obtain ⟨_, hshape, h⟩ := Outcome.bind_eq_ok.mp h
  obtain ⟨document', hdocument, h⟩ := Outcome.bind_eq_ok.mp h
  obtain ⟨candidate', hparse, h⟩ := Outcome.bind_eq_ok.mp h
  obtain ⟨_, _, h⟩ := Outcome.bind_eq_ok.mp h
  cases h
  rw [atKey_applyRequest] at hdomains
  obtain rfl := Except.ok.inj hdomains
  refine ⟨hcheck, ?_, hparse⟩
  have hlength := Config.require_eq_ok.mp hshape
  simp only [isObject, asObject, Option.isSome_some, Bool.true_and, Bool.and_eq_true, Decoder.size,
    beq_iff_eq] at hlength
  obtain ⟨e, he⟩ := List.length_eq_one_iff.mp hlength.1
  have hget := Config.atKey_eq_ok.mp hdocument
  rw [he] at hget ⊢
  obtain ⟨key, value⟩ := e
  simp only [Json.get, asObject, Option.bind_some, SortedMap.lookup] at hget
  split at hget
  · rename_i hkey
    cases hget
    rw [hkey]
  · cases hget

theorem examine_ok {document : Json} {candidate : NdiConfig} (hlt : revision < 2 ^ 64)
    (holder : finder.older revision reset f = false) (hentries : config.entries = [("ndi", document)])
    (hparse : parseNdi document = .ok candidate) (happly : f.rebuilt apply document candidate = true) :
    f.examine (applyRequest revision config reset) apply = .ok (revision, document, candidate) := by
  have hcheck : f.revision.check (applyRequest revision config reset) = .ok revision := by
    rw [check_applyRequest _ hlt, if_neg]
    exact ne_true_of_eq_false holder
  unfold NdiFollower.examine
  rw [hcheck, Outcome.bind_ok, atKey_applyRequest, hentries, Outcome.bind_ok]
  refine Outcome.bind_eq_ok.mpr ⟨(), rfl, Outcome.bind_eq_ok.mpr ⟨document, rfl, ?_⟩⟩
  rw [hparse, Outcome.bind_ok, happly]
  rfl

end

/-- The finder saves the request itself. -/
def FinderSaved (j : Json) : Prop :=
  ∃ revision config reset document candidate, j = applyRequest revision config reset ∧
    revision < 2 ^ 64 ∧ config.entries = [("ndi", document)] ∧ parseNdi document = .ok candidate

theorem finder_restore {document : Json} {candidate : NdiConfig} (hlt : revision < 2 ^ 64)
    (hentries : config.entries = [("ndi", document)]) (hparse : parseNdi document = .ok candidate) :
    finder.restore (applyRequest revision config reset) =
      ⟨.commit revision, some candidate, document⟩ := by
  have hexamine : ({} : NdiFollower).examine (applyRequest revision config reset) none =
      .ok (revision, document, candidate) := examine_ok hlt rfl hentries hparse rfl
  change (NdiFollower.applyConfig (applyRequest revision config reset) none {}).2 = _
  rw [NdiFollower.applyConfig_eq, hexamine]

/-- The finder's answer to a request of control. -/
theorem finderAnswer_apply (apply : NdiConfig → Bool) (f : NdiFollower) :
    finderAnswer apply (applyRequest revision config reset) f =
      match f.examine (applyRequest revision config reset) (some apply) with
      | .ok (next, document, candidate) =>
        ⟨okReply false next, ⟨.commit next, some candidate, document⟩,
          some (applyRequest revision config reset)⟩
      | .error e => ⟨failure [e], f, none⟩ := by
  have haction : valueOr getString (applyRequest revision config reset) "action" "" =
      .ok "apply_config" := by
    cases reset <;> rfl
  unfold finderAnswer
  rw [haction]
  simp only [NdiFollower.applyConfig_eq]
  cases f.examine (applyRequest revision config reset) (some apply) with
  | error e => rfl
  | ok d => rfl

theorem check_bound {r : Revision} {next : Nat}
    (h : r.check (applyRequest revision config reset) = .ok next) : revision < 2 ^ 64 := by
  have hlt := Config.check_lt h
  rw [check_next h] at hlt
  exact hlt

theorem finder_laws : finder.Laws (fun f => f.revision.value < 2 ^ 64) FinderSaved where
  start := by decide
  operate op := op.elim
  status apply f := ⟨rfl, rfl, rfl⟩
  bounded f h := h
  older apply revision config reset f hinv h := by
    have hlt : revision < 2 ^ 64 := by
      have hless : revision < f.revision.value := (finder.older_iff.mp h).2.1
      omega
    have hexamine : f.examine (applyRequest revision config reset) (some apply) =
        .error olderRevision := by
      unfold NdiFollower.examine
      rw [check_applyRequest _ hlt]
      refine (congrArg (· >>= _) (if_pos h)).trans ?_
      rfl
    have hanswer : finder.answer apply (applyRequest revision config reset) f = _ :=
      finderAnswer_apply apply f
    rw [hanswer, hexamine]
    exact ⟨rfl, fun _ => rfl⟩
  refused apply revision config reset f h := by
    have hanswer : finder.answer apply (applyRequest revision config reset) f = _ :=
      finderAnswer_apply apply f
    rw [hanswer] at h ⊢
    cases hexamine : f.examine (applyRequest revision config reset) (some apply) with
    | error e => exact ⟨rfl, rfl⟩
    | ok d =>
      rw [hexamine] at h
      exact absurd (isOk_okReply false d.1) (by rw [h]; exact Bool.false_ne_true)
  accepted apply revision config reset f hinv h := by
    have hanswer : finder.answer apply (applyRequest revision config reset) f = _ :=
      finderAnswer_apply apply f
    rw [hanswer] at h ⊢
    cases hexamine : f.examine (applyRequest revision config reset) (some apply) with
    | error e =>
      rw [hexamine] at h
      cases h
    | ok d =>
      obtain ⟨next, document, candidate⟩ := d
      obtain ⟨hcheck, hentries, hparse⟩ := examine_ndi hexamine
      have hlt := check_bound hcheck
      obtain rfl := check_next hcheck
      refine ⟨hlt, ⟨rfl, ?_⟩, get_okReply false _, _, rfl,
        ⟨_, _, _, _, _, rfl, hlt, hentries, hparse⟩, ?_⟩
      · intro k j hk
        simp only [SortedMap.get?, hentries, SortedMap.lookup] at hk
        split at hk
        · rename_i hkey
          cases hk
          exact if_pos ⟨hkey, rfl⟩
        · cases hk
      · rw [finder_restore hlt hentries hparse]
        exact ⟨rfl, fun _ => rfl⟩
  taken apply revision config reset f h hlt holder := by
    obtain ⟨document, candidate, hentries, hparse, hcandidate⟩ := h
    have hexamine : f.examine (applyRequest revision config reset) (some apply) =
        .ok (revision, document, candidate) :=
      examine_ok hlt holder hentries hparse (by simp [NdiFollower.rebuilt, hcandidate])
    have hanswer : finder.answer apply (applyRequest revision config reset) f = _ :=
      finderAnswer_apply apply f
    rw [hanswer, hexamine]
    exact ⟨rfl, rfl⟩
  restore j hj := by
    obtain ⟨revision, config, reset, document, candidate, rfl, hlt, hentries, hparse⟩ := hj
    rw [finder_restore hlt hentries hparse]
    exact hlt

end NdimonR.Delivery
