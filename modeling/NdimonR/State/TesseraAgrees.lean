import NdimonR.Library.Outcome
import NdimonR.State.CrossDomain

/-! What Tessera, audio and network say of each other, over any sequence of commits. -/

namespace NdimonR.State

open Types

theorem ensure_eq_ok {condition : Bool} {error : ApiError} {u : Unit} :
    ensure condition error = .ok u ↔ condition = true := by
  cases condition <;> simp [ensure]

theorem ensure_eq_error {condition : Bool} {error e : ApiError} :
    ensure condition error = .error e ↔ condition = false ∧ error = e := by
  cases condition <;> simp [ensure]

theorem ensure_bind_error {α : Type} {condition : Bool} {error e : ApiError}
    {f : Unit → Except ApiError α} (h : (ensure condition error >>= f) = .error e) :
    error = e ∨ f () = .error e := by
  cases condition with
  | true => exact .inr h
  | false =>
    cases h
    exact .inl rfl

/-! ### The rules -/

/-- A source that plays from Tessera lies within the device's RX channels. -/
def SourceInRange (t : Types.Tessera) (source : AudioSource) : Prop :=
  source.enabled = true → source.resource = "tessera:main:rx" →
    1 ≤ source.channelStart ∧ source.channelStart + source.channels - 1 ≤ t.device.rxChannels

/-- A sink that plays to Tessera lies within the device's TX channels. -/
def SinkInRange (t : Types.Tessera) (sink : AudioSink) : Prop :=
  sink.enabled = true → sink.resource = "tessera:main:tx" →
    1 ≤ sink.channelStart ∧ sink.channelStart + sink.channels - 1 ≤ t.device.txChannels

structure Ranges (t : Types.Tessera) (audio : Types.Audio) : Prop where
  sources : ∀ e ∈ audio.sources.entries, SourceInRange t e.2
  sinks : ∀ e ∈ audio.sinks.entries, SinkInRange t e.2

/-- A binding is the network of the audio role. -/
def Binding (t : Types.Tessera) (network : NetworkProfiles) : Prop :=
  ∀ id, t.networkBinding = some id → id = network.roles.audio ∧ ∃ n ∈ network.networks, n.id = id

/-- Ranges and binding, where Tessera is configured. -/
def Agrees (s : DesiredState) : Prop :=
  ∀ t, s.tessera = some t → Binding t s.network ∧ Ranges t s.audio

/-- Every playing endpoint of Tessera is at 48 kHz. -/
def RateFits (s : DesiredState) : Prop :=
  ∀ t, s.tessera = some t →
    ((∃ e ∈ s.audio.sources.entries, e.2.enabled = true ∧
      (Text.stripPrefix "tessera:" e.2.resource).isSome = true) ∨
    ∃ e ∈ s.audio.sinks.entries, e.2.enabled = true ∧
      (Text.stripPrefix "tessera:" e.2.resource).isSome = true) → t.device.sampleRate = 48000

theorem tessera_of_valid {floatLen : ℚ → Nat} {s : DesiredState} {t : Types.Tessera}
    (h : validate floatLen s = .ok ()) (ht : s.tessera = some t) :
    Validator.tessera t s.audio = [] := by
  have h := validate_eq_ok.mp h
  simp only [validationErrors, List.append_eq_nil_iff] at h
  obtain ⟨⟨⟨⟨htessera, -⟩, -⟩, -⟩, -⟩ := h
  simpa only [ht, Option.elim_some] using htessera.2

theorem rate_of_valid {floatLen : ℚ → Nat} {s : DesiredState}
    (h : validate floatLen s = .ok ()) : RateFits s := by
  intro t ht hactive
  have htessera := tessera_of_valid h ht
  simp only [Validator.tessera, List.append_eq_nil_iff, check_eq_nil] at htessera
  obtain ⟨⟨⟨⟨-, hrate⟩, -⟩, -⟩, -⟩ := htessera
  simp only [Bool.or_eq_true, Bool.not_eq_true', beq_iff_eq, Bool.or_eq_false_iff,
    List.any_eq_false, SortedMap.values, List.mem_map, Bool.and_eq_true] at hrate
  obtain ⟨hsources, hsinks⟩ | hrate := hrate
  · obtain ⟨e, he, hplays⟩ | ⟨e, he, hplays⟩ := hactive
    · exact absurd hplays (hsources e.2 ⟨e, he, rfl⟩)
    · exact absurd hplays (hsinks e.2 ⟨e, he, rfl⟩)
  · exact hrate

namespace Tessera

theorem bound_iff {t : Types.Tessera} {network : NetworkProfiles} :
    bound t network = true ↔ Binding t network := by
  unfold bound Binding
  cases t.networkBinding with
  | none => simp
  | some id => simp [List.any_eq_true]

theorem lastChannel_of_valid {channels start count : Nat} (h : GeometryValid channels start count) :
    lastChannel start channels = start + channels - 1 := by
  have hfits := h.fits
  have hstart := h.starts.1
  have hsum : start + channels + (2 ^ 32 - 1) = start + channels - 1 + 2 ^ 32 := by omega
  rw [lastChannel, hsum, Nat.add_mod_right, Nat.mod_eq_of_lt (by omega)]

theorem ranges_iff {t : Types.Tessera} {audio : Types.Audio} (h : AudioValid audio) :
    (audio.sources.values.all (sourceFits t) = true ∧ audio.sinks.values.all (sinkFits t) = true) ↔
      Ranges t audio := by
  have hsource : ∀ e ∈ audio.sources.entries,
      (sourceFits t e.2 = true ↔ SourceInRange t e.2) := by
    intro e he
    have hgeometry := (h.sources e he).2.geometry
    rw [sourceFits, SourceInRange, lastChannel_of_valid hgeometry]
    cases e.2.enabled <;> simp [hgeometry.starts.1, imp_iff_not_or]
  have hsink : ∀ e ∈ audio.sinks.entries, (sinkFits t e.2 = true ↔ SinkInRange t e.2) := by
    intro e he
    have hgeometry := (h.sinks e he).2.geometry
    rw [sinkFits, SinkInRange, lastChannel_of_valid hgeometry]
    cases e.2.enabled <;> simp [hgeometry.starts.1, imp_iff_not_or]
  rw [List.all_eq_true, List.all_eq_true]
  constructor
  · intro ⟨hsources, hsinks⟩
    exact ⟨fun e he => (hsource e he).mp (hsources e.2 (List.mem_map_of_mem he)),
      fun e he => (hsink e he).mp (hsinks e.2 (List.mem_map_of_mem he))⟩
  · intro hranges
    constructor
    · intro x hx
      obtain ⟨e, he, rfl⟩ := List.mem_map.mp hx
      exact (hsource e he).mpr (hranges.sources e he)
    · intro x hx
      obtain ⟨e, he, rfl⟩ := List.mem_map.mp hx
      exact (hsink e he).mpr (hranges.sinks e he)

/-- The reducer's last checks are the rules. -/
theorem agreement_iff {s : DesiredState} (h : AudioValid s.audio) :
    agreement s = .ok () ↔ Agrees s := by
  unfold agreement Agrees
  cases s.tessera with
  | none => simp
  | some t =>
    simp only [Outcome.bind_eq_ok, ensure_eq_ok, exists_const, bound_iff, ranges_iff h,
      Option.some.injEq, forall_eq']

theorem reduce_eq_ok {resize : Resize} {s next : DesiredState} {c : Command} :
    reduce resize s c = .ok next ↔
      installed s = true ∧ change resize s c = .ok next ∧ agreement next = .ok () := by
  simp only [reduce, Outcome.bind_eq_ok, ensure_eq_ok, exists_const, Except.ok.injEq]
  constructor
  · intro ⟨hinstalled, changed, hchange, _, hagrees, he⟩
    subst he
    exact ⟨hinstalled, hchange, hagrees⟩
  · intro ⟨hinstalled, hchange, hagrees⟩
    exact ⟨hinstalled, next, hchange, (), hagrees, rfl⟩

/-- The texts that refuse a command for what audio and network say. -/
def disagreements : List ApiError := [bindingError, rxError, txError]

theorem agreement_error {s : DesiredState} {e : ApiError} (h : agreement s = .error e) :
    e ∈ disagreements := by
  unfold agreement at h
  cases ht : s.tessera with
  | none => simp [ht] at h
  | some t =>
    simp only [ht] at h
    rcases hbound : ensure (bound t s.network) bindingError with e' | u
    · rw [hbound] at h
      cases h
      simp [disagreements, (ensure_eq_error.mp hbound).2]
    · rw [hbound, Outcome.bind_ok] at h
      rcases hrx : ensure (s.audio.sources.values.all (sourceFits t)) rxError with e' | u
      · rw [hrx] at h
        cases h
        simp [disagreements, (ensure_eq_error.mp hrx).2]
      · rw [hrx, Outcome.bind_ok] at h
        simp [disagreements, (ensure_eq_error.mp h).2]

/-- Commands that change neither the channels nor the binding. -/
def Gentle (t : Types.Tessera) : Command → Prop
  | .setTessera t' => t'.device.rxChannels = t.device.rxChannels ∧
      t'.device.txChannels = t.device.txChannels ∧ t'.networkBinding = t.networkBinding
  | .putTesseraFlows _ | .setTesseraLabel .. | .tesseraService _ => True
  | _ => False

/-- What the rules read of Tessera. -/
structure SameReach (t t' : Types.Tessera) : Prop where
  rx : t'.device.rxChannels = t.device.rxChannels
  tx : t'.device.txChannels = t.device.txChannels
  binding : t'.networkBinding = t.networkBinding

theorem agrees_congr {s next : DesiredState} {t t' : Types.Tessera} (ht : s.tessera = some t)
    (ht' : next.tessera = some t') (h : SameReach t t') (hnetwork : next.network = s.network)
    (hsources : next.audio.sources = s.audio.sources)
    (hsinks : next.audio.sinks = s.audio.sinks) : Agrees next ↔ Agrees s := by
  have hbinding : Binding t' next.network ↔ Binding t s.network := by
    rw [Binding, Binding, hnetwork, h.binding]
  have hranges : Ranges t' next.audio ↔ Ranges t s.audio := by
    constructor
    · intro hr
      constructor
      · simpa only [hsources, SourceInRange, h.rx] using hr.sources
      · simpa only [hsinks, SinkInRange, h.tx] using hr.sinks
    · intro hr
      constructor
      · simpa only [hsources, SourceInRange, h.rx] using hr.sources
      · simpa only [hsinks, SinkInRange, h.tx] using hr.sinks
  simp only [Agrees, ht, ht', Option.some.injEq, forall_eq', hbinding, hranges]

theorem setLabel_same {t t' : Types.Tessera} {direction : Direction} {channel : Nat}
    {label : Option String} (h : setLabel t direction channel label = .ok t') : SameReach t t' := by
  simp only [setLabel, Outcome.bind_eq_ok, ensure_eq_ok, exists_const, Except.ok.injEq] at h
  obtain ⟨_, -, rfl⟩ := h
  cases direction <;> exact ⟨rfl, rfl, rfl⟩

/-- A gentle command changes nothing that the rules read. -/
theorem gentle_change {resize : Resize} {s next : DesiredState} {t : Types.Tessera} {c : Command}
    (ht : s.tessera = some t) (hc : Gentle t c) (h : change resize s c = .ok next) :
    (∃ t', next.tessera = some t' ∧ SameReach t t') ∧ next.network = s.network ∧
      next.audio = s.audio := by
  cases c with
  | setTessera t' =>
    obtain ⟨hrx, htx, hbinding⟩ := hc
    simp only [change, set, Outcome.bind_eq_ok, ht, Option.any_some, hrx, htx, bne_self_eq_false,
      Bool.or_self, Bool.false_eq_true, if_false, Except.ok.injEq] at h
    obtain ⟨clock, -, audio, rfl, rfl⟩ := h
    exact ⟨⟨_, rfl, hrx, htx, hbinding⟩, rfl, rfl⟩
  | putTesseraFlows flows =>
    simp only [change, configured, ht, Outcome.bind_ok, Except.ok.injEq] at h
    subst h
    exact ⟨⟨_, rfl, rfl, rfl, rfl⟩, rfl, rfl⟩
  | setTesseraLabel direction channel label =>
    simp only [change, configured, ht, Outcome.bind_ok, Outcome.bind_eq_ok, Except.ok.injEq] at h
    obtain ⟨t', hlabel, rfl⟩ := h
    exact ⟨⟨t', rfl, setLabel_same hlabel⟩, rfl, rfl⟩
  | tesseraService action =>
    simp only [change, Except.ok.injEq] at h
    subst h
    exact ⟨⟨t, ht, rfl, rfl, rfl⟩, rfl, rfl⟩
  | _ => exact hc.elim

/-- What a gentle command is refused for otherwise has texts of its own. -/
theorem gentle_error {resize : Resize} {s : DesiredState} {t : Types.Tessera} {c : Command}
    {e : ApiError} (ht : s.tessera = some t) (hc : Gentle t c)
    (h : change resize s c = .error e) : e ∉ disagreements := by
  cases c with
  | setTessera t' =>
    obtain ⟨hrx, htx, hbinding⟩ := hc
    simp only [change, set, ht, Option.any_some, hrx, htx, bne_self_eq_false,
      Bool.or_self, Bool.false_eq_true, if_false] at h
    rcases hclock : clockOf (some t) t' with e' | clock
    · rw [hclock] at h
      cases h
      rcases ensure_bind_error hclock with rfl | hrest
      · decide +kernel
      · cases hrest
    · rw [hclock] at h
      cases h
  | putTesseraFlows flows =>
    simp only [change, configured, ht] at h
    cases h
  | setTesseraLabel direction channel label =>
    simp only [change, configured, ht, Outcome.bind_ok] at h
    rcases hlabel : setLabel t direction channel label with e' | t'
    · rw [hlabel] at h
      cases h
      rcases ensure_bind_error hlabel with rfl | hrest
      · decide +kernel
      · cases hrest
    · rw [hlabel] at h
      cases h
  | tesseraService action => cases h
  | _ => exact hc.elim

/-- A gentle command is refused for ranges or binding exactly where the document found breaks
the rules. -/
theorem gentle_refused_iff {resize : Resize} {s : DesiredState} {t : Types.Tessera} {c : Command}
    (hvalid : AudioValid s.audio) (ht : s.tessera = some t) (hc : Gentle t c) :
    (∃ e ∈ disagreements, reduce resize s c = .error e) ↔
      installed s = true ∧ (∃ next, change resize s c = .ok next) ∧ ¬ Agrees s := by
  have hagreement : ∀ next, change resize s c = .ok next → (agreement next = .ok () ↔ Agrees s) := by
    intro next hnext
    obtain ⟨⟨t', ht', hsame⟩, hnetwork, haudio⟩ := gentle_change ht hc hnext
    have hnextValid : AudioValid next.audio := by rwa [haudio]
    rw [agreement_iff hnextValid]
    exact agrees_congr ht ht' hsame hnetwork (by rw [haudio]) (by rw [haudio])
  constructor
  · intro ⟨e, he, h⟩
    rcases hinstalled : installed s with _ | _
    · have hmissing : ApiError.unsupported "Tessera plugin is not installed" ∉ disagreements := by
        decide +kernel
      rw [reduce, hinstalled] at h
      cases h
      exact absurd he hmissing
    · rcases hchange : change resize s c with e' | next
      · rw [reduce, hinstalled, hchange] at h
        cases h
        exact absurd he (gentle_error ht hc hchange)
      · refine ⟨rfl, ⟨next, rfl⟩, fun hagrees => ?_⟩
        have hok := reduce_eq_ok.mpr ⟨hinstalled, hchange, (hagreement next hchange).mpr hagrees⟩
        rw [hok] at h
        cases h
  · intro ⟨hinstalled, ⟨next, hchange⟩, hbroken⟩
    rcases hchecks : agreement next with e | u
    · refine ⟨e, agreement_error hchecks, ?_⟩
      rw [reduce, hinstalled, hchange]
      simp only [ensure, if_true, Outcome.bind_ok, hchecks]
      rfl
    · exact absurd ((hagreement next hchange).mp hchecks) hbroken

end Tessera

/-! ### Careful runs -/

namespace Audio

/-- What an audio command brings lies within the device. -/
def Fitting (env : Projections) (s : DesiredState) (t : Types.Tessera) : Command → Prop
  | .putAudio audio => Ranges t audio
  | .putAudioSource _ source => SourceInRange t source
  | .putAudioSink _ sink => SinkInRange t sink
  | .importBackup document .audio => Ranges t document.document.audio
  | .putOutputAudio output choice normalize => ∀ audio,
      env.compileOutput s output choice normalize = .ok audio → Ranges t audio
  | _ => True

theorem syncV1_ends {env : Projections} {audio next : Types.Audio}
    (h : syncV1 env audio = .ok next) :
    next.sources = audio.sources ∧ next.sinks = audio.sinks := by
  unfold syncV1 at h
  rcases ite_eq_iff.mp h with ⟨-, h⟩ | ⟨-, h⟩
  · cases h
    exact ⟨rfl, rfl⟩
  · obtain ⟨derived, -, h⟩ := Outcome.bind_eq_ok.mp h
    cases h
    exact ⟨rfl, rfl⟩

theorem removed_in_range {t : Types.Tessera} {env : Projections} {audio next : Types.Audio}
    {ids : List String} (hr : Ranges t audio) (h : removeEndpoints env audio ids = .ok next) :
    Ranges t next := by
  obtain ⟨_, -, h⟩ := Outcome.bind_eq_ok.mp h
  obtain ⟨hsources, hsinks⟩ := syncV1_ends h
  constructor
  · intro e he
    rw [hsources] at he
    exact hr.sources e (SortedMap.mem_filter he)
  · intro e he
    rw [hsinks] at he
    obtain ⟨x, hx, rfl⟩ := List.mem_map.mp he
    exact hr.sinks x (SortedMap.mem_filter hx)

/-- A fitting audio command keeps every range. -/
theorem change_in_range {env : Projections} {s : DesiredState} {t : Types.Tessera} {c : Command}
    {next : Types.Audio} (hr : Ranges t s.audio) (hfits : Fitting env s t c)
    (h : change env s c = .ok next) : Ranges t next := by
  cases c with
  | putAudio audio =>
    cases h
    exact hfits
  | setAudioEngine engine =>
    cases h
    exact ⟨hr.sources, hr.sinks⟩
  | putAudioSource id source =>
    obtain ⟨hsources, hsinks⟩ := syncV1_ends h
    constructor
    · intro e he
      rw [hsources] at he
      rcases SortedMap.mem_insert he with rfl | he
      · exact hfits
      · exact hr.sources e he
    · rw [hsinks]
      exact hr.sinks
  | putAudioSink id sink =>
    obtain ⟨hsources, hsinks⟩ := syncV1_ends h
    constructor
    · rw [hsources]
      exact hr.sources
    · intro e he
      rw [hsinks] at he
      rcases SortedMap.mem_insert he with rfl | he
      · exact hfits
      · exact hr.sinks e he
  | removeAudioEndpoints ids => exact removed_in_range hr h
  | importBackup document scope =>
    cases scope with
    | audio =>
      cases h
      exact hfits
    | _ => cases h
  | putOutputAudio output choice normalize =>
    obtain ⟨audio, haudio, h⟩ := Outcome.bind_eq_ok.mp h
    cases h
    have hcompiled := hfits audio haudio
    exact ⟨hcompiled.sources, hcompiled.sinks⟩
  | _ => cases h

end Audio

/-- A restore takes Tessera and audio together, and never the network. -/
def Restorable (s : DesiredState) (backup : BackupDocument) : RestoreScope → Prop
  | .all | .settings => ∀ t, backup.document.tessera = some t →
      Binding t s.network ∧ Ranges t backup.document.audio
  | _ => True

theorem restored_agrees {floatLen : ℚ → Nat} {s next : DesiredState} {backup : BackupDocument}
    {scope : RestoreScope} (h : Agrees s) (hfits : Restorable s backup scope)
    (hrestore : restoreBackup floatLen s backup scope = .ok next) : Agrees next := by
  unfold restoreBackup at hrestore
  cases hv : validate floatLen backup.document with
  | error errors =>
    rw [hv] at hrestore
    cases hrestore
  | ok _ =>
    rw [hv] at hrestore
    cases scope with
    | all =>
      cases hrestore
      exact hfits
    | settings =>
      cases hrestore
      exact hfits
    | _ =>
      cases hrestore
      exact h

/-- The changes that keep the rules: each brings only what fits. -/
inductive Careful (env : Env) (s : DesiredState) : DesiredState → Prop where
  | tessera {c next} : Tessera.reduce env.resize s c = .ok next → Careful env s next
  | audio {c next} : (∀ t, s.tessera = some t → Audio.Fitting env.audio s t c) →
      Audio.reduce env.audio s c = .ok next → Careful env s next
  | restore {backup scope next} : Restorable s backup scope →
      restoreBackup env.floatLen s backup scope = .ok next → Careful env s next
  | network (profiles : NetworkProfiles) : (∀ t, s.tessera = some t → Binding t profiles) →
      Careful env s { s with network := profiles }
  | elsewhere {next} : Elsewhere s next → Careful env s next

structure CarefulStep (env : Env) (s next : DesiredState) : Prop where
  change : ∃ changed revision, Careful env s changed ∧ next = { changed with revision }
  valid : validate env.floatLen next = .ok ()

inductive CarefulRun (env : Env) : DesiredState → Prop where
  | start {s} : validate env.floatLen s = .ok () → Agrees s → CarefulRun env s
  | step {s next} : CarefulRun env s → CarefulStep env s next → CarefulRun env next

theorem Careful.change {env : Env} {s next : DesiredState} (h : Careful env s next) :
    Change env s next := by
  cases h with
  | tessera h => exact .tessera h
  | audio _ h => exact .audio h
  | restore _ h => exact .restore h
  | network profiles _ => exact .network profiles
  | elsewhere h => exact .elsewhere h

theorem CarefulRun.reachable {env : Env} {s : DesiredState} (h : CarefulRun env s) :
    Reachable env s := by
  induction h with
  | start hvalid _ => exact .start hvalid
  | step _ hstep ih =>
    obtain ⟨changed, revision, hchange, he⟩ := hstep.change
    exact .step ih ⟨⟨changed, revision, hchange.change, he⟩, hstep.valid⟩

theorem Reachable.valid {env : Env} {s : DesiredState} (h : Reachable env s) :
    validate env.floatLen s = .ok () := by
  cases h with
  | start h => exact h
  | step _ h => exact h.valid

/-- An accepted Tessera command leaves a document that keeps the rules. -/
theorem reduced_agrees {resize : Tessera.Resize} {s next : DesiredState} {c : Command}
    (hvalid : AudioValid next.audio) (h : Tessera.reduce resize s c = .ok next) : Agrees next :=
  (Tessera.agreement_iff hvalid).mp (Tessera.reduce_eq_ok.mp h).2.2

theorem Careful.agrees {env : Env} {s next : DesiredState} (hs : Agrees s)
    (hvalid : AudioValid next.audio) (h : Careful env s next) : Agrees next := by
  cases h with
  | tessera h => exact reduced_agrees hvalid h
  | audio hfits h =>
    obtain ⟨audio, haudio, h⟩ := Outcome.bind_eq_ok.mp h
    cases h
    intro t ht
    obtain ⟨hbinding, hranges⟩ := hs t ht
    exact ⟨hbinding, Audio.change_in_range hranges (hfits t ht) haudio⟩
  | restore hfits h => exact restored_agrees hs hfits h
  | network profiles hbinding =>
    intro t ht
    exact ⟨hbinding t ht, (hs t ht).2⟩
  | elsewhere h =>
    intro t ht
    rw [h.tessera] at ht
    obtain ⟨hbinding, hranges⟩ := hs t ht
    rw [h.network]
    exact ⟨hbinding, by rw [h.sources]; exact hranges.sources, by rw [h.sinks]; exact hranges.sinks⟩

theorem CarefulRun.agrees {env : Env} {s : DesiredState} (h : CarefulRun env s) : Agrees s := by
  induction h with
  | start _ hagrees => exact hagrees
  | step _ hstep ih =>
    obtain ⟨changed, revision, hchange, rfl⟩ := hstep.change
    have hvalid : AudioValid changed.audio := (valid_of_validate hstep.valid).audio
    have hagrees : Agrees changed := hchange.agrees ih hvalid
    exact hagrees

/-- Tessera's rules hold after each of its own commands and along careful runs; elsewhere a
document may break them, and only then is a gentle command refused for them. -/
theorem tessera_agreement (env : Env) :
    (∀ s, Reachable env s → RateFits s) ∧
      (∀ s c next revision, Reachable env s → Tessera.reduce env.resize s c = .ok next →
        validate env.floatLen { next with revision } = .ok () → Agrees { next with revision }) ∧
      (∀ s, CarefulRun env s → Agrees s ∧ ∀ t c, s.tessera = some t → Tessera.Gentle t c →
        ∀ e ∈ Tessera.disagreements, Tessera.reduce env.resize s c ≠ .error e) ∧
      ∀ s t c, Reachable env s → s.tessera = some t → Tessera.Gentle t c →
        ((∃ e ∈ Tessera.disagreements, Tessera.reduce env.resize s c = .error e) ↔
          Tessera.installed s = true ∧ (∃ next, Tessera.change env.resize s c = .ok next) ∧
            ¬ Agrees s) := by
  have hrefused : ∀ s t c, Reachable env s → s.tessera = some t → Tessera.Gentle t c →
      ((∃ e ∈ Tessera.disagreements, Tessera.reduce env.resize s c = .error e) ↔
        Tessera.installed s = true ∧ (∃ next, Tessera.change env.resize s c = .ok next) ∧
          ¬ Agrees s) := by
    intro s t c hs ht hc
    exact Tessera.gentle_refused_iff (valid_of_validate hs.valid).audio ht hc
  refine ⟨fun s hs => rate_of_valid hs.valid, ?_, ?_, hrefused⟩
  · intro s c next revision _ h hvalid
    have haudio : AudioValid next.audio := (valid_of_validate hvalid).audio
    have hagrees : Agrees next := reduced_agrees haudio h
    exact hagrees
  · intro s hs
    refine ⟨hs.agrees, fun t c ht hc e he h => ?_⟩
    have hbroken := (hrefused s t c hs.reachable ht hc).mp ⟨e, he, h⟩
    exact hbroken.2.2 hs.agrees

def sampleEnv : Env where
  floatLen _ := 0
  resize audio _ := .ok audio
  audio :=
    { primary := fun _ => 1
      derive := fun _ => .error .permissionDenied
      compileOutput := fun s _ _ _ => .ok s.audio }

/-- The plugin is installed on a fresh document. -/
def pluginInstalled : DesiredState :=
  { revision := 1
    plugins := .singleton "tessera" { installed := true, enabled := true, version := "1.0.0" } }

/-- A device of two channels each way. -/
def twoChannels : Types.Tessera where
  enabled := true
  device := { name := "stage", latencyUs := 1000 }
  clock := {}
  flows := []
  locks := .empty

def configuredDevice : DesiredState :=
  { pluginInstalled with revision := 2, tessera := some (Tessera.locked twoChannels) }

/-- A source on channels five and six. -/
def beyondChannels : AudioSource where
  kind := .alsa
  enabled := true
  channels := 2
  output := none
  alsaPcm := some "plughw:Loopback,1,0"
  endpoint := "net-in"
  resource := "tessera:main:rx"
  channelStart := 5
  channelCount := 2
  gainDb := 0
  delayMs := 0

def outOfRange : DesiredState :=
  { configuredDevice with
    revision := 3
    audio := { configuredDevice.audio with
      sources := configuredDevice.audio.sources.insert "net-in" beyondChannels } }

theorem plugin_step : Step sampleEnv {} pluginInstalled :=
  ⟨⟨pluginInstalled, 1, .elsewhere ⟨rfl, rfl, rfl, rfl⟩, rfl⟩, by rfl⟩

theorem twoChannels_set : Tessera.reduce sampleEnv.resize pluginInstalled
    (.setTessera twoChannels) =
      .ok { pluginInstalled with tessera := some (Tessera.locked twoChannels) } := by rfl

theorem configured_step : Step sampleEnv pluginInstalled configuredDevice :=
  ⟨⟨_, 2, .tessera twoChannels_set, rfl⟩, by rfl⟩

/-- An accepted audio command leaves a source beyond the device's channels, and Tessera then
refuses even a label. -/
theorem ranges_are_lost :
    validate sampleEnv.floatLen {} = .ok () ∧ Step sampleEnv {} pluginInstalled ∧
      Step sampleEnv pluginInstalled configuredDevice ∧ Step sampleEnv configuredDevice outOfRange ∧
      Tessera.installed outOfRange = true ∧ ¬ Agrees outOfRange ∧
      Tessera.reduce sampleEnv.resize outOfRange (.setTesseraLabel .rx 1 (some "left")) =
        .error Tessera.rxError := by
  have hreduce : Audio.reduce sampleEnv.audio configuredDevice (.putAudio outOfRange.audio) =
      .ok { configuredDevice with audio := outOfRange.audio } := by rfl
  refine ⟨by rfl, plugin_step, configured_step, ⟨⟨_, 3, .audio hreduce, rfl⟩, by rfl⟩, by rfl, ?_,
    by rfl⟩
  intro hagrees
  obtain ⟨-, hranges⟩ := hagrees (Tessera.locked twoChannels) rfl
  have hin : ("net-in", beyondChannels) ∈ outOfRange.audio.sources.entries := by decide +kernel
  have hlast := (hranges.sources _ hin rfl rfl).2
  revert hlast
  decide +kernel

/-- The rules on the configured device and on the document that breaks them. -/
theorem sample_device_agrees :
    (∀ e ∈ Tessera.disagreements, Tessera.reduce sampleEnv.resize configuredDevice
        (.setTesseraLabel .rx 1 (some "left")) ≠ .error e) ∧
      ((∃ e ∈ Tessera.disagreements, Tessera.reduce sampleEnv.resize outOfRange
          (.setTesseraLabel .rx 1 (some "left")) = .error e) ↔
        Tessera.installed outOfRange = true ∧
          (∃ next, Tessera.change sampleEnv.resize outOfRange
            (.setTesseraLabel .rx 1 (some "left")) = .ok next) ∧ ¬ Agrees outOfRange) := by
  obtain ⟨-, -, hcareful, hrefused⟩ := tessera_agreement sampleEnv
  have hplugin : CarefulRun sampleEnv pluginInstalled := by
    refine .start (by rfl) fun t ht => ?_
    cases ht
  have hconfigured : CarefulRun sampleEnv configuredDevice := by
    exact .step hplugin ⟨⟨_, 2, .tessera twoChannels_set, rfl⟩, by rfl⟩
  have hreachable : Reachable sampleEnv outOfRange := .start (by rfl)
  exact ⟨(hcareful _ hconfigured).2 _ _ rfl trivial, hrefused _ _ _ hreachable rfl trivial⟩

end NdimonR.State
