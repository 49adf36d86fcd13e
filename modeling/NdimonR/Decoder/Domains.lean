import NdimonR.Decoder.Config
import NdimonR.Library.Outcome

/-! What the document of a domain decides, and how a request is read. -/

namespace NdimonR.Decoder

open Json

variable (narrow : ℚ → ℚ)

inductive Domain where
  | device
  | outputs
  | ndi
  | audio
  | display
  | network
  deriving DecidableEq

def Domain.name : Domain → String
  | .device => "device"
  | .outputs => "outputs"
  | .ndi => "ndi"
  | .audio => "audio"
  | .display => "display"
  | .network => "network"

theorem Domain.name_injective : Function.Injective Domain.name := by
  intro d e h
  cases d <;> cases e <;> first | rfl | exact absurd h (by decide)

/-- The settings the document of a domain decides. -/
inductive View where
  | device (mode decodeMode ndiRecvName hostName deviceName : String)
  | outputs (cache : SortedMap Nat OutputConfig)
      (sourceName sourceIp screensaverMode sourceSelection : String)
  | ndi (config : NdiConfig)
  | audio (engine ndiAudio : String) (settings : AudioSettings)
  | display (config : DisplayConfig)
  | network (binding : Option NetworkBinding)
  deriving DecidableEq

namespace Config

/-- The audio settings without their stamp: it is the revision of the request that set them. -/
def view : Domain → Config → View
  | .device, c => .device c.device.mode c.device.decodeMode c.device.ndiRecvName c.device.hostName
      c.device.deviceName
  | .outputs, c => .outputs c.outputCache c.connectedSourceName c.connectedSourceIp
      c.decoder.screensaverMode c.decoder.sourceSelection
  | .ndi, c => .ndi
      { transport := c.transport, finder := c.finder, group := c.ndiGroup
        offSubnetIps := c.offSubnetIps, tallyMode := c.decoder.tallyMode
        colorSpace := c.decoder.colorSpace }
  | .audio, c => .audio c.device.audioEngine c.decoder.ndiAudio
      { c.audioSettings with revision := 0 }
  | .display, c => .display { splash := c.splash, osd := c.osd }
  | .network, c => .network c.binding

end Config

open Config

/-- What the document of a domain says. -/
def Domain.parse : Domain → Json → Result View
  | .device, j => (parseDevice j).map fun x => (takeDevice x {}).view .device
  | .outputs, j => (parseOutputs j).map fun x => (takeOutputs x {}).view .outputs
  | .ndi, j => (parseNdi j).map fun x => (takeNdi x {}).view .ndi
  | .audio, j => (parseAudio narrow j 0).map fun x => (takeAudio x {}).view .audio
  | .display, j => (parseDisplay narrow j).map fun x => (takeDisplay x {}).view .display
  | .network, j => (parseNetwork j).map fun x => (takeNetwork x {}).view .network

namespace Config.Domains

def view : Domain → Domains → Option View
  | .device, d => d.device.map fun x => (takeDevice x {}).view .device
  | .outputs, d => d.outputs.map fun x => (takeOutputs x {}).view .outputs
  | .ndi, d => d.ndi.map fun x => (takeNdi x {}).view .ndi
  | .audio, d => d.audio.map fun x => (takeAudio x {}).view .audio
  | .display, d => d.display.map fun x => (takeDisplay x {}).view .display
  | .network, d => d.network.map fun x => (takeNetwork x {}).view .network

end Config.Domains

/-! ### Reading a request -/

/-- The revision only stamps the settings. -/
theorem parseAudio_stamp (j : Json) (revision : Nat) :
    parseAudio narrow j revision = (parseAudio narrow j 0).map fun a =>
      { a with settings.revision := revision } := by
  simp only [parseAudio, Outcome.map_bind, Outcome.map_ok]

theorem parseAudio_revision {narrow : ℚ → ℚ} {j : Json} {revision : Nat} {a : AudioConfig}
    (h : parseAudio narrow j revision = .ok a) : a.settings.revision = revision := by
  rw [parseAudio_stamp] at h
  obtain ⟨b, _, rfl⟩ := Outcome.map_eq_ok.mp h
  rfl

namespace Config.Domains

variable {narrow}

theorem read_ok {next : Nat} {key : String} {j : Json} {ds ds' : Domains}
    (h : ds.read narrow next key j = .ok ds') :
    ∃ d v, Domain.name d = key ∧ d.parse narrow j = .ok v ∧ ds'.view d = some v ∧
      ∀ e ≠ d, ds'.view e = ds.view e := by
  simp only [read] at h
  repeat' split at h
  all_goals rename_i hkey
  · obtain ⟨x, hx, rfl⟩ := Outcome.map_eq_ok.mp h
    refine ⟨.device, _, hkey.symm, Outcome.map_eq_ok.mpr ⟨x, hx, rfl⟩, rfl, ?_⟩
    intro e he
    cases e <;> first | rfl | exact absurd rfl he
  · obtain ⟨x, hx, rfl⟩ := Outcome.map_eq_ok.mp h
    refine ⟨.outputs, _, hkey.symm, Outcome.map_eq_ok.mpr ⟨x, hx, rfl⟩, rfl, ?_⟩
    intro e he
    cases e <;> first | rfl | exact absurd rfl he
  · obtain ⟨x, hx, rfl⟩ := Outcome.map_eq_ok.mp h
    refine ⟨.ndi, _, hkey.symm, Outcome.map_eq_ok.mpr ⟨x, hx, rfl⟩, rfl, ?_⟩
    intro e he
    cases e <;> first | rfl | exact absurd rfl he
  · obtain ⟨x, hx, rfl⟩ := Outcome.map_eq_ok.mp h
    rw [parseAudio_stamp] at hx
    obtain ⟨y, hy, rfl⟩ := Outcome.map_eq_ok.mp hx
    refine ⟨.audio, _, hkey.symm, Outcome.map_eq_ok.mpr ⟨y, hy, rfl⟩, rfl, ?_⟩
    intro e he
    cases e <;> first | rfl | exact absurd rfl he
  · obtain ⟨x, hx, rfl⟩ := Outcome.map_eq_ok.mp h
    refine ⟨.display, _, hkey.symm, Outcome.map_eq_ok.mpr ⟨x, hx, rfl⟩, rfl, ?_⟩
    intro e he
    cases e <;> first | rfl | exact absurd rfl he
  · obtain ⟨x, hx, rfl⟩ := Outcome.map_eq_ok.mp h
    refine ⟨.network, _, hkey.symm, Outcome.map_eq_ok.mpr ⟨x, hx, rfl⟩, rfl, ?_⟩
    intro e he
    cases e <;> first | rfl | exact absurd rfl he
  · cases h

theorem read_complete (next : Nat) {d : Domain} {j : Json} {v : View}
    (h : d.parse narrow j = .ok v) (ds : Domains) :
    ∃ ds', ds.read narrow next d.name j = .ok ds' := by
  cases d
  all_goals
    simp only [Domain.parse] at h
    obtain ⟨x, hx, -⟩ := Outcome.map_eq_ok.mp h
    simp only [read, Domain.name, reduceIte, String.reduceEq]
  case audio =>
    rw [parseAudio_stamp, hx]
    exact ⟨_, rfl⟩
  all_goals exact ⟨_, Outcome.map_eq_ok.mpr ⟨x, hx, rfl⟩⟩

/-- Audio settings are read from the audio entry only. -/
theorem read_audio {next : Nat} {key : String} {j : Json} {ds ds' : Domains}
    (h : ds.read narrow next key j = .ok ds') {a : AudioConfig} (ha : ds'.audio = some a) :
    ds.audio = some a ∨ key = "audio" ∧ parseAudio narrow j next = .ok a := by
  simp only [read] at h
  repeat' split at h
  case isFalse.isFalse.isFalse.isTrue =>
    rename_i hkey
    obtain ⟨x, hx, rfl⟩ := Outcome.map_eq_ok.mp h
    cases ha
    exact .inr ⟨hkey, hx⟩
  all_goals
    first
    | cases h
    | obtain ⟨x, hx, rfl⟩ := Outcome.map_eq_ok.mp h
      exact .inl ha

theorem readAll_audio {next : Nat} {entries : List (String × Json)} {ds : Domains}
    (h : (readAll narrow next entries ds).2 = []) {a : AudioConfig}
    (ha : (readAll narrow next entries ds).1.audio = some a) :
    ds.audio = some a ∨ ∃ j, ("audio", j) ∈ entries ∧ parseAudio narrow j next = .ok a := by
  induction entries generalizing ds with
  | nil => exact .inl ha
  | cons entry rest ih =>
    obtain ⟨key, j⟩ := entry
    cases hr : ds.read narrow next key j with
    | error e => simp [readAll, hr] at h
    | ok ds₁ =>
      simp only [readAll, hr] at h ha
      rcases ih h ha with hread | ⟨i, hi, hparse⟩
      · rcases read_audio hr hread with hbefore | ⟨rfl, hparse⟩
        · exact .inl hbefore
        · exact .inr ⟨j, List.mem_cons_self, hparse⟩
      · exact .inr ⟨i, List.mem_cons_of_mem _ hi, hparse⟩

/-- Every entry is a domain whose document was read, and no other domain was touched. -/
theorem readAll_ok {next : Nat} {entries : List (String × Json)} {ds : Domains}
    (hkeys : (entries.map Prod.fst).Nodup) (h : (readAll narrow next entries ds).2 = []) :
    (∀ e ∈ entries, ∃ d v, Domain.name d = e.1 ∧ d.parse narrow e.2 = .ok v ∧
      (readAll narrow next entries ds).1.view d = some v) ∧
    ∀ d, Domain.name d ∉ entries.map Prod.fst →
      (readAll narrow next entries ds).1.view d = ds.view d := by
  induction entries generalizing ds with
  | nil => exact ⟨fun e he => (nomatch he), fun _ _ => rfl⟩
  | cons entry rest ih =>
    obtain ⟨key, j⟩ := entry
    obtain ⟨hfresh, hkeys⟩ := List.nodup_cons.mp hkeys
    cases hr : ds.read narrow next key j with
    | error e => simp [readAll, hr] at h
    | ok ds₁ =>
      simp only [readAll, hr] at h ⊢
      obtain ⟨hin, hout⟩ := ih hkeys h
      obtain ⟨d, v, hd, hv, hview, hothers⟩ := read_ok hr
      constructor
      · intro e he
        rcases List.mem_cons.mp he with rfl | he
        · exact ⟨d, v, hd, hv, by rw [hout d (by rw [hd]; exact hfresh), hview]⟩
        · exact hin e he
      · intro e he
        rw [List.map_cons, List.mem_cons, not_or] at he
        obtain ⟨hne, he⟩ := he
        rw [hout e he]
        exact hothers e fun h => hne (by rw [h, hd])

theorem readAll_complete (next : Nat) {entries : List (String × Json)}
    (h : ∀ e ∈ entries, ∃ d v, Domain.name d = e.1 ∧ d.parse narrow e.2 = .ok v) (ds : Domains) :
    (readAll narrow next entries ds).2 = [] := by
  induction entries generalizing ds with
  | nil => rfl
  | cons entry rest ih =>
    obtain ⟨key, j⟩ := entry
    obtain ⟨d, v, rfl, hv⟩ := h _ List.mem_cons_self
    obtain ⟨ds₁, hr⟩ := read_complete next hv ds
    simp only [readAll, hr]
    exact ih (fun e he => h e (List.mem_cons_of_mem _ he)) ds₁

end Config.Domains

namespace Config

/-- What the supplied domains make of a configuration. -/
def take (ds : Domains) (c : Config) : Config :=
  let c := ds.device.elim c (takeDevice · c)
  let c := ds.outputs.elim c (takeOutputs · c)
  let c := ds.ndi.elim c (takeNdi · c)
  let c := ds.audio.elim c (takeAudio · c)
  let c := ds.display.elim c (takeDisplay · c)
  ds.network.elim c (takeNetwork · c)

theorem take_view (ds : Domains) (c : Config) (d : Domain) :
    (c.take ds).view d = (ds.view d).getD (c.view d) := by
  obtain ⟨device, outputs, ndi, audio, display, network⟩ := ds
  cases d <;> cases device <;> cases outputs <;> cases ndi <;> cases audio <;> cases display <;>
    cases network <;> rfl

/-- What an accepted request leaves. -/
def accept (d : Demand) (c : Config) : Config :=
  { (c.take d.domains).follow d.entries with revision := .commit d.next }

variable {narrow} {request : Json} {apply : Option AudioApply} {c : Config}

theorem thrown_eq_ok {α : Type} {r : Result α} {a : α} : thrown r = .ok a ↔ r = .ok a := by
  cases r <;> simp [thrown, Except.mapError]

theorem require_eq_ok {b : Bool} {e : String} {u : Unit} : require b e = .ok u ↔ b = true := by
  cases b <;> simp [require]

theorem object_nonempty {config : Json} :
    (isObject config && !isEmpty config) = true ↔ ∃ entries, config = .obj entries ∧ entries ≠ [] := by
  cases config <;> simp [isObject, asObject, isEmpty, size]

theorem examine_ok {d : Demand} :
    c.examine narrow request apply = .ok d ↔
      c.revision.check request = .ok d.next ∧ atKey request "config" = .ok (.obj d.entries) ∧
      d.entries ≠ [] ∧ (Domains.readAll narrow d.next d.entries {}).2 = [] ∧
      d.domains = (Domains.readAll narrow d.next d.entries {}).1 ∧
      askAudio apply d.domains.audio = .ok () := by
  simp only [examine, Outcome.bind_eq_ok, thrown_eq_ok, require_eq_ok, object_nonempty]
  constructor
  · rintro ⟨next, hnext, config, hconfig, _, ⟨entries, rfl, hentries⟩, h⟩
    split at h
    · cases h
    · rename_i hread
      obtain ⟨_, hask, h⟩ := Outcome.bind_eq_ok.mp h
      cases h
      exact ⟨hnext, hconfig, hentries, not_not.mp hread, rfl, thrown_eq_ok.mp hask⟩
  · rintro ⟨hnext, hconfig, hentries, hread, hdomains, hask⟩
    refine ⟨_, hnext, _, hconfig, (), ⟨_, rfl, hentries⟩, ?_⟩
    rw [show members (.obj d.entries) = d.entries from rfl, if_neg (not_not.mpr hread)]
    rw [hdomains] at hask
    refine Outcome.bind_eq_ok.mpr ⟨(), thrown_eq_ok.mpr hask, ?_⟩
    obtain ⟨next, entries, domains⟩ := d
    simp only at hdomains
    rw [hdomains]

theorem applyConfig_eq (request : Json) (apply : Option AudioApply) (c : Config) :
    applyConfig narrow request apply c =
      match c.examine narrow request apply with
      | .ok d => (.ok d.next, c.accept d)
      | .error errors => (.err errors, c) := by
  refine (Proc.bind_ok (p := Proc.read id) (t := c) rfl).trans ?_
  cases h : c.examine narrow request apply with
  | ok d =>
    refine (Proc.bind_ok (p := Proc.ofExcept (c.examine narrow request apply)) (t := c)
      (a := d) ?_).trans rfl
    rw [h]
    rfl
  | error errors =>
    refine Proc.bind_err (p := Proc.ofExcept (c.examine narrow request apply)) ?_
    rw [h]
    rfl

end Config

end NdimonR.Decoder
