import NdimonR.Decoder.Finder
import NdimonR.Library.Steps

/-! The finder publishes what the SDK sees as long as no read of an empty list comes when nothing
is remembered and the files still list sources; its settings, the SDK's file and the request kept
for the next start are those of the last accepted domain in every run. -/

namespace NdimonR.Decoder.Finder

open Json SdkText Steps

/-! ### What should be seen -/

/-- The address of a name: that of the last source of the name. -/
def addressOf (sources : List SrcEntry) (name : String) : Option String :=
  match (sources.filter fun s => s.name = name ∧ name ≠ "").getLast? with
  | some s => some s.ip
  | none => if name = "None" then some "None" else none

/-- Both files list the named sources and None, and nothing else. -/
structure Publishes (f : Files) (sources : List SrcEntry) : Prop where
  listed : ∃ entries, get "list" f.sourceList = some (.obj entries) ∧
    ∀ name, SortedMap.lookup name entries = (addressOf sources name).map .str
  offered : get "ndi" f.webui = some (.arr (.str "None" ::
    (sources.filter fun s => s.name ≠ "").map fun s => .str s.name))

/-- Both files list None only. -/
def blank (f : Files) : Bool :=
  get "list" f.sourceList = some (.obj [("None", .str "None")]) &&
    get "ndi" f.webui = some (.arr [.str "None"])

def documentOf (request : Json) : Option Json := (get "config" request).bind (get "ndi")

/-- What a run shows from outside. -/
structure Seen where
  /-- The NDI document of the last accepted request. -/
  accepted : Option Json
  /-- What the files of the start said last. -/
  loaded : FindSettings
  /-- The kept request that the process found. -/
  found : Json
  /-- The list of the SDK, after an iteration that read it. -/
  current : Option (List SrcEntry) := none

def seenAtStart (files : Files) (s : State) : Seen where
  accepted := if s.follower.config.isSome then documentOf files.cache else none
  loaded := s.settings
  found := files.cache

/-- What the files said last: a `-run` loads them while nothing is followed. -/
def loadedBy (s : State) (x : Slice) (last : FindSettings) : FindSettings :=
  match x.tick with
  | none => last
  | some t =>
    if s.finder.isSome ∧ t.moved = false ∧ t.param = "-run" ∧ s.follower.config = none then
      match fileSettings t.files with
      | .ok settings => settings
      | .error _ => last
    else last

def observe (s : State) (a : Act) (o : Seen) : Seen :=
  match a with
  | .request line first fallback =>
    match line, (s.serve line first fallback).1 with
    | .ok request, .applied _ => { o with accepted := documentOf request, current := none }
    | _, _ => { o with current := none }
  | .slice x =>
    { o with
      loaded := loadedBy s x o.loaded
      current := if s.reads x then some (copySources x.sources) else none }

abbrev System := State × Seen

def observed (t : System) (a : Act) : Option System :=
  (step t.1 a).map fun s => (s, observe t.1 a t.2)

/-- What the SDK was brought up with is what the settings say. -/
structure Ready (s : State) : Prop where
  sdk : s.finder.isSome = true → ∃ env, s.files.sdk = sdkFile env s.settings
  finder : ∀ c, s.finder = some c → c = findCreate s.settings

/-- The settings, the SDK's file and the kept request are those of the last accepted domain, or of
the files where there is none. A process without a finder is about to leave. -/
structure Described (s : State) (o : Seen) : Prop where
  undecided : o.accepted = none →
    s.follower.config = none ∧ s.settings = o.loaded ∧ s.files.cache = o.found
  decided : ∀ document, o.accepted = some document → ∃ n, parseNdi document = .ok n ∧
    s.follower.config = some n ∧ s.follower.document = document ∧ s.settings = .of n ∧
    documentOf s.files.cache = some document
  ready : Ready s

/-- A read of an empty list comes when nothing is remembered and the files still list something. -/
def leavesOut (t : System) : Act → Bool
  | .request .. => false
  | .slice x =>
    let s := t.1.beforeLook x
    t.1.reads x && x.sources.isEmpty && s.lastList.isEmpty && !blank s.files

/-- What the state before a step has to be. -/
def Leave (t : System) (a : Act) : Prop := leavesOut t a = false

instance (t : System) (a : Act) : Decidable (Leave t a) := inferInstanceAs (Decidable (_ = _))

structure Inv (t : System) : Prop where
  described : Described t.1 t.2
  remembered : t.1.lastList ≠ [] → Publishes t.1.files t.1.lastList
  shown : ∀ current, t.2.current = some current → Publishes t.1.files current

/-! ### The published files -/

theorem get?_listEntries (sources : List SrcEntry) (m : SortedMap String Json) (name : String) :
    (sources.foldl (fun m s => if s.name = "" then m else m.insert s.name (.str s.ip)) m).get? name =
      match (sources.filter fun s => s.name = name ∧ name ≠ "").getLast? with
      | some s => some (.str s.ip)
      | none => m.get? name := by
  induction sources generalizing m with
  | nil => rfl
  | cons s sources ih =>
    rw [List.foldl_cons, ih]
    by_cases hs : s.name = name ∧ name ≠ ""
    · obtain ⟨rfl, hne⟩ := hs
      rw [List.filter_cons_of_pos (by simp [hne]), List.getLast?_cons, if_neg hne]
      cases (sources.filter fun t => t.name = s.name ∧ s.name ≠ "").getLast? with
      | none => simp
      | some t => rfl
    · rw [List.filter_cons_of_neg (by simpa using hs)]
      cases (sources.filter fun t => t.name = name ∧ name ≠ "").getLast? with
      | some t => rfl
      | none =>
        by_cases hempty : s.name = ""
        · rw [if_pos hempty]
        · rw [if_neg hempty, SortedMap.get?_insert, if_neg]
          rintro rfl
          exact hs ⟨rfl, hempty⟩

theorem publishes_written (sources : List SrcEntry) (s : State) :
    Publishes (s.writeSourceList sources).files sources where
  listed := by
    refine ⟨(State.listEntries sources).entries, rfl, fun name => ?_⟩
    have h := get?_listEntries sources (SortedMap.empty.insert "None" (.str "None")) name
    refine h.trans ?_
    rw [addressOf]
    cases (sources.filter fun s => s.name = name ∧ name ≠ "").getLast? with
    | some s => rfl
    | none =>
      rw [SortedMap.get?_insert, SortedMap.get?_empty]
      split_ifs <;> rfl
  offered := by rfl

theorem publishes_of_blank {f : Files} (h : blank f = true) : Publishes f [] := by
  obtain ⟨hlist, hndi⟩ : get "list" f.sourceList = some (.obj [("None", .str "None")]) ∧
      get "ndi" f.webui = some (.arr [.str "None"]) := by simpa [blank] using h
  refine ⟨⟨_, hlist, fun name => ?_⟩, hndi⟩
  by_cases hname : name = "None"
  · subst hname
    rfl
  · simp [SortedMap.lookup, addressOf, hname]

/-- A name that stands once in the list has its own address. -/
theorem addressOf_own {sources : List SrcEntry} {s : SrcEntry} (hs : s ∈ sources) (hne : s.name ≠ "")
    (hone : ∀ t ∈ sources, t.name = s.name → t = s) : addressOf sources s.name = some s.ip := by
  have hmem : s ∈ sources.filter fun t => t.name = s.name ∧ s.name ≠ "" :=
    List.mem_filter.mpr ⟨hs, by simp [hne]⟩
  rw [addressOf, List.getLast?_eq_getLast_of_ne_nil (List.ne_nil_of_mem hmem)]
  have hlast := List.getLast_mem (List.ne_nil_of_mem hmem)
  obtain ⟨hin, hname⟩ := List.mem_filter.mp hlast
  simp only [decide_eq_true_eq] at hname
  simp only [hone _ hin hname.1]

/-! ### The SDK -/

theorem Ready.aside {s t : State} (h : Ready s) (hfinder : t.finder = s.finder)
    (hsettings : t.settings = s.settings) (hsdk : t.files.sdk = s.files.sdk) : Ready t := by
  refine ⟨?_, ?_⟩
  · rw [hfinder, hsettings, hsdk]
    exact h.sdk
  · rw [hfinder, hsettings]
    exact h.finder

theorem ready_recreate (env : Surroundings) (creates : Bool) (s : State) :
    Ready ((s.writeNdiSdkConfig env).recreate creates) := by
  refine ⟨fun _ => ⟨env, rfl⟩, fun c hc => ?_⟩
  unfold State.recreate at hc ⊢
  split at hc
  · exact (Option.some.inj hc).symm
  · cases hc

/-- Bringing the SDK up changes its file and the finder only. -/
theorem bringUp_eq (a : Attempt) (s : State) : ∃ sdk finder,
    s.bringUp a = { s with
      files.sdk := sdk
      finder := finder } := by
  unfold State.bringUp
  dsimp only
  split
  · exact ⟨_, _, rfl⟩
  · exact ⟨_, s.finder, rfl⟩

theorem bringUp_ready (a : Attempt) {s : State} (hs : s.finder = none) : Ready (s.bringUp a) := by
  unfold State.bringUp
  dsimp only
  split
  · exact ready_recreate ..
  · refine ⟨fun h => ?_, fun c hc => ?_⟩
    · change s.finder.isSome = true at h
      rw [hs] at h
      cases h
    · exact absurd (hs.symm.trans hc) (by simp)

/-- The new settings are up, or the previous ones where they could not be. -/
theorem rebuild_cases (n : NdiConfig) (first fallback : Attempt) (s : State) : ∃ sdk finder,
    (s.rebuild n first fallback = (true, { s with
        settings := .of n
        files.sdk := sdk
        finder := finder
        lastList := [] }) ∨
      s.rebuild n first fallback = (false, { s with
        files.sdk := sdk
        finder := finder })) ∧
    Ready (s.rebuild n first fallback).2 := by
  unfold State.rebuild
  dsimp only
  have hready := bringUp_ready first (s := { s with
    settings := .of n
    finder := none }) rfl
  obtain ⟨sdk, finder, h⟩ := bringUp_eq first { s with
    settings := .of n
    finder := none }
  rw [h] at hready ⊢
  by_cases hfinder : finder.isSome = true
  · rw [if_pos hfinder]
    exact ⟨sdk, finder, .inl rfl, hready.aside rfl rfl rfl⟩
  · rw [if_neg hfinder]
    obtain rfl : finder = none := by simpa using hfinder
    have hback := bringUp_ready fallback (s := { s with
      files.sdk := sdk
      finder := none }) rfl
    obtain ⟨sdk', finder', h'⟩ := bringUp_eq fallback { s with
      files.sdk := sdk
      finder := none }
    rw [h'] at hback
    refine ⟨sdk', finder', .inr ?_, ?_⟩
    · exact congrArg (Prod.mk false) h'
    · exact (congrArg Ready h').mpr hback

/-! ### Requests -/

theorem document_of_examine {f : NdiFollower} {request : Json} {next : Nat} {document : Json}
    {n : NdiConfig} (h : f.examine request none = .ok (next, document, n)) :
    documentOf request = some document ∧ parseNdi document = .ok n := by
  obtain ⟨_, _, h⟩ := Outcome.bind_eq_ok.mp h
  obtain ⟨domains, hdomains, h⟩ := Outcome.bind_eq_ok.mp h
  obtain ⟨_, _, h⟩ := Outcome.bind_eq_ok.mp h
  obtain ⟨_, hdocument, h⟩ := Outcome.bind_eq_ok.mp h
  obtain ⟨_, hparse, h⟩ := Outcome.bind_eq_ok.mp h
  obtain ⟨_, _, h⟩ := Outcome.bind_eq_ok.mp h
  cases h
  refine ⟨?_, hparse⟩
  rw [documentOf, Config.atKey_eq_ok.mp hdomains]
  exact Config.atKey_eq_ok.mp hdocument

/-- A refused request leaves all but the SDK's file and the finder. -/
def Refused (s : State) (r : Reply × State) : Prop :=
  (∀ next, r.1 ≠ .applied next) ∧ ∃ sdk finder, r.2 = { s with
    files.sdk := sdk
    finder := finder }

/-- An accepted request is followed and kept; what is remembered stays or is forgotten. -/
def Accepted (s : State) (request : Json) (r : Reply × State) : Prop :=
  ∃ next document n sdk finder lastList,
    documentOf request = some document ∧ parseNdi document = .ok n ∧
    r = (.applied next, { s with
      follower := ⟨.commit next, some n, document⟩
      settings := .of n
      finder := finder
      lastList := lastList
      files := { s.files with
        sdk := sdk
        cache := request } }) ∧
    (lastList = [] ∨ lastList = s.lastList)

theorem refused_same (s : State) (reply : Reply) (h : ∀ next, reply ≠ .applied next) :
    Refused s (reply, s) := ⟨h, s.files.sdk, s.finder, rfl⟩

theorem applyConfig_cases {s : State} {o : Seen} (h : Described s o) (request : Json)
    (first fallback : Attempt) :
    Ready (s.applyConfig request first fallback).2 ∧
      (Refused s (s.applyConfig request first fallback) ∨
        Accepted s request (s.applyConfig request first fallback)) := by
  unfold State.applyConfig
  cases hexamine : s.follower.examine request none with
  | error e => exact ⟨h.ready, .inl (refused_same s _ (by simp))⟩
  | ok examined =>
    obtain ⟨next, document, n⟩ := examined
    obtain ⟨hdocument, hparse⟩ := document_of_examine hexamine
    dsimp only
    by_cases hnew : (s.follower.config.isNone || decide (s.follower.document ≠ document)) = true
    · rw [if_pos hnew]
      obtain ⟨sdk, finder, hrebuild, hready⟩ := rebuild_cases n first fallback s
      rcases hrebuild with hrebuild | hrebuild
      · rw [hrebuild] at hready ⊢
        refine ⟨hready.aside rfl rfl rfl, .inr ?_⟩
        exact ⟨next, document, n, sdk, finder, [], hdocument, hparse, rfl, .inl rfl⟩
      · rw [hrebuild] at hready ⊢
        exact ⟨hready, .inl ⟨by simp, sdk, finder, rfl⟩⟩
    · -- The document is the one that is followed: the SDK is up with it.
      rw [if_neg hnew]
      simp only [Bool.or_eq_true, Option.isNone_iff_eq_none, decide_eq_true_eq, not_or, not_not]
        at hnew
      obtain ⟨hconfig, hsame⟩ := hnew
      cases haccepted : o.accepted with
      | none => exact absurd (h.undecided haccepted).1 hconfig
      | some followed =>
        obtain ⟨n', hparse', _, hfollowed, hsettings, _⟩ := h.decided followed haccepted
        obtain rfl : document = followed := hsame.symm.trans hfollowed
        obtain rfl : n = n' := Except.ok.inj (hparse.symm.trans hparse')
        refine ⟨h.ready.aside rfl rfl rfl, .inr ?_⟩
        refine ⟨next, document, n, s.files.sdk, s.finder, s.lastList, hdocument, hparse, ?_,
          .inr rfl⟩
        rw [← hsettings]
        rfl

theorem serve_cases {s : State} {o : Seen} (h : Described s o) (line : Result Json)
    (first fallback : Attempt) :
    Ready (s.serve line first fallback).2 ∧
      (Refused s (s.serve line first fallback) ∨
        ∃ request, line = .ok request ∧ Accepted s request (s.serve line first fallback)) := by
  have hsame : ∀ reply, (∀ next, reply ≠ .applied next) →
      Ready s ∧ (Refused s (reply, s) ∨ ∃ request, line = .ok request ∧
        Accepted s request (reply, s)) :=
    fun reply hreply => ⟨h.ready, .inl (refused_same s reply hreply)⟩
  unfold State.serve
  cases line with
  | error e => exact hsame _ (by simp)
  | ok request =>
    dsimp only
    cases valueOr getString request "action" "" with
    | error e => exact hsame _ (by simp)
    | ok action =>
      dsimp only
      by_cases hstatus : action = "status" ∨ action = "health"
      · rw [if_pos hstatus]
        exact hsame _ (by simp)
      · rw [if_neg hstatus]
        by_cases hunknown : action ≠ "apply_config"
        · rw [if_pos hunknown]
          exact hsame _ (by simp)
        · rw [if_neg hunknown]
          obtain ⟨hready, hcases⟩ := applyConfig_cases h request first fallback
          exact ⟨hready, hcases.imp id fun haccepted => ⟨request, rfl, haccepted⟩⟩

theorem Publishes.aside {f g : Files} {sources : List SrcEntry} (h : Publishes f sources)
    (hlist : g.sourceList = f.sourceList) (hwebui : g.webui = f.webui) : Publishes g sources where
  listed := by rw [hlist]; exact h.listed
  offered := by rw [hwebui]; exact h.offered

theorem Inv.request {s : State} {o : Seen} (h : Inv (s, o)) (line : Result Json)
    (first fallback : Attempt) :
    Inv ((s.serve line first fallback).2, observe s (.request line first fallback) o) := by
  obtain ⟨hready, hcases⟩ := serve_cases h.described line first fallback
  rcases hcases with ⟨hreply, sdk, finder, hserve⟩ | ⟨request, rfl, haccepted⟩
  · have hseen : observe s (.request line first fallback) o = { o with current := none } := by
      unfold observe
      dsimp only
      split
      · rename_i hreply'
        exact absurd hreply' (hreply _)
      · rfl
    rw [hseen]
    rw [hserve] at hready ⊢
    refine ⟨⟨h.described.undecided, h.described.decided, hready⟩, ?_, fun _ hcurrent => ?_⟩
    · exact fun hne => (h.remembered hne).aside rfl rfl
    · cases hcurrent
  · obtain ⟨next, document, n, sdk, finder, lastList, hdocument, hparse, hserve, hlast⟩ := haccepted
    have hseen : observe s (.request (.ok request) first fallback) o =
        { o with
          accepted := some document
          current := none } := by
      unfold observe
      dsimp only at hserve ⊢
      rw [hserve]
      dsimp only
      rw [hdocument]
    rw [hseen]
    rw [hserve] at hready ⊢
    refine ⟨⟨fun hnone => ?_, ?_, hready⟩, ?_, fun _ hcurrent => ?_⟩
    · cases hnone
    · intro d hd
      cases hd
      exact ⟨n, hparse, rfl, rfl, rfl, hdocument⟩
    · intro hne
      rcases hlast with rfl | rfl
      · exact absurd rfl hne
      · exact (h.remembered hne).aside rfl rfl
    · cases hcurrent

/-! ### The rest of an iteration -/

theorem loadedBy_same {s : State} {x : Slice} {last : FindSettings}
    (h : ∀ t, x.tick = some t → s.finder.isSome = true → t.moved = false → t.param ≠ "-run") :
    loadedBy s x last = last := by
  unfold loadedBy
  cases htick : x.tick with
  | none => rfl
  | some t =>
    refine if_neg ?_
    rintro ⟨hfinder, hmoved, hrun, _⟩
    exact h t htick hfinder hmoved hrun

/-- What is followed decides whether the files count. -/
theorem Described.config_eq_none_iff {s : State} {o : Seen} (h : Described s o) :
    s.follower.config = none ↔ o.accepted = none := by
  refine ⟨fun hconfig => ?_, fun hnone => (h.undecided hnone).1⟩
  cases haccepted : o.accepted with
  | none => rfl
  | some document =>
    obtain ⟨n, _, hn, _⟩ := h.decided document haccepted
    exact absurd (hn.symm.trans hconfig) (by simp)

/-- A `-run` loads the settings that are followed, or those of the files. -/
theorem Described.load {s : State} {o : Seen} (h : Described s o) {files : BootFiles}
    {settings : FindSettings} (hload : loadSettings s.follower files = .ok settings) :
    (o.accepted = none → fileSettings files = .ok settings) ∧
      (∀ document, o.accepted = some document → settings = s.settings) := by
  constructor
  · intro hnone
    rw [loadSettings, (h.undecided hnone).1] at hload
    exact hload
  · intro document haccepted
    obtain ⟨n, _, hn, _, hsettings, _⟩ := h.decided document haccepted
    rw [loadSettings, hn] at hload
    exact (Except.ok.inj hload).symm.trans hsettings.symm

theorem Described.run {s : State} {o : Seen} (h : Described s o) {t : Tick} {x : Slice}
    (htick : x.tick = some t) (hfinder : s.finder.isSome = true) (hmoved : t.moved = false)
    (hrun : t.param = "-run") :
    Described (s.onTick t) { o with loaded := loadedBy s x o.loaded } := by
  have hloaded : s.follower.config = none → loadedBy s x o.loaded =
      match fileSettings t.files with
      | .ok settings => settings
      | .error _ => o.loaded := by
    intro hconfig
    simp only [loadedBy, htick]
    exact if_pos ⟨hfinder, hmoved, hrun, hconfig⟩
  unfold State.onTick
  rw [if_neg (by simp [hmoved]), if_pos hrun]
  dsimp only
  cases hload : loadSettings s.follower t.files with
  | error e =>
    refine ⟨fun hnone => ?_, h.decided, ⟨fun hready => ?_, fun c hc => ?_⟩⟩
    · obtain ⟨hconfig, hsettings, hcache⟩ := h.undecided hnone
      refine ⟨hconfig, ?_, hcache⟩
      rw [loadSettings, hconfig] at hload
      dsimp only at hload ⊢
      rw [hloaded hconfig, hload]
      exact hsettings
    · cases hready
    · cases hc
  | ok settings =>
    obtain ⟨hfiles, hsame⟩ := h.load hload
    have hup : Described (({ s with
        settings
        finder := none }.writeNdiSdkConfig t.env).recreate t.creates)
        { o with loaded := loadedBy s x o.loaded } := by
      refine ⟨fun hnone => ?_, fun document haccepted => ?_, ready_recreate ..⟩
      · obtain ⟨hconfig, _, hcache⟩ := h.undecided hnone
        refine ⟨hconfig, ?_, hcache⟩
        dsimp only
        rw [hloaded hconfig, hfiles hnone]
        rfl
      · obtain ⟨n, hparse, hn, hdocument, hsettings, hcache⟩ := h.decided document haccepted
        exact ⟨n, hparse, hn, hdocument, (hsame document haccepted).trans hsettings, hcache⟩
    dsimp only
    split
    · exact ⟨hup.undecided, hup.decided, hup.ready.aside rfl rfl rfl⟩
    · exact ⟨hup.undecided, hup.decided, hup.ready.aside rfl rfl rfl⟩

/-- A `-run` leaves the lists on disk. -/
theorem run_lists {s : State} {t : Tick} (hmoved : t.moved = false) (hrun : t.param = "-run") :
    (s.onTick t).files.sourceList = s.files.sourceList ∧
      (s.onTick t).files.webui = s.files.webui ∧
      ((s.onTick t).lastList = [] ∨ (s.onTick t).lastList = s.lastList) := by
  unfold State.onTick
  rw [if_neg (by simp [hmoved]), if_pos hrun]
  dsimp only
  cases loadSettings s.follower t.files with
  | error e => exact ⟨rfl, rfl, .inr rfl⟩
  | ok settings =>
    dsimp only
    split
    · exact ⟨rfl, rfl, .inl rfl⟩
    · exact ⟨rfl, rfl, .inr rfl⟩

/-- What comes before the read keeps what is described, and what is remembered of the files. -/
theorem Inv.beforeLook {s : State} {o : Seen} (h : Inv (s, o)) (x : Slice) :
    Inv (s.beforeLook x, { o with
      loaded := loadedBy s x o.loaded
      current := none }) := by
  have hsame : loadedBy s x o.loaded = o.loaded → ∀ left,
      Inv ({ s with left := left }, { o with
        loaded := loadedBy s x o.loaded
        current := none }) := by
    intro hloaded left
    rw [hloaded]
    obtain ⟨hundecided, hdecided, hready⟩ := h.described
    refine ⟨⟨hundecided, hdecided, hready.aside rfl rfl rfl⟩, h.remembered, fun _ hcurrent => ?_⟩
    cases hcurrent
  unfold State.beforeLook
  by_cases hfinder : s.finder.isNone = true
  · rw [if_pos hfinder]
    refine hsame (loadedBy_same fun t _ hsome => ?_) true
    rw [Option.isNone_iff_eq_none.mp hfinder] at hsome
    cases hsome
  · rw [if_neg hfinder]
    cases htick : x.tick with
    | none => exact hsame (loadedBy_same fun t ht => by rw [htick] at ht; cases ht) s.left
    | some t =>
      dsimp only
      have hother : (t.moved = true ∨ t.param ≠ "-run") → loadedBy s x o.loaded = o.loaded := by
        intro hnot
        refine loadedBy_same fun t' ht' _ hmoved => ?_
        rw [htick] at ht'
        cases ht'
        rcases hnot with hnot | hnot
        · rw [hmoved] at hnot
          cases hnot
        · exact hnot
      by_cases hmoved : t.moved = true
      · rw [State.onTick, if_pos hmoved]
        exact hsame (hother (.inl hmoved)) true
      · by_cases hrun : t.param = "-run"
        · have hfound : s.finder.isSome = true := by
            simpa [Option.isSome_iff_ne_none] using hfinder
          have hstill : t.moved = false := by simpa using hmoved
          obtain ⟨hundecided, hdecided, hready⟩ := h.described.run htick hfound hstill hrun
          obtain ⟨hlist, hwebui, hlast⟩ := run_lists (s := s) hstill hrun
          refine ⟨⟨hundecided, hdecided, hready⟩, fun hne => ?_, fun _ hcurrent => ?_⟩
          · rcases hlast with hlast | hlast
            · exact absurd hlast hne
            · change Publishes _ (s.onTick t).lastList
              change (s.onTick t).lastList ≠ [] at hne
              rw [hlast] at hne ⊢
              exact (h.remembered hne).aside hlist hwebui
          · cases hcurrent
        · rw [State.onTick, if_neg hmoved, if_neg hrun]
          by_cases hrs : t.param = "-rs"
          · rw [if_pos hrs, hother (.inr hrun)]
            obtain ⟨hundecided, hdecided, hready⟩ := h.described
            refine ⟨⟨hundecided, hdecided, hready.aside rfl rfl rfl⟩, fun hne => ?_, fun _ hcurrent => ?_⟩
            · exact absurd rfl hne
            · cases hcurrent
          · rw [if_neg hrs]
            exact hsame (hother (.inr hrun)) s.left

theorem Inv.slice {s : State} {o : Seen} (h : Inv (s, o)) {x : Slice}
    (hleave : Leave (s, o) (.slice x)) : Inv (s.slice x, observe s (.slice x) o) := by
  have hbefore := h.beforeLook x
  unfold State.slice observe
  dsimp only
  by_cases hreads : s.reads x = true
  · rw [if_pos hreads, if_pos hreads, State.look]
    dsimp only
    by_cases hdiffers : differs (copySources x.sources) (s.beforeLook x).lastList = true
    · rw [if_pos hdiffers]
      have hwritten := publishes_written (copySources x.sources) (s.beforeLook x)
      obtain ⟨hundecided, hdecided, hready⟩ := hbefore.described
      refine ⟨⟨hundecided, hdecided, hready.aside rfl rfl rfl⟩, fun _ => hwritten, ?_⟩
      intro current hcurrent
      cases hcurrent
      exact hwritten
    · rw [if_neg hdiffers]
      have hsame := (differs_eq_false_iff _ _).mp (eq_false_of_ne_true hdiffers)
      obtain ⟨hundecided, hdecided, hready⟩ := hbefore.described
      refine ⟨⟨hundecided, hdecided, hready⟩, hbefore.remembered, fun current hcurrent => ?_⟩
      cases hcurrent
      by_cases hempty : copySources x.sources = []
      · -- Nothing is remembered and nothing is seen: the files have to list nothing.
        rw [hempty] at hsame ⊢
        refine publishes_of_blank ?_
        have hnone : x.sources = [] := List.map_eq_nil_iff.mp hempty
        simpa [Leave, leavesOut, hreads, hnone, ← hsame] using hleave
      · rw [hsame] at hempty ⊢
        exact hbefore.remembered hempty
  · rw [if_neg hreads, if_neg hreads]
    exact ⟨hbefore.described, hbefore.remembered, hbefore.shown⟩

theorem Inv.step {t t' : System} {a : Act} (h : Inv t) (hleave : Leave t a)
    (hstep : observed t a = some t') : Inv t' := by
  obtain ⟨s, hs, rfl⟩ := Option.map_eq_some_iff.mp hstep
  unfold Finder.step at hs
  split at hs
  · cases hs
  · cases a with
    | request line first fallback =>
      cases hs
      exact h.request line first fallback
    | slice x =>
      cases hs
      exact h.slice hleave

/-- `main` follows the kept request where it would be accepted. -/
theorem restored (cache : Json) {follower : NdiFollower}
    (h : follower = (NdiFollower.applyConfig cache none {}).2) :
    follower.config = none ∨ ∃ document n, documentOf cache = some document ∧
      parseNdi document = .ok n ∧ follower.config = some n ∧ follower.document = document := by
  rw [NdiFollower.applyConfig_eq] at h
  cases hexamine : ({} : NdiFollower).examine cache none with
  | error e =>
    rw [hexamine] at h
    exact .inl (congrArg NdiFollower.config h)
  | ok examined =>
    obtain ⟨next, document, n⟩ := examined
    rw [hexamine] at h
    obtain ⟨hdocument, hparse⟩ := document_of_examine hexamine
    exact .inr ⟨document, n, hdocument, hparse, congrArg NdiFollower.config h,
      congrArg NdiFollower.document h⟩

theorem Inv.start {files : Files} {boot : BootFiles} {a : Attempt} {s : State}
    (h : start files boot a = some s) : Inv (s, seenAtStart files s) := by
  unfold Finder.start at h
  dsimp only at h
  generalize hfollower : (NdiFollower.applyConfig files.cache none {}).2 = follower at h
  cases hload : loadSettings follower boot with
  | error e =>
    rw [hload] at h
    cases h
  | ok settings =>
    rw [hload] at h
    dsimp only at h
    split at h
    case isFalse => cases h
    cases h
    have hready := bringUp_ready a (s := ⟨follower, settings, none, [], files, false⟩) rfl
    obtain ⟨sdk, finder, hup⟩ := bringUp_eq a ⟨follower, settings, none, [], files, false⟩
    rw [hup] at hready ⊢
    have hseen : (seenAtStart files { follower, settings, finder, files }).accepted =
        if follower.config.isSome then documentOf files.cache else none := rfl
    refine ⟨⟨fun hnone => ?_, fun document haccepted => ?_, hready⟩, fun hne => absurd rfl hne,
      fun _ hcurrent => ?_⟩
    · rcases restored files.cache hfollower.symm with hconfig | ⟨document, n, hdocument, _, hn, _⟩
      · exact ⟨hconfig, rfl, rfl⟩
      · have hsome := hseen.symm.trans hnone
        rw [hn, hdocument] at hsome
        cases hsome
    · rcases restored files.cache hfollower.symm with
        hconfig | ⟨document', n, hdocument, hparse, hn, hfollowed⟩
      · have hsome := hseen.symm.trans haccepted
        rw [hconfig] at hsome
        cases hsome
      · have hsome := hseen.symm.trans haccepted
        rw [hn, hdocument] at hsome
        cases hsome
        rw [loadSettings, hn] at hload
        exact ⟨n, hparse, hn, hfollowed, (Except.ok.inj hload).symm, hdocument⟩
    · cases hcurrent

/-- A process without a finder leaves the loop. -/
theorem leaves_without_finder {s : State} (h : s.finder = none) (x : Slice) :
    (s.slice x).left = true := by
  simp [State.slice, State.reads, State.beforeLook, h]

/-- Settings, the SDK's file and the kept request are those of the last accepted domain after every
step; the published files list what was read, as long as no read leaves out the empty list. -/
theorem finder_publishes {files : Files} {boot : BootFiles} {a : Attempt} {s₀ : State}
    {acts : List Act} {t : System} (hstart : start files boot a = some s₀)
    (hmeets : Meets observed Leave (s₀, seenAtStart files s₀) acts)
    (hrun : after observed (s₀, seenAtStart files s₀) acts = some t) :
    Described t.1 t.2 ∧ ∀ current, t.2.current = some current → Publishes t.1.files current :=
  have h : Inv t := hmeets.inv (fun _ _ _ h hleave hstep => h.step hleave hstep) (.start hstart) hrun
  ⟨h.described, h.shown⟩

/-! ### Runs -/

/-- Nothing selected and no directory for logs. -/
def unselected : Surroundings := ⟨none, fun _ => "", none⟩

def comesUp : Attempt := ⟨unselected, none, true, unselected, true⟩

/-- The SDK initializes and rewrites its file, but creates no finder. -/
def createsNone : Attempt := ⟨unselected, some "", true, unselected, false⟩

def groupDocument (group : String) : Json :=
  .obj [("color_space", .str "yuv"), ("discovery_servers", .arr []), ("groups", .arr [.str group]),
    ("off_subnet_sources", .arr []), ("receive", .str "rudp"), ("tally", .str "on")]

def groupRequest (group : String) : Json :=
  .obj [("action", .str "apply_config"), ("config", .obj [("ndi", groupDocument group)]),
    ("revision", .int 1)]

def readAtTick (sources : List Source) : Act := .slice ⟨some { env := unselected }, false, sources⟩

def camera : Source := ⟨some "CAM 1", some "10.0.0.7:5961"⟩

/-- The finder cannot be created for another group; then the camera goes away. -/
def refusedGroup : List Act :=
  [readAtTick [camera], .request (.ok (groupRequest "studio")) createsNone comesUp, readAtTick []]

/-- Another group is followed, in which nothing is seen. -/
def emptyGroup : List Act :=
  [readAtTick [camera], .request (.ok (groupRequest "studio")) comesUp comesUp, readAtTick []]

theorem comesUp_started : (start {} {} comesUp).isSome = true := by decide +kernel

def started : State := (start {} {} comesUp).get comesUp_started

theorem refusedGroup_publishes : ∃ t, after observed (started, seenAtStart {} started) refusedGroup =
    some t ∧ Described t.1 t.2 ∧ t.2.current = some [] ∧ Publishes t.1.files [] := by
  have hsome : ((after observed (started, seenAtStart {} started) refusedGroup).bind
      fun t => t.2.current) = some [] := by decide +kernel
  obtain ⟨t, ht, hcurrent⟩ := Option.bind_eq_some_iff.mp hsome
  obtain ⟨hdescribed, hpublishes⟩ := finder_publishes (Option.some_get comesUp_started).symm
    (by decide +kernel) ht
  exact ⟨t, ht, hdescribed, hcurrent, hpublishes [] hcurrent⟩

/-- The camera of the old group stays in the lists. -/
theorem emptyGroup_stale : ∃ t, after observed (started, seenAtStart {} started) emptyGroup = some t ∧
    t.2.current = some [] ∧ ¬ Publishes t.1.files [] := by
  have hsome : ((after observed (started, seenAtStart {} started) emptyGroup).map
      fun t => (t.2.current, get "ndi" t.1.files.webui)) =
      some (some [], some (.arr [.str "None", .str "CAM 1"])) := by decide +kernel
  obtain ⟨t, ht, hvalue⟩ := Option.map_eq_some_iff.mp hsome
  obtain ⟨hcurrent, hndi⟩ := Prod.mk.inj hvalue
  refine ⟨t, ht, hcurrent, fun hpublishes => ?_⟩
  have h := hndi.symm.trans hpublishes.offered
  exact absurd h (by decide)

end NdimonR.Decoder.Finder
