import NdimonR.Backend.NetworkdDrift

/-! Which file networkd uses for a link, and when that is the managed one. -/

namespace NdimonR.Backend.Networkd

open Types Text Engine Backend Json

/-! ### networkd's own rule -/

/-- A name that a directory lists under an extension. -/
structure Listed (extension name : String) : Prop where
  ends : endsWithText extension name = true
  flat : '/' ∉ name.toList

/-- The file of that name in the last of the directories that has one. -/
def resolve (host : Host) (directories : List String) (name : String) : Option String :=
  (directories.reverse.map fun d => d ++ "/" ++ name).find? fun path => host.files.contains path

/-- The drop-ins of a file, in the order of their names. -/
structure DropIns (host : Host) (base : String) (dropins : List String) : Prop where
  sorted : dropins.Pairwise fun a b => baseName a < baseName b
  mem : ∀ path, path ∈ dropins ↔
    ∃ name, Listed ".conf" name ∧ resolve host (dropinDirectories base) name = some path

/-- The settings networkd reads for a file. -/
structure FileReads (host : Host) (base path : String) (entries : List Entry) : Prop where
  listed : Listed ".network" base
  resolved : resolve host roots base = some path
  settings : ∃ text dropins, host.files.get? path = some text ∧ DropIns host base dropins ∧
    ini (merged host text dropins) = .ok entries

/-- The values a key of [Match] is given, in order. -/
def matchValues (entries : List Entry) (key : String) : List String :=
  (entries.filter fun e => e.section = "Match" && e.key = key).map (·.value)

/-- An empty assignment clears the list; a leading `!` is one of all its words. -/
def assignNames (list : List String) (value : String) : List String :=
  if value = "" then []
  else
    match stripPrefix "!" value with
    | some rest => list ++ (splitWhitespace rest).map fun w => "!" ++ trimQuotes w
    | none => list ++ (splitWhitespace value).map trimQuotes

def Hits (glob : Ifupdown.Glob) (pattern name : String) : Prop :=
  ∃ test, glob pattern = some test ∧ test name = true

/-- No inverted pattern hits the name and, where there are others, one of them does. -/
structure NameHolds (glob : Ifupdown.Glob) (patterns : List String) (name : String) : Prop where
  inverted : ∀ p ∈ patterns, ∀ q, stripPrefix "!" p = some q → ¬Hits glob q name
  plain : (∃ p ∈ patterns, stripPrefix "!" p = none) →
    ∃ p ∈ patterns, stripPrefix "!" p = none ∧ Hits glob p name

/-- An address without its punctuation. -/
def hexDigits (address : String) : List Char :=
  (toAsciiLowercase address).toList.filter isAsciiHexdigit

def MacHolds (macs : List String) (mac : String) : Prop :=
  macs = [] ∨ ∃ m ∈ macs, hexDigits m = hexDigits mac

structure Holds (host : Host) (name mac : String) (entries : List Entry) : Prop where
  name : NameHolds host.glob ((matchValues entries "Name").foldl assignNames []) name
  mac : MacHolds ((matchValues entries "MACAddress").foldl resetList []) mac

/-- A condition on something other than the name and the address. -/
def Further (entries : List Entry) : Prop :=
  ∃ e ∈ entries, e.section = "Match" ∧ e.key ≠ "Name" ∧ e.key ≠ "MACAddress" ∧ e.value ≠ ""

/-- A file whose conditions hold and before which none is sure to be used. -/
structure Selectable (host : Host) (name mac base path : String) : Prop where
  holds : ∃ entries, FileReads host base path entries ∧ Holds host name mac entries
  earlier : ∀ b q entries, b < base → FileReads host b q entries → Holds host name mac entries →
    Further entries

/-- The managed file of a name is the one that is used, as it stands. -/
structure PinUsed (host : Host) (name mac : String) : Prop where
  selectable : Selectable host name mac (pinBase name) (pinPath name)
  certain : ∀ entries, FileReads host (pinBase name) (pinPath name) entries → ¬Further entries
  only : ∀ base path, Selectable host name mac base path → base = pinBase name ∧ path = pinPath name
  unmerged : DropIns host (pinBase name) []

/-! ### Finding files -/

section
variable {host : Host} {directories : List String} {directory extension name path : String}

theorem slash : "/".toList = ['/'] := rfl

theorem baseName_append (h : '/' ∉ name.toList) : baseName (directory ++ "/" ++ name) = name := by
  simp [baseName, (rsplitOnce_eq_some slash).mpr ⟨rfl, h⟩]

theorem mem_list : path ∈ host.list directory extension ↔ host.files.contains path = true ∧
    ∃ name, Listed extension name ∧ path = directory ++ "/" ++ name := by
  unfold Host.list
  rw [List.mem_filter, SortedMap.mem_keys_iff]
  refine and_congr_right fun _ => ?_
  constructor
  · intro h
    obtain ⟨⟨d, n⟩, hcut, htest⟩ := (Option.any_eq_true _ _).mp h
    obtain ⟨hd, hends⟩ := Bool.and_eq_true_iff.mp htest
    obtain ⟨hpath, hflat⟩ := (rsplitOnce_eq_some slash).mp hcut
    have hsame : d = directory := of_decide_eq_true hd
    exact ⟨n, ⟨hends, hflat⟩, hsame ▸ hpath⟩
  · rintro ⟨n, hn, rfl⟩
    rw [(rsplitOnce_eq_some slash).mpr ⟨rfl, hn.flat⟩]
    simp [hn.ends]

/-- Each file of a directory is put under its name. -/
theorem get?_insertAll {l : List String} (hl : ∀ path ∈ l, path = directory ++ "/" ++ baseName path)
    (chosen : SortedMap String String) (name : String) :
    (l.foldl (fun chosen path => chosen.insert (baseName path) path) chosen).get? name =
      if directory ++ "/" ++ name ∈ l then some (directory ++ "/" ++ name)
      else chosen.get? name := by
  induction l generalizing chosen with
  | nil => simp
  | cons path l ih =>
    rw [List.foldl_cons, ih fun q hq => hl q (List.mem_cons_of_mem _ hq), SortedMap.get?_insert]
    by_cases hmem : directory ++ "/" ++ name ∈ l
    · rw [if_pos hmem, if_pos (List.mem_cons_of_mem _ hmem)]
    · rw [if_neg hmem]
      have hpath := hl path List.mem_cons_self
      by_cases hname : name = baseName path
      · rw [if_pos hname, if_pos (by rw [hname, ← hpath]; exact List.mem_cons_self), hname, ← hpath]
      · have hne : directory ++ "/" ++ name ≠ path := by
          intro heq
          rw [hpath] at heq
          exact hname (by simpa using heq)
        rw [if_neg hname, if_neg (by simp [hne, hmem])]

theorem get?_byName (host : Host) (directories : List String) (extension name : String)
    [Decidable (Listed extension name)] : (host.byName directories extension).get? name =
      if Listed extension name then resolve host directories name else none := by
  induction directories using List.reverseRecOn with
  | nil => simp [Host.byName, resolve]
  | append_singleton ds d ih =>
    have hlist : ∀ path ∈ host.list d extension, path = d ++ "/" ++ baseName path := by
      intro path hpath
      obtain ⟨-, n, hn, rfl⟩ := mem_list.mp hpath
      rw [baseName_append hn.flat]
    have hmem : d ++ "/" ++ name ∈ host.list d extension ↔
        host.files.contains (d ++ "/" ++ name) = true ∧ Listed extension name := by
      rw [mem_list]
      refine and_congr_right fun _ => ⟨?_, fun hn => ⟨name, hn, rfl⟩⟩
      rintro ⟨n, hn, heq⟩
      have hsame : name = n := by simpa using heq
      rw [hsame]
      exact hn
    rw [Host.byName, List.foldl_append, List.foldl_cons, List.foldl_nil, get?_insertAll hlist]
    rw [Host.byName] at ih
    rw [ih]
    by_cases hl : Listed extension name
    · simp only [hmem, hl, and_true, if_true, resolve, List.reverse_append, List.reverse_cons,
        List.reverse_nil, List.nil_append, List.singleton_append, List.map_cons, List.find?_cons]
      cases host.files.contains (d ++ "/" ++ name) <;> simp
    · simp [hmem, hl]

theorem byName_eq_some : (host.byName directories extension).get? name = some path ↔
    Listed extension name ∧ resolve host directories name = some path := by
  classical
  rw [get?_byName]
  split
  · simp [*]
  · simp [*]

theorem resolve_eq_some (h : resolve host directories name = some path) :
    host.files.contains path = true ∧ ∃ d ∈ directories, path = d ++ "/" ++ name := by
  have hmem := List.mem_of_find?_eq_some h
  obtain ⟨d, hd, rfl⟩ := List.mem_map.mp hmem
  have hcontains := List.find?_some h
  exact ⟨hcontains, d, List.mem_reverse.mp hd, rfl⟩

theorem dropIns_effective (host : Host) (base : String) :
    DropIns host base (effectiveDropins host base) := by
  have hname : ∀ e ∈ (host.byName (dropinDirectories base) ".conf").entries, baseName e.2 = e.1 := by
    intro e he
    obtain ⟨hlisted, hresolved⟩ := byName_eq_some.mp (SortedMap.mem_entries_iff.mp he)
    obtain ⟨-, d, -, hpath⟩ := resolve_eq_some hresolved
    rw [hpath, baseName_append hlisted.flat]
  constructor
  · rw [effectiveDropins, SortedMap.values, List.pairwise_map]
    refine (host.byName (dropinDirectories base) ".conf").sorted.imp_of_mem fun ha hb hlt => ?_
    rw [hname _ ha, hname _ hb]
    exact hlt
  · intro path
    rw [effectiveDropins, SortedMap.mem_values]
    exact exists_congr fun name => byName_eq_some

theorem DropIns.unique {base : String} {a b : List String} (ha : DropIns host base a)
    (hb : DropIns host base b) : a = b := by
  have hnodup : ∀ {l : List String}, DropIns host base l → l.Nodup := fun h =>
    h.sorted.imp fun hlt heq => absurd hlt (by rw [heq]; exact lt_irrefl _)
  refine List.Perm.eq_of_pairwise (fun x y _ _ hxy hyx => absurd hyx hxy.not_gt) ha.sorted hb.sorted ?_
  exact (List.perm_ext_iff_of_nodup (hnodup ha) (hnodup hb)).mpr fun path =>
    (ha.mem path).trans (hb.mem path).symm

end

/-! ### The conditions as the drift check reads them -/

theorem tryPatterns_iff {glob : Ifupdown.Glob} {name : String} {patterns : List String}
    {positive anyPositive b : Bool}
    (h : tryPatterns glob name patterns positive anyPositive = .ok b) :
    b = true ↔ (∀ p ∈ patterns, ∀ q, stripPrefix "!" p = some q → ¬Hits glob q name) ∧
      ((anyPositive = true ∨ ∃ p ∈ patterns, stripPrefix "!" p = none) →
        positive = true ∨ ∃ p ∈ patterns, stripPrefix "!" p = none ∧ Hits glob p name) := by
  induction patterns generalizing positive anyPositive with
  | nil =>
    cases h
    cases anyPositive <;> simp
  | cons p rest ih =>
    rw [tryPatterns] at h
    cases hp : stripPrefix "!" p with
    | none =>
      simp only [hp, Option.getD_none, Option.isSome_none] at h
      cases hg : glob p with
      | none => simp [hg] at h
      | some test =>
        simp only [hg, Bool.false_and, Bool.false_eq_true, if_false] at h
        have hhits : Hits glob p name ↔ test name = true := by simp [Hits, hg]
        rw [ih h]
        simp [hp, hhits, or_assoc]
    | some q =>
      simp only [hp, Option.getD_some, Option.isSome_some, Bool.true_and, if_true] at h
      cases hg : glob q with
      | none => simp [hg] at h
      | some test =>
        simp only [hg] at h
        have hhits : Hits glob q name ↔ test name = true := by simp [Hits, hg]
        split at h
        · rename_i htest
          cases h
          simp [hp, hhits, htest]
        · rename_i htest
          rw [ih h]
          simp [hp, hhits, htest]

theorem patternList_iff {glob : Ifupdown.Glob} {patterns : List String} {name : String} {b : Bool}
    (h : patternList glob patterns name = .ok b) : b = true ↔ NameHolds glob patterns name := by
  unfold patternList at h
  split at h
  · rename_i hempty
    rw [List.isEmpty_iff.mp hempty]
    cases h
    simp only [true_iff]
    exact ⟨by simp, by simp⟩
  · rw [tryPatterns_iff h]
    constructor
    · rintro ⟨hinverted, hplain⟩
      exact ⟨hinverted, fun hany => by simpa using hplain (.inr hany)⟩
    · intro hholds
      exact ⟨hholds.inverted, fun hany => .inr (hholds.plain (by simpa using hany))⟩

theorem selectors_fold (entries : List Entry) (s : Selectors) :
    entries.foldl Selectors.add s =
      { names := (matchValues entries "Name").foldl resetList s.names
        macs := (matchValues entries "MACAddress").foldl resetList s.macs
        unknown := s.unknown || entries.any fun e => e.section = "Match" && e.key ≠ "Name" &&
          e.key ≠ "MACAddress" && e.value ≠ "" } := by
  induction entries generalizing s with
  | nil => simp [matchValues]
  | cons e rest ih =>
    rw [List.foldl_cons, ih]
    unfold Selectors.add
    by_cases hs : e.section = "Match"
    · by_cases hn : e.key = "Name"
      · simp [matchValues, hs, hn]
      · by_cases hm : e.key = "MACAddress"
        · simp [matchValues, hs, hm]
        · by_cases hv : e.value = "" <;> simp [matchValues, hs, hn, hm, hv]
    · simp [matchValues, hs]

theorem unknown_iff (entries : List Entry) : (selectors entries).unknown = true ↔ Further entries := by
  simp [selectors, selectors_fold, Further, and_assoc]

/-- The check reads the conditions as networkd does: an inverted list is of one word, and an
address that is that of the link is spelt as the link's is. -/
structure PlainMatch (mac : String) (entries : List Entry) : Prop where
  names : ∀ v ∈ matchValues entries "Name", startsWithText "!" v = true →
    Word v ∧ v ≠ "!" ∧ '"' ∉ v.toList
  macs : ∀ m ∈ (matchValues entries "MACAddress").foldl resetList [],
    hexDigits m = hexDigits mac → sameAddress m mac = true

theorem trimQuotes_of_not_mem {s : String} (h : '"' ∉ s.toList) : trimQuotes s = s := by
  have hleft : s.toList.dropWhile (· == '"') = s.toList := by
    cases hs : s.toList with
    | nil => rfl
    | cons c rest =>
      have hc : (c == '"') = false := by
        rw [hs] at h
        simp only [List.mem_cons, not_or] at h
        simpa using Ne.symm h.1
      simp [hc]
  have hright : s.toList.rdropWhile (· == '"') = s.toList := by
    refine List.rdropWhile_eq_self_iff.mpr fun hne hlast => h ?_
    have hc : s.toList.getLast hne = '"' := by simpa using hlast
    exact hc ▸ List.getLast_mem hne
  rw [trimQuotes, hleft, hright, String.ofList_toList]

theorem splitWhitespace_word {w : String} (h : Word w) : splitWhitespace w = [w] := by
  have hsplit : splitWhitespace (unwords [w]) = [w] :=
    splitWhitespace_unwords (by simpa using h)
  simpa [unwords] using hsplit

theorem startsWithText_iff {lit s : String} : startsWithText lit s = true ↔ ∃ t, s = lit ++ t := by
  unfold startsWithText
  rw [List.isPrefixOf_iff_prefix]
  constructor
  · rintro ⟨t, ht⟩
    exact ⟨String.ofList t, String.toList_inj.mp (by simp [ht])⟩
  · rintro ⟨t, rfl⟩
    exact ⟨t.toList, by simp⟩

theorem stripPrefix_append (lit t : String) : stripPrefix lit (lit ++ t) = some t := by
  simp [stripPrefix]

theorem assignNames_eq {list : List String} {v : String}
    (h : startsWithText "!" v = true → Word v ∧ v ≠ "!" ∧ '"' ∉ v.toList) :
    assignNames list v = resetList list v := by
  unfold assignNames resetList
  by_cases hv : v = ""
  · rw [if_pos hv, if_pos hv]
  · rw [if_neg hv, if_neg hv]
    by_cases hbang : startsWithText "!" v = true
    · obtain ⟨hword, hne, hquote⟩ := h hbang
      obtain ⟨w, rfl⟩ := startsWithText_iff.mp hbang
      have hw : Word w := by
        refine ⟨fun hempty => hne (by simp [hempty]), ?_⟩
        have hsolid := hword.not_mem
        simp only [any, List.any_eq_false, Bool.not_eq_true]
        exact fun c hc => hsolid c (by simp [hc])
      have hplain : trimQuotes ("!" ++ w) = "!" ++ w := trimQuotes_of_not_mem hquote
      have hplain' : trimQuotes w = w :=
        trimQuotes_of_not_mem fun hm => hquote (by simp [hm])
      simp only [stripPrefix_append]
      rw [splitWhitespace_word hw, splitWhitespace_word hword]
      simp [hplain, hplain']
    · have hnone : stripPrefix "!" v = none := by
        unfold stripPrefix
        exact if_neg hbang
      rw [hnone]

theorem foldl_assignNames {values list : List String}
    (h : ∀ v ∈ values, startsWithText "!" v = true → Word v ∧ v ≠ "!" ∧ '"' ∉ v.toList) :
    values.foldl assignNames list = values.foldl resetList list := by
  induction values generalizing list with
  | nil => rfl
  | cons v values ih =>
    rw [List.foldl_cons, List.foldl_cons, assignNames_eq (h v List.mem_cons_self)]
    exact ih fun w hw => h w (List.mem_cons_of_mem _ hw)

/-- What holds for networkd is a match for the check. -/
theorem matches_of_holds {host : Host} {name mac : String} {entries : List Entry} {taken : Bool}
    (hplain : PlainMatch mac entries) (hholds : Holds host name mac entries)
    (h : (selectors entries).matches host.glob name mac = .ok taken) : taken = true := by
  obtain ⟨named, hnamed, h⟩ := Outcome.bind_eq_ok.mp h
  have hname : named = true := by
    rw [selectors, selectors_fold] at hnamed
    refine (patternList_iff hnamed).mpr ?_
    have hpatterns := hholds.name
    rw [foldl_assignNames hplain.names] at hpatterns
    exact hpatterns
  have hmac : ((selectors entries).macs.isEmpty || (selectors entries).macs.any fun m =>
      sameAddress m mac) = true := by
    rw [selectors, selectors_fold]
    rcases hholds.mac with hempty | ⟨m, hm, hsame⟩
    · simp [hempty]
    · exact Bool.or_eq_true_iff.mpr (.inr (List.any_eq_true.mpr ⟨m, hm, hplain.macs m hm hsame⟩))
  rw [← Except.ok.inj h, hname, hmac]
  rfl

/-! ### No blocking drift -/

section
variable {host : Host} {p : NetworkProfiles} {drift : List Ifupdown.Drift} {links : Json}
  {name mac : String}

/-- The check looks at each file networkd reads. -/
theorem nameDrift_of_reads (h : networkdDrift host p = .ok drift) (hlinks : host.links = .ok links)
    (hgone : host.handoff = true → ∀ path ∈ host.handoffPaths, host.files.contains path = false)
    (hname : name ∈ names p) {base path : String} {entries : List Entry}
    (hreads : FileReads host base path entries) :
    ∃ ds, nameDrift host links base path (selectors entries) name = .ok ds ∧ ∀ d ∈ ds, d ∈ drift := by
  obtain ⟨links', hlinks', h⟩ := Outcome.bind_eq_ok.mp h
  rw [hlinks] at hlinks'
  cases hlinks'
  obtain ⟨files, hfiles, h⟩ := Outcome.bind_eq_ok.mp h
  have hchosen : (base, path) ∈ (host.byName roots ".network").entries :=
    SortedMap.mem_entries_iff.mpr (byName_eq_some.mpr ⟨hreads.listed, hreads.resolved⟩)
  obtain ⟨fs, hfs, hfile⟩ := Outcome.mem_of_forall₂ (Outcome.mapM_eq_ok.mp hfiles) hchosen
  obtain ⟨hcontains, root, hroot, hpath⟩ := resolve_eq_some hreads.resolved
  unfold fileDrift at hfile
  split at hfile
  · rename_i hskip
    obtain ⟨hhandoff, hlisted⟩ := Bool.and_eq_true_iff.mp hskip
    have hno := hgone hhandoff path (by simpa using hlisted)
    rw [hcontains] at hno
    cases hno
  · obtain ⟨text, hdropins⟩ := hreads.settings
    obtain ⟨dropins, htext, hdropins, hini⟩ := hdropins
    have heffective : effectiveNetworkdIfPresent host path =
        .ok (some (merged host text (effectiveDropins host base))) := by
      have hbase : baseName path = base := by rw [hpath, baseName_append hreads.listed.flat]
      unfold effectiveNetworkdIfPresent
      rw [hbase, htext, hpath, (rsplitOnce_eq_some slash).mpr ⟨rfl, hreads.listed.flat⟩]
      simp [hroot]
    rw [heffective, Outcome.bind_ok] at hfile
    rw [hdropins.unique (dropIns_effective host base)] at hini
    obtain ⟨entries', hentries', hfile⟩ := Outcome.bind_eq_ok.mp hfile
    rw [hini] at hentries'
    cases hentries'
    obtain ⟨found, hfound, hfile⟩ := Outcome.bind_eq_ok.mp hfile
    obtain ⟨ds, hds, hdrift⟩ := Outcome.mem_of_forall₂ (Outcome.mapM_eq_ok.mp hfound) hname
    refine ⟨ds, hdrift, fun d hd => ?_⟩
    rw [← Except.ok.inj h, List.mem_flatten]
    refine ⟨fs, hfs, ?_⟩
    rw [← Except.ok.inj hfile, List.mem_flatten]
    exact ⟨ds, hds, hd⟩

/-- A file that takes a name and blocks nothing is not before the managed one, and is the managed
one only with nothing added. -/
theorem clear_of_nameDrift {base path : String} {entries : List Entry} {ds : List Ifupdown.Drift}
    (h : nameDrift host links base path (selectors entries) name = .ok ds)
    (hmac : linkMac links name = .ok mac) (hclear : ∀ d ∈ ds, d.blocking = false)
    (hplain : PlainMatch mac entries) (hholds : Holds host name mac entries) :
    ¬base < pinBase name ∧ (base = pinBase name → path = pinPath name →
      effectiveDropins host base = [] ∧ ¬Further entries) := by
  unfold nameDrift at h
  rw [hmac, Outcome.bind_ok] at h
  obtain ⟨taken, htaken, h⟩ := Outcome.bind_eq_ok.mp h
  rw [matches_of_holds hplain hholds htaken] at h
  simp only [Bool.not_true, Bool.false_or] at h
  split at h
  · rename_i hpin
    simp only [Bool.and_eq_true, decide_eq_true_eq, List.isEmpty_iff, Bool.not_eq_true'] at hpin
    obtain ⟨⟨⟨rfl, -⟩, hempty⟩, hknown⟩ := hpin
    refine ⟨lt_irrefl _, fun _ _ => ⟨hempty, fun hfurther => ?_⟩⟩
    rw [(unknown_iff entries).mpr hfurther] at hknown
    cases hknown
  · cases h
    have hnot := hclear _ List.mem_cons_self
    simp only [foreignFile, Bool.or_eq_false_iff, Bool.and_eq_false_iff,
      decide_eq_false_iff_not] at hnot
    refine ⟨hnot.1, fun hb hq => ?_⟩
    rcases hnot.2 with hpin | ⟨hempty, hknown⟩
    · exact absurd ⟨hb, hq⟩ hpin
    · refine ⟨by simpa using hempty, fun hfurther => ?_⟩
      rw [(unknown_iff entries).mpr hfurther] at hknown
      cases hknown

/-- The check went through, so the managed file could be read. -/
theorem reads_pin (h : networkdDrift host p = .ok drift)
    (hgone : host.handoff = true → ∀ path ∈ host.handoffPaths, host.files.contains path = false)
    (hpin : pinPath name ∈ host.list "/etc/systemd/network" ".network") :
    ∃ entries, FileReads host (pinBase name) (pinPath name) entries := by
  obtain ⟨hcontains, base, hlisted, hpath⟩ := mem_list.mp hpin
  have hbase : pinBase name = base := by
    have hsame : "/etc/systemd/network/" ++ pinBase name = "/etc/systemd/network/" ++ base := hpath
    simpa using hsame
  rw [← hbase] at hlisted
  have hresolved : resolve host roots (pinBase name) = some (pinPath name) := by
    change List.find? _ (pinPath name :: _) = _
    rw [List.find?_cons_of_pos hcontains]
  obtain ⟨text, htext⟩ := Option.isSome_iff_exists.mp hcontains
  obtain ⟨links, -, h⟩ := Outcome.bind_eq_ok.mp h
  obtain ⟨files, hfiles, -⟩ := Outcome.bind_eq_ok.mp h
  have hchosen : (pinBase name, pinPath name) ∈ (host.byName roots ".network").entries :=
    SortedMap.mem_entries_iff.mpr (byName_eq_some.mpr ⟨hlisted, hresolved⟩)
  obtain ⟨fs, -, hfile⟩ := Outcome.mem_of_forall₂ (Outcome.mapM_eq_ok.mp hfiles) hchosen
  unfold fileDrift at hfile
  split at hfile
  · rename_i hskip
    obtain ⟨hhandoff, hgiven⟩ := Bool.and_eq_true_iff.mp hskip
    have hno := hgone hhandoff (pinPath name) (by simpa using hgiven)
    rw [hcontains] at hno
    cases hno
  · have heffective : effectiveNetworkdIfPresent host (pinPath name) =
        .ok (some (merged host text (effectiveDropins host (pinBase name)))) := by
      have hcut : rsplitOnce '/' (pinPath name) = some ("/etc/systemd/network", pinBase name) :=
        (rsplitOnce_eq_some slash).mpr ⟨rfl, hlisted.flat⟩
      unfold effectiveNetworkdIfPresent
      rw [htext, baseName, hcut]
      simp [roots]
    rw [heffective, Outcome.bind_ok] at hfile
    obtain ⟨entries, hini, -⟩ := Outcome.bind_eq_ok.mp hfile
    exact ⟨entries, hlisted, hresolved, text, _, htext, dropIns_effective host _, hini⟩

end

/-- A file without drop-ins reads as its text. -/
theorem reads_iff {host : Host} {base path text : String} {entries es : List Entry}
    (hlisted : Listed ".network" base) (hresolved : resolve host roots base = some path)
    (htext : host.files.get? path = some text) (hdropins : effectiveDropins host base = [])
    (hini : ini text = .ok es) : FileReads host base path entries ↔ entries = es := by
  constructor
  · intro h
    obtain ⟨text', dropins, ht, hd, hi⟩ := h.settings
    rw [htext] at ht
    cases ht
    rw [hd.unique (dropIns_effective host base), hdropins] at hi
    exact Except.ok.inj (hi.symm.trans hini)
  · rintro rfl
    exact ⟨hlisted, hresolved, text, [], htext, hdropins ▸ dropIns_effective host base, hini⟩

/-- Without a blocking entry, a managed file that is there and fits its link is the one used. -/
theorem pin_used {host : Host} {p : NetworkProfiles} {drift : List Ifupdown.Drift} {links : Json}
    {name mac : String} (h : networkdDrift host p = .ok drift)
    (hclear : ∀ d ∈ drift, d.blocking = false) (hname : name ∈ names p)
    (hlinks : host.links = .ok links) (hmac : linkMac links name = .ok mac)
    (hpin : pinPath name ∈ host.list "/etc/systemd/network" ".network")
    (hgone : host.handoff = true → ∀ path ∈ host.handoffPaths, host.files.contains path = false)
    (hplain : ∀ base path entries, FileReads host base path entries → PlainMatch mac entries)
    (hholds : ∀ entries, FileReads host (pinBase name) (pinPath name) entries →
      Holds host name mac entries) :
    PinUsed host name mac := by
  have hclean : ∀ base path entries, FileReads host base path entries → Holds host name mac entries →
      ¬base < pinBase name ∧ (base = pinBase name → path = pinPath name →
        effectiveDropins host base = [] ∧ ¬Further entries) := by
    intro base path entries hreads hfits
    obtain ⟨ds, hds, hsub⟩ := nameDrift_of_reads h hlinks hgone hname hreads
    exact clear_of_nameDrift hds hmac (fun d hd => hclear d (hsub d hd))
      (hplain base path entries hreads) hfits
  obtain ⟨entries, hreads⟩ := reads_pin h hgone hpin
  have hfits := hholds entries hreads
  obtain ⟨-, hown⟩ := hclean _ _ _ hreads hfits
  obtain ⟨hunmerged, hcertain⟩ := hown rfl rfl
  refine ⟨⟨⟨entries, hreads, hfits⟩, ?_⟩, ?_, ?_, ?_⟩
  · intro b q es hlt hes hb
    exact absurd hlt (hclean b q es hes hb).1
  · intro es hes
    exact ((hclean _ _ _ hes (hholds es hes)).2 rfl rfl).2
  · intro base path hselect
    obtain ⟨es, hes, hb⟩ := hselect.holds
    have hnot := (hclean base path es hes hb).1
    rcases lt_trichotomy base (pinBase name) with hlt | heq | hgt
    · exact absurd hlt hnot
    · subst heq
      exact ⟨rfl, Option.some.inj (hes.resolved.symm.trans hreads.resolved)⟩
    · exact absurd (hselect.earlier _ _ _ hgt hreads hfits) hcertain
  · rw [← hunmerged]
    exact dropIns_effective host (pinBase name)

/-! ### Examples -/

def port : NetworkProfiles where
  interface := "eth0"
  networks := [{ id := "untagged", name := "Untagged" }]

/-- A host of one port, with patterns that match only themselves. -/
def hostOf (files : List (String × String)) : Host where
  files := .ofList files
  links := .ok (.arr [.obj [("address", .str "02:00:00:00:00:01"), ("ifname", .str "eth0")]])
  glob := fun pattern => some fun name => name == pattern

def pinFile (name : String) : String × String :=
  ("/etc/systemd/network/00-ndimon-eth0.network", "[Match]\nName=" ++ name ++ "\n")

def nameEntries (name : String) : List Entry := [⟨"Match", "", ""⟩, ⟨"Match", "Name", name⟩]

theorem holds_nameEntries {files : List (String × String)} {name link mac : String}
    (hname : assignNames [] name = [name]) (hplain : stripPrefix "!" name = none) :
    Holds (hostOf files) link mac (nameEntries name) ↔ link = name := by
  have hnames : (matchValues (nameEntries name) "Name").foldl assignNames [] = [name] := by
    simpa [matchValues, nameEntries] using hname
  constructor
  · intro h
    have hhits := h.name.plain
    rw [hnames] at hhits
    obtain ⟨p, hp, -, test, htest, htrue⟩ := hhits ⟨name, List.mem_cons_self, hplain⟩
    rw [List.mem_singleton.mp hp] at htest
    cases htest
    simpa using htrue
  · rintro rfl
    refine ⟨?_, .inl (by simp [matchValues, nameEntries])⟩
    rw [hnames]
    refine ⟨fun p hp q hq => ?_, fun _ => ⟨link, List.mem_cons_self, hplain, _, rfl, by simp⟩⟩
    rw [List.mem_singleton.mp hp, hplain] at hq
    cases hq

theorem listed_pin : Listed ".network" "00-ndimon-eth0.network" :=
  ⟨by decide +kernel, by decide +kernel⟩

/-- With nothing but the managed file there, it is used. -/
theorem pinned_used : PinUsed (hostOf [pinFile "eth0"]) "eth0" "02:00:00:00:00:01" := by
  have honly : ∀ base path entries, FileReads (hostOf [pinFile "eth0"]) base path entries →
      entries = nameEntries "eth0" := by
    intro base path entries h
    obtain ⟨hcontains, d, -, hpath⟩ := resolve_eq_some h.resolved
    have hkey : path ∈ (hostOf [pinFile "eth0"]).files.keys := SortedMap.mem_keys_iff.mpr hcontains
    have heq : path = "/etc/systemd/network/00-ndimon-eth0.network" := List.mem_singleton.mp hkey
    have hb : base = "00-ndimon-eth0.network" := by
      rw [← @baseName_append d base h.listed.flat, ← hpath, heq]
      decide +kernel
    subst hb heq
    have htext : (hostOf [pinFile "eth0"]).files.get? "/etc/systemd/network/00-ndimon-eth0.network" =
        some (pinFile "eth0").2 := by
      decide +kernel
    exact (reads_iff h.listed h.resolved htext (by decide +kernel) rfl).mp h
  have hdrift : networkdDrift (hostOf [pinFile "eth0"]) port = .ok [] := rfl
  refine pin_used hdrift (by simp) (by simp [names, port]) rfl rfl (by decide +kernel)
    (by simp [hostOf]) ?_ ?_
  · intro base path entries h
    rw [honly base path entries h]
    refine ⟨fun v hv hbang => ?_, by simp [matchValues, nameEntries]⟩
    have hv : v = "eth0" := by simpa [matchValues, nameEntries] using hv
    subst hv
    exact absurd hbang (by decide +kernel)
  · intro entries h
    rw [honly _ _ entries h]
    exact (holds_nameEntries (by decide +kernel) (by decide +kernel)).mpr rfl

/-- A file the handoff is to take over comes first, and the check passes over it. -/
def handedOff : Host :=
  { hostOf [pinFile "eth0", ("/etc/systemd/network/00-a.network", "[Match]\nName=eth0\n")] with
    handoff := true
    handoffPaths := ["/etc/systemd/network/00-a.network"] }

/-- A managed file whose own condition names another port. -/
def elsewhere : Host := hostOf [pinFile "eth1"]

theorem unblocked_but_unused :
    (networkdDrift handedOff port = .ok [] ∧ handedOff.files.contains (pinPath "eth0") = true ∧
      ∀ mac, ¬PinUsed handedOff "eth0" mac) ∧
    networkdDrift elsewhere port = .ok [] ∧ elsewhere.files.contains (pinPath "eth0") = true ∧
      ∀ mac, ¬PinUsed elsewhere "eth0" mac := by
  refine ⟨⟨rfl, by decide +kernel, fun mac h => ?_⟩, rfl, by decide +kernel, fun mac h => ?_⟩
  · have htext : handedOff.files.get? "/etc/systemd/network/00-a.network" =
        some "[Match]\nName=eth0\n" := by
      decide +kernel
    have hfirst : FileReads handedOff "00-a.network" "/etc/systemd/network/00-a.network"
        (nameEntries "eth0") :=
      (reads_iff ⟨by decide +kernel, by decide +kernel⟩ (by decide +kernel) htext
        (by decide +kernel) rfl).mpr rfl
    have hholds : Holds (hostOf [pinFile "eth0",
        ("/etc/systemd/network/00-a.network", "[Match]\nName=eth0\n")]) "eth0" mac
        (nameEntries "eth0") :=
      (holds_nameEntries (by decide +kernel) (by decide +kernel)).mpr rfl
    have hfurther := h.selectable.earlier "00-a.network" "/etc/systemd/network/00-a.network"
      (nameEntries "eth0") (by decide +kernel) hfirst ⟨hholds.name, hholds.mac⟩
    obtain ⟨e, he, -, hkey, -, hvalue⟩ := hfurther
    simp only [nameEntries, List.mem_cons, List.not_mem_nil, or_false] at he
    rcases he with rfl | rfl
    · exact hvalue rfl
    · exact hkey rfl
  · obtain ⟨entries, hreads, hholds⟩ := h.selectable.holds
    have htext : elsewhere.files.get? (pinPath "eth0") = some (pinFile "eth1").2 := by
      decide +kernel
    have hini : ini (pinFile "eth1").2 = .ok (nameEntries "eth1") := rfl
    have hentries := (reads_iff hreads.listed hreads.resolved htext (by decide +kernel) hini).mp hreads
    rw [hentries] at hholds
    exact absurd ((holds_nameEntries (by decide +kernel) (by decide +kernel)).mp hholds) (by decide)

end NdimonR.Backend.Networkd
