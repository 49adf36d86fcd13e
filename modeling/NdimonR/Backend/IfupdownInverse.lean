import NdimonR.Backend.IfupdownDirectory
import NdimonR.Backend.IfupdownPlan

/-! What rendering writes of a profile is what the stanza reader, the drift check and adoption read,
unless the port's own file is the file of the VLANs. -/

namespace NdimonR.Backend.Ifupdown

open Types Text Engine Backend

/-! ### Reading back -/

section

variable {host : Host} {p : NetworkProfiles} {m : Metadata} {texts : List (String × String)}

/-- Both files, with their texts. -/
theorem inverts_distinct (h : NetworkValid p) (hd : m.dhcpMetric ≤ u32Max)
    (hs : m.staticMetric ≤ u32Max) (hglob : Literal host.glob) (hdhclient : host.iscDhclient = .ok ())
    (hi : Included host p texts) (hne : p.interface ≠ "vlans")
    (hparent : host.root.text (parentPath p.interface) = .ok (some (parentText p m)))
    (hvlans : host.root.text vlansPath = .ok (some (vlansText p m))) : Inverts host p m := by
  have hpaths : parentPath p.interface ≠ vlansPath := fun he => hne (parentPath_eq_vlans.mp he)
  have hnames := names_blocks p m
  obtain ⟨ss, hss, hperm⟩ := stanzas_perm hi hglob
    [(parentPath p.interface, [parentBlock p m]), (vlansPath, vlanBlocks p m)]
    (by simpa using hpaths) (by simp)
    (by
      intro f hf
      rcases List.mem_cons.mp hf with rfl | hf
      · exact ⟨hi.parent, _, hparent, settings_parent h m⟩
      · rw [List.mem_singleton.mp hf]
        exact ⟨hi.vlans, _, hvlans, settings_vlans h m⟩)
    (by
      intro f hf
      rcases List.mem_cons.mp hf with rfl | hf
      · simpa using parentBlock_ok h m
      · rw [List.mem_singleton.mp hf]
        exact vlanBlocks_ok h m)
    (by
      intro f hf b hb
      rw [hnames]
      apply List.mem_map_of_mem
      rcases List.mem_cons.mp hf with rfl | hf
      · exact List.mem_singleton.mp hb ▸ List.mem_cons_self
      · rw [List.mem_singleton.mp hf] at hb
        exact List.mem_cons_of_mem _ hb)
  refine inverts_of_written h hd hs hdhclient (sources_main hi.sources) hss ?_
  simpa [written] using hperm

/-- The stanzas of a single file for both, with the blocks its text has. -/
theorem stanzas_shared (hglob : Literal host.glob) (hi : Included host p texts)
    (heq : p.interface = "vlans") (blocks : List Block) (hok : ∀ b ∈ blocks, b.Ok)
    (hnames : ∀ b ∈ blocks, b.name ∈ names p) {text : String}
    (htext : host.root.text vlansPath = .ok (some text))
    (hsettings : settings text = blocks.flatMap Block.settings) :
    ∃ ss, stanzas host = .ok ss ∧
      (ss.filter (·.name ∈ names p)).Perm (blocks.map (Block.stanza vlansPath)) := by
  have hpath : parentPath p.interface = vlansPath := parentPath_eq_vlans.mpr heq
  obtain ⟨ss, hss, hperm⟩ := stanzas_perm hi hglob [(vlansPath, blocks)] (by simp)
    (by simp [hpath])
    (by
      intro f hf
      rw [List.mem_singleton.mp hf]
      exact ⟨hi.vlans, text, htext, hsettings⟩)
    (by
      intro f hf
      rw [List.mem_singleton.mp hf]
      exact hok)
    (by
      intro f hf
      rw [List.mem_singleton.mp hf]
      exact hnames)
  exact ⟨ss, hss, by simpa using hperm⟩

/-- What is read back names only interfaces with a block in the file. -/
theorem named_shared (hglob : Literal host.glob) (hi : Included host p texts)
    (heq : p.interface = "vlans") (blocks : List Block) (hok : ∀ b ∈ blocks, b.Ok)
    (hnames : ∀ b ∈ blocks, b.name ∈ names p) {text : String}
    (htext : host.root.text vlansPath = .ok (some text))
    (hsettings : settings text = blocks.flatMap Block.settings) (hinverts : Inverts host p m) :
    ∀ name ∈ names p, name ∈ blocks.map Block.name := by
  obtain ⟨ss, hss, hperm⟩ := stanzas_shared hglob hi heq blocks hok hnames htext hsettings
  obtain ⟨ss', hss', hsingle⟩ := hinverts.single
  have hsame : ss' = ss := Except.ok.inj (hss'.symm.trans hss)
  subst hsame
  intro name hname
  have hpos : 0 < (ss'.filter fun s => s.name == name && s.family == "inet" && s.active).length := by
    rw [hsingle name hname]
    omega
  obtain ⟨s, hs⟩ := List.exists_mem_of_length_pos hpos
  obtain ⟨hmem, htest⟩ := List.mem_filter.mp hs
  simp only [Bool.and_eq_true, beq_iff_eq] at htest
  have hours : s ∈ ss'.filter (·.name ∈ names p) :=
    List.mem_filter.mpr ⟨hmem, by simpa [htest.1.1] using hname⟩
  obtain ⟨b, hb, rfl⟩ := List.mem_map.mp (hperm.mem_iff.mp hours)
  exact List.mem_map.mpr ⟨b, hb, htest.1.1⟩

theorem inverts_shared (h : NetworkValid p) (hd : m.dhcpMetric ≤ u32Max)
    (hs : m.staticMetric ≤ u32Max) (hglob : Literal host.glob) (hdhclient : host.iscDhclient = .ok ())
    (hi : Included host p texts) (heq : p.interface = "vlans")
    (huntagged : ∀ n ∈ p.networks, n.vlanId = none)
    (hparent : host.root.text vlansPath = .ok (some (parentText p m))) : Inverts host p m := by
  have hpath : parentPath p.interface = vlansPath := parentPath_eq_vlans.mpr heq
  have hnone : vlanBlocks p m = [] := by
    rw [vlanBlocks, List.map_eq_nil_iff, List.filter_eq_nil_iff]
    intro n hn
    simp [huntagged n hn]
  obtain ⟨ss, hss, hperm⟩ := stanzas_shared hglob hi heq [parentBlock p m]
    (by simpa using parentBlock_ok h m)
    (by simp [names_blocks p m]) hparent (settings_parent h m)
  refine inverts_of_written h hd hs hdhclient (sources_main hi.sources) hss ?_
  rw [written, hnone, hpath]
  exact hperm

/-- An unadopted port has no name, and its stanza no method. -/
theorem unadopted_unread (hempty : p.networks = []) (hname : p.interface = "")
    (hi : Included host p texts)
    (hparent : host.root.text (parentPath p.interface) = .ok (some (parentText p m))) :
    ¬ Inverts host p m := by
  intro hinverts
  obtain ⟨ss, hss, -⟩ := hinverts.single
  rw [stanzas, hi.sources, Outcome.bind_ok] at hss
  obtain ⟨t, ht, hpath⟩ := List.mem_map.mp hi.parent
  have htext := (sources_inv hi.sources).2 t ht
  rw [hpath, hparent] at htext
  have hsame : parentText p m = t.2 := Option.some.inj (Except.ok.inj htext)
  obtain ⟨st, hst⟩ := fold_sources_ok hss t ht
  have hlines : parentText p m = unlines ["auto ", "iface  inet manual"] := by
    rw [parentText, hempty, hname]
    rfl
  rw [← hsame, hlines] at hst
  have herror : scan t.1 (unlines ["auto ", "iface  inet manual"]) =
      .error (unsupported "unrepresentable_configuration") := rfl
  rw [herror] at hst
  cases hst

end

theorem some_row {p : NetworkProfiles} (h : NetworkValid p) : p.networks ≠ [] := by
  obtain ⟨n, hn, -⟩ := h.roles p.roles.management (.head _)
  exact List.ne_nil_of_mem hn

/-- The texts of a port and of its VLANs differ: only one of them has the port. -/
theorem texts_differ {p : NetworkProfiles} (h : NetworkValid p) (m : Metadata) :
    parentText p m ≠ vlansText p m := by
  intro he
  have hglob : Literal fun s => some (· == s) := fun s _ => ⟨_, rfl, fun _ => rfl⟩
  have hok : ∀ b ∈ [parentBlock p m], b.Ok := by
    simpa using parentBlock_ok h m
  have hparent := readSource_blocks hglob "" hok (settings_parent h m)
  have hvlans := readSource_blocks hglob "" (vlanBlocks_ok h m) (settings_vlans h m)
  rw [he, hvlans] at hparent
  have hnames := congrArg (List.map Stanza.name) (Except.ok.inj hparent)
  have hnodup := names_nodup h
  rw [names_blocks p m, List.map_cons, List.nodup_cons] at hnodup
  apply hnodup.1
  have hmem : (parentBlock p m).name ∈
      ([parentBlock p m].map (Block.stanza "")).map Stanza.name := by simp [Block.stanza]
  rw [← hnames] at hmem
  simpa [Block.stanza, Function.comp_def] using hmem

theorem blank_vlans {p : NetworkProfiles} (huntagged : ∀ n ∈ p.networks, n.vlanId = none)
    (m : Metadata) : vlansText p m = "" := by
  have hnone : p.networks.filter (·.vlanId.isSome) = [] := by
    rw [List.filter_eq_nil_iff]
    intro n hn
    simp [huntagged n hn]
  rw [vlansText, hnone]
  rfl

section

variable {host : Host} {p : NetworkProfiles} {m : Metadata} {texts : List (String × String)}

/-- With the VLANs in the shared file, the port is not read. -/
theorem port_lost (h : NetworkValid p) (hglob : Literal host.glob) (hi : Included host p texts)
    (heq : p.interface = "vlans")
    (htext : host.root.text vlansPath = .ok (some (vlansText p m))) : ¬ Inverts host p m := by
  intro hinverts
  have hnamed := named_shared hglob hi heq (vlanBlocks p m) (vlanBlocks_ok h m)
    (fun b hb => by
      rw [names_blocks p m]
      exact List.mem_map_of_mem (List.mem_cons_of_mem _ hb))
    htext (settings_vlans h m) hinverts
  have hnodup := names_nodup h
  rw [names_blocks p m, List.map_cons, List.nodup_cons] at hnodup
  have hport : (parentBlock p m).name ∈ names p := by
    rw [names_blocks p m]
    exact List.mem_cons_self
  exact hnodup.1 (hnamed _ hport)

/-- With the port in the shared file, a VLAN is not read. -/
theorem vlans_lost (h : NetworkValid p) (hglob : Literal host.glob) (hi : Included host p texts)
    (heq : p.interface = "vlans") (htext : host.root.text vlansPath = .ok (some (parentText p m)))
    (hinverts : Inverts host p m) : ∀ n ∈ p.networks, n.vlanId = none := by
  have hnamed := named_shared hglob hi heq [parentBlock p m] (by simpa using parentBlock_ok h m)
    (by simp [names_blocks p m]) htext (settings_parent h m) hinverts
  have hnodup := names_nodup h
  rw [names, List.nodup_cons] at hnodup
  intro n hn
  by_contra hu
  have htagged : n ∈ p.networks.filter (·.vlanId.isSome) :=
    List.mem_filter.mpr ⟨hn, Option.isSome_iff_ne_none.mpr hu⟩
  have hport := hnamed (ifname p n) (List.mem_cons_of_mem _ (List.mem_map_of_mem htagged))
  rw [List.map_singleton, List.mem_singleton, parentBlock_name] at hport
  exact hnodup.1 (hport ▸ List.mem_map_of_mem htagged)

end

/-- The host, with other files below its root. -/
def Host.on (host : Host) (root : Root) : Host := { host with root }

/-- The case of one file for both. -/
theorem shared_iff {host : Host} {after : Root} {p : NetworkProfiles} {m : Metadata}
    {texts : List (String × String)} (h : NetworkValid p) (hd : m.dhcpMetric ≤ u32Max)
    (hs : m.staticMetric ≤ u32Max) (hglob : Literal (host.on after).glob) (hready : Ready host p)
    (happlied : ∀ files, render host p m [] = .ok files → Applied host.root after files)
    (hincluded : Included (host.on after) p texts) (heq : p.interface = "vlans") :
    (∃ files, render host p m [] = .ok files ∧ Inverts (host.on after) p m) ↔
      (∀ n ∈ p.networks, n.vlanId = none) ∧
        host.root.snapshot vlansPath = .ok (some (Image.ofText "" 0o644)) := by
  obtain ⟨before, hbefore⟩ := Outcome.isOk_iff.mp (hready.readable vlansPath (by simp))
  obtain ⟨hclash, hkept, hlost⟩ := render_shared hready m heq hbefore
  constructor
  · rintro ⟨files, hrender, hinverts⟩
    by_cases hparent : before = some (Image.ofText (parentText p m) 0o644)
    · obtain ⟨files, hrender, htext⟩ := hlost hparent
      exact absurd hinverts
        (port_lost h hglob hincluded heq (htext after (happlied files hrender)))
    · by_cases hvlans : before = some (Image.ofText (vlansText p m) 0o644)
      · obtain ⟨files, hrender, htext⟩ := hkept hparent hvlans
        have huntagged := vlans_lost h hglob hincluded heq
          (htext after (happlied files hrender)) hinverts
        exact ⟨huntagged, by rw [hbefore, hvlans, blank_vlans huntagged]⟩
      · rw [hclash hparent hvlans] at hrender
        cases hrender
  · rintro ⟨huntagged, hdisk⟩
    have hvlans : before = some (Image.ofText (vlansText p m) 0o644) := by
      rw [blank_vlans huntagged]
      exact Except.ok.inj (hbefore.symm.trans hdisk)
    have hparent : before ≠ some (Image.ofText (parentText p m) 0o644) := by
      intro he
      have hdecode := congrArg decode (he.symm.trans hvlans)
      rw [decode_text, decode_text] at hdecode
      exact texts_differ h m (Option.some.inj (Except.ok.inj hdecode))
    obtain ⟨files, hrender, htext⟩ := hkept hparent hvlans
    exact ⟨files, hrender, inverts_shared h hd hs hglob hready.dhclient hincluded heq huntagged
      (htext after (happlied files hrender))⟩

/-- What is rendered of an accepted profile reads back as the profile, exactly when it has a network
and its port does not share the file of the VLANs; a port named like that file is read back only if
it has no VLANs and the empty file is there already. -/
theorem stanzas_invert_rendering {host : Host} {after : Root} {p : NetworkProfiles} {m : Metadata}
    {texts : List (String × String)} (hp : Accepted p) (hd : m.dhcpMetric ≤ u32Max)
    (hs : m.staticMetric ≤ u32Max) (hglob : Literal host.glob) (hready : Ready host p)
    (happlied : ∀ files, render host p m [] = .ok files → Applied host.root after files)
    (hincluded : Included (host.on after) p texts) :
    (∃ files, render host p m [] = .ok files ∧ Inverts (host.on after) p m) ↔
      p.networks ≠ [] ∧ (p.interface ≠ "vlans" ∨ (∀ n ∈ p.networks, n.vlanId = none) ∧
        host.root.snapshot vlansPath = .ok (some (Image.ofText "" 0o644))) := by
  have hread : Literal (host.on after).glob := hglob
  rcases hp.cases with ⟨hname, hempty⟩ | h
  · -- a port without a name has no stanza that can be read
    have hne : p.interface ≠ "vlans" := by
      rw [hname]
      decide
    obtain ⟨files, hrender, htexts⟩ := render_distinct hready m hne
    have hparent := (htexts after (happlied files hrender)).1
    constructor
    · rintro ⟨-, -, hinverts⟩
      exact absurd hinverts (unadopted_unread hempty hname hincluded hparent)
    · rintro ⟨hsome, -⟩
      exact absurd hempty hsome
  · by_cases heq : p.interface = "vlans"
    · rw [shared_iff h hd hs hread hready happlied hincluded heq]
      constructor
      · intro hcase
        exact ⟨some_row h, .inr hcase⟩
      · rintro ⟨-, hcase⟩
        exact hcase.resolve_left fun hn => hn heq
    · obtain ⟨files, hrender, htexts⟩ := render_distinct hready m heq
      obtain ⟨hparent, hvlans⟩ := htexts after (happlied files hrender)
      have hinverts := inverts_distinct h hd hs hread hready.dhclient hincluded heq hparent hvlans
      exact ⟨fun _ => ⟨some_row h, .inl heq⟩, fun _ => ⟨files, hrender, hinverts⟩⟩

/-- A host with the given files, whose directory lists some of them. -/
def sampleHost (files : List (String × Image)) (listed : List String) : Host where
  root := { snapshot := fun path => .ok (files.lookup path), list := fun _ => .ok listed }
  glob s := some (· == s)
  dhclient := .ok (0, "isc-dhclient-4.4.3")
  present _ := .ok false

def mainImage : Image := Image.ofText includeAll 0o644

theorem sampleHost_main {files : List (String × Image)} {listed : List String}
    (hmain : files.lookup mainPath = some mainImage) :
    (sampleHost files listed).root.text mainPath = .ok (some includeAll) := by
  have hsnapshot : (sampleHost files listed).root.snapshot mainPath = .ok (some mainImage) :=
    congrArg Except.ok hmain
  rw [Root.text, hsnapshot, Outcome.bind_ok, mainImage, decode_text]

theorem sampleHost_ready {files : List (String × Image)} {listed : List String}
    {p : NetworkProfiles} (hmain : files.lookup mainPath = some mainImage) :
    Ready (sampleHost files listed) p where
  dhclient := rfl
  main := ⟨includeAll, sampleHost_main hmain, fun _ _ => rfl⟩
  readable _ _ := rfl

/-- The sample port on a host without files of its own. -/
def emptyHost : Host := sampleHost [(mainPath, mainImage)] [parentPath "eth0", vlansPath]

/-- The stanza of the port has a file of its own. -/
theorem sample_rendering_is_inverted :
    ∃ files, render emptyHost (normalize sampleProfiles) {} [] = .ok files ∧
      Inverts (emptyHost.on (planned emptyHost (normalize sampleProfiles) {}))
        (normalize sampleProfiles) {} := by
  let p := normalize sampleProfiles
  have hp : Accepted p := .inr ⟨sampleProfiles, sampleProfiles, rfl⟩
  have hvalid : NetworkValid p := hp.valid (n := managementRow) (.head _)
  have hready : Ready emptyHost p := sampleHost_ready rfl
  have hne : p.interface ≠ "vlans" := by decide
  have hglob : Literal emptyHost.glob := fun s _ => ⟨(· == s), rfl, fun _ => rfl⟩
  have happlied := planned_applied emptyHost p {}
  obtain ⟨files, hrender, htexts⟩ := render_distinct hready {} hne
  obtain ⟨hparent, hvlans⟩ := htexts _ (happlied files hrender)
  have hmain : (planned emptyHost p {}).text mainPath = .ok (some includeAll) :=
    (planned_main hready hrender).trans (sampleHost_main rfl)
  have hleaf : Leaf (parentText p {}) ∧ Leaf (vlansText p {}) :=
    ⟨leaf_parent hvalid {}, leaf_vlans hvalid {}⟩
  have hsources := sources_directory (emptyHost.on (planned emptyHost p {}))
    [(parentPath "eth0", parentText p {}), (vlansPath, vlansText p {})] hmain
    (planned_list emptyHost p {} _) (by decide +kernel) (by decide +kernel)
    (by simpa using ⟨⟨hparent, hleaf.1⟩, hvlans, hleaf.2⟩)
  have hincluded : Included (emptyHost.on (planned emptyHost p {})) p _ :=
    included_directory hsources (by simp [p, Engine.normalize, sampleProfiles]) (by simp)
      (by simp [p, Engine.normalize, sampleProfiles])
  have hsome : p.networks ≠ [] := some_row hvalid
  exact (stanzas_invert_rendering hp (by decide) (by decide) hglob hready happlied hincluded).mpr
    ⟨hsome, .inl hne⟩

/-- A port named like the file of the VLANs, with one network. -/
def sharedProfiles : NetworkProfiles where
  interface := "vlans"
  backend := some .ifupdown
  networks := [managementRow]
  roles := ⟨"lan", "lan", "lan"⟩

/-- Its stanza is already in its file, as adoption asks. -/
def sharedHost : Host :=
  sampleHost [(mainPath, mainImage),
    (vlansPath, Image.ofText (parentText sharedProfiles {}) 0o644)] [vlansPath]

/-- The plan puts the empty file of the VLANs in the place of the port's stanza. -/
theorem port_named_vlans_is_lost :
    ∃ host after p m texts, Accepted p ∧ Literal host.glob ∧ Ready host p ∧
      (∃ files, render host p m [] = .ok files ∧ Applied host.root after files) ∧
      Included (host.on after) p texts ∧ ¬ Inverts (host.on after) p m := by
  let p := sharedProfiles
  have hp : Accepted p := .inr ⟨sharedProfiles, sharedProfiles, rfl⟩
  have hvalid : NetworkValid p := hp.valid (n := managementRow) (.head _)
  have hready : Ready sharedHost p := sampleHost_ready rfl
  have hglob : Literal sharedHost.glob := fun s _ => ⟨(· == s), rfl, fun _ => rfl⟩
  have happlied := planned_applied sharedHost p {}
  have hbefore : sharedHost.root.snapshot vlansPath =
      .ok (some (Image.ofText (parentText p {}) 0o644)) := rfl
  obtain ⟨-, -, hlost⟩ := render_shared hready {} rfl hbefore
  obtain ⟨files, hrender, htext⟩ := hlost rfl
  have hvlans := htext _ (happlied files hrender)
  have hmain : (planned sharedHost p {}).text mainPath = .ok (some includeAll) :=
    (planned_main hready hrender).trans (sampleHost_main rfl)
  have hsources := sources_directory (sharedHost.on (planned sharedHost p {}))
    [(vlansPath, vlansText p {})] hmain (planned_list sharedHost p {} _) (by decide +kernel)
    (by decide +kernel) (by simpa using ⟨hvlans, leaf_vlans hvalid {}⟩)
  have hincluded : Included (sharedHost.on (planned sharedHost p {})) p _ :=
    included_directory hsources (by simp [p, sharedProfiles, vlansPath_eq]) (by simp) (by simp)
  exact ⟨sharedHost, planned sharedHost p {}, p, {}, _, hp, hglob, hready,
    ⟨files, hrender, happlied files hrender⟩, hincluded,
    port_lost hvalid hglob hincluded rfl hvlans⟩

end NdimonR.Backend.Ifupdown
