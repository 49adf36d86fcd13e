import NdimonR.Backend.IfupdownAdoption

/-! The plan of a rendering: which files it changes, and the texts they have once it is applied. -/

namespace NdimonR.Backend.Ifupdown

open Types Text Engine Backend

/-- The main file and the client allow the backend, and the files to write can be read. -/
structure Ready (host : Host) (p : NetworkProfiles) : Prop where
  dhclient : host.iscDhclient = .ok ()
  main : ∃ main, host.root.text mainPath = .ok (some main) ∧
    ∀ name ∈ ["ndimon-" ++ p.interface, "ndimon-vlans"], admits host.glob main name = true
  readable : ∀ path ∈ [parentPath p.interface, vlansPath, hookPath],
    (host.root.snapshot path).isOk = true

/-- The root a plan leaves: each file as its change has it, the others as they were. -/
def Applied (root after : Root) (files : List FileChange) : Prop :=
  ∀ path, after.snapshot path =
    match files.find? (·.path == path) with
    | some c => .ok c.after
    | none => root.snapshot path

/-- The change of a file that held `before`, if any. -/
def pending (before : Option Image) (path text : String) : List FileChange :=
  if before = some (Image.ofText text 0o644) then []
  else [{ path, before, after := some (Image.ofText text 0o644) }]

theorem add_fresh {root : Root} {changes : List FileChange} {path : String} {before : Option Image}
    (hb : root.snapshot path = .ok before) (hnew : ∀ c ∈ changes, c.path ≠ path) (text : String) :
    add root changes path (some text) 0o644 = .ok (changes ++ pending before path text) := by
  rw [add, Root.change, hb, Outcome.bind_ok, Outcome.bind_ok, pending, Option.map_some]
  by_cases hsame : before = some (Image.ofText text 0o644)
  · rw [if_pos hsame, if_pos hsame, push, List.append_nil]
  · have hany : changes.any (·.path == path) = false := by
      rw [List.any_eq_false]
      intro c hc
      simpa using hnew c hc
    rw [if_neg hsame, if_neg hsame, push, hany]
    rfl

theorem add_first {root : Root} {path : String} {before : Option Image}
    (hb : root.snapshot path = .ok before) (text : String) :
    add root [] path (some text) 0o644 = .ok (pending before path text) :=
  add_fresh hb (fun _ hc => absurd hc List.not_mem_nil) text

theorem add_taken {root : Root} {changes : List FileChange} {path : String} {before : Option Image}
    (hb : root.snapshot path = .ok before) {c : FileChange} (hc : c ∈ changes)
    (hpath : c.path = path) (text : String) :
    add root changes path (some text) 0o644 =
      if before = some (Image.ofText text 0o644) then .ok changes
      else .error (failed "plan" "duplicate_artifact") := by
  rw [add, Root.change, hb, Outcome.bind_ok, Outcome.bind_ok, Option.map_some]
  by_cases hsame : before = some (Image.ofText text 0o644)
  · rw [if_pos hsame, if_pos hsame, push]
  · have hany : changes.any (·.path == path) = true := by
      rw [List.any_eq_true]
      exact ⟨c, hc, by simpa using hpath⟩
    rw [if_neg hsame, if_neg hsame, push, hany]
    rfl

/-- A plan changes no file but those it was asked to. -/
theorem add_paths {root : Root} {changes changes' : List FileChange} {path text : String}
    (h : add root changes path (some text) 0o644 = .ok changes') :
    ∀ c ∈ changes', c ∈ changes ∨ c.path = path := by
  obtain ⟨change, hchange, hpush⟩ := Outcome.bind_eq_ok.mp h
  obtain ⟨before, -, hchange⟩ := Outcome.bind_eq_ok.mp hchange
  intro c hc
  cases change with
  | none =>
    cases hpush
    exact .inl hc
  | some change =>
    have hpath : change.path = path := by
      rcases ite_eq_iff.mp (Except.ok.inj hchange) with ⟨-, he⟩ | ⟨-, he⟩
      · cases he
      · rw [← Option.some.inj he]
    rcases ite_eq_iff.mp hpush with ⟨-, hpush⟩ | ⟨-, hpush⟩
    · cases hpush
    · cases hpush
      rcases List.mem_append.mp hc with hc | hc
      · exact .inl hc
      · exact .inr (List.mem_singleton.mp hc ▸ hpath)

theorem pending_path {before : Option Image} {path text : String} :
    ∀ c ∈ pending before path text, c.path = path := by
  intro c hc
  unfold pending at hc
  split at hc
  · cases hc
  · rw [List.mem_singleton.mp hc]

/-- Once the plan is applied, a file has the text its only change gives it. -/
theorem applied_text {root after : Root} {files : List FileChange} (happlied : Applied root after files)
    {path text : String} {before : Option Image} (hb : root.snapshot path = .ok before)
    (honly : files.filter (·.path == path) = pending before path text) :
    after.text path = .ok (some text) := by
  have hsnapshot : after.snapshot path = .ok (some (Image.ofText text 0o644)) := by
    rw [happlied path, ← List.head?_filter, honly, pending]
    by_cases hsame : before = some (Image.ofText text 0o644)
    · rw [if_pos hsame, List.head?_nil, hb, hsame]
    · rw [if_neg hsame, List.head?_cons]
  rw [Root.text, hsnapshot, Outcome.bind_ok, decode_text]

theorem render_eq {host : Host} {p : NetworkProfiles} (h : Ready host p) (m : Metadata) :
    render host p m [] =
      (add host.root [] (parentPath p.interface) (some (parentText p m)) 0o644 >>= fun files =>
        add host.root files vlansPath (some (vlansText p m)) 0o644 >>= fun files =>
          add host.root files hookPath (some (hookText p)) 0o644) := by
  obtain ⟨main, hmain, hadmits⟩ := h.main
  have hall : ["ndimon-" ++ p.interface, "ndimon-vlans"].all (admits host.glob main) = true :=
    List.all_eq_true.mpr hadmits
  rw [render, h.dhclient, Outcome.bind_ok, hmain, Outcome.bind_ok, required, Outcome.bind_ok, hall]
  rfl

theorem render_paths {host : Host} {p : NetworkProfiles} {m : Metadata} {files : List FileChange}
    (h : Ready host p) (hr : render host p m [] = .ok files) :
    ∀ c ∈ files, c.path ∈ [parentPath p.interface, vlansPath, hookPath] := by
  rw [render_eq h] at hr
  obtain ⟨first, hfirst, hr⟩ := Outcome.bind_eq_ok.mp hr
  obtain ⟨second, hsecond, hr⟩ := Outcome.bind_eq_ok.mp hr
  intro c hc
  simp only [List.mem_cons, List.not_mem_nil, or_false]
  rcases add_paths hr c hc with hc | hc
  · rcases add_paths hsecond c hc with hc | hc
    · rcases add_paths hfirst c hc with hc | hc
      · cases hc
      · exact .inl hc
    · exact .inr (.inl hc)
  · exact .inr (.inr hc)

/-! ### The paths -/

theorem vlansPath_eq : vlansPath = parentPath "vlans" := by
  decide +kernel

theorem parentPath_eq_vlans {name : String} : parentPath name = vlansPath ↔ name = "vlans" := by
  rw [vlansPath_eq]
  unfold parentPath
  rw [String.append_right_inj]

theorem parentPath_ne_hook (name : String) : parentPath name ≠ hookPath := by
  have hnetwork : "/etc/network/interfaces.d/ndimon-".toList =
      "/etc/n".toList ++ "etwork/interfaces.d/ndimon-".toList := by decide +kernel
  have hdhcp : hookPath.toList = "/etc/d".toList ++ "hcp/dhclient-enter-hooks.d/ndimon-vlans".toList := by
    decide +kernel
  intro he
  have hlist := congrArg String.toList he
  unfold parentPath at hlist
  rw [String.toList_append, hnetwork, hdhcp, List.append_assoc] at hlist
  have hstart := (List.append_inj hlist (by decide +kernel)).1
  exact absurd hstart (by decide +kernel)

theorem filter_pending (before : Option Image) (path text other : String) :
    (pending before path text).filter (·.path == other) =
      if path = other then pending before path text else [] := by
  by_cases hp : path = other
  · rw [if_pos hp, List.filter_eq_self]
    intro c hc
    rw [pending_path c hc, hp]
    exact beq_self_eq_true other
  · rw [if_neg hp, List.filter_eq_nil_iff]
    intro c hc
    rw [pending_path c hc]
    simpa using hp

/-! ### Two files -/

theorem sources_main {host : Host} {texts : List (String × String)}
    (h : sources host = .ok texts) : host.root.isThere mainPath = .ok true := by
  obtain ⟨acc, hacc, -⟩ := Outcome.map_eq_ok.mp h
  rcases ite_eq_iff.mp hacc with ⟨-, hacc⟩ | ⟨-, hacc⟩
  · cases hacc
  · obtain ⟨found, hfound, hacc⟩ := Outcome.bind_eq_ok.mp hacc
    obtain ⟨text, htext, -⟩ := Outcome.bind_eq_ok.mp hacc
    obtain ⟨image, hsnapshot, hdecode⟩ := Outcome.bind_eq_ok.mp hfound
    cases image with
    | none =>
      cases hdecode
      cases htext
    | some image =>
      rw [Root.isThere, hsnapshot]
      rfl

/-- Distinct paths: both files are planned, and have their texts once the plan is applied. -/
theorem render_distinct {host : Host} {p : NetworkProfiles} (h : Ready host p) (m : Metadata)
    (hne : p.interface ≠ "vlans") : ∃ files, render host p m [] = .ok files ∧
      ∀ after, Applied host.root after files →
        after.text (parentPath p.interface) = .ok (some (parentText p m)) ∧
          after.text vlansPath = .ok (some (vlansText p m)) := by
  obtain ⟨parent, hparent⟩ := Outcome.isOk_iff.mp (h.readable (parentPath p.interface) (by simp))
  obtain ⟨vlans, hvlans⟩ := Outcome.isOk_iff.mp (h.readable vlansPath (by simp))
  obtain ⟨hook, hhook⟩ := Outcome.isOk_iff.mp (h.readable hookPath (by simp))
  have hpv : parentPath p.interface ≠ vlansPath := fun he => hne (parentPath_eq_vlans.mp he)
  have hph := parentPath_ne_hook p.interface
  have hvh : vlansPath ≠ hookPath := vlansPath_eq ▸ parentPath_ne_hook "vlans"
  let files := pending parent (parentPath p.interface) (parentText p m) ++
    pending vlans vlansPath (vlansText p m) ++ pending hook hookPath (hookText p)
  refine ⟨files, ?_, fun after happlied => ⟨?_, ?_⟩⟩
  · rw [render_eq h, add_first hparent, Outcome.bind_ok, add_fresh hvlans, Outcome.bind_ok, add_fresh hhook]
    · intro c hc
      rcases List.mem_append.mp hc with hc | hc
      · rw [pending_path c hc]
        exact hph
      · rw [pending_path c hc]
        exact hvh
    · intro c hc
      rw [pending_path c hc]
      exact hpv
  · refine applied_text happlied hparent ?_
    simp [files, List.filter_append, filter_pending, hpv.symm, hph.symm]
  · refine applied_text happlied hvlans ?_
    simp [files, List.filter_append, filter_pending, hpv, hvh.symm]

/-! ### One file for both -/

/-- Where the port's file is the file of the VLANs, the texts compete for it. -/
theorem render_shared {host : Host} {p : NetworkProfiles} (h : Ready host p) (m : Metadata)
    (heq : p.interface = "vlans") {before : Option Image}
    (hbefore : host.root.snapshot vlansPath = .ok before) :
    (before ≠ some (Image.ofText (parentText p m) 0o644) →
      before ≠ some (Image.ofText (vlansText p m) 0o644) →
        render host p m [] = .error (failed "plan" "duplicate_artifact")) ∧
    (before ≠ some (Image.ofText (parentText p m) 0o644) →
      before = some (Image.ofText (vlansText p m) 0o644) → ∃ files, render host p m [] = .ok files ∧
        ∀ after, Applied host.root after files →
          after.text vlansPath = .ok (some (parentText p m))) ∧
    (before = some (Image.ofText (parentText p m) 0o644) → ∃ files, render host p m [] = .ok files ∧
        ∀ after, Applied host.root after files →
          after.text vlansPath = .ok (some (vlansText p m))) := by
  have hpath : parentPath p.interface = vlansPath := parentPath_eq_vlans.mpr heq
  have hvh : vlansPath ≠ hookPath := vlansPath_eq ▸ parentPath_ne_hook "vlans"
  obtain ⟨hook, hhook⟩ := Outcome.isOk_iff.mp (h.readable hookPath (by simp))
  have hrender := render_eq h m
  rw [hpath, add_first hbefore, Outcome.bind_ok] at hrender
  -- a change of the shared file, as the second text finds it
  have htaken (hnew : before ≠ some (Image.ofText (parentText p m) 0o644)) :
      ∃ c ∈ pending before vlansPath (parentText p m), c.path = vlansPath := by
    rw [pending, if_neg hnew]
    exact ⟨_, .head _, rfl⟩
  have hhookFresh : ∀ text, ∀ c ∈ pending before vlansPath text, c.path ≠ hookPath := by
    intro text c hc
    rw [pending_path c hc]
    exact hvh
  have happly : ∀ text after,
      Applied host.root after (pending before vlansPath text ++ pending hook hookPath (hookText p)) →
        after.text vlansPath = .ok (some text) := by
    intro text after happlied
    refine applied_text happlied hbefore ?_
    simp [List.filter_append, filter_pending, hvh.symm]
  refine ⟨?_, ?_, ?_⟩
  · intro hparent hvlans
    obtain ⟨c, hc, hcpath⟩ := htaken hparent
    rw [hrender, add_taken hbefore hc hcpath, if_neg hvlans]
    rfl
  · intro hparent hvlans
    obtain ⟨c, hc, hcpath⟩ := htaken hparent
    rw [add_taken hbefore hc hcpath, if_pos hvlans, Outcome.bind_ok,
      add_fresh hhook (hhookFresh _)] at hrender
    exact ⟨_, hrender, happly _⟩
  · intro hparent
    have hnone : pending before vlansPath (parentText p m) = [] := by
      rw [pending, if_pos hparent]
    rw [hnone, add_first hbefore, Outcome.bind_ok, add_fresh hhook (hhookFresh _)] at hrender
    exact ⟨_, hrender, happly _⟩

/-! ### The files after it -/

/-- The files left by a plan. -/
def Root.apply (root : Root) (files : List FileChange) : Root :=
  { root with snapshot := fun path =>
      match files.find? (·.path == path) with
      | some c => .ok c.after
      | none => root.snapshot path }

/-- The files once the plan, if there is one, is applied. -/
def planned (host : Host) (p : NetworkProfiles) (m : Metadata) : Root :=
  match render host p m [] with
  | .ok files => host.root.apply files
  | .error _ => host.root

theorem planned_applied (host : Host) (p : NetworkProfiles) (m : Metadata) :
    ∀ files, render host p m [] = .ok files → Applied host.root (planned host p m) files := by
  intro files hfiles path
  rw [planned, hfiles]
  rfl

theorem planned_main {host : Host} {p : NetworkProfiles} {m : Metadata} {files : List FileChange}
    (h : Ready host p) (hr : render host p m [] = .ok files) :
    (planned host p m).text mainPath = host.root.text mainPath := by
  have hnone : files.find? (·.path == mainPath) = none := by
    rw [List.find?_eq_none]
    intro c hc he
    have hpath := render_paths h hr c hc
    rw [beq_iff_eq.mp he] at hpath
    simp only [List.mem_cons, List.not_mem_nil, or_false] at hpath
    rcases hpath with hp | hp | hp
    · exact parentPath_ne_main _ hp.symm
    · exact parentPath_ne_main _ (vlansPath_eq ▸ hp.symm)
    · exact absurd hp (by decide +kernel)
  rw [Root.text, planned_applied host p m files hr mainPath, hnone]
  rfl

theorem planned_list (host : Host) (p : NetworkProfiles) (m : Metadata) (directory : String) :
    (planned host p m).list directory = host.root.list directory := by
  unfold planned
  split <;> rfl

end NdimonR.Backend.Ifupdown
