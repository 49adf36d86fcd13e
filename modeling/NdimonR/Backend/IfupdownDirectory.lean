import NdimonR.Backend.IfupdownBlocks

/-! A main file that includes a directory reads each of its files once. -/

namespace NdimonR.Backend.Ifupdown

open Types Text Engine Backend

/-- A file that includes no other. -/
def Leaf (text : String) : Prop :=
  ∀ l ∈ lines text, (splitWhitespace (uncommented l)).head? ≠ some "source" ∧
    (splitWhitespace (uncommented l)).head? ≠ some "source-directory"

theorem Block.Ok.leaf {b : Block} (h : b.Ok) : ∀ l ∈ b.settings,
    (splitWhitespace l).head? ≠ some "source" ∧
      (splitWhitespace l).head? ≠ some "source-directory" := by
  intro l hl
  simp only [Block.settings, List.cons_append, List.nil_append, List.mem_cons, List.mem_map] at hl
  rcases hl with rfl | rfl | ⟨e, he, rfl⟩
  · rw [autoLine, h.auto.split]
    simp
  · rw [ifaceLine, h.iface.split]
    simp
  · obtain ⟨ws, hws, -, hwords⟩ := (h.values e he).words
    have hfree := (h.values e he).free
    simp only [List.mem_cons, List.not_mem_nil, or_false, not_or] at hfree
    rw [hwords, (Words.cons (h.values e he).key hws).split]
    simp [hfree]

theorem leaf_blocks {blocks : List Block} (h : ∀ b ∈ blocks, b.Ok) {text : String}
    (htext : settings text = blocks.flatMap Block.settings) : Leaf text := by
  intro l hl
  by_cases hblank : uncommented l = ""
  · rw [hblank]
    decide
  · have hmem : uncommented l ∈ settings text :=
      List.mem_filter.mpr ⟨List.mem_map_of_mem hl, by simpa using hblank⟩
    rw [htext] at hmem
    obtain ⟨b, hb, hline⟩ := List.mem_flatMap.mp hmem
    exact (h b hb).leaf _ hline

theorem leaf_parent {p : NetworkProfiles} (h : NetworkValid p) (m : Metadata) :
    Leaf (parentText p m) := by
  have hok : ∀ b ∈ [parentBlock p m], b.Ok := by
    simpa using parentBlock_ok h m
  exact leaf_blocks hok (settings_parent h m)

theorem leaf_vlans {p : NetworkProfiles} (h : NetworkValid p) (m : Metadata) :
    Leaf (vlansText p m) :=
  leaf_blocks (vlanBlocks_ok h m) (settings_vlans h m)

theorem fold_leaf {host : Host} {visit : Sources → String → Result Sources} {ls : List String}
    (h : ∀ l ∈ ls, (splitWhitespace (uncommented l)).head? ≠ some "source" ∧
      (splitWhitespace (uncommented l)).head? ≠ some "source-directory") (acc : Sources) :
    ls.foldlM (fun acc l => includes host visit acc (splitWhitespace (uncommented l))) acc =
      .ok acc := by
  induction ls with
  | nil => rfl
  | cons l rest ih =>
    obtain ⟨hsource, hdirectory⟩ := h l (.head _)
    have hline : includes host visit acc (splitWhitespace (uncommented l)) = .ok acc := by
      rw [includes, if_neg hsource, if_neg hdirectory]
    rw [List.foldlM_cons, hline, Outcome.bind_ok]
    exact ih fun k hk => h k (.tail _ hk)

/-- Files that include no other are read one after the other. -/
theorem fold_children {host : Host} (left : Nat) (children : List (String × String))
    (acc : Sources) (hnodup : (acc.seen ++ children.map Prod.fst).Nodup)
    (htexts : ∀ c ∈ children, host.root.text c.1 = .ok (some c.2) ∧ Leaf c.2) :
    (children.map Prod.fst).foldlM (interfaceSources host (left + 1)) acc =
      .ok { seen := acc.seen ++ children.map Prod.fst, texts := acc.texts ++ children } := by
  induction children generalizing acc with
  | nil => simp [pure, Except.pure]
  | cons c rest ih =>
    obtain ⟨htext, hleaf⟩ := htexts c (.head _)
    have hnew : c.1 ∉ acc.seen := by
      intro hm
      exact (List.nodup_append.mp hnodup).2.2 c.1 hm c.1 (by simp) rfl
    have hfirst : interfaceSources host (left + 1) acc c.1 =
        .ok { seen := acc.seen ++ [c.1], texts := acc.texts ++ [c] } := by
      rw [interfaceSources, if_neg hnew, htext, Outcome.bind_ok, required, Outcome.bind_ok]
      exact fold_leaf hleaf _
    rw [List.map_cons, List.foldlM_cons, hfirst, Outcome.bind_ok, ih]
    · simp
    · simpa using hnodup
    · exact fun d hd => htexts d (.tail _ hd)

def includeAll : String := "source-directory /etc/network/interfaces.d\n"

/-- What a main file with nothing but the directory reads. -/
theorem sources_directory (host : Host) (children : List (String × String))
    (hmain : host.root.text mainPath = .ok (some includeAll))
    (hlist : host.root.list "/etc/network/interfaces.d" = .ok (children.map Prod.fst))
    (hnames : ∀ c ∈ children, all (fun c => isAsciiAlphanumeric c || c == '_' || c == '-')
      (fileName c.1) = true)
    (hnodup : (mainPath :: children.map Prod.fst).Nodup)
    (htexts : ∀ c ∈ children, host.root.text c.1 = .ok (some c.2) ∧ Leaf c.2) :
    sources host = .ok ((mainPath, includeAll) :: children) := by
  have hlines : lines includeAll = ["source-directory /etc/network/interfaces.d"] := by
    decide +kernel
  have hwords : splitWhitespace (uncommented "source-directory /etc/network/interfaces.d") =
      ["source-directory", "/etc/network/interfaces.d"] := by
    decide +kernel
  have hkept : (children.map Prod.fst).filter (fun child =>
      all (fun c => isAsciiAlphanumeric c || c == '_' || c == '-') (fileName child)) =
      children.map Prod.fst := by
    rw [List.filter_eq_self]
    intro child hchild
    obtain ⟨c, hc, rfl⟩ := List.mem_map.mp hchild
    exact hnames c hc
  have hfold : (children.map Prod.fst).foldlM (interfaceSources host 16)
      { seen := [] ++ [mainPath], texts := [] ++ [(mainPath, includeAll)] } =
        .ok { seen := [mainPath] ++ children.map Prod.fst,
              texts := [(mainPath, includeAll)] ++ children } :=
    fold_children 15 children _ hnodup htexts
  have hread : interfaceSources host 17 {} mainPath =
      .ok { seen := [mainPath] ++ children.map Prod.fst,
            texts := [(mainPath, includeAll)] ++ children } := by
    rw [interfaceSources, if_neg List.not_mem_nil, hmain, Outcome.bind_ok, required,
      Outcome.bind_ok, hlines, List.foldlM_cons, hwords, includes]
    simp only [List.head?_cons, Option.some.injEq, String.reduceEq, if_false, if_true,
      List.drop_succ_cons, List.drop_zero, List.foldlM_cons, List.foldlM_nil, hlist,
      Outcome.bind_ok, hkept]
    rw [hfold]
    rfl
  rw [sources, hread]
  rfl

/-- A main file with nothing but the directory includes what the directory has. -/
theorem included_directory {host : Host} {p : NetworkProfiles} {children : List (String × String)}
    (hsources : sources host = .ok ((mainPath, includeAll) :: children))
    (hparent : parentPath p.interface ∈ children.map Prod.fst)
    (hvlans : vlansPath ∈ children.map Prod.fst)
    (honly : ∀ c ∈ children, c.1 = parentPath p.interface ∨ c.1 = vlansPath) :
    Included host p ((mainPath, includeAll) :: children) where
  sources := hsources
  parent := List.mem_cons_of_mem _ hparent
  vlans := List.mem_cons_of_mem _ hvlans
  foreign := by
    intro t ht hp hv
    rcases List.mem_cons.mp ht with rfl | ht
    · exact ⟨[], rfl, nofun⟩
    · rcases honly t ht with he | he
      · exact absurd he hp
      · exact absurd he hv

end NdimonR.Backend.Ifupdown
