import NdimonR.Privd.Manifest

/-! Which units and writable paths two plugins can both be granted. A unit belongs to a plugin
by a stem of its name and the separator after it, so two plugins share units exactly when a stem
of one, with a dash, starts a stem of the other. -/

namespace NdimonR.Privd

open Text

/-- What a unit of the plugin may start with. -/
def stems (name : PluginName) : List String := [name.val, "ndimon-" ++ name.val]

/-- A stem of the plugin with the separator that ends it, or a unit reserved to it by name. -/
def InScope (name : PluginName) (unit : String) : Prop :=
  (name.val = "tessera" ∧ unit = "tesserad.service") ∨
  (name.val = "bluetooth" ∧ unit = "bluealsa.service") ∨
  ∃ stem ∈ stems name, ∃ sep ∈ ['.', '-', '@'], ∃ rest, unit.toList = stem.toList ++ sep :: rest

/-- Every unit below `r` with a dash is a unit below `s`, or the stems are equal. -/
def Covers (r s : String) : Prop := r = s ∨ r.toList ++ ['-'] <+: s.toList

/-- Names that only the two units reserved by name relate. -/
def reservedPairs : List (String × String) := [("tessera", "tesserad"), ("bluetooth", "bluealsa")]

def Related (a b : PluginName) : Prop :=
  (∃ r ∈ stems a, ∃ s ∈ stems b, Covers r s ∨ Covers s r) ∨
  (a.val, b.val) ∈ reservedPairs ∨ (b.val, a.val) ∈ reservedPairs

instance (r s : String) : Decidable (Covers r s) := inferInstanceAs (Decidable (_ ∨ _))

instance (a b : PluginName) : Decidable (Related a b) :=
  inferInstanceAs (Decidable (_ ∨ _ ∨ _))

theorem name_plain (name : PluginName) : ∀ c ∈ name.val.toList, c ≠ '.' ∧ c ≠ '@' ∧ c ≠ '/' := by
  intro c hc
  have h := name.2
  simp only [plugin, all, Bool.and_eq_true, List.all_eq_true] at h
  have := h.2 c hc
  refine ⟨?_, ?_, ?_⟩ <;> rintro rfl <;> revert this <;> decide

theorem stem_plain {name : PluginName} {stem : String} (h : stem ∈ stems name) :
    ∀ c ∈ stem.toList, c ≠ '.' ∧ c ≠ '@' := by
  intro c hc
  simp only [stems, List.mem_cons, List.not_mem_nil, or_false] at h
  obtain rfl | rfl := h
  · exact ⟨(name_plain name c hc).1, (name_plain name c hc).2.1⟩
  · rw [String.toList_append, List.mem_append] at hc
    obtain hc | hc := hc
    · exact forall_chars (p := fun c => c ≠ '.' ∧ c ≠ '@') (by decide) c hc
    · exact ⟨(name_plain name c hc).1, (name_plain name c hc).2.1⟩

theorem permitted_inScope {name : PluginName} {unit : String}
    (h : permittedService name unit = true) : unit ∉ hostUnits ∧ InScope name unit := by
  simp only [permittedService, Bool.and_eq_true, Bool.or_eq_true, Bool.not_eq_eq_eq_not,
    Bool.not_true, beq_iff_eq, List.any_eq_true, startsWithText, List.isPrefixOf_iff_prefix] at h
  obtain ⟨hhost, h⟩ := h
  refine ⟨by simpa using hhost, ?_⟩
  obtain ((h | h) | rfl) | ⟨lit, hlit, rest, hu⟩ := h
  · exact .inl h
  · exact .inr (.inl h)
  · exact .inr (.inr ⟨name, by simp [stems], '.', by simp, "service".toList, by simp⟩)
  · simp only [List.mem_cons, List.not_mem_nil, or_false] at hlit
    obtain rfl | rfl | rfl | rfl := hlit
    · exact .inr (.inr ⟨name, by simp [stems], '-', by simp, rest, by simp [← hu]⟩)
    · exact .inr (.inr ⟨name, by simp [stems], '@', by simp, rest, by simp [← hu]⟩)
    · exact .inr (.inr ⟨"ndimon-" ++ name, by simp [stems], '.', by simp, rest, by simp [← hu]⟩)
    · exact .inr (.inr ⟨"ndimon-" ++ name, by simp [stems], '-', by simp, rest, by simp [← hu]⟩)

theorem permitted_of_stem {name : PluginName} {stem unit : String} (hs : stem ∈ stems name)
    (hp : stem.toList ++ ['-'] <+: unit.toList) (hhost : unit ∉ hostUnits) :
    permittedService name unit = true := by
  simp only [permittedService, Bool.and_eq_true, Bool.or_eq_true, Bool.not_eq_eq_eq_not,
    Bool.not_true, List.any_eq_true, startsWithText, List.isPrefixOf_iff_prefix]
  refine ⟨by simpa using hhost, .inr ⟨stem ++ "-", ?_, by simpa using hp⟩⟩
  simp only [stems, List.mem_cons, List.not_mem_nil, or_false] at hs
  obtain rfl | rfl := hs <;> simp

/-- Two stems that start one unit at their separators: the shorter one ends at a dash of the
other, because a stem has no other separator inside. -/
theorem covers_of_common {r s : String} {c d : Char} {x y : List Char}
    (hr : ∀ c ∈ r.toList, c ≠ '.' ∧ c ≠ '@') (hs : ∀ c ∈ s.toList, c ≠ '.' ∧ c ≠ '@')
    (hc : c ∈ ['.', '-', '@']) (hd : d ∈ ['.', '-', '@'])
    (h : r.toList ++ c :: x = s.toList ++ d :: y) : Covers r s ∨ Covers s r := by
  have dash : ∀ {r s : String} {c d : Char} {x y t : List Char},
      (∀ c ∈ s.toList, c ≠ '.' ∧ c ≠ '@') → c ∈ ['.', '-', '@'] → s.toList = r.toList ++ t →
      c :: x = t ++ d :: y → Covers r s := by
    intro r s c d x y t hs hc hst hx
    cases t with
    | nil => exact .inl (String.toList_inj.mp (by simpa using hst.symm))
    | cons e t =>
      obtain ⟨rfl, -⟩ := List.cons.inj hx
      have := hs c (by simp [hst])
      have hdash : c = '-' := by simp_all
      subst hdash
      exact .inr ⟨t, by simp [hst]⟩
  obtain ⟨t, hst, hx⟩ | ⟨t, hrt, hy⟩ := List.append_eq_append_iff.mp h
  · exact .inl (dash hs hc hst hx)
  · exact .inr (dash hr hd hrt hy)

/-- A unit without dash or at sign has one stem, what precedes its dot. -/
theorem stem_of_plain_unit {name : PluginName} {stem : String} (hs : stem ∈ stems name)
    {unit : List Char} {sep : Char} {rest : List Char} (hsep : sep ∈ ['.', '-', '@'])
    (hunit : ∀ c ∈ unit, c ≠ '-' ∧ c ≠ '@') (h : unit = stem.toList ++ sep :: rest) :
    stem.toList = unit.takeWhile (· ≠ '.') := by
  have hdot : sep = '.' := by
    have := hunit sep (by simp [h])
    simp_all
  subst hdot
  rw [h, List.takeWhile_append_of_pos (by simpa using fun c hc => (stem_plain hs c hc).1)]
  simp

/-- Only one plugin name has a stem `x` that does not start with the firmware's own prefix. -/
theorem name_of_stem {name : PluginName} {stem x : String} (hs : stem ∈ stems name)
    (h : stem = x) (hx : ¬ "ndimon-".toList <+: x.toList) : name.val = x := by
  subst h
  simp only [stems, List.mem_cons, List.not_mem_nil, or_false] at hs
  obtain rfl | rfl := hs
  · rfl
  · simp at hx

theorem related_symm {a b : PluginName} (h : Related a b) : Related b a := by
  obtain ⟨r, hr, s, hs, h⟩ | h | h := h
  · exact .inl ⟨s, hs, r, hr, h.symm⟩
  · exact .inr (.inr h)
  · exact .inr (.inl h)

/-- A unit reserved by name to `a` is in the scope of no other plugin than its namesake. -/
theorem related_of_reserved {a b : PluginName} {unit : String} (owner : String)
    (hpair : (a.val, owner) ∈ reservedPairs) (hunit : unit = owner ++ ".service")
    (hab : a ≠ b) (h : InScope b unit) : Related a b := by
  obtain ⟨ha, rfl⟩ | ⟨ha, rfl⟩ : (a.val = "tessera" ∧ owner = "tesserad") ∨
      (a.val = "bluetooth" ∧ owner = "bluealsa") := by
    simpa [reservedPairs] using hpair
  all_goals
    obtain ⟨hb, hu⟩ | ⟨hb, hu⟩ | ⟨s, hs, sep, hsep, rest, hu⟩ := h
  · exact absurd (Subtype.ext (ha.trans hb.symm)) hab
  · rw [hunit] at hu
    exact absurd hu (by decide)
  · have := stem_of_plain_unit hs hsep (by rw [hunit]; exact forall_chars (by decide)) hu
    have hb := name_of_stem hs (x := "tesserad")
      (String.toList_inj.mp (by rw [this, hunit]; decide)) (by decide)
    exact .inr (.inl (by rw [ha, hb]; simp [reservedPairs]))
  · rw [hunit] at hu
    exact absurd hu (by decide)
  · exact absurd (Subtype.ext (ha.trans hb.symm)) hab
  · have := stem_of_plain_unit hs hsep (by rw [hunit]; exact forall_chars (by decide)) hu
    have hb := name_of_stem hs (x := "bluealsa")
      (String.toList_inj.mp (by rw [this, hunit]; decide)) (by decide)
    exact .inr (.inl (by rw [ha, hb]; simp [reservedPairs]))

theorem related_of_common {a b : PluginName} {unit : String} (hab : a ≠ b)
    (ha : InScope a unit) (hb : InScope b unit) : Related a b := by
  obtain ⟨han, hu⟩ | ⟨han, hu⟩ | ⟨r, hr, c, hc, x, hx⟩ := ha
  · exact related_of_reserved "tesserad" (by simp [reservedPairs, han]) hu hab hb
  · exact related_of_reserved "bluealsa" (by simp [reservedPairs, han]) hu hab hb
  · obtain ⟨hbn, hu⟩ | ⟨hbn, hu⟩ | ⟨s, hs, d, hd, y, hy⟩ := hb
    · exact related_symm (related_of_reserved "tesserad"
        (by simp [reservedPairs, hbn]) hu hab.symm (.inr (.inr ⟨r, hr, c, hc, x, hx⟩)))
    · exact related_symm (related_of_reserved "bluealsa"
        (by simp [reservedPairs, hbn]) hu hab.symm (.inr (.inr ⟨r, hr, c, hc, x, hx⟩)))
    · exact .inl ⟨r, hr, s, hs, covers_of_common (stem_plain hr) (stem_plain hs) hc hd
        (hx.symm.trans hy)⟩

/-- A unit both plugins may declare, when the stem `r` of one covers the stem `s` of the other. -/
def sharedUnit (s : String) : String := s ++ "-0.service"

theorem sharedUnit_not_host (s : String) : sharedUnit s ∉ hostUnits := by
  have hsuffix : ∀ unit ∈ hostUnits, ¬ "-0.service".toList <:+ unit.toList := by decide
  intro h
  exact hsuffix _ h ⟨s.toList, by simp [sharedUnit]⟩

theorem pluginUnit_sharedUnit {name : PluginName} {s : String} (hs : s ∈ stems name) :
    pluginUnit (sharedUnit s) = true := by
  have hname := name.2
  simp only [plugin, all, Bool.and_eq_true, List.all_eq_true] at hname
  obtain ⟨⟨hlen, -⟩, hchars⟩ := hname
  have hlen : name.val.utf8ByteSize ≤ 32 := (of_decide_eq_true hlen).2
  have hunit : ∀ c ∈ name.val.toList,
      (isAsciiAlphanumeric c || "_@.-".toList.contains c) = true := by
    intro c hc
    have := hchars c hc
    simp only [Bool.or_eq_true, beq_iff_eq] at this
    obtain (h | h) | rfl := this
    · simp [isAsciiAlphanumeric, isAsciiAlphabetic, h]
    · simp [isAsciiAlphanumeric, h]
    · decide
  have hprefix : ∀ c ∈ "ndimon-".toList,
      (isAsciiAlphanumeric c || "_@.-".toList.contains c) = true :=
    forall_chars (by decide)
  have hsuffix : ∀ c ∈ "-0.service".toList,
      (isAsciiAlphanumeric c || "_@.-".toList.contains c) = true :=
    forall_chars (by decide)
  have h₁ : "ndimon-".utf8ByteSize = 7 := by decide
  have h₂ : "-0.service".utf8ByteSize = 10 := by decide
  simp only [pluginUnit, Bool.and_eq_true, endsWithText, List.isSuffixOf_iff_suffix, all,
    List.all_eq_true]
  simp only [stems, List.mem_cons, List.not_mem_nil, or_false] at hs
  obtain rfl | rfl := hs
  · refine ⟨⟨decide_eq_true ?_, ⟨(name.val ++ "-0").toList, by simp [sharedUnit]⟩⟩, ?_⟩
    · simp only [len, sharedUnit, String.utf8ByteSize_append]
      omega
    · intro c hc
      rw [sharedUnit, String.toList_append, List.mem_append] at hc
      exact hc.elim (hunit c) (hsuffix c)
  · refine ⟨⟨decide_eq_true ?_, ⟨("ndimon-" ++ name.val ++ "-0").toList, by
      simp [sharedUnit]⟩⟩, ?_⟩
    · simp only [len, sharedUnit, String.utf8ByteSize_append]
      omega
    · intro c hc
      rw [sharedUnit, String.toList_append, String.toList_append, List.mem_append,
        List.mem_append] at hc
      obtain (hc | hc) | hc := hc
      · exact hprefix c hc
      · exact hunit c hc
      · exact hsuffix c hc

theorem permitted_of_covers {a b : PluginName} {r s : String} (hr : r ∈ stems a)
    (hs : s ∈ stems b) (h : Covers r s) :
    permittedService a (sharedUnit s) = true ∧ permittedService b (sharedUnit s) = true := by
  have hstem : s.toList ++ ['-'] <+: (sharedUnit s).toList := ⟨"0.service".toList, by
    simp [sharedUnit]⟩
  refine ⟨permitted_of_stem hr ?_ (sharedUnit_not_host s),
    permitted_of_stem hs hstem (sharedUnit_not_host s)⟩
  obtain rfl | h := h
  · exact hstem
  · exact h.trans ((List.prefix_append _ _).trans hstem)

theorem common_of_related {a b : PluginName} (h : Related a b) :
    ∃ unit : PluginUnit, permittedService a unit = true ∧ permittedService b unit = true := by
  obtain ⟨r, hr, s, hs, h | h⟩ | h | h := h
  · exact ⟨⟨sharedUnit s, pluginUnit_sharedUnit hs⟩, permitted_of_covers hr hs h⟩
  · exact ⟨⟨sharedUnit r, pluginUnit_sharedUnit hr⟩, (permitted_of_covers hs hr h).symm⟩
  · simp only [reservedPairs, List.mem_cons, List.not_mem_nil, or_false, Prod.mk.injEq] at h
    obtain ⟨ha, hb⟩ | ⟨ha, hb⟩ := h
    · exact ⟨⟨"tesserad.service", by decide⟩, by rw [ha]; decide, by rw [hb]; decide⟩
    · exact ⟨⟨"bluealsa.service", by decide⟩, by rw [ha]; decide, by rw [hb]; decide⟩
  · simp only [reservedPairs, List.mem_cons, List.not_mem_nil, or_false, Prod.mk.injEq] at h
    obtain ⟨hb, ha⟩ | ⟨hb, ha⟩ := h
    · exact ⟨⟨"tesserad.service", by decide⟩, by rw [ha]; decide, by rw [hb]; decide⟩
    · exact ⟨⟨"bluealsa.service", by decide⟩, by rw [ha]; decide, by rw [hb]; decide⟩

/-! ### Writable paths -/

/-- The names along a path; empty ones and `.` do not count. -/
def components (path : String) : List String := (split '/' path).filter fun c => c ≠ "" ∧ c ≠ "."

/-- `path` is `dir` or lies below it. -/
def AtOrBelow (path dir : String) : Prop := components dir <+: components path

/-- The directories in which plugins have their own. -/
def baseDirs : List (List String) := [["run"], ["var", "lib"], ["etc"]]

/-- A directory of the firmware itself, or a path below one. -/
def FirmwareOwned (path : String) : Prop :=
  ∃ dir ∈ baseDirs, ∃ c rest, components path = dir ++ c :: rest ∧ startsWithText "ndimon" c = true

theorem components_slash (x y : List Char) :
    components (String.ofList (x ++ '/' :: y)) =
      components (String.ofList x) ++ components (String.ofList y) := by
  simp only [components, split, String.toList_ofList]
  rw [List.splitOnP_append_cons x y (by simp), List.map_append, List.filter_append]

theorem components_plain {x : String} (h : ∀ c ∈ x.toList, c ≠ '/') (hx : x ≠ "" ∧ x ≠ ".") :
    components x = [x] := by
  simp only [components, split]
  rw [List.splitOnP_eq_singleton (by simpa using h)]
  simp [hx]

/-- A path that starts with a literal has a component that does. -/
theorem components_starting (lit : String) (hslash : ∀ c ∈ lit.toList, c ≠ '/')
    (hlit : 2 ≤ lit.toList.length) (rest : List Char) :
    ∃ c more, startsWithText lit c = true ∧
      components (String.ofList (lit.toList ++ rest)) = c :: more := by
  let own := lit.toList ++ rest.takeWhile (· ≠ '/')
  have hc : startsWithText lit (String.ofList own) = true := by
    simp [startsWithText, List.isPrefixOf_iff_prefix, own]
  have hlength : 2 ≤ (String.ofList own).toList.length := by
    simp only [own, String.toList_ofList, List.length_append]
    omega
  have hplain : components (String.ofList own) = [String.ofList own] := by
    apply components_plain
    · intro c hc
      rw [String.toList_ofList, List.mem_append] at hc
      obtain hc | hc := hc
      · exact hslash c hc
      · simpa using List.mem_takeWhile_imp hc
    · constructor <;> intro h <;> rw [h] at hlength <;> revert hlength <;> decide
  cases hr : rest.dropWhile (· ≠ '/') with
  | nil =>
    have hrest : rest.takeWhile (· ≠ '/') = rest := by
      have := List.takeWhile_append_dropWhile (p := (· ≠ '/')) (l := rest)
      rwa [hr, List.append_nil] at this
    exact ⟨_, [], hc, by rw [← hplain]; simp only [own, hrest]⟩
  | cons d more =>
    have hd : d = '/' := by
      have := List.head?_dropWhile_not (· ≠ '/') rest
      rw [hr] at this
      simpa using this
    subst hd
    have hsplit : lit.toList ++ rest = own ++ '/' :: more := by
      rw [← hr, List.append_assoc, List.takeWhile_append_dropWhile]
    exact ⟨_, _, hc, by rw [hsplit, components_slash, hplain]; rfl⟩

/-- What follows a base comes after the components of its directory. -/
theorem components_under {base : String} (hbase : base ∈ writableBases) :
    ∃ dir ∈ baseDirs, ∀ tail : List Char,
      components (String.ofList (base.toList ++ tail)) = dir ++ components (String.ofList tail) := by
  simp only [writableBases, List.mem_cons, List.not_mem_nil, or_false] at hbase
  obtain rfl | rfl | rfl := hbase
  · exact ⟨["run"], by simp [baseDirs], fun tail => components_slash "/run".toList tail⟩
  · exact ⟨["var", "lib"], by simp [baseDirs], fun tail => components_slash "/var/lib".toList tail⟩
  · exact ⟨["etc"], by simp [baseDirs], fun tail => components_slash "/etc".toList tail⟩

theorem name_ne (name : PluginName) : name.val ≠ "" ∧ name.val ≠ "." := by
  constructor <;> intro h <;> have := name.2 <;> rw [h] at this <;> revert this <;> decide

/-- The component of a writable path below its base directory: the plugin's name, or for one
plugin what starts like it. -/
def OwnComponent (name : PluginName) (c : String) : Prop :=
  c = name.val ∨ name.val = "tessera" ∧ startsWithText "tessera" c = true

theorem writable_components {name : PluginName} {path : String}
    (h : writable name path = true) :
    ∃ dir ∈ baseDirs, ∃ c rest, components path = dir ++ c :: rest ∧ OwnComponent name c := by
  obtain ⟨base, hbase, h⟩ := List.any_eq_true.mp h
  obtain ⟨dir, hdir, htail⟩ := components_under hbase
  have hname : components name.val = [name.val] :=
    components_plain (fun c hc => (name_plain name c hc).2.2) (name_ne name)
  simp only [writableUnder, Bool.or_eq_true, Bool.and_eq_true, beq_iff_eq, startsWithText,
    List.isPrefixOf_iff_prefix] at h
  obtain (rfl | ⟨rest, hp⟩) | ⟨ht, rest, hp⟩ := h
  · refine ⟨dir, hdir, name, [], ?_, .inl rfl⟩
    have := htail name.val.toList
    simpa [← String.toList_append, hname] using this
  · refine ⟨dir, hdir, name, components (String.ofList rest), ?_, .inl rfl⟩
    have := htail (name.val.toList ++ '/' :: rest)
    rw [components_slash, String.ofList_toList, hname] at this
    rw [← String.ofList_toList (s := path), ← hp]
    simpa using this
  · obtain ⟨c, more, hc, hlist⟩ := components_starting "tessera" (forall_chars (by decide)) (by decide) rest
    refine ⟨dir, hdir, c, more, ?_, .inr ⟨ht, hc⟩⟩
    have := htail ("tessera".toList ++ rest)
    rw [hlist] at this
    rw [← String.ofList_toList (s := path), ← hp]
    simpa using this

theorem baseDirs_head {dir dir' : List String} (h : dir ∈ baseDirs) (h' : dir' ∈ baseDirs)
    {x y : List String} (hp : dir ++ x <+: dir' ++ y) : dir = dir' ∧ x <+: y := by
  simp only [baseDirs, List.mem_cons, List.not_mem_nil, or_false] at h h'
  obtain rfl | rfl | rfl := h <;> obtain rfl | rfl | rfl := h' <;>
    simp_all [List.cons_prefix_cons]

/-- Two plugins one of which may write whatever starts like the other's name. -/
def SharedWrites (a b : PluginName) : Prop :=
  a.val = "tessera" ∧ startsWithText "tessera" b = true ∨
    b.val = "tessera" ∧ startsWithText "tessera" a = true

instance (a b : PluginName) : Decidable (SharedWrites a b) := inferInstanceAs (Decidable (_ ∨ _))

theorem sharedWrites_of_below {a b : PluginName} {p q : String} (hab : a ≠ b)
    (hp : writable a p = true) (hq : writable b q = true) (h : AtOrBelow p q) :
    SharedWrites a b := by
  obtain ⟨dir, hdir, c, rest, hpc, hc⟩ := writable_components hp
  obtain ⟨dir', hdir', c', rest', hqc, hc'⟩ := writable_components hq
  unfold AtOrBelow at h
  rw [hpc, hqc] at h
  obtain ⟨-, h⟩ := baseDirs_head hdir' hdir h
  obtain ⟨rfl, -⟩ := List.cons_prefix_cons.mp h
  obtain rfl | ⟨ha, hc⟩ := hc
  · obtain h | ⟨hb, hc'⟩ := hc'
    · exact absurd (Subtype.ext h) hab
    · exact .inr ⟨hb, hc'⟩
  · obtain rfl | ⟨hb, -⟩ := hc'
    · exact .inl ⟨ha, hc⟩
    · exact absurd (Subtype.ext (ha.trans hb.symm)) hab

theorem writable_own (name : PluginName) : writable name ("/run/" ++ name.val) = true := by
  simp [writable, writableBases, writableUnder]

theorem writable_tessera {a b : PluginName} (ha : a.val = "tessera")
    (hb : startsWithText "tessera" b = true) : writable a ("/run/" ++ b.val) = true := by
  simp only [startsWithText, List.isPrefixOf_iff_prefix] at hb
  obtain ⟨rest, hb⟩ := hb
  simp [writable, writableBases, writableUnder, ha, startsWithText, ← hb]

theorem safeManifestPath_own (name : PluginName) :
    safeManifestPath ("/run/" ++ name.val) = true := by
  have hname := name.2
  simp only [plugin, all, Bool.and_eq_true, List.all_eq_true] at hname
  have hchars : ∀ c ∈ name.val.toList,
      (isAsciiAlphanumeric c || "_./-".toList.contains c) = true := by
    intro c hc
    have := hname.2 c hc
    simp only [Bool.or_eq_true, beq_iff_eq] at this
    obtain (h | h) | rfl := this
    · simp [isAsciiAlphanumeric, isAsciiAlphabetic, h]
    · simp [isAsciiAlphanumeric, h]
    · decide
  have hbase : ∀ c ∈ "/run/".toList,
      (isAsciiAlphanumeric c || "_./-".toList.contains c) = true :=
    forall_chars (by decide)
  have hsplit : split '/' ("/run/" ++ name.val) = ["", "run", name.val] := by
    have hplain : name.val.toList.splitOnP (· == '/') = [name.val.toList] :=
      List.splitOnP_eq_singleton (by simpa using fun c hc => (name_plain name c hc).2.2)
    rw [split, String.toList_append, show "/run/".toList = "/run".toList ++ '/' :: [] from rfl,
      List.append_assoc, List.cons_append, List.splitOnP_append_cons _ _ (by simp), List.nil_append,
      hplain]
    have hrun : "/run".toList.splitOnP (· == '/') = [[], "run".toList] := by decide
    rw [hrun]
    simp
  have hdots : name.val ≠ ".." := by
    intro h
    rw [h] at hname
    revert hname
    decide
  simp only [safeManifestPath, Bool.and_eq_true, all, List.all_eq_true, hsplit]
  refine ⟨⟨⟨by simp [startsWith], decide_eq_true ?_⟩, ?_⟩, ?_⟩
  · have h : "/run/".utf8ByteSize = 5 := by decide
    simp only [len, String.utf8ByteSize_append]
    omega
  · intro c hc
    rw [String.toList_append, List.mem_append] at hc
    exact hc.elim (hbase c) (hchars c)
  · simpa using hdots.symm

theorem below_of_sharedWrites {a b : PluginName} (h : SharedWrites a b) :
    ∃ p, safeManifestPath p = true ∧ writable a p = true ∧ writable b p = true := by
  obtain ⟨ha, hb⟩ | ⟨hb, ha⟩ := h
  · exact ⟨_, safeManifestPath_own b, writable_tessera ha hb, writable_own b⟩
  · exact ⟨_, safeManifestPath_own a, writable_own a, writable_tessera hb ha⟩

/-! ### Accepted manifests -/

variable (floatLen : ℚ → Nat)

/-- Some manifest accepted under the name declares the unit. -/
def Declares (name : PluginName) (unit : PluginUnit) : Prop :=
  ∃ (m : Manifest) (expected : Option DebianVersion),
    m.validate floatLen name expected = .ok () ∧ unit ∈ m.services

/-- Some manifest accepted under the name may write the path. -/
def Writes (name : PluginName) (path : String) : Prop :=
  ∃ (m : Manifest) (expected : Option DebianVersion),
    m.validate floatLen name expected = .ok () ∧ path ∈ m.readwritePaths

def oldest : DebianVersion := ⟨"0", by decide⟩

/-- The shortest manifest that declares the units and the paths. -/
def bare (name : PluginName) (services : List PluginUnit) (readwritePaths : List String) :
    Manifest :=
  { name, version := oldest, title := "Plugin", minNdimon := oldest, services, readwritePaths }

theorem bare_accepted {name : PluginName} {services : List PluginUnit} {paths : List String}
    (hs : services.Nodup) (hp : paths.Nodup)
    (hunits : ∀ unit ∈ services, permittedService name unit = true)
    (hpaths : ∀ path ∈ paths, safeManifestPath path = true ∧ writable name path = true) :
    (bare name services paths).validate floatLen name none = .ok () := by
  have hentry : ∀ s ∈ (bare name services paths).entryFiles, simpleFile s = true := by
    change ∀ s ∈ ["routes.js", "ui.html", "install.sh", "uninstall.sh", "backup.js"], _
    decide
  rw [Manifest.validate_ok_iff]
  have htitle : 1 ≤ chars "Plugin" ∧ chars "Plugin" ≤ 40 := by decide
  have hicon : Manifest.iconRefused "bi-puzzle" = false := by decide
  refine ⟨rfl, by simp, htitle, hicon, hentry, ⟨List.nodup_nil, hs, List.nodup_nil, hp,
    List.nodup_nil⟩, by simp [bare], hunits, ?_, fun path h => (hpaths path h).2, rfl⟩
  intro path h
  exact (hpaths path (by simpa [bare] using h)).1

theorem declares_iff {name : PluginName} {unit : PluginUnit} :
    Declares floatLen name unit ↔ permittedService name unit = true := by
  constructor
  · intro ⟨m, expected, hm, hunit⟩
    obtain ⟨-, -, -, -, -, -, -, hunits, -⟩ := Manifest.validate_ok_iff.mp hm
    exact hunits unit hunit
  · intro h
    exact ⟨bare name [unit] [], none,
      bare_accepted floatLen (List.nodup_singleton _) List.nodup_nil (by simpa using h) (by simp),
      List.mem_singleton_self _⟩

theorem writes_iff {name : PluginName} {path : String} :
    Writes floatLen name path ↔ safeManifestPath path = true ∧ writable name path = true := by
  constructor
  · intro ⟨m, expected, hm, hpath⟩
    obtain ⟨-, -, -, -, -, -, -, -, hsafe, hwritable, -⟩ := Manifest.validate_ok_iff.mp hm
    exact ⟨hsafe path (List.mem_append_right _ hpath), hwritable path hpath⟩
  · intro h
    exact ⟨bare name [] [path], none,
      bare_accepted floatLen List.nodup_nil (List.nodup_singleton _) (by simp) (by simpa using h),
      List.mem_singleton_self _⟩

theorem not_socket (unit : PluginUnit) : endsWithText ".socket" unit = false := by
  have h := unit.2
  simp only [pluginUnit, Bool.and_eq_true, endsWithText, List.isSuffixOf_iff_suffix] at h
  rw [← Bool.not_eq_true, endsWithText, List.isSuffixOf_iff_suffix]
  intro h'
  have := List.suffix_or_suffix_of_suffix h.1.2 h'
  revert this
  decide

theorem not_firmwareOwned {name : PluginName} {path : String}
    (hname : startsWithText "ndimon" name = false) (h : writable name path = true) :
    ¬ FirmwareOwned path := by
  intro ⟨dir', hdir', c', rest', hc', hown⟩
  obtain ⟨dir, hdir, c, rest, hpath, hc⟩ := writable_components h
  rw [hpath] at hc'
  obtain ⟨-, hx⟩ := baseDirs_head hdir hdir' (x := c :: rest) (y := c' :: rest')
    (hc' ▸ List.prefix_rfl)
  obtain ⟨rfl, -⟩ := List.cons_prefix_cons.mp hx
  obtain rfl | ⟨-, ht⟩ := hc
  · rw [hname] at hown
    cases hown
  · simp only [startsWithText, List.isPrefixOf_iff_prefix] at hown ht
    have := List.prefix_or_prefix_of_prefix hown ht
    revert this
    decide

/-- What two plugins can share, and what none can have. -/
theorem scopes_related (a b : PluginName) (hab : a ≠ b) :
    (∀ unit, Declares floatLen a unit →
      unit.val ∉ hostUnits ∧ endsWithText ".socket" unit = false ∧ InScope a unit) ∧
    ((∃ unit, Declares floatLen a unit ∧ Declares floatLen b unit) ↔ Related a b) ∧
    ((∃ p q, Writes floatLen a p ∧ Writes floatLen b q ∧ AtOrBelow p q) ↔ SharedWrites a b) ∧
    (startsWithText "ndimon" a = false → ∀ p, Writes floatLen a p → ¬ FirmwareOwned p) ∧
    (∀ (host : Host) (unit : PluginUnit) (action : UnitAction) (argv : List String),
      host.service floatLen unit action = .ok argv →
      ∃ (owner : PluginName) (m : Manifest) (entries : List (Except Error PluginEntry))
          (entry : PluginEntry),
        host.plugins = .ok entries ∧ .ok entry ∈ entries ∧ entry.fileName = owner.val ∧
        entry.broken = false ∧ entry.manifest = .ok m ∧
        m.validate floatLen owner none = .ok () ∧ unit ∈ m.services ∧ unit.val ∉ hostUnits ∧
        ∀ other, Declares floatLen other unit → other = owner ∨ Related owner other) := by
  refine ⟨?_, ⟨?_, ?_⟩, ⟨?_, ?_⟩, ?_, ?_⟩
  · intro unit h
    obtain ⟨hhost, hscope⟩ := permitted_inScope ((declares_iff floatLen).mp h)
    exact ⟨hhost, not_socket unit, hscope⟩
  · intro ⟨unit, ha, hb⟩
    exact related_of_common hab (permitted_inScope ((declares_iff floatLen).mp ha)).2
      (permitted_inScope ((declares_iff floatLen).mp hb)).2
  · intro h
    obtain ⟨unit, ha, hb⟩ := common_of_related h
    exact ⟨unit, (declares_iff floatLen).mpr ha, (declares_iff floatLen).mpr hb⟩
  · intro ⟨p, q, hp, hq, h⟩
    exact sharedWrites_of_below hab ((writes_iff floatLen).mp hp).2 ((writes_iff floatLen).mp hq).2 h
  · intro h
    obtain ⟨p, hsafe, ha, hb⟩ := below_of_sharedWrites h
    exact ⟨p, p, (writes_iff floatLen).mpr ⟨hsafe, ha⟩, (writes_iff floatLen).mpr ⟨hsafe, hb⟩,
      List.prefix_rfl⟩
  · intro hname p h
    exact not_firmwareOwned hname ((writes_iff floatLen).mp h).2
  · intro host unit action argv h
    obtain ⟨owner, m, hm, hunit, entries, hentries, entry, hentry, hfile, -, hbroken, hman⟩ :=
      Host.service_ok h
    have howner : Declares floatLen owner unit := ⟨m, none, hm, hunit⟩
    have hscope := permitted_inScope ((declares_iff floatLen).mp howner)
    refine ⟨owner, m, entries, entry, hentries, hentry, hfile, hbroken, hman, hm, hunit,
      hscope.1, ?_⟩
    intro other hother
    by_cases hne : owner = other
    · exact .inl hne.symm
    · exact .inr (related_of_common hne hscope.2
        (permitted_inScope ((declares_iff floatLen).mp hother)).2)

def audioName : PluginName := ⟨"audio", by decide⟩

def audioCueName : PluginName := ⟨"audio-cue", by decide⟩

/-- A name that goes on with a dash is inside the scope of the shorter name. -/
theorem units_disjoint_false :
    ¬ ∀ a b : PluginName, a ≠ b →
      ∀ unit, ¬ (Declares (fun _ => 0) a unit ∧ Declares (fun _ => 0) b unit) := by
  intro h
  refine h audioName audioCueName (by decide) ⟨"audio-cue.service", by decide⟩ ⟨?_, ?_⟩
  · exact (declares_iff _).mpr (by decide)
  · exact (declares_iff _).mpr (by decide)

def midiName : PluginName := ⟨"midi", by decide⟩

theorem scopes_related_audio_midi :
    (¬ ∃ unit, Declares (fun _ => 0) audioName unit ∧ Declares (fun _ => 0) midiName unit) ∧
    ¬ ∃ p q, Writes (fun _ => 0) audioName p ∧ Writes (fun _ => 0) midiName q ∧ AtOrBelow p q := by
  obtain ⟨-, hunits, hpaths, -, -⟩ := scopes_related (fun _ => 0) audioName midiName (by decide)
  exact ⟨fun h => absurd (hunits.mp h) (by decide), fun h => absurd (hpaths.mp h) (by decide)⟩

end NdimonR.Privd
