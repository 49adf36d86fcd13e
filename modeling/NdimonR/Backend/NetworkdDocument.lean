import NdimonR.Backend.Networkd

/-! The files as documents: sections of assignments. What is written of a document reads back as
its entries, and the import's filter only takes its VLAN list away. -/

namespace NdimonR.Backend.Networkd

open Types Text Engine Backend

/-! ### Documents -/

abbrev Assignment := String × String

structure Section where
  name : String
  assignments : List Assignment

def assign (a : Assignment) : String := a.1 ++ "=" ++ a.2

def Section.lines (s : Section) : List String :=
  ("[" ++ s.name ++ "]") :: s.assignments.map assign

/-- A blank line stands between two sections. -/
def document : List Section → List String
  | [] => []
  | [s] => s.lines
  | s :: t :: rest => s.lines ++ "" :: document (t :: rest)

def Section.entries (s : Section) : List Entry :=
  ⟨s.name, "", ""⟩ :: s.assignments.map fun a => ⟨s.name, a.1, a.2⟩

/-- A name of a section or a key: a word that starts neither a comment nor a header. -/
structure Key (k : String) : Prop where
  word : Word k
  plain : any (fun c => c == '=' || c == '#' || c == ';' || c == '[' || c == '\\') k = false

/-- A value that trimming leaves alone and that does not continue on the next line. -/
structure Value (v : String) : Prop where
  single : '\n' ∉ v.toList
  start : startsWith isWhitespace v = false
  ended : endsWith isWhitespace v = false
  complete : endsWith (· == '\\') v = false

structure Section.Plain (s : Section) : Prop where
  name : '\n' ∉ s.name.toList
  keys : ∀ a ∈ s.assignments, Key a.1
  values : ∀ a ∈ s.assignments, Value a.2

theorem Value.trim {v : String} (h : Value v) : trim v = v := trim_eq_self h.start h.ended

theorem value_of_word {v : String} (h : Word v) (hb : '\\' ∉ v.toList) : Value v where
  single hm := by
    have := h.not_mem _ hm
    revert this
    decide
  start := by
    unfold startsWith
    cases hl : v.toList with
    | nil => rfl
    | cons c rest => simpa using h.not_mem c (by simp [hl])
  ended := by
    unfold endsWith
    cases hl : v.toList.getLast? with
    | none => rfl
    | some c => simpa using h.not_mem c (List.mem_of_getLast? hl)
  complete := by
    unfold endsWith
    cases hl : v.toList.getLast? with
    | none => rfl
    | some c =>
      have hc : c ≠ '\\' := ne_of_mem_of_not_mem (List.mem_of_getLast? hl) hb
      simpa using hc

theorem endsWith_assign {p : Char → Bool} {a : Assignment} (hp : p '=' = false)
    (h : endsWith p a.2 = false) : endsWith p (assign a) = false := by
  unfold assign
  by_cases hv : a.2 = ""
  · rw [hv, String.append_empty, endsWith_append _ (by simp)]
    exact hp
  · rw [endsWith_append _ hv, h]

theorem Key.start {k : String} (h : Key k) {c : Char}
    (hc : c = '#' ∨ c = ';' ∨ c = '[') : startsWith (· == c) k = false := by
  have hplain := h.plain
  unfold startsWith
  cases hl : k.toList with
  | nil => rfl
  | cons d rest =>
    simp only [any, hl, List.any_cons, Bool.or_eq_false_iff] at hplain
    rcases hc with rfl | rfl | rfl
    · simpa using hplain.1.1.1.1.2
    · simpa using hplain.1.1.1.2
    · simpa using hplain.1.1.2

theorem Key.not_mem {k : String} (h : Key k) {c : Char} (hc : c = '=' ∨ c = '\\') :
    c ∉ k.toList := by
  intro hm
  have hplain := h.plain
  rw [any, List.any_eq_false] at hplain
  have := hplain c hm
  rcases hc with rfl | rfl <;> simp at this

/-! ### What the reader makes of the lines -/

theorem line_assign {a : Assignment} (hk : Key a.1) (hv : Value a.2) : Line (assign a) where
  single := by
    have hkey : '\n' ∉ a.1.toList := hk.word.line.single
    have hvalue := hv.single
    simp [assign, hkey, hvalue]
  ended := endsWith_assign rfl (by
    have hend := hv.ended
    unfold endsWith at hend ⊢
    cases hl : a.2.toList.getLast? with
    | none => rfl
    | some c =>
      rw [hl] at hend
      by_cases hc : c = '\r'
      · subst hc
        revert hend
        decide
      · simpa using hc)

theorem trim_assign {a : Assignment} (hk : Key a.1) (hv : Value a.2) :
    trim (assign a) = assign a := by
  apply trim_eq_self
  · rw [assign, String.append_assoc, startsWith_append _ hk.word.nonempty]
    exact (value_of_word hk.word (hk.not_mem (.inr rfl))).start
  · exact endsWith_assign rfl hv.ended

theorem isHeader_assign {a : Assignment} (hk : Key a.1) : isHeader (assign a) = false := by
  rw [isHeader, assign, String.append_assoc, startsWith_append _ hk.word.nonempty,
    hk.start (.inr (.inr rfl)), Bool.false_and]

theorem iniLines_assign {a : Assignment} (hk : Key a.1) (hv : Value a.2) {s : String}
    {ls : List String} {es : List Entry} (h : iniLines s ls = .ok es) :
    iniLines s (assign a :: ls) = .ok (⟨s, a.1, a.2⟩ :: es) := by
  have hcomplete : endsWith (· == '\\') (assign a) = false := endsWith_assign rfl hv.complete
  have hsplit : splitOnce "=" (assign a) = some (a.1, a.2) :=
    splitOnce_append rfl (hk.not_mem (.inl rfl))
  have htrim : trim a.1 = a.1 := hk.word.trim
  simp [iniLines, hcomplete, isHeader_assign hk, hsplit, h, htrim, hv.trim, bind, Except.bind]

def headerLine (name : String) : String := "[" ++ name ++ "]"

theorem toList_headerLine (name : String) :
    (headerLine name).toList = '[' :: (name.toList ++ [']']) := by
  simp [headerLine]

theorem headerLine_start (p : Char → Bool) (name : String) :
    startsWith p (headerLine name) = p '[' := by
  simp [startsWith, toList_headerLine]

theorem headerLine_end (p : Char → Bool) (name : String) :
    endsWith p (headerLine name) = p ']' := by
  have hl : '[' :: (name.toList ++ [']']) = ('[' :: name.toList) ++ [']'] := rfl
  rw [endsWith, toList_headerLine, hl, List.getLast?_concat]
  rfl

theorem line_header {name : String} (h : '\n' ∉ name.toList) : Line (headerLine name) where
  single := by
    rw [toList_headerLine]
    simpa using h
  ended := headerLine_end _ _

theorem iniLines_header {s name : String} {ls : List String} {es : List Entry}
    (h : iniLines name ls = .ok es) :
    iniLines s (headerLine name :: ls) = .ok (⟨name, "", ""⟩ :: es) := by
  have hname : headerName (headerLine name) = name := by
    apply String.toList_inj.mp
    simp [headerName, toList_headerLine]
  have hheader : isHeader (headerLine name) = true := by
    simp [isHeader, headerLine_start, headerLine_end]
  have hcomplete : endsWith (· == '\\') (headerLine name) = false := headerLine_end _ _
  simp [iniLines, hcomplete, hheader, hname, h, bind, Except.bind]

/-- The lines that count. -/
def content (ls : List String) : List String :=
  (ls.map trim).filter fun l => l ≠ "" && !startsWith (fun c => c == '#' || c == ';') l

theorem content_append (a b : List String) : content (a ++ b) = content a ++ content b := by
  simp [content]

theorem content_assign {a : Assignment} (hk : Key a.1) (hv : Value a.2) (ls : List String) :
    content (assign a :: ls) = assign a :: content ls := by
  have hne : assign a ≠ "" := by
    intro h
    have := congrArg String.toList h
    simp [assign] at this
  have hstart : startsWith (fun c => c == '#' || c == ';') (assign a) = false := by
    rw [assign, String.append_assoc, startsWith_append _ hk.word.nonempty]
    have hhash := hk.start (c := '#') (.inl rfl)
    have hsemi := hk.start (c := ';') (.inr (.inl rfl))
    unfold startsWith at *
    cases hl : a.1.toList with
    | nil => rfl
    | cons c rest =>
      simp only [hl, List.head?_cons, Option.any_some] at hhash hsemi
      simp [hhash, hsemi]
  simp [content, trim_assign hk hv, hne, hstart]

theorem content_header (name : String) (ls : List String) :
    content (headerLine name :: ls) = headerLine name :: content ls := by
  have htrim : trim (headerLine name) = headerLine name :=
    trim_eq_self (headerLine_start _ _) (headerLine_end _ _)
  have hne : headerLine name ≠ "" := by
    intro h
    have := congrArg String.toList h
    simp [headerLine] at this
  simp [content, htrim, hne, headerLine_start]

theorem content_blank (ls : List String) : content ("" :: ls) = content ls := by
  have htrim : trim "" = "" := rfl
  simp [content, htrim]

theorem section_entries {s : Section} (h : s.Plain) {before : String} {ls : List String}
    {es : List Entry} (hrest : iniLines s.name (content ls) = .ok es) :
    iniLines before (content (s.lines ++ ls)) = .ok (s.entries ++ es) := by
  have hassignments : ∀ {l : List Assignment}, (∀ a ∈ l, Key a.1 ∧ Value a.2) →
      iniLines s.name (content (l.map assign ++ ls)) =
        .ok (l.map (fun a => ⟨s.name, a.1, a.2⟩) ++ es) := by
    intro l hl
    induction l with
    | nil => simpa using hrest
    | cons a l ih =>
      obtain ⟨hk, hv⟩ := hl a List.mem_cons_self
      have htail := ih fun b hb => hl b (List.mem_cons_of_mem a hb)
      rw [List.map_cons, List.cons_append, content_assign hk hv]
      exact iniLines_assign hk hv htail
  change iniLines before (content (headerLine s.name :: (s.assignments.map assign ++ ls))) = _
  rw [content_header]
  exact iniLines_header (hassignments fun a ha => ⟨h.keys a ha, h.values a ha⟩)

theorem document_entries {d : List Section} (h : ∀ s ∈ d, s.Plain) (before : String) :
    iniLines before (content (document d)) = .ok (d.flatMap Section.entries) := by
  induction d generalizing before with
  | nil => rfl
  | cons s rest ih =>
    have hs := h s List.mem_cons_self
    cases rest with
    | nil =>
      have hsection : iniLines before (content (s.lines ++ [])) = .ok (s.entries ++ []) :=
        section_entries hs rfl
      simpa [document] using hsection
    | cons t rest =>
      have hrest := ih (fun u hu => h u (List.mem_cons_of_mem s hu)) s.name
      rw [document, List.flatMap_cons]
      apply section_entries hs
      rw [content_blank]
      exact hrest

theorem document_lines {d : List Section} (h : ∀ s ∈ d, s.Plain) : ∀ l ∈ document d, Line l := by
  have hsection : ∀ s ∈ d, ∀ l ∈ s.lines, Line l := by
    intro s hs l hl
    rcases List.mem_cons.mp hl with rfl | hl
    · exact line_header (h s hs).name
    · obtain ⟨a, ha, rfl⟩ := List.mem_map.mp hl
      exact line_assign ((h s hs).keys a ha) ((h s hs).values a ha)
  have hblank : Line "" := ⟨by simp, rfl⟩
  induction d with
  | nil => simp [document]
  | cons s rest ih =>
    cases rest with
    | nil => simpa [document] using hsection s List.mem_cons_self
    | cons t rest =>
      have hrest := ih (fun u hu => h u (List.mem_cons_of_mem s hu))
        fun u hu => hsection u (List.mem_cons_of_mem s hu)
      rw [document, List.forall_mem_append, List.forall_mem_cons]
      exact ⟨hsection s List.mem_cons_self, hblank, hrest⟩

theorem ini_document {d : List Section} (h : ∀ s ∈ d, s.Plain) :
    ini (unlines (document d)) = .ok (d.flatMap Section.entries) := by
  have hsettings : settings (unlines (document d)) = content (document d) := by
    rw [settings, lines_unlines (document_lines h)]
    rfl
  rw [ini, hsettings]
  exact document_entries h ""

/-! ### The import's filter -/

/-- The section without its VLAN list. -/
def Section.withoutVlans (s : Section) : Section :=
  if s.name = "Network" then { s with assignments := s.assignments.filter fun a => a.1 ≠ "VLAN" }
  else s

theorem stripPrefix_assign {a : Assignment} (hk : Key a.1) :
    stripPrefix "VLAN=" (assign a) = if a.1 = "VLAN" then some a.2 else none := by
  have hlit : "VLAN=".toList = "VLAN".toList ++ ['='] := rfl
  have hchars : (assign a).toList = a.1.toList ++ '=' :: a.2.toList := by simp [assign]
  by_cases hv : a.1 = "VLAN"
  · rw [if_pos hv, stripPrefix, hchars, hlit, hv]
    simp
  · rw [if_neg hv, stripPrefix, hchars, hlit, if_neg]
    intro hstrip
    obtain ⟨t, ht⟩ := List.isPrefixOf_iff_prefix.mp hstrip
    have heq : "VLAN".toList ++ '=' :: t = a.1.toList ++ '=' :: a.2.toList := by
      simpa using ht
    have hcut : ∀ {x y : List Char}, '=' ∉ x → cut ['='] (x ++ '=' :: y) = some (x, y) := by
      intro x y hx
      simpa using cut_append y hx (show '=' ∉ ([] : List Char) by simp)
    have hpair := (hcut (by decide)).symm.trans
      ((congrArg (cut ['=']) heq).trans (hcut (hk.not_mem (.inl rfl))))
    simp only [Option.some.injEq, Prod.mk.injEq] at hpair
    exact hv (String.toList_inj.mp hpair.1.symm)

/-- The VLAN list of a document names only interfaces of the profile. -/
def OwnVlans (p : NetworkProfiles) (d : List Section) : Prop :=
  ∀ s ∈ d, s.name = "Network" → ∀ a ∈ s.assignments, a.1 = "VLAN" → a.2 ∈ names p

theorem withoutVlans_keep {p : NetworkProfiles} {«section» line : String}
    {rest kept : List String} (hstart : startsWith (· == '[') (trim line) = false)
    (hkeep : stripPrefix "VLAN=" (trim line) = none ∨ «section» ≠ "[Network]")
    (h : withoutVlans p «section» rest = .ok kept) :
    withoutVlans p «section» (line :: rest) = .ok (line :: kept) := by
  rw [withoutVlans]
  simp only [hstart, Bool.false_eq_true, if_false, h]
  cases hstrip : stripPrefix "VLAN=" (trim line) with
  | none => rfl
  | some value =>
    have hsection := hkeep.resolve_left (by simp [hstrip])
    simp only [if_neg hsection]
    rfl

theorem withoutVlans_drop {p : NetworkProfiles} {line value : String} {rest : List String}
    (hstart : startsWith (· == '[') (trim line) = false)
    (hstrip : stripPrefix "VLAN=" (trim line) = some value) (hv : value ∈ names p) :
    withoutVlans p "[Network]" (line :: rest) = withoutVlans p "[Network]" rest := by
  rw [withoutVlans]
  simp [hstart, hstrip, hv]

theorem withoutVlans_header {p : NetworkProfiles} {name before : String} {rest kept : List String}
    (h : withoutVlans p (headerLine name) rest = .ok kept) :
    withoutVlans p before (headerLine name :: rest) = .ok (headerLine name :: kept) := by
  have htrim : trim (headerLine name) = headerLine name :=
    trim_eq_self (headerLine_start _ _) (headerLine_end _ _)
  have hstrip : stripPrefix "VLAN=" (headerLine name) = none := by
    rw [stripPrefix, toList_headerLine]
    rfl
  rw [withoutVlans, htrim, hstrip]
  simp [headerLine_start, h, bind, Except.bind]

theorem withoutVlans_blank {p : NetworkProfiles} {before : String} {rest kept : List String}
    (h : withoutVlans p before rest = .ok kept) :
    withoutVlans p before ("" :: rest) = .ok ("" :: kept) :=
  withoutVlans_keep rfl (.inl rfl) h

theorem headerLine_inj {a b : String} : headerLine a = headerLine b ↔ a = b := by
  constructor
  · intro h
    have hlist := congrArg String.toList h
    simp only [toList_headerLine, List.cons.injEq, true_and] at hlist
    exact String.toList_inj.mp (List.append_cancel_right hlist)
  · rintro rfl
    rfl

theorem withoutVlans_section {p : NetworkProfiles} {s : Section} (h : s.Plain)
    (hown : s.name = "Network" → ∀ a ∈ s.assignments, a.1 = "VLAN" → a.2 ∈ names p)
    {before : String} {rest kept : List String}
    (hrest : withoutVlans p (headerLine s.name) rest = .ok kept) :
    withoutVlans p before (s.lines ++ rest) = .ok (s.withoutVlans.lines ++ kept) := by
  have hline : ∀ a ∈ s.assignments, startsWith (· == '[') (trim (assign a)) = false ∧
      stripPrefix "VLAN=" (trim (assign a)) = if a.1 = "VLAN" then some a.2 else none := by
    intro a ha
    have hk := h.keys a ha
    rw [trim_assign hk (h.values a ha), stripPrefix_assign hk, assign, String.append_assoc,
      startsWith_append _ hk.word.nonempty]
    exact ⟨hk.start (.inr (.inr rfl)), rfl⟩
  by_cases hname : s.name = "Network"
  · have hassignments : ∀ {l : List Assignment}, (∀ a ∈ l, a ∈ s.assignments) →
        withoutVlans p "[Network]" (l.map assign ++ rest) =
          .ok ((l.filter fun a => a.1 ≠ "VLAN").map assign ++ kept) := by
      intro l hl
      induction l with
      | nil =>
        rw [hname] at hrest
        exact hrest
      | cons a l ih =>
        have ha := hl a List.mem_cons_self
        obtain ⟨hstart, hstrip⟩ := hline a ha
        have htail := ih fun b hb => hl b (List.mem_cons_of_mem a hb)
        by_cases hvlan : a.1 = "VLAN"
        · rw [if_pos hvlan] at hstrip
          rw [List.map_cons, List.cons_append,
            withoutVlans_drop hstart hstrip (hown hname a ha hvlan), htail]
          simp [hvlan]
        · rw [if_neg hvlan] at hstrip
          rw [List.map_cons, List.cons_append, withoutVlans_keep hstart (.inl hstrip) htail]
          simp [hvlan]
    rw [← show headerLine s.name = "[Network]" by rw [hname]; rfl] at hassignments
    have hheader : withoutVlans p before (headerLine s.name :: (s.assignments.map assign ++ rest)) =
        .ok _ := withoutVlans_header (hassignments fun a ha => ha)
    simpa [Section.withoutVlans, Section.lines, headerLine, hname] using hheader
  · have hassignments : ∀ {l : List Assignment}, (∀ a ∈ l, a ∈ s.assignments) →
        withoutVlans p (headerLine s.name) (l.map assign ++ rest) =
          .ok (l.map assign ++ kept) := by
      intro l hl
      induction l with
      | nil => exact hrest
      | cons a l ih =>
        obtain ⟨hstart, -⟩ := hline a (hl a List.mem_cons_self)
        have hother : headerLine s.name ≠ "[Network]" := fun heq => hname (headerLine_inj.mp heq)
        exact withoutVlans_keep hstart (.inr hother)
          (ih fun b hb => hl b (List.mem_cons_of_mem a hb))
    have hheader : withoutVlans p before (headerLine s.name :: (s.assignments.map assign ++ rest)) =
        .ok _ := withoutVlans_header (hassignments fun a ha => ha)
    simpa [Section.withoutVlans, Section.lines, headerLine, hname] using hheader

theorem withoutVlans_document {p : NetworkProfiles} {d : List Section} (h : ∀ s ∈ d, s.Plain)
    (hown : OwnVlans p d) (before : String) :
    withoutVlans p before (document d) = .ok (document (d.map Section.withoutVlans)) := by
  induction d generalizing before with
  | nil => rfl
  | cons s rest ih =>
    have hs := h s List.mem_cons_self
    have hsown := hown s List.mem_cons_self
    cases rest with
    | nil =>
      have hsection : withoutVlans p before (s.lines ++ []) = .ok (s.withoutVlans.lines ++ []) :=
        withoutVlans_section hs hsown rfl
      simpa [document] using hsection
    | cons t rest =>
      have hrest := ih (fun u hu => h u (List.mem_cons_of_mem s hu))
        (fun u hu => hown u (List.mem_cons_of_mem s hu)) (headerLine s.name)
      rw [document, withoutVlans_section hs hsown (withoutVlans_blank hrest)]
      rfl

/-- Import reads the document without its VLAN list. -/
theorem filtered_document {p : NetworkProfiles} {d : List Section} (h : ∀ s ∈ d, s.Plain)
    (hown : OwnVlans p d) :
    filtered p (unlines (document d)) = .ok (unlines (document (d.map Section.withoutVlans))) := by
  rw [filtered, lines_unlines (document_lines h), withoutVlans_document h hown]
  rfl

end NdimonR.Backend.Networkd
