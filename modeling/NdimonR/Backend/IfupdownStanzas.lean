import NdimonR.Backend.Accepted
import NdimonR.Backend.Ifupdown

/-! Reading back the stanzas of a written file, alone and among other files. -/

namespace NdimonR.Backend.Ifupdown

open Types Text Engine Backend

/-! ### Lines -/

theorem mem_unwords {ws : List String} {c : Char} (h : c ∈ (unwords ws).toList) :
    c = ' ' ∨ ∃ w ∈ ws, c ∈ w.toList := by
  induction ws with
  | nil => simp [unwords] at h
  | cons w rest ih =>
    cases rest with
    | nil => exact .inr ⟨w, .head _, by simpa [unwords] using h⟩
    | cons v rest =>
      rw [toList_unwords_cons, List.mem_append, List.mem_cons] at h
      rcases h with h | rfl | h
      · exact .inr ⟨w, .head _, h⟩
      · exact .inl rfl
      · rcases ih h with hspace | ⟨u, hu, hc⟩
        · exact .inl hspace
        · exact .inr ⟨u, .tail _ hu, hc⟩

/-- A nonempty list of plain words. -/
structure Words (ws : List String) : Prop where
  some : ws ≠ []
  plain : ∀ w ∈ ws, Plain w

theorem Words.cons {w : String} {ws : List String} (hw : Plain w) (h : Words ws) :
    Words (w :: ws) where
  some := by simp
  plain := List.forall_mem_cons.mpr ⟨hw, h.plain⟩

theorem words_singleton {w : String} (h : Plain w) : Words [w] where
  some := by simp
  plain := by simpa using h

theorem Words.nonempty {ws : List String} (h : Words ws) : unwords ws ≠ "" := by
  obtain ⟨hsome, hplain⟩ := h
  cases ws with
  | nil => exact absurd rfl hsome
  | cons w rest =>
    have hw := (hplain w (.head _)).nonempty
    intro he
    have hl := congrArg String.toList he
    cases rest with
    | nil => simp [unwords, hw] at hl
    | cons v rest => simp [toList_unwords_cons] at hl

theorem Words.starts {ws : List String} (h : Words ws) :
    startsWith isWhitespace (unwords ws) = false := by
  obtain ⟨hsome, hplain⟩ := h
  cases ws with
  | nil => exact absurd rfl hsome
  | cons w rest =>
    have hw := hplain w (.head _)
    have hstart : startsWith isWhitespace w = false := by
      unfold startsWith
      cases hl : w.toList with
      | nil => rfl
      | cons c rest => simpa using hw.word.not_mem c (by simp [hl])
    cases rest with
    | nil => simpa [unwords] using hstart
    | cons v rest =>
      rw [unwords_cons, String.append_assoc, startsWith_append _ hw.nonempty, hstart]

theorem Words.ends {ws : List String} (h : Words ws) :
    endsWith isWhitespace (unwords ws) = false := by
  obtain ⟨hsome, hplain⟩ := h
  induction ws with
  | nil => exact absurd rfl hsome
  | cons w rest ih =>
    cases rest with
    | nil =>
      unfold endsWith
      cases hl : (unwords [w]).toList.getLast? with
      | none => rfl
      | some c =>
        have hc : c ∈ w.toList := by simpa [unwords] using List.mem_of_getLast? hl
        simpa using (hplain w (.head _)).word.not_mem c hc
    | cons v rest =>
      have hrest : Words (v :: rest) :=
        ⟨by simp, fun u hu => hplain u (List.mem_cons_of_mem w hu)⟩
      rw [unwords_cons, endsWith_append _ hrest.nonempty]
      exact ih hrest.some hrest.plain

theorem Words.not_mem {ws : List String} (h : Words ws) {c : Char} (hspace : c ≠ ' ')
    (hc : plainChar c = false) : c ∉ (unwords ws).toList := by
  intro hm
  rcases mem_unwords hm with rfl | ⟨w, hw, hcw⟩
  · exact hspace rfl
  · exact (h.plain w hw).not_mem hc hcw

theorem Words.split {ws : List String} (h : Words ws) : splitWhitespace (unwords ws) = ws :=
  splitWhitespace_unwords fun w hw => (h.plain w hw).word

theorem trim_indented {s : String} (hs : startsWith isWhitespace s = false)
    (he : endsWith isWhitespace s = false) : trim ("    " ++ s) = s := by
  have htrim := congrArg String.toList (trim_eq_self hs he)
  apply String.toList_inj.mp
  rw [toList_trim] at htrim ⊢
  have hindent : "    ".toList = [' ', ' ', ' ', ' '] := by decide
  have hdrop : trimList ("    " ++ s).toList = trimList s.toList := by
    simp [trimList, hindent, isWhitespace]
  rw [hdrop, htrim]

/-- A line without a mark is only trimmed. -/
theorem uncommented_of_not_mem {s : String} (h : '#' ∉ s.toList) : uncommented s = trim s := by
  have hcut : s.toList.splitOnP (· == '#') = [s.toList] :=
    List.splitOnP_eq_singleton fun c hc => beq_false_of_ne (ne_of_mem_of_not_mem hc h)
  simp [uncommented, Text.split, hcut]

theorem Words.uncommented {ws : List String} (h : Words ws) :
    Ifupdown.uncommented (unwords ws) = unwords ws := by
  rw [uncommented_of_not_mem (h.not_mem (by decide) (by decide)), trim_eq_self h.starts h.ends]

theorem Words.indented {ws : List String} (h : Words ws) :
    Ifupdown.uncommented ("    " ++ unwords ws) = unwords ws := by
  have hmark : '#' ∉ ("    " ++ unwords ws).toList := by
    have := h.not_mem (c := '#') (by decide) (by decide)
    simpa using this
  rw [uncommented_of_not_mem hmark, trim_indented h.starts h.ends]

theorem Words.line {ws : List String} (h : Words ws) : Line (unwords ws) where
  single := h.not_mem (by decide) (by decide)
  ended := by
    unfold endsWith
    cases hl : (unwords ws).toList.getLast? with
    | none => rfl
    | some c =>
      have hc := ne_of_mem_of_not_mem (List.mem_of_getLast? hl)
        (h.not_mem (c := '\r') (by decide) (by decide))
      simpa using hc

theorem Words.indentedLine {ws : List String} (h : Words ws) : Line ("    " ++ unwords ws) where
  single := by simpa using h.line.single
  ended := by rw [endsWith_append _ h.nonempty, h.line.ended]

theorem settings_unlines {ls : List String} (h : ∀ l ∈ ls, Line l) :
    settings (unlines ls) = (ls.map uncommented).filter (· ≠ "") := by
  rw [settings, lines_unlines h]

/-! ### One stanza -/

/-- What a stanza is written of. -/
structure Block where
  name : String
  method : String
  values : List (String × String)

def Block.lines (b : Block) : List String := stanzaLines b.name b.method b.values

/-- The stanza a block is read as, where its name is activated. -/
def Block.stanza (path : String) (b : Block) : Stanza where
  path := path
  name := b.name
  family := "inet"
  method := b.method
  values := .ofList b.values
  active := true

/-- A key, which is no word of the syntax, and the words of its value. -/
structure Setting (e : String × String) : Prop where
  key : Plain e.1
  free : e.1 ∉ ["auto", "allow-auto", "allow-hotplug", "source", "source-directory", "iface"]
  value : ∃ ws, Words ws ∧ e.2 = unwords ws

structure Block.Ok (b : Block) : Prop where
  name : Plain b.name
  method : Plain b.method
  values : ∀ e ∈ b.values, Setting e
  nodup : (b.values.map Prod.fst).Nodup

theorem Setting.words {e : String × String} (h : Setting e) :
    ∃ ws, Words ws ∧ e.2 = unwords ws ∧ e.1 ++ " " ++ e.2 = unwords (e.1 :: ws) := by
  obtain ⟨ws, hws, he⟩ := h.value
  refine ⟨ws, hws, he, ?_⟩
  cases ws with
  | nil => exact absurd rfl hws.some
  | cons w rest => rw [he, unwords_cons]

/-- The trimmed lines of a block. -/
def Block.settings (b : Block) : List String :=
  ["auto " ++ b.name, "iface " ++ b.name ++ " inet " ++ b.method] ++
    b.values.map fun e => e.1 ++ " " ++ e.2

theorem autoLine (b : Block) : "auto " ++ b.name = unwords ["auto", b.name] := by
  apply String.toList_inj.mp
  simp [unwords]

theorem ifaceLine (b : Block) :
    "iface " ++ b.name ++ " inet " ++ b.method = unwords ["iface", b.name, "inet", b.method] := by
  apply String.toList_inj.mp
  simp [unwords]

theorem indentedValue (e : String × String) :
    "    " ++ e.1 ++ " " ++ e.2 = "    " ++ (e.1 ++ " " ++ e.2) := by
  simp [String.append_assoc]

namespace Block.Ok

variable {b : Block}

theorem auto (h : b.Ok) : Words ["auto", b.name] :=
  .cons ⟨by decide, by decide⟩ (words_singleton h.name)

theorem iface (h : b.Ok) : Words ["iface", b.name, "inet", b.method] :=
  .cons ⟨by decide, by decide⟩ <| .cons h.name <| .cons ⟨by decide, by decide⟩ <|
    words_singleton h.method

theorem lines_ok (h : b.Ok) : ∀ l ∈ b.lines, Line l := by
  intro l hl
  simp only [Block.lines, stanzaLines, List.cons_append, List.nil_append, List.mem_cons,
    List.mem_map] at hl
  rcases hl with rfl | rfl | ⟨e, he, rfl⟩
  · rw [autoLine]
    exact h.auto.line
  · rw [ifaceLine]
    exact h.iface.line
  · obtain ⟨ws, hws, -, hwords⟩ := (h.values e he).words
    rw [indentedValue, hwords]
    exact (Words.cons (h.values e he).key hws).indentedLine

theorem trimmed (h : b.Ok) : b.lines.map uncommented = b.settings := by
  have hauto : uncommented ("auto " ++ b.name) = "auto " ++ b.name := by
    rw [autoLine, h.auto.uncommented]
  have hiface : uncommented ("iface " ++ b.name ++ " inet " ++ b.method) =
      "iface " ++ b.name ++ " inet " ++ b.method := by
    rw [ifaceLine, h.iface.uncommented]
  have hvalues : (b.values.map fun e => "    " ++ e.1 ++ " " ++ e.2).map uncommented =
      b.values.map fun e => e.1 ++ " " ++ e.2 := by
    rw [List.map_map]
    apply List.map_congr_left
    intro e he
    obtain ⟨ws, hws, -, hwords⟩ := (h.values e he).words
    rw [Function.comp_apply, indentedValue, hwords,
      (Words.cons (h.values e he).key hws).indented]
  rw [Block.lines, stanzaLines, List.map_append, hvalues, List.map_cons, List.map_cons, hauto,
    hiface]
  rfl

theorem settings_ne (h : b.Ok) : ∀ l ∈ b.settings, l ≠ "" := by
  intro l hl
  simp only [Block.settings, List.cons_append, List.nil_append, List.mem_cons, List.mem_map] at hl
  rcases hl with rfl | rfl | ⟨e, he, rfl⟩
  · rw [autoLine]
    exact h.auto.nonempty
  · rw [ifaceLine]
    exact h.iface.nonempty
  · obtain ⟨ws, hws, -, hwords⟩ := (h.values e he).words
    rw [hwords]
    exact (Words.cons (h.values e he).key hws).nonempty

end Block.Ok

/-- The text of a file of blocks, each followed by blank lines or none. -/
theorem settings_blocks {blocks : List Block} (h : ∀ b ∈ blocks, b.Ok) (blank : Bool) :
    settings (unlines (blocks.flatMap fun b => b.lines ++ if blank then [""] else [])) =
      blocks.flatMap Block.settings := by
  have hblank : Line "" := ⟨by simp, rfl⟩
  have htrim : uncommented "" = "" := rfl
  rw [settings_unlines]
  · induction blocks with
    | nil => rfl
    | cons b rest ih =>
      have hok := h b (.head _)
      have hkept : b.settings.filter (· ≠ "") = b.settings :=
        List.filter_eq_self.mpr fun l hl => by simpa using hok.settings_ne l hl
      rw [List.flatMap_cons, List.map_append, List.map_append, List.filter_append,
        List.filter_append, hok.trimmed, hkept, ih fun c hc => h c (.tail _ hc)]
      cases blank <;> simp [htrim]
  · intro l hl
    obtain ⟨b, hb, hl⟩ := List.mem_flatMap.mp hl
    rcases List.mem_append.mp hl with hl | hl
    · exact (h b hb).lines_ok l hl
    · cases blank
      · cases hl
      · simp only [if_true, List.mem_singleton] at hl
        exact hl ▸ hblank

/-! ### Scanning -/

/-- Reading a trimmed line. -/
def Scan.line (path : String) (st : Scan) (l : String) : Result Scan :=
  st.words path (splitWhitespace l)

theorem words_value {path key : String} {st : Scan} {words : List String}
    (h : key ∉ ["auto", "allow-auto", "allow-hotplug", "source", "source-directory", "iface"]) :
    st.words path (key :: words) = st.value key words := by
  simp only [List.mem_cons, List.not_mem_nil, or_false, not_or] at h
  simp [Scan.words, h]

theorem line_auto {b : Block} (h : b.Ok) (path : String) (st : Scan) :
    st.line path ("auto " ++ b.name) = .ok { st with active := st.active ++ [b.name] } := by
  rw [Scan.line, autoLine, h.auto.split]
  simp [Scan.words]

theorem line_iface {b : Block} (h : b.Ok) (path : String) (st : Scan) :
    st.line path ("iface " ++ b.name ++ " inet " ++ b.method) =
      .ok { st.close with
        current := some { path, name := b.name, family := "inet", method := b.method } } := by
  rw [Scan.line, ifaceLine, h.iface.split]
  simp [Scan.words]

theorem line_value {e : String × String} (h : Setting e) {path : String} {st : Scan} {s : Stanza}
    (hs : st.current = some s) (hfree : s.values.contains e.1 = false) :
    st.line path (e.1 ++ " " ++ e.2) =
      .ok { st with current := some { s with values := s.values.insert e.1 e.2 } } := by
  obtain ⟨ws, hws, he, hwords⟩ := h.words
  rw [Scan.line, hwords, (Words.cons h.key hws).split, words_value h.free]
  simp [Scan.value, hs, hws.some, hfree, he]

theorem fold_values {path : String} (values : List (String × String)) {st : Scan} {s : Stanza}
    (hs : st.current = some s) (h : ∀ e ∈ values, Setting e)
    (hfree : ∀ e ∈ values, s.values.contains e.1 = false) (hnodup : (values.map Prod.fst).Nodup) :
    (values.map fun e => e.1 ++ " " ++ e.2).foldlM (Scan.line path) st =
      .ok { st with current := some { s with
        values := values.foldl (fun m e => m.insert e.1 e.2) s.values } } := by
  induction values generalizing st s with
  | nil =>
    rw [List.map_nil, List.foldlM_nil, List.foldl_nil, ← hs]
    rfl
  | cons e rest ih =>
    rw [List.map_cons, List.nodup_cons] at hnodup
    rw [List.map_cons, List.foldlM_cons, line_value (h e (.head _)) hs (hfree e (.head _)),
      Outcome.bind_ok, ih rfl (fun d hd => h d (.tail _ hd)) _ hnodup.2]
    · rfl
    · intro d hd
      have hne : d.1 ≠ e.1 := fun he => hnodup.1 (he ▸ List.mem_map_of_mem hd)
      have hold := hfree d (.tail _ hd)
      rw [Bool.eq_false_iff, ne_eq, SortedMap.contains_insert]
      simp [hne, hold]

/-- A block ends the stanza before it, and is then the current one. -/
theorem fold_block {b : Block} (h : b.Ok) (path : String) (st : Scan) :
    b.settings.foldlM (Scan.line path) st =
      .ok { ended := st.close.ended
            current := some { b.stanza path with active := false }
            active := st.active ++ [b.name] } := by
  rw [Block.settings, List.foldlM_append, List.foldlM_cons, line_auto h, Outcome.bind_ok,
    List.foldlM_cons, line_iface h, Outcome.bind_ok, List.foldlM_nil]
  let opened : Stanza := { path, name := b.name, family := "inet", method := b.method }
  have hfree : ∀ e ∈ b.values, opened.values.contains e.1 = false := fun _ _ => rfl
  exact fold_values b.values (s := opened) rfl h.values hfree h.nodup

theorem fold_blocks {blocks : List Block} (h : ∀ b ∈ blocks, b.Ok) (path : String) (st : Scan) :
    ∃ st', (blocks.flatMap Block.settings).foldlM (Scan.line path) st = .ok st' ∧
      st'.close.ended =
        st.close.ended ++ blocks.map (fun b => { b.stanza path with active := false }) ∧
      st'.active = st.active ++ blocks.map Block.name := by
  induction blocks generalizing st with
  | nil => exact ⟨st, rfl, by simp, by simp⟩
  | cons b rest ih =>
    obtain ⟨st', hfold, hended, hactive⟩ := ih (fun c hc => h c (.tail _ hc))
      { ended := st.close.ended, current := some { b.stanza path with active := false },
        active := st.active ++ [b.name] }
    refine ⟨st', ?_, ?_, ?_⟩
    · rw [List.flatMap_cons, List.foldlM_append, fold_block (h b (.head _)), Outcome.bind_ok, hfold]
    · rw [hended]
      simp [Scan.close]
    · rw [hactive]
      simp

/-! ### Activation -/

/-- A pattern without wildcards matches its own text and no other. -/
def Literal (glob : Glob) : Prop :=
  ∀ s, Plain s → ∃ matcher, glob s = some matcher ∧ ∀ name, matcher name = (name == s)

theorem activate_plain {glob : Glob} (hglob : Literal glob) {pattern : String}
    (h : Plain pattern) (s : Stanza) :
    activate glob s pattern = .ok { s with active := s.active || s.name == pattern } := by
  obtain ⟨matcher, hm, hname⟩ := hglob pattern h
  unfold activate
  rw [hm]
  by_cases heq : s.name = pattern
  · simp [required, Outcome.bind_ok, hname, heq, refuse]
  · have hbeq : (s.name == pattern) = false := beq_false_of_ne heq
    simp [required, Outcome.bind_ok, hname, hbeq, refuse]

theorem fold_activate {glob : Glob} (hglob : Literal glob) {patterns : List String}
    (h : ∀ x ∈ patterns, Plain x) (s : Stanza) :
    patterns.foldlM (activate glob) s =
      .ok { s with active := s.active || patterns.contains s.name } := by
  induction patterns generalizing s with
  | nil => simp [pure, Except.pure]
  | cons x rest ih =>
    rw [List.foldlM_cons, activate_plain hglob (h x (.head _)), Outcome.bind_ok,
      ih fun y hy => h y (.tail _ hy), List.contains_cons, Bool.or_assoc]

theorem mapM_ok {α β : Type} {f : α → Result β} (g : α → β) {l : List α}
    (h : ∀ a ∈ l, f a = .ok (g a)) : l.mapM f = .ok (l.map g) := by
  rw [Outcome.mapM_eq_ok, List.forall₂_map_right_iff, List.forall₂_same]
  exact h

/-- A written file reads as its blocks, whatever other files were read before. -/
theorem readSource_blocks {glob : Glob} (hglob : Literal glob) (path : String)
    {blocks : List Block} (h : ∀ b ∈ blocks, b.Ok) {text : String}
    (htext : settings text = blocks.flatMap Block.settings) :
    readSource glob [] (path, text) = .ok (blocks.map (Block.stanza path)) := by
  obtain ⟨st, hscan, hended, hactive⟩ := fold_blocks h path {}
  have hnames : ∀ x ∈ st.active, Plain x := by
    intro x hx
    rw [hactive] at hx
    obtain ⟨b, hb, rfl⟩ := List.mem_map.mp (by simpa using hx)
    exact (h b hb).name
  have hread : scan path text = .ok st := by
    rw [scan, htext]
    exact hscan
  rw [readSource, hread, Outcome.bind_ok, hended, mapM_ok fun s => { s with active := true }]
  · simp [Scan.close, Block.stanza, Function.comp_def]
  · intro s hs
    simp only [Scan.close, Option.toList_none, List.append_nil, List.nil_append, List.mem_map] at hs
    obtain ⟨b, hb, rfl⟩ := hs
    have hmem : b.name ∈ st.active := by
      rw [hactive]
      simpa using ⟨b, hb, rfl⟩
    apply (if_pos rfl).trans
    rw [fold_activate hglob hnames]
    simp [Block.stanza, hmem]

/-! ### Among other files -/

/-- Every stanza of the scan is of the file. -/
def Scan.Of (path : String) (st : Scan) : Prop :=
  ∀ s ∈ st.ended ++ st.current.toList, s.path = path

theorem Scan.Of.close {path : String} {st : Scan} (h : st.Of path) : st.close.Of path := by
  intro s hs
  exact h s (by simpa [Scan.close] using hs)

theorem Scan.Of.words {path : String} {st st' : Scan} {parts : List String} (h : st.Of path)
    (hw : st.words path parts = .ok st') : st'.Of path := by
  have hvalue : ∀ {key words}, st.value key words = .ok st' → st'.Of path := by
    intro key words hv
    unfold Scan.value at hv
    cases hcur : st.current with
    | none => simp [hcur] at hv
    | some s =>
      simp only [hcur] at hv
      rcases ite_eq_iff.mp hv with ⟨-, hv⟩ | ⟨-, hv⟩
      · cases hv
      · cases hv
        intro t ht
        simp only [Option.toList_some, List.mem_append, List.mem_singleton] at ht
        rcases ht with ht | rfl
        · exact h t (List.mem_append_left _ ht)
        · exact h s (by simp [hcur])
  unfold Scan.words at hw
  split at hw
  · cases hw
    exact h
  · rcases ite_eq_iff.mp hw with ⟨-, hw⟩ | ⟨-, hw⟩
    · cases hw
      exact h
    · rcases ite_eq_iff.mp hw with ⟨-, hw⟩ | ⟨-, hw⟩
      · cases hw
        exact h.close
      · split at hw
        · cases hw
          intro s hs
          simp only [Option.toList_some, List.mem_append, List.mem_singleton] at hs
          rcases hs with hs | rfl
          · exact h.close s (List.mem_append_left _ hs)
          · rfl
        · exact hvalue hw

theorem scan_of {path text : String} {st : Scan} (h : scan path text = .ok st) : st.Of path := by
  have general : ∀ (ls : List String) (st st' : Scan), st.Of path →
      ls.foldlM (fun st l => Scan.words path st (splitWhitespace l)) st = .ok st' →
      st'.Of path := by
    intro ls
    induction ls with
    | nil =>
      intro st st' hst hf
      cases hf
      exact hst
    | cons l rest ih =>
      intro st st' hst hf
      obtain ⟨mid, hmid, hf⟩ := Outcome.bind_eq_ok.mp (List.foldlM_cons.symm.trans hf)
      exact ih mid st' (hst.words hmid) hf
  exact general _ {} st (by simp [Scan.Of]) h

theorem activate_frame {glob : Glob} {s s' : Stanza} {pattern : String}
    (h : activate glob s pattern = .ok s') : s'.path = s.path ∧ s'.name = s.name := by
  obtain ⟨matcher, -, h⟩ := Outcome.bind_eq_ok.mp h
  obtain ⟨-, -, h⟩ := Outcome.bind_eq_ok.mp h
  cases h
  split <;> exact ⟨rfl, rfl⟩

theorem fold_activate_path {glob : Glob} {patterns : List String} {s s' : Stanza}
    (h : patterns.foldlM (activate glob) s = .ok s') : s'.path = s.path := by
  induction patterns generalizing s with
  | nil =>
    cases h
    rfl
  | cons x rest ih =>
    obtain ⟨mid, hmid, h⟩ := Outcome.bind_eq_ok.mp (List.foldlM_cons.symm.trans h)
    exact (ih h).trans (activate_frame hmid).1

/-- A file read alone has only its own stanzas. -/
theorem readSource_path {glob : Glob} {source : String × String} {ss : List Stanza}
    (h : readSource glob [] source = .ok ss) : ∀ s ∈ ss, s.path = source.1 := by
  obtain ⟨st, hscan, h⟩ := Outcome.bind_eq_ok.mp h
  intro s hs
  obtain ⟨t, ht, hts⟩ := Outcome.mem_of_forall₂ (Outcome.mapM_eq_ok.mp h).flip hs
  have hpath : t.path = source.1 := (scan_of hscan).close t (List.mem_append_left _ ht)
  rw [if_pos hpath] at hts
  exact (fold_activate_path hts).trans hpath

/-- Files read before are left as they are, unless it is the same file. -/
theorem readSource_append {glob : Glob} {source : String × String} {out ss : List Stanza}
    (hout : ∀ s ∈ out, s.path ≠ source.1) (h : readSource glob [] source = .ok ss) :
    readSource glob out source = .ok (out ++ ss) := by
  obtain ⟨st, hscan, h⟩ := Outcome.bind_eq_ok.mp h
  unfold readSource
  rw [hscan, Outcome.bind_ok, Outcome.mapM_eq_ok]
  rw [List.nil_append, Outcome.mapM_eq_ok] at h
  apply List.rel_append _ h
  rw [List.forall₂_same]
  intro s hs
  exact if_neg (hout s hs)

/-- The stanzas a file gives when read alone. -/
def own (glob : Glob) (source : String × String) : List Stanza :=
  match readSource glob [] source with
  | .ok ss => ss
  | .error _ => []

theorem own_of_ok {glob : Glob} {source : String × String} {ss : List Stanza}
    (h : readSource glob [] source = .ok ss) : own glob source = ss := by
  rw [own, h]

/-- Distinct files are read independently of each other. -/
theorem fold_sources {glob : Glob} {texts : List (String × String)}
    (hnodup : (texts.map Prod.fst).Nodup)
    (h : ∀ t ∈ texts, (readSource glob [] t).isOk = true) (out : List Stanza)
    (hout : ∀ s ∈ out, s.path ∉ texts.map Prod.fst) :
    texts.foldlM (readSource glob) out = .ok (out ++ texts.flatMap (own glob)) := by
  induction texts generalizing out with
  | nil => simp [pure, Except.pure]
  | cons t rest ih =>
    obtain ⟨ss, hss⟩ := Outcome.isOk_iff.mp (h t (.head _))
    rw [List.map_cons, List.nodup_cons] at hnodup
    have hfirst : ∀ s ∈ out, s.path ≠ t.1 := fun s hs he => hout s hs (by simp [he])
    rw [List.foldlM_cons, readSource_append hfirst hss, Outcome.bind_ok,
      ih hnodup.2 (fun u hu => h u (.tail _ hu)), List.flatMap_cons, own_of_ok hss,
      List.append_assoc]
    intro s hs hm
    rcases List.mem_append.mp hs with hs | hs
    · exact hout s hs (List.mem_cons_of_mem _ hm)
    · exact hnodup.1 (readSource_path hss s hs ▸ hm)

/-- What is read before a file that does not read is lost. -/
theorem fold_sources_ok {glob : Glob} {texts : List (String × String)} {out ss : List Stanza}
    (h : texts.foldlM (readSource glob) out = .ok ss) :
    ∀ t ∈ texts, ∃ st, scan t.1 t.2 = .ok st := by
  induction texts generalizing out with
  | nil => nofun
  | cons t rest ih =>
    obtain ⟨mid, hmid, h⟩ := Outcome.bind_eq_ok.mp (List.foldlM_cons.symm.trans h)
    obtain ⟨st, hscan, -⟩ := Outcome.bind_eq_ok.mp hmid
    exact List.forall_mem_cons.mpr ⟨⟨st, hscan⟩, ih h⟩

/-! ### The files -/

/-- The texts of the files seen, each once. -/
structure Sources.Inv (host : Host) (acc : Sources) : Prop where
  seen : acc.texts.map Prod.fst = acc.seen
  nodup : acc.seen.Nodup
  texts : ∀ t ∈ acc.texts, host.root.text t.1 = .ok (some t.2)

theorem fold_inv {α : Type} {host : Host} {step : Sources → α → Result Sources}
    (hstep : ∀ acc a acc', acc.Inv host → step acc a = .ok acc' → acc'.Inv host)
    {l : List α} {acc acc' : Sources} (hacc : acc.Inv host) (h : l.foldlM step acc = .ok acc') :
    acc'.Inv host := by
  induction l generalizing acc with
  | nil =>
    cases h
    exact hacc
  | cons a rest ih =>
    obtain ⟨mid, hmid, h⟩ := Outcome.bind_eq_ok.mp (List.foldlM_cons.symm.trans h)
    exact ih (hstep acc a mid hacc hmid) h

theorem includes_inv {host : Host} {visit : Sources → String → Result Sources}
    (hvisit : ∀ acc path acc', acc.Inv host → visit acc path = .ok acc' → acc'.Inv host)
    {acc acc' : Sources} {parts : List String} (hacc : acc.Inv host)
    (h : includes host visit acc parts = .ok acc') : acc'.Inv host := by
  rcases ite_eq_iff.mp h with ⟨-, h⟩ | ⟨-, h⟩
  · refine fold_inv ?_ hacc h
    intro acc pattern acc' hacc h
    simp only [Outcome.bind_eq_ok] at h
    obtain ⟨path, -, matcher, -, children, -, h⟩ := h
    exact fold_inv hvisit hacc h
  · rcases ite_eq_iff.mp h with ⟨-, h⟩ | ⟨-, h⟩
    · refine fold_inv ?_ hacc h
      intro acc directory acc' hacc h
      obtain ⟨children, -, h⟩ := Outcome.bind_eq_ok.mp h
      exact fold_inv hvisit hacc h
    · cases h
      exact hacc

theorem interfaceSources_inv {host : Host} (left : Nat) : ∀ acc path acc', acc.Inv host →
    interfaceSources host left acc path = .ok acc' → acc'.Inv host := by
  induction left with
  | zero =>
    intro acc path acc' _ h
    cases h
  | succ left ih =>
    intro acc path acc' hacc h
    rcases ite_eq_iff.mp h with ⟨-, h⟩ | ⟨hnew, h⟩
    · cases h
    · obtain ⟨found, hfound, h⟩ := Outcome.bind_eq_ok.mp h
      obtain ⟨text, htext, h⟩ := Outcome.bind_eq_ok.mp h
      have hsome : found = some text := by
        cases found with
        | none => cases htext
        | some t => exact congrArg some (Except.ok.inj htext)
      have hstart : Sources.Inv host
          { seen := acc.seen ++ [path], texts := acc.texts ++ [(path, text)] } :=
        { seen := by simp [hacc.seen]
          nodup := by
            rw [List.nodup_append]
            simpa using ⟨hacc.nodup, fun a ha he => hnew (he ▸ ha)⟩
          texts := by
            intro t ht
            rcases List.mem_append.mp ht with ht | ht
            · exact hacc.texts t ht
            · rw [List.mem_singleton.mp ht, hfound, hsome] }
      exact fold_inv (fun acc l acc' hacc h => includes_inv ih hacc h) hstart h

/-- The included files are distinct, and have the texts the root gives. -/
theorem sources_inv {host : Host} {texts : List (String × String)} (h : sources host = .ok texts) :
    (texts.map Prod.fst).Nodup ∧ ∀ t ∈ texts, host.root.text t.1 = .ok (some t.2) := by
  obtain ⟨acc, hacc, rfl⟩ := Outcome.map_eq_ok.mp h
  have hinv := interfaceSources_inv 17 {} mainPath acc ⟨rfl, .nil, nofun⟩ hacc
  exact ⟨hinv.seen ▸ hinv.nodup, hinv.texts⟩

end NdimonR.Backend.Ifupdown
