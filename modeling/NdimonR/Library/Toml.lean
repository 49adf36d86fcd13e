import NdimonR.Library.JsonText
import NdimonR.Library.Reading
import NdimonR.Library.Lines
import NdimonR.Library.Outcome
import NdimonR.Library.Scan

/-! A part of TOML: comments, tables and arrays of tables at the top, and under them keys with
strings, integers, booleans, arrays and inline tables of these. What it reads it reads as TOML does;
what it leaves out (dates, floats, dotted keys, more than one line) it does not read at all. -/

namespace NdimonR.Toml

open Text Scan

def isBlank (c : Char) : Bool := c = ' ' || c = '\t'

/-- A tab is the one control character that may stand as it is. -/
def isRaw (c : Char) : Bool := c = '\t' || (32 ≤ c.toNat && c.toNat ≠ 0x7f)

def isBare (c : Char) : Bool := isAsciiAlphanumeric c || c = '_' || c = '-'

/-! ### Values -/

def scalar (n : Nat) : Option Char := if n.isValidChar then some (Char.ofNat n) else none

/-- A basic string after its opening quote, and what follows its closing one. -/
def basic : List Char → Option (List Char × List Char)
  | [] => none
  | '\\' :: 'u' :: a :: b :: c :: d :: rest => do
    let x ← (Json.codeUnit a b c d).bind scalar
    let (s, rest) ← basic rest
    some (x :: s, rest)
  | '\\' :: c :: rest => do
    let x ← Json.unescape c
    let (s, rest) ← basic rest
    some (x :: s, rest)
  | c :: rest =>
    if c = '"' then some ([], rest)
    else if isRaw c then do
      let (s, rest) ← basic rest
      some (c :: s, rest)
    else none

/-- A plain decimal number of 64 bits. -/
def integer (word : List Char) : Option Nat :=
  if word ≠ [] ∧ word.all isAsciiDigit ∧ (word.head? = some '0' → word.length = 1) ∧
      decimal word < 9223372036854775808 then
    some (decimal word)
  else none

def word (w : List Char) : Option Json :=
  if w = "true".toList then some (.bool true)
  else if w = "false".toList then some (.bool false)
  else (integer w).map fun n => .int n

def simple : List Char → Option (Json × List Char)
  | [] => none
  | c :: rest =>
    if c = '"' then (basic rest).map fun e => (.str (String.ofList e.1), e.2)
    else (word ((c :: rest).takeWhile isBare)).map fun v => (v, (c :: rest).dropWhile isBare)

def key : List Char → Option (String × List Char)
  | [] => none
  | c :: rest =>
    if c = '"' then (basic rest).map fun e => (String.ofList e.1, e.2)
    else if isBare c then
      some (String.ofList ((c :: rest).takeWhile isBare), (c :: rest).dropWhile isBare)
    else none

/-- A key, an equals sign and a value. -/
def pair {α : Type} (value : List Char → Option (α × List Char)) (l : List Char) :
    Option ((String × α) × List Char) := do
  let (k, rest) ← key l
  match skip isBlank rest with
  | '=' :: rest => (value (skip isBlank rest)).map fun e => ((k, e.1), e.2)
  | _ => none

/-- Each key once. -/
def inline (members : List (String × Json)) : Option Json :=
  if (members.map Prod.fst).Nodup then some (Json.ofMembers members) else none

def value : List Char → Option (Json × List Char)
  | [] => none
  | c :: rest =>
    if c = '[' then (list isBlank simple ']' rest).map fun e => (.arr e.1, e.2)
    else if c = '\x7b' then do
      let (members, rest) ← list isBlank (pair simple) '\x7d' rest
      (inline members).map (·, rest)
    else simple (c :: rest)

/-! ### Lines -/

inductive Line where
  | blank
  | table (name : String)
  | element (name : String)
  | entry (key : String) (value : Json)
  deriving DecidableEq

/-- Nothing but a comment. -/
def ended (l : List Char) : Bool :=
  match skip isBlank l with
  | [] => true
  | c :: rest => c = '#' && rest.all isRaw

def header (close : List Char) (l : List Char) : Option String :=
  let name := l.takeWhile isBare
  if name ≠ [] ∧ close.isPrefixOf (l.dropWhile isBare) ∧
      ended ((l.dropWhile isBare).drop close.length) then
    some (String.ofList name)
  else none

def line (l : List Char) : Option Line :=
  if ended l then some .blank
  else
    match skip isBlank l with
    | '[' :: '[' :: rest => (header "]]".toList rest).map .element
    | '[' :: rest => (header "]".toList rest).map .table
    | l => do
      let ((k, v), rest) ← pair value l
      if ended rest then some (.entry k v) else none

/-! ### Documents -/

/-- A table, or with `earlier` the last one of an array of tables. -/
structure Table where
  earlier : Option (List (SortedMap String Json)) := none
  last : SortedMap String Json := .empty

structure Doc where
  tables : SortedMap String Table := .empty
  current : Option String := none

def Doc.add (d : Doc) : Line → Option Doc
  | .blank => some d
  | .table name =>
    if d.tables.contains name then none else some ⟨d.tables.insert name {}, some name⟩
  | .element name =>
    match d.tables.get? name with
    | none => some ⟨d.tables.insert name { earlier := some [] }, some name⟩
    | some ⟨some done, last⟩ =>
      some ⟨d.tables.insert name { earlier := some (done ++ [last]) }, some name⟩
    | some ⟨none, _⟩ => none
  | .entry k v => do
    let name ← d.current
    let t ← d.tables.get? name
    if t.last.contains k then none
    else some { d with tables := d.tables.insert name { t with last := t.last.insert k v } }

def Table.json (t : Table) : Json :=
  match t.earlier with
  | none => .obj t.last.entries
  | some done => .arr ((done ++ [t.last]).map fun m => .obj m.entries)

def Doc.json (d : Doc) : Json := .obj (d.tables.entries.map fun e => (e.1, e.2.json))

def read (s : String) : Option Json := do
  let lines ← (split '\n' s).mapM fun l => line l.toList
  let doc ← lines.foldlM Doc.add {}
  some doc.json

/-! ### Reading what is written -/

/-- The text of a string, which has every other control character escaped, may not have this one. -/
def Plain (s : String) : Prop := ∀ c ∈ s.toList, c.toNat ≠ 0x7f

theorem basic_escape {c : Char} (h : c.toNat ≠ 0x7f) (rest : List Char) :
    basic (Json.escape c ++ rest) = (basic rest).map fun e => (c :: e.1, e.2) := by
  rcases Json.escape_cases c with ⟨d, hd, hread⟩ | ⟨x, y, hxy, hread⟩ | ⟨hc, hquote, hslash, hraw⟩
  · have hu : d ≠ 'u' := by
      intro he
      rw [he] at hread
      cases hread
    rw [hd, List.cons_append, List.cons_append, List.nil_append, basic]
    · rw [hread]
      cases basic rest <;> rfl
    · intro _ _ _ _ _ he
      exact absurd he hu
  · have hchar : scalar c.toNat = some c := by
      have hvalid : c.toNat.isValidChar := c.valid
      rw [scalar, if_pos hvalid, Char.ofNat_toNat]
    rw [hxy]
    simp only [List.cons_append, List.nil_append]
    rw [basic, hread, Option.bind_some, hchar]
    cases basic rest <;> rfl
  · have hisRaw : isRaw c = true := by
      simp [isRaw, hraw, h]
    rw [hc, List.singleton_append, basic, if_neg hquote, if_pos hisRaw]
    · cases basic rest <;> rfl
    · intro _ _ _ _ _ he
      exact absurd he hslash
    · intro _ _ he
      exact absurd he hslash

theorem basic_quoted {s : String} (h : Plain s) (rest : List Char) :
    basic (s.toList.flatMap Json.escape ++ '"' :: rest) = some (s.toList, rest) := by
  unfold Plain at h
  generalize s.toList = l at h
  induction l with
  | nil => rfl
  | cons c l ih =>
    rw [List.flatMap_cons, List.append_assoc, basic_escape (h c List.mem_cons_self),
      ih fun d hd => h d (List.mem_cons_of_mem _ hd)]
    rfl

theorem simple_quote {s : String} (h : Plain s) (rest : List Char) :
    simple ((Json.quote s).toList ++ rest) = some (.str s, rest) := by
  rw [Json.toList_quote, List.cons_append, List.append_assoc, List.singleton_append, simple, if_pos rfl,
    basic_quoted h]
  simp

theorem key_quote {s : String} (h : Plain s) (rest : List Char) :
    key ((Json.quote s).toList ++ rest) = some (s, rest) := by
  rw [Json.toList_quote, List.cons_append, List.append_assoc, List.singleton_append, key, if_pos rfl,
    basic_quoted h]
  simp

theorem key_bare {k : String} (hne : k ≠ "") (hk : all isBare k = true) {rest : List Char}
    (h : Stops isBare rest) : key (k.toList ++ rest) = some (k, rest) := by
  obtain ⟨htake, hdrop⟩ := span_stops (List.all_eq_true.mp hk) h
  cases hl : k.toList with
  | nil => exact absurd (String.toList_inj.mp hl) hne
  | cons c l =>
    have hc : isBare c = true := by
      rw [all, hl, List.all_cons, Bool.and_eq_true] at hk
      exact hk.1
    have hquote : c ≠ '"' := by
      intro he
      rw [he] at hc
      cases hc
    rw [hl] at htake hdrop
    rw [List.cons_append] at htake hdrop ⊢
    rw [key, if_neg hquote, if_pos hc, htake, hdrop, ← hl, String.ofList_toList]

theorem simple_word {w : String} {v : Json} (hne : w ≠ "") (hw : all isBare w = true)
    (hv : word w.toList = some v) {rest : List Char} (h : Stops isBare rest) :
    simple (w.toList ++ rest) = some (v, rest) := by
  obtain ⟨htake, hdrop⟩ := span_stops (List.all_eq_true.mp hw) h
  cases hl : w.toList with
  | nil => exact absurd (String.toList_inj.mp hl) hne
  | cons c l =>
    have hquote : c ≠ '"' := by
      intro he
      rw [all, hl, he] at hw
      cases hw
    rw [hl] at htake hdrop hv
    rw [List.cons_append] at htake hdrop ⊢
    rw [simple, if_neg hquote, htake, hdrop, hv]
    rfl

theorem isBare_of_digit {c : Char} (h : isAsciiDigit c = true) : isBare c = true := by
  simp [isBare, isAsciiAlphanumeric, h]

theorem word_toString {n : Nat} (h : n < 9223372036854775808) :
    word (toString n).toList = some (.int n) := by
  have hdigits := digits_toString n
  have hletter : ∀ w : String, w.toList.any (fun c => !isAsciiDigit c) = true →
      (toString n).toList ≠ w.toList := by
    intro w hw heq
    rw [← heq, List.any_eq_true] at hw
    obtain ⟨c, hc, hnot⟩ := hw
    rw [List.all_eq_true.mp hdigits c hc] at hnot
    cases hnot
  have hlength : (toString n).toList.head? = some '0' → (toString n).toList.length = 1 := by
    intro hhead
    have hzero : n = 0 := by
      by_contra hne
      exact head_toString (Nat.pos_of_ne_zero hne) hhead
    rw [hzero]
    rfl
  have hne : (toString n).toList ≠ [] := fun he => toString_ne_empty n (String.toList_inj.mp he)
  rw [word, if_neg (hletter "true" rfl), if_neg (hletter "false" rfl), integer, decimal_toString,
    if_pos ⟨hne, hdigits, hlength, h⟩]
  rfl

theorem simple_toString {n : Nat} (h : n < 9223372036854775808) {rest : List Char}
    (hrest : Stops isBare rest) : simple ((toString n).toList ++ rest) = some (.int n, rest) := by
  refine simple_word (toString_ne_empty n) ?_ (word_toString h) hrest
  have hdigits := digits_toString n
  rw [all, List.all_eq_true] at hdigits ⊢
  exact fun c hc => isBare_of_digit (hdigits c hc)

theorem simple_bool (b : Bool) {rest : List Char} (h : Stops isBare rest) :
    simple ((toString b).toList ++ rest) = some (.bool b, rest) := by
  cases b with
  | true => exact simple_word (w := "true") (by decide) (by decide) rfl h
  | false => exact simple_word (w := "false") (by decide) (by decide) rfl h

/-! ### Inline tables -/

theorem skip_space (l : List Char) : skip isBlank (' ' :: l) = skip isBlank l := rfl

theorem isBare_blank {c : Char} (h : isBlank c = true) : isBare c = false := by
  simp only [isBlank, Bool.or_eq_true, decide_eq_true_eq] at h
  rcases h with rfl | rfl <;> rfl

theorem stopping_inline : Stopping isBlank '\x7d' (Stops isBare) :=
  stopping rfl rfl (by decide) (fun _ => isBare_blank) rfl rfl

/-- A quoted key and its string. -/
def member (e : String × String) : String := Json.quote e.1 ++ " = " ++ Json.quote e.2

theorem pair_member {e : String × String} (hk : Plain e.1) (hv : Plain e.2) :
    Item isBlank (pair simple) '\x7d' (Stops isBare) (member e).toList (e.1, .str e.2) := by
  obtain ⟨k, v⟩ := e
  refine ⟨⟨'"', k.toList.flatMap Json.escape ++ '"' :: (" = " ++ Json.quote v).toList, ?_, rfl,
    by decide⟩, fun rest _ => ?_⟩
  · simp [member, Json.toList_quote]
  · have htext : (member (k, v)).toList ++ rest =
        (Json.quote k).toList ++ ' ' :: '=' :: ' ' :: ((Json.quote v).toList ++ rest) := by
      simp [member]
    have hquote : skip isBlank ((Json.quote v).toList ++ rest) = (Json.quote v).toList ++ rest := by
      rw [Json.toList_quote, List.cons_append]
      exact skip_cons rfl _
    rw [htext, pair, key_quote hk]
    simp only [Option.bind_eq_bind, Option.bind_some, skip_space]
    rw [skip_cons rfl]
    simp only [skip_space]
    rw [hquote, simple_quote hv]
    rfl

/-! ### Assignments -/

def assign (k v : String) : String := k ++ " = " ++ v

/-- A text on one line that reads as a value. -/
structure Writes (v : String) (x : Json) : Prop where
  starts : skip isBlank v.toList = v.toList
  single : '\n' ∉ v.toList
  reads : value v.toList = some (x, [])

theorem stops_nil : Stops isBare [] := nofun

theorem writes_simple {v : String} {x : Json} {c : Char} {rest : List Char} (hv : v.toList = c :: rest)
    (hblank : isBlank c = false) (hlist : c ≠ '[') (htable : c ≠ '\x7b') (hsingle : '\n' ∉ v.toList)
    (h : simple v.toList = some (x, [])) : Writes v x := by
  refine ⟨?_, hsingle, ?_⟩
  · rw [hv]
    exact skip_cons hblank rest
  · rw [hv] at h ⊢
    rw [value, if_neg hlist, if_neg htable, h]

theorem writes_quote {s : String} (h : Plain s) : Writes (Json.quote s) (.str s) := by
  refine writes_simple (Json.toList_quote s) rfl (by decide) (by decide) (Json.newline_not_mem_quote s) ?_
  have hread := simple_quote h []
  rwa [List.append_nil] at hread

theorem writes_toString {n : Nat} (h : n < 9223372036854775808) : Writes (toString n) (.int n) := by
  have hread := simple_toString h stops_nil
  rw [List.append_nil] at hread
  have hdigits := digits_toString n
  rw [all, List.all_eq_true] at hdigits
  have hne : (toString n).toList ≠ [] := fun he => toString_ne_empty n (String.toList_inj.mp he)
  obtain ⟨c, rest, hl⟩ := List.exists_cons_of_ne_nil hne
  have hc : isAsciiDigit c = true := hdigits c (by rw [hl]; exact List.mem_cons_self)
  have hnot : ∀ d, isAsciiDigit d = false → c ≠ d := by
    intro d hd he
    rw [he, hd] at hc
    cases hc
  refine writes_simple hl ?_ (hnot _ (by decide)) (hnot _ (by decide)) ?_ hread
  · simp [isBlank, hnot ' ' (by decide), hnot '\t' (by decide)]
  · intro hm
    have hd := hdigits _ hm
    revert hd
    decide

theorem writes_bool (b : Bool) : Writes (toString b) (.bool b) := by
  cases b with
  | true => exact ⟨rfl, by decide, rfl⟩
  | false => exact ⟨rfl, by decide, rfl⟩

/-- An inline table of strings under quoted keys. -/
def inlineTable (l : List (String × String)) : String :=
  "\x7b " ++ ", ".intercalate (l.map member) ++ " \x7d"

theorem toList_inlineTable (l : List (String × String)) : (inlineTable l).toList =
    '\x7b' :: ' ' :: ([',', ' '].intercalate (l.map fun e => (member e).toList) ++
      [' ', '\x7d']) := by
  have hcomma : ", ".toList = [',', ' '] := rfl
  unfold inlineTable
  rw [String.toList_append, String.toList_append, String.toList_intercalate, List.map_map, hcomma]
  rfl

theorem not_mem_intercalate {c : Char} {sep : List Char} {ls : List (List Char)} (hsep : c ∉ sep)
    (h : ∀ l ∈ ls, c ∉ l) : c ∉ sep.intercalate ls := by
  induction ls with
  | nil => simp
  | cons l ls ih =>
    have hl := h l List.mem_cons_self
    have hrest := ih fun m hm => h m (List.mem_cons_of_mem _ hm)
    cases ls with
    | nil => simpa using hl
    | cons m ls =>
      simp only [List.intercalate, List.intersperse, List.flatten_cons, List.mem_append,
        not_or] at hrest ⊢
      exact ⟨hl, hsep, hrest⟩

theorem writes_inlineTable {l : List (String × String)} (hkeys : (l.map Prod.fst).Nodup)
    (h : ∀ e ∈ l, Plain e.1 ∧ Plain e.2) :
    Writes (inlineTable l) (Json.ofMembers (l.map fun e => (e.1, .str e.2))) := by
  have hitems : List.Forall₂ (Item isBlank (pair simple) '\x7d' (Stops isBare))
      (l.map fun e => (member e).toList) (l.map fun e => (e.1, Json.str e.2)) := by
    rw [List.forall₂_map_left_iff, List.forall₂_map_right_iff, List.forall₂_same]
    exact fun e he => pair_member (h e he).1 (h e he).2
  have hspace : Blanks isBlank [' '] := by
    intro c hc
    rw [List.mem_singleton.mp hc]
    rfl
  have hlist := list_of_between stopping_inline (between_intercalate hspace hspace hitems) []
  simp only [List.append_assoc, List.cons_append, List.nil_append] at hlist
  refine ⟨?_, ?_, ?_⟩
  · rw [toList_inlineTable]
    exact skip_cons rfl _
  · have hmembers : '\n' ∉ [',', ' '].intercalate (l.map fun e => (member e).toList) := by
      refine not_mem_intercalate (by decide) fun piece hpiece => ?_
      obtain ⟨e, he, rfl⟩ := List.mem_map.mp hpiece
      simp [member, Json.newline_not_mem_quote]
    rw [toList_inlineTable]
    simp [hmembers]
  · have hnodup : ((l.map fun e => (e.1, Json.str e.2)).map Prod.fst).Nodup := by
      rw [List.map_map]
      exact hkeys
    rw [toList_inlineTable, value, if_neg (by decide), if_pos rfl, hlist]
    simp only [Option.bind_eq_bind, Option.bind_some, inline, if_pos hnodup, Option.map_some]

/-! ### Lines and documents -/

/-- A line of a text, without its end. -/
structure Reads (l : String) (x : Line) : Prop where
  single : '\n' ∉ l.toList
  reads : line l.toList = some x

theorem reads_assign {k v : String} {x : Json} (hne : k ≠ "") (hk : all isBare k = true)
    (h : Writes v x) : Reads (assign k v) (.entry k x) := by
  have htext : (assign k v).toList = k.toList ++ ' ' :: '=' :: ' ' :: v.toList := by
    simp [assign]
  have hstops : Stops isBare (' ' :: '=' :: ' ' :: v.toList) := by
    intro c hc
    cases hc
    rfl
  obtain ⟨c, rest, hl⟩ := List.exists_cons_of_ne_nil fun he => hne (String.toList_inj.mp he)
  have hbare : ∀ c ∈ k.toList, isBare c = true := List.all_eq_true.mp hk
  have hc : isBare c = true := hbare c (by rw [hl]; exact List.mem_cons_self)
  have hnot : ∀ d, isBare d = false → c ≠ d := by
    intro d hd he
    rw [he, hd] at hc
    cases hc
  have hblank : isBlank c = false := by
    simp [isBlank, hnot ' ' (by decide), hnot '\t' (by decide)]
  have hskip : skip isBlank (assign k v).toList = (assign k v).toList := by
    rw [htext, hl, List.cons_append]
    exact skip_cons hblank _
  have hended : ended (assign k v).toList = false := by
    rw [ended, hskip, htext, hl, List.cons_append]
    simp [hnot '#' (by decide)]
  have hpair : pair value (assign k v).toList = some ((k, x), []) := by
    rw [htext, pair, key_bare hne hk hstops]
    simp only [Option.bind_eq_bind, Option.bind_some, skip_space]
    rw [skip_cons rfl]
    simp only [skip_space]
    rw [h.starts, h.reads]
    rfl
  constructor
  · rw [htext]
    intro hm
    simp only [List.mem_append, List.mem_cons] at hm
    rcases hm with hm | hm | hm | hm | hm
    · have := hbare _ hm
      cases this
    · cases hm
    · cases hm
    · cases hm
    · exact h.single hm
  · rw [line, if_neg (by simp [hended]), hskip]
    split
    · rename_i heq
      rw [htext, hl, List.cons_append, List.cons.injEq] at heq
      exact absurd heq.1 (hnot '[' (by decide))
    · rename_i heq
      rw [htext, hl, List.cons_append, List.cons.injEq] at heq
      exact absurd heq.1 (hnot '[' (by decide))
    · rw [hpair]
      rfl

theorem read_unlines {ls : List String} {xs : List Line} {doc : Doc}
    (h : List.Forall₂ Reads ls xs) (hdoc : xs.foldlM Doc.add {} = some doc) :
    read (unlines ls) = some doc.json := by
  have hsplit : split '\n' (unlines ls) = ls ++ [""] := by
    have hsingle : ∀ l ∈ ls, '\n' ∉ l.toList := by
      intro l hl
      obtain ⟨x, -, hx⟩ := Outcome.mem_of_forall₂ h hl
      exact hx.single
    rw [split, unlines, String.toList_ofList, splitOnP_unlines hsingle]
    simp [Function.comp_def]
  have hlines : (split '\n' (unlines ls)).mapM (fun l => line l.toList) = some (xs ++ [.blank]) := by
    rw [hsplit]
    clear hdoc hsplit
    induction h with
    | nil => rfl
    | cons hx _ ih =>
      rw [List.cons_append, List.mapM_cons, hx.reads, ih]
      rfl
  rw [read, hlines]
  simp only [Option.bind_eq_bind, Option.bind_some, List.foldlM_append, hdoc]
  rfl

def entries (es : List (String × Json)) : List Line := es.map fun e => .entry e.1 e.2

section
variable {es : List (String × Json)} {d : Doc} {name : String}

theorem foldlM_blank (ls : List Line) :
    (.blank :: ls).foldlM Doc.add d = ls.foldlM Doc.add d := rfl

theorem foldlM_entries {t : Table} (hcurrent : d.current = some name)
    (ht : d.tables.get? name = some t) (hkeys : (es.map Prod.fst).Nodup)
    (hnew : ∀ e ∈ es, t.last.contains e.1 = false) :
    (entries es).foldlM Doc.add d = some ⟨d.tables.insert name
      { t with last := es.foldl (fun m e => m.insert e.1 e.2) t.last }, some name⟩ := by
  induction es generalizing d t with
  | nil =>
    have hsame : d.tables.insert name t = d.tables := by
      refine SortedMap.ext fun k => ?_
      rw [SortedMap.get?_insert]
      split
      · rename_i hk
        rw [hk, ht]
      · rfl
    simp [entries, hsame, ← hcurrent]
  | cons e es ih =>
    obtain ⟨hfirst, hkeys⟩ := List.nodup_cons.mp hkeys
    have hadd : Doc.add d (.entry e.1 e.2) =
        some ⟨d.tables.insert name { t with last := t.last.insert e.1 e.2 }, some name⟩ := by
      simp [Doc.add, hcurrent, ht, hnew e List.mem_cons_self]
    have hrest : ∀ f ∈ es, (t.last.insert e.1 e.2).contains f.1 = false := by
      intro f hf
      rw [Bool.eq_false_iff, ne_eq, SortedMap.contains_insert, not_or]
      refine ⟨fun heq => hfirst (heq ▸ List.mem_map_of_mem hf), ?_⟩
      simp [hnew f (List.mem_cons_of_mem _ hf)]
    rw [entries, List.map_cons, List.foldlM_cons, hadd]
    refine (ih rfl (SortedMap.get?_insert .. |>.trans (if_pos rfl)) hkeys hrest).trans ?_
    simp only [List.foldl_cons, Option.some.injEq, Doc.mk.injEq, and_true]
    refine SortedMap.ext fun k => ?_
    by_cases hk : k = name <;> simp [hk]

theorem foldlM_table (hnew : d.tables.contains name = false) (hkeys : (es.map Prod.fst).Nodup) :
    (.table name :: entries es).foldlM Doc.add d =
      some ⟨d.tables.insert name { last := .ofList es }, some name⟩ := by
  have hadd : Doc.add d (.table name) = some ⟨d.tables.insert name {}, some name⟩ := by
    simp [Doc.add, hnew]
  rw [List.foldlM_cons, hadd]
  refine (foldlM_entries (t := {}) rfl (by simp) hkeys fun _ _ => rfl).trans ?_
  simp only [Option.some.injEq, Doc.mk.injEq, and_true]
  refine SortedMap.ext fun k => ?_
  by_cases hk : k = name <;> simp [hk, SortedMap.ofList]

/-- The tables of an array so far. -/
def Doc.array (d : Doc) (name : String) : Option (List (SortedMap String Json)) :=
  match d.tables.get? name with
  | none => some []
  | some t => t.earlier.map (· ++ [t.last])

theorem foldlM_element {done : List (SortedMap String Json)} (hdone : d.array name = some done)
    (hkeys : (es.map Prod.fst).Nodup) : (.element name :: entries es).foldlM Doc.add d =
      some ⟨d.tables.insert name { earlier := some done, last := .ofList es }, some name⟩ := by
  have hadd : Doc.add d (.element name) =
      some ⟨d.tables.insert name { earlier := some done }, some name⟩ := by
    unfold Doc.array at hdone
    unfold Doc.add
    simp only
    split at hdone
    · rename_i hget
      cases hdone
      simp [hget]
    · rename_i t hget
      obtain ⟨earlier, hearlier, rfl⟩ := Option.map_eq_some_iff.mp hdone
      obtain ⟨_, last⟩ := t
      cases hearlier
      simp [hget]
  rw [List.foldlM_cons, hadd]
  refine (foldlM_entries (t := ⟨some done, .empty⟩) rfl (by simp) hkeys fun _ _ => rfl).trans ?_
  simp only [Option.some.injEq, Doc.mk.injEq, and_true]
  refine SortedMap.ext fun k => ?_
  by_cases hk : k = name <;> simp [hk, SortedMap.ofList]

theorem get_json (d : Doc) (name : String) :
    Json.get name d.json = (d.tables.get? name).map Table.json := by
  change SortedMap.lookup name (d.tables.entries.map fun e => (e.1, e.2.json)) =
    (SortedMap.lookup name d.tables.entries).map Table.json
  induction d.tables.entries with
  | nil => rfl
  | cons e rest ih =>
    simp only [List.map_cons, SortedMap.lookup]
    split
    · rfl
    · exact ih

end

end NdimonR.Toml
