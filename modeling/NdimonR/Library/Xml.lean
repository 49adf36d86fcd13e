import NdimonR.Library.Scan
import NdimonR.Library.Text

/-! XML 1.0 text of elements with attributes and no content: a reader, and when the attributes of a
text that was put together without escaping are the ones it was put together from. -/

namespace NdimonR.Xml

open Scan

structure Element where
  name : List Char
  attributes : List (List Char × List Char)
  deriving DecidableEq

/-! ### Characters -/

def isSpace (c : Char) : Bool := c = ' ' || c = '\t' || c = '\n' || c = '\r'

def inRanges (ranges : List (ℕ × ℕ)) (c : Char) : Bool :=
  ranges.any fun r => decide (r.1 ≤ c.toNat ∧ c.toNat ≤ r.2)

def isChar (c : Char) : Bool :=
  isSpace c || inRanges [(0x20, 0xd7ff), (0xe000, 0xfffd), (0x10000, 0x10ffff)] c

def isNameStart (c : Char) : Bool :=
  inRanges [(0x3a, 0x3a), (0x41, 0x5a), (0x5f, 0x5f), (0x61, 0x7a), (0xc0, 0xd6), (0xd8, 0xf6),
    (0xf8, 0x2ff), (0x370, 0x37d), (0x37f, 0x1fff), (0x200c, 0x200d), (0x2070, 0x218f),
    (0x2c00, 0x2fef), (0x3001, 0xd7ff), (0xf900, 0xfdcf), (0xfdf0, 0xfffd), (0x10000, 0xeffff)] c

def isNameChar (c : Char) : Bool :=
  isNameStart c || inRanges [(0x2d, 0x2e), (0x30, 0x39), (0xb7, 0xb7), (0x300, 0x36f),
    (0x203f, 0x2040)] c

/-! ### The reader -/

def digits (base : ℕ) (digit : Char → Option ℕ) : List Char → Option ℕ
  | [] => none
  | l => l.foldlM (fun n c => (digit c).map (base * n + ·)) 0

def digit (c : Char) : Option ℕ := if '0' ≤ c ∧ c ≤ '9' then some (c.toNat - 48) else none

def hexDigit (c : Char) : Option ℕ :=
  if 'a' ≤ c ∧ c ≤ 'f' then some (c.toNat - 87)
  else if 'A' ≤ c ∧ c ≤ 'F' then some (c.toNat - 55)
  else digit c

/-- A reference by number is to a character of XML. -/
def numbered (n : ℕ) : Option Char :=
  if h : n.isValidChar then
    if isChar (Char.ofNatAux n h) then some (Char.ofNatAux n h) else none
  else none

/-- What stands between `&` and `;`. -/
def referred : List Char → Option Char
  | ['l', 't'] => some '<'
  | ['g', 't'] => some '>'
  | ['a', 'm', 'p'] => some '&'
  | ['a', 'p', 'o', 's'] => some '\x27'
  | ['q', 'u', 'o', 't'] => some '"'
  | '#' :: 'x' :: hex => (digits 16 hexDigit hex).bind numbered
  | '#' :: decimal => (digits 10 digit decimal).bind numbered
  | _ => none

/-- The value of an attribute, with the reference so far where one is open. -/
def unescaped : Option (List Char) → List Char → Option (List Char)
  | none, [] => some []
  | some _, [] => none
  | none, c :: rest =>
    if c = '<' ∨ isChar c = false then none
    else if c = '&' then unescaped (some []) rest
    else (unescaped none rest).map ((if isSpace c then ' ' else c) :: ·)
  | some ref, c :: rest =>
    if c = ';' then do
      let d ← referred ref.reverse
      (unescaped none rest).map (d :: ·)
    else unescaped (some (c :: ref)) rest

def quoted : List Char → Option (List Char × List Char)
  | q :: rest =>
    if q = '"' ∨ q = '\x27' then
      match rest.dropWhile (· ≠ q) with
      | [] => none
      | _ :: tail => (unescaped none (rest.takeWhile (· ≠ q))).map (·, tail)
    else none
  | [] => none

def name (l : List Char) : Option (List Char × List Char) :=
  match l with
  | c :: _ => if isNameStart c then some (l.takeWhile isNameChar, l.dropWhile isNameChar) else none
  | [] => none

/-- A name, an equals sign and a value. -/
def pair (l : List Char) : Option ((List Char × List Char) × List Char) := do
  let (k, rest) ← name l
  match skip isSpace rest with
  | '=' :: rest => (quoted (skip isSpace rest)).map fun e => ((k, e.1), e.2)
  | _ => none

def tagEnd : List Char → Option (List Char)
  | '/' :: '>' :: rest => some rest
  | _ => none

/-- The rest of a tag behind its name: blanks before each attribute. -/
def attributes : ℕ → List Char → Option (List (List Char × List Char) × List Char)
  | 0, _ => none
  | fuel + 1, l =>
    match tagEnd (skip isSpace l) with
    | some rest => some ([], rest)
    | none =>
      if l.head?.any isSpace then do
        let (a, rest) ← pair (skip isSpace l)
        (attributes fuel rest).map fun e => (a :: e.1, e.2)
      else none

/-- No attribute stands twice in a tag. -/
def element : List Char → Option (Element × List Char)
  | '<' :: l => do
    let (n, rest) ← name l
    let (as, rest) ← attributes rest.length rest
    if (as.map Prod.fst).Nodup then some (⟨n, as⟩, rest) else none
  | _ => none

def elements : ℕ → List Char → Option (List Element)
  | 0, _ => none
  | fuel + 1, l =>
    match skip isSpace l with
    | [] => some []
    | c :: rest => do
      let (e, rest) ← element (c :: rest)
      (elements fuel rest).map (e :: ·)

def read (l : List Char) : Option (List Element) := elements (l.length + 1) l

/-! ### Texts put together -/

def attributeText (a : List Char × List Char) : List Char :=
  ' ' :: (a.1 ++ '=' :: '"' :: (a.2 ++ ['"']))

def elementText (e : Element) : List Char :=
  '<' :: (e.name ++ (e.attributes.flatMap attributeText ++ ['/', '>']))

def text (es : List Element) : List Char := es.flatMap elementText

/-- A character that stands for itself between quotes. -/
def isPlain (c : Char) : Bool :=
  isChar c && c ≠ '<' && c ≠ '&' && c ≠ '"' && (!isSpace c || c = ' ')

def Plain (l : List Char) : Prop := ∀ c ∈ l, isPlain c = true

structure IsName (n : List Char) : Prop where
  start : ∃ c ∈ n.head?, isNameStart c = true
  chars : ∀ c ∈ n, isNameChar c = true

/-- Names where names have to be, and none twice. -/
structure Formed (e : Element) : Prop where
  name : IsName e.name
  names : ∀ a ∈ e.attributes, IsName a.1
  nodup : (e.attributes.map Prod.fst).Nodup

/-! ### Values -/

/-- A reference is longer than what it refers to. -/
theorem length_unescaped {ref : Option (List Char)} {l t : List Char}
    (h : unescaped ref l = some t) : t.length ≤ l.length := by
  fun_induction unescaped ref l generalizing t with
  | case1 =>
    cases h
    exact Nat.le_refl _
  | case2 => cases h
  | case3 => cases h
  | case4 rest _ ih => exact (ih h).trans (Nat.le_succ _)
  | case5 c rest _ _ ih =>
    obtain ⟨u, hu, rfl⟩ := Option.map_eq_some_iff.mp h
    exact Nat.succ_le_succ (ih hu)
  | case6 ref rest ih =>
    obtain ⟨d, -, hrest⟩ := Option.bind_eq_some_iff.mp h
    obtain ⟨u, hu, rfl⟩ := Option.map_eq_some_iff.mp hrest
    exact Nat.succ_le_succ (ih hu)
  | case7 ref c rest _ ih => exact (ih h).trans (Nat.le_succ _)

theorem unescaped_of_plain {l : List Char} (h : Plain l) : unescaped none l = some l := by
  induction l with
  | nil => rfl
  | cons c l ih =>
    have hc := h c List.mem_cons_self
    simp only [isPlain, Bool.and_eq_true, Bool.or_eq_true, decide_eq_true_eq,
      Bool.not_eq_true', ne_eq, decide_not] at hc
    obtain ⟨⟨⟨⟨hchar, hless⟩, hamp⟩, -⟩, hspace⟩ := hc
    have hsame : (if isSpace c then ' ' else c) = c := by
      rcases hspace with hno | rfl
      · rw [hno]
        rfl
      · rfl
    rw [unescaped, if_neg (by simp [hchar, of_decide_eq_false hless]),
      if_neg (of_decide_eq_false hamp), ih fun d hd => h d (List.mem_cons_of_mem _ hd),
      Option.map_some, hsame]

theorem plain_of_unescaped {l : List Char} (h : unescaped none l = some l) (hquote : '"' ∉ l) :
    Plain l := by
  induction l with
  | nil => exact fun c hc => absurd hc List.not_mem_nil
  | cons c l ih =>
    obtain ⟨hc, hl⟩ := not_or.mp (fun hm => hquote (List.mem_cons.mpr hm))
    rw [unescaped] at h
    split at h
    · cases h
    · rename_i hchar
      obtain ⟨hless, hvalid⟩ := not_or.mp hchar
      split at h
      · have hshort := length_unescaped h
        simp only [List.length_cons] at hshort
        omega
      · rename_i hamp
        obtain ⟨u, hu, hcons⟩ := Option.map_eq_some_iff.mp h
        obtain ⟨hsame, rfl⟩ := List.cons.inj hcons
        intro d hd
        rcases List.mem_cons.mp hd with rfl | hd
        · have hspace : isSpace d = false ∨ d = ' ' := by
            cases hd : isSpace d with
            | false => exact .inl rfl
            | true =>
              rw [hd] at hsame
              exact .inr hsame.symm
          simp only [isPlain, Bool.and_eq_true, Bool.or_eq_true, decide_eq_true_eq,
            Bool.not_eq_true', ne_eq, decide_not]
          exact ⟨⟨⟨⟨by simpa using hvalid, decide_eq_false hless⟩, decide_eq_false hamp⟩,
            decide_eq_false (Ne.symm hc)⟩, hspace⟩
        · exact ih hu hl d hd

theorem quote_not_mem {v : List Char} (h : Plain v) : '"' ∉ v := by
  intro hv
  have := h _ hv
  revert this
  decide

theorem takeWhile_quote {v : List Char} (h : '"' ∉ v) (rest : List Char) :
    (v ++ '"' :: rest).takeWhile (· ≠ '"') = v ∧
      (v ++ '"' :: rest).dropWhile (· ≠ '"') = '"' :: rest := by
  apply span_stops
  · intro c hc
    have hne : c ≠ '"' := fun he => h (he ▸ hc)
    simpa using hne
  · intro c hc
    cases hc
    rfl

theorem quoted_plain {v : List Char} (h : Plain v) (rest : List Char) :
    quoted ('"' :: (v ++ '"' :: rest)) = some (v, rest) := by
  obtain ⟨htake, hdrop⟩ := takeWhile_quote (quote_not_mem h) rest
  rw [quoted, if_pos (.inl rfl), htake, hdrop, unescaped_of_plain h]
  rfl

/-- A value that reads as itself is plain, and all of it was read. -/
theorem plain_of_quoted {v rest tail : List Char}
    (h : quoted ('"' :: (v ++ '"' :: rest)) = some (v, tail)) : Plain v ∧ tail = rest := by
  rw [quoted, if_pos (.inl rfl)] at h
  by_cases hv : '"' ∈ v
  · obtain ⟨a, b, rfl, ha⟩ := List.eq_append_cons_of_mem hv
    rw [List.append_assoc, List.cons_append] at h
    obtain ⟨htake, hdrop⟩ := takeWhile_quote ha (b ++ '"' :: rest)
    rw [htake, hdrop] at h
    obtain ⟨u, hu, heq⟩ := Option.map_eq_some_iff.mp h
    cases heq
    have hshort := length_unescaped hu
    simp only [List.length_append, List.length_cons] at hshort
    omega
  · obtain ⟨htake, hdrop⟩ := takeWhile_quote hv rest
    rw [htake, hdrop] at h
    obtain ⟨u, hu, heq⟩ := Option.map_eq_some_iff.mp h
    cases heq
    exact ⟨plain_of_unescaped hu hv, rfl⟩

/-! ### Tags -/

theorem start_ne {c d : Char} (h : isNameStart c = true) (hd : isNameStart d = false) : c ≠ d := by
  intro he
  rw [he, hd] at h
  cases h

theorem start_not_space {c : Char} (h : isNameStart c = true) : isSpace c = false := by
  have h1 := start_ne h (d := ' ') (by decide)
  have h2 := start_ne h (d := '\t') (by decide)
  have h3 := start_ne h (d := '\n') (by decide)
  have h4 := start_ne h (d := '\r') (by decide)
  simp [isSpace, h1, h2, h3, h4]

theorem name_append {n rest : List Char} (h : IsName n) (hrest : Stops isNameChar rest) :
    name (n ++ rest) = some (n, rest) := by
  obtain ⟨⟨c, hc, hstart⟩, hchars⟩ := h
  obtain ⟨htake, hdrop⟩ := span_stops hchars hrest
  cases n with
  | nil => cases hc
  | cons d n =>
    cases hc
    rw [List.cons_append, name, if_pos hstart, ← List.cons_append, htake, hdrop]

theorem skip_name {n : List Char} (h : IsName n) (rest : List Char) :
    skip isSpace (n ++ rest) = n ++ rest := by
  obtain ⟨⟨c, hc, hstart⟩, -⟩ := h
  cases n with
  | nil => cases hc
  | cons d n =>
    cases hc
    exact skip_cons (start_not_space hstart) _

theorem pair_append {k : List Char} (h : IsName k) (rest : List Char) :
    pair (k ++ '=' :: '"' :: rest) = (quoted ('"' :: rest)).map fun e => ((k, e.1), e.2) := by
  have hstops : Stops isNameChar ('=' :: '"' :: rest) := by
    intro c hc
    cases hc
    decide
  rw [pair, name_append h hstops]
  simp only [Option.bind_eq_bind, Option.bind_some]
  rw [skip_cons (by decide)]
  simp only
  rw [skip_cons (by decide)]

theorem attributes_append {a : List Char × List Char} (h : IsName a.1) (fuel : ℕ)
    (rest : List Char) :
    attributes (fuel + 1) (attributeText a ++ rest) =
      ((quoted ('"' :: (a.2 ++ '"' :: rest))).bind fun e =>
        (attributes fuel e.2).map fun f => ((a.1, e.1) :: f.1, f.2)) := by
  have htext : attributeText a ++ rest = ' ' :: (a.1 ++ '=' :: '"' :: (a.2 ++ '"' :: rest)) := by
    simp [attributeText]
  have hskip : skip isSpace (attributeText a ++ rest) =
      a.1 ++ '=' :: '"' :: (a.2 ++ '"' :: rest) := by
    have hblank : Blanks isSpace [' '] := by
      intro c hc
      rw [List.mem_singleton.mp hc]
      rfl
    rw [htext]
    exact (skip_blanks hblank _).trans (skip_name h _)
  have hend : tagEnd (a.1 ++ '=' :: '"' :: (a.2 ++ '"' :: rest)) = none := by
    obtain ⟨⟨c, hc, hstart⟩, -⟩ := h
    have hslash := start_ne hstart (d := '/') (by decide)
    cases ha : a.1 with
    | nil =>
      rw [ha] at hc
      cases hc
    | cons d n =>
      rw [ha] at hc
      cases hc
      rw [List.cons_append, tagEnd.eq_def]
      split
      · rename_i he
        exact absurd (List.cons.inj he).1 hslash
      · rfl
  have hblank : (attributeText a ++ rest).head?.any isSpace = true := rfl
  rw [attributes, hskip, hend, pair_append h]
  simp only [hblank, if_true]
  cases quoted ('"' :: (a.2 ++ '"' :: rest)) <;> rfl

theorem attributes_end (fuel : ℕ) (rest : List Char) :
    attributes (fuel + 1) ('/' :: '>' :: rest) = some ([], rest) := by
  rw [attributes, skip_cons (by decide)]
  rfl

theorem attributes_plain {as : List (List Char × List Char)} (names : ∀ a ∈ as, IsName a.1)
    (plain : ∀ a ∈ as, Plain a.2) {fuel : ℕ} (hfuel : as.length < fuel) (rest : List Char) :
    attributes fuel (as.flatMap attributeText ++ '/' :: '>' :: rest) = some (as, rest) := by
  induction as generalizing fuel with
  | nil =>
    obtain ⟨fuel, rfl⟩ := Nat.exists_eq_add_one.mpr hfuel
    exact attributes_end fuel rest
  | cons a as ih =>
    obtain ⟨fuel, rfl⟩ := Nat.exists_eq_add_one.mpr (Nat.zero_lt_of_lt hfuel)
    rw [List.flatMap_cons, List.append_assoc, attributes_append (names a List.mem_cons_self),
      quoted_plain (plain a List.mem_cons_self), Option.bind_some,
      ih (fun b hb => names b (List.mem_cons_of_mem _ hb))
        (fun b hb => plain b (List.mem_cons_of_mem _ hb)) (by simpa using hfuel)]
    rfl

/-- Attributes that read as themselves have plain values. -/
theorem plain_of_attributes {as : List (List Char × List Char)} (names : ∀ a ∈ as, IsName a.1)
    {fuel : ℕ} {rest tail : List Char}
    (h : attributes fuel (as.flatMap attributeText ++ '/' :: '>' :: rest) = some (as, tail)) :
    (∀ a ∈ as, Plain a.2) ∧ tail = rest := by
  induction as generalizing fuel with
  | nil =>
    cases fuel with
    | zero => cases h
    | succ fuel =>
      have hend := attributes_end fuel rest
      rw [List.flatMap_nil, List.nil_append, hend] at h
      cases h
      exact ⟨fun a ha => absurd ha List.not_mem_nil, rfl⟩
  | cons a as ih =>
    cases fuel with
    | zero => cases h
    | succ fuel =>
      rw [List.flatMap_cons, List.append_assoc,
        attributes_append (names a List.mem_cons_self)] at h
      obtain ⟨e, hquoted, hrest⟩ := Option.bind_eq_some_iff.mp h
      obtain ⟨f, hf, heq⟩ := Option.map_eq_some_iff.mp hrest
      obtain ⟨hfirst, htail⟩ := Prod.mk.inj heq
      obtain ⟨hvalue, hothers⟩ := List.cons.inj hfirst
      have hsame : e = (a.2, e.2) := by rw [← hvalue]
      rw [hsame] at hquoted
      obtain ⟨hplain, hread⟩ := plain_of_quoted hquoted
      rw [hread, show f = (as, tail) from Prod.ext hothers htail] at hf
      obtain ⟨hall, rfl⟩ := ih (fun b hb => names b (List.mem_cons_of_mem _ hb)) hf
      refine ⟨?_, rfl⟩
      intro b hb
      rcases List.mem_cons.mp hb with rfl | hb
      · exact hplain
      · exact hall b hb

/-! ### Elements -/

theorem element_eq (e : Element) (formed : Formed e) (rest : List Char) :
    element (elementText e ++ rest) =
      (attributes (e.attributes.flatMap attributeText ++ '/' :: '>' :: rest).length
        (e.attributes.flatMap attributeText ++ '/' :: '>' :: rest)).bind fun r =>
          if (r.1.map Prod.fst).Nodup then some (⟨e.name, r.1⟩, r.2) else none := by
  have htext : elementText e ++ rest =
      '<' :: (e.name ++ (e.attributes.flatMap attributeText ++ '/' :: '>' :: rest)) := by
    simp [elementText]
  have hstops : Stops isNameChar (e.attributes.flatMap attributeText ++ '/' :: '>' :: rest) := by
    intro c hc
    cases hattributes : e.attributes with
    | nil =>
      rw [hattributes] at hc
      cases hc
      decide
    | cons a as =>
      rw [hattributes] at hc
      cases hc
      decide
  rw [htext, element, name_append formed.name hstops]
  rfl

theorem length_attributes (as : List (List Char × List Char)) :
    as.length ≤ (as.flatMap attributeText).length := by
  induction as with
  | nil => exact Nat.le_refl _
  | cons a as ih =>
    simp only [List.flatMap_cons, List.length_append, List.length_cons, attributeText]
    omega

theorem element_plain {e : Element} (formed : Formed e) (plain : ∀ a ∈ e.attributes, Plain a.2)
    (rest : List Char) : element (elementText e ++ rest) = some (e, rest) := by
  have hfuel : e.attributes.length <
      (e.attributes.flatMap attributeText ++ '/' :: '>' :: rest).length := by
    have hlength := length_attributes e.attributes
    simp only [List.length_append, List.length_cons]
    omega
  rw [element_eq e formed, attributes_plain formed.names plain hfuel, Option.bind_some,
    if_pos formed.nodup]

theorem plain_of_element {e : Element} (formed : Formed e) {rest tail : List Char}
    (h : element (elementText e ++ rest) = some (e, tail)) :
    (∀ a ∈ e.attributes, Plain a.2) ∧ tail = rest := by
  rw [element_eq e formed] at h
  obtain ⟨⟨as, r⟩, has, hrest⟩ := Option.bind_eq_some_iff.mp h
  simp only at hrest
  split at hrest
  · obtain ⟨he, rfl⟩ := Prod.mk.inj (Option.some.inj hrest)
    have hsame : as = e.attributes := by rw [← he]
    rw [hsame] at has
    exact plain_of_attributes formed.names has
  · cases hrest

theorem elements_append (e : Element) (fuel : ℕ) (rest : List Char) :
    elements (fuel + 1) (elementText e ++ rest) =
      (element (elementText e ++ rest)).bind fun r => (elements fuel r.2).map (r.1 :: ·) := by
  have htext : elementText e ++ rest =
      '<' :: (e.name ++ (e.attributes.flatMap attributeText ++ ['/', '>']) ++ rest) := rfl
  rw [elements, htext, skip_cons (by decide)]
  rfl

theorem elements_plain {es : List Element} (formed : ∀ e ∈ es, Formed e)
    (plain : ∀ e ∈ es, ∀ a ∈ e.attributes, Plain a.2) {fuel : ℕ} (hfuel : es.length < fuel) :
    elements fuel (text es) = some es := by
  induction es generalizing fuel with
  | nil =>
    obtain ⟨fuel, rfl⟩ := Nat.exists_eq_add_one.mpr hfuel
    rfl
  | cons e es ih =>
    obtain ⟨fuel, rfl⟩ := Nat.exists_eq_add_one.mpr (Nat.zero_lt_of_lt hfuel)
    rw [text, List.flatMap_cons, elements_append e,
      element_plain (formed e List.mem_cons_self) (plain e List.mem_cons_self), Option.bind_some]
    have hrest := ih (fun b hb => formed b (List.mem_cons_of_mem _ hb))
      (fun b hb => plain b (List.mem_cons_of_mem _ hb)) (Nat.lt_of_succ_lt_succ hfuel)
    rw [text] at hrest
    rw [hrest]
    rfl

theorem plain_of_elements {es : List Element} (formed : ∀ e ∈ es, Formed e) {fuel : ℕ}
    (h : elements fuel (text es) = some es) : ∀ e ∈ es, ∀ a ∈ e.attributes, Plain a.2 := by
  induction es generalizing fuel with
  | nil => exact fun e he => absurd he List.not_mem_nil
  | cons e es ih =>
    cases fuel with
    | zero => cases h
    | succ fuel =>
      rw [text, List.flatMap_cons, elements_append e] at h
      obtain ⟨⟨e', r⟩, helement, hrest⟩ := Option.bind_eq_some_iff.mp h
      obtain ⟨fs, hfs, hcons⟩ := Option.map_eq_some_iff.mp hrest
      obtain ⟨rfl, rfl⟩ := List.cons.inj hcons
      obtain ⟨hplain, rfl⟩ := plain_of_element (formed _ List.mem_cons_self) helement
      have hothers := ih (fun b hb => formed b (List.mem_cons_of_mem _ hb)) hfs
      intro b hb
      rcases List.mem_cons.mp hb with rfl | hb
      · exact hplain
      · exact hothers b hb

theorem length_text (es : List Element) : es.length ≤ (text es).length := by
  induction es with
  | nil => exact Nat.le_refl _
  | cons e es ih =>
    rw [text] at ih
    simp only [text, List.flatMap_cons, List.length_append, List.length_cons, elementText]
    omega

/-- A text put together reads as what it was put together from when every value is plain, and only
then. -/
theorem read_text_iff {es : List Element} (formed : ∀ e ∈ es, Formed e) :
    read (text es) = some es ↔ ∀ e ∈ es, ∀ a ∈ e.attributes, Plain a.2 := by
  constructor
  · exact plain_of_elements formed
  · intro plain
    exact elements_plain formed plain (Nat.lt_succ_of_le (length_text es))

end NdimonR.Xml
