import NdimonR.Render.ReplaceKey

/-! Replacing a key changes its value and nothing else: the scan finds exactly the text that the
parser reads as the value. -/

namespace NdimonR.Render.ReplaceKey

open Json Json.Reader Scan

section
variable {float : List Char → Option ℚ} {d : Nat} {t T : List Char} {x : Json}

/-! ### Values -/

theorem stringEnd_quoted {s : String} (h : Quoted t s) (rest : List Char) :
    stringEnd (t ++ rest) = .ok (t, rest) := by
  obtain ⟨body, rfl, hclosed, -⟩ := h
  rw [List.cons_append, List.append_assoc, List.singleton_append, stringEnd, hclosed rest]

/-- A text that the scan of nested brackets goes over. -/
def Through (t : List Char) : Prop :=
  ∀ fuel depth rest, (t ++ rest).length ≤ fuel → 1 ≤ depth → ∃ left, rest.length ≤ left ∧
    nested fuel depth (t ++ rest) = (nested left depth rest).map fun e => (t ++ e.1, e.2)

theorem through_nil : Through [] := by
  intro fuel depth rest hfuel _
  refine ⟨fuel, hfuel, ?_⟩
  cases hread : nested fuel depth rest <;> simp [hread, Except.map]

theorem Through.append {s t : List Char} (hs : Through s) (ht : Through t) : Through (s ++ t) := by
  intro fuel depth rest hfuel hdepth
  rw [List.append_assoc] at hfuel ⊢
  obtain ⟨left, hleft, hfirst⟩ := hs fuel depth (t ++ rest) hfuel hdepth
  obtain ⟨last, hlast, hsecond⟩ := ht left depth rest hleft hdepth
  refine ⟨last, hlast, ?_⟩
  rw [hfirst, hsecond]
  cases nested last depth rest <;> simp [Except.map]

/-- A character that neither opens nor closes anything. -/
def Inert (c : Char) : Prop := c ∉ ['"', '\x7b', '\x7d', '[', ']']

theorem through_inert {c : Char} (h : Inert c) : Through [c] := by
  intro fuel depth rest hfuel _
  obtain ⟨fuel, rfl⟩ : ∃ n, fuel = n + 1 := ⟨fuel - 1, by simp at hfuel; omega⟩
  simp only [Inert, List.mem_cons, List.not_mem_nil, or_false, not_or] at h
  obtain ⟨hquote, hopen, hclose, hleft, hright⟩ := h
  refine ⟨fuel, by simpa using hfuel, ?_⟩
  simp [nested, hquote, hopen, hclose, hleft, hright]

theorem through_all (h : ∀ c ∈ t, Inert c) : Through t := by
  induction t with
  | nil => exact through_nil
  | cons c t ih =>
    have hrest := ih fun e he => h e (List.mem_cons_of_mem _ he)
    exact (through_inert (h c List.mem_cons_self)).append hrest

theorem through_quoted {s : String} (h : Quoted t s) : Through t := by
  intro fuel depth rest hfuel _
  have hend := stringEnd_quoted h rest
  obtain ⟨body, rfl, -⟩ := h
  obtain ⟨fuel, rfl⟩ : ∃ n, fuel = n + 1 := ⟨fuel - 1, by simp at hfuel; omega⟩
  refine ⟨fuel, ?_, ?_⟩
  · simp only [List.length_append, List.length_cons] at hfuel
    omega
  · rw [List.cons_append] at hend ⊢
    rw [nested, if_pos rfl, hend]
    rfl

theorem inert_space {c : Char} (h : isSpace c = true) : Inert c := by
  intro hc
  simp only [List.mem_cons, List.not_mem_nil, or_false] at hc
  rcases hc with rfl | rfl | rfl | rfl | rfl <;> cases h

theorem inert_bare {c : Char} (h : isBare c = true) : Inert c := by
  intro hc
  simp only [List.mem_cons, List.not_mem_nil, or_false] at hc
  rcases hc with rfl | rfl | rfl | rfl | rfl <;> cases h

theorem through_blanks {w : List Char} (hw : Blanks isSpace w) : Through w :=
  through_all fun c hc => inert_space (hw c hc)

/-- A bracket that opens or closes. -/
def Opens (c : Char) : Prop := c = '\x7b' ∨ c = '['

def Closes (c : Char) : Prop := c = '\x7d' ∨ c = ']'

theorem nested_opens {c : Char} (h : Opens c) (fuel : Nat) (depth : Int) (rest : List Char) :
    nested (fuel + 1) depth (c :: rest) =
      (nested fuel (depth + 1) rest).map fun e => (c :: e.1, e.2) := by
  rcases h with rfl | rfl <;> simp [nested]

theorem nested_closes {c : Char} (h : Closes c) (fuel : Nat) (depth : Int) (rest : List Char) :
    nested (fuel + 1) depth (c :: rest) =
      if depth - 1 = 0 then .ok ([c], rest)
      else (nested fuel (depth - 1) rest).map fun e => (c :: e.1, e.2) := by
  rcases h with rfl | rfl <;> simp [nested]

theorem through_bracket {opening closing : Char} (hopen : Opens opening) (hclose : Closes closing)
    (h : Through T) : Through (opening :: (T ++ [closing])) := by
  intro fuel depth rest hfuel hdepth
  obtain ⟨fuel, rfl⟩ : ∃ n, fuel = n + 1 := ⟨fuel - 1, by simp at hfuel; omega⟩
  simp only [List.cons_append, List.append_assoc, List.nil_append, List.length_cons] at hfuel ⊢
  obtain ⟨left, hleft, hfirst⟩ := h fuel (depth + 1) (closing :: rest) (by omega) (by omega)
  obtain ⟨left, rfl⟩ : ∃ n, left = n + 1 := ⟨left - 1, by simp at hleft; omega⟩
  refine ⟨left, by simpa using hleft, ?_⟩
  rw [nested_opens hopen, hfirst, nested_closes hclose, if_neg (by omega), Int.add_sub_cancel]
  cases nested left depth rest <;> simp [Except.map]

theorem through_member {P : List Char → Json → Prop} (hP : ∀ t x, P t x → Through t)
    {e : String × Json} (h : MemberText P t e) : Through t := by
  obtain ⟨s, w, w', v, rfl, hs, hw, hw', hv⟩ := h.parts
  have hcolon : Through [':'] := through_inert (by simp [Inert])
  have hvalue := (through_blanks hw').append (hP v _ hv)
  exact ((through_quoted hs).append (through_blanks hw)).append (hcolon.append hvalue)

theorem through_between {α : Type} {P : List Char → α → Prop} (hP : ∀ t a, P t a → Through t)
    {as : List α} (h : Between isSpace P T as) : Through T := by
  rcases h with ⟨hT, -⟩ | h
  · exact through_blanks hT
  · induction h with
    | last hw ht hw' => exact ((through_blanks hw).append (hP _ _ ht)).append (through_blanks hw')
    | more hw ht hw' _ ih =>
      have hcomma : Through [','] := through_inert (by simp [Inert])
      exact (((through_blanks hw).append (hP _ _ ht)).append (through_blanks hw')).append
        (hcomma.append ih)

theorem through_simple (h : Simple float t x) : Through t := by
  rcases h with ⟨s, hs, -⟩ | h
  · exact through_quoted hs
  · exact through_all fun c hc => inert_bare (h.bare c hc)

theorem through_written (h : Written float d t x) : Through t := by
  induction d generalizing t x with
  | zero => exact through_simple h
  | succ d ih =>
    rcases h with h | ⟨T, xs, rfl, hT, -⟩ | ⟨T, ms, rfl, hT, -⟩
    · exact through_simple h
    · exact through_bracket (.inr rfl) (.inr rfl) (through_between (fun _ _ => ih) hT)
    · exact through_bracket (.inl rfl) (.inl rfl)
        (through_between (fun _ _ => through_member fun _ _ => ih) hT)

theorem nested_bracket {opening closing : Char} (hopen : Opens opening) (hclose : Closes closing)
    (h : Through T) {b rest : List Char} (hb : b = opening :: (T ++ [closing]) ++ rest) :
    nested b.length 0 b = .ok (opening :: (T ++ [closing]), rest) := by
  subst hb
  simp only [List.cons_append, List.append_assoc, List.nil_append, List.length_cons]
  obtain ⟨left, hleft, hfirst⟩ := h _ (0 + 1) (closing :: rest) le_rfl (by omega)
  obtain ⟨left, rfl⟩ : ∃ n, left = n + 1 := ⟨left - 1, by simp at hleft; omega⟩
  rw [nested_opens hopen, hfirst, nested_closes hclose, if_pos (by omega)]
  simp [Except.map]

/-- What comes after a value at the top. -/
def Ends (after : List Char) : Prop := ∀ c ∈ after.head?, isScalar c = false

theorem isScalar_bare {c : Char} (h : isBare c = true) : isScalar c = true := by
  have hne : ∀ d, isBare d = false → c ≠ d := by
    intro d hd he
    rw [he, hd] at h
    cases h
  simp [isScalar, isAsciiWhitespace, hne ' ' rfl, hne '\t' rfl, hne '\n' rfl, hne '\r' rfl,
    hne '\x0c' rfl, hne ',' rfl, hne '\x7d' rfl]

theorem isAsciiWhitespace_space {c : Char} (h : isSpace c = true) : isAsciiWhitespace c = true := by
  simp only [isSpace, Bool.or_eq_true, decide_eq_true_eq] at h
  simp [isAsciiWhitespace, h]

theorem valueEnd_bare (h : Bare float t x) {after : List Char} (hafter : Ends after) :
    valueEnd (t ++ after) = .ok (t, after) := by
  have hscalar : ∀ c ∈ t, isScalar c = true := fun c hc => isScalar_bare (h.bare c hc)
  obtain ⟨htake, hdrop⟩ := span_stops hscalar hafter
  obtain ⟨c, l, rfl⟩ := List.exists_cons_of_ne_nil h.ne
  have hne : ∀ d, isBare d = false → c ≠ d := by
    intro d hd he
    have hc := h.bare c List.mem_cons_self
    rw [he, hd] at hc
    cases hc
  rw [valueEnd, htake, hdrop, List.cons_append, List.head?_cons]
  simp [hne '"' rfl, hne '\x7b' rfl, hne '[' rfl]

/-- The scan ends a value where its text does. -/
theorem valueEnd_written (h : Written float d t x) {after : List Char} (hafter : Ends after) :
    valueEnd (t ++ after) = .ok (t, after) := by
  have hsimple : Simple float t x → valueEnd (t ++ after) = .ok (t, after) := by
    intro h
    rcases h with ⟨s, hs, -⟩ | h
    · have hend := stringEnd_quoted hs after
      obtain ⟨body, rfl, -⟩ := hs
      rw [valueEnd, hend]
      rfl
    · exact valueEnd_bare h hafter
  cases d with
  | zero => exact hsimple h
  | succ d =>
    rcases h with h | ⟨T, xs, rfl, hT, -⟩ | ⟨T, ms, rfl, hT, -⟩
    · exact hsimple h
    · have hthrough := through_between (fun _ _ => through_written) hT
      rw [valueEnd, nested_bracket (.inr rfl) (.inr rfl) hthrough rfl]
      simp
    · have hthrough := through_between (fun _ _ => through_member fun _ _ => through_written) hT
      rw [valueEnd, nested_bracket (.inl rfl) (.inl rfl) hthrough rfl]
      simp

/-! ### Members -/

theorem ends_blanks {w : List Char} (hw : Blanks isSpace w) {c : Char} (hc : isScalar c = false)
    (rest : List Char) : Ends (w ++ c :: rest) := by
  intro e he
  cases w with
  | nil =>
    cases he
    exact hc
  | cons b w =>
    cases he
    simp [isScalar, isAsciiWhitespace_space (hw e List.mem_cons_self)]

theorem whitespace_blanks {w : List Char} (hw : Blanks isSpace w) (rest : List Char)
    (hrest : ∀ c ∈ rest.head?, isAsciiWhitespace c = false) :
    (w ++ rest).takeWhile isAsciiWhitespace = w ∧ (w ++ rest).dropWhile isAsciiWhitespace = rest :=
  span_stops (fun c hc => isAsciiWhitespace_space (hw c hc)) hrest

theorem whitespace_opening {c : Char} (h : Opening c) : isAsciiWhitespace c = false := by
  have hne : ∀ d, d ∉ ['"', '[', '\x7b'] → isBare d = false → c ≠ d := fun d => h.ne
  simp [isAsciiWhitespace, hne ' ' (by decide) rfl, hne '\t' (by decide) rfl,
    hne '\n' (by decide) rfl, hne '\r' (by decide) rfl, hne '\x0c' (by decide) rfl]

theorem readString_quoted {s : String} (h : Quoted t s) : readString t = some s := by
  have hread := string_of_quoted h []
  obtain ⟨body, rfl, -⟩ := h
  rw [List.append_nil] at hread
  rw [readString, skip_cons rfl, hread]
  rfl

theorem entry_member {s w w' v after : List Char} {k : String} (hs : Quoted s k)
    (hw : Blanks isSpace w) (hw' : Blanks isSpace w') (hv : Written float d v x)
    (hafter : Ends after) :
    entry (s ++ (w ++ ':' :: (w' ++ (v ++ after)))) = .ok ⟨s ++ w ++ ':' :: w', k, v, after⟩ := by
  obtain ⟨c, l, hl, hc⟩ := hv.opening
  obtain ⟨htake, hdrop⟩ := whitespace_blanks hw (':' :: (w' ++ (v ++ after))) (by
    intro c hc
    cases hc
    rfl)
  obtain ⟨htake', hdrop'⟩ := whitespace_blanks hw' (v ++ after) (by
    intro e he
    rw [hl] at he
    cases he
    exact whitespace_opening hc)
  rw [entry, stringEnd_quoted hs]
  simp only [bind, Except.bind, readString_quoted hs, Option.elim_some, htake, hdrop, htake',
    hdrop', valueEnd_written hv hafter]

/-- A member up to its value. -/
structure Lead (l : List Char) (k : String) : Prop where
  parts : ∃ s w w', l = s ++ w ++ ':' :: w' ∧ Quoted s k ∧ Blanks isSpace w ∧ Blanks isSpace w'

theorem Lead.member {P : List Char → Json → Prop} {l v : List Char} {k : String} (hl : Lead l k)
    (hv : P v x) : MemberText P (l ++ v) (k, x) := by
  obtain ⟨s, w, w', rfl, hs, hw, hw'⟩ := hl.parts
  exact ⟨⟨s, w, w', v, by simp, hs, hw, hw', hv⟩⟩

theorem lead_of_member {P : List Char → Json → Prop} {k : String} (h : MemberText P t (k, x)) :
    ∃ l v, t = l ++ v ∧ Lead l k ∧ P v x := by
  obtain ⟨s, w, w', v, rfl, hs, hw, hw', hv⟩ := h.parts
  exact ⟨s ++ w ++ ':' :: w', v, by simp, ⟨s, w, w', rfl, hs, hw, hw'⟩, hv⟩

theorem lead_quote (k : String) : Lead ((quote k).toList ++ [':']) k :=
  ⟨(quote k).toList, [], [], by simp, quoted_quote k, nofun, nofun⟩

section
variable {w w' l v rest : List Char} {k key : String}

theorem entry_lead (hl : Lead l k) (hv : Written float d v x) {after : List Char}
    (hafter : Ends after) : entry (l ++ v ++ after) = .ok ⟨l, k, v, after⟩ := by
  obtain ⟨s, u, u', rfl, hs, hu, hu'⟩ := hl.parts
  have hentry := entry_member hs hu hu' hv hafter
  simpa using hentry

theorem whitespace_lead (hl : Lead l k) (hw : Blanks isSpace w) (rest : List Char) :
    (w ++ (l ++ rest)).takeWhile isAsciiWhitespace = w ∧
      (w ++ (l ++ rest)).dropWhile isAsciiWhitespace = l ++ rest ∧ ∃ b, l = '"' :: b := by
  obtain ⟨s, u, u', rfl, ⟨body, rfl, -⟩, -⟩ := hl.parts
  obtain ⟨htake, hdrop⟩ := whitespace_blanks hw
    ('"' :: (body ++ ['"']) ++ u ++ ':' :: u' ++ rest) (by
    intro c hc
    cases hc
    rfl)
  exact ⟨htake, hdrop, _, rfl⟩

/-- One round of the loop. -/
theorem members_lead (hl : Lead l k) (hv : Written float d v x) (hw : Blanks isSpace w)
    {after : List Char} (hafter : Ends after) (fuel : Nat) (before : List Char)
    (found : Option (List Char × List Char)) (count : Nat) :
    members key (fuel + 1) before (w ++ (l ++ v) ++ after) found count =
      if k = key ∧ found.isSome then .error (.text s!"duplicate key {key}")
      else
        match after.dropWhile isAsciiWhitespace with
        | ',' :: rest =>
          members key fuel (before ++ (w ++ (l ++ v) ++ after.takeWhile isAsciiWhitespace ++ [',']))
            rest (if k = key then some (before ++ (w ++ l), after) else found) (count + 1)
        | '\x7d' :: rest =>
          .ok ⟨before ++ (w ++ (l ++ v) ++ after.takeWhile isAsciiWhitespace), '\x7d' :: rest,
            if k = key then some (before ++ (w ++ l), after) else found, count + 1⟩
        | _ => .error (.text "expected object separator") := by
  have htext : w ++ (l ++ v) ++ after = w ++ (l ++ (v ++ after)) := by
    simp
  have hentry := entry_lead hl hv hafter
  obtain ⟨htake, hdrop, b, rfl⟩ := whitespace_lead hl hw (v ++ after)
  rw [htext, members]
  simp only [List.append_assoc, List.cons_append] at htake hdrop hentry ⊢
  simp only [htake, hdrop, bind, Except.bind]
  split
  · rename_i heq
    cases heq
  · simp only [hentry, List.cons_append]
    all_goals rfl

theorem whitespace_mark (hw : Blanks isSpace w) {c : Char} (hc : isAsciiWhitespace c = false)
    (rest : List Char) : (w ++ c :: rest).takeWhile isAsciiWhitespace = w ∧
      (w ++ c :: rest).dropWhile isAsciiWhitespace = c :: rest := by
  refine whitespace_blanks hw _ ?_
  intro e he
  cases he
  exact hc

/-- A round that another follows. -/
theorem members_comma (hl : Lead l k) (hv : Written float d v x) (hw : Blanks isSpace w)
    (hw' : Blanks isSpace w') {found : Option (List Char × List Char)}
    (hnew : ¬(k = key ∧ found.isSome)) (fuel : Nat) (before : List Char) (count : Nat)
    (rest : List Char) :
    members key (fuel + 1) before (w ++ (l ++ v) ++ (w' ++ ',' :: rest)) found count =
      members key fuel (before ++ (w ++ (l ++ v) ++ w' ++ [','])) rest
        (if k = key then some (before ++ (w ++ l), w' ++ ',' :: rest) else found) (count + 1) := by
  obtain ⟨htake, hdrop⟩ := whitespace_mark hw' (c := ',') rfl rest
  rw [members_lead hl hv hw (ends_blanks hw' rfl rest), if_neg hnew, htake, hdrop]
  rfl

/-- The last round. -/
theorem members_brace (hl : Lead l k) (hv : Written float d v x) (hw : Blanks isSpace w)
    (hw' : Blanks isSpace w') {found : Option (List Char × List Char)}
    (hnew : ¬(k = key ∧ found.isSome)) (fuel : Nat) (before : List Char) (count : Nat) :
    members key (fuel + 1) before (w ++ (l ++ v) ++ (w' ++ '\x7d' :: rest)) found count =
      .ok ⟨before ++ (w ++ (l ++ v) ++ w'), '\x7d' :: rest,
        if k = key then some (before ++ (w ++ l), w' ++ '\x7d' :: rest) else found, count + 1⟩ := by
  obtain ⟨htake, hdrop⟩ := whitespace_mark hw' (c := '\x7d') rfl rest
  rw [members_lead hl hv hw (ends_blanks hw' rfl rest), if_neg hnew, htake, hdrop]
  rfl

theorem members_closed (hw : Blanks isSpace w) (fuel : Nat) (before : List Char)
    (found : Option (List Char × List Char)) (count : Nat) :
    members key (fuel + 1) before (w ++ '\x7d' :: rest) found count =
      .ok ⟨before ++ w, '\x7d' :: rest, found, count⟩ := by
  obtain ⟨htake, hdrop⟩ := whitespace_mark hw (c := '\x7d') rfl rest
  rw [members, htake, hdrop]
  rfl

/-- Members under other names are read and left as they are. -/
theorem members_front {bs : List (String × Json)} {B : List Char}
    (hB : Front isSpace (MemberText (Written float d)) B bs) (hkey : key ∉ bs.map Prod.fst)
    {fuel : Nat} (hfuel : (B ++ rest).length < fuel) (before : List Char)
    (found : Option (List Char × List Char)) (count : Nat) :
    ∃ left, rest.length < left ∧ members key fuel before (B ++ rest) found count =
      members key left (before ++ B) rest found (count + bs.length) := by
  rcases hB with ⟨rfl, rfl⟩ | ⟨T, rfl, hT⟩
  · exact ⟨fuel, hfuel, by simp⟩
  · induction hT generalizing fuel before count with
    | @last w t w' e hw ht hw' =>
      obtain ⟨k, x⟩ := e
      obtain ⟨l, v, rfl, hl, hv⟩ := lead_of_member ht
      obtain ⟨fuel, rfl⟩ : ∃ n, fuel = n + 1 := ⟨fuel - 1, by omega⟩
      have hk : ¬k = key := fun he => hkey (by simp [he])
      have hround := members_comma hl hv hw hw' (fun h : k = key ∧ found.isSome => hk h.1) fuel
        before count rest
      refine ⟨fuel, ?_, ?_⟩
      · simp only [List.length_append, List.length_cons] at hfuel
        omega
      · simpa [hk] using hround
    | @more w t w' T e es hw ht hw' _ ih =>
      obtain ⟨k, x⟩ := e
      obtain ⟨l, v, rfl, hl, hv⟩ := lead_of_member ht
      obtain ⟨fuel, rfl⟩ : ∃ n, fuel = n + 1 := ⟨fuel - 1, by omega⟩
      have hk : ¬k = key := fun he => hkey (by simp [he])
      have hround := members_comma hl hv hw hw' (fun h : k = key ∧ found.isSome => hk h.1) fuel
        before count (T ++ [','] ++ rest)
      rw [if_neg hk] at hround
      have hless : (T ++ [','] ++ rest).length < fuel := by
        simp only [List.length_append, List.length_cons] at hfuel ⊢
        omega
      have hother : key ∉ es.map Prod.fst := fun h => hkey (List.mem_cons_of_mem _ h)
      obtain ⟨left, hleft, hrest⟩ := ih hother (before ++ (w ++ (l ++ v) ++ w' ++ [',']))
        (count + 1) hless
      rw [hrest] at hround
      refine ⟨left, hleft, ?_⟩
      simpa [Nat.add_assoc, Nat.add_comm 1] using hround

theorem members_other {ms : List (String × Json)}
    (hT : Between isSpace (MemberText (Written float d)) T ms) (hkey : key ∉ ms.map Prod.fst)
    {fuel : Nat} (hfuel : (T ++ '\x7d' :: rest).length < fuel) (before : List Char)
    (found : Option (List Char × List Char)) (count : Nat) :
    members key fuel before (T ++ '\x7d' :: rest) found count =
      .ok ⟨before ++ T, '\x7d' :: rest, found, count + ms.length⟩ := by
  rcases hT with ⟨hT, rfl⟩ | hT
  · obtain ⟨fuel, rfl⟩ : ∃ n, fuel = n + 1 := ⟨fuel - 1, by omega⟩
    exact members_closed hT fuel before found count
  · rcases List.eq_nil_or_concat ms with rfl | ⟨bs, ⟨k, x⟩, rfl⟩
    · cases hT
    · rw [List.concat_eq_append] at hT hkey ⊢
      obtain ⟨B, w, t, w', C, rfl, hB, hw, ht, hw', hC⟩ := hT.place
      rcases hC with ⟨rfl, -⟩ | ⟨T, -, hT⟩
      · obtain ⟨l, v, rfl, hl, hv⟩ := lead_of_member ht
        simp only [List.map_append, List.mem_append, List.map_singleton, List.mem_singleton,
          not_or] at hkey
        have htext : B ++ (w ++ (l ++ v) ++ w' ++ []) ++ '\x7d' :: rest =
            B ++ (w ++ (l ++ v) ++ (w' ++ '\x7d' :: rest)) := by
          simp
        rw [htext] at hfuel ⊢
        obtain ⟨left, hleft, hfront⟩ := members_front hB hkey.1 hfuel before found count
        obtain ⟨left, rfl⟩ : ∃ n, left = n + 1 := ⟨left - 1, by omega⟩
        rw [hfront, members_brace hl hv hw hw' (fun h => hkey.2 h.1.symm), if_neg (Ne.symm hkey.2)]
        simp [Nat.add_assoc]
      · cases hT

/-! ### The place of a key -/

/-- Where the value of a key stands among the members of an object: the texts before and after it,
and the members there. -/
structure Place (float : List Char → Option ℚ) (key : String) (before after : List Char)
    (bs cs : List (String × Json)) : Prop where
  parts : ∃ w₀ B w l w' C w₁, before = w₀ ++ '\x7b' :: (B ++ (w ++ l)) ∧
    after = w' ++ (C ++ '\x7d' :: w₁) ∧ Blanks isSpace w₀ ∧ Blanks isSpace w ∧
    Blanks isSpace w' ∧ Blanks isSpace w₁ ∧ Lead l key ∧
    Front isSpace (MemberText (Written float (maxDepth - 1))) B bs ∧
    Back isSpace (MemberText (Written float (maxDepth - 1))) C cs

variable {before after : List Char} {bs cs : List (String × Json)}

theorem Place.object (h : Place float key before after bs cs)
    (hv : Written float (maxDepth - 1) v x) :
    ObjectText float (before ++ v ++ after) (bs ++ (key, x) :: cs) := by
  obtain ⟨w₀, B, w, l, w', C, w₁, rfl, rfl, hw₀, hw, hw', hw₁, hl, hB, hC⟩ := h.parts
  refine ⟨w₀, B ++ (w ++ (l ++ v) ++ w' ++ C), w₁, by simp, hw₀, hw₁, .inr ?_⟩
  exact seq_of_place hB hw (hl.member hv) hw' hC

/-- Every member of an object has its place. -/
theorem place_of_object {raw : List Char}
    (h : ObjectText float raw (bs ++ (key, x) :: cs)) : ∃ before v after,
      raw = before ++ v ++ after ∧ Place float key before after bs cs ∧
        Written float (maxDepth - 1) v x := by
  obtain ⟨w₀, T, w₁, rfl, hw₀, hw₁, hT⟩ := h
  rcases hT with ⟨-, hnil⟩ | hT
  · simp at hnil
  · obtain ⟨B, w, t, w', C, rfl, hB, hw, ht, hw', hC⟩ := hT.place
    obtain ⟨l, v, rfl, hl, hv⟩ := lead_of_member ht
    exact ⟨w₀ ++ '\x7b' :: (B ++ (w ++ l)), v, w' ++ (C ++ '\x7d' :: w₁), by simp,
      ⟨w₀, B, w, l, w', C, w₁, rfl, rfl, hw₀, hw, hw', hw₁, hl, hB, hC⟩, hv⟩

/-- The scan comes to the key with nothing found yet. -/
theorem members_place {B : List Char}
    (hB : Front isSpace (MemberText (Written float d)) B bs) (hkey : key ∉ bs.map Prod.fst)
    {fuel : Nat} (hfuel : (B ++ rest).length < fuel) (before : List Char) :
    ∃ left, rest.length ≤ left ∧ members key fuel before (B ++ rest) none 0 =
      members key (left + 1) (before ++ B) rest none bs.length := by
  obtain ⟨left, hleft, hfront⟩ := members_front hB hkey hfuel before none 0
  obtain ⟨left, rfl⟩ : ∃ n, left = n + 1 := ⟨left - 1, by omega⟩
  exact ⟨left, by omega, by rw [hfront, Nat.zero_add]⟩

theorem spliced_place {B C : List Char} (hB : Front isSpace (MemberText (Written float d)) B bs)
    (hw : Blanks isSpace w) (hl : Lead l key) (hv : Written float d v x) (hw' : Blanks isSpace w')
    (hC : Back isSpace (MemberText (Written float d)) C cs) (hbs : key ∉ bs.map Prod.fst)
    (hcs : key ∉ cs.map Prod.fst) (before replacement : List Char) :
    spliced key replacement before (B ++ (w ++ (l ++ v) ++ (w' ++ (C ++ '\x7d' :: rest)))) =
      .ok (String.ofList (before ++ B ++ (w ++ l) ++ replacement ++
        (w' ++ (C ++ '\x7d' :: rest)))) := by
  have hfuel := Nat.lt_succ_self (B ++ (w ++ (l ++ v) ++ (w' ++ (C ++ '\x7d' :: rest)))).length
  obtain ⟨left, hleft, hfront⟩ := members_place hB hbs hfuel before
  have hnew : ¬(key = key ∧ (none : Option (List Char × List Char)).isSome) := by simp
  rw [spliced, hfront]
  rcases hC with ⟨rfl, rfl⟩ | ⟨T, rfl, hT⟩
  · rw [List.nil_append, members_brace hl hv hw hw' hnew, if_pos rfl]
    simp [bind, Except.bind]
  · have hless : (T ++ '\x7d' :: rest).length < left := by
      simp only [List.length_append, List.length_cons] at hleft ⊢
      omega
    rw [List.cons_append, members_comma hl hv hw hw' hnew, if_pos rfl,
      members_other (.inr hT) hcs hless]
    simp [bind, Except.bind]

theorem first_member (h : key ∈ cs.map Prod.fst) :
    ∃ as x es, cs = as ++ (key, x) :: es ∧ key ∉ as.map Prod.fst := by
  obtain ⟨ks, js, hmap, hnot⟩ := List.eq_append_cons_of_mem h
  obtain ⟨as, rest, rfl, rfl, hrest⟩ := List.map_eq_append_iff.mp hmap
  obtain ⟨⟨k, x⟩, es, rfl, rfl, -⟩ := List.map_eq_cons_iff.mp hrest
  exact ⟨as, x, es, rfl, hnot⟩

/-- A second value of the key ends the scan. -/
theorem spliced_duplicate {B C : List Char}
    (hB : Front isSpace (MemberText (Written float d)) B bs) (hw : Blanks isSpace w)
    (hl : Lead l key) (hv : Written float d v x) (hw' : Blanks isSpace w')
    (hC : Back isSpace (MemberText (Written float d)) C cs) (hbs : key ∉ bs.map Prod.fst)
    (hcs : key ∈ cs.map Prod.fst) (before replacement : List Char) :
    spliced key replacement before (B ++ (w ++ (l ++ v) ++ (w' ++ (C ++ '\x7d' :: rest)))) =
      .error (.text s!"duplicate key {key}") := by
  have hfuel := Nat.lt_succ_self (B ++ (w ++ (l ++ v) ++ (w' ++ (C ++ '\x7d' :: rest)))).length
  obtain ⟨left, hleft, hfront⟩ := members_place hB hbs hfuel before
  have hnew : ¬(key = key ∧ (none : Option (List Char × List Char)).isSome) := by simp
  rw [spliced, hfront]
  rcases hC with ⟨-, rfl⟩ | ⟨T, rfl, hT⟩
  · cases hcs
  · obtain ⟨as, y, es, rfl, has⟩ := first_member hcs
    obtain ⟨B', u, t, u', C', rfl, hB', hu, ht, hu', hC'⟩ := hT.place
    obtain ⟨m, z, rfl, hm, hz⟩ := lead_of_member ht
    have htext : B' ++ (u ++ (m ++ z) ++ u' ++ C') ++ '\x7d' :: rest =
        B' ++ (u ++ (m ++ z) ++ (u' ++ (C' ++ '\x7d' :: rest))) := by
      simp
    have hends : Ends (u' ++ (C' ++ '\x7d' :: rest)) := by
      rcases hC' with ⟨rfl, -⟩ | ⟨S, rfl, -⟩
      · exact ends_blanks hu' rfl rest
      · exact ends_blanks hu' rfl _
    rw [List.cons_append, members_comma hl hv hw hw' hnew, if_pos rfl, htext]
    have hless : (B' ++ (u ++ (m ++ z) ++ (u' ++ (C' ++ '\x7d' :: rest)))).length < left := by
      simp only [List.length_append, List.length_cons] at hleft ⊢
      omega
    obtain ⟨last, hlast, hsecond⟩ := members_front hB' has hless _ _ _
    obtain ⟨last, rfl⟩ : ∃ n, last = n + 1 := ⟨last - 1, by omega⟩
    rw [hsecond, members_lead hm hz hu hends, if_pos ⟨rfl, rfl⟩]
    rfl

end

end

/-! ### The result -/

section
variable {float : List Char → Option ℚ} {floatText : ℚ → String} {raw key : String} {value : Json}
variable {ms bs cs : List (String × Json)}

theorem replaceKey_object {w₀ rest : List Char} (hraw : raw.toList = w₀ ++ '\x7b' :: rest)
    (hw₀ : Blanks isSpace w₀) (h : ObjectText float raw.toList ms) :
    replaceKey float floatText raw key value =
      spliced key (nodeJson floatText value).toList (w₀ ++ ['\x7b']) rest := by
  have hbrace : ∀ c ∈ w₀, decide (c ≠ '\x7b') = true := by
    intro c hc
    rw [decide_eq_true_eq]
    intro he
    have hspace := hw₀ c hc
    rw [he] at hspace
    cases hspace
  rw [replaceKey, read_of_object h]
  simp only [ofMembers]
  rw [hraw, List.dropWhile_append_of_pos hbrace, List.takeWhile_append_of_pos hbrace]
  simp

theorem replaceKey_place {before v after : List Char} {x : Json}
    (h : Place float key before after bs cs) (hv : Written float (maxDepth - 1) v x)
    (hbs : key ∉ bs.map Prod.fst) (hcs : key ∉ cs.map Prod.fst)
    (hraw : raw.toList = before ++ v ++ after) : replaceKey float floatText raw key value =
      .ok (String.ofList (before ++ (nodeJson floatText value).toList ++ after)) := by
  have hobject := h.object hv
  obtain ⟨w₀, B, w, l, w', C, w₁, rfl, rfl, hw₀, hw, hw', hw₁, hl, hB, hC⟩ := h.parts
  have htext : raw.toList =
      w₀ ++ '\x7b' :: (B ++ (w ++ (l ++ v) ++ (w' ++ (C ++ '\x7d' :: w₁)))) := by
    rw [hraw]
    simp
  rw [← hraw] at hobject
  rw [replaceKey_object htext hw₀ hobject, spliced_place hB hw hl hv hw' hC hbs hcs]
  simp

theorem replaceKey_duplicate {before v after : List Char} {x : Json}
    (h : Place float key before after bs cs) (hv : Written float (maxDepth - 1) v x)
    (hbs : key ∉ bs.map Prod.fst) (hcs : key ∈ cs.map Prod.fst)
    (hraw : raw.toList = before ++ v ++ after) :
    replaceKey float floatText raw key value = .error (.text s!"duplicate key {key}") := by
  have hobject := h.object hv
  obtain ⟨w₀, B, w, l, w', C, w₁, rfl, rfl, hw₀, hw, hw', hw₁, hl, hB, hC⟩ := h.parts
  have htext : raw.toList =
      w₀ ++ '\x7b' :: (B ++ (w ++ (l ++ v) ++ (w' ++ (C ++ '\x7d' :: w₁)))) := by
    rw [hraw]
    simp
  rw [← hraw] at hobject
  rw [replaceKey_object htext hw₀ hobject, spliced_duplicate hB hw hl hv hw' hC hbs hcs]

/-- Where a key that an object does not have goes. -/
structure Added (float : List Char → Option ℚ) (raw key : String) (ms : List (String × Json))
    (before after : List Char) : Prop where
  text : raw.toList = before ++ '\x7d' :: after
  last : Blanks isSpace after
  place : Place float key (before ++ (if ms = [] then [] else [',']) ++ (quote key).toList ++ [':'])
    ('\x7d' :: after) ms []

theorem replaceKey_absent (floatText : ℚ → String) (value : Json)
    (h : ObjectText float raw.toList ms) (hkey : key ∉ ms.map Prod.fst) :
    ∃ before after, Added float raw key ms before after ∧
      replaceKey float floatText raw key value = .ok (String.ofList (before ++
        (if ms = [] then [] else [',']) ++ (quote key).toList ++ ':' ::
          (nodeJson floatText value).toList ++ '\x7d' :: after)) := by
  obtain ⟨w₀, T, w₁, hraw, hw₀, hw₁, hT⟩ := id h
  refine ⟨w₀ ++ '\x7b' :: T, w₁, ⟨by simpa using hraw, hw₁, ?_⟩, ?_⟩
  · rcases hT with ⟨hT, rfl⟩ | hT
    · exact ⟨w₀, [], T, _, [], [], w₁, by simp, by simp, hw₀, hT, nofun, hw₁, lead_quote key,
        .inl ⟨rfl, rfl⟩, .inl ⟨rfl, rfl⟩⟩
    · have hne : ms ≠ [] := by
        intro he
        rw [he] at hT
        cases hT
      exact ⟨w₀, T ++ [','], [], _, [], [], w₁, by simp [hne], by simp, hw₀, nofun, nofun, hw₁,
        lead_quote key, .inr ⟨T, rfl, hT⟩, .inl ⟨rfl, rfl⟩⟩
  · rw [replaceKey_object hraw hw₀ h, spliced, members_other hT hkey (Nat.lt_succ_self _)]
    cases ms with
    | nil => simp [bind, Except.bind]
    | cons e ms => simp [bind, Except.bind]

end

mutual
theorem depth_numbers (x : Json) : (numbers x).depth = x.depth := by
  cases x with
  | float q =>
    rw [numbers]
    split <;> rfl
  | arr xs => rw [numbers, depth, depth, depth_numbersItems xs]
  | obj ms => rw [numbers, depth, depth, depth_numbersMembers ms]
  | null | bool | int | str => rfl

theorem depth_numbersItems (xs : List Json) : depthItems (numbersItems xs) = depthItems xs := by
  cases xs with
  | nil => rfl
  | cons x xs => rw [numbersItems, depthItems, depthItems, depth_numbers x, depth_numbersItems xs]

theorem depth_numbersMembers (ms : List (String × Json)) :
    depthMembers (numbersMembers ms) = depthMembers ms := by
  cases ms with
  | nil => rfl
  | cons e ms =>
    obtain ⟨k, x⟩ := e
    rw [numbersMembers, depthMembers, depthMembers, depth_numbers x, depth_numbersMembers ms]
end

/-- What the text of an object becomes: `text` in place of the key's value, or a new member before
the closing brace. -/
structure Replaced (float : List Char → Option ℚ) (raw key : String) (ms : List (String × Json))
    (text : List Char) (out : String) : Prop where
  present : key ∈ ms.map Prod.fst → ∃ before v after bs x cs,
    raw.toList = before ++ v ++ after ∧ ms = bs ++ (key, x) :: cs ∧
    Place float key before after bs cs ∧ Written float (maxDepth - 1) v x ∧
    out.toList = before ++ text ++ after
  absent : key ∉ ms.map Prod.fst → ∃ before after,
    raw.toList = before ++ '\x7d' :: after ∧ Blanks isSpace after ∧
    out.toList = before ++ (if ms = [] then [] else [',']) ++ (quote key).toList ++
      ':' :: text ++ '\x7d' :: after

/-- A value that the parser reads back one level down, since it goes no deeper and since the text of
each float is read as that float. -/
structure Fits (float : List Char → Option ℚ) (floatText : ℚ → String) (value : Json) : Prop where
  readable : (numbers value).Readable float floatText
  depth : value.depth ≤ maxDepth - 1

def withKey (key : String) (value : Json) (ms : List (String × Json)) : Json :=
  .obj ((SortedMap.ofList ms).insert key value).entries

/-- What the parser reads a value's text as, one level down. -/
def readBelow (float : List Char → Option ℚ) (l : List Char) : Option Json :=
  match Reader.value float (maxDepth - 1) l with
  | some (y, []) => some y
  | _ => none

section
variable {float : List Char → Option ℚ} {floatText : ℚ → String} {raw key : String} {value : Json}
variable {ms bs cs : List (String × Json)}

theorem written_of_readBelow {l : List Char} {y : Json} (h : readBelow float l = some y) :
    Written float (maxDepth - 1) l y := by
  unfold readBelow at h
  split at h
  · rename_i z hz
    obtain ⟨t, rfl, ht⟩ := written_of_value hz
    cases h
    rwa [List.append_nil]
  · cases h

theorem readBelow_fits (h : Fits float floatText value) :
    readBelow float (nodeJson floatText value).toList = some (numbers value).sorted := by
  have hdepth : (numbers value).depth ≤ maxDepth - 1 := (depth_numbers value).le.trans h.depth
  have hstops : Stops isBare [] := nofun
  have hread := value_of_written (written_render (numbers value) h.readable hdepth) hstops
  rw [List.append_nil] at hread
  rw [readBelow, nodeJson, hread]

/-- Once the value stands in its place, it reads back, and doing it again does nothing. -/
theorem settled {before after : List Char} {out : String} {y : Json}
    (h : Place float key before after bs cs) (hbs : key ∉ bs.map Prod.fst)
    (hcs : key ∉ cs.map Prod.fst)
    (hout : out.toList = before ++ (nodeJson floatText value).toList ++ after)
    (hy : readBelow float (nodeJson floatText value).toList = some y) :
    read float out.toList = some (ofMembers (bs ++ (key, y) :: cs)) ∧
      replaceKey float floatText out key value = .ok out := by
  have hwritten := written_of_readBelow hy
  refine ⟨?_, ?_⟩
  · rw [hout]
    exact read_of_object (h.object hwritten)
  · rw [replaceKey_place h hwritten hbs hcs hout, ← hout, String.ofList_toList]

theorem replaceKey_once (h : ObjectText float raw.toList ms)
    (hcount : (ms.map Prod.fst).count key ≤ 1) :
    ∃ out, replaceKey float floatText raw key value = .ok out ∧
      Replaced float raw key ms (nodeJson floatText value).toList out ∧
      ∀ y, readBelow float (nodeJson floatText value).toList = some y →
        read float out.toList = some (withKey key y ms) ∧
        replaceKey float floatText out key value = .ok out := by
  by_cases hkey : key ∈ ms.map Prod.fst
  · obtain ⟨bs, x, cs, rfl, hbs⟩ := first_member hkey
    have hcs : key ∉ cs.map Prod.fst := by
      rw [List.map_append, List.map_cons, List.count_append, List.count_cons_self] at hcount
      exact List.count_eq_zero.mp (by omega)
    obtain ⟨before, v, after, hraw, hplace, hv⟩ := place_of_object h
    refine ⟨_, replaceKey_place hplace hv hbs hcs hraw, ⟨?_, fun hnot => absurd hkey hnot⟩, ?_⟩
    · intro _
      exact ⟨before, v, after, bs, x, cs, hraw, rfl, hplace, hv, String.toList_ofList⟩
    · intro y hy
      have hsettled := settled hplace hbs hcs String.toList_ofList hy
      rwa [ofMembers, SortedMap.ofList_replace bs hcs x] at hsettled
  · obtain ⟨before, after, hadded, hok⟩ := replaceKey_absent floatText value h hkey
    refine ⟨_, hok, ⟨fun hmem => absurd hmem hkey, ?_⟩, ?_⟩
    · intro _
      exact ⟨before, after, hadded.text, hadded.last, String.toList_ofList⟩
    · intro y hy
      have htext : (String.ofList (before ++ (if ms = [] then [] else [',']) ++
          (quote key).toList ++ ':' :: (nodeJson floatText value).toList ++ '\x7d' :: after)).toList =
          before ++ (if ms = [] then [] else [',']) ++ (quote key).toList ++ [':'] ++
            (nodeJson floatText value).toList ++ '\x7d' :: after := by
        rw [String.toList_ofList]
        simp
      have hsettled := settled hadded.place hkey (by simp) htext hy
      rw [ofMembers, SortedMap.ofList, List.foldl_append] at hsettled
      exact hsettled

theorem replaceKey_twice (h : ObjectText float raw.toList ms)
    (hcount : 1 < (ms.map Prod.fst).count key) :
    replaceKey float floatText raw key value = .error (.text s!"duplicate key {key}") := by
  obtain ⟨bs, x, cs, rfl, hbs⟩ := first_member (List.count_pos_iff.mp (Nat.zero_lt_of_lt hcount))
  have hcs : key ∈ cs.map Prod.fst := by
    rw [List.map_append, List.map_cons, List.count_append, List.count_cons_self,
      List.count_eq_zero.mpr hbs] at hcount
    exact List.count_pos_iff.mp (by omega)
  obtain ⟨before, v, after, hraw, hplace, hv⟩ := place_of_object h
  exact replaceKey_duplicate hplace hv hbs hcs hraw

theorem replaceKey_other (h : ∀ m, read float raw.toList ≠ some (.obj m)) :
    ∃ e, replaceKey float floatText raw key value = .error e := by
  unfold replaceKey
  split
  · exact ⟨_, rfl⟩
  · rename_i m hm
    exact absurd hm (h m)
  · exact ⟨_, rfl⟩

end

/-- A key that an object has at most once is set, and nothing else changes; one that it has twice,
or a text that is no object, is refused. -/
theorem replaceKey_one_value (float : List Char → Option ℚ) (floatText : ℚ → String)
    (raw key : String) (value : Json) :
    (∀ m, read float raw.toList = some (.obj m) →
      ∃ ms, readMembers float raw.toList = some ms ∧ (SortedMap.ofList ms).entries = m ∧
        ((ms.map Prod.fst).count key ≤ 1 →
          ∃ out, replaceKey float floatText raw key value = .ok out ∧
            Replaced float raw key ms (nodeJson floatText value).toList out ∧
            ∀ y, readBelow float (nodeJson floatText value).toList = some y →
              read float out.toList = some (withKey key y ms) ∧
              replaceKey float floatText out key value = .ok out) ∧
        (1 < (ms.map Prod.fst).count key →
          replaceKey float floatText raw key value = .error (.text s!"duplicate key {key}"))) ∧
    (Fits float floatText value →
      readBelow float (nodeJson floatText value).toList = some (numbers value).sorted) ∧
    ((∀ m, read float raw.toList ≠ some (.obj m)) →
      ∃ e, replaceKey float floatText raw key value = .error e) := by
  refine ⟨fun m hm => ?_, readBelow_fits, replaceKey_other⟩
  obtain ⟨ms, hobject, heq⟩ := object_of_read hm
  exact ⟨ms, readMembers_of_object hobject, Json.obj.inj heq, replaceKey_once hobject,
    replaceKey_twice hobject⟩

/-- One float of the parser and of the writer. -/
def half (l : List Char) : Option ℚ := if l = "1.5".toList then some (3 / 2) else none

theorem fits_half : Fits half (fun _ => "1.5") (.float (3 / 2)) := by
  refine ⟨?_, by decide⟩
  have hnumbers : numbers (.float (3 / 2)) = .float (3 / 2) := by decide +kernel
  rw [hnumbers]
  exact ⟨by decide, List.all_eq_true.mp rfl, by decide +kernel⟩

theorem replaceKey_one_value_half :
    ∃ out, replaceKey half (fun _ => "1.5") "\x7b\"a\" : [\"\x7d\"]\x7d" "b" (.float (3 / 2)) =
        .ok out ∧
      read half out.toList = some (.obj [("a", .arr [.str "\x7d"]), ("b", .float (3 / 2))]) ∧
      replaceKey half (fun _ => "1.5") out "b" (.float (3 / 2)) = .ok out := by
  have hread : read half "\x7b\"a\" : [\"\x7d\"]\x7d".toList =
      some (.obj [("a", .arr [.str "\x7d"])]) := by
    decide +kernel
  have hmembers : readMembers half "\x7b\"a\" : [\"\x7d\"]\x7d".toList =
      some [("a", .arr [.str "\x7d"])] := by
    decide +kernel
  obtain ⟨hobject, hbelow, -⟩ := replaceKey_one_value half (fun _ => "1.5")
    "\x7b\"a\" : [\"\x7d\"]\x7d" "b" (.float (3 / 2))
  obtain ⟨ms, hms, -, hone, -⟩ := hobject _ hread
  obtain rfl := Option.some.inj (hms.symm.trans hmembers)
  obtain ⟨out, hok, -, hsettled⟩ := hone (by decide)
  obtain ⟨hout, hagain⟩ := hsettled _ (hbelow fits_half)
  have hkey : withKey "b" (numbers (.float (3 / 2))).sorted [("a", .arr [.str "\x7d"])] =
      .obj [("a", .arr [.str "\x7d"]), ("b", .float (3 / 2))] := by
    decide +kernel
  exact ⟨out, hok, hkey ▸ hout, hagain⟩

/-- Arrays in one another. -/
def nest (n : Nat) : Json := (fun x => .arr [x])^[n] (.arr [])

/-- A value that the parser reads by itself is too deep for it one level down. -/
theorem deep_value_not_read :
    ∃ out, read half (nodeJson (fun _ => "1.5") (nest 126)).toList = some (nest 126) ∧
      replaceKey half (fun _ => "1.5") "\x7b\x7d" "a" (nest 126) = .ok out ∧
      read half out.toList = none ∧
      replaceKey half (fun _ => "1.5") out "a" (nest 126) = .error .parser := by
  refine ⟨"\x7b\"a\":" ++ (nodeJson (fun _ => "1.5") (nest 126)) ++ "\x7d", ?_, ?_, ?_, ?_⟩ <;>
    decide +kernel

end NdimonR.Render.ReplaceKey
