import NdimonR.Library.JsonWritten

/-! JSON values whose objects keep the order of their members: what holds of a value and of every
value in it, and the reader that leaves the members in the order of the text. -/

namespace NdimonR.Json

open Text Scan Reader

/-! ### Trees -/

section
variable {motive : Json → Prop}

mutual
theorem induct (scalar : ∀ x, asArray x = none → asObject x = none → motive x)
    (arr : ∀ items, (∀ x ∈ items, motive x) → motive (.arr items))
    (obj : ∀ members, (∀ e ∈ members, motive e.2) → motive (.obj members)) (x : Json) :
    motive x := by
  cases x with
  | arr items => exact arr items (inductItems scalar arr obj items)
  | obj members => exact obj members (inductMembers scalar arr obj members)
  | null | bool | int | float | str => exact scalar _ rfl rfl

theorem inductItems (scalar : ∀ x, asArray x = none → asObject x = none → motive x)
    (arr : ∀ items, (∀ x ∈ items, motive x) → motive (.arr items))
    (obj : ∀ members, (∀ e ∈ members, motive e.2) → motive (.obj members)) (items : List Json) :
    ∀ x ∈ items, motive x := by
  cases items with
  | nil =>
    intro x hx
    cases hx
  | cons y rest =>
    have hy := induct scalar arr obj y
    have hrest := inductItems scalar arr obj rest
    intro x hx
    rcases List.mem_cons.mp hx with rfl | hx
    · exact hy
    · exact hrest x hx

theorem inductMembers (scalar : ∀ x, asArray x = none → asObject x = none → motive x)
    (arr : ∀ items, (∀ x ∈ items, motive x) → motive (.arr items))
    (obj : ∀ members, (∀ e ∈ members, motive e.2) → motive (.obj members))
    (members : List (String × Json)) : ∀ e ∈ members, motive e.2 := by
  cases members with
  | nil =>
    intro e he
    cases he
  | cons f rest =>
    obtain ⟨k, y⟩ := f
    have hy := induct scalar arr obj y
    have hrest := inductMembers scalar arr obj rest
    intro e he
    rcases List.mem_cons.mp he with rfl | he
    · exact hy
    · exact hrest e he
end

end

section
variable (p : Json → Prop)

mutual
/-- Of a value and of every value in it. -/
def All : Json → Prop
  | .arr items => p (.arr items) ∧ AllItems items
  | .obj members => p (.obj members) ∧ AllMembers members
  | x => p x

def AllItems : List Json → Prop
  | [] => True
  | x :: rest => x.All ∧ AllItems rest

def AllMembers : List (String × Json) → Prop
  | [] => True
  | (_, x) :: rest => x.All ∧ AllMembers rest
end

variable {p}

theorem allItems_iff {items : List Json} : AllItems p items ↔ ∀ x ∈ items, x.All p := by
  induction items with
  | nil => simp [AllItems]
  | cons x rest ih => simp [AllItems, ih]

theorem allMembers_iff {members : List (String × Json)} :
    AllMembers p members ↔ ∀ e ∈ members, e.2.All p := by
  induction members with
  | nil => simp [AllMembers]
  | cons e rest ih => simp [AllMembers, ih]

theorem all_arr {items : List Json} (h : (Json.arr items).All p) : ∀ x ∈ items, x.All p :=
  allItems_iff.mp h.2

theorem all_obj {members : List (String × Json)} (h : (Json.obj members).All p) :
    ∀ e ∈ members, e.2.All p := allMembers_iff.mp h.2

theorem All.self {x : Json} (h : x.All p) : p x := by
  cases x with
  | arr | obj => exact h.1
  | null | bool | int | float | str => exact h

end

/-- A value whose objects have each name once. -/
def OneName : Json → Prop
  | .obj members => (members.map Prod.fst).Nodup
  | _ => True

theorem depth_le_items {x : Json} {items : List Json} (h : x ∈ items) :
    x.depth ≤ depthItems items := by
  induction items with
  | nil => cases h
  | cons y rest ih =>
    simp only [depthItems]
    rcases List.mem_cons.mp h with rfl | h
    · omega
    · have := ih h
      omega

theorem depth_le_members {e : String × Json} {members : List (String × Json)} (h : e ∈ members) :
    e.2.depth ≤ depthMembers members := by
  induction members with
  | nil => cases h
  | cons f rest ih =>
    simp only [depthMembers]
    rcases List.mem_cons.mp h with rfl | h
    · omega
    · have := ih h
      omega

theorem sortedItems_eq (items : List Json) : sortedItems items = items.map sorted := by
  induction items with
  | nil => rfl
  | cons x rest ih => simp [sortedItems, ih]

theorem sortedMembers_eq (members : List (String × Json)) :
    sortedMembers members = members.map fun e => (e.1, e.2.sorted) := by
  induction members with
  | nil => rfl
  | cons e rest ih => simp [sortedMembers, ih]

/-- Members in another order make the same object. -/
theorem ofMembers_perm {l l' : List (String × Json)} (h : l.Perm l')
    (hnames : (l.map Prod.fst).Nodup) : ofMembers l = ofMembers l' := by
  have hnames' : (l'.map Prod.fst).Nodup := (h.map Prod.fst).nodup_iff.mp hnames
  have hperm : l.Perm (SortedMap.ofList l').entries := h.trans (SortedMap.perm_ofList hnames').symm
  rw [ofMembers, ofMembers, SortedMap.ofList_perm hperm]

/-! ### Texts in order -/

namespace Reader

/-- A name that comes again replaces its value. -/
def placed (e : String × Json) : List (String × Json) → List (String × Json)
  | [] => [e]
  | f :: rest => if f.1 = e.1 then e :: rest else f :: placed e rest

/-- An object whose members stand as in the text. -/
def inOrder (members : List (String × Json)) : Json :=
  .obj (members.foldl (fun ms e => placed e ms) [])

theorem placed_of_not_mem {e : String × Json} {ms : List (String × Json)}
    (h : e.1 ∉ ms.map Prod.fst) : placed e ms = ms ++ [e] := by
  induction ms with
  | nil => rfl
  | cons f rest ih =>
    simp only [List.map_cons, List.mem_cons, not_or] at h
    rw [placed, if_neg (Ne.symm h.1), ih h.2]
    rfl

theorem inOrder_of_nodup {members : List (String × Json)}
    (h : (members.map Prod.fst).Nodup) : inOrder members = .obj members := by
  have hfold : ∀ ms es : List (String × Json), ((ms ++ es).map Prod.fst).Nodup →
      es.foldl (fun ms e => placed e ms) ms = ms ++ es := by
    intro ms es
    induction es generalizing ms with
    | nil => simp
    | cons e rest ih =>
      intro hnodup
      have hfresh : e.1 ∉ ms.map Prod.fst := by
        simp only [List.map_append, List.map_cons, List.nodup_append] at hnodup
        intro he
        exact hnodup.2.2 _ he _ List.mem_cons_self rfl
      rw [List.foldl_cons, placed_of_not_mem hfresh, ih]
      · simp
      · simpa using hnodup
  rw [inOrder, hfold [] members h]
  rfl

/-- Reading with the members left in order. -/
def readInOrder (float : List Char → Option ℚ) (l : List Char) : Option Json := do
  let (x, rest) ← shape (literal float) inOrder maxDepth (skip isSpace l)
  if rest.all isSpace then some x else none

section
variable {lit : List Char → Option Json} {make : List (String × Json) → Json} {d : Nat}
  {t : List Char} {x : Json}

theorem skip_shaped (h : Shaped lit make d t x) : skip isSpace t = t := by
  obtain ⟨c, rest, rfl, hc⟩ := h.opening
  exact skip_cons hc.isSpace rest

theorem stops_nil : Stops isBare [] := by
  intro c hc
  cases hc

theorem readInOrder_of_shaped {float : List Char → Option ℚ}
    (h : Shaped (literal float) inOrder maxDepth t x) : readInOrder float t = some x := by
  have hread := shape_of_shaped h stops_nil
  rw [List.append_nil] at hread
  rw [readInOrder, skip_shaped h, hread]
  rfl

/-- A text is the text of one value only. -/
theorem shaped_unique {y : Json} (hx : Shaped lit make d t x) (hy : Shaped lit make d t y) :
    x = y := by
  have hread := (shape_of_shaped hx stops_nil).symm.trans (shape_of_shaped hy stops_nil)
  cases hread
  rfl

theorem shaped_token (h : Token lit t x) : Shaped lit make d t x := by
  cases d with
  | zero => exact h
  | succ d => exact .inl h

end

end Reader

end NdimonR.Json
