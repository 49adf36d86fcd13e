import NdimonR.Library.Reading
import Mathlib.Data.List.Perm.Basic

/-! Assignments to the members of an object and to the first item of a list that a search finds. -/

namespace NdimonR.Json

universe u

/-! ### Members -/

/-- Assignment to a member; null becomes an object. -/
def set (k : String) (x : Json) : Json → Json
  | .obj members => .obj (SortedMap.insertEntry k x members)
  | .null => .obj [(k, x)]
  | j => j

/-- The members in turn. -/
def setAll (members : List (String × Json)) (j : Json) : Json :=
  members.foldl (fun j e => set e.1 e.2 j) j

/-- An item of an array; null where there is none. -/
def item (i : ℕ) (j : Json) : Json := (((asArray j).getD [])[i]?).getD .null

theorem set_obj (k : String) (x : Json) (m : SortedMap String Json) :
    set k x (.obj m.entries) = .obj (m.insert k x).entries := rfl

theorem get_obj (k : String) (m : SortedMap String Json) : get k (.obj m.entries) = m.get? k := rfl

theorem asObject_set (k : String) (x : Json) {j : Json} (h : (asObject j).isSome) :
    (asObject (set k x j)).isSome := by
  cases j with
  | obj members => rfl
  | null | bool | int | float | str | arr => cases h

theorem get_set (k l : String) (x : Json) {j : Json} (h : (asObject j).isSome) :
    get l (set k x j) = if l = k then some x else get l j := by
  cases j with
  | obj members => exact SortedMap.lookup_insertEntry k l x members
  | null | bool | int | float | str | arr => cases h

theorem member_set (k l : String) (x : Json) {j : Json} (h : (asObject j).isSome) :
    (set k x j).member l = if l = k then x else j.member l := by
  rw [member_eq_get, get_set k l x h, member_eq_get]
  split <;> rfl

/-- Objects with the same members under every key are the same. -/
theorem obj_ext {m n : SortedMap String Json}
    (h : ∀ k, get k (.obj m.entries) = get k (.obj n.entries)) :
    Json.obj m.entries = .obj n.entries := congrArg _ (congrArg _ (SortedMap.ext h))

theorem setAll_obj (members : List (String × Json)) (m : SortedMap String Json) :
    setAll members (.obj m.entries) =
      .obj (members.foldl (fun m e => m.insert e.1 e.2) m).entries := by
  induction members generalizing m with
  | nil => rfl
  | cons e rest ih => exact ih (m.insert e.1 e.2)

theorem asObject_setAll (members : List (String × Json)) {j : Json} (h : (asObject j).isSome) :
    (asObject (setAll members j)).isSome := by
  induction members generalizing j with
  | nil => exact h
  | cons e rest ih => exact ih (asObject_set e.1 e.2 h)

/-- A key that is not assigned keeps its value. -/
theorem member_setAll {members : List (String × Json)} {k : String}
    (hk : k ∉ members.map Prod.fst) {j : Json} (h : (asObject j).isSome) :
    (setAll members j).member k = j.member k := by
  induction members generalizing j with
  | nil => rfl
  | cons e rest ih =>
    rw [List.map_cons, List.mem_cons, not_or] at hk
    exact (ih hk.2 (asObject_set e.1 e.2 h)).trans ((member_set _ _ _ h).trans (if_neg hk.1))

/-- Of different keys, each has the value assigned to it. -/
theorem member_setAll_of_mem {members : List (String × Json)}
    (hnodup : (members.map Prod.fst).Nodup) {k : String} {x : Json} (hmem : (k, x) ∈ members)
    {j : Json} (h : (asObject j).isSome) : (setAll members j).member k = x := by
  induction members generalizing j with
  | nil => cases hmem
  | cons e rest ih =>
    obtain ⟨hfresh, hrest⟩ := List.nodup_cons.mp hnodup
    have hobject := asObject_set e.1 e.2 h
    rcases List.mem_cons.mp hmem with rfl | hmem
    · exact (member_setAll hfresh hobject).trans ((member_set _ _ _ h).trans (if_pos rfl))
    · exact ih hrest hmem hobject

/-- Members under different keys are all there afterwards. -/
theorem get_setAll {members : List (String × Json)} (hnodup : (members.map Prod.fst).Nodup)
    (m : SortedMap String Json) (k : String) :
    get k (setAll members (.obj m.entries)) = (SortedMap.lookup k members).or (m.get? k) := by
  rw [setAll_obj]
  exact SortedMap.get?_foldl_insert members hnodup m k

theorem member_ofMembers {members : List (String × Json)} (hnodup : (members.map Prod.fst).Nodup)
    {k : String} {x : Json} (h : SortedMap.lookup k members = some x) :
    (ofMembers members).member k = x := by
  rw [member_eq_get, get_ofMembers hnodup, h]
  rfl

theorem length_ofMembers {members : List (String × Json)} (h : (members.map Prod.fst).Nodup) :
    (keys (ofMembers members)).length = members.length := by
  have hsorted : (keys (ofMembers members)).Nodup :=
    (List.pairwise_map.mpr (SortedMap.ofList members).sorted).imp fun hlt => hlt.ne
  have hperm : (keys (ofMembers members)).Perm (members.map Prod.fst) :=
    (List.perm_ext_iff_of_nodup hsorted h).mpr fun k => mem_keys_ofMembers
  rw [hperm.length_eq, List.length_map]

theorem length_object {fields : List (String × Value)} (h : (fields.map Prod.fst).Nodup) :
    (keys (Value.object fields).val).length = fields.length := by
  have hnodup : ((fields.map fun f => (f.1, f.2.val)).map Prod.fst).Nodup := by
    rw [List.map_map]
    exact h
  exact (length_ofMembers hnodup).trans (List.length_map _)

/-! ### Items -/

variable {α β : Type u}

/-- The list with the first item that is found replaced. -/
def updateFirst (found : α → Bool) (f : α → α) : List α → List α
  | [] => []
  | x :: rest => if found x then f x :: rest else x :: updateFirst found f rest

/-- Where the keys differ, the first item under a key is the only one. -/
theorem updateFirst_eq_map {γ : Type u} [DecidableEq γ] (key : α → γ) (enc : α → β) (f : α → α)
    (g : β → β) (found : β → Bool) (k : γ) {l : List α} (hnodup : (l.map key).Nodup)
    (hfound : ∀ x ∈ l, found (enc x) = decide (key x = k))
    (hstep : ∀ x ∈ l, key x = k → g (enc x) = enc (f x)) :
    updateFirst found g (l.map enc) = (l.map fun x => if key x = k then f x else x).map enc := by
  induction l with
  | nil => rfl
  | cons x rest ih =>
    obtain ⟨hfresh, hrest⟩ := List.nodup_cons.mp hnodup
    have hx := hfound x List.mem_cons_self
    rw [List.map_cons, updateFirst, hx, List.map_cons, List.map_cons]
    by_cases hk : key x = k
    · have hothers : (rest.map fun y => if key y = k then f y else y) = rest := by
        conv_rhs => rw [← List.map_id rest]
        refine List.map_congr_left fun y hy => if_neg fun hyk => hfresh ?_
        rw [hk, ← hyk]
        exact List.mem_map_of_mem hy
      rw [if_pos (decide_eq_true hk), if_pos hk, hothers, hstep x List.mem_cons_self hk]
    · rw [if_neg (by simpa using hk), if_neg hk, ih hrest
        (fun y hy => hfound y (List.mem_cons_of_mem x hy))
        fun y hy => hstep y (List.mem_cons_of_mem x hy)]

end NdimonR.Json
