import NdimonR.Library.Encoding

/-! Reading JSON values back: typed views of a value, decoders built from them, and what a decoder
finds in an encoded record. A decoder gives nothing where the value is of another type. -/

namespace NdimonR.Json

universe u v

variable {α : Type u} {β : Type v}

/-! ### Views -/

def asStr : Json → Option String
  | .str s => some s
  | _ => none

def asArray : Json → Option (List Json)
  | .arr items => some items
  | _ => none

def asObject : Json → Option (List (String × Json))
  | .obj members => some members
  | _ => none

def asU64 : Json → Option Nat
  | .int n => if 0 ≤ n ∧ n < 18446744073709551616 then some n.toNat else none
  | _ => none

def isBoolean : Json → Bool
  | .bool _ => true
  | _ => false

/-- The value under a key, where the value is an object that has it. -/
def get (k : String) (j : Json) : Option Json := (asObject j).bind (SortedMap.lookup k)

def keys (j : Json) : List String := ((asObject j).getD []).map Prod.fst

/-- An object from its members, in any order. -/
def ofMembers (members : List (String × Json)) : Json := .obj (SortedMap.ofList members).entries

theorem member_eq_get (k : String) (j : Json) : member k j = (get k j).getD .null := by
  cases j <;> rfl

@[simp] theorem asObject_ofMembers (members : List (String × Json)) :
    asObject (ofMembers members) = some (SortedMap.ofList members).entries := rfl

theorem get_ofMembers {members : List (String × Json)} (h : (members.map Prod.fst).Nodup)
    (k : String) : get k (ofMembers members) = SortedMap.lookup k members :=
  SortedMap.get?_ofList h k

theorem mem_keys_ofMembers {members : List (String × Json)} {k : String} :
    k ∈ keys (ofMembers members) ↔ k ∈ members.map Prod.fst :=
  SortedMap.mem_keys_ofList

theorem mem_keys_iff {k : String} {j : Json} : k ∈ keys j ↔ (get k j).isSome = true := by
  unfold keys get
  cases asObject j with
  | none => simp
  | some members =>
    rw [Option.isSome_iff_ne_none, Option.bind_some, ne_eq, SortedMap.lookup_eq_none_iff, not_not]
    rfl

/-! ### Decoders -/

def natBelow (bound : Nat) : Json → Option Nat
  | .int n => if 0 ≤ n ∧ n < bound then some n.toNat else none
  | _ => none

def nullable (dec : Json → Option α) : Json → Option (Option α)
  | .null => some none
  | j => (dec j).map some

def items (dec : Json → Option α) (j : Json) : Option (List α) := (asArray j).bind (List.mapM dec)

/-- The value an enumeration writes as this text. -/
def oneOf (text : α → String) (all : List α) (j : Json) : Option α :=
  (asStr j).bind fun s => all.find? fun a => text a == s

/-- An object without members outside `known`. -/
def closed (known : List String) (j : Json) : Option Unit :=
  if (asObject j).isSome ∧ ∀ k ∈ keys j, k ∈ known then some () else none

def need (dec : Json → Option α) (k : String) (j : Json) : Option α := (get k j).bind dec

/-- A member that may be left out. -/
def defaulted (dec : Json → Option α) (default : α) (k : String) (j : Json) : Option α :=
  match get k j with
  | none => some default
  | some x => dec x

theorem need_of_get {dec : Json → Option α} {k : String} {j x : Json} {a : α}
    (hj : get k j = some x) (h : dec x = some a) : need dec k j = some a := by
  rw [need, hj]
  exact h

theorem natBelow_nat {bound n : Nat} (h : n < bound) :
    natBelow bound (Value.nat n).val = some n := by
  have hn : (0 : Int) ≤ Int.ofNat n ∧ Int.ofNat n < (bound : Int) :=
    ⟨Int.natCast_nonneg n, Int.ofNat_lt.mpr h⟩
  simp only [natBelow, Value.nat, if_pos hn]
  rfl

theorem asU64_nat {n : Nat} (h : n < 18446744073709551616) : asU64 (Value.nat n).val = some n :=
  natBelow_nat h

theorem nullable_ofOption {dec : Json → Option α} {enc : α → Value} (hs : Solid enc)
    (o : Option α) (h : ∀ a, o = some a → dec (enc a).val = some a) :
    nullable dec (ofOption enc o).val = some o := by
  cases o with
  | none => rfl
  | some a =>
    have hne : (enc a).val ≠ .null := fun he => hs.ne_null a (Subtype.ext he)
    change nullable dec (enc a).val = _
    unfold nullable
    split
    · rename_i he
      exact absurd he hne
    · rw [h a rfl]
      rfl

theorem items_ofItems {dec : Json → Option α} {enc : α → Value} {l : List α}
    (h : ∀ a ∈ l, dec (enc a).val = some a) : items dec (ofItems enc l).val = some l := by
  change List.mapM dec (l.map fun a => (enc a).val) = some l
  induction l with
  | nil => rfl
  | cons a rest ih =>
    rw [List.map_cons, List.mapM_cons, h a (by simp), ih fun b hb => h b (by simp [hb])]
    rfl

theorem asStr_str (s : String) : asStr (Value.str s).val = some s := rfl

theorem defaulted_nonempty {γ : Type v} {dec : Json → Option γ} {enc : γ → Value}
    {items' : α → List γ} {a : α} {k : String} {j : Json}
    (hj : get k j = (nonempty enc items' a).map Subtype.val)
    (h : ∀ x ∈ items' a, dec (enc x).val = some x) :
    defaulted (items dec) [] k j = some (items' a) := by
  unfold defaulted
  rw [hj]
  by_cases hs : items' a = []
  · simp [nonempty, hs]
  · simp only [nonempty, hs, if_false, Option.map_some]
    exact items_ofItems h

theorem defaulted_optional {γ : Type v} {dec : Json → Option γ} {enc : γ → Value}
    {value : α → Option γ} {a : α} {k : String} {j : Json}
    (hj : get k j = (optional enc value a).map Subtype.val)
    (h : ∀ x, dec (enc x).val = some x) :
    defaulted (fun x => (dec x).map some) none k j = some (value a) := by
  unfold defaulted
  rw [hj]
  cases hv : value a <;> simp [optional, hv, h]

/-! ### Encoded records -/

theorem get_object {fields : List (String × Value)} (h : (fields.map Prod.fst).Nodup) (k : String) :
    get k (Value.object fields).val = (SortedMap.lookup k fields).map Subtype.val := by
  have hnodup : ((fields.map fun f => (f.1, f.2.val)).map Prod.fst).Nodup := by
    rw [List.map_map]
    exact h
  change get k (ofMembers (fields.map fun f => (f.1, f.2.val))) = _
  rw [get_ofMembers hnodup]
  clear h hnodup
  induction fields with
  | nil => rfl
  | cons f rest ih =>
    by_cases hk : k = f.1
    · simp [SortedMap.lookup, hk]
    · simp [SortedMap.lookup, hk, ih]

theorem closed_object {fields : List (String × Value)} {known : List String}
    (h : fields.map Prod.fst ⊆ known) : closed known (Value.object fields).val = some () := by
  have hk : (asObject (Value.object fields).val).isSome ∧
      ∀ k ∈ keys (Value.object fields).val, k ∈ known := by
    refine ⟨rfl, fun k hk => h ?_⟩
    have hk := mem_keys_ofMembers.mp hk
    rwa [List.map_map] at hk
  rw [closed, if_pos hk]

theorem filterMap_keys_sublist (fields : Fields α) (a : α) :
    ((fields.filterMap fun f => (f.2 a).map fun j => (f.1, j)).map Prod.fst).Sublist
      (fields.map Prod.fst) := by
  induction fields with
  | nil => exact .slnil
  | cons f rest ih =>
    cases hf : f.2 a with
    | none => simpa [List.filterMap_cons, hf] using ih.trans (List.sublist_cons_self _ _)
    | some j => simpa [List.filterMap_cons, hf] using ih

theorem get_record {fields : Fields α} (h : (fields.map Prod.fst).Nodup) (a : α) (k : String) :
    get k (record fields a).val =
      (SortedMap.lookup k fields).bind fun f => (f a).map Subtype.val := by
  rw [record, get_object ((filterMap_keys_sublist fields a).nodup h)]
  induction fields with
  | nil => rfl
  | cons f rest ih =>
    obtain ⟨hf, hr⟩ := List.nodup_cons.mp h
    by_cases hk : k = f.1
    · subst hk
      have hnone : SortedMap.lookup f.1
          (rest.filterMap fun f => (f.2 a).map fun j => (f.1, j)) = none := by
        rw [SortedMap.lookup_eq_none_iff]
        exact fun hm => hf ((filterMap_keys_sublist rest a).subset hm)
      cases hfa : f.2 a with
      | none => simp [hfa, hnone, SortedMap.lookup]
      | some j => simp [hfa, SortedMap.lookup]
    · cases hfa : f.2 a with
      | none => simpa [hfa, SortedMap.lookup, hk] using ih hr
      | some j => simpa [hfa, SortedMap.lookup, hk] using ih hr

theorem mem_keys_record {fields : Fields α} {a : α} {k : String}
    (h : k ∈ keys (record fields a).val) : k ∈ fields.map Prod.fst := by
  have h := mem_keys_ofMembers.mp h
  rw [List.map_map] at h
  exact (filterMap_keys_sublist fields a).subset h

theorem closed_record {fields : Fields α} {a : α} {known : List String}
    (h : fields.map Prod.fst ⊆ known) : closed known (record fields a).val = some () := by
  have hk : (asObject (record fields a).val).isSome ∧ ∀ k ∈ keys (record fields a).val, k ∈ known :=
    ⟨rfl, fun k hk => h (mem_keys_record hk)⟩
  rw [closed, if_pos hk]

end NdimonR.Json
