import NdimonR.Library.Json

/-! Encoders into JSON values, built from parts. `Faithful` says that even with null members
removed the encoding determines what was encoded, which is what a comparison that reads a
missing member as null needs. -/

namespace NdimonR.Json

universe u v

variable {α : Type u} {β : Type v}

namespace Value

def null : Value := ⟨.null, rfl⟩

def bool (b : Bool) : Value := ⟨.bool b, rfl⟩

def nat (n : Nat) : Value := ⟨.int (Int.ofNat n), rfl⟩

def float (q : ℚ) : Value := ⟨.float q, rfl⟩

def str (s : String) : Value := ⟨.str s, rfl⟩

def prune (v : Value) : Json := v.val.pruneNull

def member (k : String) (v : Value) : Value := ⟨v.val.member k, member_canonical v.property k⟩

theorem val_member (k : String) (v : Value) : (v.member k).val = v.val.member k := rfl

/-- An object from its members, in any order. -/
def object (fields : List (String × Value)) : Value :=
  ⟨.obj (SortedMap.ofList (fields.map fun f => (f.1, f.2.val))).entries, by
    refine canonical_obj_iff.mpr ⟨(SortedMap.ofList _).sorted, fun e he => ?_⟩
    obtain ⟨f, _, rfl⟩ := List.mem_map.mp (SortedMap.mem_ofList he)
    exact f.2.property⟩

/-- The members of an object. -/
def asMap (v : Value) : Option (SortedMap String Value) :=
  match v with
  | ⟨.obj members, h⟩ => some
      ⟨members.pmap (fun e he => (e.1, ⟨e.2, he⟩)) (canonical_obj_iff.mp h).2, by
        rw [List.pairwise_pmap]
        exact (canonical_obj_iff.mp h).1.imp fun hlt _ _ => hlt⟩
  | _ => none

/-- An object as it is written, from its members. -/
def mapJson (m : SortedMap String Value) : Json := .obj (m.entries.map fun e => (e.1, e.2.val))

theorem mapJson_of_asMap {v : Value} {m : SortedMap String Value} (h : v.asMap = some m) :
    mapJson m = v.val := by
  unfold asMap at h
  split at h
  · cases h
    simp [mapJson, List.map_pmap]
  · cases h

@[simp] theorem prune_null : null.prune = .null := rfl

@[simp] theorem prune_bool {a b : Bool} : (bool a).prune = (bool b).prune ↔ a = b := by
  simp [prune, bool, pruneNull]

@[simp] theorem prune_nat {a b : Nat} : (nat a).prune = (nat b).prune ↔ a = b := by
  simp only [prune, nat, pruneNull, Json.int.injEq]
  exact Int.ofNat_inj

@[simp] theorem prune_float {a b : ℚ} : (float a).prune = (float b).prune ↔ a = b := by
  simp [prune, float, pruneNull]

@[simp] theorem prune_str {a b : String} : (str a).prune = (str b).prune ↔ a = b := by
  simp [prune, str, pruneNull]

theorem prune_eq_null {v : Value} : v.prune = .null ↔ v = null := by
  rw [prune, pruneNull_eq_null, Subtype.ext_iff]
  rfl

theorem object_ne_null (fields : List (String × Value)) : object fields ≠ null := by
  intro h
  have := congrArg Subtype.val h
  cases this

theorem member_object {fields : List (String × Value)} (h : (fields.map Prod.fst).Nodup)
    (k : String) : (object fields).member k = (SortedMap.lookup k fields).getD null := by
  have hnodup : ((fields.map fun f => (f.1, f.2.val)).map Prod.fst).Nodup := by
    rw [List.map_map]
    exact h
  have hlookup : SortedMap.lookup k (fields.map fun f => (f.1, f.2.val)) =
      (SortedMap.lookup k fields).map Subtype.val := by
    clear h hnodup
    induction fields with
    | nil => rfl
    | cons d rest ih =>
      obtain ⟨j, y⟩ := d
      by_cases hk : k = j
      · simp [SortedMap.lookup, hk]
      · simp [SortedMap.lookup, hk, ih]
  apply Subtype.ext
  change ((SortedMap.ofList (fields.map fun f => (f.1, f.2.val))).get? k).getD .null = _
  rw [SortedMap.get?_ofList hnodup, hlookup]
  cases SortedMap.lookup k fields <;> rfl

/-- Two objects agree once pruned exactly when every member does. -/
theorem prune_object_eq_iff {fields others : List (String × Value)} :
    (object fields).prune = (object others).prune ↔
      ∀ k, ((object fields).member k).prune = ((object others).member k).prune :=
  pruneNull_obj_eq_iff (SortedMap.ofList _).sorted (SortedMap.ofList _).sorted

end Value

/-- Members of an object, each possibly left out. -/
abbrev Fields (α : Type u) := List (String × (α → Option Value))

def record (fields : Fields α) (a : α) : Value :=
  .object (fields.filterMap fun f => (f.2 a).map fun j => (f.1, j))

def ofItems (enc : α → Value) (l : List α) : Value :=
  ⟨.arr (l.map fun a => (enc a).val), by
    rw [canonical, canonicalItems_iff]
    intro x hx
    obtain ⟨a, _, rfl⟩ := List.mem_map.mp hx
    exact (enc a).property⟩

/-- A member that is always written. -/
def present {γ : Type v} (enc : γ → Value) (get : α → γ) (a : α) : Option Value := some (enc (get a))

/-- A member left out when there is nothing to write. -/
def optional {γ : Type v} (enc : γ → Value) (get : α → Option γ) (a : α) : Option Value :=
  (get a).map enc

/-- A list member left out when empty. -/
def nonempty {γ : Type v} (enc : γ → Value) (get : α → List γ) (a : α) : Option Value :=
  if get a = [] then none else some (ofItems enc (get a))

/-- An object with one member, naming the variant it holds. -/
def tagged (tag : String) (enc : α → Value) (a : α) : Value := .object [(tag, enc a)]

def ofOption (enc : α → Value) : Option α → Value
  | none => .null
  | some a => enc a

def ofMap [LinearOrder α] (key : α → String) (enc : β → Value) (m : SortedMap α β) : Value :=
  .object (m.entries.map fun e => (key e.1, enc e.2))

structure Faithful (enc : α → Value) : Prop where
  inj : ∀ a b, (enc a).prune = (enc b).prune → a = b

/-- Never encodes to null. -/
structure Solid (enc : α → Value) : Prop where
  ne_null : ∀ a, enc a ≠ .null

theorem Faithful.eq_iff {enc : α → Value} (h : Faithful enc) {a b : α} :
    (enc a).prune = (enc b).prune ↔ a = b :=
  ⟨h.inj a b, fun he => by rw [he]⟩

theorem Solid.prune_ne_null {enc : α → Value} (h : Solid enc) (a : α) : (enc a).prune ≠ .null :=
  fun he => h.ne_null a (Value.prune_eq_null.mp he)

theorem record_solid (fields : Fields α) : Solid (record fields) :=
  ⟨fun _ => Value.object_ne_null _⟩

theorem ofItems_solid (enc : α → Value) : Solid (ofItems enc) :=
  ⟨fun _ h => by cases congrArg Subtype.val h⟩

theorem ofMap_solid [LinearOrder α] (key : α → String) (enc : β → Value) :
    Solid (ofMap key enc) := ⟨fun _ => Value.object_ne_null _⟩

theorem str_faithful : Faithful Value.str := ⟨fun _ _ => Value.prune_str.mp⟩

theorem str_solid : Solid Value.str := ⟨fun _ h => by cases congrArg Subtype.val h⟩

theorem bool_faithful : Faithful Value.bool := ⟨fun _ _ => Value.prune_bool.mp⟩

theorem nat_faithful : Faithful Value.nat := ⟨fun _ _ => Value.prune_nat.mp⟩

theorem nat_solid : Solid Value.nat := ⟨fun _ h => by cases congrArg Subtype.val h⟩

theorem float_faithful : Faithful Value.float := ⟨fun _ _ => Value.prune_float.mp⟩

theorem float_solid : Solid Value.float := ⟨fun _ h => by cases congrArg Subtype.val h⟩

theorem keys_filterMap_sublist (fields : Fields α) (a : α) :
    ((fields.filterMap fun f => (f.2 a).map fun j => (f.1, j)).map Prod.fst).Sublist
      (fields.map Prod.fst) := by
  induction fields with
  | nil => simp
  | cons f rest ih =>
    cases hf : f.2 a with
    | none => simpa [hf] using ih.cons f.1
    | some j => simpa [hf] using ih

theorem member_record {fields : Fields α} (h : (fields.map Prod.fst).Nodup) {k : String}
    {enc : α → Option Value} (hm : (k, enc) ∈ fields) (a : α) :
    (record fields a).member k = (enc a).getD .null := by
  rw [record, Value.member_object (h.sublist (keys_filterMap_sublist fields a))]
  induction fields with
  | nil => cases hm
  | cons f rest ih =>
    obtain ⟨hf, hr⟩ := List.nodup_cons.mp h
    rcases List.mem_cons.mp hm with rfl | hm
    · cases he : enc a with
      | some j => simp [he, SortedMap.lookup]
      | none =>
        have hk : SortedMap.lookup k (rest.filterMap fun f => (f.2 a).map fun j => (f.1, j)) =
            none :=
          SortedMap.lookup_eq_none_iff.mpr
            (fun hin => hf ((keys_filterMap_sublist rest a).subset hin))
        simp [he, hk]
    · have hne : k ≠ f.1 := by
        rintro rfl
        exact hf (List.mem_map.mpr ⟨_, hm, rfl⟩)
      have hrest := ih hr hm
      cases he : f.2 a <;> simpa [he, SortedMap.lookup, hne] using hrest

/-- Records that agree once pruned agree member by member. -/
theorem record_inj {fields : Fields α} (hk : (fields.map Prod.fst).Nodup) {a b : α}
    (h : (record fields a).prune = (record fields b).prune) :
    ∀ f ∈ fields, ((f.2 a).getD .null).prune = ((f.2 b).getD .null).prune := by
  intro f hf
  have := Value.prune_object_eq_iff.mp h f.1
  rwa [← record, ← record, member_record hk hf, member_record hk hf] at this

@[simp] theorem present_getD {γ : Type v} (enc : γ → Value) (get : α → γ) (a : α) :
    (present enc get a).getD .null = enc (get a) := rfl

@[simp] theorem optional_getD {γ : Type v} (enc : γ → Value) (get : α → Option γ) (a : α) :
    (optional enc get a).getD .null = ofOption enc (get a) := by
  cases h : get a <;> simp [optional, ofOption, h]

/-- Items are compared whole, so only injectivity is asked of them. -/
theorem ofItems_faithful {enc : α → Value} (h : Faithful enc) : Faithful (ofItems enc) := by
  constructor
  intro a b he
  have hinj : Function.Injective fun a => (enc a).val :=
    fun x y hxy => h.inj x y (by rw [Value.prune, Value.prune, show (enc x).val = _ from hxy])
  have : a.map (fun a => (enc a).val) = b.map fun a => (enc a).val := by
    simpa [Value.prune, ofItems, pruneNull] using he
  exact List.map_injective_iff.mpr hinj this

theorem nonempty_inj {γ : Type v} {enc : γ → Value} (h : Faithful enc) (get : α → List γ)
    {a b : α} (he : ((nonempty enc get a).getD .null).prune =
      ((nonempty enc get b).getD .null).prune) : get a = get b := by
  unfold nonempty at he
  by_cases ha : get a = []
  · by_cases hb : get b = []
    · rw [ha, hb]
    · simp only [ha, hb, if_true, if_false] at he
      exact absurd he.symm ((ofItems_solid enc).prune_ne_null _)
  · by_cases hb : get b = []
    · simp only [ha, hb, if_true, if_false] at he
      exact absurd he ((ofItems_solid enc).prune_ne_null _)
    · simp only [ha, hb, if_false] at he
      exact (ofItems_faithful h).inj _ _ he

/-- A record is faithful when its members, compared after pruning, determine it. -/
theorem record_faithful {fields : Fields α} (hk : (fields.map Prod.fst).Nodup)
    (h : ∀ a b, (∀ f ∈ fields, ((f.2 a).getD .null).prune = ((f.2 b).getD .null).prune) → a = b) :
    Faithful (record fields) :=
  ⟨fun a b he => h a b (record_inj hk he)⟩

theorem tagged_faithful (tag : String) {enc : α → Value} (h : Faithful enc) :
    Faithful (tagged tag enc) := by
  constructor
  intro a b he
  have hm := Value.prune_object_eq_iff.mp he tag
  rw [Value.member_object (by simp), Value.member_object (by simp)] at hm
  exact h.inj a b (by simpa [SortedMap.lookup] using hm)

theorem tagged_ne_str (tag : String) (enc : α → Value) (a : α) (s : String) :
    (tagged tag enc a).prune ≠ (Value.str s).prune := by
  intro h
  cases h

theorem ofOption_faithful {enc : α → Value} (h : Faithful enc) (hs : Solid enc) :
    Faithful (ofOption enc) := by
  constructor
  intro a b he
  cases a with
  | none =>
    cases b with
    | none => rfl
    | some y => exact absurd he.symm (hs.prune_ne_null y)
  | some x =>
    cases b with
    | none => exact absurd he (hs.prune_ne_null x)
    | some y => rw [h.inj x y he]

theorem lookup_map {key : α → String} [LinearOrder α] (hk : Function.Injective key)
    (enc : β → Value) (l : List (α × β)) (k : α) :
    SortedMap.lookup (key k) (l.map fun e => (key e.1, enc e.2)) =
      (SortedMap.lookup k l).map enc := by
  induction l with
  | nil => rfl
  | cons d rest ih =>
    obtain ⟨j, y⟩ := d
    by_cases h : k = j
    · simp [SortedMap.lookup, h]
    · have : key k ≠ key j := fun he => h (hk he)
      simp [SortedMap.lookup, h, this, ih]

theorem member_ofMap {key : α → String} [LinearOrder α] (hk : Function.Injective key)
    (enc : β → Value) (m : SortedMap α β) (k : α) :
    (ofMap key enc m).member (key k) = ((m.get? k).map enc).getD .null := by
  have hnodup : ((m.entries.map fun e => (key e.1, enc e.2)).map Prod.fst).Nodup := by
    rw [List.map_map]
    change (m.entries.map (key ∘ Prod.fst)).Nodup
    rw [← List.map_map]
    exact m.keys_nodup.map hk
  rw [ofMap, Value.member_object hnodup, lookup_map hk]
  rfl

theorem ofMap_faithful {key : α → String} [LinearOrder α] (hk : Function.Injective key)
    {enc : β → Value} (h : Faithful enc) (hs : Solid enc) : Faithful (ofMap key enc) := by
  constructor
  intro a b he
  apply SortedMap.ext
  intro k
  have hm := Value.prune_object_eq_iff.mp he (key k)
  rw [← ofMap, ← ofMap, member_ofMap hk, member_ofMap hk] at hm
  cases ha : a.get? k with
  | none =>
    cases hb : b.get? k with
    | none => rfl
    | some y =>
      rw [ha, hb] at hm
      exact absurd hm.symm (hs.prune_ne_null y)
  | some x =>
    cases hb : b.get? k with
    | none =>
      rw [ha, hb] at hm
      exact absurd hm (hs.prune_ne_null x)
    | some y =>
      rw [ha, hb] at hm
      rw [h.inj x y hm]

theorem nodup_ofMap [LinearOrder α] {key : α → String} (hk : Function.Injective key)
    (enc : β → Value) (m : SortedMap α β) :
    ((m.entries.map fun e => (key e.1, (enc e.2).val)).map Prod.fst).Nodup := by
  rw [List.map_map]
  change (m.entries.map (key ∘ Prod.fst)).Nodup
  rw [← List.map_map]
  exact m.keys_nodup.map hk

/-- The members an encoded map has, in the order of their written keys. -/
theorem ofMap_members [LinearOrder α] {key : α → String} (hk : Function.Injective key)
    (enc : β → Value) (m : SortedMap α β) :
    ∃ members, (ofMap key enc m).val = .obj members ∧
      members.Perm (m.entries.map fun e => (key e.1, (enc e.2).val)) := by
  refine ⟨_, rfl, ?_⟩
  rw [List.map_map]
  exact SortedMap.perm_ofList (nodup_ofMap hk enc m)

/-- Text keys are written in the order the map has them. -/
theorem ofMap_id (enc : β → Value) (m : SortedMap String β) :
    (ofMap id enc m).val = .obj (m.entries.map fun e => (e.1, (enc e.2).val)) := by
  let n : SortedMap String Json :=
    ⟨m.entries.map fun e => (e.1, (enc e.2).val), List.pairwise_map.mpr m.sorted⟩
  have h := congrArg SortedMap.entries (SortedMap.ofList_entries n)
  change Json.obj (SortedMap.ofList ((m.entries.map fun e => (id e.1, enc e.2)).map
    fun f => (f.1, f.2.val))).entries = _
  rw [List.map_map]
  exact congrArg Json.obj h

end NdimonR.Json
