import NdimonR.Library.SortedMap
import NdimonR.Library.Text
import Mathlib.Data.Rat.Defs

/-! JSON values. Object equality ignores member order, so an object is represented by its
members in key order; `Canonical` says that this holds at every depth. Integers and
floating-point numbers are different values even where they are numerically equal. -/

namespace NdimonR

inductive Json where
  | null
  | bool (b : Bool)
  | int (n : Int)
  | float (q : ℚ)
  | str (s : String)
  | arr (items : List Json)
  | obj (members : List (String × Json))

namespace Json

mutual
def decEq : (a b : Json) → Decidable (a = b)
  | .null, .null => isTrue rfl
  | .bool a, .bool b => decidable_of_iff (a = b) (by simp)
  | .int a, .int b => decidable_of_iff (a = b) (by simp)
  | .float a, .float b => decidable_of_iff (a = b) (by simp)
  | .str a, .str b => decidable_of_iff (a = b) (by simp)
  | .arr a, .arr b => have := decEqItems a b; decidable_of_iff (a = b) (by simp)
  | .obj a, .obj b => have := decEqMembers a b; decidable_of_iff (a = b) (by simp)
  | .null, .bool _ | .null, .int _ | .null, .float _ | .null, .str _ | .null, .arr _
  | .null, .obj _ | .bool _, .null | .bool _, .int _ | .bool _, .float _ | .bool _, .str _
  | .bool _, .arr _ | .bool _, .obj _ | .int _, .null | .int _, .bool _ | .int _, .float _
  | .int _, .str _ | .int _, .arr _ | .int _, .obj _ | .float _, .null | .float _, .bool _
  | .float _, .int _ | .float _, .str _ | .float _, .arr _ | .float _, .obj _
  | .str _, .null | .str _, .bool _ | .str _, .int _ | .str _, .float _ | .str _, .arr _
  | .str _, .obj _ | .arr _, .null | .arr _, .bool _ | .arr _, .int _ | .arr _, .float _
  | .arr _, .str _ | .arr _, .obj _ | .obj _, .null | .obj _, .bool _ | .obj _, .int _
  | .obj _, .float _ | .obj _, .str _ | .obj _, .arr _ => isFalse nofun

def decEqItems : (a b : List Json) → Decidable (a = b)
  | [], [] => isTrue rfl
  | [], _ :: _ | _ :: _, [] => isFalse nofun
  | x :: xs, y :: ys =>
    have := decEq x y
    have := decEqItems xs ys
    decidable_of_iff (x = y ∧ xs = ys) (by simp)

def decEqMembers : (a b : List (String × Json)) → Decidable (a = b)
  | [], [] => isTrue rfl
  | [], _ :: _ | _ :: _, [] => isFalse nofun
  | (j, x) :: xs, (k, y) :: ys =>
    have := decEq x y
    have := decEqMembers xs ys
    decidable_of_iff (j = k ∧ x = y ∧ xs = ys) (by simp [and_assoc])
end

instance : DecidableEq Json := decEq

instance : Inhabited Json := ⟨.null⟩

def KeysSorted (members : List (String × Json)) : Prop :=
  members.Pairwise (fun a b => a.1 < b.1)

instance (members : List (String × Json)) : Decidable (KeysSorted members) :=
  inferInstanceAs (Decidable (members.Pairwise _))

mutual
/-- Object keys are strictly increasing at every depth. -/
def canonical : Json → Bool
  | .arr items => canonicalItems items
  | .obj members => decide (KeysSorted members) && canonicalMembers members
  | _ => true

def canonicalItems : List Json → Bool
  | [] => true
  | x :: rest => x.canonical && canonicalItems rest

def canonicalMembers : List (String × Json) → Bool
  | [] => true
  | (_, x) :: rest => x.canonical && canonicalMembers rest
end

/-- Indexing by a key: `null` where the key is absent or the value is no object. -/
def member (k : String) : Json → Json
  | .obj members => (SortedMap.lookup k members).getD .null
  | _ => .null

theorem canonicalMembers_iff {members : List (String × Json)} :
    canonicalMembers members = true ↔ ∀ e ∈ members, e.2.canonical = true := by
  induction members with
  | nil => simp [canonicalMembers]
  | cons e rest ih => simp [canonicalMembers, ih]

theorem canonicalItems_iff {items : List Json} :
    canonicalItems items = true ↔ ∀ x ∈ items, x.canonical = true := by
  induction items with
  | nil => simp [canonicalItems]
  | cons x rest ih => simp [canonicalItems, ih]

theorem canonical_obj_iff {members : List (String × Json)} :
    (Json.obj members).canonical = true ↔
      KeysSorted members ∧ ∀ e ∈ members, e.2.canonical = true := by
  simp [canonical, canonicalMembers_iff]

theorem member_canonical {j : Json} (h : j.canonical = true) (k : String) :
    (j.member k).canonical = true := by
  cases j with
  | obj members =>
    simp only [member]
    cases hl : SortedMap.lookup k members with
    | none => rfl
    | some x => exact (canonical_obj_iff.mp h).2 _ (SortedMap.mem_of_lookup hl)
  | null | bool | int | float | str | arr => rfl

/-- Bytes of a string between its quotes, quotes included. -/
def stringSize (s : String) : Nat :=
  s.toList.foldl (fun n c =>
    if c ∈ ['"', '\\', '\n', '\r', '\t', '\x08', '\x0c'] then n + 2
    else if c.toNat < 32 then n + 6
    else n + c.utf8Size) 2

mutual
/-- Bytes of the compact text; `floatLen` is the length of a float's shortest form. -/
def size (floatLen : ℚ → Nat) : Json → Nat
  | .null => 4
  | .bool b => if b then 4 else 5
  | .int n => Text.len (toString n)
  | .float q => floatLen q
  | .str s => stringSize s
  | .arr items => 2 + sizeItems floatLen items + (items.length - 1)
  | .obj members => 2 + sizeMembers floatLen members + (members.length - 1)

def sizeItems (floatLen : ℚ → Nat) : List Json → Nat
  | [] => 0
  | x :: rest => x.size floatLen + sizeItems floatLen rest

def sizeMembers (floatLen : ℚ → Nat) : List (String × Json) → Nat
  | [] => 0
  | (k, x) :: rest => stringSize k + 1 + x.size floatLen + sizeMembers floatLen rest
end

/-- A value as a program holds it: parsed, so with one member for each key. -/
abbrev Value := { j : Json // j.canonical = true }

def Value.emptyObject : Value := ⟨.obj [], by decide⟩

theorem sizeOf_member_lt (k : String) (members : List (String × Json)) :
    sizeOf (member k (.obj members)) < sizeOf (Json.obj members) := by
  simp only [member]
  induction members with
  | nil => simp [SortedMap.lookup]
  | cons e rest ih =>
    obtain ⟨j, x⟩ := e
    simp only [SortedMap.lookup]
    split
    · simp
      omega
    · simp at *
      omega

mutual
/-- Removes the members that are null, in objects directly nested in objects. -/
def pruneNull : Json → Json
  | .obj members => .obj (pruneMembers members)
  | j => j

def pruneMembers : List (String × Json) → List (String × Json)
  | [] => []
  | (k, x) :: rest => if x = .null then pruneMembers rest else (k, x.pruneNull) :: pruneMembers rest
end

@[simp] theorem pruneNull_eq_null {j : Json} : j.pruneNull = .null ↔ j = .null := by
  cases j <;> simp [pruneNull]

theorem mem_pruneMembers {members : List (String × Json)} {e : String × Json}
    (h : e ∈ pruneMembers members) : ∃ d ∈ members, d.1 = e.1 ∧ d.2.pruneNull = e.2 := by
  induction members with
  | nil => simp [pruneMembers] at h
  | cons d rest ih =>
    obtain ⟨k, x⟩ := d
    simp only [pruneMembers] at h
    split at h
    · obtain ⟨d, hd, he⟩ := ih h
      exact ⟨d, List.mem_cons_of_mem _ hd, he⟩
    · rcases List.mem_cons.mp h with rfl | h
      · exact ⟨(k, x), by simp, rfl, rfl⟩
      · obtain ⟨d, hd, he⟩ := ih h
        exact ⟨d, List.mem_cons_of_mem _ hd, he⟩

theorem keysSorted_pruneMembers {members : List (String × Json)} (h : KeysSorted members) :
    KeysSorted (pruneMembers members) := by
  induction members with
  | nil => simp [pruneMembers, KeysSorted]
  | cons d rest ih =>
    obtain ⟨k, x⟩ := d
    obtain ⟨hd, hr⟩ := List.pairwise_cons.mp h
    simp only [pruneMembers]
    split
    · exact ih hr
    · refine List.pairwise_cons.mpr ⟨fun e he => ?_, ih hr⟩
      obtain ⟨d, hm, heq, _⟩ := mem_pruneMembers he
      rw [← heq]
      exact hd d hm

/-- Pruning an object prunes what each key maps to. -/
theorem lookup_pruneMembers {members : List (String × Json)} (h : KeysSorted members) (k : String) :
    (SortedMap.lookup k (pruneMembers members)).getD .null =
      ((SortedMap.lookup k members).getD .null).pruneNull := by
  induction members with
  | nil => simp [pruneMembers, SortedMap.lookup, pruneNull]
  | cons d rest ih =>
    obtain ⟨j, x⟩ := d
    obtain ⟨hd, hr⟩ := List.pairwise_cons.mp h
    simp only [pruneMembers]
    by_cases hx : x = .null
    · simp only [hx, if_true, SortedMap.lookup]
      by_cases hk : k = j
      · have : SortedMap.lookup k rest = none := by
          rw [SortedMap.lookup_eq_none_iff]
          intro hm
          obtain ⟨e, he, hek⟩ := List.mem_map.mp hm
          have := hd e he
          simp [hek, hk] at this
        rw [ih hr, this]
        simp [hk]
      · simp [hk, ih hr]
    · simp only [hx, if_false, SortedMap.lookup]
      by_cases hk : k = j
      · simp [hk]
      · simp [hk, ih hr]

theorem pruneMembers_ne_null {members : List (String × Json)} {e : String × Json}
    (h : e ∈ pruneMembers members) : e.2 ≠ .null := by
  induction members with
  | nil => simp [pruneMembers] at h
  | cons d rest ih =>
    obtain ⟨k, x⟩ := d
    simp only [pruneMembers] at h
    split at h
    · exact ih h
    · rename_i hx
      rcases List.mem_cons.mp h with rfl | h
      · simpa using hx
      · exact ih h

/-- Two objects have the same pruned form exactly when every key does. -/
theorem pruneNull_obj_eq_iff {a b : List (String × Json)} (ha : KeysSorted a) (hb : KeysSorted b) :
    pruneNull (.obj a) = pruneNull (.obj b) ↔
      ∀ k, (member k (.obj a)).pruneNull = (member k (.obj b)).pruneNull := by
  simp only [pruneNull, member, Json.obj.injEq]
  constructor
  · intro h k
    rw [← lookup_pruneMembers ha, ← lookup_pruneMembers hb, h]
  · intro h
    let m : SortedMap String Json := ⟨pruneMembers a, keysSorted_pruneMembers ha⟩
    let n : SortedMap String Json := ⟨pruneMembers b, keysSorted_pruneMembers hb⟩
    suffices hmn : m = n from congrArg SortedMap.entries hmn
    apply SortedMap.ext
    intro k
    have hk : (m.get? k).getD .null = (n.get? k).getD .null := by
      rw [SortedMap.get?, SortedMap.get?, lookup_pruneMembers ha, lookup_pruneMembers hb, h k]
    cases hm : m.get? k with
    | none =>
      cases hn : n.get? k with
      | none => rfl
      | some y =>
        have := pruneMembers_ne_null (SortedMap.mem_entries_iff.mpr hn)
        simp [hm, hn] at hk
        exact absurd hk.symm this
    | some x =>
      cases hn : n.get? k with
      | none =>
        have := pruneMembers_ne_null (SortedMap.mem_entries_iff.mpr hm)
        simp [hm, hn] at hk
        exact absurd hk this
      | some y =>
        simp [hm, hn] at hk
        rw [hk]

end Json

end NdimonR
