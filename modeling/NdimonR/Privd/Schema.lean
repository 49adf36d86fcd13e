import NdimonR.Library.Reading
import Mathlib.Algebra.Ring.Int.Defs

/-! The data-only schema language of plugin manifests: no references, expressions or unions.
`visit` reads a schema, `check` a value against an accepted schema; both recurse on the
nesting depth that is still allowed. -/

namespace NdimonR.Privd

open Json

variable (floatLen : ℚ → Nat)

/-- The double nearest to an integer, ties to even. -/
def nearestDouble (n : Int) : Int :=
  let unit : Int := 2 ^ (Nat.log2 n.natAbs - 52)
  let q := n / unit
  let r := n % unit
  if 2 * r < unit ∨ (2 * r = unit ∧ q % 2 = 0) then unit * q else unit * (q + 1)

/-- Up to two to the power of 53 the double is the number itself. -/
theorem nearestDouble_small {n : Int} (h : n.natAbs ≤ 2 ^ 53) : nearestDouble n = n := by
  rcases Nat.lt_or_eq_of_le h with hlt | heq
  · have hlog : Nat.log2 n.natAbs - 52 = 0 := by
      by_cases hzero : n.natAbs = 0
      · rw [hzero]
        rfl
      · have := (Nat.log2_lt hzero).mpr hlt
        omega
    simp [nearestDouble, hlog]
  · rcases Int.natAbs_eq n with hn | hn
    · rw [heq] at hn
      rw [hn]
      decide
    · rw [heq] at hn
      rw [hn]
      decide

def asF64 : Json → Option ℚ
  | .int n => some (nearestDouble n)
  | .float q => some q
  | _ => none

def isInteger : Json → Bool
  | .int n => decide (-(2 ^ 63) ≤ n ∧ n < 2 ^ 64)
  | _ => false

def isNumber (j : Json) : Bool := (asF64 j).isSome

def kinds : List String :=
  ["object", "array", "string", "boolean", "integer", "number", "null"]

/-- The names of a `required` list are declared properties, each named once. -/
def required (s : Json) (seen : List String) : List Json → Except String Unit
  | [] => .ok ()
  | n :: names =>
    match asStr n with
    | none => .error "required names must be strings"
    | some n =>
      if n ∈ seen ∨ get n (s.member "properties") = none then
        .error "unknown or duplicate required property"
      else required s (n :: seen) names

/-- One member of the schema object `s`. `visit` reads a nested schema and counts its nodes. -/
def keyword (visit : Json → Nat → Except String Nat) (s : Json) (kind : String) (nodes : Nat)
    (entry : String × Json) : Except String Nat :=
  let key := entry.1
  let value := entry.2
  if key = "type" then .ok nodes
  else if key = "properties" ∧ kind = "object" then
    match asObject value with
    | none => .error "properties must be an object"
    | some children => children.foldlM (fun n child => visit child.2 n) nodes
  else if key = "required" ∧ kind = "object" then
    match asArray value with
    | none => .error "required must be an array"
    | some names => (required s [] names).map fun _ => nodes
  else if key = "additionalProperties" ∧ kind = "object" ∧ isBoolean value then .ok nodes
  else if key = "items" ∧ kind = "array" then visit value nodes
  else if (key = "minLength" ∨ key = "maxLength") ∧ kind = "string" ∧ (asU64 value).isSome then
    .ok nodes
  else if (key = "minItems" ∨ key = "maxItems") ∧ kind = "array" ∧ (asU64 value).isSome then
    .ok nodes
  else if (key = "minProperties" ∨ key = "maxProperties") ∧ kind = "object" ∧
      (asU64 value).isSome then .ok nodes
  else if (key = "minimum" ∨ key = "maximum") ∧ (kind = "number" ∨ kind = "integer") ∧
      isNumber value then .ok nodes
  else if key = "enum" ∧ (asArray value).any (fun a => a ≠ [] ∧ a.length ≤ 256) then .ok nodes
  else .error ("unsupported schema keyword " ++ key)

def boundKeys : List (String × String) :=
  [("minLength", "maxLength"), ("minItems", "maxItems"), ("minProperties", "maxProperties"),
    ("minimum", "maximum")]

/-- A schema states both ends of a bound, and the lower one is above the other. -/
def inverted (s : Json) (keys : String × String) : Bool :=
  match asF64 (s.member keys.1), asF64 (s.member keys.2) with
  | some a, some b => decide (b < a)
  | _, _ => false

/-- Reads a schema and returns the nodes counted so far. `levels` is 17 at the top: the source
refuses a depth above 16. -/
def visit : (levels : Nat) → Json → Nat → Except String Nat
  | 0, _, _ => .error "schema complexity limit"
  | levels + 1, s, nodes =>
    if 1024 < nodes + 1 then .error "schema complexity limit"
    else match asObject s with
    | none => .error "schema must be an object"
    | some members =>
      match asStr (s.member "type") with
      | none => .error "schema type required"
      | some kind =>
        if kind ∉ kinds then .error "unsupported schema type"
        else match members.foldlM (keyword (visit levels) s kind) (nodes + 1) with
        | .error e => .error e
        | .ok nodes =>
          if boundKeys.any (inverted s) then .error "inverted schema bounds" else .ok nodes

def validateSchema (schema : Json) : Except String Unit :=
  if 32 * 1024 < schema.size floatLen then .error "schema exceeds 32 KiB"
  else (visit 17 schema 0).map fun _ => ()

/-- The value is of the type the schema names. -/
def ofKind (kind : String) (v : Json) : Bool :=
  if kind = "object" then (asObject v).isSome
  else if kind = "array" then (asArray v).isSome
  else if kind = "string" then (asStr v).isSome
  else if kind = "boolean" then isBoolean v
  else if kind = "integer" then isInteger v
  else if kind = "number" then isNumber v
  else if kind = "null" then v = .null
  else false

def requiredPresent (obj : List (String × Json)) : List Json → Except String Unit
  | [] => .ok ()
  | name :: names =>
    match asStr name with
    | none => .error "invalid required"
    | some n =>
      if SortedMap.lookup n obj = none then .error "required property missing"
      else requiredPresent obj names

/-- One member of a value, under the object schema `s`. -/
def property (check : Json → Json → Except String Unit) (s : Json) (entry : String × Json) :
    Except String Unit :=
  match get entry.1 (s.member "properties") with
  | some child => check child entry.2
  | none =>
    if s.member "additionalProperties" = .bool false then
      .error ("unknown property " ++ entry.1)
    else .ok ()

/-- The members or items of a value, and the size its schema may bound. -/
def contents (check : Json → Json → Except String Unit) (s v : Json) :
    Except String (Option (Nat × String × String)) :=
  match v with
  | .obj members =>
    match requiredPresent members ((asArray (s.member "required")).getD []) with
    | .error e => .error e
    | .ok () =>
      (members.forM (property check s)).map fun _ =>
        some (members.length, "minProperties", "maxProperties")
  | .arr items =>
    match get "items" s with
    | none => .ok (some (items.length, "minItems", "maxItems"))
    | some child =>
      (items.forM (check child)).map fun _ => some (items.length, "minItems", "maxItems")
  | .str t => .ok (some (Text.chars t, "minLength", "maxLength"))
  | _ => .ok none

def lengthOutside (s : Json) : Option (Nat × String × String) → Bool
  | none => false
  | some (n, min, max) =>
    (asU64 (s.member min)).any (fun b => n < b) || (asU64 (s.member max)).any (fun b => b < n)

def numberOutside (s v : Json) : Bool :=
  (asF64 v).any fun n =>
    (asF64 (s.member "minimum")).any (fun b => n < b) ||
      (asF64 (s.member "maximum")).any (fun b => b < n)

/-- `levels` is 33 at the top: the source refuses a depth above 32. -/
def check : (levels : Nat) → Json → Json → Except String Unit
  | 0, _, _ => .error "plugin data nesting limit"
  | levels + 1, s, v =>
    match asStr (s.member "type") with
    | none => .error "schema type required"
    | some kind =>
      if ofKind kind v = false then .error ("expected " ++ kind)
      else if (asArray (s.member "enum")).any (fun a => v ∉ a) then .error "value outside enum"
      else match contents (check levels) s v with
      | .error e => .error e
      | .ok length =>
        if lengthOutside s length then .error "length outside schema bounds"
        else if numberOutside s v then .error "number outside schema bounds"
        else .ok ()

def validateValue (schema value : Json) : Except String Unit :=
  if 1024 * 1024 < value.size floatLen then .error "plugin data exceeds 1 MiB"
  else check 33 schema value

theorem requiredPresent_ok {obj : List (String × Json)} {names : List Json}
    (h : requiredPresent obj names = .ok ()) {n : String} (hn : .str n ∈ names) :
    SortedMap.lookup n obj ≠ none := by
  induction names with
  | nil => simp at hn
  | cons name names ih =>
    simp only [requiredPresent] at h
    split at h
    · simp at h
    rename_i m hm
    split at h
    · simp at h
    rename_i hl
    rcases List.mem_cons.mp hn with rfl | hn
    · simp only [asStr, Option.some.injEq] at hm
      subst hm
      exact hl
    · exact ih h hn

theorem forM_ok {α : Type} {f : α → Except String Unit} {l : List α}
    (h : l.forM f = .ok ()) : ∀ x ∈ l, f x = .ok () := by
  induction l with
  | nil => simp
  | cons x l ih =>
    change (f x >>= fun _ => l.forM f) = .ok () at h
    cases hx : f x with
    | error e => simp [hx, bind, Except.bind] at h
    | ok u =>
      simp only [hx, bind, Except.bind] at h
      intro y hy
      rcases List.mem_cons.mp hy with rfl | hy
      · exact hx
      · exact ih h y hy

/-- An accepted object has every property its schema requires, and no undeclared one where the
schema is closed. -/
theorem check_obj {levels : Nat} {schema : Json} {members : List (String × Json)}
    (h : check levels schema (.obj members) = .ok ()) :
    (∀ names n, schema.member "required" = .arr names → .str n ∈ names →
      SortedMap.lookup n members ≠ none) ∧
    (schema.member "additionalProperties" = .bool false →
      ∀ e ∈ members, (get e.1 (schema.member "properties")).isSome) := by
  cases levels with
  | zero => simp [check] at h
  | succ levels => ?_
  simp only [check] at h
  split at h
  · simp at h
  split at h
  · simp at h
  split at h
  · simp at h
  split at h
  · simp at h
  rename_i length hc
  simp only [contents] at hc
  split at hc
  · simp at hc
  rename_i hr
  have hm : members.forM (property (check levels) schema) = .ok () := by
    cases hf : members.forM (property (check levels) schema) with
    | error e => simp [hf, Except.map] at hc
    | ok u => rfl
  constructor
  · intro names n hs hn
    rw [hs] at hr
    exact requiredPresent_ok hr hn
  · intro hclosed e he
    have := forM_ok hm e he
    unfold property at this
    split at this
    · rename_i hg
      simp [hg]
    · simp [hclosed] at this

/-- The same of a whole plugin state. -/
theorem validateValue_obj {schema : Json} {members : List (String × Json)}
    (h : validateValue floatLen schema (.obj members) = .ok ()) :
    (∀ names n, schema.member "required" = .arr names → .str n ∈ names →
      SortedMap.lookup n members ≠ none) ∧
    (schema.member "additionalProperties" = .bool false →
      ∀ e ∈ members, (get e.1 (schema.member "properties")).isSome) := by
  unfold validateValue at h
  split at h
  · simp at h
  · exact check_obj h

end NdimonR.Privd
