import NdimonR.Privd.Schema

/-! What a schema means, and that the plugin data accepted under it is what satisfies it. Numbers
are read as doubles, on both sides of a bound. -/

namespace NdimonR.Privd

open Json

variable {floatLen : ℚ → Nat}

/-- How the keywords read a value: its types, its number, and when it is a member of an `enum`. -/
structure Meaning where
  ofKind : String → Json → Prop
  number : Json → Option ℚ
  same : Json → Json → Prop

/-- The size of a value between two keywords of its schema. -/
def Between (s : Json) (min max : String) (n : Nat) : Prop :=
  (∀ b, asU64 (s.member min) = some b → b ≤ n) ∧ ∀ b, asU64 (s.member max) = some b → n ≤ b

/-- A value satisfies a schema: every keyword holds, each for the values it is about. -/
inductive Satisfies (m : Meaning) : Json → Json → Prop where
  | intro {s v : Json}
      (type : ∀ kind, asStr (s.member "type") = some kind → m.ofKind kind v)
      (enum : ∀ l, asArray (s.member "enum") = some l → ∃ a ∈ l, m.same v a)
      (required : ∀ members, v = .obj members → ∀ names, asArray (s.member "required") = some names →
        ∀ n, .str n ∈ names → SortedMap.lookup n members ≠ none)
      (additional : ∀ members, v = .obj members → s.member "additionalProperties" = .bool false →
        ∀ e ∈ members, (get e.1 (s.member "properties")).isSome = true)
      (properties : ∀ members, v = .obj members → ∀ e ∈ members, ∀ child,
        get e.1 (s.member "properties") = some child → Satisfies m child e.2)
      (items : ∀ l, v = .arr l → ∀ child, get "items" s = some child → ∀ x ∈ l, Satisfies m child x)
      (propertyCount : ∀ members, v = .obj members →
        Between s "minProperties" "maxProperties" members.length)
      (itemCount : ∀ l, v = .arr l → Between s "minItems" "maxItems" l.length)
      (length : ∀ t, v = .str t → Between s "minLength" "maxLength" (Text.chars t))
      (number : ∀ n, m.number v = some n →
        (∀ b, m.number (s.member "minimum") = some b → b ≤ n) ∧
          ∀ b, m.number (s.member "maximum") = some b → n ≤ b) :
      Satisfies m s v

/-- Numbers as doubles, and a number with a fraction is never one without. -/
def doubles : Meaning where
  ofKind kind v := ofKind kind v = true
  number := asF64
  same v a := v = a

/-- A schema within another. -/
inductive Within (s : Json) : Json → Prop where
  | self : Within s s
  | property {t child : Json} {k : String} :
      Within s t → get k (t.member "properties") = some child → Within s child
  | items {t child : Json} : Within s t → get "items" t = some child → Within s child

/-! ### Accepted schemas -/

theorem foldlM_entries {α β : Type} {f : β → α → Except String β} {l : List α} {b c : β}
    (h : l.foldlM f b = .ok c) {x : α} (hx : x ∈ l) : ∃ b' c', f b' x = .ok c' := by
  induction l generalizing b with
  | nil => cases hx
  | cons y l ih =>
    rw [List.foldlM_cons] at h
    cases hy : f b y with
    | error e =>
      rw [hy] at h
      cases h
    | ok d =>
      rw [hy] at h
      rcases List.mem_cons.mp hx with rfl | hx
      · exact ⟨b, d, hy⟩
      · exact ih h hx

/-- The schema is accepted with this many levels left. -/
def Accepted (levels : Nat) (s : Json) : Prop := ∃ nodes nodes', visit levels s nodes = .ok nodes'

/-- What the visit of a schema has checked. -/
structure Visited (levels : Nat) (s : Json) (kind : String) : Prop where
  type : asStr (s.member "type") = some kind
  kinds : kind ∈ kinds
  entries : ∀ k x, get k s = some x → ∃ n n', keyword (visit levels) s kind n (k, x) = .ok n'
  bounds : ∀ keys ∈ boundKeys, inverted s keys = false

theorem visited_of_accepted {levels : Nat} {s : Json} (h : Accepted (levels + 1) s) :
    ∃ kind, Visited levels s kind := by
  obtain ⟨nodes, nodes', h⟩ := h
  simp only [visit] at h
  split at h
  · cases h
  cases hobj : asObject s with
  | none =>
    rw [hobj] at h
    cases h
  | some members =>
    rw [hobj] at h
    cases hkind : asStr (s.member "type") with
    | none =>
      rw [hkind] at h
      cases h
    | some kind =>
      rw [hkind] at h
      simp only at h
      split at h
      · cases h
      rename_i hmem
      cases hfold : members.foldlM (keyword (visit levels) s kind) (nodes + 1) with
      | error e =>
        rw [hfold] at h
        cases h
      | ok n =>
        rw [hfold] at h
        simp only at h
        split at h
        · cases h
        rename_i hbounds
        refine ⟨kind, hkind, not_not.mp hmem, ?_, ?_⟩
        · intro k x hx
          have hin : (k, x) ∈ members := by
            unfold Json.get at hx
            rw [hobj] at hx
            exact SortedMap.mem_of_lookup hx
          exact foldlM_entries hfold hin
        · intro keys hkeys
          by_contra hinv
          exact hbounds (List.any_eq_true.mpr ⟨keys, hkeys, by simpa using hinv⟩)

namespace Visited

variable {levels : Nat} {s : Json} {kind : String}

theorem property (h : Visited levels s kind) {k : String} {child : Json}
    (hchild : get k (s.member "properties") = some child) : Accepted levels child := by
  rw [member_eq_get] at hchild
  cases hp : get "properties" s with
  | none =>
    rw [hp] at hchild
    cases hchild
  | some p =>
    rw [hp, Option.getD_some] at hchild
    obtain ⟨n, n', hkey⟩ := h.entries "properties" p hp
    by_cases hkind : kind = "object"
    · cases hobj : asObject p with
      | none => simp [keyword, hkind, hobj] at hkey
      | some children =>
        simp only [keyword, hkind, hobj, String.reduceEq, if_false, and_self, if_true] at hkey
        have hin : (k, child) ∈ children := by
          unfold Json.get at hchild
          rw [hobj] at hchild
          exact SortedMap.mem_of_lookup hchild
        exact foldlM_entries hkey hin
    · simp [keyword, hkind] at hkey

theorem item (h : Visited levels s kind) {child : Json} (hchild : get "items" s = some child) :
    Accepted levels child := by
  obtain ⟨n, n', hkey⟩ := h.entries "items" child hchild
  by_cases hkind : kind = "array"
  · simp only [keyword, hkind, String.reduceEq, if_false, and_self, if_true, false_and] at hkey
    exact ⟨n, n', hkey⟩
  · simp [keyword, hkind] at hkey

theorem names (h : Visited levels s kind) {names : List Json}
    (hnames : asArray (s.member "required") = some names) : ∀ j ∈ names, ∃ n, j = .str n := by
  rw [member_eq_get] at hnames
  cases hr : get "required" s with
  | none =>
    rw [hr] at hnames
    cases hnames
  | some r =>
    rw [hr, Option.getD_some] at hnames
    obtain ⟨n, n', hkey⟩ := h.entries "required" r hr
    by_cases hkind : kind = "object"
    · simp only [keyword, hkind, hnames, String.reduceEq, if_false, and_self, if_true,
        false_and] at hkey
      have hrequired : ∀ (l : List Json) (seen : List String), required s seen l = .ok () →
          ∀ j ∈ l, ∃ n, j = .str n := by
        intro l
        induction l with
        | nil => exact fun _ _ _ hj => by cases hj
        | cons j l ih =>
          intro seen hok x hx
          cases hj : asStr j with
          | none => simp [required, hj] at hok
          | some m =>
            simp only [required, hj] at hok
            split at hok
            · cases hok
            · rcases List.mem_cons.mp hx with rfl | hx
              · cases x <;> first | exact ⟨_, rfl⟩ | cases hj
              · exact ih _ hok x hx
      cases hok : required s [] names with
      | error e =>
        rw [hok] at hkey
        cases hkey
      | ok u => exact hrequired names [] hok
    · simp [keyword, hkind] at hkey

end Visited

/-! ### Accepted values -/

theorem forM_iff {α : Type} {f : α → Except String Unit} {l : List α} :
    l.forM f = .ok () ↔ ∀ x ∈ l, f x = .ok () := by
  refine ⟨forM_ok, fun h => ?_⟩
  induction l with
  | nil => rfl
  | cons x l ih =>
    change (f x >>= fun _ => l.forM f) = .ok ()
    rw [h x List.mem_cons_self]
    exact ih fun y hy => h y (List.mem_cons_of_mem _ hy)

theorem requiredPresent_iff {obj : List (String × Json)} {names : List Json}
    (hnames : ∀ j ∈ names, ∃ n, j = .str n) :
    requiredPresent obj names = .ok () ↔ ∀ n, .str n ∈ names → SortedMap.lookup n obj ≠ none := by
  refine ⟨fun h n hn => requiredPresent_ok h hn, fun h => ?_⟩
  induction names with
  | nil => rfl
  | cons j names ih =>
    obtain ⟨n, rfl⟩ := hnames j List.mem_cons_self
    simp only [requiredPresent, asStr, if_neg (h n List.mem_cons_self)]
    exact ih (fun j hj => hnames j (List.mem_cons_of_mem _ hj))
      fun n hn => h n (List.mem_cons_of_mem _ hn)

theorem property_iff {check : Json → Json → Except String Unit} {s : Json} {e : String × Json} :
    property check s e = .ok () ↔
      (s.member "additionalProperties" = .bool false →
        (get e.1 (s.member "properties")).isSome = true) ∧
      ∀ child, get e.1 (s.member "properties") = some child → check child e.2 = .ok () := by
  unfold property
  cases hchild : get e.1 (s.member "properties") with
  | none =>
    by_cases hclosed : s.member "additionalProperties" = .bool false
    · simp [hclosed]
    · simp [hclosed]
  | some child => simp

/-- The size of a value with the keywords that bound it. -/
def sizes : Json → Option (Nat × String × String)
  | .obj members => some (members.length, "minProperties", "maxProperties")
  | .arr items => some (items.length, "minItems", "maxItems")
  | .str t => some (Text.chars t, "minLength", "maxLength")
  | _ => none

/-- What is checked inside a value. -/
structure Inside (check : Json → Json → Except String Unit) (s v : Json) : Prop where
  members : ∀ members, v = .obj members →
    requiredPresent members ((asArray (s.member "required")).getD []) = .ok () ∧
      ∀ e ∈ members, property check s e = .ok ()
  items : ∀ items, v = .arr items → ∀ child, get "items" s = some child →
    ∀ x ∈ items, check child x = .ok ()

theorem contents_iff {check : Json → Json → Except String Unit} {s v : Json}
    {r : Option (Nat × String × String)} :
    contents check s v = .ok r ↔ r = sizes v ∧ Inside check s v := by
  cases v with
  | obj members =>
    have hinside : Inside check s (.obj members) ↔
        requiredPresent members ((asArray (s.member "required")).getD []) = .ok () ∧
          ∀ e ∈ members, property check s e = .ok () := by
      refine ⟨fun h => h.members members rfl, fun h => ⟨?_, fun _ hv => by cases hv⟩⟩
      rintro _ ⟨⟩
      exact h
    rw [hinside, ← forM_iff]
    simp only [contents, sizes]
    cases requiredPresent members ((asArray (s.member "required")).getD []) with
    | error e => simp
    | ok u =>
      cases members.forM (property check s) with
      | error e => simp [Except.map]
      | ok u => simp [Except.map, eq_comm]
  | arr items =>
    have hinside : Inside check s (.arr items) ↔ ∀ child, get "items" s = some child →
        ∀ x ∈ items, check child x = .ok () := by
      refine ⟨fun h => h.items items rfl, fun h => ⟨fun _ hv => (by cases hv), ?_⟩⟩
      rintro _ ⟨⟩
      exact h
    rw [hinside]
    simp only [contents, sizes]
    cases hchild : get "items" s with
    | none => simp [eq_comm]
    | some child =>
      simp only [Option.some.injEq, forall_eq', ← forM_iff]
      cases items.forM (check child) with
      | error e => simp [Except.map]
      | ok u => simp [Except.map, eq_comm]
  | null | bool | int | float | str =>
    refine ⟨fun h => ⟨(Except.ok.inj h).symm, ?_, ?_⟩, fun h => ?_⟩
    · intro members hv
      cases hv
    · intro items hv
      cases hv
    · rw [h.1]
      rfl

theorem between_iff {s : Json} {min max : String} {n : Nat} :
    lengthOutside s (some (n, min, max)) = false ↔ Between s min max n := by
  simp only [lengthOutside, Between, Bool.or_eq_false_iff]
  cases asU64 (s.member min) <;> cases asU64 (s.member max) <;> simp

theorem lengthOutside_iff {s v : Json} :
    lengthOutside s (sizes v) = false ↔
      (∀ members, v = .obj members → Between s "minProperties" "maxProperties" members.length) ∧
      (∀ l, v = .arr l → Between s "minItems" "maxItems" l.length) ∧
      ∀ t, v = .str t → Between s "minLength" "maxLength" (Text.chars t) := by
  cases v with
  | obj members => simp [sizes, between_iff]
  | arr items => simp [sizes, between_iff]
  | str t => simp [sizes, between_iff]
  | null | bool | int | float => simp [sizes, lengthOutside]

theorem numberOutside_iff {s v : Json} :
    numberOutside s v = false ↔ ∀ n, asF64 v = some n →
      (∀ b, asF64 (s.member "minimum") = some b → b ≤ n) ∧
        ∀ b, asF64 (s.member "maximum") = some b → n ≤ b := by
  unfold numberOutside
  cases asF64 v with
  | none => simp
  | some n =>
    cases asF64 (s.member "minimum") <;> cases asF64 (s.member "maximum") <;> simp [Rat.not_lt]

/-- One level of the check, as the keywords have it. -/
theorem check_level {levels more : Nat} {s v : Json} {kind : String} (h : Visited levels s kind) :
    check (more + 1) s v = .ok () ↔
      ofKind kind v = true ∧ (∀ l, asArray (s.member "enum") = some l → v ∈ l) ∧
        Inside (check more) s v ∧ lengthOutside s (sizes v) = false ∧
          numberOutside s v = false := by
  have henum : (asArray (s.member "enum")).any (fun a => v ∉ a) = false ↔
      ∀ l, asArray (s.member "enum") = some l → v ∈ l := by
    cases asArray (s.member "enum") <;> simp
  rw [← henum]
  simp only [check, h.type]
  clear henum
  generalize (asArray (s.member "enum")).any (fun a => decide (v ∉ a)) = outside
  cases hkind : ofKind kind v with
  | false => simp
  | true =>
    cases outside with
    | true => simp
    | false =>
      cases hc : contents (check more) s v with
      | error e =>
        have hinside : ¬ Inside (check more) s v := by
          intro hin
          cases hc.symm.trans (contents_iff.mpr ⟨rfl, hin⟩)
        simp [hinside]
      | ok r =>
        obtain ⟨hr, hin⟩ := contents_iff.mp hc
        subst hr
        cases hlength : lengthOutside s (sizes v) <;> cases numberOutside s v <;>
          simp [hin, hlength]

/-- Under an accepted schema the check is satisfaction, whatever nesting is still allowed. -/
theorem check_iff {levels more : Nat} {s : Json} (h : Accepted levels s) (hle : levels ≤ more)
    (v : Json) : check more s v = .ok () ↔ Satisfies doubles s v := by
  induction levels generalizing s v more with
  | zero =>
    obtain ⟨_, _, h⟩ := h
    cases h
  | succ levels ih =>
    obtain ⟨more, rfl⟩ : ∃ m, more = m + 1 := ⟨more - 1, by omega⟩
    have hmore : levels ≤ more := by omega
    obtain ⟨kind, hvisited⟩ := visited_of_accepted h
    have hproperty : ∀ {k child} (x : Json), get k (s.member "properties") = some child →
        (check more child x = .ok () ↔ Satisfies doubles child x) :=
      fun x hchild => ih (hvisited.property hchild) hmore x
    have hitem : ∀ {child} (x : Json), get "items" s = some child →
        (check more child x = .ok () ↔ Satisfies doubles child x) :=
      fun x hchild => ih (hvisited.item hchild) hmore x
    have hnames : ∀ j ∈ (asArray (s.member "required")).getD [], ∃ n, j = .str n := by
      intro j hj
      cases hr : asArray (s.member "required") with
      | none =>
        rw [hr] at hj
        cases hj
      | some names =>
        rw [hr] at hj
        exact hvisited.names hr j hj
    rw [check_level hvisited, lengthOutside_iff, numberOutside_iff]
    constructor
    · rintro ⟨hkind, henum, hinside, ⟨hcount, hitems, hlength⟩, hnumber⟩
      refine .intro ?_ ?_ ?_ ?_ ?_ ?_ hcount hitems hlength hnumber
      · intro kind' hkind'
        cases hvisited.type.symm.trans hkind'
        exact hkind
      · intro l hl
        exact ⟨v, henum l hl, rfl⟩
      · intro members hv names hr n hn
        have hpresent := (hinside.members members hv).1
        rw [hr] at hpresent
        exact requiredPresent_ok hpresent hn
      · intro members hv hclosed e he
        exact (property_iff.mp ((hinside.members members hv).2 e he)).1 hclosed
      · intro members hv e he child hchild
        exact (hproperty e.2 hchild).mp
          ((property_iff.mp ((hinside.members members hv).2 e he)).2 child hchild)
      · intro l hv child hchild x hx
        exact (hitem x hchild).mp (hinside.items l hv child hchild x hx)
    · rintro ⟨hkind, henum, hrequired, hclosed, hproperties, hitems, hcount, hlength, htext,
        hnumber⟩
      refine ⟨hkind kind hvisited.type, ?_, ⟨?_, ?_⟩, ⟨hcount, hlength, htext⟩, hnumber⟩
      · intro l hl
        obtain ⟨a, ha, heq⟩ := henum l hl
        exact heq ▸ ha
      · intro members hv
        refine ⟨?_, ?_⟩
        · rw [requiredPresent_iff hnames]
          intro n hn
          cases hr : asArray (s.member "required") with
          | none =>
            rw [hr] at hn
            cases hn
          | some names =>
            rw [hr] at hn
            exact hrequired members hv names hr n hn
        · intro e he
          refine property_iff.mpr ⟨fun hc => hclosed members hv hc e he, ?_⟩
          intro child hchild
          exact (hproperty e.2 hchild).mpr (hproperties members hv e he child hchild)
      · intro l hv child hchild x hx
        exact (hitem x hchild).mpr (hitems l hv child hchild x hx)

/-! ### The nesting limit -/

theorem forM_error {α : Type} {f : α → Except String Unit} {l : List α} {e : String}
    (h : l.forM f = .error e) : ∃ x ∈ l, f x = .error e := by
  induction l with
  | nil => cases h
  | cons x l ih =>
    change (f x >>= fun _ => l.forM f) = .error e at h
    cases hx : f x with
    | error e' =>
      rw [hx] at h
      cases h
      exact ⟨x, List.mem_cons_self, hx⟩
    | ok u =>
      rw [hx] at h
      obtain ⟨y, hy, he⟩ := ih h
      exact ⟨y, List.mem_cons_of_mem _ hy, he⟩

def nestingLimit : String := "plugin data nesting limit"

theorem requiredPresent_error {obj : List (String × Json)} {names : List Json} {e : String}
    (h : requiredPresent obj names = .error e) : e ≠ nestingLimit := by
  induction names with
  | nil => cases h
  | cons j names ih =>
    simp only [requiredPresent] at h
    split at h
    · cases h
      decide
    · split at h
      · cases h
        decide
      · exact ih h

/-- A refusal of the contents is one of a value inside, or names another reason. -/
theorem contents_error {check : Json → Json → Except String Unit} {s v : Json} {e : String}
    (h : contents check s v = .error e) (hlimit : e = nestingLimit) :
    (∃ k child x, get k (s.member "properties") = some child ∧ check child x = .error e) ∨
      ∃ child x, get "items" s = some child ∧ check child x = .error e := by
  cases v with
  | obj members =>
    simp only [contents] at h
    split at h
    · rename_i hrequired
      cases h
      exact absurd hlimit (requiredPresent_error hrequired)
    · cases hforM : members.forM (property check s) with
      | ok u =>
        rw [hforM] at h
        cases h
      | error e' =>
        rw [hforM] at h
        cases h
        obtain ⟨entry, _, hentry⟩ := forM_error hforM
        unfold property at hentry
        split at hentry
        · rename_i child hchild
          exact .inl ⟨_, child, _, hchild, hentry⟩
        · split at hentry
          · cases hentry
            have hhead := congrArg (fun t : String => t.toList.head?) hlimit
            simp [nestingLimit] at hhead
          · cases hentry
  | arr items =>
    simp only [contents] at h
    split at h
    · cases h
    · rename_i child hchild
      cases hforM : items.forM (check child) with
      | ok u =>
        rw [hforM] at h
        cases h
      | error e' =>
        rw [hforM] at h
        cases h
        obtain ⟨x, _, hx⟩ := forM_error hforM
        exact .inr ⟨child, x, hchild, hx⟩
  | null | bool | int | float | str => cases h

theorem check_limit {levels more : Nat} {s : Json} (h : Accepted levels s) (hle : levels ≤ more)
    (v : Json) : check more s v ≠ .error nestingLimit := by
  induction levels generalizing s v more with
  | zero =>
    obtain ⟨_, _, h⟩ := h
    cases h
  | succ levels ih =>
    obtain ⟨more, rfl⟩ : ∃ m, more = m + 1 := ⟨more - 1, by omega⟩
    obtain ⟨kind, hvisited⟩ := visited_of_accepted h
    intro herror
    simp only [check, hvisited.type] at herror
    split at herror
    · have hkinds := hvisited.kinds
      simp only [kinds, List.mem_cons, List.not_mem_nil, or_false] at hkinds
      rcases hkinds with rfl | rfl | rfl | rfl | rfl | rfl | rfl <;>
        exact absurd (Except.error.inj herror) (by decide)
    · split at herror
      · exact absurd (Except.error.inj herror) (by decide)
      · split at herror
        · rename_i e hcontents
          cases herror
          rcases contents_error hcontents rfl with ⟨k, child, x, hchild, hx⟩ | ⟨child, x, hchild, hx⟩
          · exact ih (hvisited.property hchild) (by omega) x hx
          · exact ih (hvisited.item hchild) (by omega) x hx
        · split at herror
          · exact absurd (Except.error.inj herror) (by decide)
          · split at herror
            · exact absurd (Except.error.inj herror) (by decide)
            · cases herror

/-! ### The whole -/

theorem accepted_within {levels : Nat} {s t : Json} (h : Accepted levels s) (ht : Within s t) :
    ∃ l, Accepted l t := by
  induction ht with
  | self => exact ⟨levels, h⟩
  | property _ hchild ih =>
    obtain ⟨l, hl⟩ := ih
    cases l with
    | zero =>
      obtain ⟨_, _, hl⟩ := hl
      cases hl
    | succ l =>
      obtain ⟨kind, hvisited⟩ := visited_of_accepted hl
      exact ⟨l, hvisited.property hchild⟩
  | items _ hchild ih =>
    obtain ⟨l, hl⟩ := ih
    cases l with
    | zero =>
      obtain ⟨_, _, hl⟩ := hl
      cases hl
    | succ l =>
      obtain ⟨kind, hvisited⟩ := visited_of_accepted hl
      exact ⟨l, hvisited.item hchild⟩

theorem bounds_of_accepted {l : Nat} {s : Json} (h : Accepted l s) {keys : String × String}
    (hkeys : keys ∈ boundKeys) {a b : ℚ} (ha : asF64 (s.member keys.1) = some a)
    (hb : asF64 (s.member keys.2) = some b) : a ≤ b := by
  cases l with
  | zero =>
    obtain ⟨_, _, h⟩ := h
    cases h
  | succ l =>
    obtain ⟨kind, hvisited⟩ := visited_of_accepted h
    have hinverted := hvisited.bounds keys hkeys
    simp only [inverted, ha, hb, decide_eq_false_iff_not, Rat.not_lt] at hinverted
    exact hinverted

theorem accepted_of_validateSchema {schema : Json} (h : validateSchema floatLen schema = .ok ()) :
    Accepted 17 schema := by
  unfold validateSchema at h
  split at h
  · cases h
  · cases hvisit : visit 17 schema 0 with
    | error e =>
      rw [hvisit] at h
      cases h
    | ok n => exact ⟨0, n, hvisit⟩

/-- Data is accepted exactly when it satisfies its schema, the nesting limit never refuses it, and
no schema inside contradicts its own bounds; all numbers as doubles. -/
theorem schema_decides {schema : Json} (h : validateSchema floatLen schema = .ok ()) :
    (∀ v : Json, v.size floatLen ≤ 1024 * 1024 →
      (validateValue floatLen schema v = .ok () ↔ Satisfies doubles schema v)) ∧
    (∀ v, validateValue floatLen schema v ≠ .error nestingLimit) ∧
    ∀ t, Within schema t → ∀ keys ∈ boundKeys, ∀ a b, asF64 (t.member keys.1) = some a →
      asF64 (t.member keys.2) = some b → a ≤ b := by
  have haccepted := accepted_of_validateSchema h
  refine ⟨?_, ?_, ?_⟩
  · intro v hv
    rw [validateValue, if_neg (by omega)]
    exact check_iff haccepted (by omega) v
  · intro v
    unfold validateValue
    split
    · exact fun herror => absurd (Except.error.inj herror) (by decide)
    · exact check_limit haccepted (by omega) v
  · intro t ht keys hkeys a b ha hb
    obtain ⟨l, hl⟩ := accepted_within haccepted ht
    exact bounds_of_accepted hl hkeys ha hb

/-! ### Exact numbers -/

/-- The number itself, whatever its spelling. -/
def exactNumber : Json → Option ℚ
  | .int n => some n
  | .float q => some q
  | _ => none

mutual
/-- Numbers in one spelling. -/
def spelled : Json → Json
  | .int n => .float n
  | .arr items => .arr (spelledItems items)
  | .obj members => .obj (spelledMembers members)
  | v => v

def spelledItems : List Json → List Json
  | [] => []
  | x :: rest => spelled x :: spelledItems rest

def spelledMembers : List (String × Json) → List (String × Json)
  | [] => []
  | (k, x) :: rest => (k, spelled x) :: spelledMembers rest
end

/-- Numbers by their value alone. -/
def exactly : Meaning where
  ofKind kind v := if kind = "integer" then ∃ n : Int, exactNumber v = some n else ofKind kind v = true
  number := exactNumber
  same v a := spelled v = spelled a

def aboveDoubles : Json := .obj [("minimum", .int 9007199254740993), ("type", .str "integer")]

/-- Two to the power of 53 is below its successor, but not as a double. -/
theorem schema_decides_false : ¬ ∀ (schema v : Json),
    validateSchema (fun _ => 0) schema = .ok () → v.size (fun _ => 0) ≤ 1024 * 1024 →
      (validateValue (fun _ => 0) schema v = .ok () ↔ Satisfies exactly schema v) := by
  intro hall
  have hsatisfies := (hall aboveDoubles (.int 9007199254740992) (by decide) (by decide)).mp
    (by decide)
  cases hsatisfies with
  | intro _ _ _ _ _ _ _ _ _ hnumber =>
    have hbound := (hnumber 9007199254740992 rfl).1 9007199254740993 rfl
    exact absurd hbound (by decide)

def namesSchema : Json :=
  .obj [("items", .obj [("minLength", .int 1), ("type", .str "string")]), ("type", .str "array")]

theorem schema_decides_names :
    Satisfies doubles namesSchema (.arr [.str "front", .str "back"]) ∧
      ¬ Satisfies doubles namesSchema (.arr [.str ""]) := by
  have h := (@schema_decides (fun _ => 0) namesSchema (by decide)).1
  exact ⟨(h _ (by decide)).mp (by decide), fun hs => absurd ((h _ (by decide)).mpr hs) (by decide)⟩

end NdimonR.Privd
