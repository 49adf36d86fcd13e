import Mathlib.Data.List.Pairwise
import Mathlib.Data.List.Induction
import Mathlib.Data.List.Sort
import Mathlib.Data.String.Basic

/-! Finite maps kept as key-sorted entry lists. Iteration order is key order, and two maps
with the same lookups are equal. -/

namespace NdimonR

universe u v

structure SortedMap (α : Type u) (β : Type v) [LinearOrder α] where
  entries : List (α × β)
  sorted : entries.Pairwise (fun a b => a.1 < b.1)

namespace SortedMap

variable {α : Type u} {β : Type v} [LinearOrder α]

theorem eq_of_entries {m n : SortedMap α β} (h : m.entries = n.entries) : m = n := by
  cases m
  cases n
  simpa using h

instance [DecidableEq β] : DecidableEq (SortedMap α β) := fun m n =>
  decidable_of_iff (m.entries = n.entries) ⟨eq_of_entries, fun h => by rw [h]⟩

def empty : SortedMap α β := ⟨[], List.Pairwise.nil⟩

instance : Inhabited (SortedMap α β) := ⟨empty⟩

def singleton (k : α) (x : β) : SortedMap α β := ⟨[(k, x)], List.pairwise_singleton _ _⟩

def keys (m : SortedMap α β) : List α := m.entries.map Prod.fst

def values (m : SortedMap α β) : List β := m.entries.map Prod.snd

def isEmpty (m : SortedMap α β) : Bool := m.entries.isEmpty

def size (m : SortedMap α β) : Nat := m.entries.length

/-- First entry under a key, on a bare entry list. -/
def lookup (k : α) : List (α × β) → Option β
  | [] => none
  | (j, x) :: rest => if k = j then some x else lookup k rest

def get? (m : SortedMap α β) (k : α) : Option β := lookup k m.entries

def contains (m : SortedMap α β) (k : α) : Bool := (m.get? k).isSome

/-- One pass: place the entry before the first greater key, replacing an equal one. -/
def insertEntry (k : α) (x : β) : List (α × β) → List (α × β)
  | [] => [(k, x)]
  | (j, y) :: rest =>
    if k < j then (k, x) :: (j, y) :: rest
    else if k = j then (k, x) :: rest
    else (j, y) :: insertEntry k x rest

theorem mem_insertEntry {k : α} {x : β} {l : List (α × β)} {e : α × β}
    (h : e ∈ insertEntry k x l) : e = (k, x) ∨ e ∈ l := by
  induction l with
  | nil => simpa [insertEntry] using h
  | cons d rest ih =>
    obtain ⟨j, y⟩ := d
    simp only [insertEntry] at h
    split at h
    · simpa using h
    · split at h
      · rcases List.mem_cons.mp h with he | hr
        · exact .inl he
        · exact .inr (List.mem_cons_of_mem _ hr)
      · rcases List.mem_cons.mp h with he | hr
        · exact .inr (by simp [he])
        · exact (ih hr).imp id (List.mem_cons_of_mem _)

theorem sorted_insertEntry (k : α) (x : β) {l : List (α × β)}
    (h : l.Pairwise (fun a b => a.1 < b.1)) :
    (insertEntry k x l).Pairwise (fun a b => a.1 < b.1) := by
  induction l with
  | nil => simp [insertEntry]
  | cons d rest ih =>
    obtain ⟨j, y⟩ := d
    obtain ⟨hd, hr⟩ := List.pairwise_cons.mp h
    simp only [insertEntry]
    split
    · rename_i hlt
      refine List.pairwise_cons.mpr ⟨fun e he => ?_, h⟩
      rcases List.mem_cons.mp he with rfl | he
      · exact hlt
      · exact lt_trans hlt (hd e he)
    · rename_i hnlt
      split
      · rename_i heq
        subst heq
        exact List.pairwise_cons.mpr ⟨hd, hr⟩
      · rename_i hne
        refine List.pairwise_cons.mpr ⟨fun e he => ?_, ih hr⟩
        rcases mem_insertEntry he with rfl | he
        · exact lt_of_le_of_ne (not_lt.mp hnlt) (Ne.symm hne)
        · exact hd e he

def insert (m : SortedMap α β) (k : α) (x : β) : SortedMap α β :=
  ⟨insertEntry k x m.entries, sorted_insertEntry k x m.sorted⟩

def erase (m : SortedMap α β) (k : α) : SortedMap α β :=
  ⟨m.entries.filter (fun e => e.1 ≠ k), m.sorted.filter _⟩

/-- Later entries replace earlier ones of the same key. -/
def ofList (l : List (α × β)) : SortedMap α β := l.foldl (fun m e => m.insert e.1 e.2) empty

@[simp] theorem get?_empty (k : α) : (empty : SortedMap α β).get? k = none := rfl

theorem lookup_insertEntry (k j : α) (x : β) (l : List (α × β)) :
    lookup j (insertEntry k x l) = if j = k then some x else lookup j l := by
  induction l with
  | nil => simp [insertEntry, lookup]
  | cons d rest ih =>
    obtain ⟨i, y⟩ := d
    simp only [insertEntry]
    split
    · simp [lookup]
    · split
      · rename_i heq
        subst heq
        simp only [lookup]
        split <;> simp_all
      · rename_i hne
        simp only [lookup, ih]
        split
        · rename_i hji
          subst hji
          simp [Ne.symm hne]
        · rfl

@[simp] theorem get?_insert (m : SortedMap α β) (k j : α) (x : β) :
    (m.insert k x).get? j = if j = k then some x else m.get? j :=
  lookup_insertEntry k j x m.entries

theorem lookup_eq_none_iff {k : α} {l : List (α × β)} :
    lookup k l = none ↔ k ∉ l.map Prod.fst := by
  induction l with
  | nil => simp [lookup]
  | cons d rest ih =>
    obtain ⟨j, y⟩ := d
    simp only [lookup, List.map_cons, List.mem_cons, not_or]
    split
    · simp_all
    · simp_all

theorem lookup_of_mem {l : List (α × β)} (h : l.Pairwise (fun a b => a.1 < b.1))
    {k : α} {x : β} (hm : (k, x) ∈ l) : lookup k l = some x := by
  induction l with
  | nil => simp at hm
  | cons d rest ih =>
    obtain ⟨hd, hr⟩ := List.pairwise_cons.mp h
    obtain ⟨j, y⟩ := d
    rcases List.mem_cons.mp hm with he | hm
    · obtain ⟨rfl, rfl⟩ := Prod.mk.inj he
      simp [lookup]
    · have hlt : j < k := hd _ hm
      simp only [lookup, hlt.ne', if_false]
      exact ih hr hm

theorem mem_of_lookup {k : α} {x : β} {l : List (α × β)} (h : lookup k l = some x) :
    (k, x) ∈ l := by
  induction l with
  | nil => simp [lookup] at h
  | cons d rest ih =>
    obtain ⟨j, y⟩ := d
    simp only [lookup] at h
    split at h
    · simp_all
    · exact List.mem_cons_of_mem _ (ih h)

theorem mem_entries_iff {m : SortedMap α β} {k : α} {x : β} :
    (k, x) ∈ m.entries ↔ m.get? k = some x :=
  ⟨lookup_of_mem m.sorted, mem_of_lookup⟩

theorem mem_keys_iff {m : SortedMap α β} {k : α} : k ∈ m.keys ↔ m.contains k = true := by
  unfold contains get? keys
  rw [Option.isSome_iff_ne_none, ne_eq, lookup_eq_none_iff, not_not]

/-- Building from entries with distinct keys keeps every entry. -/
theorem get?_foldl_insert (l : List (α × β)) (h : (l.map Prod.fst).Nodup) (m : SortedMap α β)
    (k : α) : (l.foldl (fun m e => m.insert e.1 e.2) m).get? k = (lookup k l).or (m.get? k) := by
  induction l generalizing m with
  | nil => simp [lookup]
  | cons d rest ih =>
    obtain ⟨j, y⟩ := d
    obtain ⟨hj, hr⟩ := List.nodup_cons.mp h
    simp only [List.foldl_cons, ih hr, get?_insert, lookup]
    by_cases hk : k = j
    · have : lookup k rest = none := by
        rw [hk]
        exact lookup_eq_none_iff.mpr hj
      simp [hk] at *
      simp [this]
    · simp [hk]

theorem get?_ofList {l : List (α × β)} (h : (l.map Prod.fst).Nodup) (k : α) :
    (ofList l).get? k = lookup k l := by
  simp [ofList, get?_foldl_insert l h]

theorem mem_ofList {l : List (α × β)} {e : α × β} (h : e ∈ (ofList l).entries) : e ∈ l := by
  have general : ∀ (l : List (α × β)) (m : SortedMap α β),
      e ∈ (l.foldl (fun m e => m.insert e.1 e.2) m).entries → e ∈ l ∨ e ∈ m.entries := by
    intro l
    induction l with
    | nil => exact fun m he => .inr he
    | cons d rest ih =>
      intro m he
      rcases ih _ he with hr | hm
      · exact .inl (List.mem_cons_of_mem _ hr)
      · rcases mem_insertEntry hm with rfl | hm
        · exact .inl (by simp)
        · exact .inr hm
  rcases general l empty h with hl | he
  · exact hl
  · cases he

theorem contains_insert (m : SortedMap α β) (k j : α) (x : β) :
    (m.insert k x).contains j = true ↔ j = k ∨ m.contains j = true := by
  simp only [contains, get?_insert]
  by_cases h : j = k <;> simp [h]

theorem contains_foldl_insert (l : List (α × β)) (m : SortedMap α β) (k : α) :
    (l.foldl (fun m e => m.insert e.1 e.2) m).contains k = true ↔
      k ∈ l.map Prod.fst ∨ m.contains k = true := by
  induction l generalizing m with
  | nil => simp
  | cons d rest ih =>
    rw [List.foldl_cons, ih, contains_insert, List.map_cons, List.mem_cons]
    tauto

theorem mem_keys_ofList {l : List (α × β)} {k : α} :
    k ∈ (ofList l).keys ↔ k ∈ l.map Prod.fst := by
  rw [mem_keys_iff, ofList, contains_foldl_insert]
  simp [contains]

theorem keys_nodup (m : SortedMap α β) : m.keys.Nodup := by
  unfold keys
  rw [List.Nodup, List.pairwise_map]
  exact m.sorted.imp ne_of_lt

/-- Sorted lists over the same entries are the same list. -/
theorem ext {m n : SortedMap α β} (h : ∀ k, m.get? k = n.get? k) : m = n := by
  have hmem : ∀ e, e ∈ m.entries ↔ e ∈ n.entries := by
    rintro ⟨k, x⟩
    rw [mem_entries_iff, mem_entries_iff, h k]
  have nodup : ∀ p : SortedMap α β, p.entries.Nodup := fun p =>
    p.sorted.imp (fun hlt he => absurd hlt (by rw [he]; exact lt_irrefl _))
  have hp : m.entries.Perm n.entries := (List.perm_ext_iff_of_nodup (nodup m) (nodup n)).mpr hmem
  exact eq_of_entries
    (hp.eq_of_pairwise (fun a b _ _ hab hba => absurd hab (lt_asymm hba)) m.sorted n.sorted)

theorem mem_ofList_iff {l : List (α × β)} (h : (l.map Prod.fst).Nodup) {e : α × β} :
    e ∈ (ofList l).entries ↔ e ∈ l := by
  constructor
  · exact mem_ofList
  · intro he
    apply mem_entries_iff.mpr
    rw [get?_ofList h]
    induction l with
    | nil => cases he
    | cons d rest ih =>
      obtain ⟨hd, hrest⟩ := List.nodup_cons.mp h
      rcases List.mem_cons.mp he with rfl | he
      · simp [lookup]
      · have hne : e.1 ≠ d.1 := fun hk => hd (hk ▸ List.mem_map.mpr ⟨e, he, rfl⟩)
        simp only [lookup, hne, if_false]
        exact ih hrest he

theorem perm_ofList {l : List (α × β)} (h : (l.map Prod.fst).Nodup) :
    (ofList l).entries.Perm l := by
  have hentries : (ofList l).entries.Nodup :=
    (ofList l).sorted.imp fun hlt he => absurd hlt (by rw [he]; exact lt_irrefl _)
  exact (List.perm_ext_iff_of_nodup hentries (List.Nodup.of_map _ h)).mpr
    fun e => mem_ofList_iff h

/-- Entries already in key order stay as they are. -/
theorem ofList_perm {l : List (α × β)} {m : SortedMap α β} (h : l.Perm m.entries) :
    ofList l = m := by
  have hnodup : (l.map Prod.fst).Nodup := (h.map Prod.fst).nodup_iff.mpr m.keys_nodup
  refine ext fun k => Option.ext fun x => ?_
  rw [← mem_entries_iff, ← mem_entries_iff, mem_ofList_iff hnodup, h.mem_iff]

theorem ofList_entries (m : SortedMap α β) : ofList m.entries = m :=
  ext fun k => get?_ofList (m.keys_nodup) k

/-- The entries that pass a test. -/
def filter (m : SortedMap α β) (test : α → β → Bool) : SortedMap α β :=
  ⟨m.entries.filter fun e => test e.1 e.2, m.sorted.filter _⟩

/-- Values changed in place. -/
def mapValues (m : SortedMap α β) (f : α → β → β) : SortedMap α β where
  entries := m.entries.map fun e => (e.1, f e.1 e.2)
  sorted := by
    rw [List.pairwise_map]
    exact m.sorted

/-- What a list of entries adds to a map hides what the map has under the same keys. -/
theorem get?_foldl (l : List (α × β)) (m : SortedMap α β) (k : α) :
    (l.foldl (fun m e => m.insert e.1 e.2) m).get? k = ((ofList l).get? k).or (m.get? k) := by
  induction l using List.reverseRecOn with
  | nil => rfl
  | append_singleton l e ih =>
    rw [ofList] at ih ⊢
    rw [List.foldl_append, List.foldl_append, List.foldl_cons, List.foldl_nil, List.foldl_cons,
      List.foldl_nil, get?_insert, get?_insert]
    split
    · rfl
    · exact ih

theorem get?_ofList_concat (l : List (α × β)) (e : α × β) (k : α) :
    (ofList (l ++ [e])).get? k = if k = e.1 then some e.2 else (ofList l).get? k := by
  rw [ofList, List.foldl_append, List.foldl_cons, List.foldl_nil, get?_insert]
  rfl

theorem get?_ofList_append (a b : List (α × β)) (k : α) :
    (ofList (a ++ b)).get? k = ((ofList b).get? k).or ((ofList a).get? k) := by
  rw [ofList, List.foldl_append, get?_foldl]
  rfl

/-- What an entry holds is replaced in a list as it is in the map. -/
theorem ofList_replace (a : List (α × β)) {b : List (α × β)} {k : α} (h : k ∉ b.map Prod.fst)
    (x y : β) : ofList (a ++ (k, y) :: b) = (ofList (a ++ (k, x) :: b)).insert k y := by
  have hsingle : ∀ z : β, ofList [(k, z)] = empty.insert k z := fun _ => rfl
  have hcons : ∀ z j, (ofList ((k, z) :: b)).get? j =
      ((ofList b).get? j).or (if j = k then some z else none) := by
    intro z j
    rw [← List.singleton_append, get?_ofList_append, hsingle, get?_insert]
    rfl
  refine ext fun j => ?_
  rw [get?_insert, get?_ofList_append, get?_ofList_append, hcons, hcons]
  by_cases hj : j = k
  · have hnone : (ofList b).get? k = none := by
      rw [← Option.not_isSome_iff_eq_none]
      exact fun hsome => h (mem_keys_ofList.mp (mem_keys_iff.mpr hsome))
    simp [hj, hnone]
  · simp [hj]

/-- A list that keeps its length has distinct keys. -/
theorem nodup_of_length {l : List (α × β)} (h : l.length ≤ (ofList l).entries.length) :
    (l.map Prod.fst).Nodup := by
  have hsub : (ofList l).keys ⊆ l.map Prod.fst := fun k hk => mem_keys_ofList.mp hk
  have hlength : (l.map Prod.fst).length ≤ (ofList l).keys.length := by
    rw [List.length_map, keys, List.length_map]
    exact h
  have hperm := (List.subperm_of_subset (keys_nodup _) hsub).perm_of_length_le hlength
  exact hperm.nodup_iff.mp (keys_nodup _)

/-- The entries under new keys and with new values; the last of those that share a key stays. -/
def rekey {γ : Type u} {δ : Type v} [LinearOrder γ] (m : SortedMap α β) (key : α → β → γ)
    (value : α → β → δ) : SortedMap γ δ :=
  ofList (m.entries.map fun e => (key e.1 e.2, value e.1 e.2))

section
variable {γ : Type u} {δ : Type v} [LinearOrder γ] {m : SortedMap α β} {key : α → β → γ}
  {value : α → β → δ}

theorem mem_rekey {k : γ} {x : δ} (h : (m.rekey key value).get? k = some x) :
    ∃ e ∈ m.entries, key e.1 e.2 = k ∧ value e.1 e.2 = x := by
  obtain ⟨e, he, heq⟩ := List.mem_map.mp (mem_ofList (mem_entries_iff.mpr h))
  exact ⟨e, he, (Prod.mk.inj heq).1, (Prod.mk.inj heq).2⟩

theorem contains_rekey {k : γ} :
    (m.rekey key value).contains k = true ↔ ∃ e ∈ m.entries, key e.1 e.2 = k := by
  rw [← mem_keys_iff, rekey, mem_keys_ofList]
  simp

/-- The last entry under a new key. -/
def LastUnder (m : SortedMap α β) (key : α → β → γ) (k : γ) (e : α × β) : Prop :=
  e ∈ m.entries ∧ key e.1 e.2 = k ∧ ∀ e' ∈ m.entries, key e'.1 e'.2 = k → e'.1 ≤ e.1

/-- What is found under a new key is the last entry that has it. -/
theorem get?_rekey_iff {k : γ} {x : δ} :
    (m.rekey key value).get? k = some x ↔ ∃ e, LastUnder m key k e ∧ value e.1 e.2 = x := by
  have general : ∀ l : List (α × β), l.Pairwise (fun a b => a.1 < b.1) →
      ((ofList (l.map fun e => (key e.1 e.2, value e.1 e.2))).get? k = some x ↔
        ∃ e ∈ l, key e.1 e.2 = k ∧ value e.1 e.2 = x ∧
          ∀ e' ∈ l, key e'.1 e'.2 = k → e'.1 ≤ e.1) := by
    intro l
    induction l using List.reverseRecOn with
    | nil => simp [ofList]
    | append_singleton l d ih =>
      intro hsorted
      obtain ⟨hl, -, hlast⟩ := List.pairwise_append.mp hsorted
      have hlt : ∀ e ∈ l, e.1 < d.1 := fun e he => hlast e he d (by simp)
      rw [List.map_append, List.map_singleton, get?_ofList_concat]
      by_cases hk : k = key d.1 d.2
      · rw [if_pos hk]
        constructor
        · intro hx
          refine ⟨d, by simp, hk.symm, Option.some.inj hx, fun e' he' _ => ?_⟩
          rcases List.mem_append.mp he' with he' | he'
          · exact (hlt e' he').le
          · rw [List.mem_singleton.mp he']
        · rintro ⟨e, he, -, rfl, hmax⟩
          have hle := hmax d (by simp) hk.symm
          rcases List.mem_append.mp he with he | he
          · exact absurd (hlt e he) (not_lt.mpr hle)
          · rw [List.mem_singleton.mp he]
      · rw [if_neg hk, ih hl]
        constructor
        · rintro ⟨e, he, hke, hx, hmax⟩
          refine ⟨e, by simp [he], hke, hx, fun e' he' hk' => ?_⟩
          rcases List.mem_append.mp he' with he' | he'
          · exact hmax e' he' hk'
          · rw [List.mem_singleton.mp he'] at hk'
            exact absurd hk'.symm hk
        · rintro ⟨e, he, hke, hx, hmax⟩
          rcases List.mem_append.mp he with he | he
          · exact ⟨e, he, hke, hx, fun e' he' hk' => hmax e' (by simp [he']) hk'⟩
          · rw [List.mem_singleton.mp he] at hke
            exact absurd hke.symm hk
  rw [rekey, general m.entries m.sorted]
  constructor
  · rintro ⟨e, he, hk, hx, hmax⟩
    exact ⟨e, ⟨he, hk, hmax⟩, hx⟩
  · rintro ⟨e, ⟨he, hk, hmax⟩, hx⟩
    exact ⟨e, he, hk, hx, hmax⟩

theorem LastUnder.get?_rekey {k : γ} {e : α × β} (h : LastUnder m key k e) :
    (m.rekey key value).get? k = some (value e.1 e.2) :=
  get?_rekey_iff.mpr ⟨e, h, rfl⟩

theorem exists_lastUnder {e : α × β} (he : e ∈ m.entries) :
    ∃ e', LastUnder m key (key e.1 e.2) e' := by
  have hkey : (m.rekey key fun _ x => x).contains (key e.1 e.2) = true :=
    contains_rekey.mpr ⟨e, he, rfl⟩
  obtain ⟨x, hx⟩ := Option.isSome_iff_exists.mp hkey
  obtain ⟨e', he', -⟩ := get?_rekey_iff.mp hx
  exact ⟨e', he'⟩

/-- What is left after a change of keys: the entries that are last under their new ones. -/
theorem perm_rekey [DecidablePred fun e : α × β => LastUnder m key (key e.1 e.2) e] :
    (m.rekey key value).entries.Perm
      ((m.entries.filter fun e => LastUnder m key (key e.1 e.2) e).map
        fun e => (key e.1 e.2, value e.1 e.2)) := by
  have hnew : (m.rekey key value).entries.Nodup := List.Nodup.of_map _ (keys_nodup _)
  have hold : m.entries.Nodup := List.Nodup.of_map _ m.keys_nodup
  have hlast : ((m.entries.filter fun e => LastUnder m key (key e.1 e.2) e).map
      fun e => (key e.1 e.2, value e.1 e.2)).Nodup := by
    refine List.Nodup.map_on (fun d hd e he heq => ?_) (hold.filter _)
    have hkey : key d.1 d.2 = key e.1 e.2 := (Prod.mk.inj heq).1
    have hd' : LastUnder m key (key d.1 d.2) d := by simpa using (List.mem_filter.mp hd).2
    have he' : LastUnder m key (key e.1 e.2) e := by simpa using (List.mem_filter.mp he).2
    have hid : d.1 = e.1 := le_antisymm (he'.2.2 d hd'.1 hkey) (hd'.2.2 e he'.1 hkey.symm)
    exact List.inj_on_of_nodup_map m.keys_nodup hd'.1 he'.1 hid
  refine (List.perm_ext_iff_of_nodup hnew hlast).mpr fun d => ?_
  constructor
  · intro hd
    obtain ⟨e, he, hx⟩ := get?_rekey_iff.mp (mem_entries_iff.mp hd)
    refine List.mem_map.mpr ⟨e, List.mem_filter.mpr ⟨he.1, ?_⟩, ?_⟩
    · simpa [he.2.1] using he
    · rw [he.2.1, hx]
  · intro hd
    obtain ⟨e, he, rfl⟩ := List.mem_map.mp hd
    have he' : LastUnder m key (key e.1 e.2) e := by simpa using (List.mem_filter.mp he).2
    exact mem_entries_iff.mpr he'.get?_rekey

/-- The values that pass a test all stay exactly when each is last under its new key. -/
theorem perm_values_rekey_iff {test : δ → Bool} :
    ((m.rekey key value).values.filter test).Perm
        ((m.entries.map fun e => value e.1 e.2).filter test) ↔
      ∀ e ∈ m.entries, test (value e.1 e.2) = true → LastUnder m key (key e.1 e.2) e := by
  classical
  have hstay : ((m.rekey key value).values.filter test).Perm
      (((m.entries.filter fun e => test (value e.1 e.2)).filter
        fun e => LastUnder m key (key e.1 e.2) e).map fun e => value e.1 e.2) := by
    have hrekey : (m.rekey key value).entries.Perm _ := perm_rekey
    have h := (hrekey.map Prod.snd).filter test
    rw [List.map_map, List.filter_map (f := Prod.snd ∘ _), List.filter_filter] at h
    rw [List.filter_filter]
    simpa only [values, Function.comp_def, Bool.and_comm] using h
  rw [List.filter_map]
  constructor
  · intro h e he htest
    have hlength := (hstay.symm.trans h).length_eq
    rw [List.length_map, List.length_map] at hlength
    have hall := (List.length_filter_eq_length_iff.mp hlength) e
      (List.mem_filter.mpr ⟨he, htest⟩)
    simpa using hall
  · intro h
    have hall : ∀ e ∈ m.entries.filter fun e => test (value e.1 e.2),
        decide (LastUnder m key (key e.1 e.2) e) = true := by
      intro e he
      obtain ⟨hmem, htest⟩ := List.mem_filter.mp he
      simpa using h e hmem htest
    rw [List.filter_eq_self.mpr hall] at hstay
    exact hstay

theorem rekey_eq_self {m : SortedMap α β} {key : α → β → α} {value : α → β → β}
    (h : ∀ e ∈ m.entries, key e.1 e.2 = e.1 ∧ value e.1 e.2 = e.2) : m.rekey key value = m := by
  have hmap : (m.entries.map fun e => (key e.1 e.2, value e.1 e.2)) = m.entries := by
    refine (List.map_congr_left fun e he => ?_).trans (List.map_id _)
    rw [(h e he).1, (h e he).2]
    rfl
  rw [rekey, hmap, ofList_entries]

/-- With distinct new keys every entry stays. -/
theorem get?_rekey (h : (m.entries.map fun e => key e.1 e.2).Nodup) {k : α} {x : β}
    (hx : m.get? k = some x) : (m.rekey key value).get? (key k x) = some (value k x) := by
  have hnodup : ((m.entries.map fun e => (key e.1 e.2, value e.1 e.2)).map Prod.fst).Nodup := by
    simpa [Function.comp_def] using h
  apply mem_entries_iff.mp
  exact (mem_ofList_iff hnodup).mpr
    (List.mem_map.mpr ⟨(k, x), mem_entries_iff.mpr hx, rfl⟩)

end

theorem get?_filter (m : SortedMap α β) (test : α → β → Bool) (k : α) :
    (m.filter test).get? k = (m.get? k).filter (test k) := by
  cases h : m.get? k with
  | none =>
    cases hf : (m.filter test).get? k with
    | none => rfl
    | some x =>
      have hmem := (List.mem_filter.mp (mem_entries_iff.mpr hf)).1
      rw [mem_entries_iff.mp hmem] at h
      cases h
  | some x =>
    cases ht : test k x with
    | true =>
      rw [Option.filter_some_pos ht]
      exact mem_entries_iff.mp (List.mem_filter.mpr ⟨mem_entries_iff.mpr h, ht⟩)
    | false =>
      rw [Option.filter_some_neg (by simp [ht])]
      cases hf : (m.filter test).get? k with
      | none => rfl
      | some y =>
        obtain ⟨hmem, hy⟩ := List.mem_filter.mp (mem_entries_iff.mpr hf)
        rw [mem_entries_iff.mp hmem] at h
        cases h
        simp [ht] at hy

theorem get?_erase (m : SortedMap α β) (k j : α) :
    (m.erase k).get? j = if j = k then none else m.get? j := by
  have h := get?_filter m (fun i _ => decide (i ≠ k)) j
  change (m.erase k).get? j = _ at h
  rw [h]
  split
  · rename_i hj
    exact Option.filter_eq_none_iff.mpr fun x _ => by simp [hj]
  · rename_i hj
    cases m.get? j <;> simp [Option.filter, hj]

theorem values_filter (m : SortedMap α β) (test : β → Bool) :
    (m.filter fun _ x => test x).values = m.values.filter test := by
  rw [values, values, List.filter_map]
  rfl

theorem mem_values {m : SortedMap α β} {x : β} : x ∈ m.values ↔ ∃ k, m.get? k = some x := by
  constructor
  · intro h
    obtain ⟨e, he, rfl⟩ := List.mem_map.mp h
    exact ⟨e.1, mem_entries_iff.mp he⟩
  · rintro ⟨k, hk⟩
    exact List.mem_map.mpr ⟨(k, x), mem_entries_iff.mpr hk, rfl⟩

/-- A list that is the same length as the map made of it has distinct keys, and only such a one. -/
theorem perm_values_ofList_iff {γ : Type*} {l : List (α × β)} {f : β → γ} :
    ((ofList l).values.map f).Perm (l.map fun e => f e.2) ↔ (l.map Prod.fst).Nodup := by
  constructor
  · intro h
    have hlength := h.length_eq
    rw [List.length_map, values, List.length_map, List.length_map] at hlength
    exact nodup_of_length hlength.ge
  · intro h
    have hperm := ((perm_ofList h).map Prod.snd).map f
    simpa [values, Function.comp_def] using hperm

theorem get?_mapValues (m : SortedMap α β) (f : α → β → β) (k : α) :
    (m.mapValues f).get? k = (m.get? k).map (f k) := by
  have general : ∀ l : List (α × β),
      lookup k (l.map fun e => (e.1, f e.1 e.2)) = (lookup k l).map (f k) := by
    intro l
    induction l with
    | nil => rfl
    | cons e l ih =>
      simp only [List.map_cons, lookup]
      split
      · rename_i hk
        simp [hk]
      · exact ih
  exact general m.entries

theorem mem_filter {m : SortedMap α β} {test : α → β → Bool} {e : α × β}
    (h : e ∈ (m.filter test).entries) : e ∈ m.entries :=
  (List.mem_filter.mp h).1

theorem mem_insert {m : SortedMap α β} {k : α} {x : β} {e : α × β}
    (h : e ∈ (m.insert k x).entries) : e = (k, x) ∨ e ∈ m.entries :=
  mem_insertEntry h

end SortedMap

end NdimonR
