import Mathlib.Data.List.Infix
import Mathlib.Data.List.Nodup
import Mathlib.Order.Defs.LinearOrder

/-! Times of attempts, kept for each key within a window, capped in number, and the keys bounded.

A record may lag behind what happened: it is pruned and capped when it is looked at. What it then
still knows is that whatever it lost is too old to matter, or that it is full. -/

namespace NdimonR.Attempts

/-- A time after `now` has passed no time at all. -/
def recent (span now t : ℕ) : Bool := decide (now - t < span)

theorem recent_earlier {span now later t : ℕ} (h : now ≤ later) (old : recent span later t = true) :
    recent span now t = true := by
  simp only [recent, decide_eq_true_eq] at old ⊢
  omega

/-! ### One key -/

section

/-- The record of a history, at a time. -/
def Tracks (span cap now : ℕ) (history times : List ℕ) : Prop :=
  ∃ gone, history = gone ++ times ∧ times.length ≤ cap ∧
    (times.length = cap ∨ ∀ t ∈ gone, recent span now t = false)

variable {span cap now : ℕ} {history times : List ℕ}

theorem Tracks.nil (span cap now : ℕ) : Tracks span cap now [] [] :=
  ⟨[], rfl, Nat.zero_le _, .inr fun _ h => absurd h List.not_mem_nil⟩

theorem Tracks.later {then' : ℕ} (h : Tracks span cap now history times) (hle : now ≤ then') :
    Tracks span cap then' history times := by
  obtain ⟨gone, hsplit, hcap, hold⟩ := h
  refine ⟨gone, hsplit, hcap, hold.imp_right ?_⟩
  intro hold t ht
  cases hr : recent span then' t with
  | false => rfl
  | true => rw [← hold t ht, recent_earlier hle hr]

/-- In order of time, what a window keeps is the end of the list. -/
theorem filter_recent (sorted : times.Pairwise (· ≤ ·)) :
    ∃ gone, times = gone ++ times.filter (recent span now) ∧
      ∀ t ∈ gone, recent span now t = false := by
  induction times with
  | nil => exact ⟨[], rfl, fun _ h => absurd h List.not_mem_nil⟩
  | cons t times ih =>
    obtain ⟨hfirst, hrest⟩ := List.pairwise_cons.mp sorted
    cases hr : recent span now t with
    | false =>
      obtain ⟨gone, hsplit, hold⟩ := ih hrest
      refine ⟨t :: gone, ?_, ?_⟩
      · rw [List.filter_cons_of_neg (by simp [hr]), List.cons_append, ← hsplit]
      · intro u hu
        rcases List.mem_cons.mp hu with rfl | hu
        · exact hr
        · exact hold u hu
    | true =>
      refine ⟨[], ?_, fun _ h => absurd h List.not_mem_nil⟩
      have hall : ∀ u ∈ t :: times, recent span now u = true := by
        intro u hu
        rcases List.mem_cons.mp hu with rfl | hu
        · exact hr
        · have hle := hfirst u hu
          simp only [recent, decide_eq_true_eq] at hr ⊢
          omega
      rw [List.filter_eq_self.mpr hall, List.nil_append]

/-- Pruning at an earlier time than the present loses only what is old at present. -/
theorem Tracks.prune {read : ℕ} (h : Tracks span cap now history times)
    (sorted : history.Pairwise (· ≤ ·)) (hread : read ≤ now) :
    Tracks span cap now history (times.filter (recent span read)) := by
  obtain ⟨gone, rfl, hcap, hold⟩ := h
  obtain ⟨-, hsorted, hacross⟩ := List.pairwise_append.mp sorted
  obtain ⟨pruned, hsplit, hpruned⟩ := @filter_recent span read _ hsorted
  have hlater : ∀ t, recent span read t = false → recent span now t = false := by
    intro t ht
    cases hr : recent span now t with
    | false => rfl
    | true => rw [← ht, recent_earlier hread hr]
  rcases List.eq_nil_or_concat' pruned with rfl | ⟨init, last, rfl⟩
  · rw [List.nil_append] at hsplit
    rw [← hsplit]
    exact ⟨gone, rfl, hcap, hold⟩
  · refine ⟨gone ++ (init ++ [last]), ?_, ?_, .inr ?_⟩
    · rw [List.append_assoc, ← hsplit]
    · exact (List.length_filter_le _ _).trans hcap
    · -- What went before is no younger than the last that is pruned now.
      have hlast := hlater last (hpruned last (by simp))
      intro t ht
      rcases List.mem_append.mp ht with hgone | hnow
      · have hle : t ≤ last := hacross t hgone last (by rw [hsplit]; simp)
        simp only [recent, decide_eq_false_iff_not] at hlast ⊢
        omega
      · exact hlater t (hpruned t hnow)

/-- One more, in place of the first where the record is full. -/
def push (cap t : ℕ) (times : List ℕ) : List ℕ :=
  (if cap ≤ times.length then times.drop 1 else times) ++ [t]

theorem length_push (hcap : 0 < cap) (h : times.length ≤ cap) (t : ℕ) :
    (push cap t times).length ≤ cap := by
  simp only [push]
  split <;> simp <;> omega

theorem Tracks.push (h : Tracks span cap now history times) (hcap : 0 < cap) (t : ℕ) :
    Tracks span cap now (history ++ [t]) (push cap t times) := by
  obtain ⟨gone, rfl, hlength, hold⟩ := h
  by_cases hfull : cap ≤ times.length
  · refine ⟨gone ++ times.take 1, ?_, length_push hcap hlength t, .inl ?_⟩
    · rw [Attempts.push, if_pos hfull]
      simp only [List.append_assoc]
      rw [← List.append_assoc (times.take 1), List.take_append_drop]
    · rw [Attempts.push, if_pos hfull, List.length_append, List.length_drop, List.length_singleton]
      omega
  · refine ⟨gone, ?_, length_push hcap hlength t, .inr ?_⟩
    · rw [Attempts.push, if_neg hfull, List.append_assoc]
    · rcases hold with hsame | hold
      · omega
      · exact hold

/-- A record that is not full knows every recent attempt. -/
theorem Tracks.count_le (h : Tracks span cap now history times) (hless : times.length < cap) :
    (history.filter (recent span now)).length ≤ times.length := by
  obtain ⟨gone, rfl, -, hold⟩ := h
  rcases hold with hfull | hold
  · omega
  · have hnone : gone.filter (recent span now) = [] := by
      rw [List.filter_eq_nil_iff]
      intro t ht
      simp [hold t ht]
    rw [List.filter_append, hnone, List.nil_append]
    exact List.length_filter_le _ _

/-- What it knows after pruning did happen lately. -/
theorem Tracks.le_count (h : Tracks span cap now history times) (read : ℕ) :
    (times.filter (recent span read)).length ≤ (history.filter (recent span read)).length := by
  obtain ⟨gone, rfl, -, -⟩ := h
  rw [List.filter_append, List.length_append]
  omega

theorem Tracks.mem (h : Tracks span cap now history times) {t : ℕ} (ht : t ∈ times) :
    t ∈ history := by
  obtain ⟨gone, rfl, -⟩ := h
  exact List.mem_append_right gone ht

/-- The last of the record is the last of all. -/
theorem Tracks.le_last (h : Tracks span cap now history times) (sorted : history.Pairwise (· ≤ ·))
    {last : ℕ} (hlast : times.getLast? = some last) : ∀ t ∈ history, t ≤ last := by
  obtain ⟨gone, rfl, -⟩ := h
  obtain ⟨init, rfl⟩ := List.getLast?_eq_some_iff.mp hlast
  rw [← List.append_assoc] at sorted ⊢
  intro t ht
  rcases List.mem_append.mp ht with hinit | hhere
  · exact (List.pairwise_append.mp sorted).2.2 t hinit last (by simp)
  · rw [List.mem_singleton.mp hhere]

end

/-! ### All keys -/

abbrev Table (K : Type) := List (K × List ℕ)

variable {K : Type}

/-- The times of the window, and only keys that have some. -/
def pruned (span now : ℕ) (table : Table K) : Table K :=
  (table.map fun e => (e.1, e.2.filter (recent span now))).filter fun e => !e.2.isEmpty

/-- A key with no times comes before all others. -/
def age (e : K × List ℕ) : ℕ := e.2.getLast?.elim 0 (· + 1)

/-- The order in which a map of keys is walked. -/
structure Walk (K : Type) where
  order : Table K → Table K
  perm : ∀ table, (order table).Perm table

/-- The key whose last time is the earliest; of several, the first. -/
def oldest : Table K → Option (K × List ℕ)
  | [] => none
  | e :: rest =>
    match oldest rest with
    | none => some e
    | some other => if age other < age e then some other else some e

/-- Each key once. -/
def Keyed (table : Table K) : Prop := (table.map Prod.fst).Nodup

theorem mem_pruned {table : Table K} {span now : ℕ} {e : K × List ℕ} :
    e ∈ pruned span now table ↔
      ∃ ts, (e.1, ts) ∈ table ∧ e.2 = ts.filter (recent span now) ∧ e.2 ≠ [] := by
  simp only [pruned, List.mem_filter, List.mem_map]
  constructor
  · rintro ⟨⟨x, hx, rfl⟩, hne⟩
    exact ⟨x.2, hx, rfl, by simpa using hne⟩
  · rintro ⟨ts, hmem, hfilter, hne⟩
    refine ⟨⟨(e.1, ts), hmem, ?_⟩, by simpa using hne⟩
    rw [← hfilter]

theorem keyed_pruned {table : Table K} (keyed : Keyed table) (span now : ℕ) :
    Keyed (pruned span now table) := by
  have hsub := (List.filter_sublist (p := fun e : K × List ℕ => !e.2.isEmpty)
    (l := table.map fun e => (e.1, e.2.filter (recent span now)))).map Prod.fst
  rw [List.map_map] at hsub
  exact keyed.sublist hsub

theorem length_pruned_le (span now : ℕ) (table : Table K) :
    (pruned span now table).length ≤ table.length :=
  (List.length_filter_le _ _).trans (List.length_map _).le

theorem oldest_mem {table : Table K} {e : K × List ℕ} (h : oldest table = some e) : e ∈ table := by
  induction table generalizing e with
  | nil => cases h
  | cons first rest ih =>
    rw [oldest] at h
    cases ho : oldest rest with
    | none =>
      rw [ho] at h
      cases h
      exact List.mem_cons_self
    | some other =>
      rw [ho] at h
      simp only at h
      split at h
      · cases h
        exact List.mem_cons_of_mem _ (ih ho)
      · cases h
        exact List.mem_cons_self

theorem oldest_isSome {table : Table K} (h : table ≠ []) : ∃ e, oldest table = some e := by
  cases table with
  | nil => exact absurd rfl h
  | cons first rest =>
    rw [oldest]
    cases oldest rest with
    | none => exact ⟨first, rfl⟩
    | some other =>
      simp only
      split
      · exact ⟨other, rfl⟩
      · exact ⟨first, rfl⟩

variable [DecidableEq K]

def times (table : Table K) (k : K) : List ℕ :=
  ((table.find? fun e => e.1 = k).map Prod.snd).getD []

def has (table : Table K) (k : K) : Bool := table.any fun e => e.1 = k

/-- The table without a key. -/
def without (table : Table K) (k : K) : Table K := table.filter fun e => e.1 ≠ k

/-- Room for a key: a full table loses its oldest, unless the key is there already. -/
def makeRoom (walk : Walk K) (limit : ℕ) (table : Table K) (k : K) : Table K :=
  if limit ≤ table.length && !has table k then
    match oldest (walk.order table) with
    | some e => without table e.1
    | none => table
  else table

/-- The key's times changed, from none where it is new. -/
def update (table : Table K) (k : K) (f : List ℕ → List ℕ) : Table K :=
  if has table k then table.map fun e => if e.1 = k then (k, f e.2) else e
  else table ++ [(k, f [])]

theorem find?_eq_none_iff {table : Table K} {k : K} :
    table.find? (fun e => e.1 = k) = none ↔ has table k = false := by
  simp [has]

theorem times_of_mem {table : Table K} {e : K × List ℕ} (keyed : Keyed table) (he : e ∈ table) :
    times table e.1 = e.2 := by
  induction table with
  | nil => exact absurd he List.not_mem_nil
  | cons first rest ih =>
    obtain ⟨hfresh, hrest⟩ := List.nodup_cons.mp keyed
    rcases List.mem_cons.mp he with rfl | he
    · simp [times]
    · have hne : first.1 ≠ e.1 := by
        intro hsame
        exact hfresh (List.mem_map.mpr ⟨e, he, hsame.symm⟩)
      have := ih hrest he
      simpa [times, hne] using this

theorem times_of_not_has {table : Table K} {k : K} (h : has table k = false) :
    times table k = [] := by
  rw [times, find?_eq_none_iff.mpr h]
  rfl

theorem mem_of_has {table : Table K} {k : K} (h : has table k = true) :
    ∃ e ∈ table, e.1 = k := by
  simpa [has] using h

/-- A table is read the same as another that holds the same for every key. -/
theorem times_eq {table : Table K} {k : K} {ts : List ℕ} (keyed : Keyed table)
    (h : (k, ts) ∈ table ∨ (ts = [] ∧ has table k = false)) : times table k = ts := by
  rcases h with hmem | ⟨rfl, hnone⟩
  · exact times_of_mem keyed hmem
  · exact times_of_not_has hnone

theorem has_eq_false_iff {table : Table K} {k : K} :
    has table k = false ↔ ∀ e ∈ table, e.1 ≠ k := by
  simp [has]

theorem keyed_without {table : Table K} (keyed : Keyed table) (k : K) :
    Keyed (without table k) :=
  keyed.sublist (List.filter_sublist.map Prod.fst)

theorem times_pruned {table : Table K} (keyed : Keyed table) (span now : ℕ) (k : K) :
    times (pruned span now table) k = (times table k).filter (recent span now) := by
  apply times_eq (keyed_pruned keyed span now)
  cases hhas : has table k with
  | false =>
    rw [times_of_not_has hhas]
    refine .inr ⟨rfl, has_eq_false_iff.mpr ?_⟩
    intro e he hk
    obtain ⟨ts, hmem, -⟩ := mem_pruned.mp he
    exact has_eq_false_iff.mp hhas _ hmem hk
  | true =>
    obtain ⟨e, he, rfl⟩ := mem_of_has hhas
    rw [times_of_mem keyed he]
    by_cases hempty : e.2.filter (recent span now) = []
    · refine .inr ⟨hempty, has_eq_false_iff.mpr ?_⟩
      intro x hx hk
      obtain ⟨ts, hmem, hfilter, hne⟩ := mem_pruned.mp hx
      have hts : times table x.1 = ts := times_of_mem keyed hmem
      rw [hk, times_of_mem keyed he] at hts
      exact hne (by rw [hfilter, ← hts, hempty])
    · exact .inl (mem_pruned.mpr ⟨e.2, he, rfl, hempty⟩)

theorem times_without {table : Table K} (keyed : Keyed table) (k j : K) :
    times (without table k) j = if j = k then [] else times table j := by
  apply times_eq (keyed_without keyed k)
  split
  · rename_i h
    subst h
    refine .inr ⟨rfl, has_eq_false_iff.mpr ?_⟩
    intro e he
    simpa using (List.mem_filter.mp he).2
  · rename_i hne
    cases hhas : has table j with
    | false =>
      refine .inr ⟨times_of_not_has hhas, has_eq_false_iff.mpr ?_⟩
      intro e he
      exact has_eq_false_iff.mp hhas e (List.mem_of_mem_filter he)
    | true =>
      obtain ⟨e, he, rfl⟩ := mem_of_has hhas
      rw [times_of_mem keyed he]
      exact .inl (List.mem_filter.mpr ⟨he, by simpa using hne⟩)

theorem keyed_update {table : Table K} (keyed : Keyed table) (k : K) (f : List ℕ → List ℕ) :
    Keyed (update table k f) := by
  rw [update]
  split
  · have hsame : (table.map fun e => if e.1 = k then (k, f e.2) else e).map Prod.fst =
        table.map Prod.fst := by
      rw [List.map_map]
      apply List.map_congr_left
      intro e _
      by_cases h : e.1 = k
      · simp [h]
      · simp [h]
    rw [Keyed, hsame]
    exact keyed
  · rename_i hnone
    have hfresh := has_eq_false_iff.mp (Bool.eq_false_iff.mpr hnone)
    rw [Keyed, List.map_append, List.nodup_append]
    refine ⟨keyed, by simp, ?_⟩
    intro a ha b hb
    obtain ⟨e, he, rfl⟩ := List.mem_map.mp ha
    simp only [List.map_cons, List.map_nil, List.mem_singleton] at hb
    rw [hb]
    exact hfresh e he

theorem times_update {table : Table K} (keyed : Keyed table) (k j : K) (f : List ℕ → List ℕ) :
    times (update table k f) j = if j = k then f (times table k) else times table j := by
  apply times_eq (keyed_update keyed k f)
  cases hhas : has table k with
  | false =>
    simp only [update, hhas, Bool.false_eq_true, if_false]
    split
    · rename_i h
      subst h
      rw [times_of_not_has hhas]
      simp
    · rename_i hne
      cases hj : has table j with
      | false =>
        refine .inr ⟨times_of_not_has hj, has_eq_false_iff.mpr ?_⟩
        intro e he
        rcases List.mem_append.mp he with he | he
        · exact has_eq_false_iff.mp hj e he
        · rw [List.mem_singleton.mp he]
          exact fun h => hne h.symm
      | true =>
        obtain ⟨e, he, rfl⟩ := mem_of_has hj
        rw [times_of_mem keyed he]
        exact .inl (List.mem_append_left _ he)
  | true =>
    simp only [update, hhas, if_true]
    split
    · rename_i h
      subst h
      obtain ⟨e, he, rfl⟩ := mem_of_has hhas
      rw [times_of_mem keyed he]
      exact .inl (List.mem_map.mpr ⟨e, he, by simp⟩)
    · rename_i hne
      cases hj : has table j with
      | false =>
        refine .inr ⟨times_of_not_has hj, has_eq_false_iff.mpr ?_⟩
        intro e he
        obtain ⟨x, hx, rfl⟩ := List.mem_map.mp he
        by_cases hk : x.1 = k
        · simpa [hk] using fun h => hne h.symm
        · simpa [hk] using has_eq_false_iff.mp hj x hx
      | true =>
        obtain ⟨e, he, rfl⟩ := mem_of_has hj
        rw [times_of_mem keyed he]
        exact .inl (List.mem_map.mpr ⟨e, he, by simp [hne]⟩)

theorem keyed_makeRoom {table : Table K} (keyed : Keyed table) (walk : Walk K) (limit : ℕ)
    (k : K) : Keyed (makeRoom walk limit table k) := by
  rw [makeRoom]
  split
  · split
    · exact keyed_without keyed _
    · exact keyed
  · exact keyed

theorem makeRoom_of_lt {table : Table K} {limit : ℕ} (h : table.length < limit) (walk : Walk K)
    (k : K) : makeRoom walk limit table k = table := by
  rw [makeRoom, if_neg]
  simp only [Bool.and_eq_true, decide_eq_true_eq, not_and]
  omega

theorem length_update (table : Table K) (k : K) (f : List ℕ → List ℕ) :
    (update table k f).length = if has table k then table.length else table.length + 1 := by
  rw [update]
  split <;> simp

/-- With room made for its key, an update stays within the limit. -/
theorem length_bounded {table : Table K} {limit : ℕ} (hlimit : 0 < limit)
    (h : table.length ≤ limit) (walk : Walk K) (k : K) (f : List ℕ → List ℕ) :
    (update (makeRoom walk limit table k) k f).length ≤ limit := by
  rw [length_update, makeRoom]
  by_cases hfull : (limit ≤ table.length && !has table k) = true
  · obtain ⟨hle, hnone⟩ := (Bool.and_eq_true _ _).mp hfull
    have hne : walk.order table ≠ [] := by
      intro hnil
      have hlength := (walk.perm table).length_eq
      rw [hnil, List.length_nil] at hlength
      simp only [decide_eq_true_eq] at hle
      omega
    obtain ⟨e, he⟩ := oldest_isSome hne
    have hless : (without table e.1).length < table.length := by
      apply List.length_filter_lt_length_iff_exists.mpr
      exact ⟨e, (walk.perm table).mem_iff.mp (oldest_mem he), by simp⟩
    simp only [hfull, if_true, he]
    split <;> omega
  · rw [if_neg hfull]
    split
    · exact h
    · rename_i hnone
      simp only [Bool.and_eq_true, decide_eq_true_eq, Bool.not_eq_true', not_and] at hfull
      have : ¬limit ≤ table.length := fun hle => hfull hle (Bool.eq_false_iff.mpr hnone)
      omega

/-- What a property of each key's times says of the keys that are left after pruning. -/
theorem length_pruned_le_of {table : Table K} (keyed : Keyed table) {span now : ℕ} (keys : List K)
    (h : ∀ k t, t ∈ times table k → recent span now t = true → k ∈ keys) :
    (pruned span now table).length ≤ keys.length := by
  have hsub : ∀ k ∈ (pruned span now table).map Prod.fst, k ∈ keys := by
    intro k hk
    obtain ⟨e, he, rfl⟩ := List.mem_map.mp hk
    obtain ⟨ts, hmem, hfilter, hne⟩ := mem_pruned.mp he
    obtain ⟨t, ht⟩ := List.exists_mem_of_ne_nil _ hne
    rw [hfilter, List.mem_filter] at ht
    exact h e.1 t (by rw [times_of_mem keyed hmem]; exact ht.1) ht.2
  have hle := (keyed_pruned keyed span now).length_le_of_subset hsub
  rwa [List.length_map] at hle

end NdimonR.Attempts
