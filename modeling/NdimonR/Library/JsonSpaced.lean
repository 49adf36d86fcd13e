import NdimonR.Library.JsonRead

/-! JSON texts put together with blanks, and what they are read as. -/

namespace NdimonR.Json.Reader

open Text Scan

/-- A text inside quotes, as it is. -/
def inQuotes (s : String) : String := "\"" ++ s ++ "\""

def memberText (k v : String) : String := inQuotes k ++ ": " ++ v

/-- Items between two brackets, with the same blanks before each. -/
def spaced (w : String) (items : List String) (w' : String) : String :=
  w ++ String.intercalate ("," ++ w) items ++ w'

def objectText (w : String) (members : List String) (w' : String) : String :=
  "\x7b" ++ spaced w members w' ++ "\x7d"

def arrayText (items : List String) : String := "[" ++ spaced "" items "" ++ "]"

/-- A character between quotes that no escape is needed for. -/
def isUnescaped (c : Char) : Bool := c ≠ '"' && c ≠ '\\' && decide (32 ≤ c.toNat)

variable {float : List Char → Option ℚ} {d : ℕ}

theorem toList_inQuotes (s : String) : (inQuotes s).toList = '"' :: (s.toList ++ ['"']) := by
  simp [inQuotes]

/-- What an escape writes is read back, where it escapes every character of the text. -/
theorem quoted_written {escape : Char → List Char} {s : String}
    (written : ∀ c ∈ s.toList, Escaped c (escape c)) :
    Quoted (inQuotes (String.ofList (s.toList.flatMap escape))).toList s := by
  have hescape : ∀ c, Escaped c (if c ∈ s.toList then escape c else Json.escape c) := by
    intro c
    split_ifs with hc
    · exact written c hc
    · exact escape_cases c
  have hsame : s.toList.flatMap (fun c => if c ∈ s.toList then escape c else Json.escape c) =
      s.toList.flatMap escape := List.flatMap_congr fun c hc => if_pos hc
  rw [toList_inQuotes, String.toList_ofList, ← hsame]
  exact quoted_escaped hescape s

theorem quoted_unescaped {s : String} (h : s.toList.all isUnescaped = true) :
    Quoted (inQuotes s).toList s := by
  have hquoted := @quoted_written (fun c => [c]) s fun c hc => by
    have hc := List.all_eq_true.mp h c hc
    simp only [isUnescaped, Bool.and_eq_true, decide_eq_true_eq] at hc
    exact .inr (.inr ⟨rfl, hc.1.1, hc.1.2, hc.2⟩)
  rwa [List.flatMap_singleton', String.ofList_toList] at hquoted

theorem written_simple {t : List Char} {x : Json} (h : Simple float t x) : Written float d t x := by
  cases d with
  | zero => exact h
  | succ d => exact .inl h

theorem written_string {t s : String} (h : Quoted t.toList s) :
    Written float d t.toList (.str s) := written_simple (.inl ⟨s, h, rfl⟩)

theorem written_bool (b : Bool) :
    Written float d (if b then "true" else "false").toList (.bool b) := by
  refine written_simple (.inr ?_)
  cases b
  · exact ⟨by decide, List.all_eq_true.mp rfl, rfl⟩
  · exact ⟨by decide, List.all_eq_true.mp rfl, rfl⟩

theorem toList_spaced (w : String) (items : List String) (w' : String) :
    (spaced w items w').toList =
      w.toList ++ (',' :: w.toList).intercalate (items.map String.toList) ++ w'.toList := by
  simp [spaced]

theorem member_written {k v : String} {x : Json} (hk : k.toList.all isUnescaped = true)
    (hv : Written float d v.toList x) :
    MemberText (Written float d) (memberText k v).toList (k, x) := by
  refine ⟨(inQuotes k).toList, [], [' '], v.toList, ?_, quoted_unescaped hk, blanks_nil, ?_, hv⟩
  · simp [memberText]
  · intro c hc
    rw [List.mem_singleton.mp hc]
    rfl

theorem object_written {w w' : String} {ts : List String} {ms : List (String × Json)}
    (hw : w.toList.all isSpace = true) (hw' : w'.toList.all isSpace = true)
    (h : List.Forall₂ (fun t e => MemberText (Written float d) t.toList e) ts ms) :
    Written float (d + 1) (objectText w ts w').toList (ofMembers ms) := by
  refine .inr (.inr ⟨(spaced w ts w').toList, ms, by simp [objectText], ?_, rfl⟩)
  rw [toList_spaced]
  exact between_intercalate (List.all_eq_true.mp hw) (List.all_eq_true.mp hw')
    (List.forall₂_map_left_iff.mpr h)

theorem read_objectText {w w' last : String} {ts : List String} {ms : List (String × Json)}
    (hw : w.toList.all isSpace = true) (hw' : w'.toList.all isSpace = true)
    (hlast : last.toList.all isSpace = true)
    (h : List.Forall₂ (fun t e => MemberText (Written float (maxDepth - 1)) t.toList e) ts ms) :
    read float (objectText w ts w' ++ last).toList = some (ofMembers ms) := by
  refine read_of_object ⟨[], (spaced w ts w').toList, last.toList, ?_, blanks_nil,
    List.all_eq_true.mp hlast, ?_⟩
  · simp [objectText]
  · rw [toList_spaced]
    exact between_intercalate (List.all_eq_true.mp hw) (List.all_eq_true.mp hw')
      (List.forall₂_map_left_iff.mpr h)

theorem array_written {ts : List String} {xs : List Json}
    (h : List.Forall₂ (fun t x => Written float d t.toList x) ts xs) :
    Written float (d + 1) (arrayText ts).toList (.arr xs) := by
  refine .inr (.inl ⟨(spaced "" ts "").toList, xs, by simp [arrayText], ?_, rfl⟩)
  rw [toList_spaced]
  exact between_intercalate blanks_nil blanks_nil (List.forall₂_map_left_iff.mpr h)

end NdimonR.Json.Reader
