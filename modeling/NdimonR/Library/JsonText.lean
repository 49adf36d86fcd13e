import NdimonR.Library.Json

/-! The compact text of a JSON value. -/

namespace NdimonR.Json

def hexDigit (n : Nat) : Char := "0123456789abcdef".toList.getD n '0'

/-- A character inside quotes. -/
def escape (c : Char) : List Char :=
  if c = '"' then ['\\', '"']
  else if c = '\\' then ['\\', '\\']
  else if c = '\n' then ['\\', 'n']
  else if c = '\r' then ['\\', 'r']
  else if c = '\t' then ['\\', 't']
  else if c = '\x08' then ['\\', 'b']
  else if c = '\x0c' then ['\\', 'f']
  else if c.toNat < 32 then ['\\', 'u', '0', '0', hexDigit (c.toNat / 16), hexDigit (c.toNat % 16)]
  else [c]

/-- What a letter after a backslash stands for. -/
def unescape (c : Char) : Option Char :=
  if c = '"' ∨ c = '\\' then some c
  else if c = 'n' then some '\n'
  else if c = 'r' then some '\r'
  else if c = 't' then some '\t'
  else if c = 'b' then some '\x08'
  else if c = 'f' then some '\x0c'
  else none

def hexValue (c : Char) : Option Nat :=
  if '0' ≤ c ∧ c ≤ '9' then some (c.toNat - 48)
  else if 'a' ≤ c ∧ c ≤ 'f' then some (c.toNat - 87)
  else if 'A' ≤ c ∧ c ≤ 'F' then some (c.toNat - 55)
  else none

/-- The number that four hexadecimal digits write. -/
def codeUnit (a b c d : Char) : Option Nat := do
  let a ← hexValue a
  let b ← hexValue b
  let c ← hexValue c
  let d ← hexValue d
  some (((a * 16 + b) * 16 + c) * 16 + d)

theorem codeUnit_hexDigit {n : Nat} (h : n < 32) :
    codeUnit '0' '0' (hexDigit (n / 16)) (hexDigit (n % 16)) = some n := by
  revert n
  decide

/-- A character is written as a letter after a backslash, by its number, or as it is. -/
def Escaped (c : Char) (l : List Char) : Prop :=
  (∃ d, l = ['\\', d] ∧ unescape d = some c) ∨
  (∃ x y, l = ['\\', 'u', '0', '0', x, y] ∧ codeUnit '0' '0' x y = some c.toNat) ∨
  l = [c] ∧ c ≠ '"' ∧ c ≠ '\\' ∧ 32 ≤ c.toNat

theorem escape_cases (c : Char) : Escaped c (escape c) := by
  unfold escape
  split_ifs with hquote hslash hn hr ht hb hf hcontrol
  · exact .inl ⟨_, rfl, by rw [hquote]; rfl⟩
  · exact .inl ⟨_, rfl, by rw [hslash]; rfl⟩
  · exact .inl ⟨_, rfl, by rw [hn]; rfl⟩
  · exact .inl ⟨_, rfl, by rw [hr]; rfl⟩
  · exact .inl ⟨_, rfl, by rw [ht]; rfl⟩
  · exact .inl ⟨_, rfl, by rw [hb]; rfl⟩
  · exact .inl ⟨_, rfl, by rw [hf]; rfl⟩
  · exact .inr (.inl ⟨_, _, rfl, codeUnit_hexDigit hcontrol⟩)
  · exact .inr (.inr ⟨rfl, hquote, hslash, by omega⟩)

def quote (s : String) : String := "\"" ++ String.ofList (s.toList.flatMap escape) ++ "\""

theorem toList_quote (s : String) :
    (quote s).toList = '"' :: (s.toList.flatMap escape ++ ['"']) := by
  simp [quote]

theorem hexDigit_mem (n : Nat) : hexDigit n ∈ "0123456789abcdef".toList := by
  unfold hexDigit
  by_cases h : n < "0123456789abcdef".toList.length
  · rw [← List.getElem_eq_getD (h := h)]
    exact List.getElem_mem h
  · rw [List.getD_eq_getElem?_getD, List.getElem?_eq_none (not_lt.mp h)]
    decide

theorem newline_not_mem_escape (c : Char) : '\n' ∉ escape c := by
  have hhex : ∀ n, '\n' ≠ hexDigit n := by
    intro n he
    have hmem := hexDigit_mem n
    rw [← he] at hmem
    revert hmem
    decide
  unfold escape
  split_ifs with _ _ hn <;> simp [hhex, Ne.symm]
  exact Ne.symm hn

/-- A quoted text stays on one line. -/
theorem newline_not_mem_quote (s : String) : '\n' ∉ (quote s).toList := by
  rw [toList_quote]
  intro h
  simp only [List.mem_cons, List.mem_append, List.mem_flatMap, List.not_mem_nil, or_false] at h
  rcases h with h | ⟨c, -, hc⟩ | h
  · cases h
  · exact newline_not_mem_escape c hc
  · cases h

mutual
/-- `floatText` is the shortest form of a float. -/
def render (floatText : ℚ → String) : Json → String
  | .null => "null"
  | .bool b => if b then "true" else "false"
  | .int n => toString n
  | .float q => floatText q
  | .str s => quote s
  | .arr items => "[" ++ String.intercalate "," (renderItems floatText items) ++ "]"
  | .obj members => "\x7b" ++ String.intercalate "," (renderMembers floatText members) ++ "\x7d"

def renderItems (floatText : ℚ → String) : List Json → List String
  | [] => []
  | x :: rest => x.render floatText :: renderItems floatText rest

def renderMembers (floatText : ℚ → String) : List (String × Json) → List String
  | [] => []
  | (k, x) :: rest => (quote k ++ ":" ++ x.render floatText) :: renderMembers floatText rest
end

end NdimonR.Json
