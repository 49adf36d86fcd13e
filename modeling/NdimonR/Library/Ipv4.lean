import NdimonR.Library.Text
import Mathlib.Data.Nat.Basic

/-! IPv4 addresses: the strict dotted-decimal reader, the 32-bit value and subnet bounds. -/

namespace NdimonR

structure Ipv4Addr where
  o0 : BitVec 8
  o1 : BitVec 8
  o2 : BitVec 8
  o3 : BitVec 8
  deriving DecidableEq, Repr

namespace Ipv4Addr

def toU32 (a : Ipv4Addr) : BitVec 32 := a.o0 ++ a.o1 ++ a.o2 ++ a.o3

/-- One to three digits, no leading zero, at most 255. -/
def parseOctet (s : String) : Option (BitVec 8) :=
  let l := s.toList
  if l.length ≤ 3 ∧ l.all Text.isAsciiDigit ∧ (l.head? = some '0' → l.length = 1) then
    (Text.parseUnsigned 255 s).map (BitVec.ofNat 8)
  else none

def parse (s : String) : Option Ipv4Addr :=
  match Text.split '.' s with
  | [a, b, c, d] => do
    let o0 ← parseOctet a
    let o1 ← parseOctet b
    let o2 ← parseOctet c
    let o3 ← parseOctet d
    pure ⟨o0, o1, o2, o3⟩
  | _ => none

example : parse "10.0.0.7" = some ⟨10, 0, 0, 7⟩ := by decide
example : parse "10.0.0.07" = none := by decide

theorem parseOctet_chars {s : String} {o : BitVec 8} (h : parseOctet s = some o) :
    Text.chars s ≤ 3 := by
  by_cases hs : s.toList.length ≤ 3
  · exact hs
  · simp [parseOctet, hs] at h

/-- Four octets of at most three digits, and the dots. -/
theorem parse_chars {s : String} {a : Ipv4Addr} (h : parse s = some a) : Text.chars s ≤ 15 := by
  have hsum := Text.chars_split '.' s
  unfold parse at h
  split at h
  · rename_i a b c d hsplit
    simp only [Option.bind_eq_bind, Option.bind_eq_some_iff] at h
    obtain ⟨o0, h0, o1, h1, o2, h2, o3, h3, -⟩ := h
    have := parseOctet_chars h0
    have := parseOctet_chars h1
    have := parseOctet_chars h2
    have := parseOctet_chars h3
    simp only [hsplit, List.map_cons, List.map_nil, List.sum_cons, List.sum_nil] at hsum
    omega
  · cases h

/-- An address is written in digits and dots. -/
theorem parse_digits {s : String} {a : Ipv4Addr} (h : parse s = some a) :
    ∀ c ∈ s.toList, c = '.' ∨ Text.isAsciiDigit c = true := by
  intro c hc
  have hoctet : ∀ {piece : String} {o : BitVec 8}, parseOctet piece = some o →
      c ∈ piece.toList → Text.isAsciiDigit c = true := by
    intro piece o ho hm
    by_cases hall : piece.toList.all Text.isAsciiDigit = true
    · exact List.all_eq_true.mp hall c hm
    · simp [parseOctet, hall] at ho
  apply (Text.mem_split '.' hc).imp id
  rintro ⟨piece, hp, hm⟩
  unfold parse at h
  split at h
  · rename_i w x y z hsplit
    simp only [Option.bind_eq_bind, Option.bind_eq_some_iff] at h
    obtain ⟨o0, h0, o1, h1, o2, h2, o3, h3, -⟩ := h
    simp only [hsplit, List.mem_cons, List.not_mem_nil, or_false] at hp
    rcases hp with rfl | rfl | rfl | rfl
    · exact hoctet h0 hm
    · exact hoctet h1 hm
    · exact hoctet h2 hm
    · exact hoctet h3 hm
  · cases h

def text (a : Ipv4Addr) : String :=
  toString a.o0.toNat ++ "." ++ toString a.o1.toNat ++ "." ++ toString a.o2.toNat ++ "." ++
    toString a.o3.toNat

def isLoopback (a : Ipv4Addr) : Bool := a.o0 == 127

def isLinkLocal (a : Ipv4Addr) : Bool := a.o0 == 169 && a.o1 == 254

def isMulticast (a : Ipv4Addr) : Bool := 224 ≤ a.o0 && a.o0 ≤ 239

def isUnspecified (a : Ipv4Addr) : Bool := a == ⟨0, 0, 0, 0⟩

end Ipv4Addr

inductive IpAddr where
  | v4 (a : Ipv4Addr)
  | v6 (bits : BitVec 128)
  deriving DecidableEq, Repr

namespace IpAddr

/-- The IPv4 address of `::ffff:a.b.c.d`. -/
def toIpv4Mapped (bits : BitVec 128) : Option Ipv4Addr :=
  if bits.extractLsb' 32 96 = 0xffff then
    some ⟨bits.extractLsb' 24 8, bits.extractLsb' 16 8, bits.extractLsb' 8 8, bits.extractLsb' 0 8⟩
  else none

def isLoopback : IpAddr → Bool
  | .v4 a => a.isLoopback
  | .v6 bits => bits == 1

end IpAddr

/-- The network mask of a prefix of at most 32 bits. -/
def prefixMask (bits : Nat) : BitVec 32 := BitVec.allOnes 32 <<< (32 - bits)

theorem and_prefixMask (a : BitVec 32) (bits : Nat) :
    a &&& prefixMask bits = (a >>> (32 - bits)) <<< (32 - bits) := by
  ext i hi
  simp only [prefixMask, BitVec.getElem_and, BitVec.getElem_shiftLeft, BitVec.getElem_allOnes,
    BitVec.getElem_ushiftRight]
  by_cases h : i < 32 - bits
  · simp [h]
  · have : 32 - bits + (i - (32 - bits)) = i := by omega
    simp [h, this, BitVec.getLsbD_eq_getElem hi]

theorem toNat_and_prefixMask (a : BitVec 32) (bits : Nat) :
    (a &&& prefixMask bits).toNat = a.toNat / 2 ^ (32 - bits) * 2 ^ (32 - bits) := by
  rw [and_prefixMask, BitVec.toNat_shiftLeft, BitVec.toNat_ushiftRight, Nat.shiftRight_eq_div_pow,
    Nat.shiftLeft_eq]
  apply Nat.mod_eq_of_lt
  exact lt_of_le_of_lt (Nat.div_mul_le_self _ _) a.isLt

theorem toNat_not_prefixMask (bits : Nat) :
    (~~~ prefixMask bits).toNat = 2 ^ (32 - bits) - 1 := by
  have hle : 2 ^ (32 - bits) ≤ 2 ^ 32 := Nat.pow_le_pow_right (by omega) (by omega)
  have hpos : 0 < 2 ^ (32 - bits) := Nat.two_pow_pos _
  have hlt : 2 ^ (32 - bits) - 1 < 2 ^ 32 := by omega
  have : ~~~ prefixMask bits = BitVec.ofNat 32 (2 ^ (32 - bits) - 1) := by
    ext i hi
    rw [← BitVec.getLsbD_eq_getElem, ← BitVec.getLsbD_eq_getElem, BitVec.getLsbD_ofNat]
    simp only [prefixMask, BitVec.getLsbD_not, BitVec.getLsbD_shiftLeft, BitVec.getLsbD_allOnes,
      Nat.testBit_two_pow_sub_one]
    have hsub : i - (32 - bits) < 32 := by omega
    by_cases h : i < 32 - bits <;> simp [h, hi, hsub]
  rw [this, BitVec.toNat_ofNat, Nat.mod_eq_of_lt hlt]

theorem toNat_or_not_prefixMask (a : BitVec 32) (bits : Nat) :
    ((a &&& prefixMask bits) ||| ~~~ prefixMask bits).toNat =
      (a &&& prefixMask bits).toNat + (2 ^ (32 - bits) - 1) := by
  have hpos : 0 < 2 ^ (32 - bits) := Nat.two_pow_pos _
  rw [BitVec.toNat_or, toNat_and_prefixMask, toNat_not_prefixMask, ← Nat.shiftLeft_eq,
    Nat.shiftLeft_add_eq_or_of_lt (by omega)]

/-- Lying between the first and the last address of a subnet is sharing its masked prefix. -/
theorem mem_subnet_iff (a g : BitVec 32) (bits : Nat) :
    (a &&& prefixMask bits) ≤ g ∧ g ≤ (a &&& prefixMask bits) ||| ~~~ prefixMask bits ↔
      g &&& prefixMask bits = a &&& prefixMask bits := by
  rw [BitVec.le_def, BitVec.le_def, toNat_or_not_prefixMask, ← BitVec.toNat_inj,
    toNat_and_prefixMask, toNat_and_prefixMask]
  generalize hk : 2 ^ (32 - bits) = k
  have hpos : 0 < k := by rw [← hk]; exact Nat.two_pow_pos _
  generalize a.toNat / k = q
  generalize g.toNat = n
  constructor
  · rintro ⟨hlow, hhigh⟩
    have : n / k = q := Nat.div_eq_of_lt_le (by omega) (by rw [Nat.succ_mul]; omega)
    rw [this]
  · intro h
    have hn := Nat.div_add_mod n k
    have hmod := Nat.mod_lt n hpos
    rw [Nat.mul_comm, h] at hn
    omega

end NdimonR
