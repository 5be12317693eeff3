import ConfidentialCompute.Lib.Go
import Mathlib.Data.BitVec
import Mathlib.Data.Nat.Digits.Lemmas
import Mathlib.Tactic.IntervalCases

/-!
# Network addresses

Addresses and prefixes as `net/netip` has them, without zones. An IPv4 address can also be written
as an IPv6 address; `unmap` takes it back.
-/

namespace Netip

open Go

inductive Addr where
  | v4 (bits : BitVec 32)
  | v6 (bits : BitVec 128)
deriving DecidableEq

/-- The number that is written with the bytes, the highest first. -/
def number (bytes : Bytes) : Nat := Nat.ofDigits 256 (bytes.reverse.map UInt8.toNat)

def ofOctets (a b c d : UInt8) : Addr := .v4 (.ofNat 32 (number [a, b, c, d]))

def addrFromSlice (slice : Bytes) : Option Addr :=
  if slice.length = 4 then some (.v4 (.ofNat 32 (number slice)))
  else if slice.length = 16 then some (.v6 (.ofNat 128 (number slice)))
  else none

namespace Addr

def is4 : Addr → Bool
  | .v4 _ => true
  | .v6 _ => false

def unmap : Addr → Addr
  | .v4 bits => .v4 bits
  | .v6 bits => if bits >>> 32 = 0xffff then .v4 (bits.setWidth 32) else .v6 bits

def isUnspecified (addr : Addr) : Bool := addr = .v4 0 || addr = .v6 0

def isLoopback (addr : Addr) : Bool :=
  match addr.unmap with
  | .v4 bits => bits >>> 24 = 127
  | .v6 bits => bits = 1

def isMulticast (addr : Addr) : Bool :=
  match addr.unmap with
  | .v4 bits => (bits >>> 24) &&& 0xf0 = 0xe0
  | .v6 bits => bits >>> 120 = 0xff

def isLinkLocalUnicast (addr : Addr) : Bool :=
  match addr.unmap with
  | .v4 bits => bits >>> 16 = 0xa9fe
  | .v6 bits => (bits >>> 112) &&& 0xffc0 = 0xfe80

end Addr

structure Prefix where
  addr : Addr
  bits : Nat

/-- Addresses of the other family are in no prefix. -/
def Prefix.contains (p : Prefix) (ip : Addr) : Bool :=
  match p.addr, ip with
  | .v4 q, .v4 a => p.bits ≤ 32 ∧ (a ^^^ q) >>> (32 - p.bits) = 0
  | .v6 q, .v6 a => p.bits ≤ 128 ∧ (a ^^^ q) >>> (128 - p.bits) = 0
  | _, _ => false

/-! ## Numbers -/

theorem number_append (front back : Bytes) :
    number (front ++ back) = number front * 256 ^ back.length + number back := by
  unfold number
  rw [List.reverse_append, List.map_append, Nat.ofDigits_append, List.length_map,
    List.length_reverse]
  ring

theorem digit_lt {bytes : Bytes} {digit : Nat} (among : digit ∈ bytes.map UInt8.toNat) :
    digit < 256 := by
  obtain ⟨byte, _, rfl⟩ := List.mem_map.mp among
  exact byte.toNat_lt

theorem number_lt (bytes : Bytes) : number bytes < 256 ^ bytes.length := by
  have bound : number bytes < 256 ^ (bytes.reverse.map UInt8.toNat).length :=
    Nat.ofDigits_lt_base_pow_length (by decide) fun _ => digit_lt
  simpa using bound

theorem number_injective {as bs : Bytes} (length : as.length = bs.length)
    (same : number as = number bs) : as = bs := by
  have digits : as.reverse.map UInt8.toNat = bs.reverse.map UInt8.toNat :=
    Nat.ofDigits_inj_of_len_eq (by decide) (by simpa using length) (fun _ => digit_lt)
      (fun _ => digit_lt) same
  exact List.reverse_injective
    (List.map_injective_iff.mpr (fun _ _ same => UInt8.toNat_inj.mp same) digits)

theorem number_octets (a b c d : UInt8) :
    number [a, b, c, d] = a.toNat * 2 ^ 24 + b.toNat * 2 ^ 16 + c.toNat * 2 ^ 8 + d.toNat := by
  simp only [number, List.reverse_cons, List.reverse_nil, List.nil_append, List.cons_append,
    List.map_cons, List.map_nil, Nat.ofDigits_cons, Nat.ofDigits_nil]
  push_cast
  omega

/-! ## Families -/

/-- What stands before the four octets when an IPv4 address is written as an IPv6 address. -/
def mapped : Bytes := [0, 0, 0, 0, 0, 0, 0, 0, 0, 0, 0xff, 0xff]

/-- The slice has the octets `a`, `b`, `c` and `d` of an IPv4 address, in one of its two forms. -/
def HasOctets (slice : Bytes) (a b c d : UInt8) : Prop :=
  slice = [a, b, c, d] ∨ slice = mapped ++ [a, b, c, d]

/-- Of sixteen bytes, those that are an IPv4 address begin as such an address does. -/
theorem unmap_v6_eq_v4_iff {front back : Bytes} {bits : BitVec 32} (twelve : front.length = 12)
    (four : back.length = 4) :
    (Addr.v6 (.ofNat 128 (number (front ++ back)))).unmap = .v4 bits ↔
      front = mapped ∧ bits = .ofNat 32 (number back) := by
  have frontBound : number front < 256 ^ 12 := twelve ▸ number_lt front
  have backBound : number back < 256 ^ 4 := four ▸ number_lt back
  have whole : number (front ++ back) = number front * 256 ^ 4 + number back := by
    rw [number_append, four]
  have high : (BitVec.ofNat 128 (number (front ++ back))) >>> 32 = 0xffff ↔ front = mapped := by
    rw [← BitVec.toNat_inj, BitVec.toNat_ushiftRight, BitVec.toNat_ofNat,
      Nat.shiftRight_eq_div_pow, whole, Nat.mod_eq_of_lt (by omega)]
    have same : (number front * 256 ^ 4 + number back) / 2 ^ 32 = number front := by omega
    rw [same]
    exact ⟨fun prefixed => number_injective twelve prefixed, fun prefixed => prefixed ▸ rfl⟩
  have low : (BitVec.ofNat 128 (number (front ++ back))).setWidth 32 =
      .ofNat 32 (number back) := by
    apply BitVec.eq_of_toNat_eq
    rw [BitVec.toNat_setWidth, BitVec.toNat_ofNat, BitVec.toNat_ofNat, whole]
    omega
  rw [Addr.unmap, low]
  by_cases prefixed : front = mapped
  · rw [if_pos (high.mpr prefixed), Addr.v4.injEq, and_iff_right prefixed, eq_comm]
  · rw [if_neg (mt high.mp prefixed)]
    exact iff_of_false nofun fun both => prefixed both.1

/-- **The slices that stand for an IPv4 address.** -/
theorem unmap_eq_v4_iff {slice : Bytes} {bits : BitVec 32} :
    (addrFromSlice slice).map Addr.unmap = some (.v4 bits) ↔
      ∃ a b c d, HasOctets slice a b c d ∧ bits = .ofNat 32 (number [a, b, c, d]) := by
  constructor
  · intro found
    unfold addrFromSlice at found
    split at found
    · rename_i four
      obtain ⟨a, b, c, d, rfl⟩ := List.length_eq_four.mp four
      exact ⟨a, b, c, d, .inl rfl, (Addr.v4.inj (Option.some.inj found)).symm⟩
    · split at found
      · rename_i sixteen
        obtain ⟨a, b, c, d, last⟩ :=
          List.length_eq_four.mp (show (slice.drop 12).length = 4 by simp [sixteen])
        have whole := List.take_append_drop 12 slice
        rw [← whole] at found
        obtain ⟨front, same⟩ := (unmap_v6_eq_v4_iff (by simp [sixteen]) (by simp [sixteen])).mp
          (Option.some.inj found)
        rw [front, last] at whole
        exact ⟨a, b, c, d, .inr whole.symm, last ▸ same⟩
      · cases found
  · intro ⟨a, b, c, d, octets, same⟩
    rcases octets with rfl | rfl
    · exact congrArg (fun bits => some (Addr.v4 bits)) same.symm
    · have sixteen : (Addr.v6 (.ofNat 128 (number (mapped ++ [a, b, c, d])))).unmap = .v4 bits :=
        (unmap_v6_eq_v4_iff rfl rfl).mpr ⟨rfl, same⟩
      exact congrArg some sixteen

theorem HasOctets.unmap {slice : Bytes} {address : Addr} {a b c d : UInt8}
    (octets : HasOctets slice a b c d) (found : addrFromSlice slice = some address) :
    address.unmap = ofOctets a b c d := by
  have whole := unmap_eq_v4_iff.mpr ⟨a, b, c, d, octets, rfl⟩
  rw [found] at whole
  exact Option.some.inj whole

/-! ## Prefixes -/

theorem shiftRight_xor_eq_zero_iff {w : Nat} (a b : BitVec w) (n : Nat) :
    (a ^^^ b) >>> n = 0 ↔ a.toNat / 2 ^ n = b.toNat / 2 ^ n := by
  rw [BitVec.ushiftRight_xor_distrib]
  refine BitVec.xor_eq_zero_iff.trans ?_
  rw [← BitVec.toNat_inj, BitVec.toNat_ushiftRight, BitVec.toNat_ushiftRight,
    Nat.shiftRight_eq_div_pow, Nat.shiftRight_eq_div_pow]

/-! ## Octets -/

variable {a b c d a' b' c' d' : UInt8}

theorem number_octets_lt (a b c d : UInt8) : number [a, b, c, d] < 2 ^ 32 := by
  rw [number_octets]
  have := a.toNat_lt
  have := b.toNat_lt
  have := c.toNat_lt
  have := d.toNat_lt
  omega

theorem toNat_octets (a b c d : UInt8) :
    (BitVec.ofNat 32 (number [a, b, c, d])).toNat = number [a, b, c, d] := by
  rw [BitVec.toNat_ofNat, Nat.mod_eq_of_lt (number_octets_lt a b c d)]

/-- An address is in a prefix when the two agree up to the last bits. -/
theorem contains_ofOctets_iff {bits : Nat} (valid : bits ≤ 32) :
    (Prefix.mk (ofOctets a' b' c' d') bits).contains (ofOctets a b c d) = true ↔
      number [a, b, c, d] / 2 ^ (32 - bits) = number [a', b', c', d'] / 2 ^ (32 - bits) := by
  unfold Prefix.contains ofOctets
  rw [decide_eq_true_iff, and_iff_right valid]
  refine (shiftRight_xor_eq_zero_iff _ _ _).trans ?_
  rw [toNat_octets, toNat_octets]

theorem shiftRight_octets (n : Nat) :
    (BitVec.ofNat 32 (number [a, b, c, d])) >>> n =
      .ofNat 32 (number [a, b, c, d] / 2 ^ n) := by
  have bound : number [a, b, c, d] / 2 ^ n < 2 ^ 32 :=
    lt_of_le_of_lt (Nat.div_le_self _ _) (number_octets_lt a b c d)
  apply BitVec.eq_of_toNat_eq
  rw [BitVec.toNat_ushiftRight, toNat_octets, Nat.shiftRight_eq_div_pow, BitVec.toNat_ofNat,
    Nat.mod_eq_of_lt bound]

theorem number_octets_div : number [a, b, c, d] / 2 ^ 24 = a.toNat := by
  rw [number_octets]
  have := b.toNat_lt
  have := c.toNat_lt
  have := d.toNat_lt
  omega

theorem number_octets_div_two : number [a, b, c, d] / 2 ^ 16 = a.toNat * 2 ^ 8 + b.toNat := by
  rw [number_octets]
  have := c.toNat_lt
  have := d.toNat_lt
  omega

/-- A prefix that ends in the first octet. -/
theorem contains_first_iff {k : Nat} (within : k ≤ 8) :
    (Prefix.mk (ofOctets a' b' c' d') k).contains (ofOctets a b c d) = true ↔
      a.toNat / 2 ^ (8 - k) = a'.toNat / 2 ^ (8 - k) := by
  have split : 2 ^ (32 - k) = 2 ^ 24 * 2 ^ (8 - k) := by
    rw [← Nat.pow_add]
    congr 1
    omega
  rw [contains_ofOctets_iff (by omega), split, ← Nat.div_div_eq_div_mul,
    ← Nat.div_div_eq_div_mul, number_octets_div, number_octets_div]

/-- A prefix that ends in the second octet. -/
theorem contains_second_iff {k : Nat} (within : k ≤ 8) :
    (Prefix.mk (ofOctets a' b' c' d') (8 + k)).contains (ofOctets a b c d) = true ↔
      a = a' ∧ b.toNat / 2 ^ (8 - k) = b'.toNat / 2 ^ (8 - k) := by
  have split : 2 ^ (32 - (8 + k)) = 2 ^ 16 * 2 ^ (8 - k) := by
    rw [← Nat.pow_add]
    congr 1
    omega
  have := b.toNat_lt
  have := b'.toNat_lt
  rw [contains_ofOctets_iff (by omega), split, ← Nat.div_div_eq_div_mul,
    ← Nat.div_div_eq_div_mul, number_octets_div_two, number_octets_div_two, ← UInt8.toNat_inj]
  interval_cases k <;> omega

/-- A prefix of three octets. -/
theorem contains_third_iff :
    (Prefix.mk (ofOctets a' b' c' d') 24).contains (ofOctets a b c d) = true ↔
      a = a' ∧ b = b' ∧ c = c' := by
  rw [contains_ofOctets_iff (by omega), number_octets, number_octets, ← UInt8.toNat_inj,
    ← UInt8.toNat_inj, ← UInt8.toNat_inj]
  have := b.toNat_lt
  have := c.toNat_lt
  have := d.toNat_lt
  have := b'.toNat_lt
  have := c'.toNat_lt
  have := d'.toNat_lt
  omega

/-- A prefix of one address. -/
theorem contains_fourth_iff :
    (Prefix.mk (ofOctets a' b' c' d') 32).contains (ofOctets a b c d) = true ↔
      a = a' ∧ b = b' ∧ c = c' ∧ d = d' := by
  rw [contains_ofOctets_iff le_rfl, Nat.sub_self, Nat.pow_zero, Nat.div_one, Nat.div_one]
  constructor
  · intro same
    have octets : [a, b, c, d] = [a', b', c', d'] := number_injective rfl same
    simpa using octets
  · intro ⟨ha, hb, hc, hd⟩
    rw [ha, hb, hc, hd]

theorem isUnspecified_ofOctets_iff :
    (ofOctets a b c d).isUnspecified = true ↔ a = 0 ∧ b = 0 ∧ c = 0 ∧ d = 0 := by
  have zero : ofOctets a b c d = .v4 0 ↔ number [a, b, c, d] = 0 := by
    rw [ofOctets, Addr.v4.injEq, ← BitVec.toNat_inj, toNat_octets]
    rfl
  have other : ofOctets a b c d ≠ .v6 0 := nofun
  simp only [Addr.isUnspecified, zero, other, decide_false, Bool.or_false, decide_eq_true_iff,
    number_octets, ← UInt8.toNat_inj]
  simp only [UInt8.toNat_ofNat]
  omega

theorem isLoopback_ofOctets_iff : (ofOctets a b c d).isLoopback = true ↔ a = 127 := by
  simp only [Addr.isLoopback, ofOctets, Addr.unmap, shiftRight_octets, number_octets_div,
    decide_eq_true_iff, ← BitVec.toNat_inj, ← UInt8.toNat_inj, BitVec.ofNat_eq_ofNat,
    BitVec.toNat_ofNat, UInt8.toNat_ofNat]
  have := a.toNat_lt
  omega

theorem isMulticast_ofOctets_iff :
    (ofOctets a b c d).isMulticast = true ↔ 224 ≤ a.toNat ∧ a.toNat < 240 := by
  have octet : ∀ n < 256, BitVec.ofNat 32 n &&& 0xf0 = 0xe0 ↔ 224 ≤ n ∧ n < 240 := by
    decide +kernel
  simp only [Addr.isMulticast, ofOctets, Addr.unmap, shiftRight_octets, number_octets_div,
    decide_eq_true_iff]
  exact octet a.toNat a.toNat_lt

theorem isLinkLocalUnicast_ofOctets_iff :
    (ofOctets a b c d).isLinkLocalUnicast = true ↔ a = 169 ∧ b = 254 := by
  have := a.toNat_lt
  have := b.toNat_lt
  have := c.toNat_lt
  have := d.toNat_lt
  simp only [Addr.isLinkLocalUnicast, ofOctets, Addr.unmap, shiftRight_octets, decide_eq_true_iff,
    ← BitVec.toNat_inj, ← UInt8.toNat_inj, BitVec.ofNat_eq_ofNat, BitVec.toNat_ofNat,
    UInt8.toNat_ofNat]
  rw [number_octets]
  omega

end Netip
