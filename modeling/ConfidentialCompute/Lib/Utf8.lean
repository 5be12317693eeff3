import ConfidentialCompute.Lib.Go

/-!
# UTF-8

Validity of a text as `utf8.Valid` decides it, and the repair of a text that is not valid, as
`strings.ToValidUTF8` does it: each run of invalid bytes is replaced by one replacement
character.
-/

namespace Utf8

open Go

/-- The ranges the bytes after a first byte must lie in; none for a byte that starts no
sequence. -/
def ranges (b : UInt8) : Option (List (UInt8 × UInt8)) :=
  if b < 0x80 then some []
  else if b < 0xc2 then none
  else if b < 0xe0 then some [(0x80, 0xbf)]
  else if b = 0xe0 then some [(0xa0, 0xbf), (0x80, 0xbf)]
  else if b = 0xed then some [(0x80, 0x9f), (0x80, 0xbf)]
  else if b < 0xf0 then some [(0x80, 0xbf), (0x80, 0xbf)]
  else if b = 0xf0 then some [(0x90, 0xbf), (0x80, 0xbf), (0x80, 0xbf)]
  else if b < 0xf4 then some [(0x80, 0xbf), (0x80, 0xbf), (0x80, 0xbf)]
  else if b = 0xf4 then some [(0x80, 0x8f), (0x80, 0xbf), (0x80, 0xbf)]
  else none

/-- A text starts with one byte of each range. -/
def startsIn : List (UInt8 × UInt8) → Bytes → Bool
  | [], _ => true
  | _ :: _, [] => false
  | (low, high) :: more, b :: rest => low ≤ b && b ≤ high && startsIn more rest

/-- The number of bytes that a sequence at the head of `b :: rest` has in `rest`. -/
def continuation (b : UInt8) (rest : Bytes) : Option Nat :=
  match ranges b with
  | none => none
  | some more => if startsIn more rest then some more.length else none

/-- `n` bytes of a sequence are still to come. -/
def validFrom : Nat → Bytes → Bool
  | 0, [] => true
  | _ + 1, [] => false
  | n + 1, _ :: rest => validFrom n rest
  | 0, b :: rest =>
      match continuation b rest with
      | none => false
      | some n => validFrom n rest

def valid (text : Bytes) : Bool := validFrom 0 text

/-- The encoding of U+FFFD. -/
def replacement : Bytes := [0xef, 0xbf, 0xbd]

/-- `invalid` says whether the byte before was invalid, and `n` bytes of a sequence are still to
come. -/
def toValidFrom (invalid : Bool) : Nat → Bytes → Bytes
  | _, [] => []
  | n + 1, b :: rest => b :: toValidFrom false n rest
  | 0, b :: rest =>
      match continuation b rest with
      | some n => b :: toValidFrom false n rest
      | none => (if invalid then [] else replacement) ++ toValidFrom true 0 rest

def toValid (text : Bytes) : Bytes := toValidFrom false 0 text

theorem startsIn_toValidFrom : ∀ {more : List (UInt8 × UInt8)} {rest : Bytes} (invalid : Bool),
    startsIn more rest = true → startsIn more (toValidFrom invalid more.length rest) = true
  | [], _, _, _ => rfl
  | (low, high) :: more, b :: rest, invalid, starts => by
      unfold startsIn at starts
      rw [Bool.and_eq_true] at starts
      show (low ≤ b && b ≤ high && startsIn more (toValidFrom false more.length rest)) = true
      rw [Bool.and_eq_true]
      exact ⟨starts.1, startsIn_toValidFrom false starts.2⟩

theorem length_le_of_startsIn : ∀ {more : List (UInt8 × UInt8)} {rest : Bytes},
    startsIn more rest = true → more.length ≤ rest.length
  | [], _, _ => Nat.zero_le _
  | _ :: more, _ :: rest, starts => by
      unfold startsIn at starts
      rw [Bool.and_eq_true] at starts
      exact Nat.succ_le_succ (length_le_of_startsIn starts.2)

/-- A sequence is copied as it is. -/
theorem continuation_toValidFrom {b : UInt8} {rest : Bytes} {n : Nat}
    (found : continuation b rest = some n) :
    continuation b (toValidFrom false n rest) = some n ∧ n ≤ rest.length := by
  unfold continuation at found ⊢
  split at found
  · cases found
  · rename_i more first
    split at found
    · rename_i starts
      cases found
      rw [if_pos (startsIn_toValidFrom false starts)]
      exact ⟨rfl, length_le_of_startsIn starts⟩
    · cases found

theorem validFrom_toValidFrom : ∀ {text : Bytes} {n : Nat} (invalid : Bool), n ≤ text.length →
    validFrom n (toValidFrom invalid n text) = true
  | [], 0, _, _ => rfl
  | _ :: rest, n + 1, _, enough => by
      have shorter : n ≤ rest.length := Nat.le_of_succ_le_succ enough
      exact validFrom_toValidFrom false shorter
  | b :: rest, 0, invalid, _ => by
      unfold toValidFrom
      split
      · rename_i n found
        obtain ⟨copied, enough⟩ := continuation_toValidFrom found
        unfold validFrom
        rw [copied]
        exact validFrom_toValidFrom false enough
      · have later : validFrom 0 (toValidFrom true 0 rest) = true :=
          validFrom_toValidFrom true (Nat.zero_le _)
        cases invalid with
        | true => exact later
        | false => exact later

theorem valid_toValid (text : Bytes) : valid (toValid text) = true :=
  validFrom_toValidFrom false (Nat.zero_le _)

end Utf8
