import ConfidentialCompute.Lib.Encoding
import ConfidentialCompute.Lib.Go
import Mathlib.Data.Nat.Digits.Defs

/-!
# Hexadecimal and base64 texts

`encoding/hex` and the standard encoding of `encoding/base64`, on bytes. Both decoders accept
or report the first fault they come to; the reported texts are those of Go's error values.
-/

namespace Go

/-- A number as `%d` writes it. -/
def decimal (n : Nat) : Bytes := ascii (toString n)

theorem ascii_injective : Function.Injective ascii := by
  intro s t same
  unfold ascii at same
  have bytes : s.toUTF8 = t.toUTF8 := ByteArray.ext (Array.toList_inj.mp same)
  exact String.toByteArray_inj.mp bytes

theorem decimal_injective : Function.Injective decimal := by
  intro n m same
  have texts : toString n = toString m := ascii_injective same
  rw [Nat.toString_eq_ofList_toDigits, Nat.toString_eq_ofList_toDigits] at texts
  have digits := congrArg (fun cs => Nat.ofDigitChars 10 cs 0) (String.ofList_injective texts)
  simpa using digits

theorem decimal_eq (n : Nat) :
    decimal n = (Nat.toDigits 10 n).map fun c => c.val.toUInt8 := by
  have digits : ∀ cs : List Char, (∀ c ∈ cs, c.isDigit = true) →
      cs.flatMap String.utf8EncodeChar = cs.map fun c => c.val.toUInt8 := by
    intro cs all
    induction cs with
    | nil => rfl
    | cons c cs ih =>
        have small : c.utf8Size = 1 := by
          have digit := all c List.mem_cons_self
          rw [Char.isDigit, Bool.and_eq_true, decide_eq_true_eq, decide_eq_true_eq] at digit
          rw [Char.utf8Size, if_pos (UInt32.le_trans digit.2 (by decide))]
        rw [List.flatMap_cons, String.utf8EncodeChar_eq_singleton small,
          ih fun d member => all d (List.mem_cons_of_mem _ member)]
        rfl
  rw [decimal, Nat.toString_eq_ofList_toDigits, ← digits _ fun c member =>
    Nat.isDigit_of_mem_toDigits (by decide) le_rfl member]
  simp [ascii, List.utf8Encode]

/-- A number is written with digits only. -/
theorem le_of_mem_decimal {n : Nat} {b : UInt8} (member : b ∈ decimal n) : b ≤ 57 := by
  rw [decimal_eq] at member
  obtain ⟨c, isDigit, rfl⟩ := List.mem_map.mp member
  have digit := Nat.isDigit_of_mem_toDigits (by decide) le_rfl isDigit
  rw [Char.isDigit, Bool.and_eq_true, decide_eq_true_eq, decide_eq_true_eq] at digit
  have bound : c.val.toNat ≤ 57 := UInt32.le_iff_toNat_le.mp digit.2
  rw [UInt8.le_iff_toNat_le, UInt32.toNat_toUInt8]
  exact (Nat.mod_le _ _).trans bound

theorem length_decimal_le {n e : Nat} (positive : 0 < e) (below : n < 10 ^ e) :
    (decimal n).length ≤ e := by
  rw [decimal_eq, List.length_map]
  exact Nat.toDigits_length 10 n e positive below

namespace Hex

/-- The digit of a number below 16. -/
def digit (n : Nat) : UInt8 := UInt8.ofNat (if n < 10 then 48 + n else 87 + n)

/-- `EncodeToString`, and `%x`. -/
def encode (b : Bytes) : Bytes :=
  b.flatMap fun x => [digit (x.toNat / 16), digit (x.toNat % 16)]

theorem toNat_digit {n : Nat} (bound : n < 16) :
    (digit n).toNat = if n < 10 then 48 + n else 87 + n := by
  unfold digit
  rw [UInt8.toNat_ofNat']
  split <;> omega

theorem digit_inj {m n : Nat} (boundM : m < 16) (boundN : n < 16) (same : digit m = digit n) :
    m = n := by
  have values := congrArg UInt8.toNat same
  rw [toNat_digit boundM, toNat_digit boundN] at values
  split at values <;> split at values <;> omega

theorem encode_injective : Function.Injective encode := by
  have delimiting : Encoding.SelfDelimiting fun x : UInt8 =>
      [digit (x.toNat / 16), digit (x.toNat % 16)] := by
    refine .of_length (fun x y same => ?_) fun _ _ => rfl
    have below := x.toNat_lt
    have below' := y.toNat_lt
    obtain ⟨high, low⟩ := List.cons.inj same
    have sameHigh := digit_inj (by omega) (by omega) high
    have sameLow := digit_inj (by omega) (by omega) (List.cons.inj low).1
    exact UInt8.toNat_inj.mp (by omega)
  intro a b same
  have len : a.length = b.length := by
    have twice := congrArg List.length same
    simpa [encode, List.length_flatMap] using twice
  refine (delimiting.flatMap a b [] [] len ?_).1
  simpa [encode] using same

/-- A byte below `0` does not occur in a hexadecimal text. -/
theorem notMem_encode {c : UInt8} (below : c.toNat < 48) (b : Bytes) : c ∉ encode b := by
  intro among
  obtain ⟨x, _, isDigit⟩ := List.mem_flatMap.mp among
  have bound := x.toNat_lt
  have high : x.toNat / 16 < 16 := by omega
  have low : x.toNat % 16 < 16 := by omega
  rcases List.mem_cons.mp isDigit with same | isDigit
  · rw [same, toNat_digit high] at below
    split at below <;> omega
  · rw [List.mem_singleton.mp isDigit, toNat_digit low] at below
    split at below <;> omega

/-- The value of a digit, in either case. -/
def value (c : UInt8) : Option Nat :=
  if 48 ≤ c ∧ c ≤ 57 then some (c.toNat - 48)
  else if 97 ≤ c ∧ c ≤ 102 then some (c.toNat - 87)
  else if 65 ≤ c ∧ c ≤ 70 then some (c.toNat - 55)
  else none

inductive DecodeError where
  | invalidByte (b : UInt8)
  | oddLength
deriving DecidableEq

/-- Whether `%#U` shows the character of a byte next to its code point. -/
def isPrint (b : UInt8) : Bool := (32 ≤ b && b ≤ 126) || (161 ≤ b && b ≠ 173)

def DecodeError.text : DecodeError → Bytes
  | .oddLength => ascii "encoding/hex: odd length hex string"
  | .invalidByte b =>
      let code := ascii "U+00" ++ (encode [b]).map fun c => if 97 ≤ c then c - 32 else c
      let shown := ascii (String.ofList [Char.ofNat 39, Char.ofNat b.toNat, Char.ofNat 39])
      ascii "encoding/hex: invalid byte: " ++ code ++
        if isPrint b then ascii " " ++ shown else []

/-- The upper-case code point of a byte determines it. -/
theorem upper_encode_injective {b b' : UInt8}
    (same : (encode [b]).map (fun c => if 97 ≤ c then c - 32 else c) =
      (encode [b']).map fun c => if 97 ≤ c then c - 32 else c) : b = b' := by
  have digits : ∀ m n : Fin 16, (if 97 ≤ digit m then digit m - 32 else digit m) =
      (if 97 ≤ digit n then digit n - 32 else digit n) → m = n := by decide
  have bound := b.toNat_lt
  have bound' := b'.toNat_lt
  simp only [encode, List.flatMap_cons, List.flatMap_nil, List.append_nil, List.map_cons,
    List.map_nil, List.cons.injEq, and_true] at same
  have high := digits ⟨b.toNat / 16, by omega⟩ ⟨b'.toNat / 16, by omega⟩ same.1
  have low := digits ⟨b.toNat % 16, by omega⟩ ⟨b'.toNat % 16, by omega⟩ same.2
  have high' := Fin.val_eq_of_eq high
  have low' := Fin.val_eq_of_eq low
  apply UInt8.toNat_inj.mp
  dsimp only at high' low'
  omega

/-- The text of an error tells the error. -/
theorem DecodeError.text_injective : Function.Injective DecodeError.text := by
  have odd : (DecodeError.text .oddLength)[14]? = some 111 := by decide
  have invalid : ∀ b, (DecodeError.text (.invalidByte b))[14]? = some 105 := fun b => rfl
  intro e e' same
  cases e with
  | oddLength =>
      cases e' with
      | oddLength => rfl
      | invalidByte b' =>
          rw [same, invalid b'] at odd
          cases odd
  | invalidByte b =>
      cases e' with
      | oddLength =>
          rw [← same, invalid b] at odd
          cases odd
      | invalidByte b' =>
          unfold DecodeError.text at same
          dsimp only at same
          simp only [List.append_assoc] at same
          have code := List.append_cancel_left (List.append_cancel_left same)
          exact congrArg _ (upper_encode_injective (List.append_inj_left code rfl))

/-- Digits are taken in pairs. An invalid last digit is reported before the odd length. -/
def decode : Bytes → Except DecodeError Bytes
  | [] => .ok []
  | [c] =>
      match value c with
      | none => .error (.invalidByte c)
      | some _ => .error .oddLength
  | c :: d :: rest =>
      match value c, value d with
      | none, _ => .error (.invalidByte c)
      | some _, none => .error (.invalidByte d)
      | some high, some low =>
          match decode rest with
          | .error e => .error e
          | .ok bytes => .ok (UInt8.ofNat (16 * high + low) :: bytes)

theorem length_decode : ∀ {text bytes : Bytes}, decode text = .ok bytes →
    bytes.length ≤ text.length
  | [], _, decoded => by
      cases decoded
      exact Nat.le_refl 0
  | [_], _, decoded => by
      unfold decode at decoded
      split at decoded <;> cases decoded
  | _ :: _ :: rest, _, decoded => by
      unfold decode at decoded
      split at decoded
      · cases decoded
      · cases decoded
      · split at decoded
        · cases decoded
        · rename_i bytes below
          cases decoded
          have shorter := length_decode below
          simp only [List.length_cons]
          omega

def decodeString (s : GoString) : Except DecodeError (Slice UInt8) :=
  match decoded : decode s.data with
  | .error e => .error e
  | .ok bytes => .ok ⟨bytes, Nat.lt_of_le_of_lt (length_decode decoded) s.bound⟩

end Hex

namespace Base64

/-- The value of a character of the standard alphabet. -/
def sextet (c : UInt8) : Option Nat :=
  if 65 ≤ c ∧ c ≤ 90 then some (c.toNat - 65)
  else if 97 ≤ c ∧ c ≤ 122 then some (c.toNat - 71)
  else if 48 ≤ c ∧ c ≤ 57 then some (c.toNat + 4)
  else if c = 43 then some 62
  else if c = 47 then some 63
  else none

def isNewline (c : UInt8) : Bool := c = 10 || c = 13

def padding : UInt8 := 61

/-- The bytes of the sextets of one group. Bits that fill no byte are dropped. -/
def assemble : List Nat → Bytes
  | [a, b] => [UInt8.ofNat (a * 4 + b / 16)]
  | [a, b, c] => [UInt8.ofNat (a * 4 + b / 16), UInt8.ofNat (b * 16 + c / 4)]
  | [a, b, c, d] =>
      [UInt8.ofNat (a * 4 + b / 16), UInt8.ofNat (b * 16 + c / 4), UInt8.ofNat (c * 64 + d)]
  | _ => []

/-- The text after line breaks, with its offset. -/
def skipNewlines : Bytes → Nat → Bytes × Nat
  | [], si => ([], si)
  | c :: rest, si => if isNewline c then skipNewlines rest (si + 1) else (c :: rest, si)

/-- Nothing but line breaks may follow the padding. -/
def finish (rest : Bytes) (si : Nat) (group : List Nat) : Except Nat Bytes :=
  match skipNewlines rest si with
  | ([], _) => .ok (assemble group)
  | (_ :: _, si) => .error si

/-- The text from a first padding character at offset `si` on: a group of two sextets needs a
second one. -/
def padded (rest : Bytes) (si : Nat) (group : List Nat) : Except Nat Bytes :=
  if group.length < 2 then .error si
  else if group.length = 2 then
    match skipNewlines rest (si + 1) with
    | ([], si) => .error si
    | (c :: rest, si) => if c = padding then finish rest (si + 1) group else .error (si - 1)
  else finish rest (si + 1) group

/-- The bytes of the text at offset `si`, or the offset of a fault. `group` holds the sextets
of the group that has begun. -/
def decodeFrom : Bytes → Nat → List Nat → Except Nat Bytes
  | [], si, group => if group = [] then .ok [] else .error (si - group.length)
  | c :: rest, si, group =>
      match sextet c with
      | some v =>
          if group.length < 3 then decodeFrom rest (si + 1) (group ++ [v])
          else
            match decodeFrom rest (si + 1) [] with
            | .error e => .error e
            | .ok bytes => .ok (assemble (group ++ [v]) ++ bytes)
      | none =>
          if isNewline c then decodeFrom rest (si + 1) group
          else if c = padding then padded rest si group
          else .error si

/-- `CorruptInputError`. -/
def corruptInputText (offset : Nat) : Bytes :=
  ascii "illegal base64 data at input byte " ++ decimal offset

theorem not_isNewline_of_sextet {c : UInt8} {v : Nat} (isSextet : sextet c = some v) :
    ¬ isNewline c = true := by
  intro newline
  rcases (Bool.or_eq_true _ _).mp newline with ten | thirteen
  · cases of_decide_eq_true ten
    cases isSextet
  · cases of_decide_eq_true thirteen
    cases isSextet

theorem length_assemble {group : List Nat} (full : 2 ≤ group.length) (few : group.length ≤ 4) :
    (assemble group).length + 1 = group.length :=
  match group, full, few with
  | [_, _], _, _ => rfl
  | [_, _, _], _, _ => rfl
  | [_, _, _, _], _, _ => rfl

/-- What is skipped is line breaks. -/
theorem length_skipNewlines (text : Bytes) (si : Nat) :
    text.length + (skipNewlines text si).1.countP isNewline =
      (skipNewlines text si).1.length + text.countP isNewline := by
  induction text generalizing si with
  | nil => rfl
  | cons c rest ih =>
      unfold skipNewlines
      split
      · rename_i newline
        have skipped := ih (si + 1)
        rw [List.length_cons, List.countP_cons_of_pos newline]
        omega
      · rfl

theorem length_finish {rest bytes : Bytes} {si : Nat} {group : List Nat}
    (finished : finish rest si group = .ok bytes) :
    bytes = assemble group ∧ rest.length = rest.countP isNewline := by
  have skipped := length_skipNewlines rest si
  unfold finish at finished
  split at finished
  · rename_i all
    rw [all] at skipped
    cases finished
    exact ⟨rfl, by simpa using skipped⟩
  · cases finished

/-- The padding fills the group up. -/
theorem length_padded {rest bytes : Bytes} {si : Nat} {group : List Nat}
    (few : group.length ≤ 3) (decoded : padded rest si group = .ok bytes) :
    bytes.length + 1 = group.length ∧ 2 ≤ group.length ∧
      rest.length + group.length = rest.countP isNewline + 3 := by
  unfold padded at decoded
  split at decoded
  · cases decoded
  · rename_i full
    have assembled := length_assemble (Nat.not_lt.mp full) (Nat.le_succ_of_le few)
    split at decoded
    · rename_i two
      have skipped := length_skipNewlines rest (si + 1)
      split at decoded
      · cases decoded
      · rename_i c rest' _ isRest
        split at decoded
        · rename_i isPadding
          obtain ⟨rfl, newlines⟩ := length_finish decoded
          have other : ¬ isNewline c = true := by
            rw [isPadding]
            decide
          rw [isRest] at skipped
          simp only [List.length_cons, List.countP_cons_of_neg other] at skipped
          omega
        · cases decoded
    · obtain ⟨rfl, newlines⟩ := length_finish decoded
      omega

/-- Four characters of a text make three bytes, the last group excepted, and line breaks make
none. -/
theorem length_decodeFrom {text bytes : Bytes} {si : Nat} {group : List Nat}
    (few : group.length ≤ 3) (decoded : decodeFrom text si group = .ok bytes) :
    text.length + group.length = (bytes.length + 2) / 3 * 4 + text.countP isNewline := by
  induction text generalizing si group bytes with
  | nil =>
      unfold decodeFrom at decoded
      split at decoded
      · rename_i none_
        cases decoded
        rw [none_]
        rfl
      · cases decoded
  | cons c rest ih =>
      unfold decodeFrom at decoded
      rw [List.length_cons]
      split at decoded
      · rename_i v isSextet
        rw [List.countP_cons_of_neg (not_isNewline_of_sextet isSextet)]
        split at decoded
        · rename_i unfilled
          have later := ih (by rw [List.length_append]; exact unfilled) decoded
          simp only [List.length_append, List.length_singleton] at later
          omega
        · split at decoded
          · cases decoded
          · rename_i bytes' below
            cases decoded
            have later := ih (List.length_nil.trans_le (Nat.zero_le 3)) below
            have three : (assemble (group ++ [v])).length + 1 = (group ++ [v]).length :=
              length_assemble (by simp; omega) (by simp; omega)
            simp only [List.length_append, List.length_singleton, List.length_nil] at later three ⊢
            omega
      · split at decoded
        · rename_i newline
          have later := ih few decoded
          rw [List.countP_cons_of_pos newline]
          omega
        · rename_i other
          rw [List.countP_cons_of_neg other]
          split at decoded
          · obtain ⟨made, full, rest_⟩ := length_padded few decoded
            omega
          · cases decoded

/-- `StdEncoding.DecodeString`. -/
def decodeString (s : GoString) : Except Nat (Slice UInt8) :=
  match decoded : decodeFrom s.data 0 [] with
  | .error e => .error e
  | .ok bytes => .ok ⟨bytes, by
      have length := length_decodeFrom (List.length_nil.trans_le (Nat.zero_le 3)) decoded
      have bound := s.bound
      rw [List.length_nil] at length
      omega⟩

/-- The character of a number below 64. -/
def letter (n : Nat) : UInt8 :=
  UInt8.ofNat (if n < 26 then 65 + n else if n < 52 then 71 + n else if n < 62 then n - 4
    else if n = 62 then 43 else 47)

/-- `StdEncoding.EncodeToString`. -/
def encode : Bytes → Bytes
  | [] => []
  | [a] => [letter (a.toNat / 4), letter (a.toNat % 4 * 16), padding, padding]
  | [a, b] =>
      [letter (a.toNat / 4), letter (a.toNat % 4 * 16 + b.toNat / 16),
        letter (b.toNat % 16 * 4), padding]
  | a :: b :: c :: rest =>
      letter (a.toNat / 4) :: letter (a.toNat % 4 * 16 + b.toNat / 16) ::
        letter (b.toNat % 16 * 4 + c.toNat / 64) :: letter (c.toNat % 64) :: encode rest

theorem sextet_letter {n : Nat} (bound : n < 64) : sextet (letter n) = some n := by
  have all : ∀ n : Fin 64, sextet (letter n) = some n.val := by decide
  exact all ⟨n, bound⟩

section

variable {m n k l : Nat} (hm : m < 64) (hn : n < 64) (hk : k < 64) (hl : l < 64)

include hm hn in
theorem decodeFrom_two (si : Nat) :
    decodeFrom [letter m, letter n, padding, padding] si [] = .ok (assemble [m, n]) := by
  simp only [decodeFrom, sextet_letter hm, sextet_letter hn]
  rfl

include hm hn hk in
theorem decodeFrom_three (si : Nat) :
    decodeFrom [letter m, letter n, letter k, padding] si [] = .ok (assemble [m, n, k]) := by
  simp only [decodeFrom, sextet_letter hm, sextet_letter hn, sextet_letter hk]
  rfl

include hm hn hk hl in
theorem decodeFrom_four {rest bytes : Bytes} (si : Nat)
    (decoded : decodeFrom rest (si + 1 + 1 + 1 + 1) [] = .ok bytes) :
    decodeFrom (letter m :: letter n :: letter k :: letter l :: rest) si [] =
      .ok (assemble [m, n, k, l] ++ bytes) := by
  simp only [decodeFrom, sextet_letter hm, sextet_letter hn, sextet_letter hk,
    sextet_letter hl]
  simp [decoded]

end

theorem ofNat_eq {n : Nat} {b : UInt8} (same : n % 2 ^ 8 = b.toNat) : UInt8.ofNat n = b := by
  apply UInt8.toNat_inj.mp
  rw [UInt8.toNat_ofNat']
  exact same

theorem assemble_first (a : UInt8) {n : Nat} (high : n / 16 = a.toNat % 4) :
    UInt8.ofNat (a.toNat / 4 * 4 + n / 16) = a := by
  have bound := a.toNat_lt
  exact ofNat_eq (by omega)

theorem assemble_second (a b : UInt8) {n : Nat} (high : n / 4 = b.toNat % 16) :
    UInt8.ofNat ((a.toNat % 4 * 16 + b.toNat / 16) * 16 + n / 4) = b := by
  have bound := b.toNat_lt
  exact ofNat_eq (by omega)

theorem assemble_third (b c : UInt8) :
    UInt8.ofNat ((b.toNat % 16 * 4 + c.toNat / 64) * 64 + c.toNat % 64) = c := by
  have bound := c.toNat_lt
  exact ofNat_eq (by omega)

/-- Three bytes make four characters, and the last group is filled up. -/
theorem length_encode : ∀ bytes : Bytes, (encode bytes).length = (bytes.length + 2) / 3 * 4
  | [] => rfl
  | [_] => by simp [encode]
  | [_, _] => by simp [encode]
  | _ :: _ :: _ :: rest => by
      simp only [encode, List.length_cons, length_encode rest]
      omega

/-- What is encoded is decoded again. -/
theorem decodeFrom_encode : ∀ (bytes : Bytes) (si : Nat),
    decodeFrom (encode bytes) si [] = .ok bytes
  | [], _ => rfl
  | [a], si => by
      have bound := a.toNat_lt
      unfold encode
      rw [decodeFrom_two (by omega) (by omega)]
      simp only [assemble]
      rw [assemble_first a (by omega)]
  | [a, b], si => by
      have boundA := a.toNat_lt
      have boundB := b.toNat_lt
      unfold encode
      rw [decodeFrom_three (by omega) (by omega) (by omega)]
      simp only [assemble]
      rw [assemble_first a (by omega), assemble_second a b (by omega)]
  | a :: b :: c :: rest, si => by
      have boundA := a.toNat_lt
      have boundB := b.toNat_lt
      have boundC := c.toNat_lt
      unfold encode
      rw [decodeFrom_four (by omega) (by omega) (by omega) (by omega) si
        (decodeFrom_encode rest _)]
      simp only [assemble]
      rw [assemble_first a (by omega), assemble_second a b (by omega), assemble_third b c]
      rfl

end Base64

end Go
