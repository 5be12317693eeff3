import Mathlib.Algebra.Ring.Nat
import Mathlib.Data.List.Basic
import Mathlib.Logic.Function.Basic

/-!
# Self-delimiting encodings

An encoding is self-delimiting when the end of an encoded value can be told from
the encoding alone, whatever follows it. A text that is a sequence of
self-delimiting fields is then read back field by field, so two equal texts agree
on every field. This is how a hash pre-image is shown to determine what was hashed.

* `SelfDelimiting.of_length`: fields of one fixed width.
* `DelimitingOn.flatMap`: lists of fields that are self-delimiting on a range of values.
* `SelfDelimiting.lengthPrefixed`: a field preceded by its length.
* `SelfDelimiting.counted`: a list of fields preceded by their number.
* `append_separator_inj`: a field without the separator that follows it.
* `beBytes`: fixed-width big-endian numbers.
-/

namespace Encoding

universe u v w

variable {α : Type u} {β : Type v} {γ : Type w}

/-- Whatever follows an encoded value, both the value and what follows are
determined by the text. -/
def SelfDelimiting (enc : α → List β) : Prop :=
  ∀ a b x y, enc a ++ x = enc b ++ y → a = b ∧ x = y

theorem SelfDelimiting.injective {enc : α → List β} (delim : SelfDelimiting enc) :
    Function.Injective enc := by
  intro a b same
  exact (delim a b [] [] (by rw [same])).1

/-- An injective encoding all of whose values have one width. -/
theorem SelfDelimiting.of_length {enc : α → List β} (inj : Function.Injective enc)
    (width : ∀ a b, (enc a).length = (enc b).length) : SelfDelimiting enc := by
  intro a b x y same
  obtain ⟨left, right⟩ := List.append_inj same (width a b)
  exact ⟨inj left, right⟩

/-- An encoding that is self-delimiting on the values with a property. -/
def DelimitingOn (P : α → Prop) (enc : α → List β) : Prop :=
  ∀ a b x y, P a → P b → enc a ++ x = enc b ++ y → a = b ∧ x = y

/-- Equally long lists of fields that are self-delimiting on a property. -/
theorem DelimitingOn.flatMap {P : α → Prop} {enc : α → List β} (delim : DelimitingOn P enc) :
    ∀ (as bs : List α) (x y : List β), (∀ a ∈ as, P a) → (∀ b ∈ bs, P b) →
      as.length = bs.length → as.flatMap enc ++ x = bs.flatMap enc ++ y → as = bs ∧ x = y
  | [], [], _, _, _, _, _, same => ⟨rfl, same⟩
  | a :: as, b :: bs, x, y, allA, allB, len, same => by
      simp only [List.flatMap_cons, List.append_assoc] at same
      simp only [List.forall_mem_cons] at allA allB
      obtain ⟨rfl, rest⟩ := delim _ _ _ _ allA.1 allB.1 same
      obtain ⟨rfl, tail⟩ := delim.flatMap as bs x y allA.2 allB.2 (by simpa using len) rest
      exact ⟨rfl, tail⟩

/-- Equally long lists of self-delimiting fields. -/
theorem SelfDelimiting.flatMap {enc : α → List β} (delim : SelfDelimiting enc)
    (as bs : List α) (x y : List β) (len : as.length = bs.length)
    (same : as.flatMap enc ++ x = bs.flatMap enc ++ y) : as = bs ∧ x = y := by
  have always : DelimitingOn (fun _ => True) enc := fun a b x y _ _ => delim a b x y
  exact always.flatMap as bs x y (fun _ _ => trivial) (fun _ _ => trivial) len same

/-- A list of fields preceded by a number that determines how many there are. -/
theorem SelfDelimiting.counted {len : α → List β} {enc : γ → List β} {elems : α → List γ}
    (count : ∀ a b x y, len a ++ x = len b ++ y →
      (elems a).length = (elems b).length ∧ x = y)
    (delim : SelfDelimiting enc) (inj : Function.Injective elems) :
    SelfDelimiting fun a => len a ++ (elems a).flatMap enc := by
  intro a b x y same
  simp only [List.append_assoc] at same
  obtain ⟨number, rest⟩ := count _ _ _ _ same
  obtain ⟨fields, tail⟩ := delim.flatMap _ _ _ _ number rest
  exact ⟨inj fields, tail⟩

/-- A field preceded by a number that determines its length. -/
theorem SelfDelimiting.lengthPrefixed {len : α → List β} {text : α → List β}
    (count : ∀ a b x y, len a ++ x = len b ++ y →
      (text a).length = (text b).length ∧ x = y)
    (inj : Function.Injective text) : SelfDelimiting fun a => len a ++ text a := by
  intro a b x y same
  simp only [List.append_assoc] at same
  obtain ⟨number, rest⟩ := count _ _ _ _ same
  obtain ⟨text, tail⟩ := List.append_inj rest number
  exact ⟨inj text, tail⟩

/-- Texts that start differently are different, whatever follows. -/
theorem append_ne_append_of_take {n : Nat} {a b : List α} (longA : n ≤ a.length)
    (longB : n ≤ b.length) (differ : a.take n ≠ b.take n) (x y : List α) : a ++ x ≠ b ++ y := by
  intro same
  apply differ
  have start := congrArg (List.take n) same
  rwa [List.take_append_of_le_length longA, List.take_append_of_le_length longB] at start

/-- A field that ends at the first separator. -/
theorem append_separator_inj {sep : α} {a b x y : List α} (freeA : sep ∉ a) (freeB : sep ∉ b)
    (same : a ++ sep :: x = b ++ sep :: y) : a = b ∧ x = y := by
  induction a generalizing b with
  | nil =>
      cases b with
      | nil => exact ⟨rfl, (List.cons.inj same).2⟩
      | cons c b =>
          cases (List.cons.inj same).1
          exact (freeB List.mem_cons_self).elim
  | cons c a ih =>
      cases b with
      | nil =>
          cases (List.cons.inj same).1
          exact (freeA List.mem_cons_self).elim
      | cons d b =>
          obtain ⟨head, tail⟩ := List.cons.inj same
          obtain ⟨fields, rest⟩ := ih (fun among => freeA (List.mem_cons_of_mem _ among))
            (fun among => freeB (List.mem_cons_of_mem _ among)) tail
          exact ⟨by rw [head, fields], rest⟩

/-! ## Big-endian numbers -/

/-- The low `width` bytes of `n`, most significant first. -/
def beBytes : Nat → Nat → List UInt8
  | 0, _ => []
  | width + 1, n => beBytes width (n / 256) ++ [UInt8.ofNat n]

@[simp] theorem length_beBytes (width n : Nat) : (beBytes width n).length = width := by
  induction width generalizing n with
  | zero => rfl
  | succ width ih => simp [beBytes, ih]

/-- `width` bytes hold every number below `256 ^ width`. -/
theorem beBytes_inj {width m n : Nat} (hm : m < 256 ^ width) (hn : n < 256 ^ width)
    (same : beBytes width m = beBytes width n) : m = n := by
  induction width generalizing m n with
  | zero => simp only [Nat.pow_zero, Nat.lt_one_iff] at hm hn; rw [hm, hn]
  | succ width ih =>
      simp only [beBytes] at same
      obtain ⟨high, low⟩ := List.append_inj' same rfl
      rw [Nat.pow_succ] at hm hn
      have quotient := ih (Nat.div_lt_of_lt_mul (by rwa [Nat.mul_comm] at hm))
        (Nat.div_lt_of_lt_mul (by rwa [Nat.mul_comm] at hn)) high
      have remainder : m % 256 = n % 256 := by
        have := congrArg UInt8.toNat (List.cons.inj low).1
        simpa using this
      omega

/-- A fixed-width number is read back, and so is what follows it. -/
theorem beBytes_append_inj {width m n : Nat} {x y : List UInt8} (hm : m < 256 ^ width)
    (hn : n < 256 ^ width) (same : beBytes width m ++ x = beBytes width n ++ y) :
    m = n ∧ x = y := by
  obtain ⟨number, rest⟩ := List.append_inj same (by simp)
  exact ⟨beBytes_inj hm hn number, rest⟩

end Encoding
