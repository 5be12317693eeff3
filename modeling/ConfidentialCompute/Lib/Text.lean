import ConfidentialCompute.Lib.Go
import Mathlib.Data.List.Infix

/-!
# Words in texts

`strings.Contains`, and the text of `errors.Join`, which puts one error on a line each. A word
that does not contain the separator is found in a text joined from parts exactly when it is found
in a part.
-/

namespace Go

/-- `strings.Contains`. -/
def contains (text word : Bytes) : Bool := decide (word <:+: text)

def newline : UInt8 := 0x0a

/-- The text of `errors.Join`. -/
def joinLines : List Bytes → Bytes
  | [] => []
  | [text] => text
  | text :: texts => text ++ newline :: joinLines texts

section

variable {α : Type} {word left right : List α} {separator : α}

theorem infix_append_cons_iff (absent : separator ∉ word) :
    word <:+: left ++ separator :: right ↔ word <:+: left ∨ word <:+: right := by
  constructor
  · rintro ⟨before, after, eq⟩
    rcases List.append_eq_append_iff.mp eq with ⟨rest, isLeft, _⟩ | ⟨rest, isWord, isRest⟩
    · exact Or.inl ⟨before, rest, isLeft.symm⟩
    · cases rest with
      | nil =>
          rw [List.append_nil] at isWord
          exact Or.inl ⟨before, [], by rw [isWord, List.append_nil]⟩
      | cons first rest =>
          obtain ⟨rfl, isRight⟩ := List.cons.inj isRest
          -- The word ends after the separator; it begins after it, too.
          rcases List.append_eq_append_iff.mp isWord with ⟨mid, _, spans⟩ | ⟨mid, _, spans⟩
          · exact (absent (spans ▸ List.mem_append_right _ List.mem_cons_self)).elim
          · cases mid with
            | nil =>
                rw [List.nil_append] at spans
                exact (absent (spans ▸ List.mem_cons_self)).elim
            | cons first mid =>
                obtain ⟨_, isRest⟩ := List.cons.inj spans
                exact Or.inr ⟨mid, after, by rw [isRight, isRest]; rfl⟩
  · rintro (within | within)
    · exact List.infix_append_of_infix_left within
    · exact List.infix_append_of_infix_right (List.infix_cons within)

end

theorem contains_iff {text word : Bytes} : contains text word = true ↔ word <:+: text :=
  decide_eq_true_iff

/-- A word of one line is found in the joined text when it is found in a line. -/
theorem contains_joinLines {word : Bytes} (nonempty : word ≠ []) (oneLine : newline ∉ word)
    (texts : List Bytes) :
    contains (joinLines texts) word = true ↔ ∃ text ∈ texts, contains text word = true := by
  simp only [contains_iff]
  induction texts with
  | nil => simp [joinLines, nonempty]
  | cons text texts ih =>
      cases texts with
      | nil => simp [joinLines]
      | cons second texts =>
          rw [joinLines, infix_append_cons_iff oneLine, ih]
          · simp
          · exact List.cons_ne_nil second texts

end Go
