import ConfidentialCompute.Lib.TextCodec

/-!
# Functions on strings

White space, fields, case, quotes and numbers, as `strings` and `strconv` have them. White space
is what `unicode.IsSpace` accepts, in UTF-8. The encodings of white space begin with bytes that
stand nowhere within another character, so a text can be searched for them byte by byte. Case and
quotes are spelled out for ASCII texts; beyond these they follow the tables of Unicode, which are
a parameter.
-/

namespace Go

variable {text blank : Bytes} {n : Nat}

/-! ## White space -/

/-- The encodings of the characters that `unicode.IsSpace` accepts. -/
def spaces : List Bytes :=
  [[0x09], [0x0a], [0x0b], [0x0c], [0x0d], [0x20], [0xc2, 0x85], [0xc2, 0xa0],
    [0xe1, 0x9a, 0x80], [0xe2, 0x80, 0x80], [0xe2, 0x80, 0x81], [0xe2, 0x80, 0x82],
    [0xe2, 0x80, 0x83], [0xe2, 0x80, 0x84], [0xe2, 0x80, 0x85], [0xe2, 0x80, 0x86],
    [0xe2, 0x80, 0x87], [0xe2, 0x80, 0x88], [0xe2, 0x80, 0x89], [0xe2, 0x80, 0x8a],
    [0xe2, 0x80, 0xa8], [0xe2, 0x80, 0xa9], [0xe2, 0x80, 0xaf], [0xe2, 0x81, 0x9f],
    [0xe3, 0x80, 0x80]]

/-- The length of the word at the head of a text, if one of the words is there. -/
def headLength (words : List Bytes) (text : Bytes) : Nat :=
  ((words.find? fun word => word.isPrefixOf text).map List.length).getD 0

/-- The text after the words at its head. `n` bytes of a word are still to be passed over. -/
def trimHead (words : List Bytes) : Nat → Bytes → Bytes
  | _, [] => []
  | n + 1, _ :: rest => trimHead words n rest
  | 0, b :: rest =>
      match headLength words (b :: rest) with
      | 0 => b :: rest
      | n + 1 => trimHead words n rest

/-- `strings.TrimSpace`. From the end, the encodings are read backwards. -/
def trimSpace (text : Bytes) : Bytes :=
  (trimHead (spaces.map List.reverse) 0 (trimHead spaces 0 text).reverse).reverse

theorem trimSpace_space (text : Bytes) : trimSpace (0x20 :: text) = trimSpace text := by
  have blank : headLength spaces (0x20 :: text) = 1 := rfl
  rw [trimSpace, trimHead, blank]
  rfl

/-- The pieces between white space. `n` bytes of white space are still to be passed over. -/
def cutSpaces : Nat → Bytes → List Bytes
  | _, [] => [[]]
  | n + 1, _ :: rest => cutSpaces n rest
  | 0, b :: rest =>
      match headLength spaces (b :: rest) with
      | 0 => (cutSpaces 0 rest).modifyHead (b :: ·)
      | n + 1 => [] :: cutSpaces n rest

/-- `strings.Fields`. -/
def fields (text : Bytes) : List Bytes := (cutSpaces 0 text).filter (· ≠ [])

/-! ### The fields of a text -/

/-- White space only. -/
inductive Blank : Bytes → Prop
  | nil : Blank []
  | space {blank rest : Bytes} : blank ∈ spaces → Blank rest → Blank (blank ++ rest)

/-- A field ends here. -/
def EndsField (rest : Bytes) : Prop := rest = [] ∨ ∃ blank ∈ spaces, blank <+: rest

/-- No encoding of white space begins with this byte. -/
def plainByte (b : UInt8) : Bool := spaces.all fun blank => blank.head? ≠ some b

/-- If no word begins another one, the word at the head of a text is the one that is found. -/
theorem headLength_append {words : List Bytes} {word : Bytes} (among : word ∈ words)
    (apart : ∀ w ∈ words, ∀ w' ∈ words, w <+: w' → w = w') (rest : Bytes) :
    headLength words (word ++ rest) = word.length := by
  unfold headLength
  cases found : words.find? (fun w => w.isPrefixOf (word ++ rest)) with
  | none =>
      have missing := List.find?_eq_none.mp found word among
      exact absurd (List.isPrefixOf_iff_prefix.mpr (List.prefix_append word rest)) missing
  | some w =>
      have starts := List.find?_some found
      have begins := List.isPrefixOf_iff_prefix.mp starts
      have same : w = word := by
        have among' := List.mem_of_find?_eq_some found
        rcases List.prefix_or_prefix_of_prefix begins (List.prefix_append word rest) with le | le
        · exact apart w among' word among le
        · exact (apart word among w among' le).symm
      rw [same]
      rfl

theorem space_ne_nil (isSpace : blank ∈ spaces) : blank ≠ [] := by
  have : ∀ blank ∈ spaces, blank ≠ [] := by decide
  exact this blank isSpace

theorem headLength_space (isSpace : blank ∈ spaces) (rest : Bytes) :
    headLength spaces (blank ++ rest) = blank.length :=
  headLength_append isSpace (by decide) rest

/-- White space is at the head of a text, or none is. -/
theorem space_or_headLength (text : Bytes) :
    (∃ blank ∈ spaces, ∃ rest, text = blank ++ rest) ∨ headLength spaces text = 0 := by
  unfold headLength
  cases found : spaces.find? (fun w => w.isPrefixOf text) with
  | none => exact Or.inr rfl
  | some blank =>
      have begins := List.find?_some found
      rcases List.isPrefixOf_iff_prefix.mp begins with ⟨rest, isText⟩
      exact Or.inl ⟨blank, List.mem_of_find?_eq_some found, rest, isText.symm⟩

theorem headLength_plain {b : UInt8} (plain : plainByte b = true) (rest : Bytes) :
    headLength spaces (b :: rest) = 0 := by
  rcases space_or_headLength (b :: rest) with ⟨blank, isSpace, rest', same⟩ | none_
  · have first := List.all_eq_true.mp plain blank isSpace
    cases blank with
    | nil => exact absurd rfl (space_ne_nil isSpace)
    | cons c more =>
        rw [List.cons_append] at same
        rw [(List.cons.inj same).1] at first
        simp at first
  · exact none_

theorem cutSpaces_drop (n : Nat) (text : Bytes) : cutSpaces n text = cutSpaces 0 (text.drop n) := by
  induction text generalizing n with
  | nil => cases n <;> rfl
  | cons b rest ih =>
      cases n with
      | zero => rfl
      | succ n => exact ih n

theorem cutSpaces_space (isSpace : blank ∈ spaces) (rest : Bytes) :
    cutSpaces 0 (blank ++ rest) = [] :: cutSpaces 0 rest := by
  have head := headLength_space isSpace rest
  cases blank with
  | nil => exact absurd rfl (space_ne_nil isSpace)
  | cons b more =>
      rw [List.cons_append, List.length_cons] at head
      rw [List.cons_append, cutSpaces, head]
      simp only
      rw [cutSpaces_drop, List.drop_left]

theorem cutSpaces_cons {b : UInt8} {rest : Bytes} (none_ : headLength spaces (b :: rest) = 0) :
    cutSpaces 0 (b :: rest) = (cutSpaces 0 rest).modifyHead (b :: ·) := by
  rw [cutSpaces, none_]

theorem cutSpaces_ne_nil (text : Bytes) : cutSpaces 0 text ≠ [] := by
  induction text with
  | nil => exact List.cons_ne_nil _ _
  | cons b rest ih =>
      rcases space_or_headLength (b :: rest) with ⟨blank, isSpace, rest', same⟩ | none_
      · rw [same, cutSpaces_space isSpace]
        exact List.cons_ne_nil _ _
      · rw [cutSpaces_cons none_]
        cases pieces : cutSpaces 0 rest with
        | nil => exact absurd pieces ih
        | cons piece more => exact List.cons_ne_nil _ _

/-- The first piece is the whole text, or white space follows it. -/
theorem of_cutSpaces {piece : Bytes} {pieces : List Bytes}
    (cuts : cutSpaces 0 text = piece :: pieces) :
    (text = piece ∧ pieces = []) ∨
      ∃ blank ∈ spaces, ∃ rest, text = piece ++ (blank ++ rest) ∧ cutSpaces 0 rest = pieces := by
  induction text generalizing piece with
  | nil =>
      cases cuts
      exact Or.inl ⟨rfl, rfl⟩
  | cons b text ih =>
      rcases space_or_headLength (b :: text) with ⟨blank, isSpace, rest, same⟩ | none_
      · rw [same, cutSpaces_space isSpace] at cuts
        cases cuts
        exact Or.inr ⟨blank, isSpace, rest, same, rfl⟩
      · rw [cutSpaces_cons none_] at cuts
        cases later : cutSpaces 0 text with
        | nil => exact absurd later (cutSpaces_ne_nil text)
        | cons piece' pieces' =>
            rw [later] at cuts
            cases cuts
            rcases ih later with ⟨isText, isNil⟩ | ⟨blank, isSpace, rest, isText, cuts⟩
            · exact Or.inl ⟨by rw [isText], isNil⟩
            · exact Or.inr ⟨blank, isSpace, rest, by rw [isText, List.cons_append], cuts⟩

theorem fields_space (isSpace : blank ∈ spaces) (rest : Bytes) :
    fields (blank ++ rest) = fields rest := by
  rw [fields, cutSpaces_space isSpace, List.filter_cons_of_neg (by simp)]
  rfl

theorem fields_blank (isBlank : Blank blank) (rest : Bytes) :
    fields (blank ++ rest) = fields rest := by
  induction isBlank with
  | nil => rfl
  | space isSpace _ ih => rw [List.append_assoc, fields_space isSpace, ih]

theorem fields_word {word rest : Bytes} (nonempty : word ≠ [])
    (plain : ∀ b ∈ word, plainByte b = true) (ends : EndsField rest) :
    fields (word ++ rest) = word :: fields rest := by
  have cuts : cutSpaces 0 (word ++ rest) = (cutSpaces 0 rest).modifyHead (word ++ ·) := by
    clear nonempty
    induction word with
    | nil =>
        rw [List.nil_append]
        cases cutSpaces 0 rest <;> rfl
    | cons b word ih =>
        rw [List.cons_append, cutSpaces_cons (headLength_plain (plain b List.mem_cons_self) _),
          ih fun c among => plain c (List.mem_cons_of_mem _ among)]
        cases cutSpaces 0 rest <;> rfl
  have first : ∃ pieces, cutSpaces 0 rest = [] :: pieces := by
    rcases ends with rfl | ⟨blank, isSpace, rest', rfl⟩
    · exact ⟨[], rfl⟩
    · exact ⟨_, cutSpaces_space isSpace rest'⟩
  rcases first with ⟨pieces, isFirst⟩
  rw [fields, cuts, isFirst, List.modifyHead_cons, List.append_nil,
    List.filter_cons_of_pos (by simpa using nonempty), fields, isFirst,
    List.filter_cons_of_neg (by simp)]

/-- The first field of a text, and what stands before and after it. -/
theorem of_fields_cons {word : Bytes} {words : List Bytes}
    (isFields : fields text = word :: words) :
    word ≠ [] ∧ ∃ blank rest, Blank blank ∧ text = blank ++ (word ++ rest) ∧ EndsField rest ∧
      fields rest = words := by
  rw [fields] at isFields
  generalize cuts : cutSpaces 0 text = pieces at isFields
  induction pieces generalizing text with
  | nil => cases isFields
  | cons piece pieces ih =>
      by_cases empty : piece = []
      · -- white space is at the head, and the field is further on
        rw [List.filter_cons_of_neg (by simpa using empty)] at isFields
        rcases of_cutSpaces cuts with ⟨_, isNil⟩ | ⟨blank, isSpace, rest, isText, cuts'⟩
        · rw [isNil] at isFields
          cases isFields
        · rcases ih cuts' isFields with ⟨nonempty, blank', rest', isBlank, isRest, ends, later⟩
          refine ⟨nonempty, blank ++ blank', rest', .space isSpace isBlank, ?_, ends, later⟩
          rw [isText, empty, isRest, List.nil_append, List.append_assoc]
      · rw [List.filter_cons_of_pos (by simpa using empty)] at isFields
        cases isFields
        refine ⟨empty, [], ?_⟩
        rcases of_cutSpaces cuts with ⟨isText, isNil⟩ | ⟨blank, isSpace, rest, isText, cuts'⟩
        · refine ⟨[], .nil, ?_, Or.inl rfl, ?_⟩
          · rw [isText, List.append_nil, List.nil_append]
          · rw [isNil]
            rfl
        · refine ⟨blank ++ rest, .nil, isText, ?_, ?_⟩
          · exact Or.inr ⟨blank, isSpace, List.prefix_append _ _⟩
          · rw [fields_space isSpace, fields, cuts']

theorem blank_of_fields (isFields : fields text = []) : Blank text := by
  rw [fields] at isFields
  generalize cuts : cutSpaces 0 text = pieces at isFields
  induction pieces generalizing text with
  | nil => exact absurd cuts (cutSpaces_ne_nil text)
  | cons piece pieces ih =>
      have none_ := List.filter_eq_nil_iff.mp isFields
      have empty : piece = [] := by simpa using none_ piece List.mem_cons_self
      rw [List.filter_cons_of_neg (by simpa using empty)] at isFields
      rcases of_cutSpaces cuts with ⟨isText, _⟩ | ⟨blank, isSpace, rest, isText, cuts'⟩
      · rw [isText, empty]
        exact .nil
      · rw [isText, empty, List.nil_append]
        exact .space isSpace (ih cuts' isFields)

theorem Blank.endsField (isBlank : Blank blank) (nonempty : blank ≠ []) (rest : Bytes) :
    EndsField (blank ++ rest) := by
  cases isBlank with
  | nil => exact absurd rfl nonempty
  | @space first more isSpace _ =>
      refine Or.inr ⟨first, isSpace, ?_⟩
      rw [List.append_assoc]
      exact List.prefix_append _ _

theorem Blank.ends (isBlank : Blank blank) : EndsField blank := by
  cases isBlank with
  | nil => exact Or.inl rfl
  | space isSpace _ => exact Or.inr ⟨_, isSpace, List.prefix_append _ _⟩

/-- A field does not end where a plain byte stands. -/
theorem not_endsField {b : UInt8} (plain : plainByte b = true) (rest : Bytes) :
    ¬ EndsField (b :: rest) := by
  rintro (nil | ⟨blank, isSpace, rest', same⟩)
  · cases nil
  · have none_ := headLength_plain plain rest
    rw [← same, headLength_space isSpace] at none_
    exact space_ne_nil isSpace (List.eq_nil_of_length_eq_zero none_)

/-- A text of two plain words. -/
theorem fields_eq_pair_iff {first second : Bytes} (firstNe : first ≠ [])
    (firstPlain : ∀ b ∈ first, plainByte b = true) (secondNe : second ≠ [])
    (secondPlain : ∀ b ∈ second, plainByte b = true) :
    fields text = [first, second] ↔
      ∃ before between after, Blank before ∧ Blank between ∧ between ≠ [] ∧ Blank after ∧
        text = before ++ (first ++ (between ++ (second ++ after))) := by
  constructor
  · intro isFields
    rcases of_fields_cons isFields with ⟨_, before, rest, isBefore, rfl, ends, isRest⟩
    rcases of_fields_cons isRest with ⟨_, between, after, isBetween, rfl, _, isAfter⟩
    refine ⟨before, between, after, isBefore, isBetween, ?_, blank_of_fields isAfter, rfl⟩
    rintro rfl
    cases second with
    | nil => exact secondNe rfl
    | cons b more => exact not_endsField (secondPlain b List.mem_cons_self) _ ends
  · rintro ⟨before, between, after, isBefore, isBetween, gap, isAfter, rfl⟩
    rw [fields_blank isBefore, fields_word firstNe firstPlain (isBetween.endsField gap _),
      fields_blank isBetween, fields_word secondNe secondPlain isAfter.ends]
    have none_ := fields_blank isAfter []
    rw [List.append_nil] at none_
    rw [none_]
    rfl

/-! ### Parts of a text -/

/-- `strings.Cut` at a byte. -/
def cut (sep : UInt8) (text : Bytes) : Bytes × Bytes :=
  (text.takeWhile (· ≠ sep), (text.dropWhile (· ≠ sep)).drop 1)

theorem cut_append {sep : UInt8} {before : Bytes} (absent : sep ∉ before) (after : Bytes) :
    cut sep (before ++ sep :: after) = (before, after) := by
  have others : ∀ b ∈ before, decide (b ≠ sep) = true := by
    intro b among
    exact decide_eq_true (fun same => absent (same ▸ among))
  simp only [cut, List.takeWhile_append_of_pos others, List.dropWhile_append_of_pos others]
  simp

/-- A text with the byte in it is put together from the two parts. -/
theorem cut_parts {sep : UInt8} (found : sep ∈ text) :
    text = (cut sep text).1 ++ sep :: (cut sep text).2 ∧ sep ∉ (cut sep text).1 := by
  rcases List.eq_append_cons_of_mem found with ⟨before, after, rfl, absent⟩
  rw [cut_append absent]
  exact ⟨rfl, absent⟩

/-- `strings.CutPrefix`. -/
def cutPrefix (start text : Bytes) : Option Bytes :=
  if start.isPrefixOf text then some (text.drop start.length) else none

/-- `strings.TrimSuffix`. -/
def trimSuffix (tail text : Bytes) : Bytes :=
  if tail.isSuffixOf text then text.take (text.length - tail.length) else text

theorem subset_trimSuffix {tail : Bytes} : trimSuffix tail text ⊆ text := by
  unfold trimSuffix
  split
  · exact List.take_subset _ _
  · exact List.Subset.refl text

/-! ## Case and quotes -/

def isAscii (text : Bytes) : Bool := text.all (· < 0x80)

/-- What `strings.ToLower` and `strconv.Quote` make of texts that are not ASCII. -/
structure Unicode where
  lower : Bytes → Bytes
  quote : Bytes → Bytes

def lowerByte (b : UInt8) : UInt8 := if 65 ≤ b ∧ b ≤ 90 then b + 32 else b

/-- `strings.ToLower`. -/
def toLower (unicode : Unicode) (text : Bytes) : Bytes :=
  if isAscii text then text.map lowerByte else unicode.lower text

theorem toLower_ascii (unicode : Unicode) (isText : isAscii text = true) :
    toLower unicode text = text.map lowerByte :=
  if_pos isText

theorem isAscii_trimSuffix {tail : Bytes} (isText : isAscii text = true) :
    isAscii (trimSuffix tail text) = true := by
  rw [isAscii, List.all_eq_true] at isText ⊢
  exact fun b among => isText b (subset_trimSuffix among)

/-- A byte of an ASCII text between quotes. -/
def quoteByte (b : UInt8) : Bytes :=
  if b = 0x22 then ascii "\\\""
  else if b = 0x5c then ascii "\\\\"
  else if 0x20 ≤ b ∧ b < 0x7f then [b]
  else if b = 0x07 then ascii "\\a"
  else if b = 0x08 then ascii "\\b"
  else if b = 0x0c then ascii "\\f"
  else if b = 0x0a then ascii "\\n"
  else if b = 0x0d then ascii "\\r"
  else if b = 0x09 then ascii "\\t"
  else if b = 0x0b then ascii "\\v"
  else ascii "\\x" ++ Hex.encode [b]

/-- `strconv.Quote`, and `%q`. -/
def quote (unicode : Unicode) (text : Bytes) : Bytes :=
  if isAscii text then 0x22 :: text.flatMap quoteByte ++ [0x22] else unicode.quote text

/-! ## Numbers -/

def digitValue (c : UInt8) : Option Nat :=
  if 48 ≤ c ∧ c ≤ 57 then some (c.toNat - 48) else none

/-- The number with the digits of `n` and of the text. -/
def parseDigits : Nat → Bytes → Option Nat
  | n, [] => some n
  | n, c :: rest =>
      match digitValue c with
      | none => none
      | some d => parseDigits (10 * n + d) rest

/-- `strconv.ParseUint` with base 10; every error is `none`. -/
def parseUint (bitSize : Nat) (text : Bytes) : Option Nat :=
  if text = [] then none else (parseDigits 0 text).filter (· < 2 ^ bitSize)

theorem parseUint_iff {bitSize : Nat} :
    parseUint bitSize text = some n ↔
      text ≠ [] ∧ parseDigits 0 text = some n ∧ n < 2 ^ bitSize := by
  rw [parseUint]
  split
  · rename_i empty
    exact iff_of_false nofun fun parts => parts.1 empty
  · rename_i nonempty
    rw [Option.filter_eq_some_iff, decide_eq_true_eq]
    exact ⟨fun parts => ⟨nonempty, parts⟩, fun parts => parts.2⟩

theorem digitValue_eq_some_iff {c : UInt8} {d : Nat} :
    digitValue c = some d ↔ d < 10 ∧ c = UInt8.ofNat (48 + d) := by
  have zero : (48 : UInt8).toNat = 48 := rfl
  have nine : (57 : UInt8).toNat = 57 := rfl
  simp only [digitValue, UInt8.le_iff_toNat_le, zero, nine]
  constructor
  · intro isDigit
    split at isDigit
    · cases isDigit
      refine ⟨by omega, UInt8.toNat_inj.mp ?_⟩
      rw [UInt8.toNat_ofNat']
      omega
    · cases isDigit
  · rintro ⟨small, rfl⟩
    have value : (UInt8.ofNat (48 + d)).toNat = 48 + d := by
      rw [UInt8.toNat_ofNat']
      omega
    rw [value, if_pos (by omega), Nat.add_sub_cancel_left]

theorem plainByte_of_parseDigits {m : Nat} (parsed : parseDigits n text = some m) :
    ∀ b ∈ text, plainByte b = true := by
  have digits : ∀ d : Fin 10, plainByte (UInt8.ofNat (48 + d)) = true := by decide
  induction text generalizing n with
  | nil => exact fun b among => absurd among List.not_mem_nil
  | cons c rest ih =>
      rw [parseDigits] at parsed
      split at parsed
      · cases parsed
      · rename_i d isDigit
        rcases digitValue_eq_some_iff.mp isDigit with ⟨small, rfl⟩
        intro b among
        rcases List.mem_cons.mp among with rfl | among
        · exact digits ⟨d, small⟩
        · exact ih parsed b among

/-- A digit below ten is written as one byte. -/
theorem decimal_digit {d : Nat} (small : d < 10) : decimal d = [UInt8.ofNat (48 + d)] := by
  have digits : ∀ d : Fin 10, (Nat.digitChar d).val.toUInt8 = UInt8.ofNat (48 + d) := by decide
  rw [decimal_eq, Nat.toDigits_of_lt_base small]
  exact congrArg (fun b => [b]) (digits ⟨d, small⟩)

/-- A digit is written behind the digits of a positive number. -/
theorem decimal_concat {d : Nat} (positive : 0 < n) (small : d < 10) :
    decimal (10 * n + d) = decimal n ++ [UInt8.ofNat (48 + d)] := by
  rw [← decimal_digit small, decimal_eq, decimal_eq, decimal_eq, ← List.map_append,
    Nat.toDigits_append_toDigits (by decide) positive small]

/-- What is read after the digits of a positive number is written after them. -/
theorem decimal_append_of_parseDigits {m : Nat} (positive : 0 < n)
    (parsed : parseDigits n text = some m) : decimal n ++ text = decimal m := by
  induction text generalizing n with
  | nil =>
      cases parsed
      exact List.append_nil _
  | cons c rest ih =>
      rw [parseDigits] at parsed
      split at parsed
      · cases parsed
      · rename_i d isDigit
        obtain ⟨small, rfl⟩ := digitValue_eq_some_iff.mp isDigit
        rw [← ih (by omega) parsed, decimal_concat positive small, List.append_assoc]
        rfl

theorem parseDigits_decimal_append (positive : 0 < n) (text : Bytes) :
    parseDigits 0 (decimal n ++ text) = parseDigits n text := by
  induction n using Nat.strongRecOn generalizing text with
  | ind n ih =>
      have last : n % 10 < 10 := Nat.mod_lt n (by decide)
      have digit := digitValue_eq_some_iff.mpr ⟨last, rfl⟩
      by_cases small : n < 10
      · rw [decimal_digit small, List.cons_append, List.nil_append, parseDigits,
          digitValue_eq_some_iff.mpr ⟨small, rfl⟩]
        simp
      · have split : n = 10 * (n / 10) + n % 10 := by omega
        have step := ih (n / 10) (by omega) (by omega) (UInt8.ofNat (48 + n % 10) :: text)
        conv => lhs; rw [split, decimal_concat (by omega) last, List.append_assoc]
        rw [List.cons_append, List.nil_append, step, parseDigits, digit]
        show parseDigits (10 * (n / 10) + n % 10) text = _
        rw [← split]

/-- Leading zeros do not matter. -/
theorem parseDigits_dropWhile (text : Bytes) :
    parseDigits 0 (text.dropWhile (· = 48)) = parseDigits 0 text := by
  induction text with
  | nil => rfl
  | cons c rest ih =>
      by_cases zero : c = 48
      · subst zero
        exact ih
      · rw [List.dropWhile_cons_of_neg (by simpa using zero)]

/-- A positive number is what its digits without leading zeros say. -/
theorem parseDigits_eq_some_iff (positive : 0 < n) :
    parseDigits 0 text = some n ↔ text.dropWhile (· = 48) = decimal n := by
  rw [← parseDigits_dropWhile]
  constructor
  · intro parsed
    cases shape : text.dropWhile (· = 48) with
    | nil =>
        rw [shape] at parsed
        cases parsed
        exact absurd positive (Nat.lt_irrefl 0)
    | cons c rest =>
        have nonzero : c ≠ 48 := by
          have first := List.head_dropWhile_not (· = 48) (l := text) (by simp [shape])
          simpa [shape] using first
        rw [shape, parseDigits] at parsed
        split at parsed
        · cases parsed
        · rename_i d isDigit
          obtain ⟨small, rfl⟩ := digitValue_eq_some_iff.mp isDigit
          have some_ : 0 < d := by
            rcases Nat.eq_zero_or_pos d with rfl | some_
            · exact absurd rfl nonzero
            · exact some_
          rw [Nat.mul_zero, Nat.zero_add] at parsed
          rw [← decimal_append_of_parseDigits some_ parsed, decimal_digit small]
          rfl
  · intro written
    rw [written, ← List.append_nil (decimal n), parseDigits_decimal_append positive]
    rfl

theorem decimal_ne_nil (n : Nat) : decimal n ≠ [] := by
  rw [decimal_eq, Ne, List.map_eq_nil_iff]
  exact Nat.toDigits_ne_nil

theorem parseUint_eq_some_iff {bitSize : Nat} (positive : 0 < n) :
    parseUint bitSize text = some n ↔
      n < 2 ^ bitSize ∧ text.dropWhile (· = 48) = decimal n := by
  have nonempty : text.dropWhile (· = 48) = decimal n → text ≠ [] := by
    rintro written rfl
    exact decimal_ne_nil n written.symm
  rw [parseUint_iff, parseDigits_eq_some_iff positive]
  exact ⟨fun parts => ⟨parts.2.2, parts.2.1⟩, fun parts => ⟨nonempty parts.2, parts.2, parts.1⟩⟩

end Go
