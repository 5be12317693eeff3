import ConfidentialCompute.GuestCPU
import Mathlib.Data.Rat.Floor
import Mathlib.Algebra.Order.Round

/-!
# The memory report of the enclave

The enclave reads its memory figures from two files of the kernel, whose lines are `Key: <n> kB`,
rounds them to megabytes and reports them. A size that does not fit into 64 bits is not stored.
`bytesToMB` adds half a megabyte before it divides, and that sum can overflow for a size that was
stored.

A requested key stands with the present value of its destination. Both callers give each key a
destination of its own.
-/

namespace ConfidentialCompute

open Go

/-! ## The enclave -/

/-- One line of the file. -/
def storeSize (want : GoMap Bytes UInt64) (line : Bytes) : GoMap Bytes UInt64 :=
  if 0x3a ∉ line then want
  else
    let (key, rest) := cut 0x3a line
    if key ∉ want then want
    else
      match fields rest with
      | [number, unit] =>
          if unit ≠ ascii "kB" then want
          else
            match parseUint 64 number with
            | none => want
            | some kb =>
                if UInt64.ofNat kb > maxUint64 / 1024 then want
                else want.insert key (UInt64.ofNat kb * 1024)
      | _ => want

def parseSizeFields (data : Bytes) (want : GoMap Bytes UInt64) : GoMap Bytes UInt64 :=
  (data.splitOn newline).foldl storeSize want

def bytesToMB (b : UInt64) : UInt64 := (b + 1024 * 1024 / 2) / (1024 * 1024)

structure MemInfo where
  totalBytes : UInt64
  availableBytes : UInt64
deriving DecidableEq

/-- `none` is a file that cannot be read. -/
def readMemInfo : Option Bytes → MemInfo
  | none => ⟨0, 0⟩
  | some data =>
      let want := parseSizeFields data
        (storeAll ∅ [(ascii "MemTotal", 0), (ascii "MemAvailable", 0)])
      ⟨(want.lookup (ascii "MemTotal")).getD 0, (want.lookup (ascii "MemAvailable")).getD 0⟩

structure ProcStatus where
  rssBytes : UInt64
  peakRSSBytes : UInt64
deriving DecidableEq

def readProcStatus : Option Bytes → ProcStatus
  | none => ⟨0, 0⟩
  | some data =>
      let want := parseSizeFields data (storeAll ∅ [(ascii "VmRSS", 0), (ascii "VmHWM", 0)])
      ⟨(want.lookup (ascii "VmRSS")).getD 0, (want.lookup (ascii "VmHWM")).getD 0⟩

def readGuestCPUSeconds : Option Bytes → UInt64 × UInt64
  | none => (0, 0)
  | some data =>
      match parseGuestCPUTicks data with
      | none => (0, 0)
      | some (busyTicks, totalTicks) => (cpuTicksToSeconds busyTicks, cpuTicksToSeconds totalTicks)

structure MemoryEstimateResponse where
  usedMB : UInt64
  rssMB : UInt64
  totalMB : UInt64
  availableMB : UInt64
  peakRSSMB : UInt64
  processCPUSeconds : UInt64
  guestCPUBusySeconds : UInt64
  guestCPUTotalSeconds : UInt64
deriving DecidableEq

/-- What the kernel and the Go runtime tell the enclave: three files, two numbers. -/
structure Readings where
  memInfo : Option Bytes
  procStatus : Option Bytes
  procStat : Option Bytes
  runtimeMemoryBytes : UInt64
  processCPUSeconds : UInt64

/-- The response of `handleMemory`. -/
def memoryEstimate (readings : Readings) : MemoryEstimateResponse :=
  let info := readMemInfo readings.memInfo
  let status := readProcStatus readings.procStatus
  let guestCPU := readGuestCPUSeconds readings.procStat
  { usedMB := bytesToMB readings.runtimeMemoryBytes
    rssMB := bytesToMB status.rssBytes
    totalMB := bytesToMB info.totalBytes
    availableMB := bytesToMB info.availableBytes
    peakRSSMB := bytesToMB status.peakRSSBytes
    processCPUSeconds := readings.processCPUSeconds
    guestCPUBusySeconds := guestCPU.1
    guestCPUTotalSeconds := guestCPU.2 }

/-! ## Sizes in a line -/

/-- A line of the form key, colon, number, `kB`. -/
def IsSizeLine (key line : Bytes) (kb : Nat) : Prop :=
  ∃ before number between after,
    line = key ++ 0x3a :: (before ++ (number ++ (between ++ (ascii "kB" ++ after)))) ∧
    Blank before ∧ Blank between ∧ between ≠ [] ∧ Blank after ∧
    number ≠ [] ∧ parseDigits 0 number = some kb

/-- The size of the last line that has one for the key and fits. -/
def IsLastSize (key : Bytes) (lines : List Bytes) (kb : Nat) : Prop :=
  ∃ before line after, lines = before ++ line :: after ∧
    IsSizeLine key line kb ∧ kb * 1024 < 2 ^ 64 ∧
    ∀ later ∈ after, ∀ kb', IsSizeLine key later kb' → ¬ kb' * 1024 < 2 ^ 64

theorem isSizeLine_iff {key rest : Bytes} {kb : Nat} :
    IsSizeLine key (key ++ 0x3a :: rest) kb ↔
      ∃ number, fields rest = [number, ascii "kB"] ∧ number ≠ [] ∧
        parseDigits 0 number = some kb := by
  have unitNe : ascii "kB" ≠ [] := by decide
  have unitPlain : ∀ b ∈ ascii "kB", plainByte b = true := by decide +kernel
  constructor
  · rintro ⟨before, number, between, after, isLine, isBefore, isBetween, gap, isAfter, nonempty,
      parsed⟩
    have isRest := (List.cons.inj (List.append_cancel_left isLine)).2
    refine ⟨number, ?_, nonempty, parsed⟩
    exact (fields_eq_pair_iff nonempty (plainByte_of_parseDigits parsed) unitNe unitPlain).mpr
      ⟨before, between, after, isBefore, isBetween, gap, isAfter, isRest⟩
  · rintro ⟨number, isFields, nonempty, parsed⟩
    rcases (fields_eq_pair_iff nonempty (plainByte_of_parseDigits parsed) unitNe unitPlain).mp
      isFields with ⟨before, between, after, isBefore, isBetween, gap, isAfter, isRest⟩
    exact ⟨before, number, between, after, by rw [isRest], isBefore, isBetween, gap, isAfter,
      nonempty, parsed⟩

/-! ## One line -/

section

variable {want : GoMap Bytes UInt64} {key line : Bytes} {kb : Nat}

theorem fits_iff (below : kb < 2 ^ 64) :
    UInt64.ofNat kb > maxUint64 / 1024 ↔ ¬ kb * 1024 < 2 ^ 64 := by
  have most : (maxUint64 / 1024).toNat = 2 ^ 54 - 1 := rfl
  have value : (UInt64.ofNat kb).toNat = kb := UInt64.toNat_ofNat_of_lt' below
  rw [gt_iff_lt, UInt64.lt_iff_toNat_lt, most, value]
  omega

theorem storeSize_of_isSizeLine (plain : 0x3a ∉ key) (requested : key ∈ want)
    (isLine : IsSizeLine key line kb) (fits : kb * 1024 < 2 ^ 64) :
    storeSize want line = want.insert key (UInt64.ofNat kb * 1024) := by
  have below : kb < 2 ^ 64 := by omega
  rcases isLine with ⟨before, number, between, after, rfl, rest⟩
  have isLine : IsSizeLine key _ kb := ⟨before, number, between, after, rfl, rest⟩
  rcases isSizeLine_iff.mp isLine with ⟨number', isFields, nonempty, parsed⟩
  have found : 0x3a ∈ key ++ 0x3a :: (before ++ (number ++ (between ++ (ascii "kB" ++ after)))) :=
    List.mem_append_right _ List.mem_cons_self
  simp only [storeSize, not_not.mpr found, if_false, cut_append plain, not_not.mpr requested,
    isFields, ne_eq, not_true_eq_false, parseUint_iff.mpr ⟨nonempty, parsed, below⟩,
    (not_congr (fits_iff below)).mpr (not_not.mpr fits)]

/-- A line stores nothing, or the size it has for a requested key. -/
theorem storeSize_cases (want : GoMap Bytes UInt64) (line : Bytes) :
    storeSize want line = want ∨
      ∃ key kb, key ∈ want ∧ IsSizeLine key line kb ∧ kb * 1024 < 2 ^ 64 ∧
        storeSize want line = want.insert key (UInt64.ofNat kb * 1024) := by
  by_cases found : 0x3a ∈ line
  · rcases cut_parts found with ⟨isLine, plain⟩
    generalize (cut 0x3a line).1 = key, (cut 0x3a line).2 = rest at isLine plain
    subst isLine
    have cuts := cut_append plain rest
    by_cases stores : ∃ kb, IsSizeLine key (key ++ 0x3a :: rest) kb ∧ kb * 1024 < 2 ^ 64
    · rcases stores with ⟨kb, isLine, fits⟩
      by_cases requested : key ∈ want
      · exact Or.inr ⟨key, kb, requested, isLine, fits,
          storeSize_of_isSizeLine plain requested isLine fits⟩
      · refine Or.inl ?_
        simp only [storeSize, not_not.mpr found, if_false, cuts, requested, not_false_eq_true,
          if_true]
    · refine Or.inl ?_
      simp only [storeSize, not_not.mpr found, if_false, cuts]
      split
      · rfl
      · split
        · rename_i number unit isFields
          split
          · rfl
          · rename_i isUnit
            split
            · rfl
            · rename_i kb parsed
              rcases parseUint_iff.mp parsed with ⟨nonempty, digits, below⟩
              rw [not_not.mp isUnit] at isFields
              have isLine : IsSizeLine key (key ++ 0x3a :: rest) kb :=
                isSizeLine_iff.mpr ⟨number, isFields, nonempty, digits⟩
              have tooLarge : ¬ kb * 1024 < 2 ^ 64 := fun fits => stores ⟨kb, isLine, fits⟩
              rw [if_pos ((fits_iff below).mpr tooLarge)]
        · rfl
  · refine Or.inl ?_
    simp only [storeSize, found, not_false_eq_true, if_true]

theorem mem_storeSize {key' : Bytes} : key' ∈ storeSize want line ↔ key' ∈ want := by
  rcases storeSize_cases want line with same | ⟨key, kb, requested, _, _, stored⟩
  · rw [same]
  · rw [stored, Finmap.mem_insert]
    constructor
    · rintro (rfl | among)
      · exact requested
      · exact among
    · exact Or.inr

/-- A line without a size that fits leaves the destination as it is. -/
theorem lookup_storeSize (none_ : ∀ kb, IsSizeLine key line kb → ¬ kb * 1024 < 2 ^ 64) :
    (storeSize want line).lookup key = want.lookup key := by
  rcases storeSize_cases want line with same | ⟨key', kb, _, isLine, fits, stored⟩
  · rw [same]
  · rw [stored]
    refine Finmap.lookup_insert_of_ne want ?_
    rintro rfl
    exact none_ kb isLine fits

end

/-! ## The file -/

section

variable {want : GoMap Bytes UInt64} {key : Bytes} {lines : List Bytes} {kb : Nat}

theorem mem_foldl_storeSize : key ∈ lines.foldl storeSize want ↔ key ∈ want := by
  induction lines generalizing want with
  | nil => rfl
  | cons line lines ih => rw [List.foldl_cons, ih, mem_storeSize]

theorem lookup_foldl_storeSize
    (none_ : ∀ line ∈ lines, ∀ kb, IsSizeLine key line kb → ¬ kb * 1024 < 2 ^ 64) :
    (lines.foldl storeSize want).lookup key = want.lookup key := by
  induction lines generalizing want with
  | nil => rfl
  | cons line lines ih =>
      rw [List.foldl_cons, ih fun line' among => none_ line' (List.mem_cons_of_mem _ among),
        lookup_storeSize (none_ line List.mem_cons_self)]

/-- The destination of a key is what the last line with a size that fits has stored. -/
theorem lookup_parseSizeFields {data : Bytes} (plain : 0x3a ∉ key) (requested : key ∈ want)
    (last : IsLastSize key (data.splitOn newline) kb) :
    (parseSizeFields data want).lookup key = some (UInt64.ofNat kb * 1024) := by
  rcases last with ⟨before, line, after, isLines, isLine, fits, none_⟩
  have requested' : key ∈ before.foldl storeSize want := mem_foldl_storeSize.mpr requested
  rw [parseSizeFields, isLines, List.foldl_append, List.foldl_cons, lookup_foldl_storeSize none_,
    storeSize_of_isSizeLine plain requested' isLine fits]
  exact Finmap.lookup_insert _

end

/-! ## Megabytes -/

theorem toNat_stored {kb : Nat} (fits : kb * 1024 < 2 ^ 64) :
    (UInt64.ofNat kb * 1024).toNat = 1024 * kb := by
  have below : kb < 2 ^ 64 := by omega
  have value : (UInt64.ofNat kb).toNat = kb := UInt64.toNat_ofNat_of_lt' below
  have unit : (1024 : UInt64).toNat = 1024 := rfl
  rw [UInt64.toNat_mul, value, unit]
  omega

theorem toNat_bytesToMB (b : UInt64) :
    (bytesToMB b).toNat = (b.toNat + 2 ^ 19) % 2 ^ 64 / 2 ^ 20 := by
  have half : (1024 * 1024 / 2 : UInt64).toNat = 2 ^ 19 := rfl
  have whole : (1024 * 1024 : UInt64).toNat = 2 ^ 20 := rfl
  rw [bytesToMB, UInt64.toNat_div, UInt64.toNat_add, half, whole]

/-- The nearest number of megabytes, halves up. -/
theorem round_megabytes (n : Nat) :
    round ((n : ℚ) / 2 ^ 20) = (((n + 2 ^ 19) / 2 ^ 20 : Nat) : Int) := by
  have sum : (n : ℚ) / 2 ^ 20 + 1 / 2 =
      (((n + 2 ^ 19 : Nat) : Int) : ℚ) / ((2 ^ 20 : Nat) : ℚ) := by
    push_cast
    ring
  rw [round_eq, sum, Rat.floor_intCast_div_natCast]
  rfl

/-- The rounding is exact unless half a megabyte more does not fit. -/
theorem bytesToMB_exact_iff (b : UInt64) :
    ((bytesToMB b).toNat : Int) = round ((b.toNat : ℚ) / 2 ^ 20) ↔ b.toNat < 2 ^ 64 - 2 ^ 19 := by
  have below := b.toNat_lt
  rw [round_megabytes, toNat_bytesToMB, Int.natCast_inj]
  omega

/-- **Sizes are read and rounded exactly** as long as the size of the last line leaves room for
half a megabyte. The destination holds that size in any case, and stays as it was if no line has a
size that fits; what can be wrong is the number of megabytes. -/
theorem memory_sizes_exact_iff (data key : Bytes) (want : GoMap Bytes UInt64) (dest : UInt64)
    (plain : 0x3a ∉ key) (requested : want.lookup key = some dest) :
    ((∀ kb, IsLastSize key (data.splitOn newline) kb →
        ∃ stored, (parseSizeFields data want).lookup key = some stored ∧
          stored.toNat = 1024 * kb ∧
          ((bytesToMB stored).toNat : Int) = round ((stored.toNat : ℚ) / 2 ^ 20)) ∧
      ((∀ line ∈ data.splitOn newline, ∀ kb, IsSizeLine key line kb → ¬ kb * 1024 < 2 ^ 64) →
        (parseSizeFields data want).lookup key = some dest)) ↔
    ∀ kb, IsLastSize key (data.splitOn newline) kb → kb < 2 ^ 54 - 512 := by
  have present : key ∈ want := Finmap.mem_of_lookup_eq_some requested
  constructor
  · rintro ⟨exact_, _⟩ kb last
    rcases exact_ kb last with ⟨stored, _, isSize, rounded⟩
    have room := (bytesToMB_exact_iff stored).mp rounded
    omega
  · intro room
    refine ⟨fun kb last => ?_, fun none_ => ?_⟩
    · have small := room kb last
      have isSize : (UInt64.ofNat kb * 1024).toNat = 1024 * kb := toNat_stored (by omega)
      refine ⟨_, lookup_parseSizeFields plain present last, isSize, ?_⟩
      exact (bytesToMB_exact_iff _).mpr (by omega)
    · rw [parseSizeFields, lookup_foldl_storeSize none_, requested]

namespace Sample

/-- The destination of `MemTotal`, before the file is read. -/
def memTotal : GoMap Bytes UInt64 := storeAll ∅ [(ascii "MemTotal", 0)]

def memInfo : Bytes := ascii "MemFree:        1024 kB\nMemTotal:       11534336 kB"

def fullMemInfo : Bytes := ascii "MemTotal: 18014398509481983 kB"

end Sample

section

open Sample

/-- Eleven gigabytes are 11264 megabytes. -/
theorem memory_sizes_exact_eleven_gigabytes :
    ∃ stored, (parseSizeFields memInfo memTotal).lookup (ascii "MemTotal") =
        some stored ∧ stored.toNat = 1024 * 11534336 ∧
      ((bytesToMB stored).toNat : Int) = round ((stored.toNat : ℚ) / 2 ^ 20) := by
  have plain : 0x3a ∉ ascii "MemTotal" := by decide +kernel
  have requested : memTotal.lookup (ascii "MemTotal") = some 0 := by decide +kernel
  have stored : (parseSizeFields memInfo memTotal).lookup (ascii "MemTotal") =
      some 11811160064 := by decide +kernel
  have isLine : IsSizeLine (ascii "MemTotal")
      (ascii "MemTotal" ++ 0x3a :: ascii "       11534336 kB") 11534336 :=
    isSizeLine_iff.mpr ⟨ascii "11534336", by decide +kernel, by decide +kernel, by decide +kernel⟩
  have last : IsLastSize (ascii "MemTotal") (memInfo.splitOn newline) 11534336 :=
    ⟨[ascii "MemFree:        1024 kB"], _, [], by decide +kernel, isLine, by decide,
      fun _ among => absurd among List.not_mem_nil⟩
  refine ((memory_sizes_exact_iff memInfo (ascii "MemTotal") memTotal 0 plain
    requested).mpr fun kb isLast => ?_).1 11534336 last
  -- another last size would be the same one: both are what was stored
  have present : ascii "MemTotal" ∈ memTotal := Finmap.mem_of_lookup_eq_some requested
  have same := (lookup_parseSizeFields plain present isLast).symm.trans stored
  rcases isLast with ⟨_, _, _, _, _, fits, _⟩
  have size := toNat_stored fits
  rw [Option.some.inj same] at size
  have value : (11811160064 : UInt64).toNat = 11811160064 := rfl
  omega

end

/-- The largest size that fits is 2 ^ 44 megabytes, and none are reported. -/
theorem memory_sizes_overflow :
    IsLastSize (ascii "MemTotal") (Sample.fullMemInfo.splitOn newline) 18014398509481983 ∧
    (parseSizeFields Sample.fullMemInfo Sample.memTotal).lookup (ascii "MemTotal") =
      some 18446744073709550592 ∧
    (bytesToMB 18446744073709550592).toNat = 0 ∧
    round (((18446744073709550592 : UInt64).toNat : ℚ) / 2 ^ 20) = 2 ^ 44 := by
  have isLine : IsSizeLine (ascii "MemTotal")
      (ascii "MemTotal" ++ 0x3a :: ascii " 18014398509481983 kB") 18014398509481983 :=
    isSizeLine_iff.mpr ⟨ascii "18014398509481983", by decide +kernel, by decide +kernel,
      by decide +kernel⟩
  refine ⟨⟨[], _, [], by decide +kernel, isLine, by decide,
    fun _ among => absurd among List.not_mem_nil⟩, by decide +kernel, by decide +kernel, ?_⟩
  rw [round_megabytes]
  rfl

end ConfidentialCompute
