import ConfidentialCompute.EnclaveMemory
import ConfidentialCompute.Lib.Windows

/-!
# Memory gauges of the host

The host polls the enclave for its memory and keeps two snapshots: the latest reading, and the
extremes of the readings since the metrics were last collected. A collection exports the extremes
and begins a new window; with no reading in between it falls back on the latest one, which a failed
poll drops. Zero means that the enclave does not report a figure, and is never exported.

The memory part of each function is one critical section of `memoryMu`, so a run is a sequence of
events. The CPU figures of a reading are recorded after it, by the goroutine that polls.
-/

namespace ConfidentialCompute

open Runs

/-! ## The functions of the source -/

def maxInt64 : UInt64 := UInt64.ofNat (2 ^ 63 - 1)

/-- The conversion `int64(value)`. -/
def toInt64 (value : UInt64) : Int := (value.toNat : Int).bmod (2 ^ 64)

def bytesPerMiB : UInt64 := 1024 * 1024

def mibToBytes (value : UInt64) : Int :=
  if value > maxInt64 / bytesPerMiB then toInt64 maxInt64 else toInt64 (value * bytesPerMiB)

def saturatingInt64 (value : UInt64) : Int :=
  if value > maxInt64 then toInt64 maxInt64 else toInt64 value

structure EnclaveMemorySnapshot where
  totalBytes : Int
  goRuntimeBytes : Int
  processRSSBytes : Int
  availableBytes : Int
  peakRSSBytes : Int
deriving DecidableEq

inductive MemoryGauge where
  | totalMemory
  | goRuntimeMemory
  | processRSSMemory
  | availableMemory
  | peakRSSMemory
deriving DecidableEq

/-- The fields of `hostMetrics` that the memory poll writes. -/
structure ResourceMetrics where
  memory : Option EnclaveMemorySnapshot
  memoryWindow : Option EnclaveMemorySnapshot
  hasProcessCPUBaseline : Bool
  lastProcessCPUSeconds : UInt64
  /-- What was added to the counter of CPU time, in order. -/
  processCPUTime : List Int
  guestCPU : GuestCPUMetrics
  /-- No sample was taken at the zero time, from which every interval has passed. -/
  lastGuestCPUSampleAt : Option Int
deriving DecidableEq

def newResourceMetrics : ResourceMetrics where
  memory := none
  memoryWindow := none
  hasProcessCPUBaseline := false
  lastProcessCPUSeconds := 0
  processCPUTime := []
  guestCPU := ⟨false, 0, 0, none⟩
  lastGuestCPUSampleAt := none

def mergeMemoryExtremes (window : Option EnclaveMemorySnapshot) (reading : EnclaveMemorySnapshot) :
    EnclaveMemorySnapshot :=
  match window with
  | none => reading
  | some window =>
      { totalBytes := if reading.totalBytes > 0 then reading.totalBytes else window.totalBytes
        goRuntimeBytes := max window.goRuntimeBytes reading.goRuntimeBytes
        processRSSBytes := max window.processRSSBytes reading.processRSSBytes
        peakRSSBytes := max window.peakRSSBytes reading.peakRSSBytes
        availableBytes :=
          if reading.availableBytes > 0 ∧
              (window.availableBytes = 0 ∨ reading.availableBytes < window.availableBytes) then
            reading.availableBytes
          else window.availableBytes }

/-- The reading that `recordEnclaveMemory` stores. -/
def memoryReading (estimate : MemoryEstimateResponse) : EnclaveMemorySnapshot where
  totalBytes := mibToBytes estimate.totalMB
  goRuntimeBytes := mibToBytes estimate.usedMB
  processRSSBytes := mibToBytes estimate.rssMB
  availableBytes := mibToBytes estimate.availableMB
  peakRSSBytes := mibToBytes estimate.peakRSSMB

namespace ResourceMetrics

def recordProcessCPUTime (m : ResourceMetrics) (current : UInt64) : ResourceMetrics :=
  if current = 0 then m
  else if m.hasProcessCPUBaseline = false then
    { m with
      lastProcessCPUSeconds := current
      hasProcessCPUBaseline := true
      processCPUTime := m.processCPUTime ++ [0] }
  else
    -- a smaller value is that of an enclave that was restarted
    let delta :=
      if current < m.lastProcessCPUSeconds then current else current - m.lastProcessCPUSeconds
    { m with
      lastProcessCPUSeconds := current
      processCPUTime := m.processCPUTime ++ [saturatingInt64 delta] }

/-- Five seconds, in nanoseconds. -/
def guestCPUSampleInterval : Int := 5 * 10 ^ 9

def guestCPUSampleDue (m : ResourceMetrics) (now : Int) : Bool :=
  match m.lastGuestCPUSampleAt with
  | none => true
  | some last => decide (now - last ≥ guestCPUSampleInterval)

def recordEnclaveMemory (m : ResourceMetrics) (estimate : MemoryEstimateResponse) (now : Int) :
    ResourceMetrics :=
  let reading := memoryReading estimate
  let m :=
    { m with memory := some reading
             memoryWindow := some (mergeMemoryExtremes m.memoryWindow reading) }
  let m := m.recordProcessCPUTime estimate.processCPUSeconds
  if m.guestCPUSampleDue now then
    { m with
      lastGuestCPUSampleAt := some now
      guestCPU := recordGuestCPUUtilization m.guestCPU estimate.guestCPUBusySeconds
        estimate.guestCPUTotalSeconds }
  else m

def clearEnclaveMemory (m : ResourceMetrics) : ResourceMetrics :=
  { m with memory := none, guestCPU := { m.guestCPU with sample := none } }

end ResourceMetrics

/-- The gauges with a value, in the order in which they are observed. -/
def EnclaveMemorySnapshot.observed (snapshot : EnclaveMemorySnapshot) :
    List (MemoryGauge × Int) :=
  [(.totalMemory, snapshot.totalBytes),
    (.goRuntimeMemory, snapshot.goRuntimeBytes),
    (.processRSSMemory, snapshot.processRSSBytes),
    (.availableMemory, snapshot.availableBytes),
    (.peakRSSMemory, snapshot.peakRSSBytes)].filter fun gauge => gauge.2 > 0

/-- One collection: the metrics after it, and what it exports. -/
def ResourceMetrics.observeEnclaveMemory (m : ResourceMetrics) :
    ResourceMetrics × List (MemoryGauge × Int) :=
  let snapshot :=
    match m.memoryWindow with
    | some window => some window
    | none => m.memory
  ({ m with memoryWindow := none },
    match snapshot with
    | none => []
    | some snapshot => snapshot.observed)

/-! ## Runs -/

inductive MemoryEvent where
  | reading (estimate : MemoryEstimateResponse) (now : Int)
  | pollFailed
  | collect
deriving DecidableEq

def MemoryEvent.isCollect : MemoryEvent → Bool
  | collect => true
  | _ => false

/-- The estimate of a reading. -/
def MemoryEvent.estimate? : MemoryEvent → Option MemoryEstimateResponse
  | reading estimate _ => some estimate
  | _ => none

def ResourceMetrics.step (m : ResourceMetrics) : MemoryEvent → Option ResourceMetrics
  | .reading estimate now => some (m.recordEnclaveMemory estimate now)
  | .pollFailed => some m.clearEnclaveMemory
  | .collect => some m.observeEnclaveMemory.1

/-! ## What a collection is to export -/

/-- A figure in bytes, if need be the greatest `int64`. -/
@[irreducible] def saturatedBytes (megabytes : UInt64) : Int :=
  min (megabytes.toNat * 2 ^ 20) (2 ^ 63 - 1)

/-- The figure of an estimate that a gauge is about. -/
def MemoryGauge.figure : MemoryGauge → MemoryEstimateResponse → UInt64
  | totalMemory, estimate => estimate.totalMB
  | goRuntimeMemory, estimate => estimate.usedMB
  | processRSSMemory, estimate => estimate.rssMB
  | availableMemory, estimate => estimate.availableMB
  | peakRSSMemory, estimate => estimate.peakRSSMB

/-- The greatest of the figures. -/
def IsHighest (figure : MemoryEstimateResponse → UInt64) (readings : List MemoryEstimateResponse)
    (value : Int) : Prop :=
  IsGreatest {n | ∃ r ∈ readings, saturatedBytes (figure r) = n} value

/-- The least of the figures that are not zero. -/
def IsLowestReported (figure : MemoryEstimateResponse → UInt64)
    (readings : List MemoryEstimateResponse) (value : Int) : Prop :=
  IsLeast {n | ∃ r ∈ readings, figure r ≠ 0 ∧ saturatedBytes (figure r) = n} value

/-- The last of the figures that are not zero. -/
def IsLatestReported (figure : MemoryEstimateResponse → UInt64)
    (readings : List MemoryEstimateResponse) (value : Int) : Prop :=
  ∃ before r after, readings = before ++ r :: after ∧ figure r ≠ 0 ∧
    (∀ later ∈ after, figure later = 0) ∧ saturatedBytes (figure r) = value

/-- What a gauge exports of the readings of a window. -/
def MemoryGauge.Extreme (gauge : MemoryGauge) (readings : List MemoryEstimateResponse)
    (value : Int) : Prop :=
  match gauge with
  | totalMemory => IsLatestReported gauge.figure readings value
  | availableMemory => IsLowestReported gauge.figure readings value
  | goRuntimeMemory | processRSSMemory | peakRSSMemory =>
      value ≠ 0 ∧ IsHighest gauge.figure readings value

/-- `estimate` is the latest reading, and no poll failed after it. -/
def IsLatestReading (events : List MemoryEvent) (estimate : MemoryEstimateResponse) : Prop :=
  ∃ before now after, events = before ++ .reading estimate now :: after ∧
    ∀ event ∈ after, event = .collect

/-! ## Bytes -/

theorem toInt64_of_lt {value : UInt64} (fits : value.toNat < 2 ^ 63) :
    toInt64 value = value.toNat := by
  unfold toInt64
  exact Int.bmod_eq_of_le_mul_two (by omega) (by omega)

/-- **Bytes are exact**, up to the greatest `int64`. -/
theorem mibToBytes_eq (value : UInt64) : mibToBytes value = saturatedBytes value := by
  have most : maxInt64.toNat = 2 ^ 63 - 1 := rfl
  have limit : (maxInt64 / bytesPerMiB).toNat = 2 ^ 43 - 1 := by decide
  have unit : bytesPerMiB.toNat = 2 ^ 20 := rfl
  unfold mibToBytes saturatedBytes
  split
  · rename_i large
    rw [gt_iff_lt, UInt64.lt_iff_toNat_lt, limit] at large
    rw [toInt64_of_lt (by omega), most]
    omega
  · rename_i small
    rw [gt_iff_lt, UInt64.lt_iff_toNat_lt, limit] at small
    have product : (value * bytesPerMiB).toNat = value.toNat * 2 ^ 20 := by
      rw [UInt64.toNat_mul, unit]
      omega
    rw [toInt64_of_lt (by omega), product]
    omega

theorem saturatedBytes_nonneg (megabytes : UInt64) : 0 ≤ saturatedBytes megabytes := by
  unfold saturatedBytes
  omega

theorem saturatedBytes_pos_iff {megabytes : UInt64} :
    0 < saturatedBytes megabytes ↔ megabytes ≠ 0 := by
  have zero : megabytes = 0 ↔ megabytes.toNat = 0 := by
    rw [← UInt64.toNat_inj]
    rfl
  unfold saturatedBytes
  rw [Ne, zero]
  omega

@[simp] theorem saturatedBytes_zero : saturatedBytes 0 = 0 := by
  unfold saturatedBytes
  simp

/-! ## Extremes of a longer list -/

section Extremes

variable {figure : MemoryEstimateResponse → UInt64} {readings : List MemoryEstimateResponse}
  {r : MemoryEstimateResponse} {value : Int}

theorem isHighest_singleton : IsHighest figure [r] (saturatedBytes (figure r)) := by
  unfold IsHighest
  simp

theorem setOf_concat {R : MemoryEstimateResponse → Int → Prop} :
    {n | ∃ r' ∈ readings ++ [r], R r' n} = {n | ∃ r' ∈ readings, R r' n} ∪ {n | R r n} := by
  ext n
  simp [or_and_right, exists_or]

theorem IsHighest.concat (highest : IsHighest figure readings value) :
    IsHighest figure (readings ++ [r]) (max value (saturatedBytes (figure r))) := by
  have alone : IsGreatest {n | saturatedBytes (figure r) = n} (saturatedBytes (figure r)) :=
    ⟨rfl, fun n same => same.ge⟩
  unfold IsHighest
  rw [setOf_concat]
  exact highest.union alone

theorem isLowestReported_concat_zero (zero : figure r = 0) :
    IsLowestReported figure (readings ++ [r]) value ↔ IsLowestReported figure readings value := by
  unfold IsLowestReported
  simp [or_and_right, exists_or, zero]

theorem isLowestReported_concat_first (reported : figure r ≠ 0)
    (zeros : ∀ r' ∈ readings, figure r' = 0) :
    IsLowestReported figure (readings ++ [r]) (saturatedBytes (figure r)) := by
  refine ⟨⟨r, by simp, reported, rfl⟩, ?_⟩
  rintro n ⟨r', member, reported', rfl⟩
  rcases List.mem_append.mp member with earlier | last
  · exact absurd (zeros r' earlier) reported'
  · rw [List.mem_singleton.mp last]

theorem IsLowestReported.concat (lowest : IsLowestReported figure readings value)
    (reported : figure r ≠ 0) :
    IsLowestReported figure (readings ++ [r]) (min value (saturatedBytes (figure r))) := by
  have alone : IsLeast {n | figure r ≠ 0 ∧ saturatedBytes (figure r) = n}
      (saturatedBytes (figure r)) :=
    ⟨⟨reported, rfl⟩, fun n same => same.2.le⟩
  unfold IsLowestReported
  rw [setOf_concat]
  exact lowest.union alone

theorem IsLowestReported.pos (lowest : IsLowestReported figure readings value) : 0 < value := by
  rcases lowest.1 with ⟨r, _, reported, rfl⟩
  exact saturatedBytes_pos_iff.mpr reported

theorem not_isLatestReported_nil : ¬ IsLatestReported figure [] value := by
  rintro ⟨before, r, after, split, _⟩
  simp at split

/-- The latest figure of a longer list is the one just read, unless that is zero. -/
theorem isLatestReported_concat :
    IsLatestReported figure (readings ++ [r]) value ↔
      if figure r = 0 then IsLatestReported figure readings value
      else saturatedBytes (figure r) = value := by
  constructor
  · rintro ⟨before, r', after, split, reported, zeros, same⟩
    rcases concat_eq_append_cons_iff.mp split with ⟨_, rfl, _⟩ | ⟨rest, rfl, rfl⟩
    · rwa [if_neg reported]
    · rw [if_pos (zeros r (by simp))]
      exact ⟨before, r', rest, rfl, reported, fun later h => zeros later (by simp [h]), same⟩
  · intro latest
    split at latest
    · rename_i zero
      rcases latest with ⟨before, r', after, rfl, reported, zeros, same⟩
      refine ⟨before, r', after ++ [r], by simp, reported, fun later member => ?_, same⟩
      rcases List.mem_append.mp member with earlier | last
      · exact zeros later earlier
      · rw [List.mem_singleton.mp last, zero]
    · rename_i reported
      exact ⟨readings, r, [], rfl, reported, by simp, latest⟩

theorem isLatestReported_merge {total : Int}
    (latest : ∀ value, (0 < value ∧ total = value) ↔ IsLatestReported figure readings value)
    (value : Int) :
    (0 < value ∧ (if saturatedBytes (figure r) > 0 then saturatedBytes (figure r) else total) =
      value) ↔ IsLatestReported figure (readings ++ [r]) value := by
  rw [isLatestReported_concat]
  by_cases zero : figure r = 0
  · rw [if_pos zero, zero, saturatedBytes_zero, if_neg (by omega)]
    exact latest value
  · have pos := saturatedBytes_pos_iff.mpr zero
    rw [if_neg zero, if_pos pos]
    omega

/-- The least figure, or zero if there is none. -/
def LowestOrZero (figure : MemoryEstimateResponse → UInt64)
    (readings : List MemoryEstimateResponse) (value : Int) : Prop :=
  (value = 0 ∧ ∀ r ∈ readings, figure r = 0) ∨ IsLowestReported figure readings value

theorem LowestOrZero.merge {available : Int} (lowest : LowestOrZero figure readings available) :
    LowestOrZero figure (readings ++ [r])
      (if saturatedBytes (figure r) > 0 ∧
          (available = 0 ∨ saturatedBytes (figure r) < available) then
        saturatedBytes (figure r)
      else available) := by
  by_cases zero : figure r = 0
  · rw [zero, saturatedBytes_zero, if_neg (by omega)]
    rcases lowest with ⟨none_, zeros⟩ | lowest
    · refine Or.inl ⟨none_, fun r' member => ?_⟩
      rcases List.mem_append.mp member with earlier | last
      · exact zeros r' earlier
      · rw [List.mem_singleton.mp last, zero]
    · exact Or.inr ((isLowestReported_concat_zero zero).mpr lowest)
  · have pos := saturatedBytes_pos_iff.mpr zero
    rcases lowest with ⟨none_, zeros⟩ | lowest
    · rw [if_pos ⟨pos, Or.inl none_⟩]
      exact Or.inr (isLowestReported_concat_first zero zeros)
    · have least := lowest.concat zero
      have positive := lowest.pos
      right
      split
      · rwa [min_eq_right (by omega)] at least
      · rwa [min_eq_left (by omega)] at least

end Extremes

/-! ## The window -/

/-- The window holds the extremes of the readings. A gauge that no reading reported is zero. -/
structure Summarizes (readings : List MemoryEstimateResponse) (window : EnclaveMemorySnapshot) :
    Prop where
  total : ∀ value, (0 < value ∧ window.totalBytes = value) ↔
    IsLatestReported (·.totalMB) readings value
  available : LowestOrZero (·.availableMB) readings window.availableBytes
  goRuntime : IsHighest (·.usedMB) readings window.goRuntimeBytes
  processRSS : IsHighest (·.rssMB) readings window.processRSSBytes
  peakRSS : IsHighest (·.peakRSSMB) readings window.peakRSSBytes

theorem memoryReading_eq (r : MemoryEstimateResponse) :
    memoryReading r =
      { totalBytes := saturatedBytes r.totalMB
        goRuntimeBytes := saturatedBytes r.usedMB
        processRSSBytes := saturatedBytes r.rssMB
        availableBytes := saturatedBytes r.availableMB
        peakRSSBytes := saturatedBytes r.peakRSSMB } := by
  simp only [memoryReading, mibToBytes_eq]

theorem summarizes_singleton (r : MemoryEstimateResponse) :
    Summarizes [r] (memoryReading r) := by
  rw [memoryReading_eq]
  refine ⟨fun value => ?_, ?_, isHighest_singleton, isHighest_singleton, isHighest_singleton⟩
  · have none_ : ∀ value, (0 < value ∧ (0 : Int) = value) ↔
        IsLatestReported (·.totalMB) [] value :=
      fun value => iff_of_false (by omega) not_isLatestReported_nil
    have merged := isLatestReported_merge (r := r) none_ value
    have nonneg := saturatedBytes_nonneg r.totalMB
    rwa [show (if saturatedBytes r.totalMB > 0 then saturatedBytes r.totalMB else 0) =
      saturatedBytes r.totalMB by omega] at merged
  · by_cases zero : r.availableMB = 0
    · exact Or.inl ⟨by simp [zero], by simp [zero]⟩
    · have first : IsLowestReported (·.availableMB) ([] ++ [r]) (saturatedBytes r.availableMB) :=
        isLowestReported_concat_first zero (by simp)
      exact Or.inr first

theorem Summarizes.ne_nil {readings : List MemoryEstimateResponse} {window : EnclaveMemorySnapshot}
    (summary : Summarizes readings window) : readings ≠ [] := by
  rcases summary.goRuntime.1 with ⟨r, member, _⟩
  exact List.ne_nil_of_mem member

/-- **One more reading.** -/
theorem Summarizes.merge {readings : List MemoryEstimateResponse} {window : EnclaveMemorySnapshot}
    (summary : Summarizes readings window) (r : MemoryEstimateResponse) :
    Summarizes (readings ++ [r]) (mergeMemoryExtremes (some window) (memoryReading r)) := by
  rw [memoryReading_eq]
  exact ⟨isLatestReported_merge summary.total, summary.available.merge, summary.goRuntime.concat,
    summary.processRSS.concat, summary.peakRSS.concat⟩

/-! ## What is exported -/

def EnclaveMemorySnapshot.value (snapshot : EnclaveMemorySnapshot) : MemoryGauge → Int
  | .totalMemory => snapshot.totalBytes
  | .goRuntimeMemory => snapshot.goRuntimeBytes
  | .processRSSMemory => snapshot.processRSSBytes
  | .availableMemory => snapshot.availableBytes
  | .peakRSSMemory => snapshot.peakRSSBytes

theorem mem_observed {snapshot : EnclaveMemorySnapshot} {gauge : MemoryGauge} {value : Int} :
    (gauge, value) ∈ snapshot.observed ↔ 0 < value ∧ snapshot.value gauge = value := by
  unfold EnclaveMemorySnapshot.observed
  constructor
  · intro member
    rcases List.mem_filter.mp member with ⟨listed, positive⟩
    refine ⟨of_decide_eq_true positive, ?_⟩
    simp only [List.mem_cons, Prod.mk.injEq, List.not_mem_nil, or_false] at listed
    rcases listed with ⟨rfl, rfl⟩ | ⟨rfl, rfl⟩ | ⟨rfl, rfl⟩ | ⟨rfl, rfl⟩ | ⟨rfl, rfl⟩ <;> rfl
  · rintro ⟨positive, rfl⟩
    refine List.mem_filter.mpr ⟨?_, decide_eq_true positive⟩
    cases gauge <;> simp [EnclaveMemorySnapshot.value]

theorem nodup_observed (snapshot : EnclaveMemorySnapshot) :
    (snapshot.observed.map Prod.fst).Nodup := by
  unfold EnclaveMemorySnapshot.observed
  refine List.Nodup.sublist (List.Sublist.map _ List.filter_sublist) ?_
  simp

theorem memoryReading_value (r : MemoryEstimateResponse) (gauge : MemoryGauge) :
    (memoryReading r).value gauge = saturatedBytes (gauge.figure r) := by
  -- by rewriting: `rfl` would have the kernel compute with the bytes
  cases gauge <;>
    simp only [memoryReading_eq, EnclaveMemorySnapshot.value, MemoryGauge.figure]

theorem IsHighest.observed_iff {figure : MemoryEstimateResponse → UInt64}
    {readings : List MemoryEstimateResponse} {highest value : Int}
    (isHighest : IsHighest figure readings highest) :
    (0 < value ∧ highest = value) ↔ value ≠ 0 ∧ IsHighest figure readings value := by
  constructor
  · rintro ⟨pos, rfl⟩
    exact ⟨by omega, isHighest⟩
  · rintro ⟨reported, isHighest'⟩
    have same : highest = value := isHighest.unique isHighest'
    rcases isHighest'.1 with ⟨r, _, rfl⟩
    have nonneg := saturatedBytes_nonneg (figure r)
    exact ⟨by omega, same⟩

theorem LowestOrZero.observed_iff {figure : MemoryEstimateResponse → UInt64}
    {readings : List MemoryEstimateResponse} {lowest value : Int}
    (isLowest : LowestOrZero figure readings lowest) :
    (0 < value ∧ lowest = value) ↔ IsLowestReported figure readings value := by
  rcases isLowest with ⟨rfl, zeros⟩ | isLowest
  · refine iff_of_false (by omega) ?_
    rintro ⟨⟨r, member, reported, _⟩, _⟩
    exact reported (zeros r member)
  · constructor
    · rintro ⟨_, rfl⟩
      exact isLowest
    · intro isLowest'
      exact ⟨isLowest'.pos, isLowest.unique isLowest'⟩

theorem Summarizes.mem_observed_iff {readings : List MemoryEstimateResponse}
    {window : EnclaveMemorySnapshot} (summary : Summarizes readings window) (gauge : MemoryGauge)
    (value : Int) : (gauge, value) ∈ window.observed ↔ gauge.Extreme readings value := by
  rw [mem_observed]
  cases gauge with
  | totalMemory => exact summary.total value
  | goRuntimeMemory => exact summary.goRuntime.observed_iff
  | processRSSMemory => exact summary.processRSS.observed_iff
  | availableMemory => exact summary.available.observed_iff
  | peakRSSMemory => exact summary.peakRSS.observed_iff

/-! ## Runs of readings, failed polls and collections -/

section Events

variable {m m' : ResourceMetrics} {events : List MemoryEvent} {event : MemoryEvent}
  {r : MemoryEstimateResponse} {now : Int}

theorem recordProcessCPUTime_memory (m : ResourceMetrics) (current : UInt64) :
    (m.recordProcessCPUTime current).memory = m.memory ∧
      (m.recordProcessCPUTime current).memoryWindow = m.memoryWindow := by
  unfold ResourceMetrics.recordProcessCPUTime
  split
  · exact ⟨rfl, rfl⟩
  · split <;> exact ⟨rfl, rfl⟩

/-- The CPU figures of a reading do not touch the snapshots. -/
theorem recordEnclaveMemory_memory (m : ResourceMetrics) (r : MemoryEstimateResponse) (now : Int) :
    (m.recordEnclaveMemory r now).memory = some (memoryReading r) ∧
      (m.recordEnclaveMemory r now).memoryWindow =
        some (mergeMemoryExtremes m.memoryWindow (memoryReading r)) := by
  unfold ResourceMetrics.recordEnclaveMemory
  dsimp only
  split
  · exact recordProcessCPUTime_memory _ _
  · exact recordProcessCPUTime_memory _ _

/-- What an event other than a collection makes of the window. -/
def mergeEvent (window : Option EnclaveMemorySnapshot) : MemoryEvent → Option EnclaveMemorySnapshot
  | .reading estimate _ => some (mergeMemoryExtremes window (memoryReading estimate))
  | _ => window

/-- The window is made of the events since the last collection. -/
theorem memoryWindow_eq (run : Run ResourceMetrics.step anyStep newResourceMetrics events m) :
    m.memoryWindow = (since MemoryEvent.isCollect events).foldl mergeEvent none := by
  refine run.eq_foldl_since (·.memoryWindow) rfl ?_ ?_
  · intro m event m' isCollect taken
    cases event with
    | reading estimate now => cases isCollect
    | pollFailed => cases isCollect
    | collect =>
        cases taken
        rfl
  · intro m event m' other taken
    cases event with
    | reading estimate now =>
        cases taken
        exact (recordEnclaveMemory_memory m estimate now).2
    | pollFailed =>
        cases taken
        rfl
    | collect => cases other

/-- With no reading there is no window, and otherwise it holds their extremes. -/
theorem foldl_mergeEvent (events : List MemoryEvent) :
    (events.filterMap MemoryEvent.estimate? = [] ∧ events.foldl mergeEvent none = none) ∨
      ∃ window, events.foldl mergeEvent none = some window ∧
        Summarizes (events.filterMap MemoryEvent.estimate?) window := by
  induction events using List.reverseRecOn with
  | nil => exact Or.inl ⟨rfl, rfl⟩
  | append_singleton events event ih =>
      rw [List.filterMap_append, List.foldl_append]
      cases event with
      | reading estimate now =>
          refine Or.inr ⟨_, rfl, ?_⟩
          rcases ih with ⟨empty, none_⟩ | ⟨window, isWindow, summary⟩
          · rw [empty, none_]
            exact summarizes_singleton estimate
          · rw [isWindow]
            exact summary.merge estimate
      | pollFailed =>
          rw [show [MemoryEvent.pollFailed].filterMap MemoryEvent.estimate? = [] from rfl,
            List.append_nil]
          exact ih
      | collect =>
          rw [show [MemoryEvent.collect].filterMap MemoryEvent.estimate? = [] from rfl,
            List.append_nil]
          exact ih

theorem isLatestReading_concat :
    IsLatestReading (events ++ [event]) r ↔
      (∃ now, event = .reading r now) ∨ (event = .collect ∧ IsLatestReading events r) := by
  constructor
  · rintro ⟨before, now, after, split, collects⟩
    rcases concat_eq_append_cons_iff.mp split with ⟨_, isReading, _⟩ | ⟨rest, rfl, rfl⟩
    · exact Or.inl ⟨now, isReading.symm⟩
    · exact Or.inr ⟨collects event (by simp), before, now, rest, rfl,
        fun later member => collects later (by simp [member])⟩
  · rintro (⟨now, rfl⟩ | ⟨rfl, before, now, after, rfl, collects⟩)
    · exact ⟨events, now, [], rfl, by simp⟩
    · refine ⟨before, now, after ++ [.collect], by simp, fun later member => ?_⟩
      rcases List.mem_append.mp member with earlier | last
      · exact collects later earlier
      · exact List.mem_singleton.mp last

/-- The latest reading is kept until a poll fails. -/
theorem memory_eq_some_iff (run : Run ResourceMetrics.step anyStep newResourceMetrics events m)
    {snapshot : EnclaveMemorySnapshot} :
    m.memory = some snapshot ↔ ∃ r, IsLatestReading events r ∧ memoryReading r = snapshot := by
  induction run with
  | nil =>
      refine iff_of_false nofun ?_
      rintro ⟨r, ⟨before, now, after, split, _⟩, _⟩
      simp at split
  | @snoc events m m' event before admitted taken ih =>
      simp only [isLatestReading_concat]
      cases event with
      | reading estimate now =>
          cases taken
          rw [(recordEnclaveMemory_memory m estimate now).1]
          simp
      | pollFailed =>
          cases taken
          simp [ResourceMetrics.clearEnclaveMemory]
      | collect =>
          cases taken
          simpa [ResourceMetrics.observeEnclaveMemory] using ih

theorem mem_fallback_iff (run : Run ResourceMetrics.step anyStep newResourceMetrics events m)
    (noWindow : m.memoryWindow = none) {gauge : MemoryGauge} {value : Int} :
    (gauge, value) ∈ m.observeEnclaveMemory.2 ↔
      ∃ r, IsLatestReading events r ∧ gauge.figure r ≠ 0 ∧
        saturatedBytes (gauge.figure r) = value := by
  unfold ResourceMetrics.observeEnclaveMemory
  rw [noWindow]
  constructor
  · intro member
    cases stored : m.memory with
    | none => simp [stored] at member
    | some snapshot =>
        rcases (memory_eq_some_iff run).mp stored with ⟨r, latest, rfl⟩
        simp only [stored] at member
        rw [mem_observed, memoryReading_value] at member
        rcases member with ⟨positive, rfl⟩
        exact ⟨r, latest, saturatedBytes_pos_iff.mp positive, rfl⟩
  · rintro ⟨r, latest, reported, rfl⟩
    have stored : m.memory = some (memoryReading r) :=
      (memory_eq_some_iff run).mpr ⟨r, latest, rfl⟩
    simp only [stored]
    rw [mem_observed, memoryReading_value]
    exact ⟨saturatedBytes_pos_iff.mpr reported, rfl⟩

theorem nodup_exported (m : ResourceMetrics) :
    (m.observeEnclaveMemory.2.map Prod.fst).Nodup := by
  unfold ResourceMetrics.observeEnclaveMemory
  dsimp only
  split
  · exact List.nodup_nil
  · exact nodup_observed _

end Events

/-- **Memory windows are exact.** A collection exports the extremes of the readings since the
previous collection; with no reading in between, the latest one if no poll failed after it. -/
theorem memory_windows_exact {events : List MemoryEvent} {m : ResourceMetrics}
    (run : Run ResourceMetrics.step anyStep newResourceMetrics events m) :
    let readings := (since MemoryEvent.isCollect events).filterMap MemoryEvent.estimate?
    let exported := m.observeEnclaveMemory.2
    (readings ≠ [] → ∀ gauge value,
      (gauge, value) ∈ exported ↔ MemoryGauge.Extreme gauge readings value) ∧
    (readings = [] → ∀ gauge value,
      (gauge, value) ∈ exported ↔ ∃ r, IsLatestReading events r ∧
        gauge.figure r ≠ 0 ∧ saturatedBytes (gauge.figure r) = value) ∧
    (exported.map Prod.fst).Nodup := by
  intro readings exported
  have window := memoryWindow_eq run
  rcases foldl_mergeEvent (since MemoryEvent.isCollect events) with
    ⟨empty, none_⟩ | ⟨snapshot, isWindow, summary⟩
  · rw [none_] at window
    refine ⟨fun some_ => absurd empty some_, fun _ gauge value => ?_, ?_⟩
    · rw [mem_fallback_iff run window]
    · exact nodup_exported m
  · rw [isWindow] at window
    have isExported : exported = snapshot.observed := by
      simp [exported, ResourceMetrics.observeEnclaveMemory, window]
    refine ⟨fun _ => ?_, fun empty => absurd empty summary.ne_nil, nodup_exported m⟩
    rw [isExported]
    exact summary.mem_observed_iff

namespace Sample

/-- A collection, two readings after it, and a failed poll. The last reading has no total and no
available memory, and the resident memory of the one before it exceeds an `int64`. -/
def memoryEvents : List MemoryEvent :=
  [.reading ⟨10, 50, 1024, 400, 60, 1, 0, 0⟩ 0, .collect,
    .reading ⟨20, 1125899906842624, 1024, 300, 70, 2, 0, 0⟩ 1,
    .reading ⟨15, 40, 0, 0, 80, 3, 0, 0⟩ 2, .pollFailed]

def windowReadings : List MemoryEstimateResponse :=
  [⟨20, 1125899906842624, 1024, 300, 70, 2, 0, 0⟩, ⟨15, 40, 0, 0, 80, 3, 0, 0⟩]

end Sample

theorem memory_windows_exact_two_readings :
    ∃ m, Run ResourceMetrics.step anyStep newResourceMetrics Sample.memoryEvents m ∧
      MemoryGauge.Extreme .totalMemory Sample.windowReadings (1024 * 2 ^ 20) ∧
      MemoryGauge.Extreme .processRSSMemory Sample.windowReadings (2 ^ 63 - 1) ∧
      MemoryGauge.Extreme .availableMemory Sample.windowReadings (300 * 2 ^ 20) := by
  have found : ∃ m, Run ResourceMetrics.step anyStep newResourceMetrics Sample.memoryEvents m ∧
      ((.totalMemory, 1024 * 2 ^ 20) ∈ m.observeEnclaveMemory.2 ∧
        (.processRSSMemory, 2 ^ 63 - 1) ∈ m.observeEnclaveMemory.2 ∧
        (.availableMemory, 300 * 2 ^ 20) ∈ m.observeEnclaveMemory.2) :=
    Run.exists_of_exec (by decide +kernel)
  have readings : (since MemoryEvent.isCollect Sample.memoryEvents).filterMap
      MemoryEvent.estimate? = Sample.windowReadings := by
    decide +kernel
  rcases found with ⟨m, run, total, processRSS, available⟩
  have exact_ := (memory_windows_exact run).1
  rw [readings] at exact_
  have exported := exact_ (by decide)
  exact ⟨m, run, (exported _ _).mp total, (exported _ _).mp processRSS,
    (exported _ _).mp available⟩

end ConfidentialCompute
