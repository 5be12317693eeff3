import ConfidentialCompute.Lib.Strings
import ConfidentialCompute.Lib.Text

/-!
# The CPU time of the guest

The enclave reads the ticks of the guest from `/proc/stat`, rounds them to seconds and reports the
seconds, and the host makes a utilization out of two reports. Busy and total time are rounded each
on its own, so in an interval the busy seconds can be one ahead of the total seconds; the host
allows for that one second.

A published sample is kept as the two numbers that are divided.
-/

namespace ConfidentialCompute

open Go

/-! ## The enclave -/

def maxUint64 : UInt64 := UInt64.ofNat (2 ^ 64 - 1)

/-- One more value, unless the sum overflows. -/
def addCPUTicks (total value : UInt64) : Option UInt64 :=
  if value > maxUint64 - total then none else some (total + value)

def sumCPUTicks (values : List UInt64) : Option UInt64 := values.foldlM addCPUTicks 0

def cpuStatFieldCount : Nat := 8

/-- The values of the aggregate line, which is the first that begins with `cpu` and a blank. -/
def cpuStatValues (stat : Bytes) : Option (List Nat) :=
  match (stat.splitOn newline).findSome? (cutPrefix (ascii "cpu ")) with
  | none => none
  | some rest =>
      if (fields rest).length < cpuStatFieldCount then none
      else ((fields rest).take cpuStatFieldCount).mapM (parseUint 64)

/-- Busy and total ticks. The fields after the eighth are part of the first two. -/
def parseGuestCPUTicks (stat : Bytes) : Option (UInt64 × UInt64) :=
  match (cpuStatValues stat).map (List.map UInt64.ofNat) with
  | some [user, nice, system, idle, ioWait, irq, softIRQ, steal] =>
      match sumCPUTicks [user, nice, system, irq, softIRQ] with
      | none => none
      | some busy =>
          match sumCPUTicks [busy, idle, ioWait, steal] with
          | none => none
          | some total => some (busy, total)
  | _ => none

def procStatClockTicksPerSecond : UInt64 := 100

def cpuTicksToSeconds (ticks : UInt64) : UInt64 :=
  let seconds := ticks / procStatClockTicksPerSecond
  if ticks % procStatClockTicksPerSecond ≥ procStatClockTicksPerSecond / 2 then seconds + 1
  else seconds

/-! ## The host -/

/-- The fields of `hostMetrics` that concern the guest. -/
structure GuestCPUMetrics where
  hasBaseline : Bool
  lastBusySeconds : UInt64
  lastTotalSeconds : UInt64
  /-- Busy and total seconds of the interval. -/
  sample : Option (UInt64 × UInt64)
deriving DecidableEq

def recordGuestCPUUtilization (m : GuestCPUMetrics) (busy total : UInt64) : GuestCPUMetrics :=
  if total = 0 ∨ busy > total then { m with hasBaseline := false, sample := none }
  else
    let previousBusy := m.lastBusySeconds
    let previousTotal := m.lastTotalSeconds
    let hadBaseline := m.hasBaseline
    let m := { m with lastBusySeconds := busy, lastTotalSeconds := total, hasBaseline := true }
    if hadBaseline = false ∨ busy < previousBusy ∨ total < previousTotal then
      { m with sample := none }
    else
      let totalDelta := total - previousTotal
      if totalDelta = 0 then m
      else
        let busyDelta := busy - previousBusy
        let busyDelta :=
          if busyDelta > totalDelta ∧ busyDelta - totalDelta = 1 then totalDelta else busyDelta
        if busyDelta > totalDelta then { m with sample := none }
        else { m with sample := some (busyDelta, totalDelta) }

/-! ## Sums and seconds -/

section

variable {b1 t1 b2 t2 : UInt64}

end

namespace Sample

end Sample

end ConfidentialCompute
