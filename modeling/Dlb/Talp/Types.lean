import Dlb.Support.Types
import Mathlib.Data.Finset.Lattice.Fold
import Mathlib.Data.List.Range

/-!
# Monitors

The data of `talp_types.h` and `dlb_talp.h` that a monitoring region carries: the times, the counters and the
statistics of `dlb_monitor_t` and the private `monitor_data_t`. Times are nanoseconds without overflow.
-/

namespace Dlb.Talp

def maxLocalGpus : ℕ := 16

def maxNodeGpus : ℕ := 64

/-- `gpu_timers_t`. -/
structure GpuTimers where
  useful : ℤ := 0
  communication : ℤ := 0
deriving DecidableEq, Repr

/-- `hw_counters_t`. -/
structure HwCounters where
  cycles : ℤ := 0
  instructions : ℤ := 0
deriving DecidableEq, Repr

/-- `event_stats_t`. -/
structure EventStats where
  numMpiCalls : ℤ := 0
  numOmpParallels : ℤ := 0
  numOmpTasks : ℤ := 0
  numGpuRuntimeCalls : ℤ := 0
deriving DecidableEq, Repr

/-- The private `monitor_data_t`; a mask of GPUs is the set of its bits. -/
structure MonitorData where
  started : Bool := false
  enabled : Bool := true
  cpuMask : Finset ℕ := ∅
  gpuMask : Finset ℕ := ∅
  gpuTimers : ℕ → GpuTimers := fun _ => {}

/-- `dlb_monitor_t`. -/
structure Monitor where
  numCpus : ℕ := 0
  numOmpThreads : ℕ := 0
  numGpus : ℕ := 0
  counters : HwCounters := {}
  numMeasurements : ℕ := 0
  numResets : ℕ := 0
  stats : EventStats := {}
  startTime : ℤ := 0
  stopTime : ℤ := 0
  elapsedTime : ℤ := 0
  usefulTime : ℤ := 0
  mpiTime : ℤ := 0
  mpiWorkerIdleTime : ℤ := 0
  ompLoadImbalanceTime : ℤ := 0
  ompSchedulingTime : ℤ := 0
  ompSerializationTime : ℤ := 0
  gpuRuntimeTime : ℤ := 0
  gpuUsefulTime : ℤ := 0
  gpuCommunicationTime : ℤ := 0
  gpuInactiveTime : ℤ := 0
  data : MonitorData := {}

/-- The devices of a GPU mask, a `uint64_t`, as the loop over `gm_ctz` and `gm_clear_lsb` visits them. -/
def gpusOf (mask : Finset ℕ) : List ℕ := (List.range 64).filter (· ∈ mask)

theorem gpusOf_nodup (mask : Finset ℕ) : (gpusOf mask).Nodup := List.nodup_range.filter _

end Dlb.Talp
