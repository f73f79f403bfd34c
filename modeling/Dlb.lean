import Dlb.Support.FairShare
import Dlb.Support.MaskRanges
import Dlb.Support.CircularQueueSpec
import Dlb.LewiAsync.Owner
import Dlb.LewiAsync.Cleanup
import Dlb.Mngo.Redistribute
import Dlb.Mngo.Overshoot
import Dlb.Mngo.Metrics
import Dlb.Mngo.StateLoad
import Dlb.Cpuinfo.Named
import Dlb.Cpuinfo.Waking
import Dlb.Cpuinfo.GiveBack
import Dlb.Cpuinfo.Repeated
import Dlb.Cpuinfo.NumberOrder
import Dlb.Cpuinfo.SparseCores
import Dlb.Kernel.Spd
import Dlb.Kernel.Agreement
import Dlb.Talp.Grouping
import Dlb.Talp.LocalRegions
import Dlb.Talp.ThreadCreation
import Dlb.Async.HelperTable
import Dlb.Barrier.Cleanup
import Dlb.Barrier.Episodes
import Dlb.Barrier.Membership
import Dlb.Async.Messages
import Dlb.Shmem.Names
import Dlb.Mngo.Agreement
import Dlb.Mngo.Shutdown
import Dlb.Lewi.Interleaved
import Dlb.Omptm.RoleShift
import Dlb.Omptm.Callbacks
import Dlb.Omptm.FreeAgentBindings
import Dlb.Omptm.Omp5
import Dlb.LewiMask.Priority
import Dlb.LewiMask.LostCpus
import Dlb.Talp.GpuActivities
import Dlb.Shmem.FileNames
import Dlb.Talp.OutputNames
import Dlb.Talp.Sanitize
import Dlb.Talp.GpuTime
import Dlb.Support.MaskWords
import Dlb.Mngo.ActiveRegions
import Dlb.Mngo.RegionTable
