import LowLatency.Net.Descriptors
import LowLatency.Net.ClientThreads
import LowLatency.Net.EndOfStream
import LowLatency.Net.Independence
import LowLatency.Net.Dialogue
import LowLatency.Net.SocketOwners
import LowLatency.Net.Shutdown
import LowLatency.Net.ClientDescriptors
import LowLatency.Net.ReactorAccept
import LowLatency.Net.PollBuffer
import LowLatency.Net.SocketOptions
import LowLatency.Net.PollTimeout
import LowLatency.Mpmc.CoarseGrainedProgress
import LowLatency.Mpmc.CoarseGrainedExceptions
import LowLatency.Mpmc.FineGrainedExceptions
import LowLatency.Mpmc.LockingDiscipline
import LowLatency.Mpmc.FineGrainedDriver
import LowLatency.Spsc.AcquireRelease
import LowLatency.Spsc.CounterOverflow
import LowLatency.Spsc.CounterLinearizable
import LowLatency.Spsc.SerialRuns
import LowLatency.Spsc.LockedRingFifo
import LowLatency.Spsc.ModuloLinearizable
import LowLatency.Spsc.SlotExclusion
import LowLatency.Counters.Benchmark
import LowLatency.Dispatch.CompiledCRTP
import LowLatency.Dispatch.CompiledVirtual
import LowLatency.Mpmc.CoarseGrainedLinearizable
import LowLatency.Mpmc.CoarseGrainedTermination
import LowLatency.Mpmc.FineGrainedTermination
import LowLatency.Spsc.MainRings
import LowLatency.Spsc.LockedRingMain
import LowLatency.Net.StopReturns
import LowLatency.Net.ReactorStopReturns
import LowLatency.Net.ClientProgram
import LowLatency.Net.ServerRaces
import LowLatency.Net.Experiment
import LowLatency.Net.ExperimentCompletes
import LowLatency.FalseSharing.Threads
