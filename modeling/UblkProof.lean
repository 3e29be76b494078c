import UblkProof.CircularBuffer
import UblkProof.Runs
import UblkProof.LittleEndian
import UblkProof.ByteMemory
import UblkProof.Ledger
import UblkProof.Leases
import UblkProof.Slices
import UblkProof.Linearization
import UblkProof.Ring
import UblkProof.SubmissionQueue
import UblkProof.SubmissionCalls
import UblkProof.SubmissionFifo
import UblkProof.StrandedEntries
import UblkProof.CompletionQueue
import UblkProof.ConsumerMachine
import UblkProof.Cancellation
import UblkProof.CompletionDelivery
import UblkProof.Commands
import UblkProof.ControlCommand
import UblkProof.ControlMatching
import UblkProof.DeviceConfig
import UblkProof.HandleIO
import UblkProof.DeviceGeometry
import UblkProof.ReadContract
import UblkProof.WorkerMachine
import UblkProof.BufferPool
import UblkProof.SlotLayout
import UblkProof.WorkerFlow
import UblkProof.WorkerSimulation
import UblkProof.WorkerTurn
import UblkProof.TagConservation
import UblkProof.WorkerLog
import UblkProof.RequestMatching
import UblkProof.WorkerExit
import UblkProof.BoundedDrain
import UblkProof.QueueArming
import UblkProof.BlockArray
import UblkProof.RequestPlaces
import UblkProof.DataPlane
import UblkProof.DeviceLifecycle
import UblkProof.DeviceResources
import UblkProof.RingsMachine
import UblkProof.RingRelease
import UblkProof.ControlDiscipline
import UblkProof.TeardownMachine
import UblkProof.TeardownOrder
import UblkProof.TeardownWorker
import UblkProof.ShutdownEnds
import UblkProof.AnyBackend
import UblkProof.PlainBackend
import UblkProof.FaultyBackend
import UblkProof.BoundedResponse
import UblkProof.RingLeaks
import UblkProof.RaceFreedom
import UblkProof.Once
import UblkProof.CloseOnce
import UblkProof.Commutation
import UblkProof.OrderIndependence
import UblkProof.Sessions
import UblkProof.ChainedDevices
import UblkProof.ControlLine
import UblkProof.Attempts
import UblkProof.NewVerdict
