import Exokernel.Domain
import Exokernel.Lock
import Exokernel.Proofs.Kernel.Confinement
import Exokernel.Proofs.Kernel.Provenance
import Exokernel.Proofs.Env.Outlines
import Exokernel.Proofs.Service.Deeds
import Exokernel.Proofs.Kernel.Atomicity
import Exokernel.Proofs.Kernel.Histories
import Exokernel.Proofs.Kernel.Rendezvous
import Exokernel.Proofs.Kernel.Wakeups
import Exokernel.Proofs.Kernel.Control
import Exokernel.Proofs.Kernel.Answers
import Exokernel.Proofs.Region.Reading
import Exokernel.Proofs.Ipc.Record
import Exokernel.Proofs.Ipc.Verdict
import Exokernel.Proofs.Kernel.Printing
import Exokernel.Proofs.Region.FreshPages
import Exokernel.Proofs.Region.TwoSpaces
import Exokernel.Proofs.Region.Writing
import Exokernel.Proofs.Kernel.Faults
import Exokernel.Proofs.Env.Resolution
import Exokernel.Proofs.Region.Landing
import Exokernel.Proofs.Kernel.Transcript
import Exokernel.Proofs.Ipc.Retrying
import Exokernel.Proofs.Kernel.Turns
import Exokernel.Proofs.Kernel.Sharing
import Exokernel.Proofs.Region.DevicePages
import Exokernel.Proofs.Mapping.Ranges
import Exokernel.Proofs.Mapping.FlatMap
import Exokernel.Proofs.Memory.Lending
