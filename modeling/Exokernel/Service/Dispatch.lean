import Exokernel.Service.Console
import Exokernel.Service.Environments
import Exokernel.Service.Messages
import Exokernel.Service.Regions
import Exokernel.Syscall

/-!
# Dispatch

The table that assigns its service to every call.
-/

namespace Exokernel

/-- The service of each call, where there is one. -/
abbrev ServiceTable := Syscall → Option Service

namespace ServiceTable

def empty : ServiceTable := fun _ => none

/-- Every call has its service. -/
def standard : ServiceTable
  | .cputs => some Service.cputs
  | .cgetc => some Service.cgetc
  | .getEnvId => some Service.getEnvId
  | .envDestroy => some Service.envDestroy
  | .allocRegion => some Service.allocRegion
  | .mapRegion => some Service.mapRegion
  | .mapPhysicalRegion => some Service.mapPhysicalRegion
  | .unmapRegion => some Service.unmapRegion
  | .regionRefs => some Service.regionRefs
  | .exofork => some Service.exofork
  | .envSetStatus => some Service.envSetStatus
  | .envSetPgfaultUpcall => some Service.envSetPgfaultUpcall
  | .yield => some Service.yield
  | .ipcTrySend => some Service.ipcTrySend
  | .ipcRecv => some Service.ipcRecv

def dispatch (table : ServiceTable) (number : Word) : Service := fun caller args =>
  match (Syscall.ofNumber? number.toNat).bind table with
  | some service => service caller args
  | none => throw .invalidSyscall

/-- Does the work of the call with the given number, and says what it came to. -/
def answer (table : ServiceTable) (number : Word) (caller : Caller) (args : Args) (s : Realm) :
    Outcome :=
  match table.dispatch number caller args s with
  | .ok reply s => ⟨.ok reply.value, reply.yields, s⟩
  | .error e s => ⟨.error e, false, s⟩

end ServiceTable

end Exokernel
