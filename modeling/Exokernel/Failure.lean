import Exokernel.ErrorCode

/-!
# Failures

The causes for which the registry, the mapping of regions, the exchange of messages and the calls
themselves refuse a request, each with its text and the code that user code sees.
-/

namespace Exokernel

/-- Refusals of the registry. -/
inductive EnvError where
  /-- Unknown, stale, dying or unauthorised identifier. -/
  | badEnvironment
  | noFreeEnvironment
deriving DecidableEq, Inhabited

/-- Refusals of a request to map, unmap or reach memory. -/
inductive RegionError where
  /-- The two ranges differ in length. -/
  | outOfRange
  /-- The permission word has bits that are not accepted here. -/
  | badPermission
  | notMapped
  /-- Write access is asked for on a page that is read-only at the source. -/
  | permissionDenied
  | occupied
  | noMemory
  /-- The physical range is not inside a device window. -/
  | notDevice
  /-- The memory is not mapped with the rights that the access needs. -/
  | fault
deriving DecidableEq, Inhabited

/-- Refusals of a message. -/
inductive IpcError where
  | notReceiving
  /-- An address or a size is misaligned. -/
  | invalidArgs
  | env (e : EnvError)
  | region (e : RegionError)
deriving DecidableEq, Inhabited

/-- Refusals of a call. -/
inductive SysError where
  /-- No call has this number. -/
  | invalidSyscall
  /-- An argument could not be decoded. -/
  | invalidArgs
  | env (e : EnvError)
  | region (e : RegionError)
  | ipc (e : IpcError)
  /-- The caller was destroyed: nothing is written back to it. -/
  | envExit
deriving DecidableEq, Inhabited

namespace EnvError

def text : EnvError → String
  | badEnvironment => "BadEnvironment"
  | noFreeEnvironment => "NoFreeEnvironment"

/-- What user code sees of a refusal. -/
def code : EnvError → ErrorCode
  | badEnvironment => .badEnvironment
  | noFreeEnvironment => .noFreeEnvironment

end EnvError

namespace RegionError

def text : RegionError → String
  | outOfRange => "OutOfRange"
  | badPermission => "BadPermission"
  | notMapped => "NotMapped"
  | permissionDenied => "PermissionDenied"
  | occupied => "Occupied"
  | noMemory => "NoMemory"
  | notDevice => "NotDevice"
  | fault => "Fault"

/-- A missing frame and a missing device are both a want of memory to user code. -/
def code : RegionError → ErrorCode
  | noMemory | notDevice => .noMemory
  | outOfRange | badPermission | notMapped | permissionDenied | occupied | fault => .invalidArgument

end RegionError

namespace IpcError

def text : IpcError → String
  | notReceiving => "NotReceiving"
  | invalidArgs => "InvalidArgs"
  | env e => s!"Env({e.text})"
  | region e => s!"Region({e.text})"

/-- What user code sees of a refusal. -/
def code : IpcError → ErrorCode
  | notReceiving => .ipcNotReceiving
  | invalidArgs => .invalidArgument
  | env e => e.code
  | region e => e.code

end IpcError

namespace SysError

def text : SysError → String
  | invalidSyscall => "InvalidSyscall"
  | invalidArgs => "InvalidArgs"
  | env e => s!"Env({e.text})"
  | region e => s!"Region({e.text})"
  | ipc e => s!"Ipc({e.text})"
  | envExit => "EnvExit"

def code? : SysError → Option ErrorCode
  | invalidSyscall => some .noSuchSyscall
  | invalidArgs => some .invalidArgument
  | env e => some e.code
  | region e => some e.code
  | ipc e => some e.code
  | envExit => none

theorem code?_eq_none_iff {e : SysError} : e.code? = none ↔ e = envExit := by
  cases e <;> simp [code?]

end SysError

/-- The word that the outcome of a call writes back, if it writes one. -/
def resultWord? : Except SysError Word → Option Int64
  | .ok value => some value.toInt64
  | .error e => e.code?.map ErrorCode.word

end Exokernel
