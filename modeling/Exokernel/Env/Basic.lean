import Exokernel.Env.Mailbox
import Exokernel.Env.TrapFrame
import Exokernel.Mapping.PageTable

/-!
# Environments

One protection domain: its identity, its address space, its registers and its mailbox.
-/

namespace Exokernel

/-- Where an environment stands. -/
inductive EnvStatus where
  | free
  | dying
  | runnable
  /-- The environment is suspended: just forked, or waiting for a message. -/
  | notRunnable
deriving DecidableEq, Inhabited

namespace EnvStatus

def ofNumber? : Nat → Option EnvStatus
  | 0 => some free
  | 1 => some dying
  | 2 => some runnable
  | 3 => some notRunnable
  | _ => none

def name : EnvStatus → String
  | free => "Free"
  | dying => "Dying"
  | runnable => "Runnable"
  | notRunnable => "NotRunnable"

end EnvStatus

/-- What an environment is allowed to be. -/
inductive EnvKind where
  | user
  /-- May map device windows. -/
  | driver
deriving DecidableEq, Inhabited

def EnvKind.name : EnvKind → String
  | user => "User"
  | driver => "Driver"

/-- One protection domain. -/
structure Env where
  id : EnvId
  parent : Option EnvId
  status : EnvStatus
  kind : EnvKind
  table : PageTable
  frame : TrapFrame
  mailbox : Mailbox
  /-- The entry point for page faults. -/
  upcall : Option VirtAddr

namespace Env

def fresh (id : EnvId) (parent : Option EnvId) (kind : EnvKind) (status : EnvStatus) : Env :=
  ⟨id, parent, status, kind, .empty, .zero, .fresh, none⟩

def isRunnable (e : Env) : Bool := e.status == .runnable

end Env

end Exokernel
