import Exokernel.Gate
import Exokernel.Kernel

/-!
# Domains

User code that drives one environment of a kernel, with a limited number of calls.
-/

namespace Exokernel

/-- A kernel, the environment that is driven, and how many calls it may still make. -/
structure Domain where
  kernel : Kernel
  id : EnvId
  budget : Nat

namespace Domain

/-- Makes a call as the environment.  Without budget the call is refused before it reaches the
kernel; an environment that cannot run, or that the call destroys, gets the answer for a bad
environment. -/
def call (number : Syscall) (args : Args) : StateM Domain Int64 := fun d =>
  match d.budget with
  | 0 => (ErrorCode.invalidArgument.word, d)
  | budget + 1 =>
    match d.kernel.run d.id with
    | .error _ => (ErrorCode.badEnvironment.word, { d with budget })
    | .ok kernel =>
      let (word, kernel) := kernel.syscall (UInt64.ofNat number.number) args
      (word.getD ErrorCode.badEnvironment.word, { d with kernel, budget })

/-- The last message of the environment, or none if it is gone. -/
def inbox (d : Domain) : Delivery := ((d.kernel.env? d.id).map (·.mailbox.delivery)).getD .none

def gate : Gate Domain := ⟨call, inbox⟩

/-- Sends a value, and a page if there is one.  The budget bounds the tries. -/
def send (target : EnvId) (value : UInt32) (page : Option PagePayload) :
    StateM Domain (Except ErrorCode Unit) := do
  let d ← get
  gate.send d.budget target value page

def recv (dst : Option (Word × Word)) : StateM Domain (Except ErrorCode Delivery) := gate.recv dst

end Domain

end Exokernel
