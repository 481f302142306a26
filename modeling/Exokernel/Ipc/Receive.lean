import Exokernel.Realm

/-!
# Waiting for a message

A receiver says what it waits for and is suspended until a message comes.
-/

namespace Exokernel

namespace RecvRequest

/-- Decodes a request.  An address at or above the ceiling declines a page.  Below it the address
has to lie on a page boundary, and the size has to be a positive number of pages. -/
def decode (dst maxSize : Word) : Except IpcError RecvRequest :=
  if maxUserAddress ≤ dst.toNat then .ok ⟨none, 0⟩
  else
    match VirtAddr.aligned? dst with
    | none => .error .invalidArgs
    | some va =>
      if maxSize = 0 || !isPageAligned maxSize.toNat then .error .invalidArgs
      else .ok ⟨some va.page, maxSize⟩

def dstText (r : RecvRequest) : String :=
  match r.dst with
  | none => "None"
  | some p => s!"Some(VirtAddr({p.start}))"

def text (r : RecvRequest) : String :=
  s!"RecvArgs \x7b dstva: {r.dstText}, maxsz: {r.maxSize.toNat} \x7d"

end RecvRequest

namespace Realm

/-- The environment in a slot waits for a message, with zero as the result of its call. -/
def receive (index : Nat) (request : RecvRequest) : EStateM IpcError Realm Unit := fun s =>
  match s.registry.env? index with
  | none => .error (.env .badEnvironment) s
  | some env =>
    let s := s.modifyEnv index fun env => { env with
      mailbox := { env.mailbox with waiting := some request }
      status := .notRunnable
      frame := env.frame.setResult 0 }
    .ok () (s.note .trace "ipc"
      s!"[{env.id.text}] recv dstva={request.dstText} maxsz={Text.hexAddress request.maxSize.toNat}")

end Realm

end Exokernel
