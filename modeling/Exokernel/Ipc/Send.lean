import Exokernel.Realm

/-!
# Sending a message

A message is delivered at once or not at all: its receiver has to be waiting.  A page comes with it
if the sender offers one and the receiver wants one.
-/

namespace Exokernel

/-- A page that a sender offers. -/
structure PageOffer where
  src : Word
  size : Word
  perm : UInt32
deriving DecidableEq

/-- A message as its sender puts it. -/
structure SendRequest where
  target : EnvId
  value : UInt32
  page : Option PageOffer
deriving DecidableEq

namespace SendRequest

/-- Decodes a request.  An address at or above the ceiling offers no page; any other is looked at
only when the receiver is known to be waiting. -/
def decode (target value src size perm : Word) : SendRequest :=
  ⟨.ofWord target, value.toUInt32,
    if src.toNat < maxUserAddress then some ⟨src, size, perm.toUInt32⟩ else none⟩

end SendRequest

namespace Realm

instance : MonadLift (EStateM EnvError Realm) (EStateM IpcError Realm) where
  monadLift x := EStateM.adaptExcept .env x

instance : MonadLift (EStateM RegionError Realm) (EStateM IpcError Realm) where
  monadLift x := EStateM.adaptExcept .region x

def pendingReceive (index : Nat) : EStateM IpcError Realm RecvRequest := fun s =>
  match (s.registry.env? index).bind (·.mailbox.waiting) with
  | some request => .ok request s
  | none => .error .notReceiving s

/-- Where the offered page starts, if one is offered. -/
def offeredPage (offer : Option PageOffer) : EStateM IpcError Realm (Option (PageOffer × VirtPage)) :=
  match offer with
  | none => pure none
  | some offer =>
    match VirtAddr.aligned? offer.src with
    | none => throw .invalidArgs
    | some va => pure (some (offer, va.page))

/-- Maps the offered page where the receiver wants it: the permission word and the number of bytes
that the receiver is told of. -/
def transferPage (sender receiver : Nat) (offer : Option (PageOffer × VirtPage))
    (request : RecvRequest) : EStateM IpcError Realm (Prot × Word) :=
  match offer, request.dst with
  | some (offer, src), some dst => do
    let rights ← match MapRights.forCopy offer.perm with
      | .ok rights => pure rights
      | .error e => throw (.region e)
    let source ← envAt sender
    let target ← envAt receiver
    shareRegion sender receiver source target (.one src) (.one dst) rights
    pure (Prot.truncate offer.perm, min offer.size request.maxSize)
  | _, _ => pure (.empty, 0)

/-- Puts a message into a mailbox: its owner is no longer waiting and may run. -/
def deliver (s : Realm) (receiver : Nat) (delivery : Delivery) : Realm :=
  s.modifyEnv receiver fun env => { env with mailbox := ⟨none, delivery⟩, status := .runnable }

/-- Delivers a message from the environment in the slot `sender`, and returns the slot of the
receiver. -/
def trySend (sender : Nat) (request : SendRequest) : EStateM IpcError Realm Nat := do
  let receiver ← (resolve request.target sender false : EStateM EnvError Realm Nat)
  let pending ← pendingReceive receiver
  let offer ← offeredPage request.page
  let (perm, size) ← transferPage sender receiver offer pending
  let source ← envAt sender
  let target ← envAt receiver
  modify fun s => (s.deliver receiver ⟨source.id, request.value, perm, size⟩).note .trace "ipc"
    s!"[{source.id.text}] send {request.value.toNat} -> {target.id.text} perm={perm.text}"
  pure receiver

end Realm

end Exokernel
