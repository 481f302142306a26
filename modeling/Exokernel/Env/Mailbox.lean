import Exokernel.Address
import Exokernel.EnvId
import Exokernel.Prot

/-!
# Mailboxes

The receiving side of messages.  A mailbox waits for one message at a time and keeps the last one
that was delivered.
-/

namespace Exokernel

/-- A message as the receiver sees it. -/
structure Delivery where
  sender : EnvId
  value : UInt32
  /-- The permission word of the page that came with the message. -/
  perm : Prot
  /-- The bytes that came with the message, no more than the receiver asked for. -/
  size : Word
deriving DecidableEq

/-- What a receiver waits for: a page at `dst`, unless it wants none, of at most `maxSize` bytes. -/
structure RecvRequest where
  dst : Option VirtPage
  maxSize : Word
deriving DecidableEq

/-- The receiving side of messages. -/
structure Mailbox where
  /-- What the receiver waits for, if it is waiting. -/
  waiting : Option RecvRequest
  delivery : Delivery
deriving DecidableEq

def Delivery.none : Delivery := ⟨.self, 0, .empty, 0⟩

namespace Mailbox

def fresh : Mailbox := ⟨none, .none⟩

def isReceiving (m : Mailbox) : Bool := m.waiting.isSome

def cancel (m : Mailbox) : Mailbox := { m with waiting := none }

end Mailbox

end Exokernel
