import Exokernel.Env.Mailbox
import Exokernel.Env.TrapFrame
import Exokernel.ErrorCode
import Exokernel.Syscall

/-!
# The user side of messages

What user code builds on the two message calls: a send that is tried again until the receiver is
ready, and a receive that reads the mailbox.  Both work over any way into the kernel.
-/

namespace Exokernel

/-- A way into the kernel: how a call changes the state `σ` and what it answers, and what the
mailbox shows. -/
structure Gate (σ : Type) where
  call : Syscall → Args → StateM σ Int64
  inbox : σ → Delivery

/-- A page that user code sends along. -/
structure PagePayload where
  src : Word
  size : Word
  perm : Prot
deriving DecidableEq

namespace Gate

variable {σ : Type}

/-- The address that means "no page". -/
def noPage : Word := UInt64.ofNat maxUserAddress

def sendArgs (target : EnvId) (value : UInt32) (page : Option PagePayload) : Args :=
  let page := page.getD ⟨noPage, 0, .empty⟩
  ⟨target.toWord, value.toUInt64, page.src, page.size, page.perm.bits.toUInt64, 0⟩

def recvArgs (dst : Option (Word × Word)) : Args :=
  let (dst, maxSize) := dst.getD (noPage, 0)
  ⟨dst, maxSize, 0, 0, 0, 0⟩

/-- Makes a send again, with the processor given up before each new try, for as long as the receiver
is not ready.  It is made at most `retries` times again; then the last refusal stands. -/
def sendLoop (gate : Gate σ) (args : Args) : Nat → StateM σ (Except ErrorCode Unit)
  | 0 => do
    let word ← gate.call .ipcTrySend args
    pure ((ErrorCode.decode word).map fun _ => ())
  | retries + 1 => do
    let word ← gate.call .ipcTrySend args
    match ErrorCode.decode word with
    | .ok _ => pure (.ok ())
    | .error .ipcNotReceiving =>
      let _ ← gate.call .yield .zero
      sendLoop gate args retries
    | .error e => pure (.error e)

/-- How a send comes out that is made again without a limit: what it answers and the state that it
leaves.  It never does if the receiver is never ready. -/
inductive ComesOut (gate : Gate σ) (args : Args) : σ → Except ErrorCode Unit → σ → Prop where
  | accepted {s : σ} {n : Word} (h : ErrorCode.decode (gate.call .ipcTrySend args s).1 = .ok n) :
      ComesOut gate args s (.ok ()) (gate.call .ipcTrySend args s).2
  | refused {s : σ} {e : ErrorCode}
      (h : ErrorCode.decode (gate.call .ipcTrySend args s).1 = .error e)
      (hother : e ≠ .ipcNotReceiving) :
      ComesOut gate args s (.error e) (gate.call .ipcTrySend args s).2
  | again {s s' : σ} {result : Except ErrorCode Unit}
      (h : ErrorCode.decode (gate.call .ipcTrySend args s).1 = .error .ipcNotReceiving)
      (later : ComesOut gate args (gate.call .yield .zero (gate.call .ipcTrySend args s).2).2
        result s') :
      ComesOut gate args s result s'

def send (gate : Gate σ) (retries : Nat) (target : EnvId) (value : UInt32)
    (page : Option PagePayload) : StateM σ (Except ErrorCode Unit) :=
  gate.sendLoop (sendArgs target value page) retries

/-- Waits for a message, with a page of so many bytes at most if that is asked for, and returns what
the mailbox shows. -/
def recv (gate : Gate σ) (dst : Option (Word × Word)) : StateM σ (Except ErrorCode Delivery) := do
  let word ← gate.call .ipcRecv (recvArgs dst)
  match ErrorCode.decode word with
  | .error e => pure (.error e)
  | .ok _ =>
    let s ← get
    pure (.ok (gate.inbox s))

end Gate

end Exokernel
