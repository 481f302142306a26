import Exokernel.Ipc.Receive
import Exokernel.Ipc.Send
import Exokernel.Service.Basic

/-!
# Calls about messages
-/

namespace Exokernel.Service

def ipcTrySend : Service := fun caller args => do
  let request := SendRequest.decode args.arg0 args.arg1 args.arg2 args.arg3 args.arg4
  let _ ← (Realm.trySend caller.slot request : EStateM IpcError Realm Nat)
  pure .done

def ipcRecv : Service := fun caller args => do
  match RecvRequest.decode args.arg0 args.arg1 with
  | .error e => throw (.ipc e)
  | .ok request =>
    Realm.receive caller.slot request
    pure .pause

end Exokernel.Service
