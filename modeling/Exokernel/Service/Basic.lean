import Exokernel.Config
import Exokernel.Realm

/-!
# Answering calls

What the service of a call is: it reads six argument words, changes the realm on behalf of the
caller, and answers with a word or refuses.
-/

namespace Exokernel

/-- The answer to a call. -/
structure Reply where
  value : Word
  /-- The caller gives up the processor. -/
  yields : Bool
deriving DecidableEq, Inhabited

/-- What a call came to: a value or a refusal, whether the caller gave up the processor, and the
realm afterwards. -/
structure Outcome where
  result : Except SysError Word
  yields : Bool
  realm : Realm

/-- The work of a call.  Changes outlast a refusal. -/
abbrev SysM := EStateM SysError Realm

/-- Who calls, in which slot and under which configuration. -/
structure Caller where
  slot : Nat
  config : Config

abbrev Service := Caller → Args → SysM Reply

namespace Reply

def word (value : Word) : Reply := ⟨value, false⟩

def done : Reply := ⟨0, false⟩

def pause : Reply := ⟨0, true⟩

end Reply

namespace Service

instance : MonadLift (EStateM EnvError Realm) SysM where
  monadLift x := EStateM.adaptExcept .env x

instance : MonadLift (EStateM RegionError Realm) SysM where
  monadLift x := EStateM.adaptExcept .region x

instance : MonadLift (EStateM IpcError Realm) SysM where
  monadLift x := EStateM.adaptExcept .ipc x

def pageRange (va len : Word) : SysM PageRange :=
  match PageRange.ofWords? va len with
  | some r => pure r
  | none => throw .invalidArgs

def decoded {α : Type} (result : Except RegionError α) : SysM α :=
  match result with
  | .ok a => pure a
  | .error e => throw (.region e)

/-- The slot of the environment that an argument names, if the caller may act on it. -/
def controlled (caller : Caller) (arg : Word) : SysM Nat :=
  Realm.resolve (.ofWord arg) caller.slot true

def envAt (index : Nat) : SysM Env := Realm.envAt index

def onSpace {α : Type} (index : Nat) (x : SpaceM α) : SysM α := do
  let env ← envAt index
  Realm.onSpace index env x

end Service

end Exokernel
