import Exokernel.Service.Basic

/-!
# Calls about environments
-/

namespace Exokernel.Service

def getEnvId : Service := fun caller _ => do
  let s ← get
  pure (.word (s.idAt caller.slot).toWord)

/-- Destroys an environment.  A caller that destroys itself is only marked: it is taken down when
its call ends. -/
def envDestroy : Service := fun caller args => do
  let index ← controlled caller args.arg0
  let s ← get
  let me := s.idAt caller.slot
  if index = caller.slot then
    let s := if caller.config.traceEnvs then
        s.note .info "env" s!"[{me.text}] exiting gracefully"
      else s
    set (s.modifyEnv index fun env => { env with status := .dying })
    throw .envExit
  else
    let s := if caller.config.traceEnvs then
        s.note .info "env" s!"[{me.text}] destroying {(s.idAt index).text}"
      else s
    set (s.endEnv index (some me) caller.config.traceEnvs).2
    pure .done

/-- Creates a suspended child with the registers of the caller, except that its call answers
zero. -/
def exofork : Service := fun caller _ => do
  let env ← envAt caller.slot
  let s ← get
  match s.registry.allocate (some env.id) .user .notRunnable with
  | .error e => throw (.env e)
  | .ok (child, registry) =>
    let s := { s with registry }.modifyEnv child fun e => { e with frame := env.frame.setResult 0 }
    let id := s.idAt child
    set (if caller.config.traceEnvs then
        s.note .info "env" s!"[{env.id.text}] new env {id.text}"
      else s)
    pure (.word id.toWord)

def settableStatus? (arg : Word) : Option EnvStatus :=
  match EnvStatus.ofNumber? arg.toNat with
  | some .runnable => some .runnable
  | some .notRunnable => some .notRunnable
  | _ => none

/-- Gives an environment a status.  One that is made runnable no longer waits for a message. -/
def withStatus (status : EnvStatus) (env : Env) : Env :=
  { env with
    status
    mailbox := if status = .runnable then env.mailbox.cancel else env.mailbox }

/-- Makes an environment runnable or suspends it.  A caller that suspends itself gives up the
processor. -/
def envSetStatus : Service := fun caller args => do
  let index ← controlled caller args.arg0
  match settableStatus? args.arg1 with
  | none => throw .invalidArgs
  | some status =>
    modify fun s => s.modifyEnv index (withStatus status)
    pure (if index = caller.slot && status != .runnable then .pause else .done)

/-- Sets the entry point for page faults; zero takes it away. -/
def envSetPgfaultUpcall : Service := fun caller args => do
  let index ← controlled caller args.arg0
  if args.arg1 = 0 then
    modify fun s => s.modifyEnv index fun env => { env with upcall := none }
    pure .done
  else
    match VirtAddr.ofWord? args.arg1 with
    | none => throw .invalidArgs
    | some entry =>
      modify fun s => s.modifyEnv index fun env => { env with upcall := some entry }
      pure .done

def yield : Service := fun _ _ => pure .pause

end Exokernel.Service
