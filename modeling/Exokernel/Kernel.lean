import Exokernel.Scheduler
import Exokernel.Service.Dispatch

/-!
# The kernel

The realm under its configuration and scheduler, and the events that reach it from outside: calls,
page faults, and the requests of whoever started it.
-/

namespace Exokernel

/-- The realm with what was fixed when it started. -/
structure Kernel where
  config : Config
  scheduler : Scheduler
  realm : Realm

/-- What became of a page fault. -/
inductive FaultOutcome where
  /-- The page was given a frame, and the access can be tried again. -/
  | resolved
  /-- Control went to the fault entry point of the environment. -/
  | upcall (entry : VirtAddr)
  /-- There was no entry point, and the environment was destroyed. -/
  | destroyed
deriving DecidableEq

namespace Kernel

/-- Starts a kernel on a machine, with the log filter of the configuration. -/
def boot (config : Config) (machine : Machine) (scheduler : Scheduler) :
    Except ConfigError Kernel :=
  match config.problem? with
  | some e => .error e
  | none =>
    let machine := { machine with log := { machine.log with filter := config.logFilter } }
    let machine := machine.note .info "boot" s!"axon: {config.maxEnvs} env slots"
    .ok ⟨config, scheduler, .ofMachine config.maxEnvs machine⟩

def registry (k : Kernel) : Registry := k.realm.registry

def current? (k : Kernel) : Option EnvId := k.registry.currentEnv?.map Env.id

def env? (k : Kernel) (id : EnvId) : Option Env := (k.registry.lookup id).bind k.registry.env?

def liveEnvs (k : Kernel) : Nat := k.registry.live

def liveFrames (k : Kernel) : Nat := k.realm.memory.refs.liveFrames

/-- Creates a runnable environment with an empty address space. -/
def createEnv (k : Kernel) (kind : EnvKind) (parent : Option EnvId) : Except EnvError (EnvId × Kernel) :=
  match k.registry.allocate parent kind .runnable with
  | .error e => .error e
  | .ok (index, registry) =>
    let realm := { k.realm with registry }
    let id := realm.idAt index
    let realm := if k.config.traceEnvs then
        realm.note .info "env" s!"[{(parent.getD .self).text}] new env {id.text}"
      else realm
    .ok (id, { k with realm })

def setCurrent (k : Kernel) (index : Option Nat) : Kernel :=
  { k with realm := { k.realm with registry := k.registry.setCurrent index } }

/-- Makes a runnable environment the current one. -/
def run (k : Kernel) (id : EnvId) : Except EnvError Kernel :=
  match k.registry.lookup id with
  | none => .error .badEnvironment
  | some index =>
    if k.registry.isRunnable index then .ok (k.setCurrent (some index)) else .error .badEnvironment

/-- Lets the scheduler pick the environment to run after the one in a slot. -/
def scheduleFrom (k : Kernel) (last : Option Nat) : Kernel :=
  k.setCurrent (k.scheduler k.registry last)

def schedule (k : Kernel) : Kernel := k.scheduleFrom k.registry.current

def outcomeText : Except SysError Word → String
  | .ok value => s!"Ok({value.toNat})"
  | .error e => s!"Err({e.text})"

def argsText (args : Args) : String :=
  "[" ++ ", ".intercalate (args.toList.map fun a => Text.hex a.toNat) ++ "]"

def callName (number : Word) : String :=
  match Syscall.ofNumber? number.toNat with
  | some call => call.name
  | none => "unknown"

/-- Records a call: all of them if that is configured, and refusals always. -/
def noteCall (s : Realm) (config : Config) (id : EnvId) (number : Word) (args : Args)
    (outcome : Except SysError Word) : Realm :=
  let head := s!"[{id.text}] {callName number}"
  let s := if config.traceSyscalls then
      s.note .trace "sys" s!"{head}({argsText args}) -> {outcomeText outcome}"
    else s
  match outcome with
  | .error e => if e.code?.isSome then s.note .debug "sys" s!"{head} rejected: {e.text}" else s
  | .ok _ => s

/-- Writes the result word back, if there is one, and takes the caller down if it is dying. -/
def settle (s : Realm) (config : Config) (caller : Nat) (id : EnvId) (word : Option Int64) :
    Realm :=
  let s := match word with
    | some w => s.modifyEnv caller fun env => { env with frame := env.frame.setResult w }
    | none => s
  if (s.registry.env? caller).any (·.status == .dying) then
    (s.endEnv caller (some id) config.traceEnvs).2
  else s

/-- Does the work of a call of the environment `env` in the slot `caller`.  Then the scheduler picks
the next environment if the caller gave up the processor or may not run on. -/
def serve (k : Kernel) (caller : Nat) (env : Env) : Option Int64 × Kernel :=
  let number := env.frame.callNumber
  let args := env.frame.callArgs
  let outcome := ServiceTable.standard.answer number ⟨caller, k.config⟩ args k.realm
  let word := resultWord? outcome.result
  let realm := noteCall outcome.realm k.config env.id number args outcome.result
  let k := { k with realm := settle realm k.config caller env.id word }
  (word, if outcome.yields || !k.registry.isRunnable caller then k.scheduleFrom (some caller) else k)

/-- Does the work of the call in the registers of the current environment.  The answer is the word
written back; none if there is no current environment or the call destroyed it. -/
def trap (k : Kernel) : Option Int64 × Kernel :=
  match k.registry.current with
  | none => (none, k)
  | some caller =>
    match k.registry.env? caller with
    | none => (none, k)
    | some env => k.serve caller env

/-- Loads a call into the registers of the current environment, and traps. -/
def syscall (k : Kernel) (number : Word) (args : Args) : Option Int64 × Kernel :=
  match k.registry.current with
  | none => (none, k)
  | some caller =>
    { k with realm := k.realm.modifyEnv caller fun env =>
      { env with frame := env.frame.loadCall number args } }.trap

def tryResolve (s : Realm) (index : Nat) (env : Env) (va : Word) (write : Bool) : Bool × Realm :=
  match VirtAddr.ofWord? va with
  | none => (false, s)
  | some at' =>
    match Realm.onSpace index env (Space.resolveFault at'.page write) s with
    | .ok _ s => (true, s)
    | .error _ s => (false, s)

/-- Handles a page fault of the current environment.  A fault that cannot be resolved goes to the
entry point of the environment, and destroys an environment without one. -/
def pageFault (k : Kernel) (va : Word) (write : Bool) : Option FaultOutcome × Kernel :=
  match k.registry.current with
  | none => (none, k)
  | some index =>
    match k.registry.env? index with
    | none => (none, k)
    | some env =>
      match tryResolve k.realm index env va write with
      | (true, realm) => (some .resolved, { k with realm })
      | (false, realm) =>
        match env.upcall with
        | some entry =>
          (some (.upcall entry), { k with realm := realm.modifyEnv index fun env =>
            { env with frame := env.frame.redirect (UInt64.ofNat entry.raw) va } })
        | none =>
          let realm := realm.note .warn "env"
            s!"[{env.id.text}] user fault va {Text.hexAddress va.toNat} write={write}"
          let realm := (realm.endEnv index (some env.id) k.config.traceEnvs).2
          (some .destroyed, { k with realm }.scheduleFrom (some index))

def onSpace {α : Type} (k : Kernel) (id : EnvId) (x : SpaceM α) : Except SysError α × Kernel :=
  match k.registry.lookup id with
  | none => (.error (.env .badEnvironment), k)
  | some index =>
    match k.registry.env? index with
    | none => (.error (.env .badEnvironment), k)
    | some env =>
      match Realm.onSpace index env x k.realm with
      | .ok a realm => (.ok a, { k with realm })
      | .error e realm => (.error (.region e), { k with realm })

def readUser (k : Kernel) (id : EnvId) (va : Word) (length : Nat) :
    Except SysError (List UInt8) × Kernel :=
  k.onSpace id (Space.readBytes va.toNat length)

/-- Writes to the memory of an environment, as far as it may do so itself. -/
def writeUser (k : Kernel) (id : EnvId) (va : Word) (bytes : List UInt8) :
    Except SysError Unit × Kernel :=
  k.onSpace id (Space.writeBytes va.toNat bytes)

def lookup (k : Kernel) (id : EnvId) (va : Word) : Option PageEntry := do
  let env ← k.env? id
  let at' ← VirtAddr.ofWord? va
  env.table.lookup at'.page

/-- The number of mappings of the page at an address of an environment; a hole has none. -/
def pageRefs (k : Kernel) (id : EnvId) (va : Word) : Option Nat := do
  let env ← k.env? id
  let at' ← VirtAddr.ofWord? va
  pure (Space.pageRefs k.realm.memory env.table at'.page)

end Kernel

end Exokernel
