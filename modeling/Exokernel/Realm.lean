import Exokernel.Console
import Exokernel.Env.Registry
import Exokernel.Region.Copy

/-!
# The state of the realm

Everything that a call can change: the environments, the memory they share and the console.  The
module also says how a request on an address space acts on the environment that owns it, and how
environments end.
-/

namespace Exokernel

/-- The environments, the memory and the console. -/
structure Realm where
  registry : Registry
  memory : Memory
  console : Console

namespace Realm

def ofMachine (capacity : Nat) (machine : Machine) : Realm :=
  ⟨.ofCapacity capacity, .ofMachine machine, .empty⟩

def note (s : Realm) (level : LogLevel) (target text : String) : Realm :=
  { s with memory := s.memory.note level target text }

def modifyEnv (s : Realm) (index : Nat) (f : Env → Env) : Realm :=
  { s with registry := s.registry.modify index f }

def idAt (s : Realm) (index : Nat) : EnvId := ((s.registry.env? index).map Env.id).getD .self

def envAt (index : Nat) : EStateM EnvError Realm Env := fun s =>
  match s.registry.env? index with
  | some env => .ok env s
  | none => .error .badEnvironment s

def resolve (id : EnvId) (requester : Nat) (check : Bool) : EStateM EnvError Realm Nat := fun s =>
  match s.registry.resolve id requester check with
  | .ok index => .ok index s
  | .error e => .error e s

def setTable (s : Realm) (index : Nat) (table : PageTable) : Realm :=
  s.modifyEnv index fun env => { env with table }

/-- Runs a request on the address space of an environment in a slot. -/
def onSpace {α : Type} (index : Nat) (env : Env) (x : SpaceM α) : EStateM RegionError Realm α :=
  fun s =>
    match x ⟨s.memory, env.table⟩ with
    | .ok a ⟨memory, table⟩ => .ok a ({ s with memory }.setTable index table)
    | .error e ⟨memory, table⟩ => .error e ({ s with memory }.setTable index table)

/-- Maps the pages of a range of one environment at a range of another, or of the same one. -/
def shareRegion (i j : Nat) (source target : Env) (src dst : PageRange)
    (rights : MapRights) : EStateM RegionError Realm Unit :=
  if i = j then onSpace i source (Space.copyWithin src dst rights)
  else fun s =>
    match SpacePair.copyAcross src dst rights ⟨s.memory, source.table, target.table⟩ with
    | .ok () ⟨memory, source, target⟩ =>
      .ok () (({ s with memory }.setTable i source).setTable j target)
    | .error e ⟨memory, source, target⟩ =>
      .error e (({ s with memory }.setTable i source).setTable j target)

/-- Ends the environment in a slot: its address space is taken down and its slot is free.  `actor`
is whoever asked for it. -/
def endEnv (s : Realm) (index : Nat) (actor : Option EnvId) (trace : Bool) :
    Option EnvId × Realm :=
  match s.registry.take? index with
  | none => (none, s)
  | some (env, registry) =>
    let memory := (Space.unmapAll ⟨s.memory, env.table⟩).memory
    let s := { s with registry, memory }
    (some env.id,
      if trace then
        s.note .info "env" s!"[{(actor.getD .self).text}] free env {env.id.text}"
      else s)

end Realm

end Exokernel
