import Exokernel.Env.Basic
import Exokernel.Failure

/-!
# The registry

A fixed number of slots for environments.  A slot counts its occupants: the count, its generation,
is part of their identifiers, so the identifier of a former occupant names nobody.  The registry
also answers who may act on whom: an environment may act on itself and on its descendants. -/

namespace Exokernel

/-- A slot of the registry: how often it was taken, and who is in it. -/
structure Slot where
  generation : Nat
  env : Option Env

/-- The environments and the slot of the current one. -/
structure Registry where
  slots : Array Slot
  current : Option Nat

namespace Registry

def ofCapacity (capacity : Nat) : Registry := ⟨Array.replicate capacity ⟨0, none⟩, none⟩

def capacity (r : Registry) : Nat := r.slots.size

def env? (r : Registry) (index : Nat) : Option Env := r.slots[index]?.bind Slot.env

def live (r : Registry) : Nat := r.slots.toList.countP (·.env.isSome)

def modify (r : Registry) (index : Nat) (f : Env → Env) : Registry :=
  { r with slots := r.slots.modify index fun s => { s with env := s.env.map f } }

/-- The generation after a given one.  After the largest comes the first again; zero is never
taken. -/
def nextGeneration (generation : Nat) : Nat :=
  if maxGeneration ≤ generation then 1 else generation + 1

def freeSlot? (r : Registry) : Option Nat := r.slots.findIdx? (·.env.isNone)

def occupy (parent : Option EnvId) (kind : EnvKind) (status : EnvStatus) (index : Nat)
    (s : Slot) : Slot :=
  ⟨nextGeneration s.generation,
    some (.fresh (.ofParts index (nextGeneration s.generation)) parent kind status)⟩

/-- Creates an environment in the lowest free slot. -/
def allocate (r : Registry) (parent : Option EnvId) (kind : EnvKind) (status : EnvStatus) :
    Except EnvError (Nat × Registry) :=
  match r.freeSlot? with
  | none => .error .noFreeEnvironment
  | some index =>
    .ok (index, { r with slots := r.slots.modify index (occupy parent kind status index) })

def lookup (r : Registry) (id : EnvId) : Option Nat :=
  match r.env? id.index with
  | none => none
  | some env => if env.id = id then some id.index else none

/-- The parent of the environment that has exactly this identifier. -/
def parentOf (r : Registry) (id : EnvId) : Option EnvId :=
  (r.lookup id).bind fun index => (r.env? index).bind Env.parent

/-- Is `ancestor` met within so many steps up the chain of parents that starts at `start`? -/
def chainMeets (r : Registry) (ancestor : EnvId) : Nat → Option EnvId → Bool
  | 0, _ => false
  | _ + 1, none => false
  | steps + 1, some id => id == ancestor || chainMeets r ancestor steps (r.parentOf id)

/-- Is the environment in a slot an ancestor of `target`?  No chain of parents is longer than the
registry, so a longer one is a cycle. -/
def isAncestor (r : Registry) (requester : Nat) (target : Env) : Bool :=
  match r.env? requester with
  | none => false
  | some env => r.chainMeets env.id r.capacity target.parent

/-- The slot that `id` names for the environment in the slot `requester`.  With `check`, it has to
be that environment itself or one of its descendants. -/
def resolve (r : Registry) (id : EnvId) (requester : Nat) (check : Bool) : Except EnvError Nat :=
  match if id.isSelf then some requester else r.lookup id with
  | none => .error .badEnvironment
  | some index =>
    match r.env? index with
    | none => .error .badEnvironment
    | some target =>
      if target.status = .dying then .error .badEnvironment
      else if check && index != requester && !r.isAncestor requester target then
        .error .badEnvironment
      else .ok index

/-- Takes the environment out of a slot.  The slot keeps its generation. -/
def take? (r : Registry) (index : Nat) : Option (Env × Registry) :=
  match r.env? index with
  | none => none
  | some env =>
    some (env,
      { slots := r.slots.modify index fun s => { s with env := none },
        current := if r.current = some index then none else r.current })

/-- Makes the environment in a slot the current one; with a free slot or none there is no current
environment. -/
def setCurrent (r : Registry) (index : Option Nat) : Registry :=
  { r with current := index.filter fun i => (r.env? i).isSome }

def currentEnv? (r : Registry) : Option Env := r.current.bind r.env?

theorem env?_modify (r : Registry) (index i : Nat) (f : Env → Env) :
    (r.modify index f).env? i = if index = i then (r.env? i).map f else r.env? i := by
  simp only [env?, modify, Array.getElem?_modify]
  split
  · cases r.slots[i]? <;> rfl
  · rfl

theorem index_of_lookup {r : Registry} {id : EnvId} {index : Nat} (h : r.lookup id = some index) :
    index = id.index ∧ ∃ env, r.env? index = some env ∧ env.id = id := by
  unfold lookup at h
  split at h
  · cases h
  · next env henv =>
    split at h
    · next hid => cases h; exact ⟨rfl, env, henv, hid⟩
    · cases h

end Registry

end Exokernel
