import Exokernel.Mapping.Entry
import Exokernel.Memory.Machine
import Exokernel.Memory.RefCounts

/-!
# Counted memory

The machine together with the reference counts of its frames.  Frames are shared between address
spaces by their counts alone: a frame goes back to the machine when its last mapping is released.
-/

namespace Exokernel

/-- The machine and the reference counts of its frames. -/
structure Memory where
  machine : Machine
  refs : RefCounts

namespace Memory

/-- A machine none of whose frames is mapped. -/
def ofMachine (machine : Machine) : Memory := ⟨machine, .empty⟩

def note (m : Memory) (level : LogLevel) (target text : String) : Memory :=
  { m with machine := m.machine.note level target text }

/-- Takes a frame, fills it and counts its first mapping.  None if there is no free frame, or if the
bytes of the next one are out of reach: that frame stays where it is. -/
def fresh? (m : Memory) (fill : Fill) : Option (PhysAddr × Memory) :=
  match m.machine.alloc? with
  | none => none
  | some (pa, machine) =>
    match machine.frame? pa with
    | none => none
    | some _ => some (pa, ⟨machine.update pa fun _ => fill.frame, m.refs.set pa 1⟩)

def retain (m : Memory) : Backing → Memory
  | .frame pa => { m with refs := m.refs.retain pa }
  | _ => m

/-- Counts one mapping less.  A frame goes back to the machine with its last mapping; a frame that
is not counted is left alone, with a warning. -/
def release (m : Memory) : Backing → Memory
  | .frame pa =>
    match m.refs.count pa with
    | 0 => m.note .warn "mm" s!"release of untracked frame {Text.hexAddress pa.raw}"
    | 1 => ⟨m.machine.free pa, m.refs.erase pa⟩
    | n + 2 => { m with refs := m.refs.set pa (n + 1) }
  | _ => m

/-- The number of mappings of what backs a page.  A device page and a page without a frame belong to
one mapping each. -/
def sharers (m : Memory) : Backing → Nat
  | .frame pa => m.refs.count pa
  | _ => 1

end Memory

end Exokernel
