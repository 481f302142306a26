import Exokernel.Env.Registry

/-!
# Scheduling

Which environment runs next.
-/

namespace Exokernel

/-- Picks the slot to run next, given the registry and the slot that ran last, if any did. -/
abbrev Scheduler := Registry → Option Nat → Option Nat

namespace Registry

/-- Is there an environment in this slot that may run? -/
def isRunnable (r : Registry) (index : Nat) : Bool := (r.env? index).any Env.isRunnable

/-- All slots in cyclic order, from the one after `last` on. -/
def cycleAfter (r : Registry) (last : Option Nat) : List Nat :=
  let start := match last with
    | some index => index + 1
    | none => 0
  (List.range r.capacity).map fun step => (start + step) % r.capacity

end Registry

namespace Scheduler

/-- The first runnable slot in cyclic order after the one that ran last, which has its turn again
when no other slot is runnable. -/
def roundRobin : Scheduler := fun r last => (r.cycleAfter last).find? r.isRunnable

def idle : Scheduler := fun _ _ => none

def highest : Scheduler := fun r _ => (List.range r.capacity).reverse.find? r.isRunnable

/-- Always the same slot, runnable or not. -/
def pinned (index : Nat) : Scheduler := fun _ _ => some index

theorem isRunnable_of_roundRobin {r : Registry} {last : Option Nat} {index : Nat}
    (h : roundRobin r last = some index) : r.isRunnable index = true :=
  List.find?_some h

end Scheduler

end Exokernel
