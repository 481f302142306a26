/-!
# The kernel lock

Exclusive access to a value, with a count of how often it was taken.
-/

namespace Exokernel

/-- A value, whether it is held, and how often it was taken. -/
structure Lock (α : Type) where
  value : α
  held : Bool
  entries : Nat
deriving DecidableEq, Inhabited

namespace Lock

variable {α : Type}

def ofValue (value : α) : Lock α := ⟨value, false, 0⟩

def acquire? (l : Lock α) : Option (Lock α) :=
  if l.held then none else some { l with held := true, entries := l.entries + 1 }

def release (l : Lock α) : Lock α := { l with held := false }

def update (l : Lock α) (f : α → α) : Lock α := { l with value := f l.value }

/-- Changes the value with the lock held; none if it is held already. -/
def run? (l : Lock α) (f : α → α) : Option (Lock α) :=
  l.acquire?.map fun l => (l.update f).release

end Lock

end Exokernel
