import Exokernel.Layout

/-!
# Addresses

User addresses lie below the ceiling by their type, and so do the pages that hold them.  Physical
addresses are whatever the machine says they are.
-/

namespace Exokernel

/-- A page of user space, by its number. -/
abbrev VirtPage := Fin userPages

/-- A user address. -/
@[ext]
structure VirtAddr where
  raw : Nat
  raw_lt : raw < maxUserAddress
deriving DecidableEq

/-- A physical address. -/
@[ext]
structure PhysAddr where
  raw : Nat
deriving DecidableEq, Inhabited

namespace VirtPage

def start (p : VirtPage) : Nat := p.val * pageSize

end VirtPage

namespace VirtAddr

def ofWord? (addr : Word) : Option VirtAddr :=
  if h : addr.toNat < maxUserAddress then some ⟨addr.toNat, h⟩ else none

/-- A word as a user address on a page boundary. -/
def aligned? (addr : Word) : Option VirtAddr :=
  (ofWord? addr).filter fun va => isPageAligned va.raw

def page (va : VirtAddr) : VirtPage :=
  ⟨va.raw / pageSize, by
    have bound := va.raw_lt
    simp only [maxUserAddress, pageSize, userPages] at *
    omega⟩

def offset (va : VirtAddr) : Nat := pageOffset va.raw

def text (va : VirtAddr) : String := s!"VirtAddr({va.raw})"

theorem ofWord?_eq_some_iff {addr : Word} {va : VirtAddr} :
    ofWord? addr = some va ↔ va.raw = addr.toNat := by
  constructor
  · intro h
    unfold ofWord? at h
    split at h <;> cases h
    rfl
  · intro h
    have bound : addr.toNat < maxUserAddress := h ▸ va.raw_lt
    simp only [ofWord?, dif_pos bound, Option.some.injEq]
    exact VirtAddr.ext h.symm

end VirtAddr

namespace PhysAddr

/-- An address on a page boundary. -/
def aligned? (addr : Nat) : Option PhysAddr :=
  if isPageAligned addr then some ⟨addr⟩ else none

/-- The address some bytes further on, unless it would not fit a word. -/
def add? (pa : PhysAddr) (bytes : Nat) : Option PhysAddr :=
  if pa.raw + bytes < wordLimit then some ⟨pa.raw + bytes⟩ else none

def advance (pa : PhysAddr) (pages : Nat) : PhysAddr := ⟨pa.raw + pages * pageSize⟩

def text (pa : PhysAddr) : String := s!"PhysAddr({pa.raw})"

end PhysAddr

end Exokernel
