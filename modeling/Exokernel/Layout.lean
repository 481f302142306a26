/-!
# Address-space layout

Machine words, the page size and the ceiling of user space.  Addresses are compared and added as
natural numbers, so that a sum past the word size is seen and never wraps around.
-/

namespace Exokernel

/-- A machine word, as it stands in a register. -/
abbrev Word := UInt64

abbrev wordLimit : Nat := 18446744073709551616

/-- Bytes in a page. -/
abbrev pageSize : Nat := 4096

/-- The first address that no user domain may hold.  Several calls take an address at or above it
to mean "no page". -/
abbrev maxUserAddress : Nat := 0x80000000

abbrev userPages : Nat := 524288

def pageOffset (addr : Nat) : Nat := addr % pageSize

def isPageAligned (addr : Nat) : Bool := pageOffset addr == 0

/-- The boundary of the page that holds an address. -/
def pageFloor (addr : Nat) : Nat := addr / pageSize * pageSize

/-- The number of pages that `bytes` bytes from a boundary reach into. -/
def pagesCovering (bytes : Nat) : Nat := (bytes + (pageSize - 1)) / pageSize

/-- The next page boundary, unless rounding would pass the word size. -/
def pageCeil? (addr : Nat) : Option Nat :=
  if addr + (pageSize - 1) < wordLimit then some (pagesCovering addr * pageSize) else none

theorem isPageAligned_iff {addr : Nat} : isPageAligned addr = true ↔ addr % pageSize = 0 := by
  simp [isPageAligned, pageOffset]

end Exokernel
