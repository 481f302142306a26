import Exokernel.Prot

/-!
# Page flags

The flags of a page-table entry.
-/

namespace Exokernel

/-- The flags of a page-table entry. -/
@[ext]
structure PageFlags where
  valid : Bool
  read : Bool
  write : Bool
  execute : Bool
  user : Bool
  /-- Keep the page shared, and do not copy it, when the space is duplicated. -/
  shared : Bool
deriving DecidableEq, Inhabited

namespace PageFlags

def none : PageFlags := ⟨false, false, false, false, false, false⟩

/-- The flags as a number, `valid` lowest. -/
def bits (f : PageFlags) : Nat :=
  f.valid.toNat + 2 * f.read.toNat + 4 * f.write.toNat + 8 * f.execute.toNat + 16 * f.user.toNat +
    32 * f.shared.toNat

def ofBits (n : Nat) : PageFlags :=
  ⟨n.testBit 0, n.testBit 1, n.testBit 2, n.testBit 3, n.testBit 4, n.testBit 5⟩

def access (f : PageFlags) : PageFlags :=
  { none with read := f.read, write := f.write, execute := f.execute }

def union (f g : PageFlags) : PageFlags :=
  ⟨f.valid || g.valid, f.read || g.read, f.write || g.write, f.execute || g.execute,
    f.user || g.user, f.shared || g.shared⟩

def text (f : PageFlags) : String :=
  let named := [(f.valid, "VALID"), (f.read, "READ"), (f.write, "WRITE"), (f.execute, "EXECUTE"),
    (f.user, "USER"), (f.shared, "SHARED")]
  Text.bitSet "PageFlags" ((named.filter Prod.fst).map Prod.snd)

end PageFlags

end Exokernel
