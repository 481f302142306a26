import Exokernel.Address
import Exokernel.Mapping.PageFlags
import Exokernel.Memory.Frame

/-!
# Page-table entries

What a page of user space is mapped to.
-/

namespace Exokernel

/-- What a page is mapped to. -/
inductive Backing where
  /-- A RAM frame, which is counted. -/
  | frame (pa : PhysAddr)
  /-- A device page, which is neither counted nor given back. -/
  | device (pa : PhysAddr)
  /-- Nothing yet: a frame is taken and filled on the first touch. -/
  | lazy (fill : Fill)
deriving DecidableEq

namespace Backing

def phys? : Backing → Option PhysAddr
  | frame pa => some pa
  | device pa => some pa
  | lazy _ => none

def isLazy : Backing → Bool
  | lazy _ => true
  | _ => false

def text : Backing → String
  | frame pa => s!"Frame({pa.text})"
  | device pa => s!"Device({pa.text})"
  | lazy fill => s!"Lazy({fill.name})"

end Backing

/-- The entry of a mapped page. -/
@[ext]
structure PageEntry where
  backing : Backing
  flags : PageFlags
deriving DecidableEq

namespace PageEntry

def isWritable (e : PageEntry) : Bool := e.flags.write

/-- May user code reach the page at all? -/
def isUser (e : PageEntry) : Bool := e.flags.valid && e.flags.user

/-- Is the page to stay shared when the space is duplicated? -/
def isShared (e : PageEntry) : Bool := e.flags.shared

/-- May user code reach the page, for writing if `write` is set? -/
def permits (e : PageEntry) (write : Bool) : Bool := e.isUser && (!write || e.isWritable)

def text (e : PageEntry) : String :=
  s!"Pte \x7b backing: {e.backing.text}, flags: {e.flags.text} \x7d"

end PageEntry

end Exokernel
