import Exokernel.Region.Basic

/-!
# Fresh pages

Mapping fresh pages over a range.  Frames and leaf tables are counted before the first page is
mapped.
-/

namespace Exokernel.Space

def allocatePage (req : AllocRequest) (p : VirtPage) : SpaceM Unit := fun ⟨memory, table⟩ =>
  if req.lazy then place p ⟨.lazy req.fill, req.rights.flags⟩ ⟨memory, table⟩
  else
    match memory.fresh? req.fill with
    | none => .error .noMemory ⟨memory, table⟩
    | some (pa, memory) => place p ⟨.frame pa, req.rights.flags⟩ ⟨memory, table⟩

def allocatePages (req : AllocRequest) : List VirtPage → SpaceM Unit
  | [] => pure ()
  | p :: rest => do
    allocatePage req p
    allocatePages req rest

/-- The number of frames that mapping fresh pages over a range takes. -/
def allocationNeed (table : PageTable) (r : PageRange) (req : AllocRequest) : Nat :=
  (if req.lazy then 0 else r.count) + table.missingTables r

/-- Maps fresh pages over a range, in the place of whatever was there. -/
def allocateRegion (r : PageRange) (req : AllocRequest) : SpaceM Unit := do
  let s ← get
  if s.hasFrames (allocationNeed s.table r req) then
    allocatePages req r.toList
    modify fun s => s.note .trace "mm"
      s!"alloc {Text.hexAddress r.start}+{r.count} pages lazy={req.lazy} flavor={req.fill.name}"
  else throw .noMemory

end Exokernel.Space
