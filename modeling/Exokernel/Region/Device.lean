import Exokernel.Region.Basic

/-!
# Device pages

Mapping the pages of a device window over a range that is not mapped yet.
-/

namespace Exokernel.Space

/-- Why device pages cannot be mapped: they are not inside one device window, a page of the range is
mapped, or there are too few frames for leaf tables. -/
def deviceFault? (s : Space) (r : PageRange) (pa : PhysAddr) : Option RegionError :=
  if !s.memory.machine.pool.isDeviceRange pa (r.count * pageSize) then some .notDevice
  else if !s.table.isVacant r then some .occupied
  else if !s.hasFrames (s.table.missingTables r) then some .noMemory
  else none

def devicePages (flags : PageFlags) : PhysAddr → List VirtPage → SpaceM Unit
  | _, [] => pure ()
  | pa, p :: rest => do
    place p ⟨.device pa, flags⟩
    devicePages flags (pa.advance 1) rest

/-- Maps the device pages from `pa` on over a range.  An empty range asks for nothing. -/
def mapDeviceRegion (r : PageRange) (pa : PhysAddr) (rights : MapRights) : SpaceM Unit := do
  let s ← get
  if r.isEmpty then pure ()
  else
    match s.deviceFault? r pa with
    | some e => throw e
    | none => devicePages rights.flags pa r.toList

end Exokernel.Space
