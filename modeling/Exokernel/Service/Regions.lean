import Exokernel.Region.Allocate
import Exokernel.Region.Device
import Exokernel.Service.Basic

/-!
# Calls about regions

Each of them decodes its arguments, checks that the caller may act on the environments that are
named, and only then changes an address space.
-/

namespace Exokernel.Service

def allocRegion : Service := fun caller args => do
  let range ← pageRange args.arg1 args.arg2
  let request ← decoded (AllocRequest.decode args.arg3.toUInt32)
  let index ← controlled caller args.arg0
  onSpace index (Space.allocateRegion range request)
  pure .done

def mapRegion : Service := fun caller args => do
  let src ← pageRange args.arg1 args.arg4
  let dst ← pageRange args.arg3 args.arg4
  let rights ← decoded (MapRights.forCopy args.arg5.toUInt32)
  let i ← controlled caller args.arg0
  let j ← controlled caller args.arg2
  let source ← envAt i
  let target ← envAt j
  Realm.shareRegion i j source target src dst rights
  pure .done

/-- Maps device pages.  Only a driver may have them. -/
def mapPhysicalRegion : Service := fun caller args => do
  let index ← controlled caller args.arg1
  let env ← envAt index
  if env.kind ≠ .driver then throw (.env .badEnvironment)
  match PhysAddr.aligned? args.arg0.toNat with
  | none => throw .invalidArgs
  | some pa =>
    let range ← pageRange args.arg2 args.arg3
    let rights ← decoded (MapRights.forDevice args.arg4.toUInt32)
    onSpace index (Space.mapDeviceRegion range pa rights)
    pure .done

def unmapRegion : Service := fun caller args => do
  let range ← pageRange args.arg1 args.arg2
  let index ← controlled caller args.arg0
  onSpace index (modify (·.unmapRegion range))
  pure .done

/-- How much more widely the first range is shared than the second, or how widely the first is
shared if the second starts at or above the ceiling. -/
def sharingExcess (memory : Memory) (table : PageTable) (args : Args) : Nat :=
  let most (r : Option PageRange) : Nat := (r.map (Space.maxRefs memory table)).getD 0
  most (PageRange.covering? args.arg0 args.arg1) - most (PageRange.covering? args.arg2 args.arg3)

/-- Compares how widely two ranges of the caller are shared. -/
def regionRefs : Service := fun caller args => do
  let env ← envAt caller.slot
  let s ← get
  pure (.word (UInt64.ofNat (sharingExcess s.memory env.table args)))

end Exokernel.Service
