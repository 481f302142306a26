import Exokernel.Region.Basic

/-!
# Sharing pages

Mapping the pages of one range at another, in the same address space or in a second one.  All
reasons to refuse are looked for first; then the source pages are given frames, and then the target
pages are mapped to what backs them.
-/

namespace Exokernel

/-- The memory of the machine and the page tables of two address spaces. -/
structure SpacePair where
  memory : Memory
  source : PageTable
  target : PageTable

/-- A request on two address spaces.  Changes outlast a failure. -/
abbrev SpacePairM := EStateM RegionError SpacePair

namespace Space

/-- Why a source page cannot be shared with the given rights. -/
def sourceFault? (table : PageTable) (rights : MapRights) (p : VirtPage) : Option RegionError :=
  match table.lookup p with
  | none => some .notMapped
  | some e =>
    if !e.isUser then some .notMapped
    else if rights.write && !e.isWritable then some .permissionDenied
    else none

/-- The number of pages of a list that have no frame yet. -/
def lazyPages (table : PageTable) (pages : List VirtPage) : Nat :=
  pages.countP fun p => (table.lookup p).any (·.backing.isLazy)

/-- Why pages cannot be shared: the ranges differ in length, a source page cannot be shared, or
there are too few frames for the source pages without one and the leaf tables of the target. -/
def copyFault? (memory : Memory) (source target : PageTable) (src dst : PageRange)
    (rights : MapRights) : Option RegionError :=
  if src.count ≠ dst.count then some .outOfRange
  else
    match src.toList.findSome? (sourceFault? source rights) with
    | some e => some e
    | none =>
      if memory.machine.freeFrames < lazyPages source src.toList + target.missingTables dst then
        some .noMemory
      else none

/-- The flags of a page that is mapped to `backing`.  If that is asked for, and the page is mapped
to it already, the accesses that were allowed stay allowed. -/
def sharedFlags (rights : MapRights) (old : Option PageEntry) (backing : Backing) : PageFlags :=
  match old with
  | some e =>
    if rights.combine && e.backing = backing then rights.flags.union e.flags.access
    else rights.flags
  | none => rights.flags

def sharePage (rights : MapRights) (p : VirtPage) (backing : Backing) : SpaceM Unit :=
  fun ⟨memory, table⟩ =>
    place p ⟨backing, sharedFlags rights (table.lookup p) backing⟩ ⟨memory.retain backing, table⟩

def sharePages (rights : MapRights) : List (VirtPage × Backing) → SpaceM Unit
  | [] => pure ()
  | (p, backing) :: rest => do
    sharePage rights p backing
    sharePages rights rest

/-- What backs the mapped pages of a list. -/
def backings (table : PageTable) (pages : List VirtPage) : List Backing :=
  pages.filterMap fun p => (table.lookup p).map (·.backing)

def copyText (src dst : PageRange) : String :=
  s!"copy {Text.hexAddress src.start} -> {Text.hexAddress dst.start} ({dst.count} pages)"

/-- Maps the pages of `src` at `dst` in the same address space. -/
def copyWithin (src dst : PageRange) (rights : MapRights) : SpaceM Unit := do
  let s ← get
  match copyFault? s.memory s.table s.table src dst rights with
  | some e => throw e
  | none =>
    populateAll src.toList
    let s ← get
    sharePages rights (dst.toList.zip (backings s.table src.toList))
    modify fun s => s.note .trace "mm" (copyText src dst)

end Space

namespace SpacePair

def onSource {α : Type} (x : SpaceM α) : SpacePairM α := fun ⟨memory, source, target⟩ =>
  match x ⟨memory, source⟩ with
  | .ok a ⟨memory, source⟩ => .ok a ⟨memory, source, target⟩
  | .error e ⟨memory, source⟩ => .error e ⟨memory, source, target⟩

def onTarget {α : Type} (x : SpaceM α) : SpacePairM α := fun ⟨memory, source, target⟩ =>
  match x ⟨memory, target⟩ with
  | .ok a ⟨memory, target⟩ => .ok a ⟨memory, source, target⟩
  | .error e ⟨memory, target⟩ => .error e ⟨memory, source, target⟩

/-- Maps the pages of `src` in the source space at `dst` in the target space. -/
def copyAcross (src dst : PageRange) (rights : MapRights) : SpacePairM Unit := do
  let s ← get
  match Space.copyFault? s.memory s.source s.target src dst rights with
  | some e => throw e
  | none =>
    onSource (Space.populateAll src.toList)
    let s ← get
    onTarget (Space.sharePages rights (dst.toList.zip (Space.backings s.source src.toList)))
    modify fun s => { s with memory := s.memory.note .trace "mm" (Space.copyText src dst) }

end SpacePair

end Exokernel
