import Exokernel.Mapping.PageTable
import Exokernel.Mapping.Rights
import Exokernel.Memory.Memory

/-!
# Regions

The steps from which requests on whole ranges are made: giving a page its frame, putting an entry in
place, and taking one away.  They change the memory of the machine and one address space.  A step
that fails leaves the changes of the steps before it; the requests on ranges therefore see to it
that no step can fail. -/

namespace Exokernel

/-- The memory of the machine and the page table of one address space. -/
structure Space where
  memory : Memory
  table : PageTable

/-- A request on an address space.  Changes outlast a failure. -/
abbrev SpaceM := EStateM RegionError Space

namespace Space

def note (s : Space) (level : LogLevel) (target text : String) : Space :=
  { s with memory := s.memory.note level target text }

def hasFrames (s : Space) (frames : Nat) : Bool := frames ≤ s.memory.machine.freeFrames

/-- Puts an entry in place and releases the one that it replaces.  The caller has counted the new
mapping; without memory for a leaf table it is released again. -/
def place (p : VirtPage) (e : PageEntry) : SpaceM Unit := fun ⟨⟨machine, refs⟩, table⟩ =>
  match table.insert machine p e with
  | some (none, table, machine) => .ok () ⟨⟨machine, refs⟩, table⟩
  | some (some old, table, machine) => .ok () ⟨Memory.release ⟨machine, refs⟩ old.backing, table⟩
  | none => .error .noMemory ⟨Memory.release ⟨machine, refs⟩ e.backing, table⟩

/-- Gives a page a frame if it has none yet, and returns the physical address of the page. -/
def populate (p : VirtPage) : SpaceM PhysAddr := fun ⟨memory, table⟩ =>
  match table.lookup p with
  | none => .error .notMapped ⟨memory, table⟩
  | some ⟨.frame pa, _⟩ => .ok pa ⟨memory, table⟩
  | some ⟨.device pa, _⟩ => .ok pa ⟨memory, table⟩
  | some ⟨.lazy fill, _⟩ =>
    match memory.fresh? fill with
    | none => .error .noMemory ⟨memory, table⟩
    | some (pa, memory) =>
      .ok pa ⟨memory.note .trace "mm"
          s!"materialised {Text.hexAddress p.start} at {Text.hexAddress pa.raw}",
        table.modify p fun e => { e with backing := .frame pa }⟩

def populateAll : List VirtPage → SpaceM Unit
  | [] => pure ()
  | p :: rest => do
    let _ ← populate p
    populateAll rest

/-- Unmaps a page and releases what it was mapped to. -/
def unmapPage (s : Space) (p : VirtPage) : Space :=
  match s with
  | ⟨⟨machine, refs⟩, table⟩ =>
    match table.remove machine p with
    | (none, table, machine) => ⟨⟨machine, refs⟩, table⟩
    | (some old, table, machine) => ⟨Memory.release ⟨machine, refs⟩ old.backing, table⟩

def unmapRegion (s : Space) (r : PageRange) : Space := r.toList.foldl unmapPage s

def unmapAll (s : Space) : Space := (s.table.mappings.map Prod.fst).foldl unmapPage s

/-- The number of mappings of what a page is mapped to; a hole has none. -/
def pageRefs (memory : Memory) (table : PageTable) (p : VirtPage) : Nat :=
  match table.lookup p with
  | none => 0
  | some e => memory.sharers e.backing

/-- The largest number of mappings that a page of the range has. -/
def maxRefs (memory : Memory) (table : PageTable) (r : PageRange) : Nat :=
  r.toList.foldl (fun most p => max most (pageRefs memory table p)) 0

/-- Resolves a fault: a page that has no frame yet is given one, if the access is allowed at all. -/
def resolveFault (p : VirtPage) (write : Bool) : SpaceM PhysAddr := fun s =>
  match s.table.lookup p with
  | some e => if e.permits write then populate p s else .error .fault s
  | none => .error .fault s

end Space

end Exokernel
