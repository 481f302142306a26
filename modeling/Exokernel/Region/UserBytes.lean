import Exokernel.Region.Basic

/-!
# Bytes of user memory

Reading and writing the bytes of an address space through its page table.  Pages without a frame are
given one when they are touched.
-/

namespace Exokernel.Space

def readSpan (span : Span) : SpaceM (List UInt8) := do
  let pa ← populate span.page
  let s ← get
  match s.memory.machine.frame? pa with
  | some frame => pure (frame.read span.offset span.length)
  | none => throw .fault

/-- Reads spans one after the other; `done` holds what was read before, latest first. -/
def readSpans (done : List (List UInt8)) : List Span → SpaceM (List UInt8)
  | [] => pure done.reverse.flatten
  | span :: rest => do
    let bytes ← readSpan span
    readSpans (bytes :: done) rest

/-- Reads `length` bytes from `start` on, all of which user code may read. -/
def readBytes (start length : Nat) : SpaceM (List UInt8) := do
  let s ← get
  match ByteRange.of? start length with
  | none => throw .fault
  | some r => if s.table.permits r false then readSpans [] r.spans else throw .fault

def writeSpan (span : Span) (bytes : List UInt8) : SpaceM Unit := do
  let pa ← populate span.page
  let s ← get
  match s.memory.machine.frame? pa with
  | some _ => modify fun ⟨⟨machine, refs⟩, table⟩ =>
      ⟨⟨machine.update pa (·.write span.offset bytes.toArray), refs⟩, table⟩
  | none => throw .fault

def writeSpans : List Span → List UInt8 → SpaceM Unit
  | [], _ => pure ()
  | span :: rest, bytes => do
    writeSpan span (bytes.take span.length)
    writeSpans rest (bytes.drop span.length)

/-- Writes bytes from `start` on, all of which user code may write. -/
def writeBytes (start : Nat) (bytes : List UInt8) : SpaceM Unit := do
  let s ← get
  match ByteRange.of? start bytes.length with
  | none => throw .fault
  | some r => if s.table.permits r true then writeSpans r.spans bytes else throw .fault

end Exokernel.Space
