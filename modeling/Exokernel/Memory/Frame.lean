import Exokernel.Layout

/-!
# Frames

The bytes of one page of physical memory, and reading and writing a part of them.  Main statement:
`getElem_write`, which says what is there after a write.
-/

namespace Exokernel

abbrev Frame := Vector UInt8 pageSize

/-- What a fresh page is filled with. -/
inductive Fill where
  | zero
  | one
deriving DecidableEq, Inhabited

namespace Frame

def zeros : Frame := Vector.replicate pageSize 0

def ones : Frame := Vector.replicate pageSize 255

def read (f : Frame) (offset length : Nat) : List UInt8 :=
  (f.toArray.extract offset (offset + length)).toList

/-- The page with `bytes` laid over it at `offset`; what would pass its end is lost. -/
def write (f : Frame) (offset : Nat) (bytes : Array UInt8) : Frame :=
  Vector.ofFn fun i => if offset ≤ i.val then bytes.getD (i.val - offset) f[i] else f[i]

theorem getElem_write (f : Frame) (offset : Nat) (bytes : Array UInt8) (i : Nat)
    (h : i < pageSize) :
    (f.write offset bytes)[i] =
      if offset ≤ i then bytes.getD (i - offset) f[i] else f[i] := by
  simp [write]

theorem getElem?_read (f : Frame) {offset length i : Nat} (h : i < length)
    (bound : offset + length ≤ pageSize) :
    (f.read offset length)[i]? = f[offset + i]? := by
  simp only [read, Array.getElem?_toList, Array.getElem?_extract, Vector.size_toArray]
  rw [if_pos (by omega)]
  simp

theorem length_read (f : Frame) {offset length : Nat} (bound : offset + length ≤ pageSize) :
    (f.read offset length).length = length := by
  simp only [read, Array.length_toList, Array.size_extract, Vector.size_toArray]
  omega

end Frame

namespace Fill

def byte : Fill → UInt8
  | zero => 0x00
  | one => 0xff

def frame : Fill → Frame
  | zero => Frame.zeros
  | one => Frame.ones

def name : Fill → String
  | zero => "Zero"
  | one => "One"

theorem frame_eq_replicate (fill : Fill) : fill.frame = Vector.replicate pageSize fill.byte := by
  cases fill <;> rfl

end Fill

end Exokernel
