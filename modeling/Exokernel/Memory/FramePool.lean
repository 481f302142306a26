import Exokernel.Address
import Exokernel.Memory.Frame

/-!
# Frame pool

A fixed number of RAM frames, handed out one at a time, and windows of device pages beside them.
Windows never overlap RAM or one another.
-/

namespace Exokernel

/-- The physical address of the first RAM frame. -/
abbrev ramBase : Nat := 0x100000

/-- A RAM frame: its bytes, and whether it is handed out. -/
structure RamFrame where
  bytes : Frame
  inUse : Bool

/-- A run of device pages. -/
structure DeviceWindow where
  base : Nat
  pages : Array Frame

namespace DeviceWindow

def stop (w : DeviceWindow) : Nat := w.base + w.pages.size * pageSize

def contains (w : DeviceWindow) (addr : Nat) : Bool := w.base ≤ addr && addr < w.stop

end DeviceWindow

/-- RAM frames, the indices of those that are free, and device windows. -/
structure FramePool where
  ram : Array RamFrame
  free : List Nat
  windows : List DeviceWindow

namespace FramePool

def ramAddr (index : Nat) : PhysAddr := ⟨ramBase + index * pageSize⟩

/-- A pool of frames, all of them free, without device windows. -/
def ofFrames (frames : Nat) : FramePool :=
  ⟨Array.replicate frames ⟨Frame.zeros, false⟩, List.range frames, []⟩

def capacity (pool : FramePool) : Nat := pool.ram.size

def ramStop (pool : FramePool) : Nat := ramBase + pool.ram.size * pageSize

/-- Can a window of so many pages be put at `base`?  It has to lie on a page boundary, to hold a
page, to end below the word size, and to overlap neither RAM nor another window. -/
def admitsWindow (pool : FramePool) (base pages : Nat) : Bool :=
  let stop := base + pages * pageSize
  isPageAligned base && 0 < pages && stop < wordLimit &&
    !(base < pool.ramStop && ramBase < stop) &&
    !pool.windows.any fun w => base < w.stop && w.base < stop

/-- Adds a device window, unless it cannot be put there. -/
def withWindow (pool : FramePool) (base pages : Nat) : FramePool :=
  if pool.admitsWindow base pages then
    { pool with windows := pool.windows ++ [⟨base, Array.replicate pages Frame.zeros⟩] }
  else pool

def ramIndex? (pool : FramePool) (pa : PhysAddr) : Option Nat :=
  if ramBase ≤ pa.raw ∧ isPageAligned pa.raw ∧ (pa.raw - ramBase) / pageSize < pool.ram.size then
    some ((pa.raw - ramBase) / pageSize)
  else none

def devicePage? (pool : FramePool) (pa : PhysAddr) : Option Frame :=
  (pool.windows.find? (·.contains pa.raw)).bind fun w => w.pages[(pa.raw - w.base) / pageSize]?

/-- The bytes of the RAM frame or device page at an address. -/
def frame? (pool : FramePool) (pa : PhysAddr) : Option Frame :=
  match pool.ramIndex? pa with
  | some index => pool.ram[index]?.map RamFrame.bytes
  | none => if isPageAligned pa.raw then pool.devicePage? pa else none

/-- Changes the device page at an address in the first window that contains it. -/
def updateWindows (addr : Nat) (f : Frame → Frame) : List DeviceWindow → List DeviceWindow
  | [] => []
  | w :: rest =>
    if w.contains addr then
      { w with pages := w.pages.modify ((addr - w.base) / pageSize) f } :: rest
    else w :: updateWindows addr f rest

/-- Changes the bytes of the RAM frame or device page at an address. -/
def update (pool : FramePool) (pa : PhysAddr) (f : Frame → Frame) : FramePool :=
  match pool.ramIndex? pa with
  | some index => { pool with ram := pool.ram.modify index fun r => { r with bytes := f r.bytes } }
  | none =>
    if isPageAligned pa.raw then { pool with windows := updateWindows pa.raw f pool.windows }
    else pool

def mark (pool : FramePool) (index : Nat) (inUse : Bool) : FramePool :=
  { pool with ram := pool.ram.modify index fun r => { r with inUse } }

/-- Hands out the frame that was freed last, or the lowest of those never handed out. -/
def alloc? (pool : FramePool) : Option (PhysAddr × FramePool) :=
  match pool.free with
  | [] => none
  | index :: rest => some (ramAddr index, { pool with free := rest }.mark index true)

/-- Takes a frame back; none if no frame at this address is handed out. -/
def release? (pool : FramePool) (pa : PhysAddr) : Option FramePool :=
  match pool.ramIndex? pa with
  | none => none
  | some index =>
    if pool.ram[index]?.any (·.inUse) then
      some ({ pool with free := index :: pool.free }.mark index false)
    else none

def freeFrames (pool : FramePool) : Nat := pool.free.length

/-- Do these bytes lie inside one device window? -/
def isDeviceRange (pool : FramePool) (pa : PhysAddr) (bytes : Nat) : Bool :=
  pool.windows.any fun w => w.base ≤ pa.raw && pa.raw + bytes ≤ w.stop

@[simp]
theorem ramIndex?_ramAddr (pool : FramePool) (index : Nat) :
    pool.ramIndex? (ramAddr index) = if index < pool.ram.size then some index else none := by
  have aligned : isPageAligned (ramAddr index).raw = true := by
    simp only [isPageAligned_iff, ramAddr, ramBase, pageSize]
    omega
  have back : ((ramAddr index).raw - ramBase) / pageSize = index := by
    simp only [ramAddr, ramBase, pageSize]
    omega
  simp only [ramIndex?, back, aligned]
  simp [ramAddr]

theorem ramAddr_of_ramIndex? {pool : FramePool} {pa : PhysAddr} {index : Nat}
    (h : pool.ramIndex? pa = some index) : ramAddr index = pa ∧ index < pool.ram.size := by
  unfold ramIndex? at h
  split at h
  · next inRam =>
    cases h
    refine ⟨PhysAddr.ext ?_, inRam.2.2⟩
    have aligned := isPageAligned_iff.mp inRam.2.1
    have above := inRam.1
    simp only [ramAddr, ramBase, pageSize] at *
    omega
  · cases h

end FramePool

end Exokernel
