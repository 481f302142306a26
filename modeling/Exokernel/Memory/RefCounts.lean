import Exokernel.Address
import Std.Data.TreeMap

/-!
# Reference counts

How many mappings refer to each frame.  Frames that no mapping refers to are not listed, so the
number of listed frames is the number of frames in use by mappings.
-/

namespace Exokernel

/-- The frames that mappings refer to, each with the number of its mappings. -/
structure RefCounts where
  counts : Std.TreeMap Nat Nat

namespace RefCounts

def empty : RefCounts := ⟨∅⟩

def count (r : RefCounts) (pa : PhysAddr) : Nat := r.counts.getD pa.raw 0

/-- The number of frames that some mapping refers to. -/
def liveFrames (r : RefCounts) : Nat := r.counts.size

def set (r : RefCounts) (pa : PhysAddr) (n : Nat) : RefCounts := ⟨r.counts.insert pa.raw n⟩

def retain (r : RefCounts) (pa : PhysAddr) : RefCounts := r.set pa (r.count pa + 1)

def erase (r : RefCounts) (pa : PhysAddr) : RefCounts := ⟨r.counts.erase pa.raw⟩

@[simp]
theorem count_empty (pa : PhysAddr) : empty.count pa = 0 := by
  simp [empty, count]

theorem count_set (r : RefCounts) (pa other : PhysAddr) (n : Nat) :
    (r.set pa n).count other = if pa = other then n else r.count other := by
  simp only [set, count, Std.TreeMap.getD_insert, Nat.compare_eq_eq, PhysAddr.ext_iff]

theorem count_erase (r : RefCounts) (pa other : PhysAddr) :
    (r.erase pa).count other = if pa = other then 0 else r.count other := by
  simp only [erase, count, Std.TreeMap.getD_erase, Nat.compare_eq_eq, PhysAddr.ext_iff]

theorem count_retain (r : RefCounts) (pa other : PhysAddr) :
    (r.retain pa).count other = r.count other + if pa = other then 1 else 0 := by
  rw [retain, count_set]
  split
  · next h => rw [h]
  · rw [Nat.add_zero]

end RefCounts

end Exokernel
