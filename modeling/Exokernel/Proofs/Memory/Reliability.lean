import Exokernel.Proofs.Memory.Ledger

/-! # Machines that keep their word

A machine that has as many frames as it claims, and reaches all of them.  As long as it claims free
frames it can hand them out, so frames that were counted beforehand are there when they are
needed. -/

namespace Exokernel

/-! ## What the machine does -/

/-- A property of the machine that handing out frames, taking them back and changing bytes keep, and
that does not depend on the log. -/
structure Machine.Lasting (P : Machine → Prop) : Prop where
  alloc : ∀ m pa m', m.alloc? = some (pa, m') → P m → P m'
  free : ∀ m pa, P m → P (m.free pa)
  update : ∀ m pa f, P m → P (m.update pa f)
  relog : ∀ m log, P m → P { m with log }

namespace Machine.Lasting

variable {P : Machine → Prop} (hP : Machine.Lasting P) {m : Memory}

include hP

theorem fresh? {m' : Memory} {fill : Fill} {pa : PhysAddr} (h : m.fresh? fill = some (pa, m'))
    (hm : P m.machine) : P m'.machine := by
  obtain ⟨machine, halloc, rfl⟩ := Memory.fresh?_eq_some h
  exact hP.update _ _ _ (hP.alloc _ _ _ halloc hm)

theorem release (hm : P m.machine) (b : Backing) : P (m.release b).machine := by
  rw [Memory.release.eq_def]
  split
  · split
    · exact hP.relog _ _ hm
    · exact hP.free _ _ hm
    · exact hm
  · exact hm

end Machine.Lasting

/-! ## Reliable machines -/

namespace Machine

variable {m : Machine}

/-- The machine claims the frames that its pool has, and reaches them all. -/
structure Reliable (m : Machine) : Prop where
  overclaim_eq : m.overclaim = 0
  hidden_eq : m.hidden = []
  free_lt : ∀ index ∈ m.pool.free, index < m.pool.ram.size

theorem Reliable.freeFrames_eq (h : m.Reliable) : m.freeFrames = m.pool.free.length := by
  rw [freeFrames, h.overclaim_eq]
  rfl

theorem Reliable.alloc (h : m.Reliable) {pa : PhysAddr} {m' : Machine}
    (halloc : m.alloc? = some (pa, m')) :
    m'.Reliable ∧ m'.freeFrames + 1 = m.freeFrames ∧ (m'.frame? pa).isSome = true := by
  obtain ⟨⟨pa', pool⟩, hpool, heq⟩ := Option.map_eq_some_iff.mp halloc
  cases heq
  rw [FramePool.alloc?] at hpool
  split at hpool
  · cases hpool
  · next index rest hfree =>
    cases hpool
    have hreliable : Reliable { m with pool := { m.pool with free := rest }.mark index true } := by
      refine ⟨h.overclaim_eq, h.hidden_eq, ?_⟩
      intro i hi
      rw [FramePool.size_ram_mark]
      exact h.free_lt i (by rw [hfree]; exact List.mem_cons_of_mem _ hi)
    refine ⟨hreliable, ?_, ?_⟩
    · rw [hreliable.freeFrames_eq, h.freeFrames_eq, hfree]
      rfl
    · have bound : index < m.pool.ram.size := h.free_lt index (by rw [hfree]; exact List.mem_cons_self)
      have bound' : index < ({ m.pool with free := rest }.mark index true).ram.size := by
        rw [FramePool.size_ram_mark]
        exact bound
      have hframe : (({ m.pool with free := rest }.mark index true).frame?
          (FramePool.ramAddr index)).isSome = true := by
        rw [FramePool.frame?, FramePool.ramIndex?_ramAddr, if_pos bound']
        simp only [Array.getElem?_eq_getElem bound']
        rfl
      rw [frame?, if_neg]
      · exact hframe
      · change FramePool.ramAddr index ∉ m.hidden
        rw [h.hidden_eq]
        exact List.not_mem_nil

@[simp] theorem freeFrames_update (m : Machine) (pa : PhysAddr) (f : Frame → Frame) :
    (m.update pa f).freeFrames = m.freeFrames := by
  simp [freeFrames, update, FramePool.freeFrames]

theorem Reliable.exists_alloc (h : m.Reliable) (hpos : 0 < m.freeFrames) :
    ∃ pa m', m.alloc? = some (pa, m') := by
  rw [h.freeFrames_eq] at hpos
  cases hfree : m.pool.free with
  | nil =>
      rw [hfree] at hpos
      cases hpos
  | cons index rest =>
      have hpool : m.pool.alloc? = some
          (FramePool.ramAddr index, { m.pool with free := rest }.mark index true) := by
        rw [FramePool.alloc?, hfree]
      exact ⟨_, _, congrArg (Option.map _) hpool⟩

theorem Reliable.free (h : m.Reliable) (pa : PhysAddr) :
    (m.free pa).Reliable ∧ m.freeFrames ≤ (m.free pa).freeFrames := by
  rw [Machine.free]
  cases hrelease : m.pool.release? pa with
  | none => exact ⟨⟨h.overclaim_eq, h.hidden_eq, h.free_lt⟩, Nat.le_refl _⟩
  | some pool =>
      rw [FramePool.release?] at hrelease
      split at hrelease
      · cases hrelease
      · next index hindex =>
        split at hrelease
        · cases hrelease
          have hreliable : Reliable
              { m with pool := { m.pool with free := index :: m.pool.free }.mark index false } := by
            refine ⟨h.overclaim_eq, h.hidden_eq, ?_⟩
            intro i hi
            rw [FramePool.size_ram_mark]
            rcases List.mem_cons.mp hi with rfl | hi
            · exact (FramePool.ramAddr_of_ramIndex? hindex).2
            · exact h.free_lt i hi
          refine ⟨hreliable, ?_⟩
          rw [hreliable.freeFrames_eq, h.freeFrames_eq]
          exact Nat.le_succ _
        · cases hrelease

theorem lasting_reliable : Lasting Reliable where
  alloc _ _ _ halloc h := (h.alloc halloc).1
  free _ pa h := (h.free pa).1
  update m pa f h := by
    refine ⟨h.overclaim_eq, h.hidden_eq, ?_⟩
    intro i hi
    have hfree : (m.update pa f).pool.free = m.pool.free := FramePool.free_update _ _ _
    have hsize : (m.update pa f).pool.ram.size = m.pool.ram.size := FramePool.size_ram_update _ _ _
    rw [hfree] at hi
    rw [hsize]
    exact h.free_lt i hi
  relog _ _ h := ⟨h.overclaim_eq, h.hidden_eq, h.free_lt⟩

/-- The free list stays in order, also where the counts of frames went wrong. -/
theorem lasting_consistent : Lasting fun m => m.pool.Consistent where
  alloc _ _ _ halloc h := (h.grants (pool_of_alloc? halloc)).consistent
  free m pa h := by
    rw [Machine.free]
    split
    · next pool hrelease =>
      obtain ⟨next, hnext, hreclaims⟩ := h.reclaims (FramePool.isUsed_of_release?_self hrelease)
      rw [hrelease] at hnext
      cases hnext
      exact hreclaims.consistent
    · exact h
  update _ pa f h := h.update pa f
  relog _ _ h := h

theorem reliable_fresh (frames : Nat) (windows : List (Nat × Nat)) (log : Log) :
    Reliable ⟨.fresh frames windows, 0, [], log⟩ :=
  ⟨rfl, rfl, fun _ h => (FramePool.consistent_fresh frames windows).lt_size h⟩

end Machine

theorem Machine.Reliable.freeFrames_of_fresh? {m m' : Memory} {fill : Fill} {pa : PhysAddr}
    (h : m.machine.Reliable) (hfresh : m.fresh? fill = some (pa, m')) :
    m'.machine.freeFrames + 1 = m.machine.freeFrames := by
  obtain ⟨machine, halloc, rfl⟩ := Memory.fresh?_eq_some hfresh
  rw [freeFrames_update]
  exact (h.alloc halloc).2.1

/-! ## Frames in reserve -/

/-- The machine can give so many frames. -/
structure Machine.CanGive (m : Machine) (n : Nat) : Prop where
  reliable : m.Reliable
  frames_le : n ≤ m.freeFrames

namespace Machine.CanGive

variable {m : Machine} {memory : Memory} {n : Nat}

theorem mono (h : m.CanGive n) {n' : Nat} (hn : n' ≤ n) : m.CanGive n' :=
  ⟨h.reliable, Nat.le_trans hn h.frames_le⟩

theorem note (h : m.CanGive n) (level : LogLevel) (target text : String) :
    (m.note level target text).CanGive n :=
  ⟨lasting_reliable.relog _ _ h.reliable, h.frames_le⟩

theorem update (h : m.CanGive n) (pa : PhysAddr) (f : Frame → Frame) : (m.update pa f).CanGive n := by
  refine ⟨lasting_reliable.update m pa f h.reliable, ?_⟩
  rw [freeFrames_update]
  exact h.frames_le

theorem alloc (h : m.CanGive (n + 1)) :
    ∃ pa m', m.alloc? = some (pa, m') ∧ m'.CanGive n ∧ (m'.frame? pa).isSome = true := by
  obtain ⟨pa, m', halloc⟩ := h.reliable.exists_alloc (Nat.lt_of_lt_of_le n.succ_pos h.frames_le)
  obtain ⟨hreliable, hfree, hreach⟩ := h.reliable.alloc halloc
  have hframes := h.frames_le
  exact ⟨pa, m', halloc, ⟨hreliable, by omega⟩, hreach⟩

theorem fresh? (h : memory.machine.CanGive (n + 1)) (fill : Fill) :
    ∃ pa memory', memory.fresh? fill = some (pa, memory') ∧ memory'.machine.CanGive n := by
  obtain ⟨pa, machine, halloc, hgive, hreach⟩ := h.alloc
  obtain ⟨frame, hframe⟩ := Option.isSome_iff_exists.mp hreach
  have hfresh : memory.fresh? fill =
      some (pa, ⟨machine.update pa fun _ => fill.frame, memory.refs.set pa 1⟩) := by
    simp only [Memory.fresh?, halloc, hframe]
  exact ⟨pa, _, hfresh, hgive.update _ _⟩

theorem retain (h : memory.machine.CanGive n) (b : Backing) :
    (memory.retain b).machine.CanGive n := by
  cases b <;> exact h

theorem release (h : memory.machine.CanGive n) (b : Backing) :
    (memory.release b).machine.CanGive n := by
  rw [Memory.release.eq_def]
  split
  · split
    · exact h.note _ _ _
    · obtain ⟨hreliable, hfree⟩ := h.reliable.free ‹PhysAddr›
      exact ⟨hreliable, Nat.le_trans h.frames_le hfree⟩
    · exact h
  · exact h

end Machine.CanGive

end Exokernel
