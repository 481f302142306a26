import Exokernel.Proofs.Memory.Reliability

/-! # Device windows

The windows of a pool lie beside its RAM, so a page inside a window is never taken for a frame, and
its bytes are within reach.  No step of the machine moves RAM or a window. -/

namespace Exokernel

def DeviceWindow.Covers (w : DeviceWindow) (pa : PhysAddr) (bytes : Nat) : Prop :=
  w.base ≤ pa.raw ∧ pa.raw + bytes ≤ w.stop

theorem DeviceWindow.Covers.page {w : DeviceWindow} {pa : PhysAddr} {count : Nat}
    (h : w.Covers pa (count * pageSize)) {i : Nat} (hi : i < count) :
    w.Covers (pa.advance i) pageSize := by
  obtain ⟨hbase, hstop⟩ := h
  have hle : (i + 1) * pageSize ≤ count * pageSize := Nat.mul_le_mul_right _ hi
  simp only [Covers, PhysAddr.advance]
  rw [Nat.succ_mul] at hle
  omega

namespace FramePool

variable {pool next last : FramePool} {pa : PhysAddr}

theorem isDeviceRange_iff {bytes : Nat} :
    pool.isDeviceRange pa bytes = true ↔ ∃ w ∈ pool.windows, w.Covers pa bytes := by
  rw [isDeviceRange, List.any_eq_true]
  simp only [Bool.and_eq_true, decide_eq_true_eq, DeviceWindow.Covers]

def WindowsApart (pool : FramePool) : Prop :=
  ∀ w ∈ pool.windows, w.stop ≤ ramBase ∨ pool.ramStop ≤ w.base

/-- The first address of each window and the address behind its last byte. -/
def extents (pool : FramePool) : List (Nat × Nat) := pool.windows.map fun w => (w.base, w.stop)

/-- Two pools with RAM and windows at the same addresses. -/
structure SameLayout (pool next : FramePool) : Prop where
  size_eq : next.ram.size = pool.ram.size
  extents_eq : next.extents = pool.extents

theorem windowsApart_iff :
    pool.WindowsApart ↔ ∀ x ∈ pool.extents, x.2 ≤ ramBase ∨ pool.ramStop ≤ x.1 := by
  simp [WindowsApart, extents]

theorem isDeviceRange_eq (pool : FramePool) (pa : PhysAddr) (bytes : Nat) :
    pool.isDeviceRange pa bytes =
      pool.extents.any fun x => decide (x.1 ≤ pa.raw) && decide (pa.raw + bytes ≤ x.2) := by
  rw [isDeviceRange, extents, List.any_map]
  rfl

namespace SameLayout

theorem refl (pool : FramePool) : pool.SameLayout pool := ⟨rfl, rfl⟩

theorem windowsApart (h : pool.SameLayout next) (hapart : pool.WindowsApart) :
    next.WindowsApart := by
  rw [windowsApart_iff, h.extents_eq, ramStop, h.size_eq]
  exact windowsApart_iff.mp hapart

theorem isDeviceRange_eq (h : pool.SameLayout next) (pa : PhysAddr) (bytes : Nat) :
    next.isDeviceRange pa bytes = pool.isDeviceRange pa bytes := by
  rw [FramePool.isDeviceRange_eq, FramePool.isDeviceRange_eq, h.extents_eq]

theorem trans (h : pool.SameLayout next) (h' : next.SameLayout last) : pool.SameLayout last :=
  ⟨h'.size_eq.trans h.size_eq, h'.extents_eq.trans h.extents_eq⟩

end SameLayout

/-! ## What the machine does -/

theorem sameLayout_mark (pool : FramePool) (index : Nat) (inUse : Bool) (free : List Nat) :
    pool.SameLayout ({ pool with free }.mark index inUse) :=
  ⟨size_ram_mark _ _ _, rfl⟩

theorem sameLayout_of_alloc? (h : pool.alloc? = some (pa, next)) : pool.SameLayout next := by
  rw [alloc?] at h
  split at h
  · cases h
  · cases h
    exact sameLayout_mark _ _ _ _

theorem sameLayout_of_release? (h : pool.release? pa = some next) : pool.SameLayout next := by
  rw [release?] at h
  split at h
  · cases h
  · split at h
    · cases h
      exact sameLayout_mark _ _ _ _
    · cases h

theorem sameLayout_update (pool : FramePool) (pa : PhysAddr) (f : Frame → Frame) :
    pool.SameLayout (pool.update pa f) := by
  have hwindows : ∀ windows : List DeviceWindow,
      (updateWindows pa.raw f windows).map (fun w => (w.base, w.stop)) =
        windows.map fun w => (w.base, w.stop) := by
    intro windows
    induction windows with
    | nil => rfl
    | cons w rest ih =>
        rw [updateWindows]
        split
        · simp [DeviceWindow.stop]
        · rw [List.map_cons, List.map_cons, ih]
  refine ⟨size_ram_update _ _ _, ?_⟩
  rw [update]
  split
  · rfl
  · split
    · exact hwindows pool.windows
    · rfl

/-! ## Changing bytes -/

/-- Two page boundaries in a window belong to different pages of it, unless they are the same. -/
private theorem pageIndex_eq_iff {base : Nat} {pa q : PhysAddr} (hpa : isPageAligned pa.raw = true)
    (hq : isPageAligned q.raw = true) (hbelow : base ≤ pa.raw) (hbelow' : base ≤ q.raw) :
    (pa.raw - base) / pageSize = (q.raw - base) / pageSize ↔ q = pa := by
  rw [isPageAligned_iff] at hpa hq
  rw [PhysAddr.ext_iff]
  simp only [pageSize] at *
  omega

theorem devicePage?_updateWindows (windows : List DeviceWindow) (f : Frame → Frame) {pa q : PhysAddr}
    (hpa : isPageAligned pa.raw = true) (hq : isPageAligned q.raw = true) :
    ((updateWindows pa.raw f windows).find? (·.contains q.raw)).bind
        (fun w => w.pages[(q.raw - w.base) / pageSize]?) =
      if q = pa then ((windows.find? (·.contains q.raw)).bind
        fun w => w.pages[(q.raw - w.base) / pageSize]?).map f
      else (windows.find? (·.contains q.raw)).bind fun w => w.pages[(q.raw - w.base) / pageSize]? := by
  induction windows with
  | nil => simp [updateWindows]
  | cons w rest ih =>
      have hcontains : ∀ g : Frame → Frame, DeviceWindow.contains
          { w with pages := w.pages.modify ((pa.raw - w.base) / pageSize) g } q.raw =
            w.contains q.raw := by
        intro g
        rw [DeviceWindow.contains, DeviceWindow.contains, DeviceWindow.stop, DeviceWindow.stop,
          Array.size_modify]
      rw [updateWindows]
      cases hin : w.contains pa.raw with
      | true =>
          rw [if_pos rfl, List.find?_cons, List.find?_cons, hcontains]
          cases hin' : w.contains q.raw with
          | true =>
              simp only [DeviceWindow.contains, Bool.and_eq_true, decide_eq_true_eq] at hin hin'
              simp only [Option.bind_some, Array.getElem?_modify,
                pageIndex_eq_iff hpa hq hin.1 hin'.1]
          | false =>
              have hne : q ≠ pa := by
                rintro rfl
                rw [hin] at hin'
                cases hin'
              rw [if_neg hne]
      | false =>
          rw [if_neg Bool.false_ne_true, List.find?_cons, List.find?_cons]
          cases hin' : w.contains q.raw with
          | true =>
              have hne : q ≠ pa := by
                rintro rfl
                rw [hin] at hin'
                cases hin'
              rw [if_neg hne]
          | false => exact ih

/-- Bytes change where they are written, in RAM and in the windows, and nowhere else. -/
theorem frame?_update (pool : FramePool) (pa : PhysAddr) (f : Frame → Frame) (q : PhysAddr) :
    (pool.update pa f).frame? q = if q = pa then (pool.frame? q).map f else pool.frame? q := by
  cases hindex : pool.ramIndex? pa with
  | some index => exact frame?_update_ram hindex f q
  | none =>
      cases hpa : isPageAligned pa.raw with
      | false =>
          have hsame : pool.update pa f = pool := by simp [update, hindex, hpa]
          rw [hsame]
          split
          · next heq =>
            subst heq
            simp [frame?, hindex, hpa]
          · rfl
      | true =>
          have hwindows : pool.update pa f =
              { pool with windows := updateWindows pa.raw f pool.windows } := by
            simp [update, hindex, hpa]
          rw [frame?, ramIndex?_update, frame?]
          cases hindex' : pool.ramIndex? q with
          | some index =>
              have hne : q ≠ pa := by
                rintro rfl
                rw [hindex] at hindex'
                cases hindex'
              rw [if_neg hne, hwindows]
          | none =>
              cases hq : isPageAligned q.raw with
              | false => simp
              | true =>
                  simp only [if_true, hwindows, devicePage?]
                  exact devicePage?_updateWindows pool.windows f hpa hq

/-! ## Fresh pools -/

theorem windowsApart_withWindow (h : pool.WindowsApart) (base pages : Nat) :
    (pool.withWindow base pages).WindowsApart := by
  rw [withWindow]
  split
  · next hadmits =>
    simp only [admitsWindow, Bool.and_eq_true, Bool.not_eq_true', Bool.and_eq_false_iff,
      decide_eq_false_iff_not, decide_eq_true_eq] at hadmits
    intro w hw
    rcases List.mem_append.mp hw with hw | hw
    · exact h w hw
    · obtain rfl := List.mem_singleton.mp hw
      change base + (Array.replicate pages Frame.zeros).size * pageSize ≤ ramBase ∨
        pool.ramStop ≤ base
      rw [Array.size_replicate]
      omega
  · exact h

/-- What holds of a pool without windows, and still holds when a window is asked for, holds of every
fresh pool. -/
theorem fresh_induction {P : FramePool → Prop} {frames : Nat} (hstart : P (ofFrames frames))
    (hwindow : ∀ pool base pages, P pool → P (pool.withWindow base pages))
    (windows : List (Nat × Nat)) : P (fresh frames windows) := by
  rw [fresh]
  generalize ofFrames frames = pool at *
  induction windows generalizing pool with
  | nil => exact hstart
  | cons w rest ih => exact ih _ (hwindow pool w.1 w.2 hstart)

theorem windowsApart_fresh (frames : Nat) (windows : List (Nat × Nat)) :
    (fresh frames windows).WindowsApart :=
  fresh_induction (P := WindowsApart) (List.forall_mem_nil _)
    (fun _ base pages h => windowsApart_withWindow h base pages) windows

def WindowsFit (pool : FramePool) : Prop := ∀ x ∈ pool.extents, x.2 < wordLimit

theorem SameLayout.windowsFit (h : pool.SameLayout next) (hfit : pool.WindowsFit) :
    next.WindowsFit := by
  rw [WindowsFit, h.extents_eq]
  exact hfit

theorem WindowsFit.not_covers (h : pool.WindowsFit) {bytes : Nat}
    (hwraps : wordLimit ≤ pa.raw + bytes) : ¬ ∃ w ∈ pool.windows, w.Covers pa bytes := by
  rintro ⟨w, hw, -, hstop⟩
  have hfits := h (w.base, w.stop) (List.mem_map_of_mem hw)
  exact absurd (Nat.le_trans hwraps hstop) (Nat.not_le_of_lt hfits)

theorem windowsFit_withWindow (h : pool.WindowsFit) (base pages : Nat) :
    (pool.withWindow base pages).WindowsFit := by
  rw [withWindow]
  split
  · next hadmits =>
    simp only [admitsWindow, Bool.and_eq_true, decide_eq_true_eq] at hadmits
    intro x hx
    rw [extents, List.map_append, List.mem_append] at hx
    rcases hx with hx | hx
    · exact h x hx
    · obtain rfl := List.mem_singleton.mp hx
      change base + (Array.replicate pages Frame.zeros).size * pageSize < wordLimit
      rw [Array.size_replicate]
      exact hadmits.1.1.2
  · exact h

theorem windowsFit_fresh (frames : Nat) (windows : List (Nat × Nat)) :
    (fresh frames windows).WindowsFit :=
  fresh_induction (P := WindowsFit) (List.forall_mem_nil _)
    (fun _ base pages h => windowsFit_withWindow h base pages) windows

/-! ## Bytes within reach -/

theorem isSome_devicePage?_iff : (pool.devicePage? pa).isSome = true ↔
    ∃ x ∈ pool.extents, x.1 ≤ pa.raw ∧ pa.raw < x.2 := by
  have hcontains : (∃ x ∈ pool.extents, x.1 ≤ pa.raw ∧ pa.raw < x.2) ↔
      ∃ w ∈ pool.windows, w.contains pa.raw = true := by
    simp [extents, DeviceWindow.contains]
  rw [hcontains, ← List.find?_isSome, devicePage?]
  cases hfind : pool.windows.find? (·.contains pa.raw) with
  | none => simp
  | some w =>
      -- the page is that of the first window that contains the address
      have hinside := List.find?_some hfind
      simp only [DeviceWindow.contains, Bool.and_eq_true, decide_eq_true_eq] at hinside
      have bound : (pa.raw - w.base) / pageSize < w.pages.size := by
        rw [DeviceWindow.stop] at hinside
        rw [Nat.div_lt_iff_lt_mul (by decide)]
        omega
      rw [Option.bind_some, Array.getElem?_eq_getElem bound]
      rfl

/-- Bytes are within reach at the frames of RAM and at the page boundaries in the windows. -/
theorem isSome_frame?_iff : (pool.frame? pa).isSome = true ↔
    (pool.ramIndex? pa).isSome = true ∨
      isPageAligned pa.raw = true ∧ ∃ x ∈ pool.extents, x.1 ≤ pa.raw ∧ pa.raw < x.2 := by
  rw [frame?, ← isSome_devicePage?_iff]
  cases hindex : pool.ramIndex? pa with
  | none => cases isPageAligned pa.raw <;> simp
  | some index =>
      have bound := (ramAddr_of_ramIndex? hindex).2
      simp [bound]

theorem SameLayout.ramIndex?_eq (h : pool.SameLayout next) (pa : PhysAddr) :
    next.ramIndex? pa = pool.ramIndex? pa := by
  rw [ramIndex?, h.size_eq]
  rfl

theorem SameLayout.isSome_frame?_eq (h : pool.SameLayout next) (pa : PhysAddr) :
    (next.frame? pa).isSome = (pool.frame? pa).isSome := by
  rw [Bool.eq_iff_iff, isSome_frame?_iff, isSome_frame?_iff, h.ramIndex?_eq, h.extents_eq]

theorem isSome_frame?_of_isUsed (h : pool.isUsed pa = true) : (pool.frame? pa).isSome = true := by
  obtain ⟨index, hindex, -⟩ := exists_index_of_isUsed h
  exact isSome_frame?_iff.mpr (Or.inl (Option.isSome_of_eq_some hindex))

theorem isSome_ramIndex?_iff : (pool.ramIndex? pa).isSome = true ↔
    isPageAligned pa.raw = true ∧ ramBase ≤ pa.raw ∧ pa.raw < pool.ramStop := by
  have hsize : (pa.raw - ramBase) / pageSize < pool.ram.size ↔
      pa.raw - ramBase < pool.ram.size * pageSize := Nat.div_lt_iff_lt_mul (by decide)
  rw [ramIndex?, ramStop]
  split
  · next h => exact iff_of_true rfl ⟨h.2.1, h.1, by omega⟩
  · next h =>
    refine iff_of_false Bool.false_ne_true ?_
    rintro ⟨haligned, habove, hbelow⟩
    exact h ⟨habove, haligned, by omega⟩

/-- An address in a window has a page there, and is that of no frame of RAM. -/
theorem devicePage_of_isDeviceRange (hapart : pool.WindowsApart) {bytes : Nat}
    (h : pool.isDeviceRange pa bytes = true) {q : PhysAddr} (hlower : pa.raw ≤ q.raw)
    (hupper : q.raw < pa.raw + bytes) :
    pool.ramIndex? q = none ∧ (pool.devicePage? q).isSome = true := by
  obtain ⟨w, hw, hbase, hstop⟩ := isDeviceRange_iff.mp h
  have hinside : w.base ≤ q.raw ∧ q.raw < w.stop := ⟨by omega, by omega⟩
  constructor
  · rw [← Option.not_isSome_iff_eq_none, isSome_ramIndex?_iff]
    rintro ⟨-, habove, hbelow⟩
    have hbeside := hapart w hw
    omega
  · exact isSome_devicePage?_iff.mpr ⟨_, List.mem_map_of_mem hw, hinside⟩

theorem ramIndex?_of_isDeviceRange (hapart : pool.WindowsApart)
    (h : pool.isDeviceRange pa pageSize = true) : pool.ramIndex? pa = none :=
  (devicePage_of_isDeviceRange hapart h (Nat.le_refl _) (Nat.lt_add_of_pos_right (by decide))).1

theorem isSome_frame?_of_isDeviceRange (haligned : isPageAligned pa.raw = true)
    (h : pool.isDeviceRange pa pageSize = true) : (pool.frame? pa).isSome = true := by
  rw [isDeviceRange_eq] at h
  obtain ⟨x, hx, hinside⟩ := List.any_eq_true.mp h
  simp only [Bool.and_eq_true, decide_eq_true_eq, pageSize] at hinside
  exact isSome_frame?_iff.mpr (Or.inr ⟨haligned, x, hx, hinside.1, by omega⟩)

end FramePool

theorem Memory.sameLayout_of_fresh? {m m' : Memory} {fill : Fill} {pa : PhysAddr}
    (h : m.fresh? fill = some (pa, m')) : m.machine.pool.SameLayout m'.machine.pool := by
  obtain ⟨machine, halloc, rfl⟩ := fresh?_eq_some h
  exact (FramePool.sameLayout_of_alloc? (Machine.pool_of_alloc? halloc)).trans
    (FramePool.sameLayout_update machine.pool pa fun _ => fill.frame)

theorem Memory.isSome_frame?_of_fresh? {m m' : Memory} {fill : Fill} {pa : PhysAddr}
    (h : m.fresh? fill = some (pa, m')) : (m'.machine.pool.frame? pa).isSome = true := by
  rw [fresh?] at h
  split at h
  · cases h
  · next machine _ =>
    split at h
    · cases h
    · next hframe =>
      cases h
      rw [Machine.frame?] at hframe
      split at hframe
      · cases hframe
      · rw [Machine.update, (FramePool.sameLayout_update machine.pool pa _).isSome_frame?_eq, hframe]
        rfl

/-- The machine does not change what depends on the places of RAM and of the windows only. -/
theorem Machine.lasting_of_layout {P : FramePool → Prop}
    (hP : ∀ pool next : FramePool, pool.SameLayout next → P pool → P next) :
    Machine.Lasting fun m => P m.pool where
  alloc _ _ _ halloc h := hP _ _ (FramePool.sameLayout_of_alloc? (Machine.pool_of_alloc? halloc)) h
  free m pa h := by
    rw [Machine.free]
    split
    · next hrelease => exact hP _ _ (FramePool.sameLayout_of_release? hrelease) h
    · exact h
  update m pa f h := hP _ _ (FramePool.sameLayout_update m.pool pa f) h
  relog _ _ h := h

theorem Machine.lasting_windowsApart : Machine.Lasting fun m => m.pool.WindowsApart :=
  lasting_of_layout fun _ _ h => h.windowsApart

theorem Machine.lasting_sameLayout (pool : FramePool) :
    Machine.Lasting fun m => pool.SameLayout m.pool :=
  lasting_of_layout fun _ _ h hpool => hpool.trans h

end Exokernel
