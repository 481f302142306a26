import Exokernel.Memory.Machine
import Mathlib.Data.List.Nodup

/-! # The free list and the used marks

A consistent pool lists exactly the frames that are not handed out, each of them once.  Handing a
frame out, taking it back and changing bytes keep a pool consistent, and each of them is described
by what it does to the used marks and to the bytes. -/

namespace Exokernel

namespace FramePool

def isUsed (pool : FramePool) (pa : PhysAddr) : Bool :=
  (pool.ramIndex? pa).any fun index => pool.ram[index]?.any (·.inUse)

/-- The free list names every frame that is not handed out, each of them once. -/
structure Consistent (pool : FramePool) : Prop where
  nodup : pool.free.Nodup
  mem_free_iff : ∀ index, index ∈ pool.free ↔ ∃ r, pool.ram[index]? = some r ∧ r.inUse = false

theorem ramAddr_injective {i j : Nat} (h : ramAddr i = ramAddr j) : i = j := by
  have raw := congrArg PhysAddr.raw h
  simp only [ramAddr, ramBase, pageSize] at raw
  omega

theorem isUsed_ramAddr (pool : FramePool) (index : Nat) :
    pool.isUsed (ramAddr index) = pool.ram[index]?.any (·.inUse) := by
  rw [isUsed, ramIndex?_ramAddr]
  by_cases h : index < pool.ram.size
  · rw [if_pos h]
    rfl
  · rw [if_neg h, Array.getElem?_eq_none (Nat.le_of_not_lt h)]
    rfl

theorem exists_index_of_isUsed {pool : FramePool} {pa : PhysAddr} (h : pool.isUsed pa = true) :
    ∃ index, pool.ramIndex? pa = some index ∧ pool.ram[index]?.any (·.inUse) = true := by
  rw [isUsed] at h
  cases hindex : pool.ramIndex? pa with
  | none =>
      rw [hindex] at h
      cases h
  | some index =>
      rw [hindex] at h
      exact ⟨index, rfl, h⟩

theorem Consistent.lt_size {pool : FramePool} (h : pool.Consistent) {index : Nat}
    (hindex : index ∈ pool.free) : index < pool.ram.size := by
  obtain ⟨r, hr, -⟩ := (h.mem_free_iff index).mp hindex
  exact (Array.getElem?_eq_some_iff.mp hr).1

theorem Consistent.mem_free_iff_unused {pool : FramePool} (h : pool.Consistent) (index : Nat) :
    index ∈ pool.free ↔ index < pool.ram.size ∧ pool.isUsed (ramAddr index) = false := by
  rw [h.mem_free_iff, isUsed_ramAddr]
  constructor
  · rintro ⟨r, hr, hunused⟩
    exact ⟨(Array.getElem?_eq_some_iff.mp hr).1, by simp [hr, hunused]⟩
  · rintro ⟨bound, hunused⟩
    refine ⟨pool.ram[index], Array.getElem?_eq_getElem bound, ?_⟩
    simpa [Array.getElem?_eq_getElem bound] using hunused

/-! ## Marks -/

@[simp] theorem size_ram_mark (pool : FramePool) (index : Nat) (inUse : Bool) :
    (pool.mark index inUse).ram.size = pool.ram.size := by
  simp [mark]

@[simp] theorem ramIndex?_mark (pool : FramePool) (index : Nat) (inUse : Bool) (pa : PhysAddr) :
    (pool.mark index inUse).ramIndex? pa = pool.ramIndex? pa := by
  simp [ramIndex?]

theorem getElem?_ram_mark (pool : FramePool) (index i : Nat) (inUse : Bool) :
    (pool.mark index inUse).ram[i]? =
      if index = i then pool.ram[i]?.map fun r => { r with inUse } else pool.ram[i]? := by
  simp [mark, Array.getElem?_modify]

theorem isUsed_mark (pool : FramePool) (index : Nat) (inUse : Bool) (pa : PhysAddr) :
    (pool.mark index inUse).isUsed pa =
      if pool.ramIndex? pa = some index then inUse else pool.isUsed pa := by
  unfold isUsed
  rw [ramIndex?_mark]
  cases h : pool.ramIndex? pa with
  | none => simp
  | some i =>
      have bound := (ramAddr_of_ramIndex? h).2
      by_cases hi : index = i
      · subst hi
        simp [getElem?_ram_mark, bound]
      · have apart : i ≠ index := fun h => hi h.symm
        simp [getElem?_ram_mark, hi, apart]

theorem frame?_mark (pool : FramePool) (index : Nat) (inUse : Bool) (pa : PhysAddr) :
    (pool.mark index inUse).frame? pa = pool.frame? pa := by
  unfold frame?
  rw [ramIndex?_mark]
  cases pool.ramIndex? pa with
  | none => rfl
  | some i =>
      simp only [getElem?_ram_mark]
      split
      · rw [Option.map_map]; rfl
      · rfl

/-- Two pools with the same addresses and the same bytes at each of them. -/
structure SameBytes (pool next : FramePool) : Prop where
  size_eq : next.ram.size = pool.ram.size
  frame_eq : ∀ q, next.frame? q = pool.frame? q

theorem SameBytes.refl (pool : FramePool) : pool.SameBytes pool := ⟨rfl, fun _ => rfl⟩

theorem SameBytes.trans {pool next last : FramePool} (h : pool.SameBytes next)
    (h' : next.SameBytes last) : pool.SameBytes last :=
  ⟨h'.size_eq.trans h.size_eq, fun q => (h'.frame_eq q).trans (h.frame_eq q)⟩

theorem SameBytes.ramIndex?_eq {pool next : FramePool} (h : pool.SameBytes next) (q : PhysAddr) :
    next.ramIndex? q = pool.ramIndex? q := by
  rw [ramIndex?, ramIndex?, h.size_eq]

theorem sameBytes_mark (pool : FramePool) (index : Nat) (inUse : Bool) (free : List Nat) :
    pool.SameBytes ({ pool with free }.mark index inUse) :=
  ⟨size_ram_mark _ _ _, fun q => frame?_mark _ _ _ q⟩

/-! ## Handing out -/

/-- What handing out a frame does: the frame at the top of the free list is marked. -/
structure Grants (pool : FramePool) (pa : PhysAddr) (next : FramePool) : Prop where
  consistent : next.Consistent
  free_eq : ∃ index, index < pool.ram.size ∧ ramAddr index = pa ∧ pool.free = index :: next.free
  unused : pool.isUsed pa = false
  isUsed_eq : ∀ q, next.isUsed q = (decide (q = pa) || pool.isUsed q)

/-- In a consistent pool, what `alloc?` hands out is granted. -/
theorem Consistent.grants {pool next : FramePool} {pa : PhysAddr} (h : pool.Consistent)
    (halloc : pool.alloc? = some (pa, next)) : pool.Grants pa next := by
  rw [alloc?] at halloc
  split at halloc
  · cases halloc
  · next index rest hfree =>
    cases halloc
    have hmem : index ∈ pool.free := by simp [hfree]
    have bound := h.lt_size hmem
    have hnodup := List.nodup_cons.mp (hfree ▸ h.nodup)
    have hindex : ∀ q, pool.ramIndex? q = some index ↔ q = ramAddr index := by
      intro q
      constructor
      · intro hq
        exact (ramAddr_of_ramIndex? hq).1.symm
      · rintro rfl
        rw [ramIndex?_ramAddr, if_pos bound]
    refine ⟨⟨hnodup.2, ?_⟩, ⟨index, bound, rfl, hfree⟩, ?_, ?_⟩
    · intro i
      change i ∈ rest ↔ _
      rw [getElem?_ram_mark]
      by_cases hi : index = i
      · subst hi
        simp [hnodup.1]
      · rw [if_neg hi]
        have hrest : i ∈ rest ↔ i ∈ pool.free := by
          rw [hfree, List.mem_cons]
          exact ⟨Or.inr, fun hor => hor.resolve_left fun heq => hi heq.symm⟩
        rw [hrest]
        exact h.mem_free_iff i
    · exact ((h.mem_free_iff_unused index).mp hmem).2
    · intro q
      rw [isUsed_mark]
      change (if pool.ramIndex? q = some index then true else pool.isUsed q) = _
      by_cases hq : q = ramAddr index
      · simp [hq, bound]
      · rw [if_neg (fun heq => hq ((hindex q).mp heq))]
        simp [hq]

theorem Grants.freeFrames_eq {pool next : FramePool} {pa : PhysAddr} (h : pool.Grants pa next) :
    pool.freeFrames = next.freeFrames + 1 := by
  obtain ⟨index, -, -, hfree⟩ := h.free_eq
  rw [freeFrames, hfree]
  rfl

theorem isUsed_of_alloc? {pool next : FramePool} {pa q : PhysAddr}
    (h : pool.alloc? = some (pa, next)) (hused : next.isUsed q = true) :
    q = pa ∨ pool.isUsed q = true := by
  rw [alloc?] at h
  split at h
  · cases h
  · next index rest _ =>
    cases h
    rw [isUsed_mark] at hused
    change (if pool.ramIndex? q = some index then true else pool.isUsed q) = true at hused
    split at hused
    · next hindex => exact Or.inl (ramAddr_of_ramIndex? hindex).1.symm
    · exact Or.inr hused

theorem sameBytes_of_alloc? {pool next : FramePool} {pa : PhysAddr}
    (h : pool.alloc? = some (pa, next)) : pool.SameBytes next := by
  rw [alloc?] at h
  split at h
  · cases h
  · cases h
    exact sameBytes_mark _ _ _ _

/-! ## Taking back -/

/-- What taking a frame back does: it goes to the top of the free list unmarked. -/
structure Reclaims (pool : FramePool) (pa : PhysAddr) (next : FramePool) : Prop where
  consistent : next.Consistent
  free_eq : ∃ index, ramAddr index = pa ∧ next.free = index :: pool.free
  isUsed_eq : ∀ q, next.isUsed q = (!decide (q = pa) && pool.isUsed q)

/-- A consistent pool takes back every frame that is handed out. -/
theorem Consistent.reclaims {pool : FramePool} {pa : PhysAddr} (h : pool.Consistent)
    (hused : pool.isUsed pa = true) :
    ∃ next, pool.release? pa = some next ∧ pool.Reclaims pa next := by
  obtain ⟨index, hindex, hany⟩ := exists_index_of_isUsed hused
  obtain ⟨haddr, bound⟩ := ramAddr_of_ramIndex? hindex
  have hmem : index ∉ pool.free := by
    intro hmem
    have hunused := ((h.mem_free_iff_unused index).mp hmem).2
    rw [haddr, hused] at hunused
    cases hunused
  refine ⟨_, by rw [release?, hindex]; exact if_pos hany, ⟨?_, ?_⟩, ⟨index, haddr, rfl⟩, ?_⟩
  · exact List.nodup_cons.mpr ⟨hmem, h.nodup⟩
  · intro i
    change i ∈ index :: pool.free ↔ _
    rw [getElem?_ram_mark, List.mem_cons]
    by_cases hi : index = i
    · subst hi
      simp [bound]
    · rw [if_neg hi]
      have hcons : i = index ∨ i ∈ pool.free ↔ i ∈ pool.free :=
        ⟨fun hor => hor.resolve_left fun heq => hi heq.symm, Or.inr⟩
      rw [hcons]
      exact h.mem_free_iff i
  · intro q
    rw [isUsed_mark]
    change (if pool.ramIndex? q = some index then false else pool.isUsed q) = _
    by_cases hq : q = pa
    · simp [hq, hindex]
    · rw [if_neg (fun heq => hq ((ramAddr_of_ramIndex? heq).1.symm.trans haddr))]
      simp [hq]

theorem Reclaims.freeFrames_eq {pool next : FramePool} {pa : PhysAddr} (h : pool.Reclaims pa next) :
    next.freeFrames = pool.freeFrames + 1 := by
  obtain ⟨index, -, hfree⟩ := h.free_eq
  rw [freeFrames, hfree]
  rfl

theorem isUsed_of_release?_self {pool next : FramePool} {pa : PhysAddr}
    (h : pool.release? pa = some next) : pool.isUsed pa = true := by
  rw [release?] at h
  split at h
  · cases h
  · next index hindex =>
    split at h
    · next hany =>
      rw [isUsed, hindex]
      exact hany
    · cases h

theorem isUsed_of_release? {pool next : FramePool} {pa q : PhysAddr}
    (h : pool.release? pa = some next) (hused : next.isUsed q = true) :
    pool.isUsed q = true := by
  rw [release?] at h
  split at h
  · cases h
  · next index _ =>
    split at h
    · cases h
      rw [isUsed_mark] at hused
      change (if pool.ramIndex? q = some index then false else pool.isUsed q) = true at hused
      split at hused
      · cases hused
      · exact hused
    · cases h

theorem sameBytes_of_release? {pool next : FramePool} {pa : PhysAddr}
    (h : pool.release? pa = some next) : pool.SameBytes next := by
  rw [release?] at h
  split at h
  · cases h
  · split at h
    · cases h
      exact sameBytes_mark _ _ _ _
    · cases h

/-! ## Bytes -/

@[simp] theorem free_update (pool : FramePool) (pa : PhysAddr) (f : Frame → Frame) :
    (pool.update pa f).free = pool.free := by
  rw [update]
  split
  · rfl
  · split <;> rfl

theorem getElem?_ram_update (pool : FramePool) (pa : PhysAddr) (f : Frame → Frame) (i : Nat) :
    (pool.update pa f).ram[i]? =
      if pool.ramIndex? pa = some i then pool.ram[i]?.map fun r => { r with bytes := f r.bytes }
      else pool.ram[i]? := by
  rw [update]
  cases hindex : pool.ramIndex? pa with
  | none => simp only [reduceCtorEq, if_false]; split <;> rfl
  | some index =>
      simp only [Array.getElem?_modify, Option.some.injEq]

@[simp] theorem size_ram_update (pool : FramePool) (pa : PhysAddr) (f : Frame → Frame) :
    (pool.update pa f).ram.size = pool.ram.size := by
  rw [update]
  split
  · simp
  · split <;> rfl

@[simp] theorem ramIndex?_update (pool : FramePool) (pa q : PhysAddr) (f : Frame → Frame) :
    (pool.update pa f).ramIndex? q = pool.ramIndex? q := by
  simp [ramIndex?]

@[simp] theorem isUsed_update (pool : FramePool) (pa q : PhysAddr) (f : Frame → Frame) :
    (pool.update pa f).isUsed q = pool.isUsed q := by
  unfold isUsed
  rw [ramIndex?_update]
  cases pool.ramIndex? q with
  | none => rfl
  | some i =>
      simp only [Option.any_some, getElem?_ram_update]
      split
      · cases pool.ram[i]? <;> rfl
      · rfl

theorem Consistent.update {pool : FramePool} (h : pool.Consistent) (pa : PhysAddr)
    (f : Frame → Frame) : (pool.update pa f).Consistent := by
  refine ⟨by rw [free_update]; exact h.nodup, ?_⟩
  intro i
  rw [free_update, h.mem_free_iff, getElem?_ram_update]
  split
  · cases pool.ram[i]? <;> simp
  · rfl

/-- Bytes change where they are written and nowhere else. -/
theorem frame?_update_ram {pool : FramePool} {pa : PhysAddr} {index : Nat}
    (h : pool.ramIndex? pa = some index) (f : Frame → Frame) (q : PhysAddr) :
    (pool.update pa f).frame? q = if q = pa then (pool.frame? q).map f else pool.frame? q := by
  have hwindows : (pool.update pa f).devicePage? q = pool.devicePage? q := by
    simp [update, h, devicePage?]
  unfold frame?
  rw [ramIndex?_update, hwindows]
  by_cases hq : q = pa
  · subst hq
    simp only [h, getElem?_ram_update, if_true, Option.map_map]
    rfl
  · cases hindex : pool.ramIndex? q with
    | none => simp only [if_neg hq]
    | some i =>
        have apart : pool.ramIndex? pa ≠ some i := by
          intro heq
          exact hq ((ramAddr_of_ramIndex? hindex).1.symm.trans (ramAddr_of_ramIndex? heq).1)
        simp only [getElem?_ram_update, if_neg apart, if_neg hq]

/-! ## Fresh pools -/

theorem consistent_ofFrames (frames : Nat) : (ofFrames frames).Consistent := by
  refine ⟨List.nodup_range, ?_⟩
  intro index
  simp only [ofFrames, List.mem_range, Array.getElem?_replicate]
  by_cases h : index < frames <;> simp [h]

theorem isUsed_ofFrames (frames : Nat) (pa : PhysAddr) : (ofFrames frames).isUsed pa = false := by
  rw [isUsed]
  cases (ofFrames frames).ramIndex? pa with
  | none => rfl
  | some index =>
      by_cases h : index < frames <;> simp [ofFrames, h]

theorem ram_withWindow (pool : FramePool) (base pages : Nat) :
    (pool.withWindow base pages).ram = pool.ram ∧
      (pool.withWindow base pages).free = pool.free := by
  rw [withWindow]
  split <;> exact ⟨rfl, rfl⟩

/-- A fresh pool of so many frames with the device windows that were asked for. -/
def fresh (frames : Nat) (windows : List (Nat × Nat)) : FramePool :=
  windows.foldl (fun pool w => pool.withWindow w.1 w.2) (ofFrames frames)

theorem ram_fresh (frames : Nat) (windows : List (Nat × Nat)) :
    (fresh frames windows).ram = (ofFrames frames).ram ∧
      (fresh frames windows).free = (ofFrames frames).free := by
  rw [fresh]
  generalize ofFrames frames = pool
  induction windows generalizing pool with
  | nil => exact ⟨rfl, rfl⟩
  | cons w rest ih =>
      obtain ⟨hram, hfree⟩ := ram_withWindow pool w.1 w.2
      obtain ⟨hram', hfree'⟩ := ih (pool.withWindow w.1 w.2)
      exact ⟨hram'.trans hram, hfree'.trans hfree⟩

theorem consistent_fresh (frames : Nat) (windows : List (Nat × Nat)) :
    (fresh frames windows).Consistent := by
  obtain ⟨hram, hfree⟩ := ram_fresh frames windows
  have h := consistent_ofFrames frames
  refine ⟨hfree ▸ h.nodup, ?_⟩
  rw [hram, hfree]
  exact h.mem_free_iff

theorem isUsed_fresh (frames : Nat) (windows : List (Nat × Nat)) (pa : PhysAddr) :
    (fresh frames windows).isUsed pa = false := by
  have hram := (ram_fresh frames windows).1
  have h := isUsed_ofFrames frames pa
  unfold isUsed ramIndex? at *
  rw [hram]
  exact h

end FramePool

end Exokernel
