import Exokernel.Proofs.Memory.Windows
import Mathlib.Data.Finset.Card

/-! # Frames on loan

A machine lends its frames.  Whoever asks for one and gives one back can tell from the answers which
frames are on loan: those that were handed out and not given back since.  Whatever is asked for, and
whatever addresses are given back, the used marks of the pool and its free list say the same.  The
device windows stay where they were put, beside RAM and beside one another. -/

namespace Exokernel

open Finset

/-! ## Device windows in order -/

namespace FramePool

variable {pool next : FramePool} {pa : PhysAddr}

/-- Windows begin at page boundaries, are not empty, and lie beside one another. -/
structure WindowsInOrder (pool : FramePool) : Prop where
  aligned : ∀ x ∈ pool.extents, isPageAligned x.1 = true
  nonempty : ∀ x ∈ pool.extents, x.1 < x.2
  disjoint : pool.extents.Pairwise fun x y => x.2 ≤ y.1 ∨ y.2 ≤ x.1

theorem SameLayout.windowsInOrder (h : pool.SameLayout next) (horder : pool.WindowsInOrder) :
    next.WindowsInOrder := by
  obtain ⟨haligned, hnonempty, hdisjoint⟩ := horder
  rw [← h.extents_eq] at haligned hnonempty hdisjoint
  exact ⟨haligned, hnonempty, hdisjoint⟩

theorem windowsInOrder_withWindow (h : pool.WindowsInOrder) (base pages : Nat) :
    (pool.withWindow base pages).WindowsInOrder := by
  rw [withWindow]
  split
  · next hadmits =>
    simp only [admitsWindow, Bool.and_eq_true, Bool.not_eq_true', decide_eq_true_eq,
      List.any_eq_false] at hadmits
    obtain ⟨⟨⟨⟨haligned, hpages⟩, -⟩, -⟩, hapart⟩ := hadmits
    have hextents : extents { pool with
        windows := pool.windows ++ [⟨base, Array.replicate pages Frame.zeros⟩] } =
          pool.extents ++ [(base, base + pages * pageSize)] := by
      simp [extents, DeviceWindow.stop]
    refine ⟨?_, ?_, ?_⟩
    all_goals rw [hextents]
    · intro x hx
      rcases List.mem_append.mp hx with hx | hx
      · exact h.aligned x hx
      · rw [List.mem_singleton.mp hx]
        exact haligned
    · intro x hx
      rcases List.mem_append.mp hx with hx | hx
      · exact h.nonempty x hx
      · rw [List.mem_singleton.mp hx]
        exact Nat.lt_add_of_pos_right (Nat.mul_pos hpages (by decide))
    · refine List.pairwise_append.mpr ⟨h.disjoint, List.pairwise_singleton _ _, ?_⟩
      intro x hx y hy
      obtain ⟨w, hw, rfl⟩ := List.mem_map.mp hx
      obtain rfl := List.mem_singleton.mp hy
      have hbeside := hapart w hw
      rw [not_and_or, Nat.not_lt, Nat.not_lt] at hbeside
      exact hbeside
  · exact h

theorem windowsInOrder_fresh (frames : Nat) (windows : List (Nat × Nat)) :
    (fresh frames windows).WindowsInOrder :=
  fresh_induction (P := WindowsInOrder) ⟨List.forall_mem_nil _, List.forall_mem_nil _, .nil⟩
    (fun _ base pages h => windowsInOrder_withWindow h base pages) windows

/-- What the addresses of a pool name. -/
structure AddressesApart (pool : FramePool) : Prop where
  window_aligned : ∀ w ∈ pool.windows, isPageAligned w.base = true ∧ 0 < w.pages.size
  windows_disjoint : pool.windows.Pairwise fun w v => w.stop ≤ v.base ∨ v.stop ≤ w.base
  window_beside_ram : ∀ w ∈ pool.windows, w.stop ≤ ramBase ∨ pool.ramStop ≤ w.base
  isSome_frame_iff : ∀ pa, (pool.frame? pa).isSome = true ↔ isPageAligned pa.raw = true ∧
    (ramBase ≤ pa.raw ∧ pa.raw < pool.ramStop ∨
      ∃ w ∈ pool.windows, w.base ≤ pa.raw ∧ pa.raw < w.stop)
  /-- What is written at one address is seen there and at no other. -/
  frame_update : ∀ pa f q, (pool.update pa f).frame? q =
    if q = pa then (pool.frame? q).map f else pool.frame? q
  deviceRange_fits : ∀ pa bytes, pool.isDeviceRange pa bytes = true → pa.raw + bytes < wordLimit
  deviceRange_pages : ∀ pa bytes, pool.isDeviceRange pa bytes = true →
    ∀ q : PhysAddr, isPageAligned q.raw = true → pa.raw ≤ q.raw → q.raw < pa.raw + bytes →
      pool.ramIndex? q = none ∧ (pool.devicePage? q).isSome = true ∧ pool.frame? q = pool.devicePage? q

theorem addressesApart_of_layout {frames : Nat} {windows : List (Nat × Nat)}
    (h : (fresh frames windows).SameLayout pool) : pool.AddressesApart := by
  have hapart := h.windowsApart (windowsApart_fresh frames windows)
  have hfit := h.windowsFit (windowsFit_fresh frames windows)
  have horder := h.windowsInOrder (windowsInOrder_fresh frames windows)
  have hextent : ∀ w ∈ pool.windows, (w.base, w.stop) ∈ pool.extents := fun w hw =>
    List.mem_map_of_mem hw
  refine ⟨?_, List.pairwise_map.mp horder.disjoint, hapart, ?_, pool.frame?_update, ?_, ?_⟩
  · intro w hw
    refine ⟨horder.aligned _ (hextent w hw), Nat.pos_of_ne_zero fun hzero => ?_⟩
    have hbefore := horder.nonempty _ (hextent w hw)
    rw [DeviceWindow.stop, hzero, Nat.zero_mul, Nat.add_zero] at hbefore
    exact Nat.lt_irrefl _ hbefore
  · intro pa
    have hwindow : (∃ x ∈ pool.extents, x.1 ≤ pa.raw ∧ pa.raw < x.2) ↔
        ∃ w ∈ pool.windows, w.base ≤ pa.raw ∧ pa.raw < w.stop := by simp [extents]
    rw [isSome_frame?_iff, isSome_ramIndex?_iff, hwindow, and_or_left]
  · intro pa bytes hrange
    obtain ⟨w, hw, -, hstop⟩ := isDeviceRange_iff.mp hrange
    exact Nat.lt_of_le_of_lt hstop (hfit _ (hextent w hw))
  · intro pa bytes hrange q haligned hlower hupper
    obtain ⟨hram, hpage⟩ := devicePage_of_isDeviceRange hapart hrange hlower hupper
    refine ⟨hram, hpage, ?_⟩
    rw [frame?, hram]
    exact if_pos haligned

end FramePool

/-! ## Loans -/

/-- A machine and the frames that are on loan: handed out, and not given back since. -/
structure Lending where
  machine : Machine
  lent : Finset PhysAddr

namespace Lending

/-- What can be asked for.  Any address can be given back, whether or not a frame there is on
loan. -/
inductive Request where
  | take
  | giveBack (pa : PhysAddr)

def start (frames : Nat) (windows : List (Nat × Nat)) (log : Log) : Lending :=
  ⟨.sound (.fresh frames windows) log, ∅⟩

/-- The loans after a request, as its answer tells them. -/
def step (l : Lending) : Request → Lending
  | .take =>
    match l.machine.alloc? with
    | none => l
    | some (pa, machine) => ⟨machine, insert pa l.lent⟩
  | .giveBack pa => ⟨l.machine.free pa, l.lent.erase pa⟩

def after (l : Lending) (requests : List Request) : Lending := requests.foldl step l

variable {l : Lending} {pa : PhysAddr} {pool : FramePool}

/-- The used marks and the free list of a pool agree with the loans. -/
structure Balanced (l : Lending) : Prop where
  consistent : l.machine.pool.Consistent
  isUsed_iff : ∀ pa, l.machine.pool.isUsed pa = true ↔ pa ∈ l.lent
  freeFrames_add : l.machine.pool.freeFrames + #l.lent = l.machine.pool.capacity

theorem balanced_start (frames : Nat) (windows : List (Nat × Nat)) (log : Log) :
    (start frames windows log).Balanced := by
  refine ⟨FramePool.consistent_fresh frames windows, ?_, ?_⟩
  · intro pa
    change (FramePool.fresh frames windows).isUsed pa = true ↔ pa ∈ (∅ : Finset PhysAddr)
    rw [FramePool.isUsed_fresh]
    simp
  · obtain ⟨hram, hfree⟩ := FramePool.ram_fresh frames windows
    change (FramePool.fresh frames windows).free.length + 0 = (FramePool.fresh frames windows).ram.size
    rw [hram, hfree]
    simp [FramePool.ofFrames]

theorem Balanced.take (h : l.Balanced) {machine : Machine} (halloc : l.machine.alloc? = some (pa, machine)) :
    pa ∉ l.lent ∧ Balanced ⟨machine, insert pa l.lent⟩ := by
  have hpool := Machine.pool_of_alloc? halloc
  have hgrants := h.consistent.grants hpool
  have hnew : pa ∉ l.lent := by
    rw [← h.isUsed_iff, hgrants.unused]
    exact Bool.false_ne_true
  refine ⟨hnew, hgrants.consistent, ?_, ?_⟩
  · intro q
    rw [hgrants.isUsed_eq, Bool.or_eq_true, decide_eq_true_eq, h.isUsed_iff, mem_insert]
  · have hcount := h.freeFrames_add
    have hsize := (FramePool.sameLayout_of_alloc? hpool).size_eq
    rw [FramePool.capacity, hgrants.freeFrames_eq] at hcount
    change machine.pool.freeFrames + #(insert pa l.lent) = machine.pool.ram.size
    rw [hsize, card_insert_of_notMem hnew]
    omega

theorem Balanced.giveBack (h : l.Balanced) (hpa : pa ∈ l.lent) :
    ∃ pool, l.machine.free pa = { l.machine with pool } ∧ l.machine.pool.Reclaims pa pool ∧
      Balanced ⟨l.machine.free pa, l.lent.erase pa⟩ := by
  obtain ⟨pool, hfree, hreclaims⟩ :=
    Machine.free_of_isUsed h.consistent ((h.isUsed_iff pa).mpr hpa)
  refine ⟨pool, hfree, hreclaims, ?_⟩
  have hlayout := (Machine.lasting_sameLayout l.machine.pool).free l.machine pa (.refl _)
  rw [hfree] at hlayout ⊢
  refine ⟨hreclaims.consistent, ?_, ?_⟩
  · intro q
    rw [hreclaims.isUsed_eq, Bool.and_eq_true, Bool.not_eq_true', decide_eq_false_iff_not,
      h.isUsed_iff, mem_erase]
  · have hcount := h.freeFrames_add
    have hpos : 0 < #l.lent := card_pos.mpr ⟨pa, hpa⟩
    rw [FramePool.capacity, hlayout.size_eq, hreclaims.freeFrames_eq, card_erase_of_mem hpa]
    rw [FramePool.capacity] at hcount
    omega

/-- An address that is no frame on loan can be given back without any effect, apart from a
warning. -/
theorem Balanced.free_of_not_lent (h : l.Balanced) (hpa : pa ∉ l.lent) :
    ∃ text, l.machine.free pa = l.machine.note .warn "mm" text := by
  rw [Machine.free]
  split
  · next pool hrelease =>
    exact absurd ((h.isUsed_iff pa).mp (FramePool.isUsed_of_release?_self hrelease)) hpa
  · exact ⟨_, rfl⟩

theorem Balanced.step (h : l.Balanced) (request : Request) : (l.step request).Balanced := by
  cases request with
  | take =>
      rw [Lending.step]
      split
      · exact h
      · next halloc => exact (h.take halloc).2
  | giveBack pa =>
      rw [Lending.step]
      by_cases hpa : pa ∈ l.lent
      · obtain ⟨-, -, -, hbalanced⟩ := h.giveBack hpa
        exact hbalanced
      · obtain ⟨text, hnote⟩ := h.free_of_not_lent hpa
        rw [hnote, erase_eq_of_notMem hpa]
        exact ⟨h.consistent, h.isUsed_iff, h.freeFrames_add⟩

theorem Balanced.after (h : l.Balanced) (requests : List Request) : (l.after requests).Balanced := by
  induction requests generalizing l with
  | nil => exact h
  | cons request rest ih => exact ih (h.step request)

theorem lasting_step {P : Machine → Prop} (hP : Machine.Lasting P) (h : P l.machine)
    (request : Request) : P (l.step request).machine := by
  cases request with
  | take =>
      rw [step]
      split
      · exact h
      · next halloc => exact hP.alloc _ _ _ halloc h
  | giveBack pa => exact hP.free _ pa h

theorem lasting_after {P : Machine → Prop} (hP : Machine.Lasting P) (h : P l.machine)
    (requests : List Request) : P (l.after requests).machine := by
  induction requests generalizing l with
  | nil => exact h
  | cons request rest ih => exact ih (lasting_step hP h request)

theorem Balanced.free_eq_nil_iff (h : l.Balanced) :
    l.machine.pool.free = [] ↔
      ∀ index < l.machine.pool.capacity, FramePool.ramAddr index ∈ l.lent := by
  rw [List.eq_nil_iff_forall_not_mem]
  refine forall_congr' fun index => ?_
  rw [h.consistent.mem_free_iff_unused, not_and, Bool.not_eq_false, h.isUsed_iff]
  rfl

theorem alloc?_eq_none_iff (m : Machine) : m.alloc? = none ↔ m.pool.free = [] := by
  rw [Machine.alloc?, Option.map_eq_none_iff, FramePool.alloc?]
  cases m.pool.free <;> simp

/-- What holds of the frames on loan and of the device windows, for a pool with so many frames. -/
structure InOrder (frames : Nat) (l : Lending) : Prop where
  free_nodup : l.machine.pool.free.Nodup
  mem_free_iff : ∀ index, index ∈ l.machine.pool.free ↔
    ∃ r, l.machine.pool.ram[index]? = some r ∧ r.inUse = false
  mem_lent_iff : ∀ pa, pa ∈ l.lent ↔ ∃ index r, FramePool.ramAddr index = pa ∧
    l.machine.pool.ram[index]? = some r ∧ r.inUse = true
  capacity_eq : l.machine.pool.capacity = frames
  freeFrames_add : l.machine.pool.freeFrames + #l.lent = frames
  take_fresh : ∀ pa machine, l.machine.alloc? = some (pa, machine) →
    pa ∉ l.lent ∧ ∃ index < frames, FramePool.ramAddr index = pa
  take_fails_iff : l.machine.alloc? = none ↔ ∀ index < frames, FramePool.ramAddr index ∈ l.lent
  giveBack_lent : ∀ pa ∈ l.lent,
    (l.machine.free pa).pool.freeFrames = l.machine.pool.freeFrames + 1
  giveBack_other : ∀ pa ∉ l.lent, ∃ text, l.machine.free pa = l.machine.note .warn "mm" text
  addressesApart : l.machine.pool.AddressesApart

theorem Balanced.mem_lent_iff (h : l.Balanced) : pa ∈ l.lent ↔ ∃ index r,
    FramePool.ramAddr index = pa ∧ l.machine.pool.ram[index]? = some r ∧ r.inUse = true := by
  rw [← h.isUsed_iff]
  constructor
  · intro hused
    obtain ⟨index, hindex, hany⟩ := FramePool.exists_index_of_isUsed hused
    rw [Option.any_eq_true] at hany
    obtain ⟨r, hr, hinUse⟩ := hany
    exact ⟨index, r, (FramePool.ramAddr_of_ramIndex? hindex).1, hr, hinUse⟩
  · rintro ⟨index, r, rfl, hr, hinUse⟩
    rw [FramePool.isUsed_ramAddr, hr]
    exact hinUse

/-- However often frames are taken, and whatever addresses are given back, no frame is on loan twice
and none is lost, and the device windows stay apart from RAM and from one another. -/
theorem inOrder_after (frames : Nat) (windows : List (Nat × Nat)) (log : Log)
    (requests : List Request) :
    InOrder frames ((start frames windows log).after requests) := by
  have hbalanced := (balanced_start frames windows log).after requests
  have hlayout : (FramePool.fresh frames windows).SameLayout
      ((start frames windows log).after requests).machine.pool :=
    lasting_after (l := start frames windows log)
      (Machine.lasting_sameLayout (.fresh frames windows)) (.refl _) requests
  generalize (start frames windows log).after requests = l at *
  have hcapacity : l.machine.pool.capacity = frames := by
    rw [FramePool.capacity, hlayout.size_eq, (FramePool.ram_fresh frames windows).1]
    simp [FramePool.ofFrames]
  refine ⟨hbalanced.consistent.nodup, hbalanced.consistent.mem_free_iff, fun _ => hbalanced.mem_lent_iff,
    hcapacity, hcapacity ▸ hbalanced.freeFrames_add, ?_, ?_, ?_,
    fun _ hpa => hbalanced.free_of_not_lent hpa, FramePool.addressesApart_of_layout hlayout⟩
  · intro pa machine halloc
    obtain ⟨index, bound, haddr, -⟩ :=
      (hbalanced.consistent.grants (Machine.pool_of_alloc? halloc)).free_eq
    exact ⟨(hbalanced.take halloc).1, index, hcapacity ▸ bound, haddr⟩
  · rw [alloc?_eq_none_iff, hbalanced.free_eq_nil_iff, hcapacity]
  · intro pa hpa
    obtain ⟨pool, hfree, hreclaims, -⟩ := hbalanced.giveBack hpa
    rw [hfree]
    exact hreclaims.freeFrames_eq

end Lending

end Exokernel
