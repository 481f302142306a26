import Exokernel.Memory.Memory
import Exokernel.Proofs.Memory.Pool

/-! # The ledger of the frames

Every frame that is handed out is held by mappings, holds a leaf table, or is one of the strays that
nobody accounts for.  The three never meet, and the reference count of a frame is the number of its
mappings.  Taking a frame, counting a mapping and releasing one keep the ledger balanced. -/

namespace Exokernel

/-- How often a backing maps a frame: once or not at all. -/
def Backing.holds (b : Backing) (pa : PhysAddr) : Nat := if b = .frame pa then 1 else 0

@[simp] theorem Backing.holds_frame_self (pa : PhysAddr) : (Backing.frame pa).holds pa = 1 := by
  simp [holds]

theorem Backing.holds_frame (pa q : PhysAddr) :
    (Backing.frame pa).holds q = if q = pa then 1 else 0 := by
  simp only [holds, Backing.frame.injEq, eq_comm]

theorem Backing.holds_of_ne {b : Backing} {pa : PhysAddr} (h : b ≠ .frame pa) : b.holds pa = 0 :=
  if_neg h

@[simp] theorem Backing.holds_lazy (fill : Fill) (q : PhysAddr) : (Backing.lazy fill).holds q = 0 :=
  rfl

theorem Machine.pool_of_alloc? {m m' : Machine} {pa : PhysAddr} (h : m.alloc? = some (pa, m')) :
    m.pool.alloc? = some (pa, m'.pool) := by
  obtain ⟨⟨pa', pool⟩, halloc, heq⟩ := Option.map_eq_some_iff.mp h
  cases heq
  exact halloc

theorem Machine.free_of_isUsed {m : Machine} {pa : PhysAddr} (h : m.pool.Consistent)
    (hused : m.pool.isUsed pa = true) :
    ∃ pool, m.free pa = { m with pool } ∧ m.pool.Reclaims pa pool := by
  obtain ⟨pool, hrelease, hreclaims⟩ := h.reclaims hused
  refine ⟨pool, ?_, hreclaims⟩
  rw [Machine.free, hrelease]

/-- A fresh frame is taken from the machine, filled, and counted once. -/
theorem Memory.fresh?_eq_some {m m' : Memory} {fill : Fill} {pa : PhysAddr}
    (h : m.fresh? fill = some (pa, m')) :
    ∃ machine, m.machine.alloc? = some (pa, machine) ∧
      m' = ⟨machine.update pa fun _ => fill.frame, m.refs.set pa 1⟩ := by
  rw [Memory.fresh?] at h
  split at h
  · cases h
  · next pa' machine halloc =>
    split at h
    · cases h
    · cases h
      exact ⟨machine, halloc, rfl⟩

/-! ## Listed frames -/

theorem RefCounts.listed_set {refs : RefCounts}
    (h : ∀ pa : PhysAddr, pa.raw ∈ refs.counts → 0 < refs.count pa) (pa : PhysAddr) {n : Nat}
    (hn : 0 < n) (q : PhysAddr) (hq : q.raw ∈ (refs.set pa n).counts) :
    0 < (refs.set pa n).count q := by
  rw [count_set]
  split
  · exact hn
  · next apart =>
    apply h q
    rcases Std.TreeMap.mem_insert.mp hq with heq | hmem
    · exact absurd (PhysAddr.ext (Nat.compare_eq_eq.mp heq)) apart
    · exact hmem

theorem RefCounts.listed_erase {refs : RefCounts}
    (h : ∀ pa : PhysAddr, pa.raw ∈ refs.counts → 0 < refs.count pa) (pa q : PhysAddr)
    (hq : q.raw ∈ (refs.erase pa).counts) : 0 < (refs.erase pa).count q := by
  obtain ⟨hne, hmem⟩ := Std.TreeMap.mem_erase.mp hq
  have apart : pa ≠ q := by
    rintro rfl
    exact hne (Nat.compare_eq_eq.mpr rfl)
  rw [count_erase, if_neg apart]
  exact h q hmem

/-! ## The ledger -/

/-- The memory agrees with `mapped`, the number of mappings of each frame, and with `leaves`, the
frames of the leaf tables.  `stray` frames are handed out and held by neither. -/
structure Ledger (m : Memory) (mapped : PhysAddr → Nat) (leaves : List PhysAddr)
    (stray : PhysAddr → Prop) : Prop where
  consistent : m.machine.pool.Consistent
  listed : ∀ pa : PhysAddr, pa.raw ∈ m.refs.counts → 0 < m.refs.count pa
  count_eq : ∀ pa, m.refs.count pa = mapped pa
  leaves_nodup : leaves.Nodup
  leaves_unmapped : ∀ pa ∈ leaves, mapped pa = 0
  stray_apart : ∀ pa, stray pa → mapped pa = 0 ∧ pa ∉ leaves
  used_iff : ∀ pa, m.machine.pool.isUsed pa = true ↔ 0 < mapped pa ∨ pa ∈ leaves ∨ stray pa

namespace Ledger

variable {m : Memory} {mapped : PhysAddr → Nat} {leaves : List PhysAddr}
  {stray : PhysAddr → Prop}

/-- Where nothing is mapped and there is no leaf table, all frames that are handed out are
strays. -/
theorem of_pool {machine : Machine} (hpool : machine.pool.Consistent) :
    Ledger ⟨machine, .empty⟩ (fun _ => 0) [] fun pa => machine.pool.isUsed pa = true := by
  refine ⟨hpool, ?_, RefCounts.count_empty, List.nodup_nil, nofun, ?_, ?_⟩
  · intro pa hpa
    simp [RefCounts.empty] at hpa
  · exact fun _ _ => ⟨rfl, List.not_mem_nil⟩
  · simp

theorem of_eq {m' : Memory} (h : Ledger m mapped leaves stray)
    (hpool : m'.machine.pool = m.machine.pool) (hrefs : m'.refs = m.refs) :
    Ledger m' mapped leaves stray := by
  obtain ⟨consistent, listed, count_eq, nodup, unmapped, apart, used⟩ := h
  rw [← hpool] at consistent used
  rw [← hrefs] at listed count_eq
  exact ⟨consistent, listed, count_eq, nodup, unmapped, apart, used⟩

theorem congr {mapped' : PhysAddr → Nat} {leaves' : List PhysAddr}
    (h : Ledger m mapped leaves stray) (hmapped : ∀ pa, mapped' pa = mapped pa)
    (hleaves : leaves'.Perm leaves) : Ledger m mapped' leaves' stray := by
  have hmem : ∀ pa, pa ∈ leaves' ↔ pa ∈ leaves := fun _ => hleaves.mem_iff
  refine ⟨h.consistent, h.listed, ?_, hleaves.nodup_iff.mpr h.leaves_nodup, ?_, ?_, ?_⟩
  · intro pa
    rw [hmapped]
    exact h.count_eq pa
  · intro pa hpa
    rw [hmapped]
    exact h.leaves_unmapped pa ((hmem pa).mp hpa)
  · intro pa hpa
    rw [hmapped, hmem]
    exact h.stray_apart pa hpa
  · intro pa
    rw [hmapped, hmem]
    exact h.used_iff pa

theorem isUsed_of_mapped (h : Ledger m mapped leaves stray) {pa : PhysAddr}
    (hpa : 0 < mapped pa) : m.machine.pool.isUsed pa = true :=
  (h.used_iff pa).mpr (Or.inl hpa)

theorem free_of_unused (h : Ledger m mapped leaves stray) {pa : PhysAddr}
    (hpa : m.machine.pool.isUsed pa = false) : mapped pa = 0 ∧ pa ∉ leaves ∧ ¬ stray pa := by
  have hnot : ¬ (0 < mapped pa ∨ pa ∈ leaves ∨ stray pa) := by
    rw [← h.used_iff pa, hpa]
    exact Bool.false_ne_true
  refine ⟨?_, fun hmem => hnot (Or.inr (Or.inl hmem)), fun hs => hnot (Or.inr (Or.inr hs))⟩
  exact Nat.eq_zero_of_not_pos fun hpos => hnot (Or.inl hpos)

theorem note (h : Ledger m mapped leaves stray) (level : LogLevel) (target text : String) :
    Ledger (m.note level target text) mapped leaves stray :=
  h.of_eq rfl rfl

theorem update (h : Ledger m mapped leaves stray) (pa : PhysAddr) (f : Frame → Frame) :
    Ledger ⟨m.machine.update pa f, m.refs⟩ mapped leaves stray := by
  refine ⟨h.consistent.update pa f, h.listed, h.count_eq, h.leaves_nodup, h.leaves_unmapped,
    h.stray_apart, ?_⟩
  intro q
  rw [← h.used_iff q]
  exact Iff.of_eq (congrArg (· = true) (FramePool.isUsed_update _ _ _ _))

/-! ## Leaf tables -/

theorem allocLeaf {machine : Machine} {pa : PhysAddr} (h : Ledger m mapped leaves stray)
    (hgrant : m.machine.pool.Grants pa machine.pool) :
    Ledger ⟨machine, m.refs⟩ mapped (pa :: leaves) stray := by
  obtain ⟨hmapped, hleaf, hstray⟩ := h.free_of_unused hgrant.unused
  refine ⟨hgrant.consistent, h.listed, h.count_eq, List.nodup_cons.mpr ⟨hleaf, h.leaves_nodup⟩,
    ?_, ?_, ?_⟩
  · intro q hq
    rcases List.mem_cons.mp hq with rfl | hq
    · exact hmapped
    · exact h.leaves_unmapped q hq
  · intro q hq
    refine ⟨(h.stray_apart q hq).1, ?_⟩
    intro hmem
    rcases List.mem_cons.mp hmem with rfl | hmem
    · exact hstray hq
    · exact (h.stray_apart q hq).2 hmem
  · intro q
    rw [hgrant.isUsed_eq, Bool.or_eq_true, decide_eq_true_eq, h.used_iff, List.mem_cons]
    tauto

theorem freeLeaf {pa : PhysAddr} (h : Ledger m mapped (pa :: leaves) stray) :
    Ledger ⟨m.machine.free pa, m.refs⟩ mapped leaves stray := by
  obtain ⟨hleaf, hnodup⟩ := List.nodup_cons.mp h.leaves_nodup
  have hused : m.machine.pool.isUsed pa = true :=
    (h.used_iff pa).mpr (Or.inr (Or.inl List.mem_cons_self))
  obtain ⟨pool, hfree, hreclaims⟩ := Machine.free_of_isUsed h.consistent hused
  rw [hfree]
  refine ⟨hreclaims.consistent, h.listed, h.count_eq, hnodup, ?_, ?_, ?_⟩
  · intro q hq
    exact h.leaves_unmapped q (List.mem_cons_of_mem _ hq)
  · intro q hq
    obtain ⟨hmapped, hmem⟩ := h.stray_apart q hq
    exact ⟨hmapped, fun hin => hmem (List.mem_cons_of_mem _ hin)⟩
  · intro q
    rw [hreclaims.isUsed_eq, Bool.and_eq_true, h.used_iff, List.mem_cons]
    by_cases hq : q = pa
    · subst hq
      have hmapped := h.leaves_unmapped q List.mem_cons_self
      have hstray : ¬ stray q := fun hs => (h.stray_apart q hs).2 List.mem_cons_self
      simp [hmapped, hleaf, hstray]
    · simp [hq]

/-! ## Mappings -/

theorem fresh {machine : Machine} {pa : PhysAddr} {f : Frame → Frame}
    (h : Ledger m mapped leaves stray) (hgrant : m.machine.pool.Grants pa machine.pool) :
    Ledger ⟨machine.update pa f, m.refs.set pa 1⟩ (fun q => mapped q + (Backing.frame pa).holds q)
      leaves stray := by
  obtain ⟨hmapped, hleaf, hstray⟩ := h.free_of_unused hgrant.unused
  refine ⟨hgrant.consistent.update pa f, RefCounts.listed_set h.listed pa Nat.one_pos, ?_,
    h.leaves_nodup, ?_, ?_, ?_⟩
  · intro q
    rw [RefCounts.count_set, Backing.holds_frame]
    by_cases hq : q = pa
    · subst hq
      rw [if_pos rfl, if_pos rfl, hmapped]
    · rw [if_neg (Ne.symm hq), if_neg hq, h.count_eq q, Nat.add_zero]
  · intro q hq
    have apart : q ≠ pa := fun heq => hleaf (heq ▸ hq)
    rw [Backing.holds_frame, if_neg apart, h.leaves_unmapped q hq]
  · intro q hq
    have apart : q ≠ pa := fun heq => hstray (heq ▸ hq)
    rw [Backing.holds_frame, if_neg apart]
    exact h.stray_apart q hq
  · intro q
    have hused : (machine.update pa f).pool.isUsed q = machine.pool.isUsed q :=
      FramePool.isUsed_update _ _ _ _
    change (machine.update pa f).pool.isUsed q = true ↔ _
    rw [hused, hgrant.isUsed_eq, Bool.or_eq_true, decide_eq_true_eq, h.used_iff,
      Backing.holds_frame]
    by_cases hq : q = pa
    · simp [hq]
    · simp [hq]

theorem recount {pa : PhysAddr} {n : Nat} (h : Ledger m mapped leaves stray) (hpa : 0 < mapped pa)
    (hn : 0 < n) :
    Ledger { m with refs := m.refs.set pa n } (fun q => if q = pa then n else mapped q) leaves
      stray := by
  refine ⟨h.consistent, RefCounts.listed_set h.listed pa hn, ?_, h.leaves_nodup, ?_, ?_, ?_⟩
  · intro q
    rw [RefCounts.count_set, h.count_eq]
    simp only [eq_comm]
  · intro q hq
    have hzero := h.leaves_unmapped q hq
    have apart : q ≠ pa := by
      rintro rfl
      omega
    rw [if_neg apart, hzero]
  · intro q hq
    obtain ⟨hzero, hmem⟩ := h.stray_apart q hq
    have apart : q ≠ pa := by
      rintro rfl
      omega
    rw [if_neg apart, hzero]
    exact ⟨rfl, hmem⟩
  · intro q
    rw [h.used_iff]
    by_cases hq : q = pa
    · subst hq
      simp [hpa, hn]
    · simp [hq]

theorem retain {b : Backing} (h : Ledger m mapped leaves stray)
    (hb : ∀ pa, b = .frame pa → 0 < mapped pa) :
    Ledger (m.retain b) (fun q => mapped q + b.holds q) leaves stray := by
  cases b with
  | device pa => exact h
  | lazy fill => exact h
  | frame pa =>
      refine (h.recount (hb pa rfl) (Nat.succ_pos (m.refs.count pa))).congr ?_ (.refl _)
      intro q
      rw [Backing.holds_frame]
      by_cases hq : q = pa
      · rw [if_pos hq, if_pos hq, h.count_eq, hq]
      · rw [if_neg hq, if_neg hq, Nat.add_zero]

theorem release_last {pa : PhysAddr}
    (h : Ledger m (fun q => mapped q + (Backing.frame pa).holds q) leaves stray)
    (hpa : mapped pa = 0) : Ledger (m.release (.frame pa)) mapped leaves stray := by
  have hcount : m.refs.count pa = 1 := by
    rw [h.count_eq, hpa, Backing.holds_frame_self]
  have hleaf : pa ∉ leaves := by
    intro hmem
    have hzero := h.leaves_unmapped pa hmem
    simp at hzero
  have hstray : ¬ stray pa := by
    intro hs
    have hzero := (h.stray_apart pa hs).1
    simp at hzero
  have hused : m.machine.pool.isUsed pa = true := h.isUsed_of_mapped (by simp)
  obtain ⟨pool, hfree, hreclaims⟩ := Machine.free_of_isUsed h.consistent hused
  have heq : m.release (.frame pa) = ⟨{ m.machine with pool }, m.refs.erase pa⟩ := by
    simp only [Memory.release, hcount, hfree]
  rw [heq]
  refine ⟨hreclaims.consistent, RefCounts.listed_erase h.listed pa, ?_, h.leaves_nodup, ?_, ?_, ?_⟩
  · intro q
    rw [RefCounts.count_erase]
    split
    · next hq => rw [← hq, hpa]
    · next hq => rw [h.count_eq, Backing.holds_frame, if_neg (Ne.symm hq), Nat.add_zero]
  · intro q hq
    exact Nat.eq_zero_of_add_eq_zero_right (h.leaves_unmapped q hq)
  · intro q hq
    exact (h.stray_apart q hq).imp_left Nat.eq_zero_of_add_eq_zero_right
  · intro q
    rw [hreclaims.isUsed_eq, Bool.and_eq_true, h.used_iff, Backing.holds_frame]
    by_cases hq : q = pa
    · subst hq
      simp [hpa, hleaf, hstray]
    · simp [hq]

/-- A mapping that is released.  With its last mapping a frame goes back to the pool. -/
theorem release {b : Backing} (h : Ledger m (fun q => mapped q + b.holds q) leaves stray) :
    Ledger (m.release b) mapped leaves stray := by
  cases b with
  | device pa => exact h
  | lazy fill => exact h
  | frame pa =>
      cases hmapped : mapped pa with
      | zero => exact h.release_last hmapped
      | succ n =>
          have hcount : m.refs.count pa = n + 2 := by
            rw [h.count_eq, hmapped, Backing.holds_frame_self]
          have heq : m.release (.frame pa) = { m with refs := m.refs.set pa (n + 1) } := by
            simp only [Memory.release, hcount]
          rw [heq]
          refine (h.recount (by simp) (Nat.succ_pos n)).congr ?_ (.refl _)
          intro q
          by_cases hq : q = pa
          · rw [if_pos hq, hq, hmapped]
          · rw [if_neg hq, Backing.holds_frame, if_neg hq, Nat.add_zero]

end Ledger

end Exokernel
