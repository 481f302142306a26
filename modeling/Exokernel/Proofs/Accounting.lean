import Exokernel.Proofs.Mapping.Census

/-! # Accounting for frames

The reference count of every frame is the number of page-table entries that map it, and the frames
that are counted and the frames of the leaf tables are distinct and handed out.  `Balanced` is the
same with the frames named that are handed out and held by nobody; it is what single operations
keep, so that they neither lose a frame nor free one that is held. -/

namespace Exokernel

/-- The number of entries of some page tables that map a frame. -/
def mapsIn (tables : List PageTable) (pa : PhysAddr) : Nat :=
  (tables.map fun t => t.mapCount pa).sum

def leavesIn (tables : List PageTable) : List PhysAddr := tables.flatMap PageTable.leafFrames

@[simp] theorem mapsIn_nil (pa : PhysAddr) : mapsIn [] pa = 0 := rfl

@[simp] theorem mapsIn_cons (t : PageTable) (rest : List PageTable) (pa : PhysAddr) :
    mapsIn (t :: rest) pa = t.mapCount pa + mapsIn rest pa := by
  simp [mapsIn]

@[simp] theorem leavesIn_nil : leavesIn [] = [] := rfl

@[simp] theorem leavesIn_cons (t : PageTable) (rest : List PageTable) :
    leavesIn (t :: rest) = t.leafFrames ++ leavesIn rest := by
  simp [leavesIn]

theorem mapsIn_pos_iff {tables : List PageTable} {pa : PhysAddr} :
    0 < mapsIn tables pa ↔ ∃ t ∈ tables, ∃ p, t.backing? p = some (.frame pa) := by
  induction tables with
  | nil => simp
  | cons t rest ih =>
      rw [mapsIn_cons, Nat.add_pos_iff_pos_or_pos, PageTable.mapCount_pos_iff, ih]
      simp

/-- A frame that is mapped once is mapped at one page of one space. -/
theorem sole_of_mapsIn {t : PageTable} {rest : List PageTable} {p : VirtPage} {pa : PhysAddr}
    (hp : t.backing? p = some (.frame pa)) (hone : mapsIn (t :: rest) pa = 1) :
    (∀ q, t.backing? q = some (.frame pa) → q = p) ∧
      ∀ u ∈ rest, ∀ q, u.backing? q ≠ some (.frame pa) := by
  have hown : 0 < t.mapCount pa := PageTable.mapCount_pos_iff.mpr ⟨p, hp⟩
  rw [mapsIn_cons] at hone
  constructor
  · intro q hq
    have hcard : t.mapCount pa ≤ 1 := by omega
    exact Finset.card_le_one.mp hcard q (by simp [hq]) p (by simp [hp])
  · intro u hu q hq
    have hpos : 0 < mapsIn rest pa := mapsIn_pos_iff.mpr ⟨u, hu, q, hq⟩
    omega

theorem mapsIn_perm {tables tables' : List PageTable} (h : tables'.Perm tables) (pa : PhysAddr) :
    mapsIn tables' pa = mapsIn tables pa :=
  (h.map _).sum_eq

theorem leavesIn_perm {tables tables' : List PageTable} (h : tables'.Perm tables) :
    (leavesIn tables').Perm (leavesIn tables) :=
  h.flatMap_right _

/-! ## What changes of a table do to the counts -/

/-- The new mapping is counted, and the one that it replaces is not counted any more. -/
theorem mapsIn_insert {t t' : PageTable} {m m' : Machine} {p : VirtPage} {e : PageEntry}
    {old : Option PageEntry} (h : t.insert m p e = some (old, t', m')) (rest : List PageTable)
    (pa : PhysAddr) : mapsIn (t' :: rest) pa + held (old.map PageEntry.backing) pa =
      mapsIn (t :: rest) pa + e.backing.holds pa := by
  have hback : ∀ q, t'.backing? q = if p = q then some e.backing else t.backing? q := by
    intro q
    rw [PageTable.backing?, PageTable.lookup_insert h, apply_ite (Option.map _)]
    rfl
  have hcount := PageTable.mapCount_update hback pa
  rw [held_some] at hcount
  rw [PageTable.old_of_insert h, mapsIn_cons, mapsIn_cons]
  change _ + held (t.backing? p) pa = _
  omega

theorem mapsIn_remove {t t' : PageTable} {m m' : Machine} {p : VirtPage} {old : Option PageEntry}
    (hwf : t.WellFormed) (h : t.remove m p = (old, t', m')) (rest : List PageTable)
    (pa : PhysAddr) :
    mapsIn (t' :: rest) pa + held (old.map PageEntry.backing) pa = mapsIn (t :: rest) pa := by
  have hback : ∀ q, t'.backing? q = if p = q then none else t.backing? q := by
    intro q
    have hlookup := hwf.lookup_remove m p q
    rw [h] at hlookup
    rw [PageTable.backing?, hlookup]
    split <;> rfl
  have hold : old = t.lookup p := by rw [← PageTable.fst_remove t m p, h]
  have hcount := PageTable.mapCount_update hback pa
  rw [held_none, Nat.add_zero] at hcount
  rw [mapsIn_cons, mapsIn_cons, hold]
  change _ + held (t.backing? p) pa = _
  omega

theorem PageTable.backing?_materialise {t : PageTable} {p : VirtPage} {e : PageEntry}
    (h : t.lookup p = some e) (pa : PhysAddr) (q : VirtPage) :
    (t.modify p fun e => { e with backing := .frame pa }).backing? q =
      if p = q then some (.frame pa) else t.backing? q := by
  rw [backing?, lookup_modify]
  split
  · next hq => rw [← hq, h]; rfl
  · rfl

theorem mapsIn_materialise {t : PageTable} {p : VirtPage} {fill : Fill} {flags : PageFlags}
    (h : t.lookup p = some ⟨.lazy fill, flags⟩) (pa : PhysAddr) (rest : List PageTable)
    (q : PhysAddr) :
    mapsIn (t.modify p (fun e => { e with backing := .frame pa }) :: rest) q =
      mapsIn (t :: rest) q + (Backing.frame pa).holds q := by
  have hlazy : t.backing? p = some (.lazy fill) := by
    rw [PageTable.backing?, h]
    rfl
  have hcount := PageTable.mapCount_update (PageTable.backing?_materialise h pa) q
  rw [hlazy, held_some, held_some, Backing.holds_lazy, Nat.add_zero] at hcount
  rw [mapsIn_cons, mapsIn_cons, hcount]
  omega

/-- The frames of the memory and the page tables of all spaces agree.  The pool and the tables are
themselves in order: a frame is free or handed out and never both, and the live counters of leaf
tables are right. -/
structure Accounting (m : Memory) (tables : List PageTable) : Prop where
  pool : m.machine.pool.Consistent
  tables_wellFormed : ∀ t ∈ tables, t.WellFormed
  listed : ∀ pa : PhysAddr, pa.raw ∈ m.refs.counts → 0 < m.refs.count pa
  count_eq : ∀ pa, m.refs.count pa = mapsIn tables pa
  leaves_nodup : (leavesIn tables).Nodup
  leaves_uncounted : ∀ pa ∈ leavesIn tables, m.refs.count pa = 0
  counted_used : ∀ pa, 0 < m.refs.count pa → m.machine.pool.isUsed pa = true
  leaves_used : ∀ pa ∈ leavesIn tables, m.machine.pool.isUsed pa = true

/-- The ledger of the memory is that of some page tables, all of them well formed, and of the stray
frames. -/
structure Balanced (stray : PhysAddr → Prop) (m : Memory) (tables : List PageTable) : Prop where
  ledger : Ledger m (mapsIn tables) (leavesIn tables) stray
  wellFormed : ∀ t ∈ tables, t.WellFormed

theorem Balanced.accounting {stray : PhysAddr → Prop} {m : Memory} {tables : List PageTable}
    (h : Balanced stray m tables) : Accounting m tables := by
  refine ⟨h.ledger.consistent, h.wellFormed, h.ledger.listed, h.ledger.count_eq,
    h.ledger.leaves_nodup, ?_, ?_, ?_⟩
  · intro pa hpa
    rw [h.ledger.count_eq]
    exact h.ledger.leaves_unmapped pa hpa
  · intro pa hpa
    exact h.ledger.isUsed_of_mapped (h.ledger.count_eq pa ▸ hpa)
  · intro pa hpa
    exact (h.ledger.used_iff pa).mpr (Or.inr (Or.inl hpa))

/-- The frames that are handed out and held by nobody. -/
def strays (m : Memory) (tables : List PageTable) (pa : PhysAddr) : Prop :=
  m.machine.pool.isUsed pa = true ∧ mapsIn tables pa = 0 ∧ pa ∉ leavesIn tables

theorem Accounting.balanced {m : Memory} {tables : List PageTable} (h : Accounting m tables) :
    Balanced (strays m tables) m tables := by
  refine ⟨⟨h.pool, h.listed, h.count_eq, h.leaves_nodup, ?_, fun _ hpa => hpa.2, ?_⟩,
    h.tables_wellFormed⟩
  · intro pa hpa
    rw [← h.count_eq]
    exact h.leaves_uncounted pa hpa
  · intro pa
    constructor
    · intro hused
      by_cases hmapped : 0 < mapsIn tables pa
      · exact Or.inl hmapped
      · by_cases hleaf : pa ∈ leavesIn tables
        · exact Or.inr (Or.inl hleaf)
        · exact Or.inr (Or.inr ⟨hused, Nat.eq_zero_of_not_pos hmapped, hleaf⟩)
    · rintro (hmapped | hleaf | hstray)
      · exact h.counted_used pa (h.count_eq pa ▸ hmapped)
      · exact h.leaves_used pa hleaf
      · exact hstray.1

theorem Balanced.perm {stray : PhysAddr → Prop} {m : Memory} {tables tables' : List PageTable}
    (h : Balanced stray m tables) (hperm : tables'.Perm tables) : Balanced stray m tables' :=
  ⟨h.ledger.congr (mapsIn_perm hperm) (leavesIn_perm hperm),
    fun t ht => h.wellFormed t (hperm.mem_iff.mp ht)⟩

theorem Accounting.perm {m : Memory} {tables tables' : List PageTable} (h : Accounting m tables)
    (hperm : tables'.Perm tables) : Accounting m tables' :=
  (h.balanced.perm hperm).accounting

theorem Balanced.of_eq {stray : PhysAddr → Prop} {m m' : Memory} {tables : List PageTable}
    (h : Balanced stray m tables) (hpool : m'.machine.pool = m.machine.pool)
    (hrefs : m'.refs = m.refs) : Balanced stray m' tables :=
  ⟨h.ledger.of_eq hpool hrefs, h.wellFormed⟩

theorem Balanced.isUsed_of_backing {stray : PhysAddr → Prop} {m : Memory}
    {tables : List PageTable} (h : Balanced stray m tables) {t : PageTable} (ht : t ∈ tables)
    {p : VirtPage} {pa : PhysAddr} (hp : t.backing? p = some (.frame pa)) :
    m.machine.pool.isUsed pa = true := by
  apply h.ledger.isUsed_of_mapped
  exact mapsIn_pos_iff.mpr ⟨t, ht, p, hp⟩

theorem balanced_ofMachine {machine : Machine} (hpool : machine.pool.Consistent)
    (hunused : ∀ pa, machine.pool.isUsed pa = false) :
    Balanced (fun _ => False) (.ofMachine machine) [] := by
  refine ⟨⟨hpool, ?_, RefCounts.count_empty, List.nodup_nil, nofun, nofun, ?_⟩, nofun⟩
  · intro pa hpa
    exact absurd hpa Std.TreeMap.not_mem_emptyc
  · intro pa
    change machine.pool.isUsed pa = true ↔ _
    rw [hunused]
    simp

theorem Balanced.cons_empty {stray : PhysAddr → Prop} {m : Memory} {tables : List PageTable}
    (h : Balanced stray m tables) : Balanced stray m (.empty :: tables) := by
  refine ⟨h.ledger.congr ?_ ?_, ?_⟩
  · intro pa
    rw [mapsIn_cons, PageTable.mapCount_empty, Nat.zero_add]
  · rw [leavesIn_cons, PageTable.leafFrames_empty, List.nil_append]
  · intro t ht
    rcases List.mem_cons.mp ht with rfl | ht
    · exact PageTable.wellFormed_empty
    · exact h.wellFormed t ht

/-! ## The number of frames -/

def RefCounts.listed (r : RefCounts) : List PhysAddr := r.counts.keys.map PhysAddr.mk

theorem RefCounts.length_listed (r : RefCounts) : r.listed.length = r.liveFrames := by
  rw [listed, List.length_map, Std.TreeMap.length_keys, liveFrames]

theorem RefCounts.nodup_listed (r : RefCounts) : r.listed.Nodup := by
  apply List.Nodup.map
  · intro a b hab
    exact congrArg PhysAddr.raw hab
  · exact Std.TreeMap.nodup_keys

theorem RefCounts.mem_listed {r : RefCounts} {pa : PhysAddr} :
    pa ∈ r.listed ↔ pa.raw ∈ r.counts := by
  rw [listed, List.mem_map]
  constructor
  · rintro ⟨raw, hraw, rfl⟩
    exact Std.TreeMap.mem_keys.mp hraw
  · intro h
    exact ⟨pa.raw, Std.TreeMap.mem_keys.mpr h, rfl⟩

theorem RefCounts.mem_listed_of_pos {r : RefCounts} {pa : PhysAddr} (h : 0 < r.count pa) :
    pa ∈ r.listed := by
  rw [mem_listed]
  by_contra hnot
  rw [count, Std.TreeMap.getD_eq_fallback hnot] at h
  exact Nat.lt_irrefl 0 h

theorem length_leavesIn (tables : List PageTable) :
    (leavesIn tables).length = (tables.map PageTable.tablePages).sum := by
  induction tables with
  | nil => rfl
  | cons t rest ih =>
      rw [leavesIn_cons, List.length_append, ih, List.map_cons, List.sum_cons,
        PageTable.length_leafFrames]

/-- Without strays every frame is free, counted, or holds a leaf table, and only one of them. -/
theorem Balanced.perm_frames {m : Memory} {tables : List PageTable}
    (h : Balanced (fun _ => False) m tables) :
    ((List.range m.machine.pool.capacity).map FramePool.ramAddr).Perm
      (m.machine.pool.free.map FramePool.ramAddr ++ (m.refs.listed ++ leavesIn tables)) := by
  have hpool := h.ledger.consistent
  have hcounted : ∀ pa, pa ∈ m.refs.listed ↔ 0 < mapsIn tables pa := by
    intro pa
    rw [← h.ledger.count_eq]
    exact ⟨fun hmem => h.ledger.listed pa (RefCounts.mem_listed.mp hmem),
      RefCounts.mem_listed_of_pos⟩
  have hused : ∀ pa, pa ∈ m.refs.listed ++ leavesIn tables ↔ m.machine.pool.isUsed pa = true := by
    intro pa
    rw [List.mem_append, hcounted, h.ledger.used_iff]
    simp
  have hfree : ∀ index, index ∈ m.machine.pool.free ↔ index < m.machine.pool.capacity ∧
      m.machine.pool.isUsed (FramePool.ramAddr index) = false := hpool.mem_free_iff_unused
  have hinjective : Function.Injective FramePool.ramAddr := fun _ _ => FramePool.ramAddr_injective
  have hapart : m.refs.listed.Disjoint (leavesIn tables) := by
    intro pa hlisted hleaf
    have hpos := (hcounted pa).mp hlisted
    have hzero := h.ledger.leaves_unmapped pa hleaf
    omega
  have hfreeUsed : (m.machine.pool.free.map FramePool.ramAddr).Disjoint
      (m.refs.listed ++ leavesIn tables) := by
    intro pa hmem hpa
    obtain ⟨index, hindex, rfl⟩ := List.mem_map.mp hmem
    rw [hused, ((hfree index).mp hindex).2] at hpa
    cases hpa
  rw [List.perm_ext_iff_of_nodup (List.nodup_range.map hinjective)
    ((hpool.nodup.map hinjective).append
      (m.refs.nodup_listed.append h.ledger.leaves_nodup hapart) hfreeUsed)]
  intro pa
  rw [List.mem_append, hused, List.mem_map, List.mem_map]
  constructor
  · rintro ⟨index, hindex, rfl⟩
    cases hcase : m.machine.pool.isUsed (FramePool.ramAddr index) with
    | false => exact Or.inl ⟨index, (hfree index).mpr ⟨List.mem_range.mp hindex, hcase⟩, rfl⟩
    | true => exact Or.inr rfl
  · rintro (⟨index, hindex, rfl⟩ | hpa)
    · exact ⟨index, List.mem_range.mpr ((hfree index).mp hindex).1, rfl⟩
    · obtain ⟨index, hindex, -⟩ := FramePool.exists_index_of_isUsed hpa
      obtain ⟨haddr, bound⟩ := FramePool.ramAddr_of_ramIndex? hindex
      exact ⟨index, List.mem_range.mpr bound, haddr⟩

/-- The frames of the machine are those that are free, those that are counted and those of the leaf
tables. -/
theorem Balanced.capacity_eq {m : Memory} {tables : List PageTable}
    (h : Balanced (fun _ => False) m tables) :
    m.machine.pool.capacity = m.machine.pool.freeFrames + m.refs.liveFrames +
      (tables.map PageTable.tablePages).sum := by
  have hlength := h.perm_frames.length_eq
  simp only [List.length_map, List.length_range, List.length_append, RefCounts.length_listed,
    length_leavesIn] at hlength
  rw [hlength, FramePool.freeFrames, Nat.add_assoc]

end Exokernel
