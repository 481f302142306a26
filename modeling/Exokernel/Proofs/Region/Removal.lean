import Exokernel.Proofs.Mapping.Listing
import Exokernel.Proofs.Memory.Windows
import Exokernel.Proofs.Realm.Machines
import Exokernel.Proofs.Region.FreshPages
import Exokernel.Proofs.Region.Spans

/-! # Removal gives back what was held

A frame may be mapped at several pages of a range, elsewhere in the space and in other spaces, and
leaf tables go in the middle of a walk as they empty.  In the end a frame is back in the pool
exactly if its last entry is gone, and so is that of a leaf table; nothing else is.  Taking a space
down is removing all its pages. -/

namespace Exokernel

open Finset

/-! ## Frames that go back -/

namespace FramePool

variable {pool next : FramePool} {pa : PhysAddr}

/-- The frames that are not free in one state of the pool and free in another. -/
def returned (pool next : FramePool) : Finset PhysAddr :=
  (next.free.toFinset \ pool.free.toFinset).image ramAddr

theorem mem_returned_iff (hpool : pool.Consistent) (hnext : next.Consistent)
    (hsize : next.ram.size = pool.ram.size) :
    pa ∈ pool.returned next ↔ pool.isUsed pa = true ∧ next.isUsed pa = false := by
  rw [returned, mem_image]
  constructor
  · rintro ⟨index, hindex, rfl⟩
    rw [mem_sdiff, List.mem_toFinset, List.mem_toFinset, hnext.mem_free_iff_unused,
      hpool.mem_free_iff_unused, hsize] at hindex
    obtain ⟨⟨hlt, hunused⟩, hnot⟩ := hindex
    exact ⟨Bool.of_not_eq_false fun hfree => hnot ⟨hlt, hfree⟩, hunused⟩
  · rintro ⟨hused, hunused⟩
    obtain ⟨index, hindex, -⟩ := exists_index_of_isUsed hused
    obtain ⟨rfl, hlt⟩ := ramAddr_of_ramIndex? hindex
    refine ⟨index, ?_, rfl⟩
    rw [mem_sdiff, List.mem_toFinset, List.mem_toFinset, hnext.mem_free_iff_unused,
      hpool.mem_free_iff_unused, hsize]
    refine ⟨⟨hlt, hunused⟩, fun hfree => ?_⟩
    rw [hfree.2] at hused
    cases hused

theorem freeFrames_eq_add_returned (hpool : pool.Consistent) (hnext : next.Consistent)
    (hfree : ∀ index ∈ pool.free, index ∈ next.free) :
    next.freeFrames = pool.freeFrames + #(pool.returned next) := by
  have hsubset : pool.free.toFinset ⊆ next.free.toFinset := fun index hindex =>
    List.mem_toFinset.mpr (hfree index (List.mem_toFinset.mp hindex))
  have hcard := card_sdiff_add_card_eq_card hsubset
  rw [List.toFinset_card_of_nodup hpool.nodup, List.toFinset_card_of_nodup hnext.nodup] at hcard
  rw [returned, card_image_of_injective _ fun _ _ => ramAddr_injective, freeFrames, freeFrames]
  omega

end FramePool

theorem Machine.lasting_overclaim (frames : Nat) : Machine.Lasting fun m => m.overclaim = frames where
  alloc _ _ _ halloc h := by
    obtain ⟨⟨_, _⟩, -, heq⟩ := Option.map_eq_some_iff.mp halloc
    cases heq
    exact h
  free m pa h := by
    rw [Machine.free]
    split <;> exact h
  update _ _ _ h := h
  relog _ _ h := h

/-! ## Mappings and leaf tables that are gone -/

/-- Between two balanced states of the same frames with fewer mappings and leaf tables in the
second, a frame goes back exactly if its last mapping is gone or its leaf table is. -/
theorem Balanced.mem_returned_iff {stray : PhysAddr → Prop} {m m' : Memory}
    {tables tables' : List PageTable} (h : Balanced stray m tables) (h' : Balanced stray m' tables')
    (hsize : m'.machine.pool.ram.size = m.machine.pool.ram.size)
    (hmaps : ∀ pa, mapsIn tables' pa ≤ mapsIn tables pa)
    (hleaves : ∀ pa ∈ leavesIn tables', pa ∈ leavesIn tables) (pa : PhysAddr) :
    pa ∈ m.machine.pool.returned m'.machine.pool ↔
      (0 < mapsIn tables pa ∧ mapsIn tables' pa = 0) ∨
        (pa ∈ leavesIn tables ∧ pa ∉ leavesIn tables') := by
  have hunused : m'.machine.pool.isUsed pa = false ↔
      mapsIn tables' pa = 0 ∧ pa ∉ leavesIn tables' ∧ ¬ stray pa := by
    rw [← Bool.not_eq_true, h'.ledger.used_iff, not_or, not_or, Nat.pos_iff_ne_zero, not_not]
  rw [FramePool.mem_returned_iff h.ledger.consistent h'.ledger.consistent hsize, h.ledger.used_iff,
    hunused]
  constructor
  · rintro ⟨hmapped | hleaf | hstray, hnone, hgone, hnot⟩
    · exact Or.inl ⟨hmapped, hnone⟩
    · exact Or.inr ⟨hleaf, hgone⟩
    · exact absurd hstray hnot
  · rintro (⟨hmapped, hnone⟩ | ⟨hleaf, hgone⟩)
    · refine ⟨Or.inl hmapped, hnone, fun hleaf => ?_, fun hstray => ?_⟩
      · exact hmapped.ne' (h.ledger.leaves_unmapped pa (hleaves pa hleaf))
      · exact hmapped.ne' (h.ledger.stray_apart pa hstray).1
    · refine ⟨Or.inr (Or.inl hleaf), ?_, hgone, fun hstray => (h.ledger.stray_apart pa hstray).2 hleaf⟩
      exact Nat.eq_zero_of_le_zero (h.ledger.leaves_unmapped pa hleaf ▸ hmaps pa)

theorem Balanced.free_subset {stray : PhysAddr → Prop} {m m' : Memory}
    {tables tables' : List PageTable} (h : Balanced stray m tables) (h' : Balanced stray m' tables')
    (hsize : m'.machine.pool.ram.size = m.machine.pool.ram.size)
    (hmaps : ∀ pa, mapsIn tables' pa ≤ mapsIn tables pa)
    (hleaves : ∀ pa ∈ leavesIn tables', pa ∈ leavesIn tables) (index : Nat)
    (hfree : index ∈ m.machine.pool.free) : index ∈ m'.machine.pool.free := by
  rw [h.ledger.consistent.mem_free_iff_unused] at hfree
  rw [h'.ledger.consistent.mem_free_iff_unused, hsize]
  refine ⟨hfree.1, ?_⟩
  obtain ⟨hunmapped, hleaf, hstray⟩ := h.ledger.free_of_unused hfree.2
  rw [← Bool.not_eq_true, h'.ledger.used_iff]
  rintro (hmapped | hleaf' | hstray')
  · exact absurd (hmaps (FramePool.ramAddr index)) (by omega)
  · exact hleaf (hleaves _ hleaf')
  · exact hstray hstray'

theorem mapsIn_le_cons {t : PageTable} {rest : List PageTable} (pa : PhysAddr) :
    mapsIn rest pa ≤ mapsIn (t :: rest) pa := by
  rw [mapsIn_cons]
  exact Nat.le_add_left _ _

theorem mem_leavesIn_cons {t : PageTable} {rest : List PageTable} (pa : PhysAddr)
    (h : pa ∈ leavesIn rest) : pa ∈ leavesIn (t :: rest) := by
  rw [leavesIn_cons]
  exact List.mem_append_right _ h

namespace PageTable

variable {t t' : PageTable} {m : Machine} {p : VirtPage} {d d' : Fin leafTables}
  {leaf leaf' : LeafTable} {pa : PhysAddr}

def frames (t : PageTable) : Finset PhysAddr :=
  (t.mappings.filterMap fun x =>
    match x.2.backing with
    | .frame pa => some pa
    | _ => none).toFinset

theorem mem_frames : pa ∈ t.frames ↔ ∃ p, t.backing? p = some (.frame pa) := by
  rw [frames, List.mem_toFinset, List.mem_filterMap]
  constructor
  · rintro ⟨⟨p, ⟨backing, flags⟩⟩, hentry, hframe⟩
    refine ⟨p, ?_⟩
    rw [backing?, mem_mappings.mp hentry]
    cases backing <;> cases hframe
    rfl
  · rintro ⟨p, hp⟩
    obtain ⟨e, he, hframe⟩ := Option.map_eq_some_iff.mp hp
    exact ⟨(p, e), mem_mappings.mpr he, by rw [hframe]⟩

theorem leaf?_of_leaf?_remove (h : (t.remove m p).2.1.leaf? d = some leaf') :
    ∃ leaf, t.leaf? d = some leaf ∧ leaf.frame = leaf'.frame := by
  rw [remove] at h
  split at h
  · exact ⟨leaf', h, rfl⟩
  · next leaf hleaf =>
    split at h
    · exact ⟨leaf', h, rfl⟩
    · split at h
      · rw [leaf?_setLeaf] at h
        split at h
        · cases h
        · exact ⟨leaf', h, rfl⟩
      · rw [leaf?_modifyLeaf] at h
        split at h
        · obtain ⟨leaf, hleaf, rfl⟩ := Option.map_eq_some_iff.mp h
          exact ⟨leaf, hleaf, rfl⟩
        · exact ⟨leaf', h, rfl⟩

theorem mapsAmong_eq_zero {pages : List VirtPage} (h : ∀ p ∈ pages, t.lookup p = none)
    (pa : PhysAddr) : t.mapsAmong pages pa = 0 := by
  rw [mapsAmong, card_eq_zero, filter_eq_empty_iff]
  rintro p - ⟨hp, hback⟩
  rw [backing?, h p hp] at hback
  cases hback

end PageTable

/-- Every leaf table of this table was there before, in the same frame. -/
def PageTable.KeepsLeaves (t' t : PageTable) : Prop := ∀ d leaf', t'.leaf? d = some leaf' →
  ∃ leaf, t.leaf? d = some leaf ∧ leaf.frame = leaf'.frame

theorem PageTable.KeepsLeaves.mem_leavesIn {t' t : PageTable} (h : t'.KeepsLeaves t)
    (rest : List PageTable) (pa : PhysAddr) (hpa : pa ∈ leavesIn (t' :: rest)) :
    pa ∈ leavesIn (t :: rest) := by
  rw [leavesIn_cons, List.mem_append] at hpa ⊢
  refine hpa.imp_left fun hown => ?_
  obtain ⟨d, leaf', hleaf', rfl⟩ := mem_leafFrames.mp hown
  exact mem_leafFrames.mpr ⟨d, h d leaf' hleaf'⟩

theorem Balanced.leaf_back_iff {stray : PhysAddr → Prop} {m m' : Memory} {t t' : PageTable}
    {rest : List PageTable} (h : Balanced stray m (t :: rest)) (h' : Balanced stray m' (t' :: rest))
    (hsize : m'.machine.pool.ram.size = m.machine.pool.ram.size)
    (hmaps : ∀ pa, mapsIn (t' :: rest) pa ≤ mapsIn (t :: rest) pa) (hkept : t'.KeepsLeaves t)
    {d : Fin leafTables} {leaf : LeafTable} (hd : t.leaf? d = some leaf) :
    leaf.frame ∈ m.machine.pool.returned m'.machine.pool ↔ t'.leaf? d = none := by
  have hown : leaf.frame ∈ t.leafFrames := PageTable.mem_leafFrames.mpr ⟨d, leaf, hd, rfl⟩
  have hall : leaf.frame ∈ leavesIn (t :: rest) := by
    rw [leavesIn_cons]
    exact List.mem_append_left _ hown
  have hnodup := h.ledger.leaves_nodup
  rw [leavesIn_cons, List.nodup_append] at hnodup
  have hunmapped := h.ledger.leaves_unmapped _ hall
  rw [h.mem_returned_iff h' hsize hmaps (hkept.mem_leavesIn rest)]
  constructor
  · rintro (⟨hpos, -⟩ | ⟨-, hgone⟩)
    · exact absurd hunmapped hpos.ne'
    · rw [Option.eq_none_iff_forall_not_mem]
      intro leaf' hleaf'
      obtain ⟨leaf₀, hleaf₀, hframe⟩ := hkept d leaf' hleaf'
      rw [hd] at hleaf₀
      cases hleaf₀
      rw [leavesIn_cons, List.mem_append, not_or] at hgone
      exact hgone.1 (PageTable.mem_leafFrames.mpr ⟨d, leaf', hleaf', hframe.symm⟩)
  · intro hempty
    refine Or.inr ⟨hall, fun hleft => ?_⟩
    rw [leavesIn_cons, List.mem_append] at hleft
    rcases hleft with hleft | hleft
    · obtain ⟨d', leaf', hleaf', hframe⟩ := PageTable.mem_leafFrames.mp hleft
      obtain ⟨leaf₀, hleaf₀, hframe₀⟩ := hkept d' leaf' hleaf'
      obtain rfl := PageTable.leaf_unique hnodup.1 hd hleaf₀ (hframe.symm.trans hframe₀.symm)
      rw [hempty] at hleaf'
      cases hleaf'
    · exact hnodup.2.2 _ hown _ hleft rfl

namespace Space

variable {rest : List PageTable} {s s' : Space} {p : VirtPage} {pages : List VirtPage}

/-! ## One page after the other -/

theorem keepsLeaves_unmapPage (s : Space) (p : VirtPage) :
    (s.unmapPage p).table.KeepsLeaves s.table := by
  obtain ⟨⟨machine, refs⟩, table⟩ := s
  intro d leaf' hleaf'
  refine PageTable.leaf?_of_leaf?_remove (m := machine) (p := p) ?_
  simp only [unmapPage] at hleaf'
  generalize table.remove machine p = result at hleaf' ⊢
  obtain ⟨_ | old, table', machine'⟩ := result <;> exact hleaf'

theorem keepsLeaves_foldl_unmapPage (s : Space) (pages : List VirtPage) :
    (pages.foldl unmapPage s).table.KeepsLeaves s.table := by
  refine keeps_foldl_unmapPage (I := fun u => u.table.KeepsLeaves s.table) ?_
    fun d leaf' h => ⟨leaf', h, rfl⟩
  intro u p hbefore d leaf' hleaf'
  obtain ⟨leaf₁, hleaf₁, hframe₁⟩ := keepsLeaves_unmapPage u p d leaf' hleaf'
  obtain ⟨leaf, hleaf, hframe⟩ := hbefore d leaf₁ hleaf₁
  exact ⟨leaf, hleaf, hframe.trans hframe₁⟩

theorem unmapPage_of_hole (h : s.table.lookup p = none) : s.unmapPage p = s := by
  obtain ⟨⟨machine, refs⟩, table⟩ := s
  have hremove : table.remove machine p = (none, table, machine) := by
    rw [PageTable.remove]
    split
    · rfl
    · next leaf hleaf =>
      rw [PageTable.lookup, hleaf, Option.bind_some] at h
      rw [h]
  simp only [unmapPage, hremove]

theorem foldl_unmapPage_of_holes (h : ∀ p ∈ pages, s.table.lookup p = none) :
    pages.foldl unmapPage s = s := by
  induction pages with
  | nil => rfl
  | cons p rest ih =>
      rw [List.foldl_cons, unmapPage_of_hole (h p List.mem_cons_self)]
      exact ih fun q hq => h q (List.mem_cons_of_mem _ hq)

/-- Of pages that are unmapped one after the other those count that are mapped at the beginning. -/
theorem foldl_unmapPage_filter (hwf : s.table.WellFormed) (hnodup : pages.Nodup) :
    (pages.filter s.table.isMapped).foldl unmapPage s = pages.foldl unmapPage s := by
  induction pages generalizing s with
  | nil => rfl
  | cons p rest ih =>
      obtain ⟨hp, hnodup⟩ := List.nodup_cons.mp hnodup
      have hrest := ih (wellFormed_unmapPage hwf p) hnodup
      cases hmapped : s.table.isMapped p with
      | false =>
          have hhole : s.table.lookup p = none := by
            rwa [PageTable.isMapped, Option.isSome_eq_false_iff, Option.isNone_iff_eq_none] at hmapped
          rw [unmapPage_of_hole hhole] at hrest
          rw [List.filter_cons_of_neg (by simp [hmapped]), List.foldl_cons, unmapPage_of_hole hhole,
            hrest]
      | true =>
          have hsame : rest.filter (s.unmapPage p).table.isMapped = rest.filter s.table.isMapped := by
            apply List.filter_congr
            intro q hq
            have hne : p ≠ q := by
              rintro rfl
              exact hp hq
            rw [PageTable.isMapped, lookup_unmapPage hwf, if_neg hne, PageTable.isMapped]
          rw [List.filter_cons_of_pos hmapped, List.foldl_cons, List.foldl_cons, ← hsame, hrest]

/-- What unmapping some pages of a space comes to.  `rest` are the page tables of the spaces beside
it. -/
structure Removes (rest : List PageTable) (pages : List VirtPage) (s s' : Space) : Prop where
  lookup_eq : ∀ q, s'.table.lookup q = if q ∈ pages then none else s.table.lookup q
  /-- No byte is another one, in any space. -/
  sameBytes : s.pool.SameBytes s'.pool
  /-- A frame has so many mappings fewer as it had in these pages. -/
  count_eq : ∀ pa, s'.memory.refs.count pa + s.table.mapsAmong pages pa = s.memory.refs.count pa
  /-- A frame that was mapped goes back exactly if nothing is mapped to it any more. -/
  frame_back : ∀ pa, 0 < s.memory.refs.count pa →
    (pa ∈ s.pool.returned s'.pool ↔ mapsIn (s'.table :: rest) pa = 0)
  /-- The frame of a leaf table goes back exactly if none of its pages is mapped any more. -/
  leaf_back : ∀ d leaf, s.table.leaf? d = some leaf →
    (leaf.frame ∈ s.pool.returned s'.pool ↔ ∀ q, q.leaf = d → s'.table.lookup q = none)
  back_only : ∀ pa ∈ s.pool.returned s'.pool,
    0 < s.memory.refs.count pa ∨ ∃ d leaf, s.table.leaf? d = some leaf ∧ leaf.frame = pa
  device_kept : s.pool.WindowsApart → ∀ pa, s.pool.isDeviceRange pa pageSize = true →
    pa ∉ s.pool.returned s'.pool
  freeFrames_eq : s'.memory.machine.freeFrames =
    s.memory.machine.freeFrames + #(s.pool.returned s'.pool)
  free_subset : ∀ index ∈ s.pool.free, index ∈ s'.pool.free
  accounting : Accounting s'.memory (s'.table :: rest)

theorem mapsIn_foldl_unmapPage (hwf : s.table.WellFormed) (rest : List PageTable)
    (pages : List VirtPage) (pa : PhysAddr) :
    mapsIn ((pages.foldl unmapPage s).table :: rest) pa + s.table.mapsAmong pages pa =
      mapsIn (s.table :: rest) pa := by
  have hlookup := fun q => (lookup_foldl_unmapPage pages hwf q).2
  generalize pages.foldl unmapPage s = s' at hlookup
  have houtside := PageTable.mapCount_add_mapsAmong (fun q hq => (hlookup q).trans (if_neg hq)) pa
  rw [PageTable.mapsAmong_eq_zero fun q hq => (hlookup q).trans (if_pos hq)] at houtside
  rw [mapsIn_cons, mapsIn_cons]
  omega

theorem mapsIn_foldl_unmapPage_le (hwf : s.table.WellFormed) (rest : List PageTable)
    (pages : List VirtPage) (pa : PhysAddr) :
    mapsIn ((pages.foldl unmapPage s).table :: rest) pa ≤ mapsIn (s.table :: rest) pa := by
  rw [← mapsIn_foldl_unmapPage hwf rest pages]
  exact Nat.le_add_right _ _

theorem removes_of_accounting (h : Accounting s.memory (s.table :: rest)) (pages : List VirtPage) :
    Removes rest pages s (pages.foldl unmapPage s) := by
  have hwf := h.tables_wellFormed s.table List.mem_cons_self
  have hbefore : InBalance (strays s.memory (s.table :: rest)) rest s := h.balanced
  have hafter := books_owing.unmapPages hbefore pages
  have hlookup := fun q => (lookup_foldl_unmapPage pages hwf q).2
  have hwf' := (lookup_foldl_unmapPage pages hwf 0).1
  have hbytes : s.pool.SameBytes (pages.foldl unmapPage s).pool :=
    keeps_foldl_unmapPage (I := fun u => s.pool.SameBytes u.pool)
      (fun u p hu => hu.trans (sameBytes_unmapPage u p)) (.refl _)
  have hclaims : (pages.foldl unmapPage s).memory.machine.overclaim = s.memory.machine.overclaim :=
    keeps_foldl_unmapPage (I := On fun m => m.overclaim = s.memory.machine.overclaim)
      (lasting_unmapPage (Machine.lasting_overclaim _)) rfl
  have hcount := mapsIn_foldl_unmapPage hwf rest pages
  have hmaps := mapsIn_foldl_unmapPage_le hwf rest pages
  have hkept := keepsLeaves_foldl_unmapPage s pages
  generalize pages.foldl unmapPage s = s' at *
  change Balanced _ s'.memory (s'.table :: rest) at hafter
  have hleaves := hkept.mem_leavesIn rest
  have hreturned := hbefore.mem_returned_iff hafter hbytes.size_eq hmaps hleaves
  have hfree := hbefore.free_subset hafter hbytes.size_eq hmaps hleaves
  refine ⟨hlookup, hbytes, fun pa => ?_, fun pa hpos => ?_, fun d leaf hd => ?_, fun pa hpa => ?_,
    fun hapart pa hdevice hpa => ?_, ?_, hfree, hafter.accounting⟩
  · rw [hafter.ledger.count_eq, h.count_eq, hcount]
  · rw [h.count_eq] at hpos
    rw [pool, pool, hreturned]
    constructor
    · rintro (⟨-, hgone⟩ | ⟨hown, -⟩)
      · exact hgone
      · exact absurd (hbefore.ledger.leaves_unmapped pa hown) hpos.ne'
    · exact fun hgone => Or.inl ⟨hpos, hgone⟩
  · rw [← hwf'.leaf?_eq_none_iff]
    exact hbefore.leaf_back_iff hafter hbytes.size_eq hmaps hkept hd
  · rw [h.count_eq]
    rcases (hreturned pa).mp hpa with ⟨hpos, -⟩ | ⟨hown, hgone⟩
    · exact Or.inl hpos
    · rw [leavesIn_cons, List.mem_append] at hown hgone
      have hmem := hown.resolve_right fun hrest => hgone (Or.inr hrest)
      exact Or.inr (PageTable.mem_leafFrames.mp hmem)
  · rw [pool, pool, FramePool.mem_returned_iff h.pool hafter.ledger.consistent hbytes.size_eq] at hpa
    obtain ⟨index, hindex, -⟩ := FramePool.exists_index_of_isUsed hpa.1
    rw [FramePool.ramIndex?_of_isDeviceRange hapart hdevice] at hindex
    cases hindex
  · have hframes := FramePool.freeFrames_eq_add_returned h.pool hafter.ledger.consistent hfree
    rw [Machine.freeFrames, Machine.freeFrames, hframes, hclaims, pool, pool]
    omega

theorem unmapRegion_unmapRegion (hwf : s.table.WellFormed) (r : PageRange) :
    (s.unmapRegion r).unmapRegion r = s.unmapRegion r := by
  refine foldl_unmapPage_of_holes fun p hp => ?_
  rw [unmapRegion, (lookup_foldl_unmapPage _ hwf p).2, if_pos hp]

end Space

/-! ## Whole spaces -/

namespace Space

variable {s : Space}

theorem unmapAll_eq (hwf : s.table.WellFormed) : s.unmapAll = s.unmapRegion .whole := by
  rw [unmapAll, PageTable.map_fst_mappings, foldl_unmapPage_filter hwf PageRange.whole.nodup_toList]
  rfl

theorem leafList_unmapAll (hwf : s.table.WellFormed) : s.unmapAll.table.leafList = [] := by
  have hafter : s.unmapAll.table.WellFormed := by
    rw [unmapAll]
    exact (lookup_foldl_unmapPage _ hwf 0).1
  have hframes := hafter.leafFrames_eq_nil (lookup_unmapAll hwf)
  rwa [PageTable.leafFrames, List.map_eq_nil_iff] at hframes

end Space

end Exokernel
