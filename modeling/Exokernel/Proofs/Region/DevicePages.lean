import Exokernel.Proofs.Region.Reading
import Exokernel.Proofs.Region.Removal

/-! # Device pages go as they came

Device pages are mapped over vacant pages only, and they take a frame for each leaf table that is
missing and no other.  Unmapping takes the pages out in the order in which they were put in, so the
leaf tables go in another order than the frames came.  In the end they are the same frames all the
same: whatever is beyond the old page table is held by leaf tables that it does not have. -/

namespace Exokernel

/-! ## Tables that are alike -/

theorem LeafTable.WellFormed.eq_of_get? {leaf leaf' : LeafTable} (h : leaf.WellFormed)
    (h' : leaf'.WellFormed) (hframe : leaf'.frame = leaf.frame)
    (hget : ∀ slot, leaf'.get? slot = leaf.get? slot) : leaf' = leaf := by
  have hentries : leaf'.entries = leaf.entries := Vector.ext fun i hi => hget ⟨i, hi⟩
  have hlive : leaf'.live = leaf.live := by
    rw [h'.live_eq, h.live_eq, size, size]
    simp only [hget]
  obtain ⟨frame, entries, live⟩ := leaf
  obtain ⟨frame', entries', live'⟩ := leaf'
  cases hframe
  cases hentries
  cases hlive
  rfl

namespace PageTable

variable {t t' t'' old : PageTable} {d : Fin leafTables} {leaf : LeafTable}

theorem KeepsLeaves.trans (h : t.KeepsLeaves t') (h' : t'.KeepsLeaves t'') : t.KeepsLeaves t'' := by
  intro d leaf hleaf
  obtain ⟨leaf', hleaf', hframe⟩ := h d leaf hleaf
  obtain ⟨leaf'', hleaf'', hframe'⟩ := h' d leaf' hleaf'
  exact ⟨leaf'', hleaf'', hframe'.trans hframe⟩

theorem keepsLeaves_modifyLeaf (t : PageTable) (d : Fin leafTables) {f : LeafTable → LeafTable}
    (hf : ∀ leaf, (f leaf).frame = leaf.frame) : t.KeepsLeaves (t.modifyLeaf d f) := by
  intro d' leaf hleaf
  rw [leaf?_modifyLeaf]
  split
  · exact ⟨f leaf, by rw [hleaf]; rfl, hf leaf⟩
  · exact ⟨leaf, hleaf, rfl⟩

theorem KeepsLeaves.setLeaf (h : old.KeepsLeaves t) (hd : old.leaf? d = none)
    (leaf : Option LeafTable) : old.KeepsLeaves (t.setLeaf d leaf) := by
  intro d' leaf' hleaf'
  rw [leaf?_setLeaf, if_neg]
  · exact h d' leaf' hleaf'
  · rintro rfl
    rw [hd] at hleaf'
    cases hleaf'

/-- A well-formed table is determined by its entries and the frames of its leaf tables. -/
theorem WellFormed.eq_of_lookup (h : t.WellFormed) (h' : t'.WellFormed)
    (hlookup : ∀ q, t'.lookup q = t.lookup q) (hkept : t.KeepsLeaves t') : t' = t := by
  refine eq_of_leaf? fun d => ?_
  cases hd : t.leaf? d with
  | none =>
      rw [h'.leaf?_eq_none_iff]
      intro q hq
      rw [hlookup]
      exact h.leaf?_eq_none_iff.mp hd q hq
  | some leaf =>
      obtain ⟨leaf', hd', hframe⟩ := hkept d leaf hd
      rw [hd']
      refine congrArg some ((h d leaf hd).eq_of_get? (h' d leaf' hd') hframe fun slot => ?_)
      have hpage := hlookup (.ofLeafSlot d slot)
      rwa [lookup, lookup, VirtPage.leaf_ofLeafSlot, VirtPage.slot_ofLeafSlot, hd, hd',
        Option.bind_some, Option.bind_some] at hpage

/-! ## Leaf tables that another table does not have -/

/-- The leaf tables of a table where the old one has none. -/
def beyond (t old : PageTable) : PageTable :=
  ⟨Vector.ofFn fun d => if (old.leaf? d).isNone then t.leaf? d else none⟩

theorem leaf?_beyond (t old : PageTable) (d : Fin leafTables) :
    (t.beyond old).leaf? d = if (old.leaf? d).isNone then t.leaf? d else none := by
  simp [beyond, leaf?]

theorem leaf?_beyond_of_none (hd : old.leaf? d = none) : (t.beyond old).leaf? d = t.leaf? d := by
  rw [leaf?_beyond, hd]
  rfl

@[simp] theorem leafFrames_beyond_self (t : PageTable) : (t.beyond t).leafFrames = [] := by
  have hnone : ∀ d, (t.beyond t).leaf? d = empty.leaf? d := by
    intro d
    rw [leaf?_beyond, leaf?_empty]
    split
    · next h => exact Option.isNone_iff_eq_none.mp h
    · rfl
  rw [eq_of_leaf? hnone, leafFrames_empty]

theorem beyond_setLeaf (hd : old.leaf? d = none) (leaf : Option LeafTable) :
    (t.setLeaf d leaf).beyond old = (t.beyond old).setLeaf d leaf := by
  refine eq_of_leaf? fun d' => ?_
  rw [leaf?_setLeaf, leaf?_beyond, leaf?_beyond, leaf?_setLeaf]
  split
  · rfl
  · next h =>
    rw [if_neg]
    rintro rfl
    exact h (Option.isNone_iff_eq_none.mpr hd)

theorem leafFrames_beyond_modifyLeaf (hleaf : t.leaf? d = some leaf) {f : LeafTable → LeafTable}
    (hf : (f leaf).frame = leaf.frame) :
    ((t.modifyLeaf d f).beyond old).leafFrames.Perm (t.beyond old).leafFrames := by
  cases hd : old.leaf? d with
  | none =>
      have hbeyond : (t.beyond old).leaf? d = some leaf := (leaf?_beyond_of_none hd).trans hleaf
      rw [modifyLeaf_eq_setLeaf hleaf, beyond_setLeaf hd, ← modifyLeaf_eq_setLeaf hbeyond]
      exact leafFrames_modifyLeaf hbeyond hf
  | some leaf₀ =>
      have hsame : (t.modifyLeaf d f).beyond old = t.beyond old := by
        refine eq_of_leaf? fun d' => ?_
        rw [leaf?_beyond, leaf?_beyond]
        split
        · next h =>
          rw [leaf?_modifyLeaf, if_neg]
          rintro rfl
          rw [hd] at h
          cases h
        · rfl
      rw [hsame]

end PageTable

namespace Space

variable {s₀ s s' : Space} {p : VirtPage} {pages : List VirtPage} {e : PageEntry} {flags : PageFlags}
  {pa : PhysAddr}

/-! ## One page -/

/-- An entry is put where none is: in the leaf table that is there, or in a new one. -/
theorem place_of_hole (hhole : s.table.lookup p = none) (h : place p e s = .ok () s') :
    (∃ leaf, s.table.leaf? p.leaf = some leaf ∧
      s' = ⟨s.memory, s.table.modifyLeaf p.leaf (·.add p.slot e)⟩) ∨
    (s.table.leaf? p.leaf = none ∧ ∃ frame machine, s.memory.machine.alloc? = some (frame, machine) ∧
      s' = ⟨⟨machine, s.memory.refs⟩, s.table.setLeaf p.leaf (some (.single frame p.slot e))⟩) := by
  obtain ⟨⟨machine, refs⟩, table⟩ := s
  simp only [PageTable.lookup] at hhole
  cases hleaf : table.leaf? p.leaf with
  | some leaf =>
      rw [hleaf, Option.bind_some] at hhole
      simp only [place, PageTable.insert, hleaf, hhole] at h
      cases h
      exact Or.inl ⟨leaf, rfl, rfl⟩
  | none =>
      simp only [place, PageTable.insert, hleaf] at h
      cases halloc : machine.alloc? with
      | none =>
          simp only [halloc] at h
          cases h
      | some result =>
          simp only [halloc] at h
          cases h
          exact Or.inr ⟨rfl, _, _, rfl, rfl⟩

/-- A device page is taken out of its leaf table, or goes together with it. -/
theorem unmapPage_of_device (hpage : s.table.lookup p = some ⟨.device pa, flags⟩) :
    ∃ leaf, s.table.leaf? p.leaf = some leaf ∧ leaf.get? p.slot = some ⟨.device pa, flags⟩ ∧
      (leaf.live ≤ 1 ∧ s.unmapPage p =
          ⟨⟨s.memory.machine.free leaf.frame, s.memory.refs⟩, s.table.setLeaf p.leaf none⟩ ∨
        s.unmapPage p = ⟨s.memory, s.table.modifyLeaf p.leaf (·.clear p.slot)⟩) := by
  obtain ⟨⟨machine, refs⟩, table⟩ := s
  obtain ⟨leaf, hleaf, hget⟩ := Option.bind_eq_some_iff.mp hpage
  refine ⟨leaf, hleaf, hget, ?_⟩
  by_cases hlive : leaf.live ≤ 1
  · refine Or.inl ⟨hlive, ?_⟩
    simp only [unmapPage, PageTable.remove, hleaf, hget, if_pos hlive, Memory.release]
  · right
    simp only [unmapPage, PageTable.remove, hleaf, hget, if_neg hlive, Memory.release]

/-! ## Spaces with device pages more -/

/-- The space `s` is the space `s₀` with device pages at some of its holes. -/
structure Hosts (s₀ s : Space) : Prop where
  wellFormed : s.table.WellFormed
  refs_eq : s.memory.refs = s₀.memory.refs
  lookup_or : ∀ q, s.table.lookup q = s₀.table.lookup q ∨
    s₀.table.lookup q = none ∧ ∃ pa flags, s.table.lookup q = some ⟨.device pa, flags⟩
  leaves_kept : s₀.table.KeepsLeaves s.table
  /-- Beside the frames that were handed out before, those of the leaf tables beyond the old ones
  are. Device pages are not counted, so the counts are left out of the ledger. -/
  ledger : Ledger ⟨s.memory.machine, .empty⟩ (fun _ => 0) (s.table.beyond s₀.table).leafFrames
    fun pa => s₀.pool.isUsed pa = true

namespace Hosts

theorem refl (hpool : s.pool.Consistent) (hwf : s.table.WellFormed) : Hosts s s where
  wellFormed := hwf
  refs_eq := rfl
  lookup_or _ := Or.inl rfl
  leaves_kept _ leaf h := ⟨leaf, h, rfl⟩
  ledger := by
    rw [PageTable.leafFrames_beyond_self]
    exact .of_pool hpool

theorem hole (h : Hosts s₀ s) (hp : s.table.lookup p = none) : s₀.table.lookup p = none := by
  rcases h.lookup_or p with hsame | ⟨hnone, -⟩
  · exact hsame.symm.trans hp
  · exact hnone

theorem entry (h : Hosts s₀ s) (hp : s₀.table.lookup p = some e) : s.table.lookup p = some e := by
  rcases h.lookup_or p with hsame | ⟨hnone, -⟩
  · exact hsame.trans hp
  · rw [hp] at hnone
    cases hnone

theorem place (h : Hosts s₀ s) (hhole : s.table.lookup p = none)
    (hplace : place p ⟨.device pa, flags⟩ s = .ok () s') : Hosts s₀ s' := by
  have hlookup : ∀ q, s'.table.lookup q = s₀.table.lookup q ∨
      s₀.table.lookup q = none ∧ ∃ pa flags, s'.table.lookup q = some ⟨.device pa, flags⟩ := by
    intro q
    rw [lookup_of_place hplace]
    split
    · next heq => exact Or.inr ⟨heq ▸ h.hole hhole, pa, flags, rfl⟩
    · exact h.lookup_or q
  have hwf : s'.table.WellFormed := by
    obtain ⟨old, machine, hinsert, -⟩ := place_eq_ok hplace
    exact h.wellFormed.insert hinsert
  rcases place_of_hole hhole hplace with ⟨leaf, hleaf, rfl⟩ | ⟨hleaf, frame, machine, halloc, rfl⟩
  · refine ⟨hwf, h.refs_eq, hlookup, ?_, ?_⟩
    · exact h.leaves_kept.trans (s.table.keepsLeaves_modifyLeaf p.leaf fun _ => rfl)
    · exact h.ledger.congr (fun _ => rfl) (PageTable.leafFrames_beyond_modifyLeaf hleaf rfl)
  · have hnew : s₀.table.leaf? p.leaf = none := by
      rw [Option.eq_none_iff_forall_not_mem]
      intro leaf₀ hleaf₀
      obtain ⟨leaf, hsome, -⟩ := h.leaves_kept p.leaf leaf₀ hleaf₀
      rw [hleaf] at hsome
      cases hsome
    have hgrant := h.ledger.consistent.grants (Machine.pool_of_alloc? halloc)
    refine ⟨hwf, h.refs_eq, hlookup, h.leaves_kept.setLeaf hnew _, ?_⟩
    refine (h.ledger.allocLeaf hgrant).congr (fun _ => rfl) ?_
    rw [PageTable.beyond_setLeaf hnew]
    exact PageTable.leafFrames_setLeaf_some ((PageTable.leaf?_beyond_of_none hnew).trans hleaf) _

/-- A leaf table that goes with a page that was not mapped before is not one of the old ones: these
still have an entry. -/
theorem leaf?_eq_none (h : Hosts s₀ s) (hwf₀ : s₀.table.WellFormed)
    (hhole : s₀.table.lookup p = none) {leaf : LeafTable} (hleaf : s.table.leaf? p.leaf = some leaf)
    (hget : leaf.get? p.slot = some e) (hlive : leaf.live ≤ 1) : s₀.table.leaf? p.leaf = none := by
  rw [hwf₀.leaf?_eq_none_iff]
  intro q hq
  cases hold : s₀.table.lookup q with
  | none => rfl
  | some old =>
      have hslot : p.slot ≠ q.slot := by
        intro hslot
        rw [VirtPage.leaf_slot_ext hq.symm hslot, hold] at hhole
        cases hhole
      have hentry := h.entry hold
      rw [PageTable.lookup, hq, hleaf, Option.bind_some,
        (h.wellFormed _ _ hleaf).get?_eq_none hget hlive hslot] at hentry
      cases hentry

theorem unmapPage (h : Hosts s₀ s) (hwf₀ : s₀.table.WellFormed) (hhole : s₀.table.lookup p = none) :
    Hosts s₀ (s.unmapPage p) := by
  have hwf := wellFormed_unmapPage h.wellFormed p
  have hlookup : ∀ q, (s.unmapPage p).table.lookup q = s₀.table.lookup q ∨ s₀.table.lookup q = none ∧
      ∃ pa flags, (s.unmapPage p).table.lookup q = some ⟨.device pa, flags⟩ := by
    intro q
    rw [lookup_unmapPage h.wellFormed]
    split
    · next heq => exact Or.inl (heq ▸ hhole.symm)
    · exact h.lookup_or q
  rcases h.lookup_or p with hsame | ⟨-, pa, flags, hpage⟩
  · rw [unmapPage_of_hole (hsame.trans hhole)]
    exact h
  · obtain ⟨leaf, hleaf, hget, ⟨hlive, heq⟩ | heq⟩ := unmapPage_of_device hpage
    · rw [heq] at hwf hlookup ⊢
      have hnew := h.leaf?_eq_none hwf₀ hhole hleaf hget hlive
      refine ⟨hwf, h.refs_eq, hlookup, h.leaves_kept.setLeaf hnew none, ?_⟩
      have hperm := PageTable.leafFrames_setLeaf_none
        ((PageTable.leaf?_beyond_of_none hnew).trans hleaf)
      rw [PageTable.beyond_setLeaf hnew]
      exact (h.ledger.congr (fun _ => rfl) hperm.symm).freeLeaf
    · rw [heq] at hwf hlookup ⊢
      refine ⟨hwf, h.refs_eq, hlookup, ?_, ?_⟩
      · exact h.leaves_kept.trans (s.table.keepsLeaves_modifyLeaf p.leaf fun _ => rfl)
      · exact h.ledger.congr (fun _ => rfl) (PageTable.leafFrames_beyond_modifyLeaf hleaf rfl)

/-- Once the device pages are gone the page table is the old one, and the same frames are free. -/
theorem restored (h : Hosts s₀ s) (hwf₀ : s₀.table.WellFormed) (hpool : s₀.pool.Consistent)
    (hsize : s.pool.ram.size = s₀.pool.ram.size)
    (hlookup : ∀ q, s.table.lookup q = s₀.table.lookup q) :
    s.table = s₀.table ∧ s.pool.free.Perm s₀.pool.free := by
  have htable := hwf₀.eq_of_lookup h.wellFormed hlookup h.leaves_kept
  have hused : ∀ q, s.pool.isUsed q = s₀.pool.isUsed q := by
    intro q
    have hiff := h.ledger.used_iff q
    rw [htable, PageTable.leafFrames_beyond_self] at hiff
    rw [Bool.eq_iff_iff]
    simpa using hiff
  refine ⟨htable, (List.perm_ext_iff_of_nodup h.ledger.consistent.nodup hpool.nodup).mpr ?_⟩
  intro index
  change index ∈ s.pool.free ↔ _
  rw [FramePool.Consistent.mem_free_iff_unused h.ledger.consistent, hpool.mem_free_iff_unused, hused,
    hsize]

end Hosts

/-! ## Ranges -/

theorem lookup_of_devicePages (h : devicePages flags pa pages s = .ok () s') {q : VirtPage}
    (hq : q ∉ pages) : s'.table.lookup q = s.table.lookup q := by
  induction pages generalizing s pa with
  | nil =>
      cases h
      rfl
  | cons p rest ih =>
      obtain ⟨_, u, hplace, hrest⟩ := bind_eq_ok_iff.mp h
      rw [List.mem_cons, not_or] at hq
      rw [ih hrest hq.2, lookup_of_place hplace, if_neg (Ne.symm hq.1)]

theorem lookup_getElem_of_devicePages (hnodup : pages.Nodup)
    (h : devicePages flags pa pages s = .ok () s') {i : Nat} (hi : i < pages.length) :
    s'.table.lookup pages[i] = some ⟨.device (pa.advance i), flags⟩ := by
  induction pages generalizing s pa i with
  | nil => cases hi
  | cons p rest ih =>
      obtain ⟨_, u, hplace, hrest⟩ := bind_eq_ok_iff.mp h
      obtain ⟨hp, hnodup⟩ := List.nodup_cons.mp hnodup
      cases i with
      | zero =>
          rw [List.getElem_cons_zero, lookup_of_devicePages hrest hp, lookup_of_place hplace,
            if_pos rfl]
          simp [PhysAddr.advance]
      | succ i =>
          rw [List.getElem_cons_succ, ih hnodup hrest (Nat.lt_of_succ_lt_succ hi),
            PhysAddr.advance_one_advance]

theorem holes_of_place (hnodup : (p :: pages).Nodup)
    (hholes : ∀ q ∈ p :: pages, s.table.lookup q = none) (h : place p e s = .ok () s') :
    ∀ q ∈ pages, s'.table.lookup q = none := by
  intro q hq
  have hne : p ≠ q := by
    rintro rfl
    exact (List.nodup_cons.mp hnodup).1 hq
  rw [lookup_of_place h, if_neg hne]
  exact hholes q (List.mem_cons_of_mem _ hq)

theorem Hosts.devicePages (h : Hosts s₀ s) (hnodup : pages.Nodup)
    (hholes : ∀ q ∈ pages, s.table.lookup q = none)
    (hdone : devicePages flags pa pages s = .ok () s') : Hosts s₀ s' := by
  induction pages generalizing s pa with
  | nil =>
      cases hdone
      exact h
  | cons p rest ih =>
      obtain ⟨_, u, hplace, hrest⟩ := bind_eq_ok_iff.mp hdone
      exact ih (h.place (hholes p List.mem_cons_self) hplace) (List.nodup_cons.mp hnodup).2
        (holes_of_place hnodup hholes hplace) hrest

theorem Hosts.foldl_unmapPage (h : Hosts s₀ s) (hwf₀ : s₀.table.WellFormed)
    (hholes : ∀ q ∈ pages, s₀.table.lookup q = none) : Hosts s₀ (pages.foldl Space.unmapPage s) := by
  induction pages generalizing s with
  | nil => exact h
  | cons p rest ih =>
      exact ih (h.unmapPage hwf₀ (hholes p List.mem_cons_self)) fun q hq =>
        hholes q (List.mem_cons_of_mem _ hq)

theorem freeFrames_of_place (hreliable : s.memory.machine.Reliable) (hhole : s.table.lookup p = none)
    (h : place p e s = .ok () s') (rest : List VirtPage) :
    s'.memory.machine.freeFrames + s.table.needed (p :: rest) =
      s.memory.machine.freeFrames + s'.table.needed rest := by
  rcases place_of_hole hhole h with ⟨leaf, hleaf, rfl⟩ | ⟨hleaf, frame, machine, halloc, rfl⟩
  · rw [PageTable.needed_cons_modifyLeaf hleaf]
  · have htaken := (hreliable.alloc halloc).2.1
    rw [PageTable.needed_cons_of_missing hleaf (.single frame p.slot e)]
    simp only
    omega

theorem freeFrames_of_devicePages (hreliable : s.memory.machine.Reliable) (hnodup : pages.Nodup)
    (hholes : ∀ q ∈ pages, s.table.lookup q = none)
    (h : devicePages flags pa pages s = .ok () s') :
    s'.memory.machine.freeFrames + s.table.needed pages = s.memory.machine.freeFrames := by
  induction pages generalizing s pa with
  | nil =>
      cases h
      simp [PageTable.needed, PageTable.missingLeaves]
  | cons p rest ih =>
      obtain ⟨_, u, hplace, hrest⟩ := bind_eq_ok_iff.mp h
      have hfirst := freeFrames_of_place hreliable (hholes p List.mem_cons_self) hplace rest
      have hkept := lasting_place Machine.lasting_reliable p ⟨.device pa, flags⟩ s hreliable
      rw [hplace, stateOf_ok] at hkept
      have hlater := ih hkept (List.nodup_cons.mp hnodup).2 (holes_of_place hnodup hholes hplace) hrest
      omega

/-! ## The request -/

variable {r : PageRange} {rights : MapRights} {w : DeviceWindow}

/-- What mapping the device pages of a window over a range comes to. -/
structure DevicesMapped (w : DeviceWindow) (r : PageRange) (pa : PhysAddr) (rights : MapRights)
    (s s' : Space) : Prop where
  lookup_eq : ∀ (i : Nat) (hi : i < r.toList.length),
    s'.table.lookup r.toList[i] = some ⟨.device (pa.advance i), rights.flags⟩
  lookup_outside : ∀ q ∉ r.toList, s'.table.lookup q = s.table.lookup q
  inside : ∀ i < r.count, w.Covers (pa.advance i) pageSize
  beside_ram : ∀ i < r.count,
    (pa.advance i).raw + pageSize ≤ ramBase ∨ s'.pool.ramStop ≤ (pa.advance i).raw
  refs_eq : s'.memory.refs = s.memory.refs
  sameBytes : s.pool.SameBytes s'.pool
  /-- Leaf tables take frames; the device pages themselves do not. -/
  freeFrames_eq : s'.memory.machine.freeFrames + s.table.missingTables r = s.memory.machine.freeFrames

/-- What unmapping the range again comes to. -/
structure DevicesUndone (r : PageRange) (pa : PhysAddr) (s s' : Space) : Prop where
  table_eq : (s'.unmapRegion r).table = s.table
  refs_eq : (s'.unmapRegion r).memory.refs = s.memory.refs
  free_perm : (s'.unmapRegion r).pool.free.Perm s.pool.free
  freeFrames_eq : (s'.unmapRegion r).memory.machine.freeFrames = s.memory.machine.freeFrames
  /-- At no point of the way does the pool take a device page for one of its frames. -/
  never_free : ∀ pages : List VirtPage, ∀ index ∈ (pages.foldl unmapPage s').pool.free,
    ∀ i < r.count, FramePool.ramAddr index ≠ pa.advance i

/-- How the request for device pages from `pa` on over a range is answered. -/
structure MapsDevices (s : Space) (r : PageRange) (pa : PhysAddr) (rights : MapRights) : Prop where
  outside : (¬ ∃ w ∈ s.pool.windows, w.Covers pa (r.count * pageSize)) →
    mapDeviceRegion r pa rights s = .error .notDevice s
  wraps : wordLimit ≤ pa.raw + r.count * pageSize →
    mapDeviceRegion r pa rights s = .error .notDevice s
  occupied : ∀ w ∈ s.pool.windows, w.Covers pa (r.count * pageSize) →
    (∃ p ∈ r.toList, s.table.isMapped p = true) → mapDeviceRegion r pa rights s = .error .occupied s
  spent : ∀ w ∈ s.pool.windows, w.Covers pa (r.count * pageSize) →
    (∀ p ∈ r.toList, s.table.lookup p = none) →
      s.memory.machine.freeFrames < s.table.missingTables r →
        mapDeviceRegion r pa rights s = .error .noMemory s
  done : ∀ w ∈ s.pool.windows, w.Covers pa (r.count * pageSize) →
    (∀ p ∈ r.toList, s.table.lookup p = none) →
      s.table.missingTables r ≤ s.memory.machine.freeFrames →
        ∃ s', mapDeviceRegion r pa rights s = .ok () s' ∧ DevicesMapped w r pa rights s s' ∧
          DevicesUndone r pa s s'

theorem mapDeviceRegion_of_nonempty (hr : r.isEmpty = false) (pa : PhysAddr) (rights : MapRights)
    (s : Space) : mapDeviceRegion r pa rights s = match s.deviceFault? r pa with
      | some e => .error e s
      | none => devicePages rights.flags pa r.toList s := by
  rw [mapDeviceRegion, bind_of_ok (x := get) (a := s) (t := s) rfl, hr, if_neg Bool.false_ne_true]
  cases s.deviceFault? r pa <;> rfl

theorem isVacant_iff {t : PageTable} : t.isVacant r = true ↔ ∀ p ∈ r.toList, t.lookup p = none := by
  simp [PageTable.isVacant, PageTable.isMapped]

theorem deviceFault?_of_outside (h : ¬ ∃ w ∈ s.pool.windows, w.Covers pa (r.count * pageSize)) :
    s.deviceFault? r pa = some .notDevice := by
  rw [← FramePool.isDeviceRange_iff] at h
  rw [deviceFault?, if_pos (by simpa using h)]

/-- Inside a window, pages that are mapped already are noticed before frames that are wanting. -/
theorem deviceFault?_of_covers (hw : w ∈ s.pool.windows) (h : w.Covers pa (r.count * pageSize)) :
    s.deviceFault? r pa =
      if s.table.isVacant r = false then some .occupied
      else if s.memory.machine.freeFrames < s.table.missingTables r then some .noMemory
      else none := by
  have hrange := FramePool.isDeviceRange_iff.mpr ⟨w, hw, h⟩
  rw [deviceFault?, if_neg (by simpa using hrange)]
  simp only [Bool.not_eq_true', hasFrames, decide_eq_false_iff_not, Nat.not_le]

theorem ramAddr_ne_of_covers {pool next : FramePool} (hapart : pool.WindowsApart)
    (hlayout : pool.SameLayout next) (hnext : next.Consistent) {q : PhysAddr} (hw : w ∈ pool.windows)
    (hcovers : w.Covers q pageSize) {index : Nat} (hindex : index ∈ next.free) :
    FramePool.ramAddr index ≠ q := by
  rintro rfl
  have hnone := FramePool.ramIndex?_of_isDeviceRange hapart
    (FramePool.isDeviceRange_iff.mpr ⟨w, hw, hcovers⟩)
  have hlt := hnext.lt_size hindex
  rw [hlayout.size_eq] at hlt
  rw [FramePool.ramIndex?_ramAddr, if_pos hlt] at hnone
  cases hnone

theorem on_of_devicePages {P : Machine → Prop} (hP : Machine.Lasting P) (hs : On P s)
    (h : devicePages flags pa pages s = .ok () s') : On P s' := by
  have hkept := keeps_devicePages (I := On P) (fun p (_ : p ∈ pages) pa =>
    lasting_place hP p ⟨.device pa, flags⟩) pa s hs
  rwa [h] at hkept

theorem sameBytes_of_devicePages (h : devicePages flags pa pages s = .ok () s') :
    s.pool.SameBytes s'.pool := by
  have hkept := keeps_devicePages (I := fun u => s.pool.SameBytes u.pool)
    (fun p (_ : p ∈ pages) pa u hu => hu.trans (sameBytes_place p ⟨.device pa, flags⟩ u)) pa s
    (.refl _)
  rwa [h] at hkept

theorem devicesMapped_of_devicePages (hapart : s.pool.WindowsApart)
    (hreliable : s.memory.machine.Reliable) (hw : w ∈ s.pool.windows)
    (hcovers : w.Covers pa (r.count * pageSize)) (hholes : ∀ p ∈ r.toList, s.table.lookup p = none)
    (hhosts : Hosts s s') (h : devicePages rights.flags pa r.toList s = .ok () s') :
    DevicesMapped w r pa rights s s' where
  lookup_eq _ hi := lookup_getElem_of_devicePages r.nodup_toList h hi
  lookup_outside _ hq := lookup_of_devicePages h hq
  inside _ hi := hcovers.page hi
  beside_ram i hi := by
    obtain ⟨hbase, hstop⟩ := hcovers.page hi
    have hstay : s'.pool.ramStop = s.pool.ramStop := by
      rw [FramePool.ramStop, FramePool.ramStop, (sameBytes_of_devicePages h).size_eq]
    rw [hstay]
    exact (hapart w hw).imp (Nat.le_trans hstop) fun hbeside => Nat.le_trans hbeside hbase
  refs_eq := hhosts.refs_eq
  sameBytes := sameBytes_of_devicePages h
  freeFrames_eq := by
    rw [← PageTable.needed_toList]
    exact freeFrames_of_devicePages hreliable r.nodup_toList hholes h

theorem devicesUndone_of_devicePages (hapart : s.pool.WindowsApart) (hpool : s.pool.Consistent)
    (hwf : s.table.WellFormed) (hw : w ∈ s.pool.windows)
    (hcovers : w.Covers pa (r.count * pageSize)) (hholes : ∀ p ∈ r.toList, s.table.lookup p = none)
    (hhosts : Hosts s s') (h : devicePages rights.flags pa r.toList s = .ok () s') :
    DevicesUndone r pa s s' := by
  have hkept : ∀ {P : Machine → Prop}, Machine.Lasting P → On P s → ∀ pages : List VirtPage,
      On P (pages.foldl unmapPage s') := fun hP hs _ =>
    keeps_foldl_unmapPage (I := On _) (lasting_unmapPage hP) (on_of_devicePages hP hs h)
  have hlayout := hkept (Machine.lasting_sameLayout s.pool) (.refl _)
  have hconsistent := hkept Machine.lasting_consistent hpool
  have hclaims := hkept (Machine.lasting_overclaim s.memory.machine.overclaim) rfl r.toList
  have hafter : Hosts s (s'.unmapRegion r) := hhosts.foldl_unmapPage hwf hholes
  have hlookup : ∀ q, (s'.unmapRegion r).table.lookup q = s.table.lookup q := by
    intro q
    rw [unmapRegion, (lookup_foldl_unmapPage _ hhosts.wellFormed q).2]
    split
    · next hq => exact (hholes q hq).symm
    · next hq => exact lookup_of_devicePages h hq
  obtain ⟨htable, hperm⟩ := hafter.restored hwf hpool (hlayout r.toList).size_eq hlookup
  refine ⟨htable, hafter.refs_eq, hperm, ?_, fun pages index hindex i hi => ?_⟩
  · change (s'.unmapRegion r).pool.free.length + (s'.unmapRegion r).memory.machine.overclaim = _
    rw [hperm.length_eq, unmapRegion, hclaims]
    rfl
  · exact ramAddr_ne_of_covers hapart (hlayout pages) (hconsistent pages) hw (hcovers.page hi) hindex

/-- Over a pool with any windows, the request for device pages over a range that is not empty is
refused without a trace, or maps exactly the pages that it asks for and can be taken back. -/
theorem mapsDevices_of_layout {frames : Nat} {windows : List (Nat × Nat)}
    (hlayout : (FramePool.fresh frames windows).SameLayout s.pool) (hpool : s.pool.Consistent)
    (hclaims : s.memory.machine.overclaim = 0) (hhidden : s.memory.machine.hidden = [])
    (hwf : s.table.WellFormed) (hr : r.isEmpty = false) (pa : PhysAddr) (rights : MapRights) :
    MapsDevices s r pa rights := by
  have hapart := hlayout.windowsApart (FramePool.windowsApart_fresh frames windows)
  have hfit := hlayout.windowsFit (FramePool.windowsFit_fresh frames windows)
  have hreliable : s.memory.machine.Reliable := ⟨hclaims, hhidden, fun _ => hpool.lt_size⟩
  have houtside : (¬ ∃ w ∈ s.pool.windows, w.Covers pa (r.count * pageSize)) →
      mapDeviceRegion r pa rights s = .error .notDevice s := by
    intro hnot
    rw [mapDeviceRegion_of_nonempty hr, deviceFault?_of_outside hnot]
  refine ⟨houtside, fun hwraps => houtside (hfit.not_covers hwraps), ?_, ?_, ?_⟩
  · rintro w hw hcovers ⟨p, hp, hmapped⟩
    have hvacant : s.table.isVacant r = false := by
      rw [← Bool.not_eq_true, isVacant_iff]
      intro hholes
      rw [PageTable.isMapped, hholes p hp] at hmapped
      cases hmapped
    rw [mapDeviceRegion_of_nonempty hr, deviceFault?_of_covers hw hcovers, if_pos hvacant]
  · intro w hw hcovers hholes hfew
    have hvacant := isVacant_iff.mpr hholes
    rw [mapDeviceRegion_of_nonempty hr, deviceFault?_of_covers hw hcovers,
      if_neg (by rw [hvacant]; decide), if_pos hfew]
  · intro w hw hcovers hholes henough
    have hvacant := isVacant_iff.mpr hholes
    have hgive : s.memory.machine.CanGive (s.table.needed r.toList) :=
      ⟨hreliable, by rw [PageTable.needed_toList]; exact henough⟩
    obtain ⟨s', hpages⟩ := devicePages_of_canGive rights.flags pa hgive
    have hhosts := (Hosts.refl hpool hwf).devicePages r.nodup_toList hholes hpages
    refine ⟨s', ?_, devicesMapped_of_devicePages hapart hreliable hw hcovers hholes hhosts hpages,
      devicesUndone_of_devicePages hapart hpool hwf hw hcovers hholes hhosts hpages⟩
    rw [mapDeviceRegion_of_nonempty hr, deviceFault?_of_covers hw hcovers,
      if_neg (by rw [hvacant]; decide), if_neg (Nat.not_lt_of_le henough)]
    exact hpages

/-- The two device pages of a window go to both sides of the end of a leaf table that is there. -/
theorem mapsDevices_onePage : (FramePool.fresh 8 [(0x200000, 2)]).SameLayout onePage.pool ∧
    onePage.pool.Consistent ∧ onePage.memory.machine.overclaim = 0 ∧
    onePage.memory.machine.hidden = [] ∧ onePage.table.WellFormed ∧
    PageRange.isEmpty ⟨511, 2, by decide⟩ = false ∧
    onePage.table.missingTables ⟨511, 2, by decide⟩ = 1 ∧
    ∃ w ∈ onePage.pool.windows, ∃ s',
      mapDeviceRegion ⟨511, 2, by decide⟩ ⟨0x200000⟩ ⟨true, false, false, false⟩ onePage = .ok () s' ∧
        DevicesMapped w ⟨511, 2, by decide⟩ ⟨0x200000⟩ ⟨true, false, false, false⟩ onePage s' ∧
        DevicesUndone ⟨511, 2, by decide⟩ ⟨0x200000⟩ onePage s' := by
  have hlayout : (FramePool.fresh 8 [(0x200000, 2)]).SameLayout onePage.pool :=
    ⟨by decide +kernel, by decide +kernel⟩
  have hpool : onePage.pool.Consistent := inBalance_onePage.ledger.consistent
  have hclaims : onePage.memory.machine.overclaim = 0 := by decide +kernel
  have hhidden : onePage.memory.machine.hidden = [] := by decide +kernel
  have hwf : onePage.table.WellFormed := inBalance_onePage.wellFormed _ List.mem_cons_self
  have hmissing : onePage.table.missingTables ⟨511, 2, by decide⟩ = 1 := by decide +kernel
  have hrange : onePage.pool.isDeviceRange ⟨0x200000⟩ (2 * pageSize) = true := by decide +kernel
  have hvacant : onePage.table.isVacant ⟨511, 2, by decide⟩ = true := by decide +kernel
  obtain ⟨w, hw, hcovers⟩ := FramePool.isDeviceRange_iff.mp hrange
  refine ⟨hlayout, hpool, hclaims, hhidden, hwf, rfl, hmissing, w, hw, ?_⟩
  exact (mapsDevices_of_layout hlayout hpool hclaims hhidden hwf rfl _ _).done w hw hcovers
    (isVacant_iff.mp hvacant) (by rw [hmissing]; decide +kernel)

end Space

end Exokernel
