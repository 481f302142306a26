import Exokernel.Proofs.Region.Reading
import Exokernel.Proofs.Region.Writing

/-! # Writes land where the page table says

A write goes over the pages of its range, gives them their frames and lays its bytes over those that
are there.  What each space sees of it at an address is the byte of the highest address of the range
that leads to the same place; where no address of the range leads, everything is as it was. -/

namespace Exokernel

variable {p : VirtPage} {pa : PhysAddr} {place : PhysAddr × Nat} {addr : Nat}

/-! ## Bytes laid over others -/

theorem overlay_congr {before before' : PhysAddr × Nat → Option UInt8}
    (h : before place = before' place) (writes : List ((PhysAddr × Nat) × UInt8)) :
    overlay before writes place = overlay before' writes place := by
  induction writes generalizing before before' with
  | nil => exact h
  | cons w rest ih =>
      refine ih ?_
      dsimp only
      by_cases hw : place = w.1
      · rw [hw, Function.update_self, Function.update_self]
      · rw [Function.update_of_ne hw, Function.update_of_ne hw, h]

namespace PageTable

variable {t t' : PageTable} {addrs : List Nat} {bytes : List UInt8} {pool next : FramePool}

theorem writes_congr (h : ∀ addr ∈ addrs, t'.place? addr = t.place? addr) :
    t'.writes addrs bytes = t.writes addrs bytes := by
  apply List.filterMap_congr
  intro x hx
  rw [h x.1 (List.of_mem_zip hx).1]

theorem exists_place?_of_mem_writes (h : place ∈ (t.writes addrs bytes).map Prod.fst) :
    ∃ i, ∃ (hi : i < addrs.length), i < bytes.length ∧ t.place? addrs[i] = some place := by
  obtain ⟨w, hw, rfl⟩ := List.mem_map.mp h
  obtain ⟨x, hx, hplace⟩ := List.mem_filterMap.mp hw
  obtain ⟨at', hat, rfl⟩ := Option.map_eq_some_iff.mp hplace
  obtain ⟨i, hi, rfl⟩ := List.getElem_of_mem hx
  rw [List.length_zip, Nat.lt_min] at hi
  rw [List.getElem_zip] at hat
  exact ⟨i, hi.1, hi.2, hat⟩

/-- The last write to a place counts. -/
theorem overlay_writes (before : PhysAddr × Nat → Option UInt8) {i : Nat} (hi : i < addrs.length)
    (hbyte : i < bytes.length) (hplace : t.place? addrs[i] = some place)
    (hlast : ∀ j (hj : j < addrs.length), j < bytes.length → i < j →
      t.place? addrs[j] ≠ some place) :
    overlay before (t.writes addrs bytes) place = some bytes[i] := by
  have haddrs : addrs = addrs.take i ++ addrs[i] :: addrs.drop (i + 1) := by simp
  have hbytes : bytes = bytes.take i ++ bytes[i] :: bytes.drop (i + 1) := by simp
  have hwrites : t.writes addrs bytes = t.writes (addrs.take i) (bytes.take i) ++
      (place, bytes[i]) :: t.writes (addrs.drop (i + 1)) (bytes.drop (i + 1)) := by
    conv_lhs => rw [haddrs, hbytes]
    rw [writes_append (by simp only [List.length_take]; omega)]
    simp only [writes, List.zip_cons_cons, List.filterMap_cons, hplace, Option.map_some]
  have hrest : place ∉ (t.writes (addrs.drop (i + 1)) (bytes.drop (i + 1))).map Prod.fst := by
    intro hmem
    obtain ⟨k, hk, hk', hsame⟩ := exists_place?_of_mem_writes hmem
    rw [List.length_drop] at hk hk'
    rw [List.getElem_drop] at hsame
    exact hlast (i + 1 + k) (by omega) (by omega) (by omega) hsame
  rw [hwrites, overlay_append, overlay, List.foldl_cons]
  exact (overlay_of_not_mem hrest _).trans (Function.update_self _ _ _)

/-! ## What is seen -/

theorem view_of_place? (h : t.place? addr = some place) (pool : FramePool) :
    t.view pool addr = pool.byte? place := by
  rw [place?] at h
  split at h
  · next hbelow =>
    obtain ⟨pa, hpa, rfl⟩ := Option.map_eq_some_iff.mp h
    obtain ⟨b, hb, hphys⟩ := Option.bind_eq_some_iff.mp hpa
    rw [view, dif_pos hbelow, contents_of_phys? hb hphys]
    rfl
  · cases h

theorem view_of_no_place (h : t.place? addr = none) (pool next : FramePool) :
    t.view next addr = t.view pool addr := by
  rw [place?] at h
  rw [view, view]
  split
  · next hbelow =>
    rw [dif_pos hbelow, Option.map_eq_none_iff] at h
    rw [contents, contents]
    cases hb : t.backing? (VirtAddr.page ⟨addr, hbelow⟩) with
    | none => rfl
    | some b =>
        rw [hb] at h
        cases b <;> first | rfl | cases h
  · rfl

/-- What is seen at an address after some writes, given what was seen at it before. -/
def seenAfter (t : PageTable) (before : Nat → Option UInt8) (writes : List ((PhysAddr × Nat) × UInt8))
    (addr : Nat) : Option UInt8 :=
  match t.place? addr with
  | some place => overlay (fun _ => before addr) writes place
  | none => before addr

theorem seenAfter_nil (t : PageTable) (before : Nat → Option UInt8) (addr : Nat) :
    t.seenAfter before [] addr = before addr := by
  rw [seenAfter]
  split <;> rfl

theorem view_eq_seenAfter {writes : List ((PhysAddr × Nat) × UInt8)}
    (h : next.byte? = overlay pool.byte? writes) (t : PageTable) (addr : Nat) :
    t.view next addr = t.seenAfter (t.view pool) writes addr := by
  rw [seenAfter]
  split
  · next place hplace =>
    rw [view_of_place? hplace, h]
    exact overlay_congr (view_of_place? hplace pool).symm writes
  · next hplace => exact view_of_no_place hplace pool next

/-- Some writes and then others.  An address that the first ones found without a place comes to one
that they have not written to. -/
theorem seenAfter_append {before : Nat → Option UInt8}
    {first second : List ((PhysAddr × Nat) × UInt8)}
    (hkept : ∀ place, t.place? addr = some place → t'.place? addr = some place)
    (hfresh : ∀ place, t.place? addr = none → t'.place? addr = some place →
      place ∉ first.map Prod.fst) :
    t'.seenAfter (t.seenAfter before first) second addr =
      t'.seenAfter before (first ++ second) addr := by
  cases hafter : t'.place? addr with
  | none =>
      have hnone : t.place? addr = none := by
        cases hplace : t.place? addr with
        | none => rfl
        | some place =>
            rw [hkept place hplace] at hafter
            cases hafter
      simp only [seenAfter, hafter, hnone]
  | some place =>
      simp only [seenAfter, hafter]
      rw [overlay_append]
      apply overlay_congr
      cases hplace : t.place? addr with
      | none => exact (overlay_of_not_mem (hfresh place hplace hafter) fun _ => before addr).symm
      | some place' =>
          obtain rfl : place = place' := by
            rw [hkept place' hplace] at hafter
            exact (Option.some.inj hafter).symm
          rfl

end PageTable

namespace Space

variable {rest : List PageTable} {s s₁ s₂ s' : Space} {t : PageTable} {start : Nat}
  {addrs others : List Nat} {bytes more : List UInt8}

theorem Populated.drawn_of_place? (h : Populated s s') (hbefore : s.table.place? addr = none)
    (hafter : s'.table.place? addr = some place) :
    ∃ p fill, s'.table.backing? p = some (.frame place.1) ∧
      Memory.Drawn s.memory s'.memory fill place.1 := by
  rw [PageTable.place?] at hbefore hafter
  split at hafter
  · next hbelow =>
    rw [dif_pos hbelow] at hbefore
    obtain ⟨pa, hpa, rfl⟩ := Option.map_eq_some_iff.mp hafter
    rcases h.lookup_or (VirtAddr.page ⟨addr, hbelow⟩) with hsame | ⟨fill, flags, pa', -, hframe, hdrawn⟩
    · rw [PageTable.backing?, hsame] at hpa
      rw [PageTable.backing?, hpa] at hbefore
      cases hbefore
    · have hback : s'.table.backing? (VirtAddr.page ⟨addr, hbelow⟩) = some (.frame pa') := by
        rw [PageTable.backing?, hframe]
        rfl
      rw [hback] at hpa
      cases hpa
      exact ⟨_, fill, hback, hdrawn⟩
  · cases hafter

/-! ## One step after the other -/

/-- Some bytes were written at some addresses, one after the other, and each space sees so much of
it as leads to the same places. -/
structure Laid (rest : List PageTable) (addrs : List Nat) (bytes : List UInt8) (s s' : Space) :
    Prop where
  grounded : Grounded rest s'
  populated : Populated s s'
  placed : ∀ addr ∈ addrs, (s'.table.place? addr).isSome = true
  view_eq : ∀ addr, s'.table.view s'.pool addr =
    s'.table.seenAfter (s.table.view s.pool) (s'.table.writes addrs bytes) addr
  view_rest : ∀ t ∈ rest, ∀ addr, t.view s'.pool addr =
    t.seenAfter (t.view s.pool) (s'.table.writes addrs bytes) addr

/-- A frame that a page takes is not among the places that were written to before. -/
theorem Laid.not_mem_writes (h : Laid rest addrs bytes s s₁) (hnext : Populated s₁ s₂)
    (hgrounded : Grounded rest s₂) (hbefore : s₁.table.place? addr = none)
    (hafter : s₂.table.place? addr = some place) :
    place ∉ (s₁.table.writes addrs bytes).map Prod.fst := by
  intro hmem
  obtain ⟨p, fill, hp, hdrawn⟩ := hnext.drawn_of_place? hbefore hafter
  have hunused := hdrawn.unused h.grounded.consistent
  obtain ⟨q, b, hb, hphys⟩ := PageTable.exists_phys?_of_mem_writes hmem
  cases b with
  | frame pa =>
      cases hphys
      rw [h.grounded.isUsed_of_backing List.mem_cons_self hb] at hunused
      cases hunused
  | device pa =>
      cases hphys
      -- a page of a window is no frame
      have hdevice := hgrounded.ramIndex?_of_device List.mem_cons_self (hnext.backing?_eq hb rfl)
      obtain ⟨index, hindex, -⟩ :=
        FramePool.exists_index_of_isUsed (hgrounded.isUsed_of_backing List.mem_cons_self hp)
      rw [hdevice] at hindex
      cases hindex
  | lazy _ => cases hphys

theorem Laid.trans (h : Laid rest addrs bytes s s₁) (h' : Laid rest others more s₁ s₂)
    (hlength : addrs.length = bytes.length) :
    Laid rest (addrs ++ others) (bytes ++ more) s s₂ := by
  have hkept : ∀ addr place, s₁.table.place? addr = some place → s₂.table.place? addr = some place :=
    fun _ _ => h'.populated.place?_eq
  have hfirst : s₂.table.writes addrs bytes = s₁.table.writes addrs bytes := by
    apply PageTable.writes_congr
    intro addr haddr
    obtain ⟨place, hplace⟩ := Option.isSome_iff_exists.mp (h.placed addr haddr)
    rw [hkept addr place hplace, hplace]
  refine ⟨h'.grounded, h.populated.trans h'.populated, ?_, ?_, ?_⟩
  · intro addr haddr
    rcases List.mem_append.mp haddr with haddr | haddr
    · obtain ⟨place, hplace⟩ := Option.isSome_iff_exists.mp (h.placed addr haddr)
      exact Option.isSome_of_eq_some (hkept addr place hplace)
    · exact h'.placed addr haddr
  · intro addr
    rw [PageTable.writes_append hlength, hfirst, h'.view_eq, funext h.view_eq]
    exact PageTable.seenAfter_append (hkept addr) fun place hbefore hafter =>
      h.not_mem_writes h'.populated h'.grounded hbefore hafter
  · intro t ht addr
    rw [PageTable.writes_append hlength, hfirst, h'.view_rest t ht, funext (h.view_rest t ht)]
    refine PageTable.seenAfter_append (fun _ hplace => hplace) fun place hbefore hafter => ?_
    rw [hbefore] at hafter
    cases hafter

theorem Grounded.laid_of_populate (h : Grounded rest s) (hpage : populate p s = .ok pa s') :
    Laid rest [] [] s s' := by
  have hafter := h.materialised_of_populate hpage
  have hpopulated := populated_populate s p s (.refl s)
  rw [hpage] at hpopulated
  refine ⟨hafter.grounded, hpopulated, nofun, fun addr => ?_, fun t ht addr => ?_⟩
  · exact (PageTable.view_congr hafter.contents_eq addr).trans (PageTable.seenAfter_nil _ _ _).symm
  · exact (PageTable.view_congr (hafter.contents_rest t ht) addr).trans
      (PageTable.seenAfter_nil _ _ _).symm

theorem Grounded.updateBytes (h : Grounded rest s) (pa : PhysAddr) (f : Frame → Frame) :
    Grounded rest (s.updateBytes pa f) := by
  have hlayout := FramePool.sameLayout_update s.pool pa f
  refine ⟨Machine.lasting_reliable.update _ _ _ h.reliable, h.consistent.update pa f,
    hlayout.windowsApart h.windowsApart, h.count_eq, ?_, ?_⟩
  · intro q hq
    exact (FramePool.isUsed_update _ _ _ _).trans (h.counted_used q hq)
  · intro t ht q pa' hq
    have hdevice := h.devices t ht q pa' hq
    rw [← hlayout.isDeviceRange_eq] at hdevice
    exact hdevice

theorem Grounded.laid_updateBytes (h : Grounded rest s) {span : Span} {b : Backing} {f : Frame}
    (hb : s.table.backing? span.page = some b) (hphys : b.phys? = some pa)
    (hf : s.pool.frame? pa = some f) (hinside : span.offset + span.length ≤ pageSize)
    (hlength : bytes.length = span.length) :
    Laid rest span.addresses bytes s
      (s.updateBytes pa (·.write span.offset bytes.toArray)) := by
  have hbytes : (s.updateBytes pa (·.write span.offset bytes.toArray)).pool.byte? =
      overlay s.pool.byte? (s.table.writes span.addresses bytes) := by
    rw [PageTable.writes_span hb hphys hinside, ← hlength]
    exact FramePool.byte?_update_write hf (by omega)
  refine ⟨h.updateBytes pa _, populated_updateBytes (.refl s) pa _, ?_,
    PageTable.view_eq_seenAfter hbytes s.table, fun t _ => PageTable.view_eq_seenAfter hbytes t⟩
  intro addr haddr
  rw [Span.addresses, List.mem_range'_1] at haddr
  obtain ⟨i, rfl⟩ := Nat.exists_eq_add_of_le haddr.1
  rw [Nat.add_assoc]
  exact Option.isSome_of_eq_some (PageTable.place?_of_phys? hb hphys (by omega))

theorem Grounded.laid_of_writeSpan (h : Grounded rest s) {span : Span}
    (hinside : span.offset + span.length ≤ pageSize) (hlength : bytes.length = span.length)
    (hwrite : writeSpan span bytes s = .ok () s') : Laid rest span.addresses bytes s s' := by
  obtain ⟨pa, u, f, hpage, hf, rfl⟩ := writeSpan_eq_ok hwrite
  obtain ⟨b, hb, hphys⟩ := backing?_of_populate hpage
  have hfirst := h.laid_of_populate hpage
  exact hfirst.trans (hfirst.grounded.laid_updateBytes hb hphys hf hinside hlength) rfl

theorem Grounded.laid_of_writeSpans (h : Grounded rest s) {spans : List Span}
    (hinside : ∀ span ∈ spans, span.offset + span.length ≤ pageSize)
    (hlength : bytes.length = (spans.map Span.length).sum)
    (hwrite : writeSpans spans bytes s = .ok () s') :
    Laid rest (spans.flatMap Span.addresses) bytes s s' := by
  induction spans generalizing s bytes with
  | nil =>
      cases hwrite
      exact ⟨h, .refl _, nofun, fun _ => (PageTable.seenAfter_nil _ _ _).symm,
        fun _ _ _ => (PageTable.seenAfter_nil _ _ _).symm⟩
  | cons span spans ih =>
      obtain ⟨_, u, hspan, hrest⟩ := bind_eq_ok_iff.mp hwrite
      rw [List.map_cons, List.sum_cons] at hlength
      have htake : (bytes.take span.length).length = span.length := by
        rw [List.length_take]
        omega
      have hfirst := h.laid_of_writeSpan (hinside span List.mem_cons_self) htake hspan
      have hothers := ih hfirst.grounded
        (fun other hother => hinside other (List.mem_cons_of_mem _ hother))
        (by rw [List.length_drop]; omega) hrest
      have hall := hfirst.trans hothers (by rw [Span.addresses, List.length_range', htake])
      rwa [List.take_append_drop] at hall

theorem Grounded.laid_of_writeBytes (h : Grounded rest s)
    (hwrite : writeBytes start bytes s = .ok () s') :
    Laid rest (List.range' start bytes.length) bytes s s' := by
  obtain ⟨⟨r, hrange, hpermits⟩, -⟩ := provided_of_writeBytes h.reliable hwrite
  obtain ⟨rfl, hlength⟩ := ByteRange.of?_eq_some_iff.mp hrange
  rw [writeBytes_of_permits hlength hpermits] at hwrite
  rw [← hlength, ← ByteRange.flatMap_addresses_spans]
  exact h.laid_of_writeSpans (fun _ => ByteRange.span_inside)
    (hlength.symm.trans r.sum_length_spans.symm) hwrite

/-! ## What a write comes to -/

/-- What a space sees once bytes were written from `start` on through the table `own`: at an address
that leads to a place that some address of the range leads to, the byte of the highest such address;
at any other address what it saw before. -/
structure Lands (own : PageTable) (start : Nat) (bytes : List UInt8) (before after : Nat → Option UInt8)
    (t : PageTable) : Prop where
  hit : ∀ addr place i, t.place? addr = some place → i < bytes.length →
    own.place? (start + i) = some place →
    (∀ j < bytes.length, i < j → own.place? (start + j) ≠ some place) → after addr = bytes[i]?
  miss : ∀ addr, (∀ i < bytes.length, own.place? (start + i) ≠ t.place? addr) →
    after addr = before addr

theorem lands_of_seenAfter {own : PageTable} {before after : Nat → Option UInt8}
    (h : ∀ addr, after addr =
      t.seenAfter before (own.writes (List.range' start bytes.length) bytes) addr) :
    Lands own start bytes before after t := by
  constructor
  · intro addr place i hplace hi hhit hlast
    rw [h, PageTable.seenAfter, hplace, List.getElem?_eq_getElem hi]
    refine PageTable.overlay_writes _ (by simpa using hi) hi ?_ ?_
    · simpa using hhit
    · intro j _ hj hij
      simpa using hlast j hj hij
  · intro addr hmiss
    rw [h, PageTable.seenAfter]
    split
    · next place hplace =>
      refine overlay_of_not_mem ?_ _
      intro hmem
      obtain ⟨i, _, hi, hhit⟩ := PageTable.exists_place?_of_mem_writes hmem
      rw [List.getElem_range', Nat.one_mul] at hhit
      exact hmiss i hi (hhit.trans hplace.symm)
    · rfl

/-- What a write has done.  Every address of its range leads to a place, some pages of the range
that had no frame have one, each space sees the bytes that have landed where its own addresses lead,
and if no two addresses of the range lead to the same place the bytes are read back. -/
structure Landed (rest : List PageTable) (start : Nat) (bytes : List UInt8) (s s' : Space) : Prop where
  grounded : Grounded rest s'
  placed : ∀ i < bytes.length, (s'.table.place? (start + i)).isSome = true
  lookup_or : ∀ p, s'.table.lookup p = s.table.lookup p ∨
    p ∈ PageTable.pagesOf start bytes.length ∧ ∃ fill flags pa,
      s.table.lookup p = some ⟨.lazy fill, flags⟩ ∧ s'.table.lookup p = some ⟨.frame pa, flags⟩
  own : Lands s'.table start bytes (s.table.view s.pool) (s'.table.view s'.pool) s'.table
  others : ∀ t ∈ rest, Lands s'.table start bytes (t.view s.pool) (t.view s'.pool) t
  read_back : (∀ i < bytes.length, ∀ j < bytes.length,
      s'.table.place? (start + i) = s'.table.place? (start + j) → i = j) →
    ∃ s'', readBytes start bytes.length s' = .ok bytes s''

theorem readable_of_writable (hpopulated : Populated s s') {length : Nat}
    (h : s.table.Writable start length) : s'.table.Readable start length := by
  obtain ⟨r, hrange, hpermits⟩ := h
  refine ⟨r, hrange, List.all_eq_true.mpr fun p hp => ?_⟩
  have hpage := List.all_eq_true.mp hpermits p hp
  rw [Option.any_eq_true] at hpage ⊢
  obtain ⟨e, he, hwrite⟩ := hpage
  rw [PageEntry.permits, Bool.and_eq_true] at hwrite
  rcases hpopulated.lookup_or p with hsame | ⟨fill, flags, pa, hlazy, hframe, -⟩
  · refine ⟨e, hsame.trans he, ?_⟩
    rw [PageEntry.permits, hwrite.1]
    rfl
  · rw [hlazy] at he
    cases he
    refine ⟨_, hframe, ?_⟩
    rw [PageEntry.permits, Bool.not_false, Bool.true_or, Bool.and_true]
    exact hwrite.1

/-- A range whose addresses lead to different places is read as it was written. -/
theorem readBytes_of_lands (h : Grounded rest s')
    (hreadable : s'.table.Readable start bytes.length)
    (hlazy : s'.table.lazyTouched start bytes.length = 0)
    (hplaced : ∀ i < bytes.length, (s'.table.place? (start + i)).isSome = true)
    {before : Nat → Option UInt8}
    (hlands : Lands s'.table start bytes before (s'.table.view s'.pool) s'.table)
    (hapart : ∀ i < bytes.length, ∀ j < bytes.length,
      s'.table.place? (start + i) = s'.table.place? (start + j) → i = j) :
    ∃ s'', readBytes start bytes.length s' = .ok bytes s'' := by
  obtain ⟨read, s'', hread, -⟩ :=
    (readBytes_outcome h.backed hreadable).2 (hlazy ▸ Nat.zero_le _)
  have hseen := map_some_of_readBytes h hread
  have hwritten : (List.range' start bytes.length).map (s'.table.view s'.pool) = bytes.map some := by
    apply List.ext_getElem
    · simp
    · intro i hi hi'
      rw [List.length_map] at hi'
      obtain ⟨place, hplace⟩ := Option.isSome_iff_exists.mp (hplaced i hi')
      have hbyte := hlands.hit (start + i) place i hplace hi' hplace fun j hj hlt hsame =>
        absurd (hapart i hi' j hj (hplace.trans hsame.symm)) hlt.ne
      rw [List.getElem_map, List.getElem_range', Nat.one_mul, hbyte, List.getElem_map,
        List.getElem?_eq_getElem hi']
  rw [hwritten] at hseen
  obtain rfl := (List.map_injective_iff.mpr (Option.some_injective _)) hseen
  exact ⟨s'', hread⟩

/-- A write that is carried out lands exactly where the page table says. -/
theorem landed_of_writeBytes (h : Grounded rest s)
    (hwrite : writeBytes start bytes s = .ok () s') : Landed rest start bytes s s' := by
  have hlaid := h.laid_of_writeBytes hwrite
  obtain ⟨hwritable, hprovided⟩ := provided_of_writeBytes h.reliable hwrite
  have hplaced : ∀ i < bytes.length, (s'.table.place? (start + i)).isSome = true := by
    intro i hi
    exact hlaid.placed _ (List.mem_range'_1.mpr ⟨Nat.le_add_right _ _, Nat.add_lt_add_left hi _⟩)
  have hown := lands_of_seenAfter hlaid.view_eq
  have hlazy : s'.table.lazyTouched start bytes.length = 0 := by
    rw [PageTable.lazyTouched, Finset.card_eq_zero, Finset.filter_eq_empty_iff]
    rintro p - ⟨hlazy, hpage⟩
    rw [hprovided.touched.not_lazy p hpage] at hlazy
    cases hlazy
  refine ⟨hlaid.grounded, hplaced, ?_, hown, fun t ht => lands_of_seenAfter (hlaid.view_rest t ht),
    readBytes_of_lands hlaid.grounded (readable_of_writable hlaid.populated hwritable) hlazy hplaced
      hown⟩
  intro p
  by_cases hp : p ∈ PageTable.pagesOf start bytes.length
  · rcases hlaid.populated.lookup_or p with hsame | ⟨fill, flags, pa, hbefore, hframe, -⟩
    · exact Or.inl hsame
    · exact Or.inr ⟨hp, fill, flags, pa, hbefore, hframe⟩
  · exact Or.inl (hprovided.touched.lookup_eq p hp)

/-- Four bytes are written to the page without a frame, and then four to the device page. -/
theorem landed_lazyAndDevice : Grounded [onePage.table] lazyAndDevice ∧
    ∃ s', writeBytes 8188 [1, 2, 3, 4, 5, 6, 7, 8] lazyAndDevice = .ok () s' ∧
      Landed [onePage.table] 8188 [1, 2, 3, 4, 5, 6, 7, 8] lazyAndDevice s' := by
  have hwrites : (match writeBytes 8188 [1, 2, 3, 4, 5, 6, 7, 8] lazyAndDevice with
      | .ok _ _ => true
      | .error _ _ => false) = true := by decide +kernel
  cases hresult : writeBytes 8188 [1, 2, 3, 4, 5, 6, 7, 8] lazyAndDevice with
  | error e s' =>
      rw [hresult] at hwrites
      cases hwrites
  | ok _ s' =>
      exact ⟨grounded_lazyAndDevice, s', rfl, landed_of_writeBytes grounded_lazyAndDevice hresult⟩

end Space

end Exokernel
