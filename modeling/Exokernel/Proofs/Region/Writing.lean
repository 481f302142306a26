import Exokernel.Proofs.Region.Supply
import Exokernel.Proofs.Region.Upkeep
import Mathlib.Logic.Function.Basic

/-! # Writes that stop midway

A write checks that user code may write its whole range, and then goes over the pages one after the
other: it gives a page its frame, if it has none, and writes to it.  It counts no frames beforehand,
so it can stop at a later page.  What it has done by then is the whole of a shorter write. -/

namespace Exokernel

open Finset

variable {p : VirtPage} {pa : PhysAddr}

/-! ## Bytes and their places -/

/-- The byte at a place, a frame or device page and an offset in it. -/
def FramePool.byte? (pool : FramePool) (place : PhysAddr × Nat) : Option UInt8 :=
  (pool.frame? place.1).bind (·[place.2]?)

/-- Bytes laid over others one after the other, so that the last one at a place counts. -/
def overlay (bytes : PhysAddr × Nat → Option UInt8) (writes : List ((PhysAddr × Nat) × UInt8)) :
    PhysAddr × Nat → Option UInt8 :=
  writes.foldl (fun bytes w => Function.update bytes w.1 (some w.2)) bytes

theorem overlay_append (bytes : PhysAddr × Nat → Option UInt8)
    (first second : List ((PhysAddr × Nat) × UInt8)) :
    overlay bytes (first ++ second) = overlay (overlay bytes first) second :=
  List.foldl_append

theorem overlay_of_not_mem {writes : List ((PhysAddr × Nat) × UInt8)} {place : PhysAddr × Nat}
    (h : place ∉ writes.map Prod.fst) (bytes : PhysAddr × Nat → Option UInt8) :
    overlay bytes writes place = bytes place := by
  induction writes generalizing bytes with
  | nil => rfl
  | cons w rest ih =>
      rw [List.map_cons, List.mem_cons, not_or] at h
      exact (ih h.2 _).trans (Function.update_of_ne h.1 _ _)

/-- Where the byte at a user address is, if its page has a frame or a device page. -/
def PageTable.place? (t : PageTable) (addr : Nat) : Option (PhysAddr × Nat) :=
  if h : addr < maxUserAddress then
    ((t.backing? (VirtAddr.page ⟨addr, h⟩)).bind Backing.phys?).map (·, pageOffset addr)
  else none

/-- The writes that some bytes from an address on amount to. -/
def PageTable.writes (t : PageTable) (addrs : List Nat) (bytes : List UInt8) :
    List ((PhysAddr × Nat) × UInt8) :=
  (addrs.zip bytes).filterMap fun x => (t.place? x.1).map (·, x.2)

theorem PageTable.writes_append {t : PageTable} {addrs others : List Nat} {bytes more : List UInt8}
    (h : addrs.length = bytes.length) :
    t.writes (addrs ++ others) (bytes ++ more) = t.writes addrs bytes ++ t.writes others more := by
  rw [writes, List.zip_append h, List.filterMap_append, writes, writes]

theorem PageTable.place?_of_phys? {t : PageTable} {b : Backing} (hb : t.backing? p = some b)
    (hphys : b.phys? = some pa) {i : Nat} (hi : i < pageSize) :
    t.place? (p.start + i) = some (pa, i) := by
  have bound := p.isLt
  have hbelow : p.start + i < maxUserAddress := by
    simp only [VirtPage.start, maxUserAddress, pageSize, userPages] at *
    omega
  have hpage : VirtAddr.page ⟨p.start + i, hbelow⟩ = p := by
    apply Fin.ext
    simp only [VirtAddr.page, VirtPage.start, pageSize] at *
    omega
  have hoffset : pageOffset (p.start + i) = i := by
    simp only [pageOffset, VirtPage.start, pageSize] at *
    omega
  rw [place?, dif_pos hbelow, hpage, hb, Option.bind_some, hphys, hoffset]
  rfl

theorem PageTable.exists_phys?_of_mem_writes {t : PageTable} {addrs : List Nat} {bytes : List UInt8}
    {place : PhysAddr × Nat} (h : place ∈ (t.writes addrs bytes).map Prod.fst) :
    ∃ p b, t.backing? p = some b ∧ b.phys? = some place.1 := by
  obtain ⟨w, hw, rfl⟩ := List.mem_map.mp h
  obtain ⟨x, -, hx⟩ := List.mem_filterMap.mp hw
  obtain ⟨at', hplace, rfl⟩ := Option.map_eq_some_iff.mp hx
  rw [place?] at hplace
  split at hplace
  · next hbelow =>
    obtain ⟨q, hq, rfl⟩ := Option.map_eq_some_iff.mp hplace
    obtain ⟨b, hb, hphys⟩ := Option.bind_eq_some_iff.mp hq
    exact ⟨_, b, hb, hphys⟩
  · cases hplace

theorem overlay_page (bytes : PhysAddr × Nat → Option UInt8) (pa : PhysAddr) (offset : Nat)
    (written : List UInt8) (place : PhysAddr × Nat) :
    overlay bytes (((List.range' offset written.length).map (pa, ·)).zip written) place =
      if place.1 = pa ∧ offset ≤ place.2 ∧ place.2 < offset + written.length then
        written[place.2 - offset]? else bytes place := by
  induction written generalizing bytes offset with
  | nil =>
      rw [if_neg (by simp only [List.length_nil]; omega)]
      rfl
  | cons byte rest ih =>
      rw [List.length_cons, List.range'_succ, List.map_cons, List.zip_cons_cons]
      refine (ih _ (offset + 1)).trans ?_
      obtain ⟨q, i⟩ := place
      simp only
      by_cases hq : q = pa
      · by_cases hi : i = offset
        · rw [if_neg (by omega), if_pos ⟨hq, by omega, by omega⟩, hq, hi, Function.update_self,
            Nat.sub_self]
          rfl
        · have hne : (q, i) ≠ (pa, offset) := fun heq => hi (congrArg Prod.snd heq)
          by_cases hin : offset + 1 ≤ i ∧ i < offset + 1 + rest.length
          · rw [if_pos ⟨hq, hin⟩, if_pos ⟨hq, by omega, by omega⟩]
            have hsub : i - offset = i - (offset + 1) + 1 := by omega
            rw [hsub, List.getElem?_cons_succ]
          · rw [if_neg (fun h => hin h.2), if_neg (by omega), Function.update_of_ne hne]
      · have hne : (q, i) ≠ (pa, offset) := fun heq => hq (congrArg Prod.fst heq)
        rw [if_neg (fun h => hq h.1), if_neg (fun h => hq h.1), Function.update_of_ne hne]

/-- Writing to a frame or device page lays the bytes over those that are there. -/
theorem FramePool.byte?_update_write {pool : FramePool} {f : Frame} (hf : pool.frame? pa = some f)
    {offset : Nat} {bytes : List UInt8} (hinside : offset + bytes.length ≤ pageSize) :
    (pool.update pa (·.write offset bytes.toArray)).byte? =
      overlay pool.byte? (((List.range' offset bytes.length).map (pa, ·)).zip bytes) := by
  funext ⟨q, i⟩
  rw [overlay_page, byte?, byte?, frame?_update]
  by_cases hq : q = pa
  · subst hq
    simp only [if_true, hf, Option.map_some, Option.bind_some, true_and]
    by_cases hi : i < pageSize
    · rw [Vector.getElem?_eq_getElem hi, Frame.getElem_write, Vector.getElem?_eq_getElem hi]
      split
      · next hlower =>
        by_cases hupper : i < offset + bytes.length
        · have hin : i - offset < bytes.length := by omega
          simp [hlower, hupper, Array.getD, hin]
        · have hout : ¬ i - offset < bytes.length := by omega
          simp [hupper, Array.getD, hout]
      · next hlower => rw [if_neg (fun h => hlower h.1)]
    · rw [if_neg (by omega), Vector.getElem?_eq_none (by omega), Vector.getElem?_eq_none (by omega)]
  · rw [if_neg hq, if_neg fun h => hq h.1]

theorem PageTable.writes_span {t : PageTable} {span : Span} {b : Backing} {bytes : List UInt8}
    (hb : t.backing? span.page = some b) (hphys : b.phys? = some pa)
    (hinside : span.offset + span.length ≤ pageSize) :
    t.writes span.addresses bytes =
      ((List.range' span.offset span.length).map (pa, ·)).zip bytes := by
  have hplaces : ∀ i ∈ List.range' span.offset span.length,
      t.place? (span.page.start + i) = some (pa, i) := by
    intro i hi
    rw [List.mem_range'_1] at hi
    exact place?_of_phys? hb hphys (by omega)
  have haddresses : span.addresses =
      (List.range' span.offset span.length).map (span.page.start + ·) := by
    rw [Span.addresses, List.map_add_range']
  rw [writes, haddresses]
  generalize List.range' span.offset span.length = offsets at hplaces
  induction offsets generalizing bytes with
  | nil => rfl
  | cons i rest ih =>
      cases bytes with
      | nil => rfl
      | cons byte bytes =>
          rw [List.map_cons, List.zip_cons_cons, List.filterMap_cons, hplaces i List.mem_cons_self,
            List.map_cons, List.zip_cons_cons, ih fun j hj => hplaces j (List.mem_cons_of_mem _ hj)]
          rfl

/-- The check that a write begins with: the range ends below the ceiling, and user code may write
its pages. -/
def PageTable.Writable (t : PageTable) (start length : Nat) : Prop :=
  ∃ r, ByteRange.of? start length = some r ∧ t.permits r true = true

namespace Space

variable {s s' t : Space} {span : Span} {bytes : List UInt8} {e : RegionError}

/-! ## One page -/

theorem writeSpan_eq_ok (h : writeSpan span bytes s = .ok () s') :
    ∃ pa u f, populate span.page s = .ok pa u ∧ u.pool.frame? pa = some f ∧
      s' = u.updateBytes pa (·.write span.offset bytes.toArray) := by
  obtain ⟨pa, u, hpage, hwrite⟩ := bind_eq_ok_iff.mp h
  rw [bind_of_ok (x := get) (a := u) (t := u) rfl] at hwrite
  cases hframe : u.memory.machine.frame? pa with
  | none =>
      simp only [hframe] at hwrite
      cases hwrite
  | some f =>
      simp only [hframe] at hwrite
      cases hwrite
      rw [Machine.frame?] at hframe
      split at hframe
      · cases hframe
      · exact ⟨pa, u, f, hpage, hframe, rfl⟩

theorem provided_of_writeSpan (hreliable : s.memory.machine.Reliable)
    (h : writeSpan span bytes s = .ok () s') :
    Provided {span.page} (lazyPages s.table [span.page]) s s' := by
  obtain ⟨pa, u, f, hpage, -, rfl⟩ := writeSpan_eq_ok h
  have hprovided := provided_of_populate hreliable hpage
  refine ⟨populated_updateBytes hprovided.populated pa _, hprovided.touched, ?_⟩
  rw [← hprovided.freeFrames_eq]
  exact congrArg (· + _) (Machine.freeFrames_update _ _ _)

/-- Why a page stops a write: it needs a frame and none is free, or its bytes are nowhere. -/
inductive PageStops (s : Space) (p : VirtPage) : RegionError → Prop where
  | noMemory (lazy : (s.table.lookup p).any (·.backing.isLazy) = true)
      (spent : s.memory.machine.freeFrames = 0) : PageStops s p .noMemory
  | fault {b pa} (backing : s.table.backing? p = some b) (phys : b.phys? = some pa)
      (nowhere : s.pool.frame? pa = none) : PageStops s p .fault

theorem writeSpan_eq_error (hreliable : s.memory.machine.Reliable)
    (hmapped : s.table.isMapped span.page = true) (h : writeSpan span bytes s = .error e t) :
    t = s ∧ PageStops s span.page e := by
  obtain ⟨hfail, hpopulate⟩ := populate_outcome hreliable hmapped
  rcases Nat.lt_or_ge s.memory.machine.freeFrames (lazyPages s.table [span.page]) with hfew | henough
  · rw [writeSpan, bind_of_error (hfail hfew)] at h
    cases h
    refine ⟨rfl, ?_⟩
    rw [lazyPages, List.countP_singleton] at hfew
    split at hfew
    · next hlazy => exact .noMemory hlazy (by omega)
    · cases hfew
  · obtain ⟨pa, u, hpage⟩ := hpopulate henough
    rw [writeSpan, bind_of_ok hpage, bind_of_ok (x := get) (a := u) (t := u) rfl] at h
    cases hframe : u.memory.machine.frame? pa with
    | some f =>
        simp only [hframe] at h
        cases h
    | none =>
        simp only [hframe] at h
        cases h
        rcases populate_cases span.page s with hsame | ⟨_, _, pa', memory, _, -, hfresh, heq⟩
        · rw [hpage, stateOf_ok] at hsame
          subst hsame
          obtain ⟨b, hb, hphys⟩ := backing?_of_populate hpage
          rw [Machine.frame?, hreliable.hidden_eq, if_neg List.not_mem_nil] at hframe
          exact ⟨rfl, .fault hb hphys hframe⟩
        · -- a frame that was taken for the page has its bytes
          rw [hpage] at heq
          cases heq
          have hreach := Memory.isSome_frame?_of_fresh? hfresh
          have hhidden := (Machine.lasting_reliable.fresh? hfresh hreliable).hidden_eq
          change memory.machine.frame? pa = none at hframe
          rw [Machine.frame?, hhidden, if_neg List.not_mem_nil] at hframe
          rw [hframe] at hreach
          cases hreach

/-- What a write does that gives no page a frame: it lays its bytes over those that are there. -/
structure Overwrites (writes : List ((PhysAddr × Nat) × UInt8)) (s s' : Space) : Prop where
  table_eq : s'.table = s.table
  refs_eq : s'.memory.refs = s.memory.refs
  free_eq : s'.pool.free = s.pool.free
  byte?_eq : s'.pool.byte? = overlay s.pool.byte? writes

theorem overwrites_of_writeSpan (hlazy : (s.table.lookup span.page).any (·.backing.isLazy) = false)
    (hinside : span.offset + span.length ≤ pageSize) (hlength : bytes.length = span.length)
    (h : writeSpan span bytes s = .ok () s') :
    Overwrites (s.table.writes span.addresses bytes) s s' := by
  obtain ⟨pa, u, f, hpage, hf, rfl⟩ := writeSpan_eq_ok h
  rcases populate_cases span.page s with hsame | ⟨_, _, _, _, _, hlookup, -⟩
  · rw [hpage, stateOf_ok] at hsame
    subst hsame
    obtain ⟨b, hb, hphys⟩ := backing?_of_populate hpage
    refine ⟨rfl, rfl, FramePool.free_update _ _ _, ?_⟩
    rw [PageTable.writes_span hb hphys hinside, ← hlength]
    exact FramePool.byte?_update_write hf (by omega)
  · rw [hlookup] at hlazy
    cases hlazy

/-! ## One page after the other -/

/-- A write that stops has written the pages before the one that stopped it. -/
theorem writeSpans_eq_error {spans : List Span} (h : writeSpans spans bytes s = .error e t) :
    ∃ before span after u, spans = before ++ span :: after ∧
      writeSpans before (bytes.take (before.map Span.length).sum) s = .ok () u ∧
      ∃ part, writeSpan span part u = .error e t := by
  induction spans generalizing s bytes with
  | nil => cases h
  | cons first rest ih =>
      rcases bind_eq_error_iff.mp h with hstop | ⟨_, v, hfirst, hrest⟩
      · exact ⟨[], first, rest, s, rfl, rfl, _, hstop⟩
      · obtain ⟨before, span, after, u, rfl, hbefore, hstop⟩ := ih hrest
        refine ⟨first :: before, span, after, u, rfl, ?_, hstop⟩
        rw [List.map_cons, List.sum_cons]
        refine bind_eq_ok_iff.mpr ⟨(), v, ?_, ?_⟩
        · rw [List.take_take, Nat.min_eq_left (Nat.le_add_right _ _)]
          exact hfirst
        · rw [List.drop_take, Nat.add_sub_cancel_left]
          exact hbefore

theorem provided_of_writeSpans (hreliable : s.memory.machine.Reliable) {spans : List Span}
    (hnodup : (spans.map Span.page).Nodup) (h : writeSpans spans bytes s = .ok () s') :
    Provided {p | p ∈ spans.map Span.page} (lazyPages s.table (spans.map Span.page)) s s' := by
  induction spans generalizing s bytes with
  | nil =>
      cases h
      exact ⟨.refl _, ⟨nofun, fun _ _ => rfl⟩, rfl⟩
  | cons span rest ih =>
      obtain ⟨_, u, hspan, hrest⟩ := bind_eq_ok_iff.mp h
      obtain ⟨hnew, hnodup⟩ := List.nodup_cons.mp hnodup
      have hfirst := provided_of_writeSpan hreliable hspan
      have hothers := ih (hfirst.populated.draws.lasting Machine.lasting_reliable hreliable) hnodup hrest
      have hkept : ∀ p ∈ rest.map Span.page, u.table.lookup p = s.table.lookup p := by
        intro p hp
        apply hfirst.touched.lookup_eq
        rintro rfl
        exact hnew hp
      have hpages : {p | p ∈ (span :: rest).map Span.page} =
          {span.page} ∪ {p | p ∈ rest.map Span.page} := by
        ext p
        simp
      rw [lazyPages_congr hkept] at hothers
      rw [hpages, List.map_cons, lazyPages_cons, Nat.add_comm]
      exact hfirst.trans hothers

theorem overwrites_of_writeSpans {spans : List Span}
    (hlazy : ∀ span ∈ spans, (s.table.lookup span.page).any (·.backing.isLazy) = false)
    (hinside : ∀ span ∈ spans, span.offset + span.length ≤ pageSize)
    (hlength : bytes.length = (spans.map Span.length).sum)
    (h : writeSpans spans bytes s = .ok () s') :
    Overwrites (s.table.writes (spans.flatMap Span.addresses) bytes) s s' := by
  induction spans generalizing s bytes with
  | nil =>
      cases h
      exact ⟨rfl, rfl, rfl, rfl⟩
  | cons span rest ih =>
      obtain ⟨_, u, hspan, hrest⟩ := bind_eq_ok_iff.mp h
      rw [List.map_cons, List.sum_cons] at hlength
      have htake : (bytes.take span.length).length = span.length := by
        rw [List.length_take]
        omega
      have hfirst := overwrites_of_writeSpan (hlazy span List.mem_cons_self)
        (hinside span List.mem_cons_self) htake hspan
      have hothers := ih (fun other hother => by
          rw [hfirst.table_eq]
          exact hlazy other (List.mem_cons_of_mem _ hother))
        (fun other hother => hinside other (List.mem_cons_of_mem _ hother))
        (by rw [List.length_drop]; omega) hrest
      refine ⟨hothers.table_eq.trans hfirst.table_eq, hothers.refs_eq.trans hfirst.refs_eq,
        hothers.free_eq.trans hfirst.free_eq, ?_⟩
      have hcut : s.table.writes ((span :: rest).flatMap Span.addresses) bytes =
          s.table.writes span.addresses (bytes.take span.length) ++
            s.table.writes (rest.flatMap Span.addresses) (bytes.drop span.length) := by
        rw [← PageTable.writes_append (by rw [Span.addresses, List.length_range', htake]),
          List.take_append_drop, List.flatMap_cons]
      rw [hothers.byte?_eq, hfirst.table_eq, hfirst.byte?_eq, hcut, overlay_append]

/-! ## Ranges -/

theorem writeBytes_of_permits {r : ByteRange} (hlength : r.length = bytes.length)
    (h : s.table.permits r true = true) :
    writeBytes r.start bytes s = writeSpans r.spans bytes s := by
  rw [writeBytes, bind_of_ok (x := get) (a := s) (t := s) rfl]
  simp only [ByteRange.of?_eq_some_iff.mpr ⟨rfl, hlength⟩, h, if_true]

theorem writeBytes_of_not_writable {start : Nat} (h : ¬ s.table.Writable start bytes.length) :
    writeBytes start bytes s = .error .fault s := by
  rw [writeBytes, bind_of_ok (x := get) (a := s) (t := s) rfl]
  cases hrange : ByteRange.of? start bytes.length with
  | none => rfl
  | some r =>
      have hrefused : ¬ s.table.permits r true = true := fun hpermits => h ⟨r, hrange, hpermits⟩
      simp only [hrefused]
      rfl

/-- Nothing has changed for the space and the spaces beside it: no entry, no count, no free frame,
and no byte of a frame or device page that one of them is mapped to. -/
structure Unchanged (rest : List PageTable) (s s' : Space) : Prop where
  lookup_eq : ∀ p, s'.table.lookup p = s.table.lookup p
  count_eq : ∀ pa, s'.memory.refs.count pa = s.memory.refs.count pa
  free_eq : s'.pool.free = s.pool.free
  byte?_eq : ∀ t ∈ s.table :: rest, ∀ p b pa, t.backing? p = some b → b.phys? = some pa →
    ∀ i, s'.pool.byte? (pa, i) = s.pool.byte? (pa, i)

/-- Why a write stops at the byte `n` of its range: the page of that byte has no frame, and the
pages before it have taken all that were free; or the bytes of the page are nowhere. -/
inductive StopsAt (s : Space) (start n : Nat) : RegionError → Prop where
  | noMemory {p : VirtPage} (page : (start + n) / pageSize = p.val)
      (lazy : (s.table.lookup p).any (·.backing.isLazy) = true)
      (spent : s.memory.machine.freeFrames = s.table.lazyTouched start n) : StopsAt s start n .noMemory
  | fault {p : VirtPage} {b pa} (page : (start + n) / pageSize = p.val)
      (backing : s.table.backing? p = some b) (phys : b.phys? = some pa)
      (nowhere : s.pool.frame? pa = none) : StopsAt s start n .fault

/-- What stops a page once others were touched would have stopped it before, but for the frames that
they took. -/
theorem stopsAt_of_pageStops {pages : Set VirtPage} {start n : Nat}
    (hprovided : Provided pages (s.table.lazyTouched start n) s s') (hp : p ∉ pages)
    (hpage : (start + n) / pageSize = p.val) (h : PageStops s' p e) : StopsAt s start n e := by
  have hsame := hprovided.touched.lookup_eq p hp
  cases h with
  | noMemory hlazy hspent =>
      refine .noMemory hpage (hsame ▸ hlazy) ?_
      rw [← hprovided.freeFrames_eq, hspent, Nat.zero_add]
  | fault hb hphys hnowhere =>
      have hlayout := hprovided.populated.draws.lasting (Machine.lasting_sameLayout s.pool) (.refl _)
      rw [PageTable.backing?, hsame] at hb
      refine .fault hpage hb hphys ?_
      rw [← Option.isNone_iff_eq_none, ← Option.not_isSome, ← hlayout.isSome_frame?_eq,
        Option.not_isSome, Option.isNone_iff_eq_none]
      exact hnowhere

theorem provided_of_writeBytes (hreliable : s.memory.machine.Reliable) {start : Nat}
    (h : writeBytes start bytes s = .ok () t) :
    s.table.Writable start bytes.length ∧ Provided (PageTable.pagesOf start bytes.length)
      (s.table.lazyTouched start bytes.length) s t := by
  by_cases hwritable : s.table.Writable start bytes.length
  · refine ⟨hwritable, ?_⟩
    obtain ⟨r, hrange, hpermits⟩ := hwritable
    obtain ⟨rfl, hlength⟩ := ByteRange.of?_eq_some_iff.mp hrange
    rw [writeBytes_of_permits hlength hpermits] at h
    have hprovided := provided_of_writeSpans hreliable r.nodup_page_spans h
    have hpages : {p | p ∈ r.spans.map Span.page} = PageTable.pagesOf r.start r.length :=
      Set.ext fun _ => ByteRange.mem_page_spans_iff
    rwa [← PageTable.lazyTouched_eq, hpages, hlength] at hprovided
  · rw [writeBytes_of_not_writable hwritable] at h
    cases h

theorem overwrites_of_writeBytes {start : Nat} (h : writeBytes start bytes s = .ok () t)
    (hwritable : s.table.Writable start bytes.length)
    (hzero : s.table.lazyTouched start bytes.length = 0) :
    Overwrites (s.table.writes (List.range' start bytes.length) bytes) s t := by
  obtain ⟨r, hrange, hpermits⟩ := hwritable
  obtain ⟨rfl, hlength⟩ := ByteRange.of?_eq_some_iff.mp hrange
  rw [writeBytes_of_permits hlength hpermits] at h
  rw [← hlength] at hzero ⊢
  rw [← ByteRange.flatMap_addresses_spans]
  refine overwrites_of_writeSpans ?_ (fun _ => ByteRange.span_inside)
    (hlength.symm.trans r.sum_length_spans.symm) h
  intro span hspan
  rw [PageTable.lazyTouched_eq, lazyPages, List.countP_eq_zero] at hzero
  exact Bool.eq_false_iff.mpr (hzero _ (List.mem_map_of_mem hspan))

/-- A write that was carried out has changed nothing exactly if it has given no page a frame and its
bytes, laid over those that were there, are those that were there. -/
theorem unchanged_iff_of_writeBytes (hreliable : s.memory.machine.Reliable) {start : Nat}
    (h : writeBytes start bytes s = .ok () t) (rest : List PageTable) :
    Unchanged rest s t ↔ s.table.lazyTouched start bytes.length = 0 ∧
      overlay s.pool.byte? (s.table.writes (List.range' start bytes.length) bytes) = s.pool.byte? := by
  obtain ⟨hwritable, hprovided⟩ := provided_of_writeBytes hreliable h
  constructor
  · intro hsame
    have hzero : s.table.lazyTouched start bytes.length = 0 := by
      rw [PageTable.lazyTouched, card_eq_zero, filter_eq_empty_iff]
      rintro p - ⟨hlazy, hpage⟩
      rw [← hsame.lookup_eq, hprovided.touched.not_lazy p hpage] at hlazy
      cases hlazy
    refine ⟨hzero, ?_⟩
    have hwrites := overwrites_of_writeBytes h hwritable hzero
    funext place
    by_cases hmem : place ∈ (s.table.writes (List.range' start bytes.length) bytes).map Prod.fst
    · obtain ⟨p, b, hb, hphys⟩ := PageTable.exists_phys?_of_mem_writes hmem
      rw [← hwrites.byte?_eq]
      exact hsame.byte?_eq s.table List.mem_cons_self p b place.1 hb hphys place.2
    · exact overlay_of_not_mem hmem _
  · rintro ⟨hzero, hsettled⟩
    have hwrites := overwrites_of_writeBytes h hwritable hzero
    have hbytes : t.pool.byte? = s.pool.byte? := hwrites.byte?_eq.trans hsettled
    exact ⟨fun p => by rw [hwrites.table_eq], fun pa => by rw [hwrites.refs_eq], hwrites.free_eq,
      fun _ _ _ _ _ _ _ i => congrFun hbytes (_, i)⟩

/-- A write that passes its check and fails stops at some byte.  It has done then what the write of
the bytes before that one does. -/
theorem prefix_of_writeBytes_error (hreliable : s.memory.machine.Reliable) {start : Nat}
    (hwritable : s.table.Writable start bytes.length) (h : writeBytes start bytes s = .error e t) :
    ∃ n < bytes.length, StopsAt s start n e ∧ writeBytes start (bytes.take n) s = .ok () t := by
  obtain ⟨r, hrange, hpermits⟩ := hwritable
  obtain ⟨rfl, hlength⟩ := ByteRange.of?_eq_some_iff.mp hrange
  rw [writeBytes_of_permits hlength hpermits] at h
  obtain ⟨before, span, after, u, hspans, hbefore, part, hstop⟩ := writeSpans_eq_error h
  obtain ⟨hnonzero, hpage, hupTo⟩ := ByteRange.spans_upTo_of_append hspans
  obtain ⟨hshorter, hnext⟩ := ByteRange.length_upTo hnonzero hpage
  have htake : (bytes.take (r.upTo span.page).length).length = (r.upTo span.page).length :=
    List.length_take_of_le (hlength ▸ hshorter.le)
  -- the bytes before the page that stopped the write are a range of their own
  have hpages : ∀ p ∈ (r.upTo span.page).touched.toList, p ∈ r.touched.toList := fun _ =>
    ByteRange.touched_subset rfl hshorter.le
  have hpermits' : s.table.permits (r.upTo span.page) true = true :=
    List.all_eq_true.mpr fun p hp => List.all_eq_true.mp hpermits p (hpages p hp)
  have hprefix : writeBytes r.start (bytes.take (r.upTo span.page).length) s = .ok () u := by
    rw [← hupTo, ByteRange.sum_length_spans] at hbefore
    exact (writeBytes_of_permits htake.symm hpermits').trans hbefore
  obtain ⟨-, hprovided⟩ := provided_of_writeBytes hreliable hprefix
  rw [htake] at hprovided
  have hnew : span.page ∉ PageTable.pagesOf r.start (r.upTo span.page).length := by
    rintro ⟨i, hi, hsame⟩
    rw [← hnext] at hsame
    simp only [ByteRange.upTo, VirtPage.start, pageSize] at hi hsame hnext
    omega
  have hmapped : u.table.isMapped span.page = true := by
    rw [PageTable.isMapped, hprovided.touched.lookup_eq _ hnew]
    exact Option.isSome_of_any (List.all_eq_true.mp hpermits _ hpage)
  obtain ⟨rfl, hstops⟩ := writeSpan_eq_error
    (hprovided.populated.draws.lasting Machine.lasting_reliable hreliable) hmapped hstop
  exact ⟨_, hlength ▸ hshorter, stopsAt_of_pageStops hprovided hnew hnext hstops, hprefix⟩

/-- A write that fails has changed nothing if it was refused by the check at its beginning.
Otherwise it stops at some byte, and has done what the write of the bytes before that one does; so
it has changed nothing exactly if those bytes lie in pages that have their frames and are there
already. -/
theorem partial_of_writeBytes_error (hreliable : s.memory.machine.Reliable) {start : Nat}
    (h : writeBytes start bytes s = .error e t) :
    (¬ s.table.Writable start bytes.length ∧ e = .fault ∧ t = s) ∨
    ∃ n < bytes.length, StopsAt s start n e ∧ writeBytes start (bytes.take n) s = .ok () t ∧
      ∀ rest, Unchanged rest s t ↔ s.table.lazyTouched start n = 0 ∧
        overlay s.pool.byte? (s.table.writes (List.range' start n) (bytes.take n)) = s.pool.byte? := by
  by_cases hwritable : s.table.Writable start bytes.length
  · right
    obtain ⟨n, hn, hstops, hprefix⟩ := prefix_of_writeBytes_error hreliable hwritable h
    refine ⟨n, hn, hstops, hprefix, fun rest => ?_⟩
    have hiff := unchanged_iff_of_writeBytes hreliable hprefix rest
    rwa [List.length_take_of_le hn.le] at hiff
  · left
    rw [writeBytes_of_not_writable hwritable] at h
    cases h
    exact ⟨hwritable, rfl, rfl⟩

/-- A space on a machine of two frames: page 1 and its leaf table have taken both, and page 2 behind
it has no frame yet. -/
def tightPages : Space :=
  stateOf (allocateRegion (.one ⟨2, by decide⟩) ⟨⟨true, false, false, false⟩, true, .zero⟩
    (stateOf (allocateRegion (.one ⟨1, by decide⟩) ⟨⟨true, false, false, false⟩, false, .zero⟩
      ⟨.ofMachine (.sound (.ofFrames 2) (.withFilter none)), .empty⟩)))

theorem writeBytes_tightPages :
    ∃ t, writeBytes 0x1ffe [1, 2, 3, 4] tightPages = .error .noMemory t := by
  have hfails : (match writeBytes 0x1ffe [1, 2, 3, 4] tightPages with
      | .ok _ _ => none
      | .error e _ => some e) = some .noMemory := by decide +kernel
  cases hresult : writeBytes 0x1ffe [1, 2, 3, 4] tightPages with
  | ok _ t =>
      rw [hresult] at hfails
      cases hfails
  | error e t =>
      rw [hresult] at hfails
      cases hfails
      exact ⟨t, rfl⟩

theorem reliable_tightPages : tightPages.memory.machine.Reliable :=
  ⟨by decide +kernel, by decide +kernel, by decide +kernel⟩

theorem partial_of_writeBytes_error_tight : tightPages.memory.machine.Reliable ∧
    ∃ t, writeBytes 0x1ffe [1, 2, 3, 4] tightPages = .error .noMemory t ∧
    ∃ n < 4, StopsAt tightPages 0x1ffe n .noMemory ∧
      writeBytes 0x1ffe ([1, 2, 3, 4].take n) tightPages = .ok () t ∧
      ∀ rest, Unchanged rest tightPages t ↔ tightPages.table.lazyTouched 0x1ffe n = 0 ∧
        overlay tightPages.pool.byte?
          (tightPages.table.writes (List.range' 0x1ffe n) ([1, 2, 3, 4].take n)) =
            tightPages.pool.byte? := by
  obtain ⟨t, hfails⟩ := writeBytes_tightPages
  refine ⟨reliable_tightPages, t, hfails, ?_⟩
  rcases partial_of_writeBytes_error reliable_tightPages hfails with ⟨-, hfault, -⟩ | hpartial
  · cases hfault
  · exact hpartial

theorem overwrites_of_tightPages (h : writeBytes 0x1ffe [1, 2, 3, 4] tightPages = .error .noMemory t) :
    Overwrites (tightPages.table.writes (List.range' 0x1ffe 2) [1, 2]) tightPages t := by
  have hwritable : tightPages.table.Writable 0x1ffe 4 :=
    ⟨⟨0x1ffe, 4, by decide⟩, rfl, by decide +kernel⟩
  obtain ⟨n, hn, hstops, hprefix⟩ := prefix_of_writeBytes_error reliable_tightPages hwritable h
  have hfree : tightPages.memory.machine.freeFrames = 0 := by decide +kernel
  have htwo : n = 2 := by
    cases hstops with
    | @noMemory p hpage hlazy hspent =>
      have hlower : 2 ≤ n := by
        by_contra hfew
        have hval : p.val = 1 := by
          simp only [pageSize] at hpage
          omega
        obtain rfl : p = ⟨1, by decide⟩ := Fin.ext hval
        revert hlazy
        decide +kernel
      have hupper : n ≤ 2 := by
        by_contra hmany
        have hthree := tightPages.table.lazyTouched_mono 0x1ffe (Nat.lt_of_not_le hmany)
        rw [← hspent, hfree, PageTable.lazyTouched_eq _ ⟨0x1ffe, 3, by decide⟩] at hthree
        revert hthree
        decide +kernel
      omega
  subst htwo
  have hprefix' : writeBytes 0x1ffe [1, 2] tightPages = .ok () t := hprefix
  have hzero : tightPages.table.lazyTouched 0x1ffe 2 = 0 := by
    cases hstops with
    | noMemory _ _ hspent => exact hspent.symm.trans hfree
  obtain ⟨hwritable', -⟩ := provided_of_writeBytes reliable_tightPages hprefix'
  have hlength : ([1, 2] : List UInt8).length = 2 := rfl
  have hwrites := overwrites_of_writeBytes hprefix' hwritable' (hlength ▸ hzero)
  rwa [hlength] at hwrites

/-- The write fails, and the byte at the end of page 1 is another one than before. -/
theorem changed_of_writeBytes_error_tight :
    tightPages.memory.machine.Reliable ∧ Accounting tightPages.memory [tightPages.table] ∧
    ∃ t, writeBytes 0x1ffe [1, 2, 3, 4] tightPages = .error .noMemory t ∧
      tightPages.table.backing? ⟨1, by decide⟩ = some (.frame (FramePool.ramAddr 0)) ∧
      tightPages.pool.byte? (FramePool.ramAddr 0, 0xffe) = some 0 ∧
      t.pool.byte? (FramePool.ramAddr 0, 0xffe) = some 1 ∧ ¬ Unchanged [] tightPages t := by
  have hbalanced : InBalance (fun _ => False) [] tightPages := by
    apply books_owing.allocateRegion
    apply books_owing.allocateRegion
    exact (balanced_ofMachine (FramePool.consistent_ofFrames 2) (FramePool.isUsed_ofFrames 2)).cons_empty
  obtain ⟨t, hfails⟩ := writeBytes_tightPages
  have hback : tightPages.table.backing? ⟨1, by decide⟩ = some (.frame (FramePool.ramAddr 0)) := by decide +kernel
  have hbefore : tightPages.pool.byte? (FramePool.ramAddr 0, 0xffe) = some 0 := by decide +kernel
  have hafter : t.pool.byte? (FramePool.ramAddr 0, 0xffe) = some 1 := by
    rw [(overwrites_of_tightPages hfails).byte?_eq]
    decide +kernel
  refine ⟨reliable_tightPages, hbalanced.accounting, t, hfails, hback, hbefore, hafter, ?_⟩
  intro hsame
  have hkept := hsame.byte?_eq tightPages.table List.mem_cons_self _ _ _ hback rfl 0xffe
  rw [hbefore, hafter] at hkept
  exact absurd hkept (by decide)

end Space

end Exokernel
