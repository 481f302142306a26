import Exokernel.Proofs.Region.Writing

/-! # What the frames of new pages hold

A frame that is taken for a page is filled first.  From then on its bytes are the fill byte, but for
those that a write of the same request puts there. -/

namespace Exokernel

variable {pool pool' : FramePool} {m m' : Memory} {writes more : List ((PhysAddr × Nat) × UInt8)}
  {fill : Fill} {pa : PhysAddr} {place : PhysAddr × Nat}

/-! ## Bytes after some writes -/

/-- A byte is what it was, or one that was written there. -/
theorem overlay_or (bytes : PhysAddr × Nat → Option UInt8)
    (writes : List ((PhysAddr × Nat) × UInt8)) (place : PhysAddr × Nat) :
    overlay bytes writes place = bytes place ∨
      ∃ byte, overlay bytes writes place = some byte ∧ (place, byte) ∈ writes := by
  induction writes generalizing bytes with
  | nil => exact Or.inl rfl
  | cons w rest ih =>
      rcases ih (Function.update bytes w.1 (some w.2)) with hsame | ⟨byte, hbyte, hmem⟩
      · by_cases hw : place = w.1
        · subst hw
          refine Or.inr ⟨w.2, hsame.trans (Function.update_self _ _ _), List.mem_cons_self⟩
        · exact Or.inl (hsame.trans (Function.update_of_ne hw _ _))
      · exact Or.inr ⟨byte, hbyte, List.mem_cons_of_mem _ hmem⟩

namespace FramePool

/-- Each byte of a frame is the fill byte, or one of those that were written there. -/
def Filled (pool : FramePool) (writes : List ((PhysAddr × Nat) × UInt8)) (fill : Fill)
    (pa : PhysAddr) : Prop :=
  ∀ offset < pageSize, ∃ byte, pool.byte? (pa, offset) = some byte ∧
    (byte = fill.byte ∨ ((pa, offset), byte) ∈ writes)

theorem SameBytes.byte?_eq (h : pool.SameBytes pool') (place : PhysAddr × Nat) :
    pool'.byte? place = pool.byte? place := by
  rw [byte?, byte?, h.frame_eq]

theorem Filled.of_frame? (h : pool.frame? pa = some (Vector.replicate pageSize fill.byte)) :
    pool.Filled writes fill pa := by
  intro offset hoffset
  refine ⟨fill.byte, ?_, Or.inl rfl⟩
  rw [byte?, h, Option.bind_some, Vector.getElem?_eq_getElem hoffset, Vector.getElem_replicate]

theorem Filled.mono (h : pool.Filled writes fill pa) (hsub : writes ⊆ more) :
    pool.Filled more fill pa := by
  intro offset hoffset
  obtain ⟨byte, hbyte, hcases⟩ := h offset hoffset
  exact ⟨byte, hbyte, hcases.imp_right fun hmem => hsub hmem⟩

theorem Filled.of_sameBytes (h : pool.Filled writes fill pa) (hbytes : pool.SameBytes pool') :
    pool'.Filled writes fill pa := by
  intro offset hoffset
  rw [hbytes.byte?_eq]
  exact h offset hoffset

/-- Where nothing else is written, the frame is filled throughout. -/
theorem Filled.frame?_eq (h : pool.Filled [] fill pa) :
    pool.frame? pa = some (Vector.replicate pageSize fill.byte) := by
  have hbyte : ∀ offset < pageSize, pool.byte? (pa, offset) = some fill.byte := by
    intro offset hoffset
    obtain ⟨byte, hbyte, rfl | hmem⟩ := h offset hoffset
    · exact hbyte
    · cases hmem
  obtain ⟨frame, hframe, -⟩ := Option.bind_eq_some_iff.mp (hbyte 0 (by decide))
  rw [hframe, Option.some_inj]
  ext offset hoffset
  have hat := hbyte offset hoffset
  rw [byte?, hframe, Option.bind_some, Vector.getElem?_eq_getElem hoffset, Option.some_inj] at hat
  rw [hat, Vector.getElem_replicate]

end FramePool

theorem Memory.frame?_of_fresh? (h : m.fresh? fill = some (pa, m')) :
    m'.machine.pool.frame? pa = some (Vector.replicate pageSize fill.byte) := by
  have hreach := isSome_frame?_of_fresh? h
  obtain ⟨machine, -, rfl⟩ := fresh?_eq_some h
  change (machine.pool.update pa fun _ => fill.frame).frame? pa = _
  change ((machine.pool.update pa fun _ => fill.frame).frame? pa).isSome = true at hreach
  rw [FramePool.frame?_update, if_pos rfl] at hreach ⊢
  rw [Option.isSome_map] at hreach
  obtain ⟨frame, hframe⟩ := Option.isSome_iff_exists.mp hreach
  rw [hframe, Option.map_some, fill.frame_eq_replicate]

theorem Memory.frame?_of_fresh?_of_ne (h : m.fresh? fill = some (pa, m')) {q : PhysAddr}
    (hq : q ≠ pa) : m'.machine.pool.frame? q = m.machine.pool.frame? q := by
  obtain ⟨machine, halloc, rfl⟩ := fresh?_eq_some h
  refine (FramePool.frame?_update _ _ _ _).trans ?_
  rw [if_neg hq]
  exact (FramePool.sameBytes_of_alloc? (Machine.pool_of_alloc? halloc)).frame_eq q

namespace Space

variable {s s₁ s₂ s' : Space} {p : VirtPage} {span : Span} {bytes : List UInt8}

theorem Populated.place?_eq (h : Populated s s') {addr : Nat}
    (hplace : s.table.place? addr = some place) : s'.table.place? addr = some place := by
  rw [PageTable.place?] at hplace ⊢
  split at hplace
  · next hbelow =>
    obtain ⟨pa, hpa, rfl⟩ := Option.map_eq_some_iff.mp hplace
    obtain ⟨b, hb, hphys⟩ := Option.bind_eq_some_iff.mp hpa
    have hlazy : b.isLazy = false := by cases b <;> first | rfl | cases hphys
    rw [dif_pos hbelow, h.backing?_eq hb hlazy, Option.bind_some, hphys]
    rfl
  · cases hplace

/-- The writes to the pages that have their places stay what they are. -/
theorem Populated.writes_subset (h : Populated s s') (addrs : List Nat) (bytes : List UInt8) :
    s.table.writes addrs bytes ⊆ s'.table.writes addrs bytes := by
  intro w hw
  obtain ⟨x, hx, hplace⟩ := List.mem_filterMap.mp hw
  obtain ⟨place, hat, rfl⟩ := Option.map_eq_some_iff.mp hplace
  refine List.mem_filterMap.mpr ⟨x, hx, ?_⟩
  rw [h.place?_eq hat]
  rfl

/-- A later state of a space in which some pages that had no frame have one, and some bytes were
written. As long as the pool is consistent, the frames that were handed out before hold what they
held, and the new ones hold their fill byte, but for what was written. -/
structure Furnished (writes : List ((PhysAddr × Nat) × UInt8)) (s s' : Space) : Prop where
  populated : Populated s s'
  byte?_or : s.pool.Consistent → ∀ place, s.pool.isUsed place.1 = true →
    s'.pool.byte? place = s.pool.byte? place ∨
      ∃ byte, s'.pool.byte? place = some byte ∧ (place, byte) ∈ writes
  filled : s.pool.Consistent → ∀ p fill flags pa, s.table.lookup p = some ⟨.lazy fill, flags⟩ →
    s'.table.lookup p = some ⟨.frame pa, flags⟩ →
      s'.pool.isUsed pa = true ∧ s'.pool.Filled writes fill pa

namespace Furnished

theorem refl (s : Space) : Furnished writes s s := by
  refine ⟨.refl s, fun _ _ _ => Or.inl rfl, ?_⟩
  intro _ p fill flags pa hlazy hframe
  rw [hlazy] at hframe
  cases hframe

theorem mono (h : Furnished writes s s') (hsub : writes ⊆ more) : Furnished more s s' where
  populated := h.populated
  byte?_or hpool place hused := (h.byte?_or hpool place hused).imp_right
    fun ⟨byte, hbyte, hmem⟩ => ⟨byte, hbyte, hsub hmem⟩
  filled hpool p fill flags pa hlazy hframe :=
    (h.filled hpool p fill flags pa hlazy hframe).imp_right fun hfilled => hfilled.mono hsub

theorem trans (h : Furnished writes s s₁) (h' : Furnished writes s₁ s₂) :
    Furnished writes s s₂ := by
  refine ⟨h.populated.trans h'.populated, ?_, ?_⟩
  · intro hpool place hused
    obtain ⟨hpool₁, hkept⟩ := h.populated.draws.isUsed hpool
    rcases h'.byte?_or hpool₁ place (hkept _ hused) with hsame | hwritten
    · rw [hsame]
      exact h.byte?_or hpool place hused
    · exact Or.inr hwritten
  · intro hpool p fill flags pa hlazy hframe
    obtain ⟨hpool₁, -⟩ := h.populated.draws.isUsed hpool
    rcases h.populated.lookup_or p with hsame | ⟨fill₁, flags₁, pa₁, hlazy₁, hframe₁, -⟩
    · exact h'.filled hpool₁ p fill flags pa (hsame.trans hlazy) hframe
    · -- the page has its frame since the first part, and keeps it
      rw [hlazy] at hlazy₁
      cases hlazy₁
      obtain ⟨hused, hfilled⟩ := h.filled hpool p fill flags pa₁ hlazy hframe₁
      rcases h'.populated.lookup_or p with hsame | ⟨_, _, _, hlazy₂, -⟩
      · rw [hsame, hframe₁] at hframe
        cases hframe
        refine ⟨(h'.populated.draws.isUsed hpool₁).2 _ hused, fun offset hoffset => ?_⟩
        rcases h'.byte?_or hpool₁ (pa, offset) hused with hkept | ⟨byte, hbyte, hmem⟩
        · rw [hkept]
          exact hfilled offset hoffset
        · exact ⟨byte, hbyte, Or.inr hmem⟩
      · rw [hframe₁] at hlazy₂
        cases hlazy₂

end Furnished

/-! ## One page -/

theorem furnished_populate (s : Space) (p : VirtPage) :
    Furnished writes s (stateOf (populate p s)) := by
  have hpopulated := populated_populate s p s (.refl s)
  rcases populate_cases p s with heq | ⟨fill, flags, pa, memory, text, hlazy, hfresh, heq⟩
  · rw [heq]
    exact .refl s
  · rw [heq] at hpopulated ⊢
    refine ⟨hpopulated, ?_, ?_⟩
    · intro hpool place hused
      have htaken := Memory.supplies_of_fresh? hpool hfresh
      have hne : place.1 ≠ pa := by
        intro hsame
        rw [hsame, htaken.unused] at hused
        cases hused
      left
      change memory.machine.pool.byte? place = s.pool.byte? place
      rw [FramePool.byte?, FramePool.byte?, htaken.frame?_other _ hne]
    · intro hpool q fill' flags' pa' hbefore hafter
      rw [stateOf_ok, PageTable.lookup_modify] at hafter
      split at hafter
      · next hq =>
        subst hq
        rw [hlazy] at hbefore hafter
        cases hbefore
        cases hafter
        have htaken := Memory.supplies_of_fresh? hpool hfresh
        refine ⟨(htaken.isUsed_eq pa).trans (by rw [decide_eq_true rfl, Bool.true_or]), ?_⟩
        have hfilled : memory.machine.pool.Filled writes fill pa :=
          .of_frame? (Memory.frame?_of_fresh? hfresh)
        exact hfilled
      · rw [hbefore] at hafter
        cases hafter

theorem keeps_furnished_populate (s : Space) (p : VirtPage) :
    Keeps (Furnished writes s) (populate p) :=
  fun u hu => hu.trans (furnished_populate u p)

theorem furnished_populateAll (pages : List VirtPage) (s : Space) :
    Furnished writes s (stateOf (populateAll pages s)) :=
  keeps_populateAll (fun p _ => keeps_furnished_populate s p) s (.refl s)

theorem furnished_updateBytes {f : Frame → Frame}
    (hbytes : (s.updateBytes pa f).pool.byte? = overlay s.pool.byte? writes) :
    Furnished writes s (s.updateBytes pa f) := by
  refine ⟨populated_updateBytes (.refl s) pa f, fun _ place _ => ?_, ?_⟩
  · rw [hbytes]
    exact overlay_or _ _ _
  · intro _ p fill flags pa' hlazy hframe
    rw [show (s.updateBytes pa f).table = s.table from rfl, hlazy] at hframe
    cases hframe

/-! ## Writes, whether they get through or not -/

theorem furnished_writeSpan (hinside : span.offset + span.length ≤ pageSize)
    (hlength : bytes.length = span.length) (s : Space) :
    Furnished ((stateOf (writeSpan span bytes s)).table.writes span.addresses bytes) s
      (stateOf (writeSpan span bytes s)) := by
  cases h : writeSpan span bytes s with
  | ok _ s' =>
      obtain ⟨pa, u, f, hpage, hf, rfl⟩ := writeSpan_eq_ok h
      obtain ⟨b, hb, hphys⟩ := backing?_of_populate hpage
      have hpopulate : Furnished (u.table.writes span.addresses bytes) s
          (stateOf (populate span.page s)) := furnished_populate s span.page
      rw [hpage] at hpopulate
      refine hpopulate.trans (furnished_updateBytes ?_)
      rw [PageTable.writes_span hb hphys hinside, ← hlength]
      exact FramePool.byte?_update_write hf (by omega)
  | error e t =>
      -- a span that stops the write was at most given its frame
      have hpage : t = stateOf (populate span.page s) := by
        rcases bind_eq_error_iff.mp h with hpopulate | ⟨pa, u, hpopulate, hwrite⟩
        · rw [hpopulate, stateOf_error]
        · rw [bind_of_ok (x := get) (a := u) (t := u) rfl] at hwrite
          rw [hpopulate, stateOf_ok]
          cases hframe : u.memory.machine.frame? pa with
          | some f =>
              simp only [hframe] at hwrite
              cases hwrite
          | none =>
              simp only [hframe] at hwrite
              cases hwrite
              rfl
      rw [stateOf_error, hpage]
      exact furnished_populate s span.page

theorem furnished_writeSpans {spans : List Span}
    (hinside : ∀ span ∈ spans, span.offset + span.length ≤ pageSize)
    (hlength : bytes.length = (spans.map Span.length).sum) (s : Space) :
    Furnished
      ((stateOf (writeSpans spans bytes s)).table.writes (spans.flatMap Span.addresses) bytes)
      s (stateOf (writeSpans spans bytes s)) := by
  induction spans generalizing s bytes with
  | nil => exact .refl s
  | cons span rest ih =>
      rw [List.map_cons, List.sum_cons] at hlength
      have htake : (bytes.take span.length).length = span.length := by
        rw [List.length_take]
        omega
      have hcut : ∀ t : PageTable, t.writes ((span :: rest).flatMap Span.addresses) bytes =
          t.writes span.addresses (bytes.take span.length) ++
            t.writes (rest.flatMap Span.addresses) (bytes.drop span.length) := by
        intro t
        rw [← PageTable.writes_append (by rw [Span.addresses, List.length_range', htake]),
          List.take_append_drop, List.flatMap_cons]
      have hfirst := furnished_writeSpan (hinside span List.mem_cons_self) htake s
      rw [hcut]
      cases hspan : writeSpan span (bytes.take span.length) s with
      | error e u =>
          rw [hspan] at hfirst
          rw [writeSpans, bind_of_error hspan]
          exact hfirst.mono (List.subset_append_left _ _)
      | ok _ u =>
          rw [hspan] at hfirst
          have hdrop : (bytes.drop span.length).length = (rest.map Span.length).sum := by
            rw [List.length_drop]
            omega
          have hothers :=
            ih (fun other hother => hinside other (List.mem_cons_of_mem _ hother)) hdrop u
          rw [writeSpans, bind_of_ok hspan]
          refine .trans (hfirst.mono ?_) (hothers.mono (List.subset_append_right _ _))
          exact List.subset_append_of_subset_left _ (hothers.populated.writes_subset _ _)

theorem furnished_writeBytes (start : Nat) (bytes : List UInt8) (s : Space) :
    Furnished
      ((stateOf (writeBytes start bytes s)).table.writes (List.range' start bytes.length) bytes)
      s (stateOf (writeBytes start bytes s)) := by
  by_cases hwritable : s.table.Writable start bytes.length
  · obtain ⟨r, hrange, hpermits⟩ := hwritable
    obtain ⟨rfl, hlength⟩ := ByteRange.of?_eq_some_iff.mp hrange
    rw [writeBytes_of_permits hlength hpermits, ← hlength, ← ByteRange.flatMap_addresses_spans]
    exact furnished_writeSpans (fun _ => ByteRange.span_inside)
      (hlength.symm.trans r.sum_length_spans.symm) s
  · rw [writeBytes_of_not_writable hwritable]
    exact .refl s

end Space

end Exokernel
