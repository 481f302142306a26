import Exokernel.Proofs.Region.Furnishing
import Exokernel.Proofs.Region.Overlap

/-! # Where entries come from

An entry that a request leaves in a page table was there before, or had no frame and was given one,
or was put there by the request.  For each kind of request the entries of the last sort are
described. -/

namespace Exokernel

variable {m : Memory} {pool pool' : FramePool} {writes : List ((PhysAddr × Nat) × UInt8)}

/-- On the way from a memory to a pool a fresh frame is taken and filled.  Up to then, and for a
while after, frames are taken and written to only; from then on no byte changes any more.  In a
consistent pool, which it is from boot on (`Kernel.consistent_of_runs`), the frame was handed out to
nobody before, and in the end it holds its fill byte, but for what the writes put there. -/
structure Memory.Takes (m : Memory) (pool : FramePool) (writes : List ((PhysAddr × Nat) × UInt8))
    (fill : Fill) (pa : PhysAddr) : Prop where
  drawn : ∃ m₁ m₂ m₃, Draws m m₁ ∧ m₁.fresh? fill = some (pa, m₂) ∧
    m₂.machine.pool.frame? pa = some (Vector.replicate pageSize fill.byte) ∧
    Draws m₂ m₃ ∧ m₃.machine.pool.SameBytes pool
  unused : m.machine.pool.Consistent → m.machine.pool.isUsed pa = false
  filled : m.machine.pool.Consistent → pool.Filled writes fill pa

theorem Memory.Takes.of_sameBytes {fill : Fill} {pa : PhysAddr} (h : m.Takes pool writes fill pa)
    (hbytes : pool.SameBytes pool') : m.Takes pool' writes fill pa where
  drawn := by
    obtain ⟨m₁, m₂, m₃, hbefore, hfresh, hfilled, hafter, hsame⟩ := h.drawn
    exact ⟨m₁, m₂, m₃, hbefore, hfresh, hfilled, hafter, hsame.trans hbytes⟩
  unused := h.unused
  filled hpool := (h.filled hpool).of_sameBytes hbytes

theorem PhysAddr.advance_one_advance (pa : PhysAddr) (n : Nat) :
    (pa.advance 1).advance n = pa.advance (n + 1) := by
  simp only [advance, PhysAddr.mk.injEq, Nat.add_mul]
  omega

/-- The page had no frame, and has one now that was taken for it and filled as its entry said.  Its
flags are as they were. -/
def PageTable.GivenFrame (m : Memory) (pool : FramePool) (writes : List ((PhysAddr × Nat) × UInt8))
    (t : PageTable) (p : VirtPage) (e : PageEntry) : Prop :=
  ∃ fill pa, t.lookup p = some ⟨.lazy fill, e.flags⟩ ∧ e.backing = .frame pa ∧
    m.Takes pool writes fill pa

theorem PageTable.GivenFrame.of_sameBytes {t : PageTable} {p : VirtPage} {e : PageEntry}
    (h : t.GivenFrame m pool writes p e) (hbytes : pool.SameBytes pool') :
    t.GivenFrame m pool' writes p e := by
  obtain ⟨fill, pa, hbefore, hframe, htakes⟩ := h
  exact ⟨fill, pa, hbefore, hframe, htakes.of_sameBytes hbytes⟩

/-- Unless something is written on the way, the frame is filled throughout. -/
theorem PageTable.GivenFrame.frame?_eq {t : PageTable} {p : VirtPage} {e : PageEntry}
    (h : t.GivenFrame m pool [] p e) (hpool : m.machine.pool.Consistent) :
    ∃ fill pa, t.lookup p = some ⟨.lazy fill, e.flags⟩ ∧ e.backing = .frame pa ∧
      pool.frame? pa = some (Vector.replicate pageSize fill.byte) := by
  obtain ⟨fill, pa, hbefore, hframe, htakes⟩ := h
  exact ⟨fill, pa, hbefore, hframe, (htakes.filled hpool).frame?_eq⟩

namespace Space

variable {s s' : Space} {p q : VirtPage} {e : PageEntry} {rights : MapRights}

/-! ## Pages that are given frames -/

theorem Furnished.givenFrame (h : Furnished writes s s') (hbytes : s'.pool.SameBytes pool)
    (he : s'.table.lookup p = some e) :
    s.table.lookup p = some e ∨ s.table.GivenFrame s.memory pool writes p e := by
  rcases h.populated.lookup_or p with hsame | ⟨fill, flags, pa, hbefore, hafter, hdrawn⟩
  · exact Or.inl (hsame.symm.trans he)
  · have hentry := hafter.symm.trans he
    cases hentry
    refine Or.inr ⟨fill, pa, hbefore, rfl, ?_, fun hpool => hdrawn.unused hpool, fun hpool => ?_⟩
    · obtain ⟨m₁, m₂, hdraws, hfresh, hlater⟩ := hdrawn
      exact ⟨m₁, m₂, s'.memory, hdraws, hfresh, Memory.frame?_of_fresh? hfresh, hlater, hbytes⟩
    · exact (h.filled hpool p fill flags pa hbefore hafter).2.of_sameBytes hbytes

theorem Populated.exists_flags_eq (h : Populated s s') (he : s'.table.lookup p = some e) :
    ∃ o, s.table.lookup p = some o ∧ o.flags = e.flags := by
  rcases h.lookup_or p with hsame | ⟨fill, flags, pa, hbefore, hafter, -⟩
  · exact ⟨e, hsame.symm.trans he, rfl⟩
  · have hentry := hafter.symm.trans he
    cases hentry
    exact ⟨_, hbefore, rfl⟩

/-! ## Fresh pages -/

/-- The entry of a fresh page: without a frame, or with the one that is taken next, which holds the
fill byte throughout. -/
def FreshEntry (req : AllocRequest) (s : Space) (pool : FramePool) (e : PageEntry) : Prop :=
  e.flags = req.rights.flags ∧
    if req.lazy then e.backing = .lazy req.fill
    else ∃ pa m, s.memory.fresh? req.fill = some (pa, m) ∧ e.backing = .frame pa ∧
      pool.frame? pa = some (Vector.replicate pageSize req.fill.byte)

/-- A frame that holds the fill byte throughout keeps it when more pages are mapped, even if one of
them took the same frame. -/
theorem keeps_filled_allocatePage (req : AllocRequest) (q : VirtPage) (pa : PhysAddr) :
    Keeps (fun u => u.pool.frame? pa = some (Vector.replicate pageSize req.fill.byte))
      (allocatePage req q) := by
  rintro ⟨memory, table⟩ hfilled
  simp only [allocatePage]
  split
  · exact ((sameBytes_place _ _ _).frame_eq pa).trans hfilled
  · split
    · exact hfilled
    · next pa' memory' hfresh =>
      refine ((sameBytes_place _ _ _).frame_eq pa).trans ?_
      by_cases hpa : pa = pa'
      · subst hpa
        exact Memory.frame?_of_fresh? hfresh
      · exact (Memory.frame?_of_fresh?_of_ne hfresh hpa).trans hfilled

theorem FreshEntry.of_frame_eq {req : AllocRequest}
    (h : FreshEntry req s pool e)
    (hbytes : ∀ pa, pool.frame? pa = some (Vector.replicate pageSize req.fill.byte) →
      pool'.frame? pa = some (Vector.replicate pageSize req.fill.byte)) :
    FreshEntry req s pool' e := by
  refine ⟨h.1, ?_⟩
  have hbacking := h.2
  split at hbacking
  · next hlazy => rwa [if_pos hlazy]
  · next hlazy =>
    rw [if_neg hlazy]
    obtain ⟨pa, m, hfresh, hframe, hfilled⟩ := hbacking
    exact ⟨pa, m, hfresh, hframe, hbytes pa hfilled⟩

theorem FreshEntry.not_device {req : AllocRequest} (h : FreshEntry req s pool e) (pa : PhysAddr) :
    e.backing ≠ .device pa := by
  intro hdevice
  have hbacking := h.2
  split at hbacking
  · rw [hbacking] at hdevice
    cases hdevice
  · obtain ⟨_, _, -, hframe, -⟩ := hbacking
    rw [hframe] at hdevice
    cases hdevice

theorem lookup_allocatePage {req : AllocRequest}
    (he : (stateOf (allocatePage req q s)).table.lookup p = some e) :
    s.table.lookup p = some e ∨
      p = q ∧ FreshEntry req s (stateOf (allocatePage req q s)).pool e := by
  have hplace : ∀ u x, u.table = s.table → FreshEntry req s u.pool x →
      (stateOf (place q x u)).table.lookup p = some e →
        s.table.lookup p = some e ∨ p = q ∧ FreshEntry req s (stateOf (place q x u)).pool e := by
    intro u x htable hfresh hp
    have hbytes := sameBytes_place q x u
    cases hdone : place q x u with
    | error _ v =>
        rw [hdone, (place_eq_error hdone).1] at hp
        exact Or.inl (htable ▸ hp)
    | ok _ v =>
        rw [hdone] at hbytes
        rw [hdone, stateOf_ok, lookup_of_place hdone] at hp
        split at hp
        · next heq =>
          cases hp
          exact Or.inr ⟨heq.symm, hfresh.of_frame_eq fun pa => (hbytes.frame_eq pa).trans⟩
        · exact Or.inl (htable ▸ hp)
  obtain ⟨memory, table⟩ := s
  simp only [allocatePage] at he ⊢
  split at he
  · next hlazy =>
    rw [if_pos hlazy]
    refine hplace ⟨memory, table⟩ ⟨.lazy req.fill, req.rights.flags⟩ rfl ⟨rfl, ?_⟩ he
    rw [if_pos hlazy]
  · next hlazy =>
    rw [if_neg hlazy]
    split at he
    · exact Or.inl he
    · next pa memory' hfresh =>
      refine hplace ⟨memory', table⟩ ⟨.frame pa, req.rights.flags⟩ rfl ⟨rfl, ?_⟩ he
      rw [if_neg hlazy]
      exact ⟨pa, memory', hfresh, rfl, Memory.frame?_of_fresh? hfresh⟩

/-- An entry that mapping fresh pages leaves is that of a page whose turn came, when the pages
before it had been mapped. -/
theorem lookup_allocatePages {req : AllocRequest} {pages : List VirtPage}
    (he : (stateOf (allocatePages req pages s)).table.lookup p = some e) :
    s.table.lookup p = some e ∨ ∃ before after u, pages = before ++ p :: after ∧
      allocatePages req before s = .ok () u ∧
        FreshEntry req u (stateOf (allocatePages req pages s)).pool e := by
  induction pages generalizing s with
  | nil => exact Or.inl he
  | cons q rest ih =>
      have hlater : ∀ u pa, u.pool.frame? pa = some (Vector.replicate pageSize req.fill.byte) →
          (stateOf (allocatePages req rest u)).pool.frame? pa =
            some (Vector.replicate pageSize req.fill.byte) := fun u pa hfilled =>
        keeps_allocatePages (fun r _ => keeps_filled_allocatePage req r pa) u hfilled
      have hfirst : (stateOf (allocatePage req q s)).table.lookup p = some e → _ :=
        lookup_allocatePage
      rw [allocatePages] at he ⊢
      cases hpage : allocatePage req q s with
      | error x u =>
          rw [hpage] at hfirst
          rw [bind_of_error hpage] at he ⊢
          refine (hfirst he).imp_right ?_
          rintro ⟨rfl, hfresh⟩
          exact ⟨[], rest, s, rfl, rfl, hfresh⟩
      | ok _ u =>
          rw [hpage] at hfirst
          rw [bind_of_ok hpage] at he ⊢
          rcases ih he with hsame | ⟨before, after, v, rfl, hbefore, hfresh⟩
          · refine (hfirst hsame).imp_right ?_
            rintro ⟨rfl, hfresh⟩
            exact ⟨[], rest, s, rfl, rfl, hfresh.of_frame_eq (hlater u)⟩
          · refine Or.inr ⟨q :: before, after, v, rfl, ?_, hfresh⟩
            exact bind_eq_ok_iff.mpr ⟨(), u, hpage, hbefore⟩

theorem lookup_allocateRegion {r : PageRange} {req : AllocRequest}
    (he : (stateOf (allocateRegion r req s)).table.lookup p = some e) :
    s.table.lookup p = some e ∨ ∃ before after u, r.toList = before ++ p :: after ∧
      allocatePages req before s = .ok () u ∧
        FreshEntry req u (stateOf (allocateRegion r req s)).pool e := by
  have hpages : (stateOf (allocatePages req r.toList s)).table.lookup p = some e → _ :=
    lookup_allocatePages
  rw [allocateRegion] at he ⊢
  rw [bind_of_ok (x := get) (a := s) (t := s) rfl] at he ⊢
  split at he
  · next henough =>
    rw [if_pos henough]
    cases hloop : allocatePages req r.toList s with
    | error x u =>
        rw [hloop] at hpages
        rw [bind_of_error hloop] at he ⊢
        exact hpages he
    | ok _ u =>
        rw [hloop] at hpages
        rw [bind_of_ok hloop] at he ⊢
        exact hpages he
  · exact Or.inl he

/-! ## Device pages -/

theorem lookup_placeDevice {flags : PageFlags} {pa : PhysAddr}
    (he : (stateOf (place q ⟨.device pa, flags⟩ s)).table.lookup p = some e) :
    s.table.lookup p = some e ∨ p = q ∧ e = ⟨.device pa, flags⟩ := by
  cases hplace : place q ⟨.device pa, flags⟩ s with
  | error x u =>
      rw [hplace, (place_eq_error hplace).1] at he
      exact Or.inl he
  | ok _ u =>
      rw [hplace, stateOf_ok, lookup_of_place hplace] at he
      split at he
      · next heq =>
        cases he
        exact Or.inr ⟨heq.symm, rfl⟩
      · exact Or.inl he

theorem lookup_devicePages {flags : PageFlags} {pages : List VirtPage} {pa : PhysAddr}
    (he : (stateOf (devicePages flags pa pages s)).table.lookup p = some e) :
    s.table.lookup p = some e ∨
      ∃ n, pages[n]? = some p ∧ e = ⟨.device (pa.advance n), flags⟩ := by
  induction pages generalizing s pa with
  | nil => exact Or.inl he
  | cons q rest ih =>
      change (stateOf ((place q ⟨.device pa, flags⟩ >>= fun _ =>
        devicePages flags (pa.advance 1) rest) s)).table.lookup p = some e at he
      have hfirst : (stateOf (place q ⟨.device pa, flags⟩ s)).table.lookup p = some e →
          s.table.lookup p = some e ∨
            ∃ n, (q :: rest)[n]? = some p ∧ e = ⟨.device (pa.advance n), flags⟩ := by
        intro hplace
        rcases lookup_placeDevice hplace with hsame | ⟨rfl, rfl⟩
        · exact Or.inl hsame
        · exact Or.inr ⟨0, rfl, by simp [PhysAddr.advance]⟩
      cases hplace : place q ⟨.device pa, flags⟩ s with
      | error x u =>
          rw [hplace] at hfirst
          rw [bind_of_error hplace] at he
          exact hfirst he
      | ok _ u =>
          rw [hplace] at hfirst
          rw [bind_of_ok hplace] at he
          rcases ih he with hsame | ⟨n, hn, rfl⟩
          · exact hfirst hsame
          · right
            refine ⟨n + 1, by simpa using hn, ?_⟩
            rw [PhysAddr.advance_one_advance]

theorem lookup_mapDeviceRegion {r : PageRange} {pa : PhysAddr}
    (he : (stateOf (mapDeviceRegion r pa rights s)).table.lookup p = some e) :
    s.table.lookup p = some e ∨ ∃ n, r.toList[n]? = some p ∧
      e = ⟨.device (pa.advance n), rights.flags⟩ ∧
      s.pool.isDeviceRange (pa.advance n) pageSize = true := by
  rw [mapDeviceRegion] at he
  rw [bind_of_ok (x := get) (a := s) (t := s) rfl] at he
  split at he
  · exact Or.inl he
  · cases hfault : s.deviceFault? r pa with
    | some x =>
        rw [hfault] at he
        exact Or.inl he
    | none =>
        rw [hfault] at he
        have hrange : s.pool.isDeviceRange pa (r.count * pageSize) = true := by
          by_contra hnot
          rw [deviceFault?, if_pos (by simpa using hnot)] at hfault
          cases hfault
        rcases lookup_devicePages he with hsame | ⟨n, hn, rfl⟩
        · exact Or.inl hsame
        · right
          refine ⟨n, hn, rfl, ?_⟩
          have hlt : n < r.count := by
            obtain ⟨hlt, -⟩ := List.getElem?_eq_some_iff.mp hn
            simpa using hlt
          obtain ⟨w, hw, hcovers⟩ := FramePool.isDeviceRange_iff.mp hrange
          exact FramePool.isDeviceRange_iff.mpr ⟨w, hw, hcovers.page hlt⟩

/-! ## Shared pages -/

theorem write_sharedFlags {old : Option PageEntry} {b : Backing}
    (h : (sharedFlags rights old b).write = true) :
    rights.write = true ∨ rights.combine = true ∧
      ∃ o, old = some o ∧ o.backing = b ∧ o.isWritable = true := by
  cases old with
  | none => exact Or.inl h
  | some o =>
      simp only [sharedFlags] at h
      split at h
      · next hsame =>
        obtain ⟨hcombine, hback⟩ := Bool.and_eq_true_iff.mp hsame
        rcases Bool.or_eq_true_iff.mp h with hwrite | hold
        · exact Or.inl hwrite
        · exact Or.inr ⟨hcombine, o, rfl, of_decide_eq_true hback, hold⟩
      · exact Or.inl h

/-- An entry that sharing pages leaves is that of a target page, and its flags depend on the entry
that the page had at first. -/
theorem lookup_sharePages {pages : List (VirtPage × Backing)}
    (hnodup : (pages.map Prod.fst).Nodup)
    (he : (stateOf (sharePages rights pages s)).table.lookup p = some e) :
    s.table.lookup p = some e ∨
      ∃ b, (p, b) ∈ pages ∧ e = ⟨b, sharedFlags rights (s.table.lookup p) b⟩ := by
  induction pages generalizing s with
  | nil => exact Or.inl he
  | cons x rest ih =>
      obtain ⟨q, b⟩ := x
      obtain ⟨hq, hnodup⟩ := List.nodup_cons.mp hnodup
      change (stateOf ((sharePage rights q b >>= fun _ =>
        sharePages rights rest) s)).table.lookup p = some e at he
      cases hpage : sharePage rights q b s with
      | error x u =>
          rw [bind_of_error hpage, stateOf_error, table_of_sharePage_error hpage] at he
          exact Or.inl he
      | ok _ u =>
          rw [bind_of_ok hpage] at he
          have hlookup := lookup_of_sharePage hpage p
          rcases ih hnodup he with hsame | ⟨b', hmem, rfl⟩
          · rw [hlookup] at hsame
            split at hsame
            · next heq =>
              cases hsame
              subst heq
              exact Or.inr ⟨b, List.mem_cons_self, rfl⟩
            · exact Or.inl hsame
          · have hne : q ≠ p := by
              rintro rfl
              exact hq (List.mem_map.mpr ⟨_, hmem, rfl⟩)
            rw [if_neg hne] at hlookup
            rw [hlookup]
            exact Or.inr ⟨b', List.mem_cons_of_mem _ hmem, rfl⟩

/-- What sharing the page `q` of the space `s`, with the entry `o`, at the page `p` of the table `t`
leaves there.  `s'` and `t'` are the same once the source pages have their frames.  The backing is
the one that the source page has by then: it had it from the start, or it is a frame that was taken
for that page. Write access is never gained: the source page was writable, or the call asked to keep
the access that there is, and the entry that is replaced has that backing and was writable. -/
structure SharedEntry (s s' : Space) (pool : FramePool) (rights : MapRights) (t t' : PageTable)
    (q p : VirtPage) (o e : PageEntry) : Prop where
  before : s.table.lookup q = some o
  after : s'.table.lookup q = some ⟨e.backing, o.flags⟩
  hasPlace : e.backing.isLazy = false
  origin : o.backing = e.backing ∨ s.table.GivenFrame s.memory pool [] q ⟨e.backing, o.flags⟩
  write : e.isWritable = true → o.isWritable = true ∨ rights.combine = true ∧ ∃ old,
    t.lookup p = some old ∧ t'.lookup p = some ⟨e.backing, old.flags⟩ ∧ old.isWritable = true

theorem SharedEntry.of_sameBytes {t t' : PageTable} {o : PageEntry}
    (h : SharedEntry s s' pool rights t t' q p o e) (hbytes : pool.SameBytes pool') :
    SharedEntry s s' pool' rights t t' q p o e where
  before := h.before
  after := h.after
  hasPlace := h.hasPlace
  origin := h.origin.imp_right fun hgiven => hgiven.of_sameBytes hbytes
  write := h.write

theorem sourceFault?_of_copyFault? {m : Memory} {source target : PageTable} {src dst : PageRange}
    (h : copyFault? m source target src dst rights = none) (hq : q ∈ src.toList) {o : PageEntry}
    (ho : source.lookup q = some o) (hwrite : rights.write = true) : o.isWritable = true := by
  have hnone : sourceFault? source rights q = none := by
    rw [copyFault?] at h
    split at h
    · cases h
    · split at h
      · cases h
      · next hall => exact List.findSome?_eq_none_iff.mp hall q hq
  by_contra hnot
  rw [sourceFault?, ho] at hnone
  simp only [hwrite, Bool.true_and] at hnone
  split at hnone
  · cases hnone
  · rw [if_pos (by simpa using hnot)] at hnone
    cases hnone

/-- A target page that is shared from pages which have all been given frames.  `t'` is the table
that it is placed in: as it was at first, but for pages that were given frames. -/
theorem sharedEntry_of_mem {src dst : PageRange} {t t' : PageTable} {b : Backing}
    (hfault : copyFault? s.memory s.table t src dst rights = none)
    (hpopulate : populateAll src.toList s = .ok () s') (hbytes : s'.pool.SameBytes pool)
    (hmem : (p, b) ∈ dst.toList.zip (backings s'.table src.toList))
    (htarget : ∀ old, t'.lookup p = some old → ∃ o, t.lookup p = some o ∧ o.flags = old.flags) :
    ∃ (n : ℕ) (q : VirtPage) (o : PageEntry), src.toList[n]? = some q ∧ dst.toList[n]? = some p ∧
      SharedEntry s s' pool rights t t' q p o ⟨b, sharedFlags rights (t'.lookup p) b⟩ := by
  have hfurnished : Furnished [] s (stateOf (populateAll src.toList s)) :=
    furnished_populateAll src.toList s
  rw [hpopulate, stateOf_ok] at hfurnished
  have hmapped : ∀ q ∈ src.toList, ∃ b, s'.table.backing? q = some b := fun q hq =>
    (backing?_of_populateAll hpopulate hq).imp fun _ hb => hb.1
  obtain ⟨n, hn⟩ := List.mem_iff_getElem?.mp hmem
  obtain ⟨hp, hb⟩ := List.getElem?_zip_eq_some.mp hn
  obtain ⟨q, hq, hback⟩ := (getElem?_backings_iff hmapped).mp hb
  have hqmem := List.mem_of_getElem? hq
  have hlazy : b.isLazy = false := by
    obtain ⟨b', hb', hlazy⟩ := backing?_of_populateAll hpopulate hqmem
    rw [hback] at hb'
    cases hb'
    exact hlazy
  obtain ⟨⟨b, flags⟩, hafter, rfl⟩ := Option.map_eq_some_iff.mp hback
  obtain ⟨o, hbefore, rfl, horigin⟩ : ∃ o, s.table.lookup q = some o ∧ o.flags = flags ∧
      (o.backing = b ∨ s.table.GivenFrame s.memory pool [] q ⟨b, flags⟩) := by
    rcases hfurnished.givenFrame hbytes hafter with hsame | hgiven
    · exact ⟨_, hsame, rfl, Or.inl rfl⟩
    · obtain ⟨fill, pa, hlazyBefore, -⟩ := id hgiven
      exact ⟨_, hlazyBefore, rfl, Or.inr hgiven⟩
  refine ⟨n, q, o, hq, hp, hbefore, hafter, hlazy, horigin, ?_⟩
  intro hwritable
  rcases write_sharedFlags hwritable with hwrite | ⟨hcombine, old, hold, rfl, holdWritable⟩
  · exact Or.inl (sourceFault?_of_copyFault? hfault hqmem hbefore hwrite)
  · obtain ⟨first, hfirst, hflags⟩ := htarget old hold
    refine Or.inr ⟨hcombine, first, hfirst, ?_, ?_⟩
    · rw [hflags]
      exact hold
    · rw [PageEntry.isWritable, hflags]
      exact holdWritable

theorem nodup_zip_toList {α : Type} (r : PageRange) (l : List α) :
    ((r.toList.zip l).map Prod.fst).Nodup := by
  rw [List.zip_eq_zip_take_min, List.map_fst_zip (by simp)]
  exact r.nodup_toList.sublist (List.take_sublist _ _)

theorem lookup_copyWithin {src dst : PageRange}
    (he : (stateOf (copyWithin src dst rights s)).table.lookup p = some e) :
    s.table.lookup p = some e ∨
      s.table.GivenFrame s.memory (stateOf (copyWithin src dst rights s)).pool [] p e ∨
      ∃ (n : ℕ) (q : VirtPage) (o : PageEntry) (s' : Space), src.toList[n]? = some q ∧
        dst.toList[n]? = some p ∧ populateAll src.toList s = .ok () s' ∧
          SharedEntry s s' (stateOf (copyWithin src dst rights s)).pool rights s.table s'.table
            q p o e := by
  have hfurnished : Furnished [] s (stateOf (populateAll src.toList s)) :=
    furnished_populateAll src.toList s
  revert he
  apply stateOf_copyWithin (I := fun u => u.table.lookup p = some e →
    s.table.lookup p = some e ∨ s.table.GivenFrame s.memory u.pool [] p e ∨
      ∃ (n : ℕ) (q : VirtPage) (o : PageEntry) (s' : Space), src.toList[n]? = some q ∧
        dst.toList[n]? = some p ∧ populateAll src.toList s = .ok () s' ∧
          SharedEntry s s' u.pool rights s.table s'.table q p o e)
  · exact Or.inl
  · intro _ he
    exact (hfurnished.givenFrame (.refl _) he).imp_right Or.inl
  · intro s₁ hpopulate hfault he
    rw [hpopulate, stateOf_ok] at hfurnished
    have hbytes := sameBytes_sharePages rights (dst.toList.zip (backings s₁.table src.toList)) s₁
    rcases lookup_sharePages (nodup_zip_toList dst _) he with hsame | ⟨b, hmem, rfl⟩
    · exact (hfurnished.givenFrame hbytes hsame).imp_right Or.inl
    · right
      right
      obtain ⟨n, q, o, hq, hp, hshared⟩ := sharedEntry_of_mem hfault hpopulate hbytes hmem
        fun old hold => hfurnished.populated.exists_flags_eq hold
      exact ⟨n, q, o, s₁, hq, hp, hpopulate, hshared⟩
  · exact fun _ _ hu => hu

/-! ## Pages that are unmapped -/

theorem lookup_of_lookup_unmapPage (he : (s.unmapPage q).table.lookup p = some e) :
    s.table.lookup p = some e := by
  obtain ⟨⟨machine, refs⟩, table⟩ := s
  simp only [unmapPage] at he
  apply PageTable.lookup_of_lookup_remove (m := machine) (p := q)
  split at he
  · next heq => rwa [heq]
  · next heq => rwa [heq]

theorem lookup_of_lookup_unmapRegion {r : PageRange}
    (he : (s.unmapRegion r).table.lookup p = some e) : s.table.lookup p = some e := by
  revert he
  apply keeps_foldl_unmapPage (I := fun u => u.table.lookup p = some e → s.table.lookup p = some e)
  · exact fun u q hu he => hu (lookup_of_lookup_unmapPage he)
  · exact id

end Space

namespace SpacePair

variable {s : SpacePair} {src dst : PageRange} {rights : MapRights} {p : VirtPage} {e : PageEntry}

theorem lookup_source_copyAcross
    (he : (stateOf (copyAcross src dst rights s)).source.lookup p = some e) :
    s.source.lookup p = some e ∨ s.source.GivenFrame s.memory
      (stateOf (copyAcross src dst rights s)).memory.machine.pool [] p e := by
  have hfurnished : Space.Furnished [] ⟨s.memory, s.source⟩
      (stateOf (Space.populateAll src.toList ⟨s.memory, s.source⟩)) :=
    Space.furnished_populateAll src.toList _
  revert he
  apply stateOf_copyAcross (I := fun u => u.source.lookup p = some e →
    s.source.lookup p = some e ∨ s.source.GivenFrame s.memory u.memory.machine.pool [] p e)
  · exact Or.inl
  · rintro - u rfl he
    exact hfurnished.givenFrame (.refl _) he
  · rintro s₁ hpopulate - u rfl he
    rw [hpopulate] at hfurnished
    exact hfurnished.givenFrame (Space.sameBytes_sharePages _ _ ⟨s₁.memory, s.target⟩) he
  · exact fun _ _ hu => hu

theorem lookup_target_copyAcross
    (he : (stateOf (copyAcross src dst rights s)).target.lookup p = some e) :
    s.target.lookup p = some e ∨
      ∃ (n : ℕ) (q : VirtPage) (o : PageEntry) (s' : Space), src.toList[n]? = some q ∧
        dst.toList[n]? = some p ∧ Space.populateAll src.toList ⟨s.memory, s.source⟩ = .ok () s' ∧
          Space.SharedEntry ⟨s.memory, s.source⟩ s'
            (stateOf (copyAcross src dst rights s)).memory.machine.pool rights s.target s.target
              q p o e := by
  revert he
  apply stateOf_copyAcross (I := fun u => u.target.lookup p = some e →
    s.target.lookup p = some e ∨
      ∃ (n : ℕ) (q : VirtPage) (o : PageEntry) (s' : Space), src.toList[n]? = some q ∧
        dst.toList[n]? = some p ∧ Space.populateAll src.toList ⟨s.memory, s.source⟩ = .ok () s' ∧
          Space.SharedEntry ⟨s.memory, s.source⟩ s' u.memory.machine.pool rights s.target s.target
            q p o e)
  · exact Or.inl
  · rintro - u rfl he
    exact Or.inl he
  · rintro s₁ hpopulate hfault u rfl he
    have hbytes := Space.sameBytes_sharePages rights
      (dst.toList.zip (Space.backings s₁.table src.toList)) ⟨s₁.memory, s.target⟩
    rcases Space.lookup_sharePages (Space.nodup_zip_toList dst _) he with hsame | ⟨b, hmem, rfl⟩
    · exact Or.inl hsame
    · right
      obtain ⟨n, q, o, hq, hp, hshared⟩ := Space.sharedEntry_of_mem (s := ⟨s.memory, s.source⟩)
        hfault hpopulate hbytes hmem fun old hold => ⟨old, hold, rfl⟩
      exact ⟨n, q, o, s₁, hq, hp, hpopulate, hshared⟩
  · exact fun _ _ hu => hu

end SpacePair

end Exokernel
