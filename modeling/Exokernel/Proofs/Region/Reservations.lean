import Exokernel.Proofs.Mapping.Leaves
import Exokernel.Proofs.Memory.Reliability
import Exokernel.Proofs.Region.Loops

/-! # Reservations

The frames that a request on a range counts before its first page are all the frames that its pages
take one after the other: one for each fresh page, and one for each leaf table that is missing.  On
a reliable machine such a request is carried out as a whole or changes nothing. -/

namespace Exokernel

namespace Space

variable {s : Space} {n : Nat}

/-! ## One page after the other -/

theorem place_of_canGive {p : VirtPage} {rest : List VirtPage} (e : PageEntry)
    (h : s.memory.machine.CanGive (s.table.needed (p :: rest) + n)) :
    ∃ s', place p e s = .ok () s' ∧ s'.memory.machine.CanGive (s'.table.needed rest + n) := by
  obtain ⟨⟨machine, refs⟩, table⟩ := s
  simp only at h
  cases hleaf : table.leaf? p.leaf with
  | some leaf =>
      have hneeded := fun f => PageTable.needed_cons_modifyLeaf hleaf f rest
      cases hentry : leaf.get? p.slot with
      | none =>
          refine ⟨⟨⟨machine, refs⟩, table.modifyLeaf p.leaf (·.add p.slot e)⟩, ?_, ?_⟩
          · simp only [place, PageTable.insert, hleaf, hentry]
          · rw [hneeded] at h
            exact h
      | some old =>
          refine ⟨⟨Memory.release ⟨machine, refs⟩ old.backing,
            table.modifyLeaf p.leaf (·.replace p.slot e)⟩, ?_, ?_⟩
          · simp only [place, PageTable.insert, hleaf, hentry]
          · rw [hneeded] at h
            exact Machine.CanGive.release h _
  | none =>
      have hneeded : ∀ leaf, table.needed (p :: rest) =
          (table.setLeaf p.leaf (some leaf)).needed rest + 1 := fun leaf =>
        PageTable.needed_cons_of_missing hleaf leaf rest
      have hfirst := hneeded (LeafTable.single ⟨0⟩ p.slot e)
      rw [hfirst, Nat.add_right_comm] at h
      obtain ⟨frame, machine', halloc, hgive, -⟩ := h.alloc
      refine ⟨⟨⟨machine', refs⟩, table.setLeaf p.leaf (some (LeafTable.single frame p.slot e))⟩,
        ?_, ?_⟩
      · simp only [place, PageTable.insert, hleaf, halloc]
      · refine hgive.mono (Nat.add_le_add_right (Nat.le_of_eq ?_) n)
        exact Nat.succ.inj ((hneeded (LeafTable.single frame p.slot e)).symm.trans hfirst)

theorem allocatePage_of_canGive (req : AllocRequest) {p : VirtPage} (rest : List VirtPage)
    (h : s.memory.machine.CanGive
      (s.table.needed (p :: rest) + (n + if req.lazy then 0 else 1))) :
    ∃ s', allocatePage req p s = .ok () s' ∧
      s'.memory.machine.CanGive (s'.table.needed rest + n) := by
  obtain ⟨memory, table⟩ := s
  simp only [allocatePage]
  cases hlazy : req.lazy with
  | true =>
      rw [hlazy] at h
      exact place_of_canGive _ h
  | false =>
      rw [hlazy] at h
      obtain ⟨pa, memory', hfresh, hgive⟩ := Machine.CanGive.fresh? h req.fill
      simp only [hfresh]
      exact place_of_canGive (s := ⟨memory', table⟩) _ hgive

theorem sharePage_of_canGive (rights : MapRights) {p : VirtPage} {rest : List VirtPage} (b : Backing)
    (h : s.memory.machine.CanGive (s.table.needed (p :: rest) + n)) :
    ∃ s', sharePage rights p b s = .ok () s' ∧
      s'.memory.machine.CanGive (s'.table.needed rest + n) :=
  place_of_canGive (s := ⟨s.memory.retain b, s.table⟩) _ (Machine.CanGive.retain h b)

/-! ## Ranges -/

theorem allocatePages_of_canGive {req : AllocRequest} {pages : List VirtPage}
    (h : s.memory.machine.CanGive
      (s.table.needed pages + if req.lazy then 0 else pages.length)) :
    ∃ s', allocatePages req pages s = .ok () s' := by
  induction pages generalizing s with
  | nil => exact ⟨s, rfl⟩
  | cons p rest ih =>
      obtain ⟨s₁, hpage, hgive⟩ := allocatePage_of_canGive (p := p)
        (n := if req.lazy then 0 else rest.length) req rest (h.mono (by cases req.lazy <;> simp))
      obtain ⟨s₂, hrest⟩ := ih hgive
      exact ⟨s₂, bind_eq_ok_iff.mpr ⟨_, s₁, hpage, hrest⟩⟩

theorem sharePages_of_canGive (rights : MapRights) {pages : List (VirtPage × Backing)}
    (h : s.memory.machine.CanGive (s.table.needed (pages.map Prod.fst))) :
    ∃ s', sharePages rights pages s = .ok () s' := by
  induction pages generalizing s with
  | nil => exact ⟨s, rfl⟩
  | cons x rest ih =>
      obtain ⟨s₁, hpage, hgive⟩ := sharePage_of_canGive (n := 0) rights x.2 h
      obtain ⟨s₂, hrest⟩ := ih hgive
      exact ⟨s₂, bind_eq_ok_iff.mpr ⟨_, s₁, hpage, hrest⟩⟩

theorem devicePages_of_canGive (flags : PageFlags) {pages : List VirtPage} (pa : PhysAddr)
    (h : s.memory.machine.CanGive (s.table.needed pages)) :
    ∃ s', devicePages flags pa pages s = .ok () s' := by
  induction pages generalizing s pa with
  | nil => exact ⟨s, rfl⟩
  | cons p rest ih =>
      obtain ⟨s₁, hpage, hgive⟩ := place_of_canGive (n := 0) ⟨.device pa, flags⟩ h
      obtain ⟨s₂, hrest⟩ := ih (pa.advance 1) hgive
      exact ⟨s₂, bind_eq_ok_iff.mpr ⟨_, s₁, hpage, hrest⟩⟩

/-! ## Source pages -/

theorem populate_of_canGive {p : VirtPage} {rest : List VirtPage} (hmapped : s.table.isMapped p = true)
    (h : s.memory.machine.CanGive (lazyPages s.table (p :: rest) + n)) :
    ∃ pa s', populate p s = .ok pa s' ∧
      s'.memory.machine.CanGive (lazyPages s'.table rest + n) ∧
      s.table.SameLeaves s'.table ∧ ∀ q, s'.table.isMapped q = s.table.isMapped q := by
  obtain ⟨memory, table⟩ := s
  obtain ⟨⟨backing, flags⟩, hlookup⟩ := Option.isSome_iff_exists.mp hmapped
  simp only [lazyPages, List.countP_cons] at h hlookup
  rw [hlookup] at h
  simp only [populate, hlookup]
  cases backing with
  | frame pa => exact ⟨pa, _, rfl, h, .refl _, fun _ => rfl⟩
  | device pa => exact ⟨pa, _, rfl, h, .refl _, fun _ => rfl⟩
  | lazy fill =>
      simp only [Option.any_some, Backing.isLazy, if_true] at h
      rw [Nat.add_right_comm] at h
      obtain ⟨pa, memory', hfresh, hgive⟩ := Machine.CanGive.fresh? h fill
      simp only [hfresh]
      refine ⟨pa, _, rfl, ?_, PageTable.sameLeaves_modify _ _ _, ?_⟩
      · refine Machine.CanGive.note (hgive.mono ?_) _ _ _
        apply Nat.add_le_add_right
        apply List.countP_mono_left
        intro q _
        rw [PageTable.lookup_modify]
        split
        · next hq =>
          subst hq
          rw [hlookup]
          intro hlazy
          cases hlazy
        · exact id
      · intro q
        rw [PageTable.isMapped, PageTable.lookup_modify, PageTable.isMapped]
        split
        · exact Option.isSome_map
        · rfl

theorem populateAll_of_canGive {pages : List VirtPage}
    (hmapped : ∀ p ∈ pages, s.table.isMapped p = true)
    (h : s.memory.machine.CanGive (lazyPages s.table pages + n)) :
    ∃ s', populateAll pages s = .ok () s' ∧ s'.memory.machine.CanGive n ∧
      s.table.SameLeaves s'.table := by
  induction pages generalizing s with
  | nil => exact ⟨s, rfl, h.mono (Nat.le_add_left _ _), .refl _⟩
  | cons p rest ih =>
      obtain ⟨pa, s₁, hpage, hgive, hleaves, hmaps⟩ :=
        populate_of_canGive (hmapped p List.mem_cons_self) h
      have hmapped₁ : ∀ q ∈ rest, s₁.table.isMapped q = true := by
        intro q hq
        rw [hmaps]
        exact hmapped q (List.mem_cons_of_mem _ hq)
      obtain ⟨s₂, hrest, hgive₂, hleaves₂⟩ := ih hmapped₁ hgive
      exact ⟨s₂, bind_eq_ok_iff.mpr ⟨_, s₁, hpage, hrest⟩, hgive₂, hleaves.trans hleaves₂⟩

/-! ## Requests on ranges -/

theorem canGive_of_hasFrames {frames : Nat} (hreliable : s.memory.machine.Reliable)
    (h : s.hasFrames frames = true) : s.memory.machine.CanGive frames :=
  ⟨hreliable, of_decide_eq_true h⟩

/-- On a reliable machine fresh pages are mapped over the whole range or not at all. -/
theorem atomic_allocateRegion (hreliable : s.memory.machine.Reliable) (r : PageRange)
    (req : AllocRequest) : Atomic (allocateRegion r req) s := by
  apply Atomic.get_bind
  by_cases hframes : s.hasFrames (allocationNeed s.table r req) = true
  · rw [if_pos hframes]
    have hgive := canGive_of_hasFrames hreliable hframes
    rw [allocationNeed, Nat.add_comm, ← PageTable.needed_toList, ← r.length_toList] at hgive
    obtain ⟨s', hpages⟩ := allocatePages_of_canGive hgive
    exact .of_ok (bind_of_ok hpages _)
  · rw [if_neg hframes]
    exact .throw _

theorem atomic_mapDeviceRegion (hreliable : s.memory.machine.Reliable) (r : PageRange)
    (pa : PhysAddr) (rights : MapRights) : Atomic (mapDeviceRegion r pa rights) s := by
  apply Atomic.get_bind
  split
  · exact .pure ()
  · cases hfault : s.deviceFault? r pa with
    | some e => exact .throw e
    | none =>
        have hframes : s.hasFrames (s.table.missingTables r) = true := by
          rw [deviceFault?] at hfault
          by_contra hframes
          rw [Bool.not_eq_true] at hframes
          simp only [hframes] at hfault
          split at hfault
          · cases hfault
          · split at hfault <;> cases hfault
        have hgive := canGive_of_hasFrames hreliable hframes
        rw [← PageTable.needed_toList] at hgive
        obtain ⟨s', hpages⟩ := devicePages_of_canGive rights.flags pa hgive
        exact .of_ok hpages

/-! ## Copies -/

/-- Once nothing speaks against a copy, all its source pages are mapped, and the machine has frames
for those that need one and for the leaf tables of the target. -/
theorem mapped_of_copyFault? {memory : Memory} {source target : PageTable} {src dst : PageRange}
    {rights : MapRights} (hreliable : memory.machine.Reliable)
    (h : copyFault? memory source target src dst rights = none) :
    (∀ p ∈ src.toList, source.isMapped p = true) ∧
      memory.machine.CanGive (lazyPages source src.toList + target.needed dst.toList) := by
  rw [copyFault?] at h
  split at h
  · cases h
  · cases hfound : src.toList.findSome? (sourceFault? source rights) with
    | some e =>
        rw [hfound] at h
        cases h
    | none =>
        rw [hfound] at h
        simp only at h
        split at h
        · cases h
        · next hframes =>
          constructor
          · intro p hp
            have hpage := List.findSome?_eq_none_iff.mp hfound p hp
            rw [sourceFault?] at hpage
            rw [PageTable.isMapped]
            cases hlookup : source.lookup p with
            | none =>
                rw [hlookup] at hpage
                cases hpage
            | some e => rfl
          · rw [PageTable.needed_toList]
            exact ⟨hreliable, Nat.le_of_not_lt hframes⟩

theorem needed_zip_le (t : PageTable) (pages : List VirtPage) (backings : List Backing) :
    t.needed ((pages.zip backings).map Prod.fst) ≤ t.needed pages := by
  apply PageTable.needed_mono
  intro p hp
  obtain ⟨x, hx, rfl⟩ := List.mem_map.mp hp
  exact (List.of_mem_zip hx).1

/-- On a reliable machine nothing stops a copy once nothing speaks against it. -/
theorem copyWithin_of_no_fault {src dst : PageRange} {rights : MapRights}
    (hreliable : s.memory.machine.Reliable)
    (hfault : copyFault? s.memory s.table s.table src dst rights = none) :
    ∃ s', copyWithin src dst rights s = .ok () s' := by
  obtain ⟨hmapped, hgive⟩ := mapped_of_copyFault? hreliable hfault
  obtain ⟨s₁, hpopulate, hgive₁, hleaves⟩ := populateAll_of_canGive hmapped hgive
  rw [← hleaves.needed_eq] at hgive₁
  obtain ⟨s₂, hshare⟩ := sharePages_of_canGive rights
    (hgive₁.mono (needed_zip_le s₁.table dst.toList (backings s₁.table src.toList)))
  have hdone := bind_of_ok hshare fun _ =>
    modify fun t : Space => t.note .trace "mm" (copyText src dst)
  refine ⟨s₂.note .trace "mm" (copyText src dst), ?_⟩
  rw [copyWithin, bind_of_ok (x := get) (a := s) (t := s) rfl]
  simp only [hfault]
  exact bind_eq_ok_iff.mpr ⟨(), s₁, hpopulate, hdone⟩

theorem copyWithin_of_fault {src dst : PageRange} {rights : MapRights} {e : RegionError}
    (hfault : copyFault? s.memory s.table s.table src dst rights = some e) :
    copyWithin src dst rights s = .error e s := by
  rw [copyWithin, bind_of_ok (x := get) (a := s) (t := s) rfl]
  simp only [hfault]
  rfl

theorem atomic_copyWithin (hreliable : s.memory.machine.Reliable) (src dst : PageRange)
    (rights : MapRights) : Atomic (copyWithin src dst rights) s := by
  cases hfault : copyFault? s.memory s.table s.table src dst rights with
  | some e =>
      intro _ _ h
      rw [copyWithin_of_fault hfault] at h
      cases h
      rfl
  | none =>
      obtain ⟨s', hdone⟩ := copyWithin_of_no_fault hreliable hfault
      exact .of_ok hdone

end Space

namespace SpacePair

variable {s : SpacePair} {src dst : PageRange} {rights : MapRights}

theorem copyAcross_of_no_fault (hreliable : s.memory.machine.Reliable)
    (hfault : Space.copyFault? s.memory s.source s.target src dst rights = none) :
    ∃ s', copyAcross src dst rights s = .ok () s' := by
  obtain ⟨memory, source, target⟩ := s
  obtain ⟨hmapped, hgive⟩ := Space.mapped_of_copyFault? hreliable hfault
  obtain ⟨s₁, hpopulate, hgive₁, -⟩ :=
    Space.populateAll_of_canGive (s := ⟨memory, source⟩) hmapped hgive
  obtain ⟨s₂, hshare⟩ := Space.sharePages_of_canGive (s := ⟨s₁.memory, target⟩) rights
    (hgive₁.mono (Space.needed_zip_le target dst.toList (Space.backings s₁.table src.toList)))
  have hsource : onSource (Space.populateAll src.toList) ⟨memory, source, target⟩ =
      .ok () ⟨s₁.memory, s₁.table, target⟩ := by
    rw [onSource, hpopulate]
  have htarget : onTarget (Space.sharePages rights
      (dst.toList.zip (Space.backings s₁.table src.toList))) ⟨s₁.memory, s₁.table, target⟩ =
      .ok () ⟨s₂.memory, s₁.table, s₂.table⟩ := by
    rw [onTarget, hshare]
  have hdone := bind_of_ok htarget fun _ => modify fun t : SpacePair =>
    { t with memory := t.memory.note .trace "mm" (Space.copyText src dst) }
  refine ⟨⟨s₂.memory.note .trace "mm" (Space.copyText src dst), s₁.table, s₂.table⟩, ?_⟩
  rw [copyAcross, bind_of_ok (x := get) (a := ⟨memory, source, target⟩)
    (t := ⟨memory, source, target⟩) rfl]
  simp only [hfault]
  exact bind_eq_ok_iff.mpr ⟨(), _, hsource, hdone⟩

theorem copyAcross_of_fault {e : RegionError}
    (hfault : Space.copyFault? s.memory s.source s.target src dst rights = some e) :
    copyAcross src dst rights s = .error e s := by
  rw [copyAcross, bind_of_ok (x := get) (a := s) (t := s) rfl]
  simp only [hfault]
  rfl

theorem atomic_copyAcross (hreliable : s.memory.machine.Reliable) (src dst : PageRange)
    (rights : MapRights) : Atomic (copyAcross src dst rights) s := by
  cases hfault : Space.copyFault? s.memory s.source s.target src dst rights with
  | some e =>
      intro _ _ h
      rw [copyAcross_of_fault hfault] at h
      cases h
      rfl
  | none =>
      obtain ⟨s', hdone⟩ := copyAcross_of_no_fault hreliable hfault
      exact .of_ok hdone

end SpacePair

end Exokernel
