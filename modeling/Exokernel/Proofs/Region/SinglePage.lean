import Exokernel.Proofs.Region.Provenance
import Exokernel.Proofs.Region.Reservations

/-! # Sharing one page

When one page is shared, the source page is given a frame if it has none, and the target page is
mapped to what backs it then.  All other entries stay as they are, and the only bytes that change
are those of a frame that was taken. -/

namespace Exokernel

/-- A page is mapped to something else, with the flags that it had. -/
def PageTable.rebase (t : PageTable) (p : VirtPage) (b : Backing) : PageTable :=
  t.modify p fun e => { e with backing := b }

@[simp] theorem PageTable.lookup_rebase (t : PageTable) (p q : VirtPage) (b : Backing) :
    (t.rebase p b).lookup q =
      if p = q then (t.lookup q).map fun e => { e with backing := b } else t.lookup q :=
  lookup_modify _ _ _ _

/-- How what backs a page comes about: a frame or a device page stays what it is, and all bytes
stay; or a frame that was free is filled, and all other bytes stay. -/
inductive Backing.Becomes (before after : FramePool) : Backing → Backing → Prop where
  | frame (pa) (same : before.SameBytes after) : Becomes before after (.frame pa) (.frame pa)
  | device (pa) (same : before.SameBytes after) : Becomes before after (.device pa) (.device pa)
  | filled {fill pa} (unused : before.isUsed pa = false)
      (self : after.frame? pa = some (Vector.replicate pageSize fill.byte))
      (others : ∀ q, q ≠ pa → after.frame? q = before.frame? q) :
      Becomes before after (.lazy fill) (.frame pa)

theorem Backing.Becomes.of_sameBytes {before after next : FramePool} {b b' : Backing}
    (h : b.Becomes before after b') (hbytes : after.SameBytes next) : b.Becomes before next b' := by
  cases h with
  | frame pa same => exact .frame pa (same.trans hbytes)
  | device pa same => exact .device pa (same.trans hbytes)
  | filled unused self others =>
      exact .filled unused ((hbytes.frame_eq _).trans self)
        fun q hq => (hbytes.frame_eq q).trans (others q hq)

namespace Space

variable {s s' : Space} {src dst p : VirtPage} {rights : MapRights} {pa : PhysAddr}

/-! ## The source page -/

theorem populate_eq_ok (h : populate p s = .ok pa s') :
    ∃ o b, s.table.lookup p = some o ∧ b.isLazy = false ∧
      (∀ q, s'.table.lookup q = (s.table.rebase p b).lookup q) ∧
      (s.pool.Consistent → o.backing.Becomes s.pool s'.pool b) := by
  have hsame : ∀ {t : PageTable} {b flags}, t.lookup p = some ⟨b, flags⟩ →
      ∀ q, t.lookup q = (t.rebase p b).lookup q := by
    intro t b flags hp q
    rw [PageTable.lookup_rebase]
    split
    · next hq =>
      subst hq
      rw [hp]
      rfl
    · rfl
  obtain ⟨memory, table⟩ := s
  simp only [populate] at h
  split at h
  · cases h
  · next hlookup =>
    cases h
    exact ⟨_, _, hlookup, rfl, hsame hlookup, fun _ => .frame _ (.refl _)⟩
  · next hlookup =>
    cases h
    exact ⟨_, _, hlookup, rfl, hsame hlookup, fun _ => .device _ (.refl _)⟩
  · next fill flags hlookup =>
    split at h
    · cases h
    · next pa' memory' hfresh =>
      cases h
      refine ⟨_, .frame pa, hlookup, rfl, fun _ => rfl, fun hpool => ?_⟩
      have htaken := Memory.supplies_of_fresh? hpool hfresh
      refine .filled htaken.unused ?_ htaken.frame?_other
      rw [← fill.frame_eq_replicate]
      exact htaken.frame?_self

theorem populateAll_one_eq_ok (h : populateAll [p] s = .ok () s') :
    ∃ pa, populate p s = .ok pa s' := by
  obtain ⟨pa, _, hpage, hrest⟩ := bind_eq_ok_iff.mp h
  cases hrest
  exact ⟨pa, hpage⟩

/-! ## The target page -/

/-- The page `p` of a table is mapped to `b`, and no other entry is changed. -/
def MapsAt (rights : MapRights) (p : VirtPage) (b : Backing) (t t' : PageTable) : Prop :=
  ∀ q, t'.lookup q = if p = q then some ⟨b, sharedFlags rights (t.lookup p) b⟩ else t.lookup q

theorem sharePages_one_eq_ok {b : Backing} (h : sharePages rights [(p, b)] s = .ok () s') :
    MapsAt rights p b s.table s'.table ∧ s.pool.SameBytes s'.pool := by
  obtain ⟨_, t, hpage, hrest⟩ := bind_eq_ok_iff.mp h
  cases hrest
  have hbytes := sameBytes_sharePage rights p b s
  rw [show sharePage rights p b s = .ok () s' from hpage] at hbytes
  exact ⟨lookup_of_sharePage hpage, hbytes⟩

theorem backings_one {t : PageTable} {b : Backing} (h : t.backing? p = some b) :
    backings t [p] = [b] :=
  List.filterMap_cons_some h

/-! ## Within one space and between two -/

/-- What sharing a page within one space comes to. -/
theorem copyWithin_one_eq_ok (h : copyWithin (.one src) (.one dst) rights s = .ok () s') :
    ∃ o b, s.table.lookup src = some o ∧ b.isLazy = false ∧
      MapsAt rights dst b (s.table.rebase src b) s'.table ∧
      (s.pool.Consistent → o.backing.Becomes s.pool s'.pool b) := by
  obtain ⟨-, s₁, s₂, hpopulate, hshare, rfl⟩ := copyWithin_eq_ok h
  rw [PageRange.toList_one] at hpopulate hshare
  rw [PageRange.toList_one] at hshare
  obtain ⟨pa, hpage⟩ := populateAll_one_eq_ok hpopulate
  obtain ⟨o, b, ho, hlazy, hlookup, hbecomes⟩ := populate_eq_ok hpage
  have hback : s₁.table.backing? src = some b := by
    rw [PageTable.backing?, hlookup, PageTable.lookup_rebase, if_pos rfl, ho]
    rfl
  rw [backings_one hback] at hshare
  obtain ⟨hmaps, hbytes⟩ := sharePages_one_eq_ok hshare
  refine ⟨o, b, ho, hlazy, ?_, fun hpool => (hbecomes hpool).of_sameBytes hbytes⟩
  intro q
  rw [← hlookup, ← hlookup]
  exact hmaps q

theorem copyFault?_one (memory : Memory) (source target : PageTable) (src dst : VirtPage)
    (rights : MapRights) : copyFault? memory source target (.one src) (.one dst) rights =
      match sourceFault? source rights src with
      | some e => some e
      | none =>
        if memory.machine.freeFrames < (if (source.lookup src).any (·.backing.isLazy) then 1 else 0) +
            (if (target.leaf? dst.leaf).isNone then 1 else 0) then some .noMemory
        else none := by
  have hlazy : lazyPages source [src] =
      if (source.lookup src).any (·.backing.isLazy) then 1 else 0 := by
    rw [lazyPages, List.countP_singleton]
  have hleaf : target.missingTables (.one dst) =
      if (target.leaf? dst.leaf).isNone then 1 else 0 := by
    rw [← PageTable.needed_toList, PageRange.toList_one, PageTable.needed, PageTable.missingLeaves]
    simp only [List.map_cons, List.map_nil, List.toFinset_cons, List.toFinset_nil, insert_empty_eq,
      Finset.filter_singleton]
    split <;> rfl
  rw [copyFault?, if_neg (by simp [PageRange.one]), PageRange.toList_one, hlazy, hleaf]
  simp only [List.findSome?_cons, List.findSome?_nil]
  cases sourceFault? source rights src <;> rfl

end Space

namespace SpacePair

variable {s s' : SpacePair} {rights : MapRights}

theorem copyAcross_eq_ok {src dst : PageRange} (h : copyAcross src dst rights s = .ok () s') :
    ∃ s₁ s₂, Space.populateAll src.toList ⟨s.memory, s.source⟩ = .ok () s₁ ∧
      Space.sharePages rights (dst.toList.zip (Space.backings s₁.table src.toList))
        ⟨s₁.memory, s.target⟩ = .ok () s₂ ∧
      s' = ⟨s₂.memory.note .trace "mm" (Space.copyText src dst), s₁.table, s₂.table⟩ := by
  obtain ⟨memory, source, target⟩ := s
  obtain ⟨_, _, hget, h⟩ := bind_eq_ok_iff.mp h
  cases hget
  cases hfault : Space.copyFault? memory source target src dst rights with
  | some e =>
      simp only [hfault] at h
      cases h
  | none =>
      simp only [hfault] at h
      obtain ⟨_, u, hsource, h⟩ := bind_eq_ok_iff.mp h
      obtain ⟨_, _, hget, h⟩ := bind_eq_ok_iff.mp h
      cases hget
      obtain ⟨_, v, htarget, h⟩ := bind_eq_ok_iff.mp h
      cases h
      simp only [onSource] at hsource
      split at hsource
      · next s₁ hpopulate =>
        cases hsource
        simp only [onTarget] at htarget
        split at htarget
        · next s₂ hshare =>
          cases htarget
          exact ⟨_, _, hpopulate, hshare, rfl⟩
        · cases htarget
      · cases hsource

theorem copyAcross_one_eq_ok {src dst : VirtPage}
    (h : copyAcross (.one src) (.one dst) rights s = .ok () s') :
    ∃ o b, s.source.lookup src = some o ∧ b.isLazy = false ∧
      (∀ q, s'.source.lookup q = (s.source.rebase src b).lookup q) ∧
      Space.MapsAt rights dst b s.target s'.target ∧
      (s.memory.machine.pool.Consistent →
        o.backing.Becomes s.memory.machine.pool s'.memory.machine.pool b) := by
  obtain ⟨s₁, s₂, hpopulate, hshare, rfl⟩ := copyAcross_eq_ok h
  rw [PageRange.toList_one] at hpopulate hshare
  rw [PageRange.toList_one] at hshare
  obtain ⟨pa, hpage⟩ := Space.populateAll_one_eq_ok hpopulate
  obtain ⟨o, b, ho, hlazy, hlookup, hbecomes⟩ := Space.populate_eq_ok hpage
  have hback : s₁.table.backing? src = some b := by
    rw [PageTable.backing?, hlookup, PageTable.lookup_rebase, if_pos rfl]
    exact congrArg _ (congrArg _ ho)
  rw [Space.backings_one hback] at hshare
  obtain ⟨hmaps, hbytes⟩ := Space.sharePages_one_eq_ok hshare
  exact ⟨o, b, ho, hlazy, hlookup, hmaps, fun hpool => (hbecomes hpool).of_sameBytes hbytes⟩

end SpacePair

end Exokernel
