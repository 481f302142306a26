import Exokernel.Proofs.Region.Upkeep
import Exokernel.Proofs.Region.Views

/-! # What requests leave alone

A request on one address space changes bytes only in frames that it takes, and a frame that it takes
is mapped nowhere.  So it changes no byte that any other space can reach. -/

namespace Exokernel

/-- The addresses with bytes that a page table can reach: those of the frames that it maps, and
those outside RAM, where the device pages are. -/
def PageTable.Reaches (t : PageTable) (pool : FramePool) (pa : PhysAddr) : Prop :=
  (∃ p, t.backing? p = some (.frame pa)) ∨ pool.ramIndex? pa = none

/-- Two pools with the same addresses, and with the same bytes at those that a page table can
reach. -/
structure FramePool.SameReached (t : PageTable) (pool next : FramePool) : Prop where
  size_eq : next.ram.size = pool.ram.size
  frame_eq : ∀ pa, t.Reaches pool pa → next.frame? pa = pool.frame? pa

variable {stray : PhysAddr → Prop} {rest : List PageTable} {t : PageTable}
  {pool next last : FramePool}

namespace FramePool

theorem SameBytes.reached (h : pool.SameBytes next) (t : PageTable) : SameReached t pool next :=
  ⟨h.size_eq, fun pa _ => h.frame_eq pa⟩

theorem SameReached.refl (t : PageTable) (pool : FramePool) : SameReached t pool pool :=
  (SameBytes.refl pool).reached t

theorem SameReached.trans (h : SameReached t pool next) (h' : SameReached t next last) :
    SameReached t pool last := by
  refine ⟨h'.size_eq.trans h.size_eq, ?_⟩
  intro pa hpa
  have hnext : t.Reaches next pa := by
    refine hpa.imp_right fun hnone => ?_
    rwa [ramIndex?, h.size_eq]
  exact (h'.frame_eq pa hnext).trans (h.frame_eq pa hpa)

end FramePool

theorem Memory.Supplies.sameReached {m m' : Memory} {fill : Fill} {pa : PhysAddr}
    (h : m.Supplies fill pa m')
    (ht : ∀ p q, t.backing? p = some (.frame q) → m.machine.pool.isUsed q = true) :
    FramePool.SameReached t m.machine.pool m'.machine.pool := by
  refine ⟨h.size_eq, ?_⟩
  intro q hq
  apply h.frame?_other
  rintro rfl
  rcases hq with ⟨p, hp⟩ | hnone
  · have hused := ht p q hp
    rw [h.unused] at hused
    cases hused
  · have hram := h.inRam
    rw [hnone] at hram
    cases hram

theorem Balanced.sameReached_of_fresh? {m m' : Memory} {tables : List PageTable} {fill : Fill}
    {pa : PhysAddr} (h : Balanced stray m tables) (ht : t ∈ tables)
    (hfresh : m.fresh? fill = some (pa, m')) :
    FramePool.SameReached t m.machine.pool m'.machine.pool := by
  exact (Memory.supplies_of_fresh? h.ledger.consistent hfresh).sameReached
    fun _ _ hp => h.isUsed_of_backing ht hp

namespace Space

/-- The space is in balance with the other ones, and what `t` can reach is as in the pool. -/
structure Shelters (stray : PhysAddr → Prop) (rest : List PageTable) (t : PageTable)
    (pool : FramePool) (s : Space) : Prop where
  balanced : InBalance stray rest s
  reached : FramePool.SameReached t pool s.pool

theorem shelters_populate (ht : t ∈ rest) (p : VirtPage) :
    Keeps (Shelters stray rest t pool) (populate p) := by
  intro s h
  refine ⟨inBalance_populate p s h.balanced, ?_⟩
  rcases populate_cases p s with heq | ⟨fill, flags, pa, memory, text, -, hfresh, heq⟩
  · rw [heq]
    exact h.reached
  · have htaken := h.balanced.sameReached_of_fresh? (List.mem_cons_of_mem _ ht) hfresh
    rw [heq]
    exact h.reached.trans htaken

theorem shelters_allocatePage (ht : t ∈ rest) (req : AllocRequest) (p : VirtPage) :
    Keeps (Shelters stray rest t pool) (allocatePage req p) := by
  intro s h
  refine ⟨inBalance_allocatePage req p s h.balanced, ?_⟩
  obtain ⟨memory, table⟩ := s
  have hbalanced := h.balanced
  have hreached := h.reached
  simp only [allocatePage]
  split
  · exact hreached.trans ((sameBytes_place p _ _).reached t)
  · split
    · exact hreached
    · next pa memory' hfresh =>
      have htaken := hbalanced.sameReached_of_fresh? (List.mem_cons_of_mem _ ht) hfresh
      have hplaced := sameBytes_place p ⟨.frame pa, req.rights.flags⟩ ⟨memory', table⟩
      exact (hreached.trans htaken).trans (hplaced.reached t)

theorem shelters_placeDevice (p : VirtPage) (pa : PhysAddr) (flags : PageFlags) :
    Keeps (Shelters stray rest t pool) (place p ⟨.device pa, flags⟩) := by
  intro s h
  exact ⟨inBalance_placeDevice p pa flags s h.balanced,
    h.reached.trans ((sameBytes_place p _ s).reached t)⟩

theorem shelters_unmapPage (s : Space) (p : VirtPage) (h : Shelters stray rest t pool s) :
    Shelters stray rest t pool (s.unmapPage p) :=
  ⟨inBalance_unmapPage h.balanced p, h.reached.trans ((sameBytes_unmapPage s p).reached t)⟩

theorem Shelters.note {s : Space} (h : Shelters stray rest t pool s) (level : LogLevel)
    (target text : String) : Shelters stray rest t pool (s.note level target text) :=
  ⟨h.balanced.note level target text, h.reached⟩

theorem sameReached_populateAll {s : Space} (h : InBalance stray rest s) (ht : t ∈ rest)
    (pages : List VirtPage) :
    FramePool.SameReached t s.pool (stateOf (populateAll pages s)).pool := by
  have hshelters : Shelters stray rest t s.pool (stateOf (populateAll pages s)) :=
    keeps_populateAll (fun p _ => shelters_populate ht p) s ⟨h, .refl _ _⟩
  exact hshelters.reached

theorem sameReached_copyWithin {s : Space} (h : InBalance stray rest s) (ht : t ∈ rest)
    (src dst : PageRange) (rights : MapRights) :
    FramePool.SameReached t s.pool (stateOf (copyWithin src dst rights s)).pool := by
  have hpopulated := sameReached_populateAll h ht src.toList
  apply stateOf_copyWithin (I := fun u => FramePool.SameReached t s.pool u.pool)
  · exact .refl _ _
  · exact fun _ => hpopulated
  · intro s₁ hpopulate _
    rw [hpopulate] at hpopulated
    exact hpopulated.trans ((sameBytes_sharePages _ _ s₁).reached t)
  · exact fun _ _ hu => hu

end Space

/-- Copying from one space to another; `t` may be the table of the target. -/
theorem SpacePair.sameReached_copyAcross {s : SpacePair} (h : InBalance stray rest s)
    (ht : t ∈ s.target :: rest) (src dst : PageRange) (rights : MapRights) :
    FramePool.SameReached t s.memory.machine.pool
      (stateOf (copyAcross src dst rights s)).memory.machine.pool := by
  have hpopulated := Space.sameReached_populateAll (s := ⟨s.memory, s.source⟩) h ht src.toList
  apply stateOf_copyAcross
    (I := fun u => FramePool.SameReached t s.memory.machine.pool u.memory.machine.pool)
  · exact .refl _ _
  · rintro - u rfl
    exact hpopulated
  · rintro s₁ hpopulate - u rfl
    rw [hpopulate] at hpopulated
    exact hpopulated.trans ((Space.sameBytes_sharePages _ _ ⟨s₁.memory, s.target⟩).reached t)
  · exact fun _ _ hu => hu

/-! ## One page for another space -/

namespace SpacePair

variable {src dst : VirtPage} {rights : MapRights} {s s' : SpacePair}

theorem lookup_target_copyAcross_one (s : SpacePair) {q : VirtPage} (hq : dst ≠ q) :
    (stateOf (copyAcross (.one src) (.one dst) rights s)).target.lookup q = s.target.lookup q := by
  apply stateOf_copyAcross (I := fun u => u.target.lookup q = s.target.lookup q)
  · rfl
  · exact fun _ _ _ => rfl
  · rintro s₁ - - u rfl
    apply Space.lookup_sharePages_of_not_mem
    intro hmem
    obtain ⟨x, hx, rfl⟩ := List.mem_map.mp hmem
    have htarget := (List.of_mem_zip hx).1
    rw [PageRange.toList_one, List.mem_singleton] at htarget
    exact hq htarget.symm
  · exact fun _ _ hu => hu

theorem target_of_copyAcross_one_error {e : RegionError}
    (h : copyAcross (.one src) (.one dst) rights s = .error e s') : s'.target = s.target := by
  rw [copyAcross] at h
  rw [bind_of_ok (x := get) (a := s) (t := s) rfl] at h
  cases hfault : Space.copyFault? s.memory s.source s.target (.one src) (.one dst) rights with
  | some e' =>
      simp only [hfault] at h
      cases h
      rfl
  | none =>
  simp only [hfault] at h
  have hsource : (stateOf (onSource (Space.populateAll (PageRange.one src).toList) s)).target =
      s.target := by
    rw [stateOf_onSource]
  rcases bind_eq_error_iff.mp h with hstop | ⟨_, s₁, hpopulate, hshare⟩
  · rw [hstop] at hsource
    exact hsource
  · rw [hpopulate] at hsource
    rw [bind_of_ok (x := get) (a := s₁) (t := s₁) rfl] at hshare
    rcases bind_eq_error_iff.mp hshare with hstop | ⟨_, s₂, -, hnote⟩
    · obtain ⟨memory, source, target⟩ := s₁
      simp only [onTarget] at hstop
      split at hstop
      · cases hstop
      · next hone =>
        cases hstop
        refine (Space.table_of_sharePages_error ?_ hone).trans hsource
        rw [PageRange.toList_one, List.length_zip]
        exact Nat.min_le_left _ _
    · cases hnote

end SpacePair

end Exokernel
