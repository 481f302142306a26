import Exokernel.Proofs.Mapping.Census
import Exokernel.Proofs.Region.Loops

/-! # What the steps on one page change

Each step is described by the entries of the table after it and by the bytes of the frames.  Only
taking a fresh frame and writing to memory change bytes; placing an entry and taking one away hand
frames out for leaf tables and take frames back, and leave all bytes as they are. -/

namespace Exokernel

/-! ## Bytes -/

theorem Machine.sameBytes_free (m : Machine) (pa : PhysAddr) :
    m.pool.SameBytes (m.free pa).pool := by
  rw [free]
  split
  · next hrelease => exact FramePool.sameBytes_of_release? hrelease
  · exact FramePool.SameBytes.refl _

theorem Machine.isUsed_of_free {m : Machine} {pa q : PhysAddr}
    (h : (m.free pa).pool.isUsed q = true) : m.pool.isUsed q = true := by
  rw [free] at h
  split at h
  · next hrelease => exact FramePool.isUsed_of_release? hrelease h
  · exact h

theorem Memory.sameBytes_release (m : Memory) (b : Backing) :
    m.machine.pool.SameBytes (m.release b).machine.pool := by
  unfold release
  split
  · split
    · exact FramePool.SameBytes.refl _
    · exact Machine.sameBytes_free _ _
    · exact FramePool.SameBytes.refl _
  · exact FramePool.SameBytes.refl _

theorem Memory.isUsed_of_release {m : Memory} {b : Backing} {q : PhysAddr}
    (h : (m.release b).machine.pool.isUsed q = true) : m.machine.pool.isUsed q = true := by
  unfold release at h
  split at h
  · split at h
    · exact h
    · exact Machine.isUsed_of_free h
    · exact h
  · exact h

@[simp] theorem Memory.machine_retain (m : Memory) (b : Backing) :
    (m.retain b).machine = m.machine := by
  cases b <;> rfl

theorem PageTable.sameBytes_insert {t t' : PageTable} {m m' : Machine} {p : VirtPage}
    {e : PageEntry} {old : Option PageEntry} (h : t.insert m p e = some (old, t', m')) :
    m.pool.SameBytes m'.pool := by
  rcases leafFrames_insert h with ⟨rfl, -⟩ | ⟨frame, halloc, -⟩
  · exact FramePool.SameBytes.refl _
  · exact FramePool.sameBytes_of_alloc? (Machine.pool_of_alloc? halloc)

theorem PageTable.sameBytes_remove (t : PageTable) (m : Machine) (p : VirtPage) :
    m.pool.SameBytes (t.remove m p).2.2.pool := by
  rcases leafFrames_remove t m p with ⟨hmachine, -⟩ | ⟨frame, hmachine, -⟩
  · rw [hmachine]
    exact FramePool.SameBytes.refl _
  · rw [hmachine]
    exact Machine.sameBytes_free _ _

/-- What taking a fresh frame does: a frame of RAM that was not handed out holds the fill pattern
and is counted once.  No other bytes are changed. -/
structure Memory.Supplies (m : Memory) (fill : Fill) (pa : PhysAddr) (m' : Memory) : Prop where
  consistent : m'.machine.pool.Consistent
  unused : m.machine.pool.isUsed pa = false
  isUsed_eq : ∀ q, m'.machine.pool.isUsed q = (decide (q = pa) || m.machine.pool.isUsed q)
  refs_eq : m'.refs = m.refs.set pa 1
  inRam : (m.machine.pool.ramIndex? pa).isSome = true
  size_eq : m'.machine.pool.ram.size = m.machine.pool.ram.size
  frame?_self : m'.machine.pool.frame? pa = some fill.frame
  frame?_other : ∀ q, q ≠ pa → m'.machine.pool.frame? q = m.machine.pool.frame? q

theorem Memory.supplies_of_fresh? {m m' : Memory} {fill : Fill} {pa : PhysAddr}
    (hpool : m.machine.pool.Consistent) (h : m.fresh? fill = some (pa, m')) :
    m.Supplies fill pa m' := by
  obtain ⟨machine, halloc, rfl⟩ := fresh?_eq_some h
  have hpoolAlloc := Machine.pool_of_alloc? halloc
  have hgrant := hpool.grants hpoolAlloc
  have hsame := FramePool.sameBytes_of_alloc? hpoolAlloc
  obtain ⟨index, bound, rfl, -⟩ := hgrant.free_eq
  have hindex : machine.pool.ramIndex? (FramePool.ramAddr index) = some index := by
    rw [hsame.ramIndex?_eq, FramePool.ramIndex?_ramAddr, if_pos bound]
  have hbytes := FramePool.frame?_update_ram hindex fun _ => fill.frame
  refine ⟨hgrant.consistent.update _ fun _ => fill.frame, hgrant.unused, ?_, rfl, ?_,
    (FramePool.size_ram_update _ _ _).trans hsame.size_eq, ?_, ?_⟩
  · intro q
    rw [← hgrant.isUsed_eq]
    exact FramePool.isUsed_update _ _ _ _
  · rw [← hsame.ramIndex?_eq, hindex]
    rfl
  · have bound' := (FramePool.ramAddr_of_ramIndex? hindex).2
    refine (hbytes _).trans ?_
    simp [FramePool.frame?, bound']
  · intro q hq
    refine (hbytes q).trans ?_
    rw [if_neg hq]
    exact hsame.frame_eq q

namespace Space

/-- The pool of the machine that a space lives on. -/
abbrev pool (s : Space) : FramePool := s.memory.machine.pool

/-! ## Placing an entry -/

/-- An entry in place has taken the frame of its leaf table and has released what it replaced. -/
theorem place_eq_ok {p : VirtPage} {e : PageEntry} {s s' : Space} (h : place p e s = .ok () s') :
    ∃ old machine, s.table.insert s.memory.machine p e = some (old, s'.table, machine) ∧
      (s'.memory = ⟨machine, s.memory.refs⟩ ∨
        ∃ b, s'.memory = Memory.release ⟨machine, s.memory.refs⟩ b) := by
  obtain ⟨⟨machine, refs⟩, table⟩ := s
  simp only [place] at h
  split at h
  · next hinsert =>
    cases h
    exact ⟨_, _, hinsert, Or.inl rfl⟩
  · next old _ _ hinsert =>
    cases h
    exact ⟨_, _, hinsert, Or.inr ⟨old.backing, rfl⟩⟩
  · cases h

theorem place_eq_error {p : VirtPage} {e : PageEntry} {s s' : Space} {x : RegionError}
    (h : place p e s = .error x s') :
    s' = ⟨s.memory.release e.backing, s.table⟩ ∧ x = .noMemory := by
  obtain ⟨⟨machine, refs⟩, table⟩ := s
  simp only [place] at h
  split at h
  · cases h
  · cases h
  · cases h
    exact ⟨rfl, rfl⟩

theorem lookup_of_place {p : VirtPage} {e : PageEntry} {s s' : Space}
    (h : place p e s = .ok () s') (q : VirtPage) :
    s'.table.lookup q = if p = q then some e else s.table.lookup q := by
  obtain ⟨old, machine, hinsert, -⟩ := place_eq_ok h
  exact PageTable.lookup_insert hinsert q

theorem sameBytes_place (p : VirtPage) (e : PageEntry) (s : Space) :
    s.pool.SameBytes (stateOf (place p e s)).pool := by
  cases h : place p e s with
  | ok _ s' =>
      obtain ⟨old, machine, hinsert, hmemory⟩ := place_eq_ok h
      have hinserted := PageTable.sameBytes_insert hinsert
      change s.pool.SameBytes s'.memory.machine.pool
      rcases hmemory with hmemory | ⟨b, hmemory⟩
      · rw [hmemory]
        exact hinserted
      · rw [hmemory]
        exact hinserted.trans (Memory.sameBytes_release ⟨machine, s.memory.refs⟩ b)
  | error x s' =>
      rw [(place_eq_error h).1]
      exact Memory.sameBytes_release _ _

/-! ## Sharing a page -/

theorem sharePage_eq_place (rights : MapRights) (p : VirtPage) (b : Backing) (s : Space) :
    sharePage rights p b s =
      place p ⟨b, sharedFlags rights (s.table.lookup p) b⟩ ⟨s.memory.retain b, s.table⟩ := rfl

theorem lookup_of_sharePage {rights : MapRights} {p : VirtPage} {b : Backing} {s s' : Space}
    (h : sharePage rights p b s = .ok () s') (q : VirtPage) :
    s'.table.lookup q =
      if p = q then some ⟨b, sharedFlags rights (s.table.lookup p) b⟩ else s.table.lookup q := by
  rw [sharePage_eq_place] at h
  exact lookup_of_place h q

theorem table_of_sharePage_error {rights : MapRights} {p : VirtPage} {b : Backing} {s s' : Space}
    {x : RegionError} (h : sharePage rights p b s = .error x s') : s'.table = s.table := by
  rw [sharePage_eq_place] at h
  rw [(place_eq_error h).1]

theorem sameBytes_sharePage (rights : MapRights) (p : VirtPage) (b : Backing) (s : Space) :
    s.pool.SameBytes (stateOf (sharePage rights p b s)).pool := by
  rw [sharePage_eq_place]
  have hplace := sameBytes_place p ⟨b, sharedFlags rights (s.table.lookup p) b⟩
    ⟨s.memory.retain b, s.table⟩
  rwa [pool, Memory.machine_retain] at hplace

theorem lookup_sharePages_of_not_mem {rights : MapRights} {pages : List (VirtPage × Backing)}
    {q : VirtPage} (hq : q ∉ pages.map Prod.fst) (s : Space) :
    (stateOf (sharePages rights pages s)).table.lookup q = s.table.lookup q := by
  refine keeps_sharePages (I := fun u => u.table.lookup q = s.table.lookup q) ?_ s rfl
  intro x hx u hu
  have hne : x.1 ≠ q := by
    rintro rfl
    exact hq (List.mem_map_of_mem hx)
  cases hshare : sharePage rights x.1 x.2 u with
  | ok _ v => exact ((lookup_of_sharePage hshare q).trans (if_neg hne)).trans hu
  | error e v =>
      rw [stateOf_error, table_of_sharePage_error hshare]
      exact hu

theorem table_of_sharePages_error {rights : MapRights} {pages : List (VirtPage × Backing)}
    {s s' : Space} {x : RegionError} (hlength : pages.length ≤ 1)
    (h : sharePages rights pages s = .error x s') : s'.table = s.table := by
  match pages, hlength with
  | [], _ => cases h
  | [page], _ =>
      rcases bind_eq_error_iff.mp h with hshare | ⟨_, t, -, hrest⟩
      · exact table_of_sharePage_error hshare
      · cases hrest

theorem sameBytes_sharePages (rights : MapRights) (pages : List (VirtPage × Backing)) (s : Space) :
    s.pool.SameBytes (stateOf (sharePages rights pages s)).pool :=
  keeps_sharePages (I := fun u => s.pool.SameBytes u.pool)
    (fun x _ u h => h.trans (sameBytes_sharePage rights x.1 x.2 u)) s (.refl _)

theorem sameBytes_unmapPage (s : Space) (p : VirtPage) : s.pool.SameBytes (s.unmapPage p).pool := by
  obtain ⟨⟨machine, refs⟩, table⟩ := s
  have hremove := PageTable.sameBytes_remove table machine p
  simp only [unmapPage]
  split
  · next heq =>
    rw [heq] at hremove
    exact hremove
  · next old _ machine' heq =>
    rw [heq] at hremove
    exact hremove.trans (Memory.sameBytes_release ⟨machine', refs⟩ old.backing)

theorem sameBytes_unmapAll (s : Space) : s.pool.SameBytes s.unmapAll.pool := by
  have hpage : ∀ (u : Space) p, s.pool.SameBytes u.pool → s.pool.SameBytes (u.unmapPage p).pool :=
    fun u p h => h.trans (sameBytes_unmapPage u p)
  rw [unmapAll]
  apply keeps_foldl_unmapPage (I := fun u => s.pool.SameBytes u.pool) hpage
  exact .refl _

end Space

/-! ## Giving pages their frames -/

namespace Memory

/-- A run that takes fresh frames, writes bytes and logs, and gives nothing back. -/
inductive Draws : Memory → Memory → Prop where
  | refl (m) : Draws m m
  | fresh {m m₁ m₂ fill pa} : Draws m m₁ → m₁.fresh? fill = some (pa, m₂) → Draws m m₂
  | write {m m₁} (pa f) : Draws m m₁ → Draws m ⟨m₁.machine.update pa f, m₁.refs⟩
  | note {m m₁} (level target text) : Draws m m₁ → Draws m (m₁.note level target text)

/-- In the run from one memory to another a frame was taken and filled. -/
def Drawn (m m' : Memory) (fill : Fill) (pa : PhysAddr) : Prop :=
  ∃ m₁ m₂, Draws m m₁ ∧ m₁.fresh? fill = some (pa, m₂) ∧ Draws m₂ m'

theorem Draws.trans {m m₁ m₂ : Memory} (h : Draws m m₁) (h' : Draws m₁ m₂) : Draws m m₂ := by
  induction h' with
  | refl => exact h
  | fresh _ hfresh ih => exact ih.fresh hfresh
  | write pa f _ ih => exact ih.write pa f
  | note level target text _ ih => exact ih.note level target text

theorem Drawn.extend {m m₁ m₂ : Memory} {fill : Fill} {pa : PhysAddr} (h : Drawn m m₁ fill pa)
    (h' : Draws m₁ m₂) : Drawn m m₂ fill pa := by
  obtain ⟨a, b, hbefore, hfresh, hafter⟩ := h
  exact ⟨a, b, hbefore, hfresh, hafter.trans h'⟩

theorem Drawn.shift {m₀ m m₁ : Memory} {fill : Fill} {pa : PhysAddr} (h : Draws m₀ m)
    (h' : Drawn m m₁ fill pa) : Drawn m₀ m₁ fill pa := by
  obtain ⟨a, b, hbefore, hfresh, hafter⟩ := h'
  exact ⟨a, b, h.trans hbefore, hfresh, hafter⟩

/-- Such a run keeps the pool consistent, and what was handed out stays so. -/
theorem Draws.isUsed {m m' : Memory} (h : Draws m m') (hpool : m.machine.pool.Consistent) :
    m'.machine.pool.Consistent ∧
      ∀ q, m.machine.pool.isUsed q = true → m'.machine.pool.isUsed q = true := by
  induction h with
  | refl => exact ⟨hpool, fun _ hq => hq⟩
  | fresh _ hfresh ih =>
      obtain ⟨hconsistent, hused⟩ := ih
      obtain ⟨machine, halloc, rfl⟩ := fresh?_eq_some hfresh
      have hgrant := hconsistent.grants (Machine.pool_of_alloc? halloc)
      constructor
      · exact hgrant.consistent.update _ fun _ => Fill.frame _
      · intro q hq
        refine (FramePool.isUsed_update _ _ _ _).trans ?_
        rw [hgrant.isUsed_eq, hused q hq, Bool.or_true]
  | write pa f _ ih =>
      obtain ⟨hconsistent, hused⟩ := ih
      exact ⟨hconsistent.update pa f,
        fun q hq => (FramePool.isUsed_update _ _ _ _).trans (hused q hq)⟩
  | note _ _ _ _ ih => exact ih

/-- A frame that was taken in a run was handed out to nobody before it. -/
theorem Drawn.unused {m m' : Memory} {fill : Fill} {pa : PhysAddr}
    (hpool : m.machine.pool.Consistent) (h : Drawn m m' fill pa) :
    m.machine.pool.isUsed pa = false := by
  obtain ⟨m₁, m₂, hbefore, hfresh, -⟩ := h
  obtain ⟨hconsistent, hused⟩ := hbefore.isUsed hpool
  obtain ⟨machine, halloc, -⟩ := fresh?_eq_some hfresh
  have hunused := (hconsistent.grants (Machine.pool_of_alloc? halloc)).unused
  by_contra hnot
  rw [hused pa (Bool.not_eq_false _ ▸ hnot)] at hunused
  cases hunused

end Memory

namespace Space

/-- A later state of a space in which some pages that had no frame have one. -/
structure Populated (s s' : Space) : Prop where
  draws : Memory.Draws s.memory s'.memory
  lookup_or : ∀ q, s'.table.lookup q = s.table.lookup q ∨ ∃ fill flags pa,
    s.table.lookup q = some ⟨.lazy fill, flags⟩ ∧ s'.table.lookup q = some ⟨.frame pa, flags⟩ ∧
      Memory.Drawn s.memory s'.memory fill pa

theorem Populated.refl (s : Space) : Populated s s := ⟨.refl _, fun _ => Or.inl rfl⟩

theorem Populated.trans {s s₁ s₂ : Space} (h : Populated s s₁) (h' : Populated s₁ s₂) :
    Populated s s₂ := by
  refine ⟨h.draws.trans h'.draws, ?_⟩
  intro q
  rcases h.lookup_or q with hsame | ⟨fill, flags, pa, hbefore, hframe, hdrawn⟩
  · rw [← hsame]
    exact (h'.lookup_or q).imp_right fun ⟨fill, flags, pa, hbefore, hframe, hdrawn⟩ =>
      ⟨fill, flags, pa, hbefore, hframe, hdrawn.shift h.draws⟩
  · rcases h'.lookup_or q with hsame | ⟨_, _, _, hlazy, -, -⟩
    · exact Or.inr ⟨fill, flags, pa, hbefore, hsame.trans hframe, hdrawn.extend h'.draws⟩
    · rw [hframe] at hlazy
      cases hlazy

/-- Populating a page changes nothing, or the page had no frame and takes a fresh one. -/
theorem populate_cases (p : VirtPage) (s : Space) :
    stateOf (populate p s) = s ∨ ∃ fill flags pa memory text,
      s.table.lookup p = some ⟨.lazy fill, flags⟩ ∧ s.memory.fresh? fill = some (pa, memory) ∧
        populate p s = .ok pa ⟨memory.note .trace "mm" text,
          s.table.modify p fun e => { e with backing := .frame pa }⟩ := by
  obtain ⟨memory, table⟩ := s
  simp only [populate]
  split
  · exact Or.inl rfl
  · exact Or.inl rfl
  · exact Or.inl rfl
  · next fill flags hlookup =>
    split
    · exact Or.inl rfl
    · next pa memory' hfresh => exact Or.inr ⟨fill, flags, pa, memory', _, hlookup, hfresh, rfl⟩

theorem populated_populate (s₀ : Space) (p : VirtPage) : Keeps (Populated s₀) (populate p) := by
  intro s h
  rcases populate_cases p s with heq | ⟨fill, flags, pa, memory, text, hlazy, hfresh, heq⟩
  · rw [heq]
    exact h
  · have hdraws : Memory.Draws s.memory (memory.note .trace "mm" text) :=
      ((Memory.Draws.refl _).fresh hfresh).note _ _ _
    have hdrawn : Memory.Drawn s.memory (memory.note .trace "mm" text) fill pa :=
      ⟨_, _, .refl _, hfresh, (Memory.Draws.refl _).note _ _ _⟩
    rw [heq]
    refine h.trans ⟨hdraws, ?_⟩
    intro q
    simp only [stateOf_ok, PageTable.lookup_modify]
    split
    · next hq =>
      subst hq
      exact Or.inr ⟨fill, flags, pa, hlazy, by rw [hlazy]; rfl, hdrawn⟩
    · exact Or.inl rfl

theorem populated_updateBytes {s₀ s : Space} (h : Populated s₀ s) (pa : PhysAddr)
    (f : Frame → Frame) : Populated s₀ (s.updateBytes pa f) :=
  h.trans ⟨(Memory.Draws.refl _).write pa f, fun _ => Or.inl rfl⟩

theorem Populated.backing?_eq {s s' : Space} (h : Populated s s') {q : VirtPage} {b : Backing}
    (hb : s.table.backing? q = some b) (hlazy : b.isLazy = false) :
    s'.table.backing? q = some b := by
  rcases h.lookup_or q with hsame | ⟨fill, flags, pa, hbefore, -, -⟩
  · rw [PageTable.backing?, hsame]
    exact hb
  · rw [PageTable.backing?, hbefore] at hb
    cases hb
    cases hlazy

theorem backing?_of_populate {p : VirtPage} {s s' : Space} {pa : PhysAddr}
    (h : populate p s = .ok pa s') :
    ∃ b, s'.table.backing? p = some b ∧ b.phys? = some pa := by
  obtain ⟨memory, table⟩ := s
  simp only [populate] at h
  split at h
  · cases h
  · next hlookup =>
    cases h
    exact ⟨_, by rw [PageTable.backing?, hlookup]; rfl, rfl⟩
  · next hlookup =>
    cases h
    exact ⟨_, by rw [PageTable.backing?, hlookup]; rfl, rfl⟩
  · next hlookup =>
    split at h
    · cases h
    · cases h
      refine ⟨.frame pa, ?_, rfl⟩
      rw [PageTable.backing?, PageTable.lookup_modify, if_pos rfl, hlookup]
      rfl

theorem populated_populateAll (pages : List VirtPage) (s : Space) :
    Populated s (stateOf (populateAll pages s)) :=
  keeps_populateAll (fun p _ => populated_populate s p) s (Populated.refl s)

theorem backing?_of_populateAll {pages : List VirtPage} {s s' : Space}
    (h : populateAll pages s = .ok () s') {p : VirtPage} (hp : p ∈ pages) :
    ∃ b, s'.table.backing? p = some b ∧ b.isLazy = false := by
  induction pages generalizing s with
  | nil => cases hp
  | cons q rest ih =>
      obtain ⟨pa, t, hq, hrest⟩ := bind_eq_ok_iff.mp h
      rcases List.mem_cons.mp hp with rfl | hp
      · obtain ⟨b, hb, hphys⟩ := backing?_of_populate hq
        have hlazy : b.isLazy = false := by cases b <;> first | rfl | cases hphys
        have hpopulated := populated_populateAll rest t
        rw [hrest] at hpopulated
        exact ⟨b, hpopulated.backing?_eq hb hlazy, hlazy⟩
      · exact ih hrest hp

end Space

end Exokernel
