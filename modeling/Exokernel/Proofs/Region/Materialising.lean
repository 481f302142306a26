import Exokernel.Proofs.Memory.Windows
import Exokernel.Proofs.Region.Shelter

/-! # Giving pages their frames is invisible

A page without a frame reads as its fill pattern.  When it is touched it takes a frame that no page
of any space is mapped to, and the frame is filled with that pattern.  So nobody can tell from the
bytes of any space whether a page has its frame already. -/

namespace Exokernel

/-! ## What is seen of a page table -/

namespace PageTable

/-- The bytes of a page as its space sees them: those of its frame or device page, or the fill byte
throughout if it has no frame yet. -/
def contents (t : PageTable) (pool : FramePool) (p : VirtPage) : Option Frame :=
  match t.backing? p with
  | some (.frame pa) => pool.frame? pa
  | some (.device pa) => pool.frame? pa
  | some (.lazy fill) => some (Vector.replicate pageSize fill.byte)
  | none => none

/-- The byte that a space sees at an address; none where nothing is mapped. -/
def view (t : PageTable) (pool : FramePool) (addr : Nat) : Option UInt8 :=
  if h : addr < maxUserAddress then
    (t.contents pool (VirtAddr.page ⟨addr, h⟩)).bind (·[pageOffset addr]?)
  else none

variable {t t' : PageTable} {pool next : FramePool} {p : VirtPage} {pa : PhysAddr}

theorem contents_of_phys? {b : Backing} (hb : t.backing? p = some b) (hphys : b.phys? = some pa) :
    t.contents pool p = pool.frame? pa := by
  rw [contents, hb]
  cases b <;> cases hphys <;> rfl

theorem view_congr (h : ∀ p, t'.contents next p = t.contents pool p) (addr : Nat) :
    t'.view next addr = t.view pool addr := by
  rw [view, view]
  split
  · rw [h]
  · rfl

/-- A table with its device pages outside RAM sees the same bytes in any two pools that agree on
what it can reach. -/
theorem contents_of_sameReached (h : FramePool.SameReached t pool next)
    (hdevice : ∀ p pa, t.backing? p = some (.device pa) → pool.ramIndex? pa = none) (p : VirtPage) :
    t.contents next p = t.contents pool p := by
  rw [contents, contents]
  split
  · next pa hp => exact h.frame_eq pa (Or.inl ⟨p, hp⟩)
  · next pa hp => exact h.frame_eq pa (Or.inr (hdevice p pa hp))
  · rfl
  · rfl

end PageTable

namespace Space

variable {rest : List PageTable} {s s' s₀ : Space} {t : PageTable} {p : VirtPage} {pa : PhysAddr}

/-! ## Spaces that stand on their memory -/

/-- What the pages of the space and of the spaces beside it are mapped to is there.  The machine
keeps its word, its free list is in order and its windows lie beside RAM; the count of each frame is
the number of its mappings, and a counted frame is handed out; device pages begin at page boundaries
inside the windows. -/
structure Grounded (rest : List PageTable) (s : Space) : Prop where
  reliable : s.memory.machine.Reliable
  consistent : s.pool.Consistent
  windowsApart : s.pool.WindowsApart
  count_eq : ∀ pa, s.memory.refs.count pa = mapsIn (s.table :: rest) pa
  counted_used : ∀ pa, 0 < s.memory.refs.count pa → s.pool.isUsed pa = true
  devices : ∀ t ∈ s.table :: rest, ∀ p pa, t.backing? p = some (.device pa) →
    isPageAligned pa.raw = true ∧ s.pool.isDeviceRange pa pageSize = true

theorem grounded_of_accounting (h : Accounting s.memory (s.table :: rest))
    (hreliable : s.memory.machine.Reliable) (hapart : s.pool.WindowsApart)
    (hdevices : ∀ t ∈ s.table :: rest, ∀ p pa, t.backing? p = some (.device pa) →
      isPageAligned pa.raw = true ∧ s.pool.isDeviceRange pa pageSize = true) : Grounded rest s :=
  ⟨hreliable, h.pool, hapart, h.count_eq, h.counted_used, hdevices⟩

namespace Grounded

theorem count_pos (h : Grounded rest s) (ht : t ∈ s.table :: rest)
    (hp : t.backing? p = some (.frame pa)) : 0 < s.memory.refs.count pa := by
  rw [h.count_eq]
  exact mapsIn_pos_iff.mpr ⟨t, ht, p, hp⟩

theorem isUsed_of_backing (h : Grounded rest s) (ht : t ∈ s.table :: rest)
    (hp : t.backing? p = some (.frame pa)) : s.pool.isUsed pa = true :=
  h.counted_used pa (h.count_pos ht hp)

theorem ramIndex?_of_device (h : Grounded rest s) (ht : t ∈ s.table :: rest)
    (hp : t.backing? p = some (.device pa)) : s.pool.ramIndex? pa = none :=
  FramePool.ramIndex?_of_isDeviceRange h.windowsApart (h.devices t ht p pa hp).2

theorem isSome_contents (h : Grounded rest s) (ht : t ∈ s.table :: rest)
    (hmapped : t.isMapped p = true) : (t.contents s.pool p).isSome = true := by
  obtain ⟨e, he⟩ := Option.isSome_iff_exists.mp hmapped
  have hp : t.backing? p = some e.backing := by rw [PageTable.backing?, he]; rfl
  rw [PageTable.contents, hp]
  cases hb : e.backing with
  | frame pa =>
      rw [hb] at hp
      exact FramePool.isSome_frame?_of_isUsed (h.isUsed_of_backing ht hp)
  | device pa =>
      rw [hb] at hp
      obtain ⟨haligned, hinside⟩ := h.devices t ht p pa hp
      exact FramePool.isSome_frame?_of_isDeviceRange haligned hinside
  | lazy fill => rfl

theorem sole_mapping (h : Grounded rest s) (hp : s.table.backing? p = some (.frame pa))
    (hcount : s.memory.refs.count pa = 1) :
    (∀ q, s.table.backing? q = some (.frame pa) → q = p) ∧
      ∀ t ∈ rest, ∀ q, t.backing? q ≠ some (.frame pa) :=
  sole_of_mapsIn hp ((h.count_eq pa).symm.trans hcount)

end Grounded

/-! ## One page -/

/-- A later state of a space in which some pages that had no frame have one of their own, and in
which all spaces see what they saw before. -/
structure Materialised (rest : List PageTable) (s s' : Space) : Prop where
  grounded : Grounded rest s'
  contents_eq : ∀ p, s'.table.contents s'.pool p = s.table.contents s.pool p
  contents_rest : ∀ t ∈ rest, ∀ p, t.contents s'.pool p = t.contents s.pool p
  count_eq : ∀ pa, 0 < s.memory.refs.count pa → s'.memory.refs.count pa = s.memory.refs.count pa
  lookup_or : ∀ p, s'.table.lookup p = s.table.lookup p ∨ ∃ fill flags pa,
    s.table.lookup p = some ⟨.lazy fill, flags⟩ ∧ s'.table.lookup p = some ⟨.frame pa, flags⟩ ∧
      s'.memory.refs.count pa = 1

theorem Materialised.refl (h : Grounded rest s) : Materialised rest s s :=
  ⟨h, fun _ => rfl, fun _ _ _ => rfl, fun _ _ => rfl, fun _ => Or.inl rfl⟩

theorem Materialised.trans {s₁ s₂ : Space} (h : Materialised rest s s₁)
    (h' : Materialised rest s₁ s₂) : Materialised rest s s₂ := by
  refine ⟨h'.grounded, fun p => (h'.contents_eq p).trans (h.contents_eq p),
    fun t ht p => (h'.contents_rest t ht p).trans (h.contents_rest t ht p), ?_, ?_⟩
  · intro pa hpa
    have hfirst := h.count_eq pa hpa
    rw [← hfirst] at hpa
    exact (h'.count_eq pa hpa).trans hfirst
  · intro p
    rcases h.lookup_or p with hsame | ⟨fill, flags, pa, hlazy, hframe, hcount⟩
    · rw [← hsame]
      exact h'.lookup_or p
    · rcases h'.lookup_or p with hsame | ⟨_, _, _, hlazy', -, -⟩
      · have hpos : 0 < s₁.memory.refs.count pa := by omega
        exact Or.inr ⟨fill, flags, pa, hlazy, hsame.trans hframe, (h'.count_eq pa hpos).trans hcount⟩
      · rw [hframe] at hlazy'
        cases hlazy'

/-- The frame that a page takes was nobody's, so the count of each frame is still right. -/
theorem Grounded.materialise (h : Grounded rest s) {fill : Fill} {flags : PageFlags}
    {memory : Memory} (hlazy : s.table.lookup p = some ⟨.lazy fill, flags⟩)
    (hfresh : s.memory.fresh? fill = some (pa, memory)) :
    Grounded rest ⟨memory, s.table.modify p fun e => { e with backing := .frame pa }⟩ := by
  have htaken := Memory.supplies_of_fresh? h.consistent hfresh
  have hlayout := Memory.sameLayout_of_fresh? hfresh
  have hnobody : s.memory.refs.count pa = 0 := by
    by_contra hpos
    have hused := h.counted_used pa (Nat.pos_of_ne_zero hpos)
    rw [htaken.unused] at hused
    cases hused
  refine ⟨Machine.lasting_reliable.fresh? hfresh h.reliable, htaken.consistent,
    hlayout.windowsApart h.windowsApart, ?_, ?_, ?_⟩
  · intro q
    simp only [htaken.refs_eq]
    rw [RefCounts.count_set, mapsIn_materialise hlazy, ← h.count_eq, Backing.holds_frame]
    by_cases hq : pa = q
    · subst hq
      simp [hnobody]
    · simp [hq, Ne.symm hq]
  · intro q hq
    simp only [htaken.refs_eq] at hq
    rw [RefCounts.count_set] at hq
    rw [pool, htaken.isUsed_eq, Bool.or_eq_true, decide_eq_true_eq]
    split at hq
    · next hpa => exact Or.inl hpa.symm
    · exact Or.inr (h.counted_used q hq)
  · intro t ht q pa' hq
    rw [pool, hlayout.isDeviceRange_eq]
    rcases List.mem_cons.mp ht with rfl | ht
    · rw [PageTable.backing?_materialise hlazy] at hq
      split at hq
      · cases hq
      · exact h.devices s.table List.mem_cons_self q pa' hq
    · exact h.devices t (List.mem_cons_of_mem _ ht) q pa' hq

theorem Grounded.materialised (h : Grounded rest s) {fill : Fill} {flags : PageFlags}
    {memory : Memory} (hlazy : s.table.lookup p = some ⟨.lazy fill, flags⟩)
    (hfresh : s.memory.fresh? fill = some (pa, memory)) :
    Materialised rest s ⟨memory, s.table.modify p fun e => { e with backing := .frame pa }⟩ := by
  have htaken := Memory.supplies_of_fresh? h.consistent hfresh
  have hsees : ∀ t ∈ s.table :: rest, ∀ q,
      t.contents memory.machine.pool q = t.contents s.pool q := by
    intro t ht q
    apply PageTable.contents_of_sameReached
    · exact htaken.sameReached fun _ _ hp => h.isUsed_of_backing ht hp
    · exact fun _ _ hp => h.ramIndex?_of_device ht hp
  refine ⟨h.materialise hlazy hfresh, ?_, fun t ht => hsees t (List.mem_cons_of_mem _ ht), ?_, ?_⟩
  · intro q
    by_cases hq : p = q
    · subst hq
      have hbefore : s.table.backing? p = some (.lazy fill) := by
        rw [PageTable.backing?, hlazy]
        rfl
      have hafter := PageTable.backing?_materialise hlazy pa p
      rw [if_pos rfl] at hafter
      rw [PageTable.contents, hafter, PageTable.contents, hbefore]
      exact htaken.frame?_self.trans (congrArg some fill.frame_eq_replicate)
    · have hafter := PageTable.backing?_materialise hlazy pa q
      rw [if_neg hq] at hafter
      rw [← hsees s.table List.mem_cons_self q, PageTable.contents, hafter, PageTable.contents]
  · intro q hq
    have hother : pa ≠ q := by
      rintro rfl
      have hused := h.counted_used pa hq
      rw [htaken.unused] at hused
      cases hused
    simp only [htaken.refs_eq]
    rw [RefCounts.count_set, if_neg hother]
  · intro q
    rw [PageTable.lookup_modify]
    split
    · next hq =>
      subst hq
      refine Or.inr ⟨fill, flags, pa, hlazy, by rw [hlazy]; rfl, ?_⟩
      simp only [htaken.refs_eq]
      rw [RefCounts.count_set, if_pos rfl]
    · exact Or.inl rfl

theorem Materialised.note (h : Materialised rest s s') (level : LogLevel) (target text : String) :
    Materialised rest s (s'.note level target text) :=
  ⟨⟨Machine.lasting_reliable.relog _ _ h.grounded.reliable, h.grounded.consistent,
    h.grounded.windowsApart, h.grounded.count_eq, h.grounded.counted_used, h.grounded.devices⟩,
    h.contents_eq, h.contents_rest, h.count_eq, h.lookup_or⟩

/-! ## Requests -/

theorem materialised_populate (p : VirtPage) : Keeps (Materialised rest s₀) (populate p) := by
  intro s h
  rcases populate_cases p s with heq | ⟨fill, flags, pa, memory, text, hlazy, hfresh, heq⟩
  · rw [heq]
    exact h
  · rw [heq]
    exact h.trans ((h.grounded.materialised hlazy hfresh).note .trace "mm" text)

theorem Grounded.materialised_of_populate (h : Grounded rest s) (hpage : populate p s = .ok pa s') :
    Materialised rest s s' := by
  have hafter : Materialised rest s (stateOf (populate p s)) := materialised_populate p s (.refl h)
  rwa [hpage] at hafter

theorem materialised_resolveFault (p : VirtPage) (write : Bool) :
    Keeps (Materialised rest s₀) (resolveFault p write) :=
  keeps_resolveFault (materialised_populate p) write

theorem materialised_readBytes (start length : Nat) :
    Keeps (Materialised rest s₀) (readBytes start length) :=
  keeps_readBytes materialised_populate start length

/-- What a later state of a space has in common with an earlier one, for all that any space can see,
and where the two differ: a page that had no frame has one that nothing else is mapped to. -/
structure Unnoticed (rest : List PageTable) (s s' : Space) : Prop where
  view_eq : ∀ addr, s'.table.view s'.pool addr = s.table.view s.pool addr
  view_rest : ∀ t ∈ rest, ∀ addr, t.view s'.pool addr = t.view s.pool addr
  isMapped_eq : ∀ p, s'.table.isMapped p = s.table.isMapped p
  flags_eq : ∀ p, (s'.table.lookup p).map PageEntry.flags = (s.table.lookup p).map PageEntry.flags
  lookup_or : ∀ p, s'.table.lookup p = s.table.lookup p ∨ ∃ fill flags pa,
    s.table.lookup p = some ⟨.lazy fill, flags⟩ ∧ s'.table.lookup p = some ⟨.frame pa, flags⟩ ∧
      s'.memory.refs.count pa = 1 ∧ (∀ q, s'.table.backing? q = some (.frame pa) → q = p) ∧
        ∀ t ∈ rest, ∀ q, t.backing? q ≠ some (.frame pa)

theorem Materialised.unnoticed (h : Materialised rest s s') : Unnoticed rest s s' := by
  refine ⟨PageTable.view_congr h.contents_eq,
    fun t ht => PageTable.view_congr (h.contents_rest t ht), ?_, ?_, ?_⟩
  · intro p
    rcases h.lookup_or p with hsame | ⟨fill, flags, pa, hlazy, hframe, -⟩
    · rw [PageTable.isMapped, PageTable.isMapped, hsame]
    · rw [PageTable.isMapped, PageTable.isMapped, hlazy, hframe]
      rfl
  · intro p
    rcases h.lookup_or p with hsame | ⟨fill, flags, pa, hlazy, hframe, -⟩
    · rw [hsame]
    · rw [hlazy, hframe]
      rfl
  · intro p
    rcases h.lookup_or p with hsame | ⟨fill, flags, pa, hlazy, hframe, hcount⟩
    · exact Or.inl hsame
    · have hback : s'.table.backing? p = some (.frame pa) := by
        rw [PageTable.backing?, hframe]
        rfl
      obtain ⟨hown, hothers⟩ := h.grounded.sole_mapping hback hcount
      exact Or.inr ⟨fill, flags, pa, hlazy, hframe, hcount, hown, hothers⟩

end Space

end Exokernel
