import Exokernel.Proofs.Region.Provenance

/-! # Pages with new entries

Mapping a fresh page and giving a page its frame both put a new entry in place.  If the entry maps a
frame, that frame was handed out to nobody, so its page is the only one that is mapped to it, and no
step on another page changes that. -/

namespace Exokernel

variable {t t' : PageTable} {rest : List PageTable} {p q : VirtPage} {pa : PhysAddr}

namespace Space

variable {stray : PhysAddr → Prop} {s s₁ s' s₀ : Space} {e : PageEntry} {fill other : Fill}
  {flags : PageFlags} {req : AllocRequest} {pages : List VirtPage}

/-! ## One new entry -/

/-- A page has a new entry.  If the entry maps a frame, the frame was not handed out before and
holds the fill byte throughout.  All other bytes stay. -/
structure Renews (fill : Fill) (p : VirtPage) (e : PageEntry) (s s' : Space) : Prop where
  lookup_eq : ∀ q, s'.table.lookup q = if p = q then some e else s.table.lookup q
  size_eq : s'.pool.ram.size = s.pool.ram.size
  frame_eq : ∀ pa, e.backing ≠ .frame pa → s'.pool.frame? pa = s.pool.frame? pa
  unused : ∀ pa, e.backing = .frame pa → s.pool.isUsed pa = false
  inRam : ∀ pa, e.backing = .frame pa → (s.pool.ramIndex? pa).isSome = true
  filled : ∀ pa, e.backing = .frame pa →
    s'.pool.frame? pa = some (Vector.replicate pageSize fill.byte)

namespace Renews

theorem backing?_eq (h : Renews fill p e s s') (q : VirtPage) :
    s'.table.backing? q = if p = q then some e.backing else s.table.backing? q := by
  rw [PageTable.backing?, h.lookup_eq, apply_ite (Option.map _)]
  rfl

theorem mapsIn_eq (h : Renews fill p e s s') (rest : List PageTable) (pa : PhysAddr) :
    mapsIn (s'.table :: rest) pa + held (s.table.backing? p) pa =
      mapsIn (s.table :: rest) pa + e.backing.holds pa := by
  have hcount := PageTable.mapCount_update h.backing?_eq pa
  rw [held_some] at hcount
  rw [mapsIn_cons, mapsIn_cons]
  omega

theorem backing_ne (h : Renews fill p e s s') (hused : s.pool.isUsed pa = true) :
    e.backing ≠ .frame pa := by
  intro heq
  rw [h.unused pa heq] at hused
  cases hused

theorem backing_ne_of_outside (h : Renews fill p e s s') (hnone : s.pool.ramIndex? pa = none) :
    e.backing ≠ .frame pa := by
  intro heq
  have hram := h.inRam pa heq
  rw [hnone] at hram
  cases hram

/-- A frame is taken and filled, and its page is mapped to it by a step that changes no bytes. -/
theorem of_supplies {memory : Memory} (htaken : s.memory.Supplies fill pa memory)
    (hbytes : memory.machine.pool.SameBytes s'.pool)
    (hlookup : ∀ q, s'.table.lookup q = if p = q then some ⟨.frame pa, flags⟩ else s.table.lookup q) :
    Renews fill p ⟨.frame pa, flags⟩ s s' := by
  refine ⟨hlookup, hbytes.size_eq.trans htaken.size_eq, ?_, ?_, ?_, ?_⟩
  · intro q hq
    rw [hbytes.frame_eq]
    apply htaken.frame?_other
    rintro rfl
    exact hq rfl
  · rintro _ ⟨⟩
    exact htaken.unused
  · rintro _ ⟨⟩
    exact htaken.inRam
  · rintro _ ⟨⟩
    rw [hbytes.frame_eq, htaken.frame?_self, Fill.frame_eq_replicate]

end Renews

theorem renews_of_allocatePage (hpool : s.pool.Consistent)
    (h : allocatePage req p s = .ok () s') :
    ∃ e, FreshEntry req s s'.pool e ∧ Renews req.fill p e s s' := by
  obtain ⟨memory, table⟩ := s
  simp only [allocatePage] at h
  split at h
  · next hlazy =>
    have hbytes := sameBytes_place p ⟨.lazy req.fill, req.rights.flags⟩ ⟨memory, table⟩
    rw [h] at hbytes
    have hframeless : ∀ pa, Backing.lazy req.fill ≠ .frame pa := by
      rintro _ ⟨⟩
    refine ⟨⟨.lazy req.fill, req.rights.flags⟩, ⟨rfl, ?_⟩, lookup_of_place h, hbytes.size_eq,
      fun pa _ => hbytes.frame_eq pa, fun pa heq => absurd heq (hframeless pa),
      fun pa heq => absurd heq (hframeless pa), fun pa heq => absurd heq (hframeless pa)⟩
    rw [if_pos hlazy]
  · next hlazy =>
    split at h
    · cases h
    · next pa memory' hfresh =>
      have hbytes := sameBytes_place p ⟨.frame pa, req.rights.flags⟩ ⟨memory', table⟩
      rw [h] at hbytes
      have htaken := Memory.supplies_of_fresh? hpool hfresh
      refine ⟨⟨.frame pa, req.rights.flags⟩, ⟨rfl, ?_⟩,
        .of_supplies htaken hbytes fun q => lookup_of_place h q⟩
      rw [if_neg hlazy]
      exact ⟨pa, memory', hfresh, rfl,
        (hbytes.frame_eq pa).trans (Memory.frame?_of_fresh? hfresh)⟩

theorem renews_of_populate (hpool : s.pool.Consistent)
    (hlazy : s.table.lookup p = some ⟨.lazy fill, flags⟩) (h : populate p s = .ok pa s') :
    Renews fill p ⟨.frame pa, flags⟩ s s' := by
  rcases populate_cases p s with hsame | ⟨_, _, pa', memory, text, hlookup, hfresh, heq⟩
  · obtain ⟨b, hb, hphys⟩ := backing?_of_populate h
    rw [h] at hsame
    rw [show s' = s from hsame, PageTable.backing?, hlazy] at hb
    cases hb
    cases hphys
  · rw [hlazy] at hlookup
    cases hlookup
    rw [h] at heq
    cases heq
    refine .of_supplies (Memory.supplies_of_fresh? hpool hfresh) (.refl _) fun q => ?_
    rw [PageTable.lookup_modify]
    split
    · next hq => rw [← hq, hlazy]; rfl
    · rfl

/-! ## Frames of their own -/

/-- No page of the space and of the spaces beside it but this one is mapped to its frame, and the
frame holds the fill byte throughout. -/
structure Owns (rest : List PageTable) (fill : Fill) (flags : PageFlags) (p : VirtPage)
    (pa : PhysAddr) (s : Space) : Prop where
  lookup_eq : s.table.lookup p = some ⟨.frame pa, flags⟩
  mapsIn_eq : mapsIn (s.table :: rest) pa = 1
  filled : s.pool.frame? pa = some (Vector.replicate pageSize fill.byte)

theorem Owns.backing?_eq (h : Owns rest fill flags p pa s) :
    s.table.backing? p = some (.frame pa) := by
  rw [PageTable.backing?, h.lookup_eq]
  rfl

theorem Renews.owns (hbalanced : InBalance stray rest s)
    (h : Renews fill p ⟨.frame pa, flags⟩ s s') : Owns rest fill flags p pa s' := by
  refine ⟨by rw [h.lookup_eq, if_pos rfl], ?_, h.filled pa rfl⟩
  have hcount := h.mapsIn_eq rest pa
  have hnobody := (hbalanced.ledger.free_of_unused (h.unused pa rfl)).1
  have hold : s.table.backing? p ≠ some (.frame pa) := by
    intro hp
    have hpos := mapsIn_pos_iff.mpr ⟨s.table, List.mem_cons_self (l := rest), p, hp⟩
    omega
  have hheld := held_of_ne hold
  rw [Backing.holds_frame_self] at hcount
  omega

/-- A new entry at another page takes nothing from the pages that own their frames. -/
theorem Owns.of_renews (h : Owns rest fill flags p pa s) (hbalanced : InBalance stray rest s)
    (hnew : Renews other q e s s') (hne : q ≠ p) : Owns rest fill flags p pa s' := by
  have hother := hnew.backing_ne (hbalanced.isUsed_of_backing List.mem_cons_self h.backing?_eq)
  have hold : s.table.backing? q ≠ some (.frame pa) := fun hq =>
    hne ((sole_of_mapsIn h.backing?_eq h.mapsIn_eq).1 q hq)
  refine ⟨by rw [hnew.lookup_eq, if_neg hne, h.lookup_eq], ?_, ?_⟩
  · have hcount := hnew.mapsIn_eq rest pa
    have hheld := held_of_ne hold
    rw [Backing.holds_of_ne hother, h.mapsIn_eq] at hcount
    omega
  · rw [hnew.frame_eq pa hother, h.filled]

/-! ## New entries one after the other -/

/-- The pages of a list have new entries, one page after the other, each of the given kind; the
space is in balance before each of them. -/
inductive Renewed (stray : PhysAddr → Prop) (rest : List PageTable)
    (Kind : VirtPage → Fill → PageEntry → Prop) : List VirtPage → Space → Space → Prop where
  | nil (s : Space) : Renewed stray rest Kind [] s s
  | cons {p : VirtPage} {fill : Fill} {e : PageEntry} {pages : List VirtPage} {s s₁ s' : Space}
      (kind : Kind p fill e) (balanced : InBalance stray rest s)
      (first : Renews fill p e s s₁) (others : Renewed stray rest Kind pages s₁ s') :
      Renewed stray rest Kind (p :: pages) s s'

/-- Bytes that are seen without the pages of a list: those of the frames that other pages of the
space or the spaces beside it are mapped to, and those outside RAM, where the device pages are. -/
def SeenBeside (rest : List PageTable) (pages : List VirtPage) (s : Space) (pa : PhysAddr) : Prop :=
  0 < mapsIn rest pa ∨ (∃ q ∉ pages, s.table.backing? q = some (.frame pa)) ∨
    s.pool.ramIndex? pa = none

namespace Renewed

variable {Kind : VirtPage → Fill → PageEntry → Prop}

theorem lookup_eq (h : Renewed stray rest Kind pages s s') (hq : q ∉ pages) :
    s'.table.lookup q = s.table.lookup q := by
  induction h with
  | nil => rfl
  | cons _ _ first _ ih =>
      rw [List.mem_cons, not_or] at hq
      rw [ih hq.2, first.lookup_eq, if_neg (Ne.symm hq.1)]

theorem owns (h : Renewed stray rest Kind pages s s') (hp : p ∉ pages)
    (howns : Owns rest fill flags p pa s) : Owns rest fill flags p pa s' := by
  induction h with
  | nil => exact howns
  | cons _ balanced first _ ih =>
      rw [List.mem_cons, not_or] at hp
      exact ih hp.2 (howns.of_renews balanced first (Ne.symm hp.1))

/-- In the end every page has an entry of its kind, and owns its frame if it has one. -/
theorem entry (h : Renewed stray rest Kind pages s s') (hnodup : pages.Nodup) (hp : p ∈ pages) :
    ∃ fill e, Kind p fill e ∧ s'.table.lookup p = some e ∧
      ∀ pa, e.backing = .frame pa → Owns rest fill e.flags p pa s' := by
  induction h with
  | nil => cases hp
  | @cons q fill e pages s s₁ s' kind balanced first others ih =>
      obtain ⟨hnew, hnodup⟩ := List.nodup_cons.mp hnodup
      rcases List.mem_cons.mp hp with rfl | hp
      · refine ⟨fill, e, kind, ?_, ?_⟩
        · rw [others.lookup_eq hnew, first.lookup_eq, if_pos rfl]
        · obtain ⟨backing, flags⟩ := e
          rintro pa rfl
          exact others.owns hnew (first.owns balanced)
      · exact ih hnodup hp

theorem frame_eq (h : Renewed stray rest Kind pages s s') (hseen : SeenBeside rest pages s pa) :
    s'.pool.frame? pa = s.pool.frame? pa := by
  induction h with
  | nil => rfl
  | @cons p fill e pages s s₁ s' kind balanced first others ih =>
      have hother : e.backing ≠ .frame pa := by
        rcases hseen with hmapped | ⟨q, -, hq⟩ | hnone
        · apply first.backing_ne (balanced.ledger.isUsed_of_mapped _)
          rw [mapsIn_cons]
          omega
        · exact first.backing_ne (balanced.isUsed_of_backing List.mem_cons_self hq)
        · exact first.backing_ne_of_outside hnone
      refine (ih ?_).trans (first.frame_eq pa hother)
      refine hseen.imp_right (Or.imp ?_ fun hnone => ?_)
      · rintro ⟨q, hq, hback⟩
        rw [List.mem_cons, not_or] at hq
        refine ⟨q, hq.2, ?_⟩
        rw [first.backing?_eq, if_neg (Ne.symm hq.1), hback]
      · rwa [FramePool.ramIndex?, first.size_eq]

end Renewed

/-! ## Fresh pages and source pages -/

def IsFresh (req : AllocRequest) (_ : VirtPage) (fill : Fill) (e : PageEntry) : Prop :=
  fill = req.fill ∧ e.flags = req.rights.flags ∧
    if req.lazy then e.backing = .lazy req.fill else ∃ pa, e.backing = .frame pa

theorem renewed_of_allocatePages (hbalanced : InBalance stray rest s)
    (h : allocatePages req pages s = .ok () s') :
    Renewed stray rest (IsFresh req) pages s s' := by
  induction pages generalizing s with
  | nil =>
      cases h
      exact .nil _
  | cons p pages ih =>
      obtain ⟨_, s₁, hpage, hrest⟩ := bind_eq_ok_iff.mp h
      obtain ⟨e, ⟨hflags, hbacking⟩, hnew⟩ := renews_of_allocatePage hbalanced.ledger.consistent hpage
      have hafter : InBalance stray rest (stateOf (allocatePage req p s)) :=
        inBalance_allocatePage req p s hbalanced
      rw [show allocatePage req p s = .ok () s₁ from hpage] at hafter
      refine .cons ⟨rfl, hflags, ?_⟩ hbalanced hnew (ih hafter hrest)
      split
      · next hlazy => rwa [if_pos hlazy] at hbacking
      · next hlazy =>
        rw [if_neg hlazy] at hbacking
        obtain ⟨pa, _, -, hframe, -⟩ := hbacking
        exact ⟨pa, hframe⟩

/-- The pages of a list that have no frame yet. -/
def lazyAmong (t : PageTable) (pages : List VirtPage) : List VirtPage :=
  pages.filter fun p => (t.lookup p).any (·.backing.isLazy)

def IsGiven (t : PageTable) (p : VirtPage) (fill : Fill) (e : PageEntry) : Prop :=
  t.lookup p = some ⟨.lazy fill, e.flags⟩ ∧ ∃ pa, e.backing = .frame pa

theorem lookup_of_any_isLazy {t : PageTable} (h : (t.lookup p).any (·.backing.isLazy) = true) :
    ∃ fill flags, t.lookup p = some ⟨.lazy fill, flags⟩ := by
  obtain ⟨⟨backing, flags⟩, hlookup⟩ := Option.isSome_iff_exists.mp (Option.isSome_of_any h)
  rw [hlookup] at h
  cases backing with
  | frame pa => cases h
  | device pa => cases h
  | lazy fill => exact ⟨fill, flags, hlookup⟩

theorem seenBeside_lazyAmong (pages : List VirtPage)
    (h : 0 < mapsIn (s.table :: rest) pa ∨ s.pool.ramIndex? pa = none) :
    SeenBeside rest (lazyAmong s.table pages) s pa := by
  rcases h with hmapped | hnone
  · rw [mapsIn_cons] at hmapped
    rcases Nat.add_pos_iff_pos_or_pos.mp hmapped with hown | hothers
    · obtain ⟨q, hq⟩ := PageTable.mapCount_pos_iff.mp hown
      refine Or.inr (Or.inl ⟨q, fun hmem => ?_, hq⟩)
      obtain ⟨fill, flags, hlookup⟩ := lookup_of_any_isLazy (List.mem_filter.mp hmem).2
      rw [PageTable.backing?, hlookup] at hq
      cases hq
    · exact Or.inl hothers
  · exact Or.inr (Or.inr hnone)

theorem renewed_of_populateAll (hbalanced : InBalance stray rest s) (hnodup : pages.Nodup)
    (h : populateAll pages s = .ok () s') :
    Renewed stray rest (IsGiven s.table) (lazyAmong s.table pages) s s' := by
  suffices hwalk : ∀ t : PageTable, (∀ p ∈ pages, s.table.lookup p = t.lookup p) →
      Renewed stray rest (IsGiven t) (lazyAmong t pages) s s' from hwalk s.table fun _ _ => rfl
  intro t hsame
  induction pages generalizing s with
  | nil =>
      cases h
      exact .nil _
  | cons p pages ih =>
      obtain ⟨pa, s₁, hpage, hrest⟩ := bind_eq_ok_iff.mp h
      obtain ⟨hfirst, hnodup⟩ := List.nodup_cons.mp hnodup
      have hp := hsame p List.mem_cons_self
      have hpages : ∀ q ∈ pages, s.table.lookup q = t.lookup q := fun q hq =>
        hsame q (List.mem_cons_of_mem _ hq)
      have hafter : InBalance stray rest (stateOf (populate p s)) := inBalance_populate p s hbalanced
      rw [hpage, stateOf_ok] at hafter
      rw [lazyAmong, List.filter_cons]
      split
      · next hlazy =>
        obtain ⟨fill, flags, hlookup⟩ := lookup_of_any_isLazy hlazy
        have hnew := renews_of_populate hbalanced.ledger.consistent (hp.trans hlookup) hpage
        refine .cons ⟨hlookup, pa, rfl⟩ hbalanced hnew (ih hafter hnodup hrest fun q hq => ?_)
        have hne : p ≠ q := fun heq => hfirst (heq ▸ hq)
        rw [hnew.lookup_eq, if_neg hne, hpages q hq]
      · next hlazy =>
        obtain rfl : s₁ = s := by
          rcases populate_cases p s with hsame | ⟨fill, flags, pa', memory, text, hlookup, -⟩
          · rwa [hpage] at hsame
          · rw [← hp, hlookup] at hlazy
            exact absurd rfl hlazy
        exact ih hafter hnodup hrest hpages

end Space

end Exokernel
