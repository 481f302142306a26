import Exokernel.Proofs.Region.Renewal
import Exokernel.Proofs.Region.Reservations

/-! # Fresh pages are private and clean

Mapping fresh pages over a range takes its frames and gives others back in one walk, so a frame that
was replaced at one page can be handed out again for the next.  Whatever was mapped in the range, in
the end each of its pages owns its frame, filled from one end to the other, and nothing outside the
range has changed. -/

namespace Exokernel

open Finset

def PageTable.mapsAmong (t : PageTable) (pages : List VirtPage) (pa : PhysAddr) : Nat :=
  #{p | p ∈ pages ∧ t.backing? p = some (.frame pa)}

theorem PageTable.mapCount_add_mapsAmong {t t' : PageTable} {pages : List VirtPage}
    (h : ∀ q ∉ pages, t'.lookup q = t.lookup q) (pa : PhysAddr) :
    t'.mapCount pa + t.mapsAmong pages pa = t.mapCount pa + t'.mapsAmong pages pa := by
  have hsplit : ∀ u : PageTable, u.mapCount pa =
      u.mapsAmong pages pa + #{q | q ∉ pages ∧ u.backing? q = some (.frame pa)} := by
    intro u
    rw [mapCount, mapsAmong, ← card_filter_add_card_filter_not (· ∈ pages), filter_filter,
      filter_filter]
    simp only [and_comm]
  have houtside : #{q | q ∉ pages ∧ t'.backing? q = some (.frame pa)} =
      #{q | q ∉ pages ∧ t.backing? q = some (.frame pa)} := by
    refine congrArg card (filter_congr fun q _ => and_congr_right fun hq => ?_)
    rw [backing?, backing?, h q hq]
  rw [hsplit t, hsplit t', houtside]
  omega

namespace Space

variable {rest : List PageTable} {s s' : Space} {r : PageRange} {req : AllocRequest}

/-- What mapping fresh pages over a range comes to.  `rest` are the page tables of the spaces beside
it. -/
structure FreshRegion (rest : List PageTable) (r : PageRange) (req : AllocRequest) (s s' : Space) :
    Prop where
  /-- Pages that are put off have no frame yet. -/
  lazy_pages : req.lazy = true → ∀ p ∈ r.toList,
    s'.table.lookup p = some ⟨.lazy req.fill, req.rights.flags⟩
  /-- All other pages have a frame each, filled throughout and mapped at no other page of any
  space. -/
  own_frames : req.lazy = false → ∀ p ∈ r.toList, ∃ pa,
    s'.table.lookup p = some ⟨.frame pa, req.rights.flags⟩ ∧ s'.memory.refs.count pa = 1 ∧
      s'.pool.frame? pa = some (Vector.replicate pageSize req.fill.byte) ∧
      (∀ q, s'.table.backing? q = some (.frame pa) → q = p) ∧
      ∀ t ∈ rest, ∀ q, t.backing? q ≠ some (.frame pa)
  /-- Pages that are put off take no frame. -/
  count_le : req.lazy = true → ∀ pa, s'.memory.refs.count pa ≤ s.memory.refs.count pa
  lookup_outside : ∀ q ∉ r.toList, s'.table.lookup q = s.table.lookup q
  frame_eq : ∀ pa, SeenBeside rest r.toList s pa → s'.pool.frame? pa = s.pool.frame? pa
  /-- A frame loses its entries in the range and gains those that are there now. -/
  count_eq : ∀ pa, s'.memory.refs.count pa + s.table.mapsAmong r.toList pa =
    s.memory.refs.count pa + s'.table.mapsAmong r.toList pa
  /-- A frame that was mapped is handed out no longer once its last entry is gone, unless the same
  request has taken it again. -/
  used_iff : ∀ pa, 0 < s.memory.refs.count pa → (s'.pool.isUsed pa = true ↔
    0 < s'.memory.refs.count pa ∨ pa ∈ leavesIn (s'.table :: rest))
  accounting : Accounting s'.memory (s'.table :: rest)

theorem FreshRegion.note (h : FreshRegion rest r req s s') (level : LogLevel) (target text : String) :
    FreshRegion rest r req s (s'.note level target text) :=
  ⟨h.lazy_pages, h.own_frames, h.count_le, h.lookup_outside, h.frame_eq, h.count_eq, h.used_iff,
    (h.accounting.balanced.note level target text).accounting⟩

theorem freshRegion_of_renewed {stray : PhysAddr → Prop}
    (hstray : ∀ pa, stray pa → s.memory.refs.count pa = 0)
    (hbefore : InBalance stray rest s) (hafter : InBalance stray rest s')
    (h : Renewed stray rest (IsFresh req) r.toList s s') : FreshRegion rest r req s s' := by
  have hacc := hafter.accounting
  have hlazy : req.lazy = true → ∀ p ∈ r.toList,
      s'.table.lookup p = some ⟨.lazy req.fill, req.rights.flags⟩ := by
    intro hput p hp
    obtain ⟨fill, ⟨backing, flags⟩, ⟨-, hflags, hbacking⟩, hlookup, -⟩ := h.entry r.nodup_toList hp
    rw [if_pos hput] at hbacking
    cases hflags
    cases hbacking
    exact hlookup
  have hcount : ∀ pa, s'.memory.refs.count pa + s.table.mapsAmong r.toList pa =
      s.memory.refs.count pa + s'.table.mapsAmong r.toList pa := by
    intro pa
    have hmaps := PageTable.mapCount_add_mapsAmong (fun q => h.lookup_eq (q := q)) pa
    rw [hacc.count_eq, hbefore.accounting.count_eq, mapsIn_cons, mapsIn_cons]
    omega
  refine ⟨hlazy, ?_, ?_, fun q => h.lookup_eq, fun pa => h.frame_eq, hcount, ?_, hacc⟩
  · intro hnow p hp
    obtain ⟨_, ⟨backing, flags⟩, ⟨rfl, hflags, hbacking⟩, hlookup, howns⟩ :=
      h.entry r.nodup_toList hp
    rw [if_neg (by simp [hnow])] at hbacking
    obtain ⟨pa, hpa⟩ := hbacking
    cases hflags
    cases hpa
    have hown := howns pa rfl
    obtain ⟨hself, hothers⟩ := sole_of_mapsIn hown.backing?_eq hown.mapsIn_eq
    exact ⟨pa, hlookup, (hacc.count_eq pa).trans hown.mapsIn_eq, hown.filled, hself, hothers⟩
  · intro hput pa
    have hnone : s'.table.mapsAmong r.toList pa = 0 := by
      rw [PageTable.mapsAmong, card_eq_zero, filter_eq_empty_iff]
      rintro p - ⟨hp, hback⟩
      rw [PageTable.backing?, hlazy hput p hp] at hback
      cases hback
    have hpa := hcount pa
    omega
  · intro pa hpos
    have hheld : ¬ stray pa := fun hs => absurd (hstray pa hs) (Nat.ne_of_gt hpos)
    rw [hacc.count_eq, pool, hafter.ledger.used_iff]
    simp only [hheld, or_false]

/-- Fresh pages are mapped over a range exactly if there are frames for all of them and for the leaf
tables that they need; otherwise nothing changes. -/
theorem allocateRegion_of_accounting (hacc : Accounting s.memory (s.table :: rest))
    (hclaims : s.memory.machine.overclaim = 0) (hhidden : s.memory.machine.hidden = [])
    (r : PageRange) (req : AllocRequest) :
    (s.memory.machine.freeFrames < (if req.lazy then 0 else r.count) + s.table.missingTables r →
      allocateRegion r req s = .error .noMemory s) ∧
    ((if req.lazy then 0 else r.count) + s.table.missingTables r ≤ s.memory.machine.freeFrames →
      ∃ s', allocateRegion r req s = .ok () s' ∧ FreshRegion rest r req s s') := by
  have hreliable : s.memory.machine.Reliable :=
    ⟨hclaims, hhidden, fun _ => hacc.pool.lt_size⟩
  constructor
  · intro hfew
    have hframes : s.hasFrames (allocationNeed s.table r req) = false :=
      decide_eq_false (Nat.not_le_of_lt hfew)
    rw [allocateRegion, bind_of_ok (x := get) (a := s) (t := s) rfl, hframes]
    rfl
  · intro henough
    have hframes : s.hasFrames (allocationNeed s.table r req) = true := decide_eq_true henough
    have hgive := canGive_of_hasFrames hreliable hframes
    rw [allocationNeed, Nat.add_comm, ← PageTable.needed_toList, ← r.length_toList] at hgive
    obtain ⟨s₁, hpages⟩ := allocatePages_of_canGive hgive
    have hdone : ∃ text, allocateRegion r req s = .ok () (s₁.note .trace "mm" text) := by
      rw [allocateRegion, bind_of_ok (x := get) (a := s) (t := s) rfl, if_pos hframes]
      exact ⟨_, bind_of_ok hpages _⟩
    obtain ⟨text, hdone⟩ := hdone
    have hkept : InBalance (strays s.memory (s.table :: rest)) rest
        (stateOf (allocatePages req r.toList s)) :=
      keeps_allocatePages (fun p _ => inBalance_allocatePage req p) s hacc.balanced
    rw [hpages, stateOf_ok] at hkept
    have hfresh := freshRegion_of_renewed (fun pa hs => (hacc.count_eq pa).trans hs.2.1)
      hacc.balanced hkept (renewed_of_allocatePages hacc.balanced hpages)
    exact ⟨_, hdone, hfresh.note .trace "mm" text⟩

theorem allocateRegion_of_accounting_threePages : Accounting threePages.memory [threePages.table] ∧
    threePages.memory.machine.overclaim = 0 ∧ threePages.memory.machine.hidden = [] ∧
    ∃ s', allocateRegion ⟨2, 3, by decide⟩ ⟨⟨true, false, false, false⟩, false, .one⟩ threePages =
      .ok () s' ∧
      FreshRegion [] ⟨2, 3, by decide⟩ ⟨⟨true, false, false, false⟩, false, .one⟩ threePages s' := by
  have hacc := inBalance_threePages.accounting
  have hclaims : threePages.memory.machine.overclaim = 0 := by decide +kernel
  have hhidden : threePages.memory.machine.hidden = [] := by decide +kernel
  refine ⟨hacc, hclaims, hhidden, ?_⟩
  exact (allocateRegion_of_accounting hacc hclaims hhidden ⟨2, 3, by decide⟩
    ⟨⟨true, false, false, false⟩, false, .one⟩).2 (by decide +kernel)

end Space

end Exokernel
