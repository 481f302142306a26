import Exokernel.Proofs.Realm.Books
import Mathlib.Data.Finset.Lattice.Fold
import Mathlib.Data.Fintype.Card
import Mathlib.Order.Lattice.Nat

/-! # Bounds on the counts

No frame ever counts more mappings than there are entries that map it, whatever is copied where.  So
no count exceeds the number of pages of all address spaces, and a counter of 32 bits never wraps
around. -/

namespace Exokernel

variable {b : Option Backing} {m : Memory} {rest tables : List PageTable}

/-- No frame counts more mappings than there are, with the one that is carried. -/
structure Covered (b : Option Backing) (m : Memory) (tables : List PageTable) : Prop where
  count_le : ∀ pa, m.refs.count pa ≤ mapsIn tables pa + held b pa
  wellFormed : ∀ t ∈ tables, t.WellFormed

theorem Covered.retain (h : Covered none m tables) (b : Backing) :
    Covered (some b) (m.retain b) tables := by
  refine ⟨fun q => ?_, h.wellFormed⟩
  have hle := h.count_le q
  rw [held_none] at hle
  rw [held_some]
  cases b with
  | device pa | lazy fill => exact Nat.le_add_right_of_le hle
  | frame pa =>
      rw [Memory.retain, RefCounts.count_retain, Backing.holds_frame]
      by_cases hq : pa = q
      · rw [if_pos hq, if_pos hq.symm]
        exact Nat.succ_le_succ hle
      · rw [if_neg hq, if_neg (Ne.symm hq)]
        exact hle

theorem Covered.release {b : Backing} (h : Covered (some b) m tables) :
    Covered none (m.release b) tables := by
  refine ⟨fun q => ?_, h.wellFormed⟩
  have hle := h.count_le q
  rw [held_some] at hle
  rw [held_none]
  cases b with
  | device pa | lazy fill => exact hle
  | frame pa =>
      rw [Backing.holds_frame] at hle
      rw [Memory.release]
      split
      · next hzero =>
        change m.refs.count q ≤ _
        by_cases hq : q = pa
        · rw [hq, hzero]
          exact Nat.zero_le _
        · rwa [if_neg hq] at hle
      · next hone =>
        rw [RefCounts.count_erase]
        by_cases hq : q = pa
        · rw [if_pos hq.symm]
          exact Nat.zero_le _
        · rw [if_neg (Ne.symm hq)]
          rwa [if_neg hq] at hle
      · next n hcount =>
        rw [RefCounts.count_set]
        by_cases hq : q = pa
        · rw [if_pos hq, hq, hcount] at hle
          rw [if_pos hq.symm, hq]
          exact Nat.le_of_succ_le_succ hle
        · rw [if_neg (Ne.symm hq)]
          rwa [if_neg hq] at hle

theorem Covered.fresh {m' : Memory} {fill : Fill} {pa : PhysAddr} (h : Covered none m tables)
    (hfresh : m.fresh? fill = some (pa, m')) : Covered (some (.frame pa)) m' tables := by
  obtain ⟨machine, -, rfl⟩ := Memory.fresh?_eq_some hfresh
  refine ⟨fun q => ?_, h.wellFormed⟩
  have hle := h.count_le q
  rw [held_none] at hle
  rw [held_some, Backing.holds_frame, RefCounts.count_set]
  by_cases hq : pa = q
  · rw [if_pos hq, if_pos hq.symm]
    exact Nat.le_add_left 1 _
  · rw [if_neg hq, if_neg (Ne.symm hq)]
    exact hle

theorem books_covered : Books Covered where
  wellFormed h := h.wellFormed
  perm h hperm := by
    refine ⟨fun pa => ?_, fun t ht => h.wellFormed t (hperm.mem_iff.mp ht)⟩
    rw [mapsIn_perm hperm]
    exact h.count_le pa
  of_eq h _ hrefs := by
    refine ⟨fun pa => ?_, h.wellFormed⟩
    rw [hrefs]
    exact h.count_le pa
  update _ _ h := ⟨h.count_le, h.wellFormed⟩
  carry h _ := ⟨fun pa => Nat.le_add_right_of_le (h.count_le pa), h.wellFormed⟩
  fresh h hfresh := h.fresh hfresh
  retain h _ := h.retain _
  release h := h.release
  insert {m m' refs t t' p e old rest} h hinsert := by
    refine ⟨fun pa => ?_, fun t'' ht => ?_⟩
    · rw [mapsIn_insert hinsert rest pa]
      have hle := h.count_le pa
      rwa [held_some] at hle
    · rcases List.mem_cons.mp ht with rfl | ht
      · exact (h.wellFormed t List.mem_cons_self).insert hinsert
      · exact h.wellFormed t'' (List.mem_cons_of_mem _ ht)
  remove {m m' refs t t' p old rest} h hremove := by
    have hwf := h.wellFormed t List.mem_cons_self
    refine ⟨fun pa => ?_, fun t'' ht => ?_⟩
    · rw [mapsIn_remove hwf hremove rest pa]
      have hle := h.count_le pa
      rwa [held_none, Nat.add_zero] at hle
    · rcases List.mem_cons.mp ht with rfl | ht
      · have hafter := hwf.remove m p
        rwa [hremove] at hafter
      · exact h.wellFormed t'' (List.mem_cons_of_mem _ ht)
  materialise {m t p fill flags pa rest} h hlookup := by
    refine ⟨fun q => ?_, fun t' ht => ?_⟩
    · rw [mapsIn_materialise hlookup, held_none, Nat.add_zero]
      have hle := h.count_le q
      rwa [held_some] at hle
    · rcases List.mem_cons.mp ht with rfl | ht
      · exact (h.wellFormed t List.mem_cons_self).modify p _
      · exact h.wellFormed t' (List.mem_cons_of_mem _ ht)
  cons_empty h := by
    refine ⟨fun pa => ?_, fun t ht => ?_⟩
    · rw [mapsIn_cons, PageTable.mapCount_empty, Nat.zero_add]
      exact h.count_le pa
    · rcases List.mem_cons.mp ht with rfl | ht
      · exact PageTable.wellFormed_empty
      · exact h.wellFormed t ht
  close {m t rest} h hnone := by
    refine ⟨fun pa => ?_, fun t' ht => h.wellFormed t' (List.mem_cons_of_mem _ ht)⟩
    have hle := h.count_le pa
    rwa [mapsIn_cons, PageTable.mapCount_eq_zero hnone, Nat.zero_add] at hle

/-- A copy within one address space keeps the bound, too, even where it loses a frame. -/
theorem covered_copyWithin (src dst : PageRange) (rights : MapRights) :
    Keeps (Space.Booked Covered rest) (Space.copyWithin src dst rights) := by
  intro s h
  have hpopulated : Space.Booked Covered rest (stateOf (Space.populateAll src.toList s)) :=
    books_covered.populateAll _ s h
  apply Space.stateOf_copyWithin (I := Space.Booked Covered rest) h
  · exact fun _ => hpopulated
  · intro s₁ hpopulate _
    rw [hpopulate] at hpopulated
    refine Space.keeps_sharePages (fun x _ => ?_) s₁ hpopulated
    rintro ⟨memory, table⟩ ht
    have hcarried : Covered (some x.2) (memory.retain x.2) (table :: rest) := Covered.retain ht x.2
    rw [Space.sharePage]
    exact books_covered.place (s := ⟨_, _⟩) hcarried
  · exact fun _ _ hu => books_covered.note hu _ _ _

theorem Service.Effect.covered {caller : Caller} {args : Args} {call : Syscall} {s t : Realm}
    (heffect : Effect caller args s call t) (h : Realm.Booked Covered s) :
    Realm.Booked Covered t :=
  heffect.booked books_covered h fun _ _ src dst rights _ => covered_copyWithin src dst rights

/-! ## How many mappings there can be -/

theorem mapsIn_le (tables : List PageTable) (pa : PhysAddr) :
    mapsIn tables pa ≤ tables.length * userPages := by
  induction tables with
  | nil => exact Nat.zero_le _
  | cons t rest ih =>
      have hle : t.mapCount pa ≤ userPages :=
        (Finset.card_filter_le _ _).trans (Nat.le_of_eq (Fintype.card_fin userPages))
      rw [mapsIn_cons, List.length_cons, Nat.succ_mul, Nat.add_comm]
      exact Nat.add_le_add ih hle

theorem Registry.length_tables_le (r : Registry) : r.tables.length ≤ r.capacity := by
  have hle := List.length_filterMap_le (fun index =>
    if index ∈ [] then none else (r.env? index).map Env.table) (List.range r.capacity)
  rwa [List.length_range] at hle

/-- With as many address spaces as there can be, each count fits in 32 bits, also while a mapping is
counted whose entry is not in place yet. -/
theorem Covered.count_lt (h : Covered b m tables) (hlength : tables.length ≤ maxEnvs)
    (pa : PhysAddr) :
    m.refs.count pa < 2 ^ 32 := by
  have hcarried : held b pa ≤ 1 := by
    rw [held]
    split <;> decide
  have hpages : tables.length * userPages ≤ maxEnvs * userPages := Nat.mul_le_mul_right _ hlength
  calc m.refs.count pa ≤ mapsIn tables pa + held b pa := h.count_le pa
    _ ≤ maxEnvs * userPages + 1 := Nat.add_le_add ((mapsIn_le tables pa).trans hpages) hcarried
    _ < 2 ^ 32 := by decide

theorem Covered.sharers_le (h : Covered none m tables) (b : Backing) :
    m.sharers b ≤ tables.length * userPages + 1 := by
  cases b with
  | device pa | lazy fill => exact Nat.le_add_left 1 _
  | frame pa => exact Nat.le_succ_of_le ((h.count_le pa).trans (mapsIn_le tables pa))

theorem Space.maxRefs_eq_sup (m : Memory) (table : PageTable) (r : PageRange) :
    maxRefs m table r = r.toList.toFinset.sup (pageRefs m table) := by
  have hfold : ∀ (pages : List VirtPage) most,
      pages.foldl (fun most p => max most (pageRefs m table p)) most =
        max most (pages.toFinset.sup (pageRefs m table)) := by
    intro pages
    induction pages with
    | nil => exact fun most => (Nat.max_zero most).symm
    | cons p rest ih =>
        intro most
        rw [List.foldl_cons, ih, List.toFinset_cons, Finset.sup_insert, Nat.max_assoc]
  exact (hfold r.toList 0).trans (Nat.zero_max _)

theorem Covered.maxRefs_le (h : Covered none m tables) (table : PageTable) (r : PageRange) :
    Space.maxRefs m table r ≤ tables.length * userPages + 1 := by
  rw [Space.maxRefs_eq_sup]
  refine Finset.sup_le fun p _ => ?_
  rw [Space.pageRefs]
  split
  · exact Nat.zero_le _
  · exact h.sharers_le _

theorem sharingExcess_lt {s : Realm} (h : s.Booked Covered)
    (hcapacity : s.registry.capacity ≤ maxEnvs) (table : PageTable) (args : Args) :
    Service.sharingExcess s.memory table args < 2 ^ 63 := by
  have hlength : s.registry.tables.length ≤ maxEnvs := s.registry.length_tables_le.trans hcapacity
  have hmost : ∀ r : Option PageRange, (r.map (Space.maxRefs s.memory table)).getD 0 ≤
      s.registry.tables.length * userPages + 1 := by
    rintro (_ | r)
    · exact Nat.zero_le _
    · exact Covered.maxRefs_le h table r
  refine Nat.lt_of_le_of_lt ((Nat.sub_le _ _).trans (hmost _)) ?_
  have hle : s.registry.tables.length * userPages ≤ maxEnvs * userPages :=
    Nat.mul_le_mul_right _ hlength
  refine Nat.lt_of_le_of_lt (Nat.succ_le_succ hle) ?_
  decide

end Exokernel
