import Exokernel.Proofs.Mapping.Listing
import Mathlib.Logic.Function.Basic

/-! # Page tables as flat maps

To its callers a page table is a map from pages to entries that now and then refuses a page for want
of memory.  Whatever is done to it, it gives the answers of such a flat map, which knows neither
leaf tables nor frames: it counts the regions of 512 pages in which it has an entry, and refuses the
first page of a region when the memory holds no more of them. -/

namespace Exokernel

open Finset

/-! ## Changes -/

/-- A change of one page. -/
inductive PageChange where
  | insert (p : VirtPage) (e : PageEntry)
  | remove (p : VirtPage)
  /-- A write through a reference to the entry, if the page has one. -/
  | write (p : VirtPage) (f : PageEntry → PageEntry)

namespace PageChange

/-- The answer to a change: the entry that the page had before, or none if the change was
refused. -/
abbrev Answer := Option (Option PageEntry)

/-- The answers to changes that are made one after the other, and the state in the end. -/
def run {σ : Type} (step : σ → PageChange → Answer × σ) : σ → List PageChange → List Answer × σ
  | s, [] => ([], s)
  | s, change :: rest =>
    let (answer, s') := step s change
    let (answers, last) := run step s' rest
    (answer :: answers, last)

def fill (r : PageRange) (entry : VirtPage → PageEntry) : List PageChange :=
  r.toList.map fun p => .insert p (entry p)

variable {σ τ : Type} {step : σ → PageChange → Answer × σ}

theorem run_cons (s : σ) (change : PageChange) (rest : List PageChange) :
    run step s (change :: rest) =
      ((step s change).1 :: (run step (step s change).2 rest).1, (run step (step s change).2 rest).2) :=
  rfl

theorem run_keeps {I : σ → Prop} (hstep : ∀ s change, I s → I (step s change).2) {s : σ} (h : I s)
    (changes : List PageChange) : I (run step s changes).2 := by
  induction changes generalizing s with
  | nil => exact h
  | cons change rest ih => exact ih (hstep s change h)

/-- Where one change looks the same from above and from below, so do any number of them. -/
theorem run_view {view : σ → τ} {above : τ → PageChange → Answer × τ} {I : σ → Prop}
    (hkeeps : ∀ s change, I s → I (step s change).2)
    (hview : ∀ s change, I s → above (view s) change = ((step s change).1, view (step s change).2))
    {s : σ} (h : I s) (changes : List PageChange) :
    run above (view s) changes = ((run step s changes).1, view (run step s changes).2) := by
  induction changes generalizing s with
  | nil => rfl
  | cons change rest ih =>
      rw [run_cons, run_cons, hview s change h, ih (hkeeps s change h)]

end PageChange

/-! ## Flat maps -/

/-- The entries of the mapped pages, and nothing else. -/
abbrev FlatMap := VirtPage → Option PageEntry

namespace FlatMap

def empty : FlatMap := fun _ => none

def mapped (map : FlatMap) : Finset VirtPage := {p | (map p).isSome = true}

/-- The regions of 512 pages that have an entry. -/
def regions (map : FlatMap) : Finset (Fin leafTables) := map.mapped.image VirtPage.leaf

/-- Changes one page, with room for so many regions. -/
def step (room : Nat) (map : FlatMap) : PageChange → PageChange.Answer × FlatMap
  | .insert p e =>
    if p.leaf ∈ map.regions ∨ #(map.regions) < room then (some (map p), Function.update map p (some e))
    else (none, map)
  | .remove p => (some (map p), Function.update map p none)
  | .write p f => (some (map p), Function.update map p ((map p).map f))

theorem mem_regions {map : FlatMap} {d : Fin leafTables} :
    d ∈ map.regions ↔ ∃ p, p.leaf = d ∧ (map p).isSome = true := by
  simp [regions, mapped, and_comm]

end FlatMap

namespace PageTable

variable {t t' : PageTable} {m m' : Machine} {p : VirtPage} {e : PageEntry} {old : Option PageEntry}

theorem WellFormed.isSome_leaf?_iff (hwf : t.WellFormed) (d : Fin leafTables) :
    (t.leaf? d).isSome = true ↔ d ∈ FlatMap.regions t.lookup := by
  rw [Option.isSome_iff_ne_none, Ne, hwf.leaf?_eq_none_iff, FlatMap.mem_regions]
  simp [Option.isSome_iff_ne_none]

theorem WellFormed.tablePages_eq_card_regions (hwf : t.WellFormed) :
    t.tablePages = #(FlatMap.regions t.lookup) := by
  have hregions : FlatMap.regions t.lookup =
      ({d | (t.leaf? d).isSome = true} : Finset (Fin leafTables)) := by
    ext d
    rw [← hwf.isSome_leaf?_iff, mem_filter]
    exact (and_iff_right (mem_univ d)).symm
  rw [tablePages_eq, hregions]

theorem size_of_leaf? {d : Fin leafTables} {leaf : LeafTable} (h : t.leaf? d = some leaf) :
    leaf.size = #{slot | (t.lookup (.ofLeafSlot d slot)).isSome = true} := by
  simp [LeafTable.size, lookup, h]

theorem insert_eq_none_iff :
    t.insert m p e = none ↔ t.leaf? p.leaf = none ∧ m.pool.free = [] := by
  rw [insert]
  cases hleaf : t.leaf? p.leaf with
  | some leaf => cases hget : leaf.get? p.slot <;> simp [hget]
  | none =>
      rw [Machine.alloc?, FramePool.alloc?]
      cases m.pool.free <;> simp

/-- A page that is mapped takes a frame from the pool exactly if it is the first of its leaf
table. -/
theorem freeFrames_of_insert (h : t.insert m p e = some (old, t', m')) :
    (m' = m ∧ ∀ rest, t.needed (p :: rest) = t'.needed rest) ∨
      (m.pool.freeFrames = m'.pool.freeFrames + 1 ∧
        ∀ rest, t.needed (p :: rest) = t'.needed rest + 1) := by
  rw [insert] at h
  split at h
  · next leaf hleaf =>
    split at h
    all_goals
      cases h
      exact Or.inl ⟨rfl, needed_cons_modifyLeaf hleaf _⟩
  · next hleaf =>
    split at h
    · cases h
    · next frame machine halloc =>
      cases h
      refine Or.inr ⟨?_, needed_cons_of_missing hleaf _⟩
      have hpool := Machine.pool_of_alloc? halloc
      rw [FramePool.alloc?] at hpool
      split at hpool
      · cases hpool
      · next index rest hfree =>
        obtain ⟨-, hnext⟩ := Prod.mk.inj (Option.some.inj hpool)
        rw [← hnext, FramePool.freeFrames, hfree]
        rfl

end PageTable

/-! ## Page tables over a machine -/

/-- A page table and the machine that its leaf tables take their frames from. -/
structure Paging where
  table : PageTable
  machine : Machine

namespace Paging

def start (machine : Machine) : Paging := ⟨.empty, machine⟩

def step (s : Paging) : PageChange → PageChange.Answer × Paging
  | .insert p e =>
    match s.table.insert s.machine p e with
    | none => (none, s)
    | some (old, table, machine) => (some old, ⟨table, machine⟩)
  | .remove p =>
    let (old, table, machine) := s.table.remove s.machine p
    (some old, ⟨table, machine⟩)
  | .write p f => (some (s.table.lookup p), { s with table := s.table.modify p f })

def freeFrames (s : Paging) : Nat := s.machine.pool.freeFrames

variable {m₀ : Machine} {s : Paging}

/-- The leaf tables are well formed and lie on frames that were free on the machine `m₀`; the other
frames are as they were. -/
structure Sound (m₀ : Machine) (s : Paging) : Prop where
  wellFormed : s.table.WellFormed
  ledger : Ledger ⟨s.machine, .empty⟩ (fun _ => 0) s.table.leafFrames
    fun pa => m₀.pool.isUsed pa = true
  freeFrames_add : s.freeFrames + s.table.tablePages = m₀.pool.freeFrames

theorem sound_start (h : m₀.pool.Consistent) : Sound m₀ (start m₀) where
  wellFormed := PageTable.wellFormed_empty
  ledger := by
    rw [start, PageTable.leafFrames_empty]
    exact .of_pool h
  freeFrames_add := by
    rw [← PageTable.length_leafFrames, start, PageTable.leafFrames_empty]
    rfl

theorem Sound.of_perm (h : Sound m₀ s) {table : PageTable} (hwf : table.WellFormed)
    (hperm : table.leafFrames.Perm s.table.leafFrames) : Sound m₀ ⟨table, s.machine⟩ := by
  refine ⟨hwf, h.ledger.congr (fun _ => rfl) hperm, ?_⟩
  rw [← PageTable.length_leafFrames, hperm.length_eq, PageTable.length_leafFrames]
  exact h.freeFrames_add

theorem Sound.insert (h : Sound m₀ s) {p : VirtPage} {e : PageEntry} {old : Option PageEntry}
    {table : PageTable} {machine : Machine}
    (hinsert : s.table.insert s.machine p e = some (old, table, machine)) :
    Sound m₀ ⟨table, machine⟩ := by
  have hwf := h.wellFormed.insert hinsert
  rcases PageTable.leafFrames_insert hinsert with ⟨rfl, hperm⟩ | ⟨frame, halloc, hperm⟩
  · exact h.of_perm hwf hperm
  · have hgrant := h.ledger.consistent.grants (Machine.pool_of_alloc? halloc)
    refine ⟨hwf, (h.ledger.allocLeaf hgrant).congr (fun _ => rfl) hperm, ?_⟩
    have hbefore := h.freeFrames_add
    rw [freeFrames, hgrant.freeFrames_eq] at hbefore
    change machine.pool.freeFrames + table.tablePages = _
    rw [← PageTable.length_leafFrames, hperm.length_eq, List.length_cons,
      PageTable.length_leafFrames]
    omega

theorem Sound.remove (h : Sound m₀ s) (p : VirtPage) :
    Sound m₀ ⟨(s.table.remove s.machine p).2.1, (s.table.remove s.machine p).2.2⟩ := by
  have hwf := h.wellFormed.remove s.machine p
  rcases PageTable.leafFrames_remove s.table s.machine p with ⟨hsame, hperm⟩ | ⟨frame, hfree, hperm⟩
  · rw [hsame]
    exact h.of_perm hwf hperm
  · rw [hfree]
    have hledger := h.ledger.congr (fun _ => rfl) hperm.symm
    refine ⟨hwf, hledger.freeLeaf, ?_⟩
    have hused := (hledger.used_iff frame).mpr (Or.inr (Or.inl List.mem_cons_self))
    obtain ⟨pool, hpool, hreclaims⟩ := Machine.free_of_isUsed h.ledger.consistent hused
    have hbefore := h.freeFrames_add
    rw [← PageTable.length_leafFrames, hperm.length_eq, List.length_cons,
      PageTable.length_leafFrames] at hbefore
    rw [hpool, ← hbefore, freeFrames, hreclaims.freeFrames_eq, freeFrames]
    exact Nat.add_right_comm _ _ _

theorem Sound.step (h : Sound m₀ s) (change : PageChange) : Sound m₀ (s.step change).2 := by
  cases change with
  | insert p e =>
      rw [Paging.step]
      split
      · exact h
      · next hinsert => exact h.insert hinsert
  | remove p => exact h.remove p
  | write p f => exact h.of_perm (h.wellFormed.modify p f) (PageTable.leafFrames_modify s.table p f)

theorem Sound.insert_eq_none_iff (h : Sound m₀ s) (p : VirtPage) (e : PageEntry) :
    s.table.insert s.machine p e = none ↔
      ¬ (p.leaf ∈ FlatMap.regions s.table.lookup ∨
        #(FlatMap.regions s.table.lookup) < m₀.pool.freeFrames) := by
  have hroom := h.freeFrames_add
  rw [h.wellFormed.tablePages_eq_card_regions] at hroom
  have hfree : s.machine.pool.free = [] ↔ s.freeFrames = 0 := List.length_eq_zero_iff.symm
  rw [PageTable.insert_eq_none_iff, hfree, ← h.wellFormed.isSome_leaf?_iff, not_or,
    Option.not_isSome_iff_eq_none, Nat.not_lt]
  exact and_congr_right fun _ => by omega

/-- What one change does is what it does to the flat map. -/
theorem Sound.step_lookup (h : Sound m₀ s) (change : PageChange) :
    FlatMap.step m₀.pool.freeFrames s.table.lookup change =
      ((s.step change).1, (s.step change).2.table.lookup) := by
  cases change with
  | insert p e =>
      have hrefused := h.insert_eq_none_iff p e
      rw [FlatMap.step, Paging.step]
      cases hinsert : s.table.insert s.machine p e with
      | none =>
          rw [if_neg (hrefused.mp hinsert)]
      | some result =>
          obtain ⟨old, table, machine⟩ := result
          have hroom : p.leaf ∈ FlatMap.regions s.table.lookup ∨
              #(FlatMap.regions s.table.lookup) < m₀.pool.freeFrames := by
            by_contra hfull
            rw [hrefused.mpr hfull] at hinsert
            cases hinsert
          rw [if_pos hroom, PageTable.old_of_insert hinsert]
          congr 1
          funext q
          rw [PageTable.lookup_insert hinsert, Function.update_apply]
          simp only [eq_comm]
  | remove p =>
      refine Prod.ext (congrArg some (PageTable.fst_remove s.table s.machine p).symm) (funext fun q => ?_)
      change Function.update s.table.lookup p none q = (s.table.remove s.machine p).2.1.lookup q
      rw [h.wellFormed.lookup_remove, Function.update_apply]
      simp only [eq_comm]
  | write p f =>
      refine Prod.ext rfl (funext fun q => ?_)
      change Function.update s.table.lookup p ((s.table.lookup p).map f) q =
        (s.table.modify p f).lookup q
      rw [PageTable.lookup_modify, Function.update_apply]
      by_cases hq : q = p
      · rw [if_pos hq, if_pos hq.symm, hq]
      · rw [if_neg hq, if_neg (Ne.symm hq)]

/-! ## Filling a range -/

/-- Mapping pages one after the other takes the frames that are needed for them, or all that there
are; in that case some page is refused. -/
theorem run_insert (entry : VirtPage → PageEntry) (pages : List VirtPage) (s : Paging) :
    let result := PageChange.run step s (pages.map fun p => .insert p (entry p))
    (none ∉ result.1 ↔ s.table.needed pages ≤ s.freeFrames) ∧
      result.2.freeFrames + min (s.table.needed pages) s.freeFrames = s.freeFrames := by
  induction pages generalizing s with
  | nil => simp [PageChange.run, PageTable.needed, PageTable.missingLeaves]
  | cons p rest ih =>
      simp only [List.map_cons, PageChange.run_cons, List.mem_cons, not_or]
      cases hinsert : s.table.insert s.machine p (entry p) with
      | none =>
          have hstep : s.step (.insert p (entry p)) = (none, s) := by simp only [step, hinsert]
          obtain ⟨hleaf, hfree⟩ := PageTable.insert_eq_none_iff.mp hinsert
          have hempty : s.freeFrames = 0 := congrArg List.length hfree
          have hneeded := PageTable.needed_cons_of_missing hleaf (.single ⟨0⟩ p.slot (entry p)) rest
          have hrest := (ih s).2
          rw [hstep]
          refine ⟨iff_of_false (fun hnot => hnot.1 rfl) (by omega), ?_⟩
          simp only
          omega
      | some result =>
          obtain ⟨old, table, machine⟩ := result
          have hstep : s.step (.insert p (entry p)) = (some old, ⟨table, machine⟩) := by
            simp only [step, hinsert]
          obtain ⟨hgranted, hdrawn⟩ := ih ⟨table, machine⟩
          rw [hstep, hgranted]
          rcases PageTable.freeFrames_of_insert hinsert with ⟨rfl, hneeded⟩ | ⟨hfree, hneeded⟩
          · rw [hneeded]
            exact ⟨and_iff_right (Option.some_ne_none old).symm, hdrawn⟩
          · have hbefore : s.freeFrames = freeFrames ⟨table, machine⟩ + 1 := hfree
            rw [hneeded, hbefore]
            refine ⟨(and_iff_right (Option.some_ne_none old).symm).trans Nat.succ_le_succ_iff.symm, ?_⟩
            simp only at hdrawn ⊢
            omega

/-! ## Whole histories -/

/-- The page table shows the flat map, on frames that were free on the machine `m₀`. -/
structure Represents (m₀ : Machine) (map : FlatMap) (s : Paging) : Prop where
  lookup_eq : ∀ p, s.table.lookup p = map p
  /-- A refused page changes nothing. -/
  refused : ∀ change, (s.step change).1 = none → (s.step change).2 = s
  /-- A leaf table counts its entries, and is gone before it counts none. -/
  live_eq : ∀ d leaf, s.table.leaf? d = some leaf →
    leaf.live = #{slot | (map (.ofLeafSlot d slot)).isSome = true} ∧ 0 < leaf.live
  leaf_iff : ∀ d, (s.table.leaf? d).isSome = true ↔ d ∈ map.regions
  frames_nodup : s.table.leafFrames.Nodup
  frames_free : ∀ pa ∈ s.table.leafFrames, m₀.pool.isUsed pa = false
  used_iff : ∀ pa, s.machine.pool.isUsed pa = true ↔
    pa ∈ s.table.leafFrames ∨ m₀.pool.isUsed pa = true
  freeFrames_add : s.freeFrames + #(map.regions) = m₀.pool.freeFrames
  tablePages_eq : s.table.tablePages = #(map.regions)
  mappedPages_eq : s.table.mappedPages = #(map.mapped)
  mem_mappings : ∀ p e, (p, e) ∈ s.table.mappings ↔ map p = some e
  ascending : s.table.mappings.Pairwise fun x y => x.1.start < y.1.start
  /-- One pass over a range counts its missing leaf tables. -/
  missing_eq : ∀ r : PageRange, s.table.missingTables r = s.table.missingAlong none r.toList
  /-- A range can be filled exactly if there is a frame for each of them. -/
  fill_granted : ∀ r entry, none ∉ (PageChange.run step s (PageChange.fill r entry)).1 ↔
    s.table.missingTables r ≤ s.freeFrames
  fill_draws : ∀ r entry, (PageChange.run step s (PageChange.fill r entry)).2.freeFrames +
    min (s.table.missingTables r) s.freeFrames = s.freeFrames

theorem Sound.represents (h : Sound m₀ s) : Represents m₀ s.table.lookup s where
  lookup_eq _ := rfl
  refused change hrefused := by
    cases change with
    | insert p e =>
        rw [Paging.step] at hrefused ⊢
        split at hrefused
        · rfl
        · cases hrefused
    | remove p => cases hrefused
    | write p f => cases hrefused
  live_eq d leaf hleaf := by
    rw [← PageTable.size_of_leaf? hleaf]
    exact ⟨(h.wellFormed d leaf hleaf).live_eq, (h.wellFormed d leaf hleaf).live_pos⟩
  leaf_iff := h.wellFormed.isSome_leaf?_iff
  frames_nodup := h.ledger.leaves_nodup
  frames_free pa hpa := by
    rw [← Bool.not_eq_true]
    exact fun hused => (h.ledger.stray_apart pa hused).2 hpa
  used_iff pa := by
    rw [h.ledger.used_iff]
    simp
  freeFrames_add := h.wellFormed.tablePages_eq_card_regions ▸ h.freeFrames_add
  tablePages_eq := h.wellFormed.tablePages_eq_card_regions
  mappedPages_eq := h.wellFormed.mappedPages_eq
  mem_mappings _ _ := PageTable.mem_mappings
  ascending := s.table.pairwise_mappings
  missing_eq := s.table.missingTables_eq_missingAlong
  fill_granted r entry := by
    rw [← PageTable.needed_toList]
    exact (run_insert entry r.toList s).1
  fill_draws r entry := by
    rw [← PageTable.needed_toList]
    exact (run_insert entry r.toList s).2

/-- A page table that starts empty and takes its frames from the pool of a machine gives the answers
of a flat map with room for as many regions as frames are free, and shows that map in the end. -/
theorem represents_run (m₀ : Machine) (h : m₀.pool.Consistent) (changes : List PageChange) :
    (PageChange.run step (start m₀) changes).1 =
        (PageChange.run (FlatMap.step m₀.pool.freeFrames) .empty changes).1 ∧
      Represents m₀ (PageChange.run (FlatMap.step m₀.pool.freeFrames) .empty changes).2
        (PageChange.run step (start m₀) changes).2 := by
  have hkeeps : ∀ s change, Sound m₀ s → Sound m₀ (s.step change).2 := fun _ change hs => hs.step change
  have hempty : (start m₀).table.lookup = FlatMap.empty := funext PageTable.lookup_empty
  have hview := PageChange.run_view hkeeps (fun _ change hs => hs.step_lookup change) (sound_start h)
    changes
  rw [hempty] at hview
  rw [hview]
  exact ⟨rfl, (PageChange.run_keeps hkeeps (sound_start h) changes).represents⟩

/-- A page `p` is mapped, changed and unmapped, and a page `q` is mapped before and after it is
gone. -/
def turnTaking (p q : VirtPage) (e e' : PageEntry) : List PageChange :=
  [.insert p e, .insert q e, .write p fun _ => e', .remove p, .insert q e]

/-- A machine with one frame has room for one region at a time. -/
theorem represents_twoRegions :
    let machine : Machine := .sound (.fresh 1 []) (.withFilter none)
    let e : PageEntry := ⟨.lazy .zero, ⟨true, true, true, false, true, false⟩⟩
    let e' : PageEntry := ⟨.device ⟨0x200000⟩, ⟨true, true, false, false, true, true⟩⟩
    machine.pool.Consistent ∧
      (PageChange.run (FlatMap.step machine.pool.freeFrames) .empty (turnTaking 0 512 e e')).1 =
        [some none, none, some (some e), some (some e'), some none] ∧
      Represents machine
        (PageChange.run (FlatMap.step machine.pool.freeFrames) .empty (turnTaking 0 512 e e')).2
        (PageChange.run step (start machine) (turnTaking 0 512 e e')).2 := by
  intro machine e e'
  have hpool : machine.pool.Consistent := FramePool.consistent_fresh 1 []
  obtain ⟨hanswers, hmap⟩ := represents_run machine hpool (turnTaking 0 512 e e')
  refine ⟨hpool, ?_, hmap⟩
  rw [← hanswers]
  decide +kernel

end Paging

end Exokernel
