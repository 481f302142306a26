import Exokernel.Mapping.PageTable
import Exokernel.Proofs.Memory.Ledger
import Mathlib.Algebra.BigOperators.Group.Finset.Basic
import Mathlib.Algebra.Ring.Nat
import Mathlib.Data.Fintype.Basic

/-! # What a page table holds

A table holds the frames that its entries map and the frames of its leaf tables.  Mapping a page and
unmapping one change both in step with what is taken from the machine and given back to it. -/

namespace Exokernel

open Finset

/-- Two counts of a finite type that differ at most at one of its elements. -/
private theorem card_filter_add_ite {α : Type*} [Fintype α] [DecidableEq α] {P Q : α → Prop}
    [DecidablePred P] [DecidablePred Q] (a : α) (h : ∀ x, a ≠ x → (Q x ↔ P x)) :
    #{x | Q x} + (if P a then 1 else 0) = #{x | P x} + (if Q a then 1 else 0) := by
  have split : ∀ (R : α → Prop) [DecidablePred R],
      #{x | R x} = (if R a then 1 else 0) + #{x ∈ univ.erase a | R x} := by
    intro R _
    conv_lhs => rw [← insert_erase (mem_univ a)]
    rw [filter_insert]
    split
    · rw [card_insert_of_notMem (by simp), Nat.add_comm]
    · rw [Nat.zero_add]
  have rest : #{x ∈ univ.erase a | Q x} = #{x ∈ univ.erase a | P x} := by
    congr 1
    apply filter_congr
    intro x hx
    exact h x (ne_of_mem_erase hx).symm
  rw [split Q, split P, rest]
  omega

/-- How often what a page is mapped to holds a frame; a hole holds none. -/
def held (b : Option Backing) (pa : PhysAddr) : Nat := if b = some (.frame pa) then 1 else 0

@[simp] theorem held_none (pa : PhysAddr) : held none pa = 0 := rfl

theorem held_of_ne {b : Option Backing} {pa : PhysAddr} (h : b ≠ some (.frame pa)) :
    held b pa = 0 :=
  if_neg h

@[simp] theorem held_some (b : Backing) (pa : PhysAddr) : held (some b) pa = b.holds pa := by
  simp [held, Backing.holds]

namespace VirtPage

@[simp] theorem leaf_ofLeafSlot (d : Fin leafTables) (s : Fin leafEntries) :
    (ofLeafSlot d s).leaf = d := by
  apply Fin.ext
  simp only [ofLeafSlot, leaf, leafEntries]
  omega

@[simp] theorem slot_ofLeafSlot (d : Fin leafTables) (s : Fin leafEntries) :
    (ofLeafSlot d s).slot = s := by
  apply Fin.ext
  simp only [ofLeafSlot, slot, leafEntries]
  omega

end VirtPage

namespace LeafTable

def size (leaf : LeafTable) : Nat := #{s | (leaf.get? s).isSome = true}

/-- The live counter is right, and there is an entry. -/
structure WellFormed (leaf : LeafTable) : Prop where
  live_eq : leaf.live = leaf.size
  live_pos : 0 < leaf.live

theorem size_of_get? {leaf leaf' : LeafTable} {slot : Fin leafEntries} {e : Option PageEntry}
    (h : ∀ s, leaf'.get? s = if slot = s then e else leaf.get? s) :
    leaf'.size + (if (leaf.get? slot).isSome = true then 1 else 0) =
      leaf.size + (if e.isSome = true then 1 else 0) := by
  have hslot : leaf'.get? slot = e := by rw [h, if_pos rfl]
  rw [← hslot]
  apply card_filter_add_ite slot
  intro s hs
  rw [h, if_neg hs]

theorem size_single (frame : PhysAddr) (slot : Fin leafEntries) (e : PageEntry) :
    (single frame slot e).size = 1 := by
  rw [size, card_eq_one]
  refine ⟨slot, ?_⟩
  ext s
  rw [mem_filter, mem_singleton, get?_single]
  by_cases h : slot = s
  · simp [h]
  · simp [h, Ne.symm h]

theorem wellFormed_single (frame : PhysAddr) (slot : Fin leafEntries) (e : PageEntry) :
    (single frame slot e).WellFormed :=
  ⟨(size_single frame slot e).symm, Nat.one_pos⟩

theorem WellFormed.add {leaf : LeafTable} (h : leaf.WellFormed) {slot : Fin leafEntries}
    (hslot : leaf.get? slot = none) (e : PageEntry) : (leaf.add slot e).WellFormed := by
  have hsize := size_of_get? (get?_add leaf slot · e)
  rw [hslot] at hsize
  refine ⟨?_, Nat.succ_pos _⟩
  change leaf.live + 1 = _
  rw [h.live_eq]
  simpa using hsize.symm

theorem WellFormed.replace {leaf : LeafTable} (h : leaf.WellFormed) {slot : Fin leafEntries}
    {old : PageEntry} (hslot : leaf.get? slot = some old) (e : PageEntry) :
    (leaf.replace slot e).WellFormed := by
  have hsize := size_of_get? (get?_replace leaf slot · e)
  rw [hslot] at hsize
  refine ⟨?_, h.live_pos⟩
  change leaf.live = _
  rw [h.live_eq]
  simpa using hsize.symm

theorem WellFormed.clear {leaf : LeafTable} (h : leaf.WellFormed) {slot : Fin leafEntries}
    {old : PageEntry} (hslot : leaf.get? slot = some old) (hlive : 1 < leaf.live) :
    (leaf.clear slot).WellFormed := by
  have hsize := size_of_get? (get?_clear leaf slot)
  rw [hslot, ← h.live_eq] at hsize
  simp only [Option.isSome_some, Option.isSome_none, if_true, Bool.false_eq_true, if_false] at hsize
  refine ⟨?_, Nat.sub_pos_of_lt hlive⟩
  change leaf.live - 1 = _
  omega

theorem WellFormed.get?_eq_none {leaf : LeafTable} (h : leaf.WellFormed) {slot s : Fin leafEntries}
    {old : PageEntry} (hslot : leaf.get? slot = some old) (hlive : leaf.live ≤ 1) (hs : slot ≠ s) :
    leaf.get? s = none := by
  by_contra hsome
  have hboth : #{slot, s} ≤ leaf.size := by
    apply card_le_card
    intro x hx
    rcases mem_insert.mp hx with rfl | hx
    · simp [hslot]
    · rw [mem_singleton.mp hx, mem_filter]
      exact ⟨mem_univ _, Option.isSome_iff_ne_none.mpr hsome⟩
  rw [card_pair hs, ← h.live_eq] at hboth
  omega

theorem WellFormed.exists_entry {leaf : LeafTable} (h : leaf.WellFormed) :
    ∃ s e, leaf.get? s = some e := by
  have hpos : 0 < leaf.size := h.live_eq ▸ h.live_pos
  obtain ⟨s, hs⟩ := card_pos.mp hpos
  exact ⟨s, Option.isSome_iff_exists.mp (mem_filter.mp hs).2⟩

end LeafTable

namespace PageTable

def backing? (t : PageTable) (p : VirtPage) : Option Backing := (t.lookup p).map PageEntry.backing

/-- The number of entries that map a frame. -/
def mapCount (t : PageTable) (pa : PhysAddr) : Nat := #{p | t.backing? p = some (.frame pa)}

def leafFrames (t : PageTable) : List PhysAddr := t.leafList.map LeafTable.frame

def WellFormed (t : PageTable) : Prop := ∀ d leaf, t.leaf? d = some leaf → leaf.WellFormed

/-! ## Counting entries -/

theorem mapCount_pos_iff {t : PageTable} {pa : PhysAddr} :
    0 < t.mapCount pa ↔ ∃ p, t.backing? p = some (.frame pa) := by
  rw [mapCount, card_pos]
  constructor
  · rintro ⟨p, hp⟩
    exact ⟨p, (mem_filter.mp hp).2⟩
  · rintro ⟨p, hp⟩
    exact ⟨p, mem_filter.mpr ⟨mem_univ p, hp⟩⟩

theorem mapCount_eq_zero {t : PageTable} (h : ∀ p, t.lookup p = none) (pa : PhysAddr) :
    t.mapCount pa = 0 := by
  simp [mapCount, backing?, h]

/-- The number of mappings of a frame after one page was changed. -/
theorem mapCount_update {t t' : PageTable} {p : VirtPage} {b : Option Backing}
    (h : ∀ q, t'.backing? q = if p = q then b else t.backing? q) (pa : PhysAddr) :
    t'.mapCount pa + held (t.backing? p) pa = t.mapCount pa + held b pa := by
  have hp : t'.backing? p = b := by rw [h, if_pos rfl]
  rw [held, held, ← hp]
  apply card_filter_add_ite p
  intro q hq
  rw [h, if_neg hq]

@[simp] theorem mapCount_empty (pa : PhysAddr) : empty.mapCount pa = 0 :=
  mapCount_eq_zero lookup_empty pa

/-! ## Leaf tables -/

private theorem perm_filterMap_set {α : Type*} (l : List (Option α)) (n : Nat) (a : α)
    (h : l[n]? = some none) : ((l.set n (some a)).filterMap id).Perm (a :: l.filterMap id) := by
  obtain ⟨bound, hget⟩ := List.getElem?_eq_some_iff.mp h
  have hsplit : l = l.take n ++ none :: l.drop (n + 1) := by
    rw [← hget, List.getElem_cons_drop, List.take_append_drop]
  rw [List.set_eq_take_append_cons_drop, if_pos bound]
  conv_rhs => rw [hsplit]
  simp only [List.filterMap_append, List.filterMap_cons, id_eq]
  exact List.perm_middle

theorem leafFrames_setLeaf_some {t : PageTable} {d : Fin leafTables} (h : t.leaf? d = none)
    (leaf : LeafTable) :
    (t.setLeaf d (some leaf)).leafFrames.Perm (leaf.frame :: t.leafFrames) := by
  have hget : t.leaves.toList[d.val]? = some none := by
    rw [← h]
    simp [leaf?]
  have hperm := (perm_filterMap_set t.leaves.toList d.val leaf hget).map LeafTable.frame
  rw [List.map_cons] at hperm
  simpa only [leafFrames, leafList, setLeaf, Vector.toList_set] using hperm

theorem setLeaf_setLeaf (t : PageTable) (d : Fin leafTables) (a b : Option LeafTable) :
    (t.setLeaf d a).setLeaf d b = t.setLeaf d b := by
  simp [setLeaf]

theorem setLeaf_leaf? (t : PageTable) (d : Fin leafTables) : t.setLeaf d (t.leaf? d) = t := by
  simp [setLeaf, leaf?]

theorem leafFrames_setLeaf_none {t : PageTable} {d : Fin leafTables} {leaf : LeafTable}
    (h : t.leaf? d = some leaf) :
    t.leafFrames.Perm (leaf.frame :: (t.setLeaf d none).leafFrames) := by
  have hnone : (t.setLeaf d none).leaf? d = none := by rw [leaf?_setLeaf, if_pos rfl]
  have hperm := leafFrames_setLeaf_some hnone leaf
  rwa [setLeaf_setLeaf, ← h, setLeaf_leaf?] at hperm

theorem eq_of_leaf? {t t' : PageTable} (h : ∀ d, t'.leaf? d = t.leaf? d) : t' = t :=
  congrArg PageTable.mk (Vector.ext fun i hi => h ⟨i, hi⟩)

theorem modifyLeaf_eq_setLeaf {t : PageTable} {d : Fin leafTables} {leaf : LeafTable}
    (h : t.leaf? d = some leaf) (f : LeafTable → LeafTable) :
    t.modifyLeaf d f = t.setLeaf d (some (f leaf)) := by
  refine eq_of_leaf? fun d' => ?_
  rw [leaf?_modifyLeaf, leaf?_setLeaf]
  split
  · next heq => rw [← heq, h]; rfl
  · rfl

theorem leafFrames_modifyLeaf {t : PageTable} {d : Fin leafTables} {leaf : LeafTable}
    (h : t.leaf? d = some leaf) {f : LeafTable → LeafTable} (hf : (f leaf).frame = leaf.frame) :
    (t.modifyLeaf d f).leafFrames.Perm t.leafFrames := by
  have hnone : (t.setLeaf d none).leaf? d = none := by rw [leaf?_setLeaf, if_pos rfl]
  have hafter := leafFrames_setLeaf_some hnone (f leaf)
  rw [setLeaf_setLeaf, ← modifyLeaf_eq_setLeaf h, hf] at hafter
  exact hafter.trans (leafFrames_setLeaf_none h).symm

theorem WellFormed.setLeaf {t : PageTable} (h : t.WellFormed) {d : Fin leafTables}
    {leaf : Option LeafTable} (hleaf : ∀ l, leaf = some l → l.WellFormed) :
    (t.setLeaf d leaf).WellFormed := by
  intro d' l hl
  rw [leaf?_setLeaf] at hl
  split at hl
  · exact hleaf l hl
  · exact h d' l hl

theorem WellFormed.modifyLeaf {t : PageTable} (h : t.WellFormed) {d : Fin leafTables}
    {leaf : LeafTable} (hd : t.leaf? d = some leaf) {f : LeafTable → LeafTable}
    (hf : (f leaf).WellFormed) : (t.modifyLeaf d f).WellFormed := by
  rw [modifyLeaf_eq_setLeaf hd]
  apply h.setLeaf
  rintro l ⟨⟩
  exact hf

theorem wellFormed_empty : empty.WellFormed := by
  intro d leaf h
  rw [leaf?_empty] at h
  cases h

theorem length_leafFrames (t : PageTable) : t.leafFrames.length = t.tablePages := by
  rw [leafFrames, List.length_map, tablePages]

@[simp] theorem leafFrames_empty : empty.leafFrames = [] := by
  have hall : ∀ l ∈ (Vector.replicate leafTables (none : Option LeafTable)).toList, l = none := by
    intro l hl
    rw [Vector.toList_replicate] at hl
    exact List.eq_of_mem_replicate hl
  rw [leafFrames, leafList, List.map_eq_nil_iff, List.filterMap_eq_nil_iff]
  exact hall

/-! ## Mapping and unmapping a page -/

/-- What mapping a page does to the leaf tables: nothing, or a frame from the machine becomes the
first leaf table that the page needs. -/
theorem leafFrames_insert {t t' : PageTable} {m m' : Machine} {p : VirtPage} {e : PageEntry}
    {old : Option PageEntry} (h : t.insert m p e = some (old, t', m')) :
    (m' = m ∧ t'.leafFrames.Perm t.leafFrames) ∨
      ∃ frame, m.alloc? = some (frame, m') ∧ t'.leafFrames.Perm (frame :: t.leafFrames) := by
  rw [insert] at h
  split at h
  · next leaf hleaf =>
    split at h
    all_goals
      cases h
      exact Or.inl ⟨rfl, leafFrames_modifyLeaf hleaf rfl⟩
  · next hleaf =>
    split at h
    · cases h
    · next frame machine halloc =>
      cases h
      exact Or.inr ⟨frame, halloc, leafFrames_setLeaf_some hleaf _⟩

theorem WellFormed.insert {t t' : PageTable} {m m' : Machine} {p : VirtPage} {e : PageEntry}
    {old : Option PageEntry} (hw : t.WellFormed) (h : t.insert m p e = some (old, t', m')) :
    t'.WellFormed := by
  rw [PageTable.insert] at h
  split at h
  · next leaf hleaf =>
    split at h
    · next old hold =>
      cases h
      exact hw.modifyLeaf hleaf ((hw _ _ hleaf).replace hold e)
    · next hold =>
      cases h
      exact hw.modifyLeaf hleaf ((hw _ _ hleaf).add hold e)
  · next hleaf =>
    split at h
    · cases h
    · cases h
      apply hw.setLeaf
      rintro l ⟨⟩
      exact LeafTable.wellFormed_single _ _ _

/-- What unmapping a page does to the leaf tables: nothing, or the last entry of a leaf table is
gone and its frame goes back to the machine. -/
theorem leafFrames_remove (t : PageTable) (m : Machine) (p : VirtPage) :
    ((t.remove m p).2.2 = m ∧ (t.remove m p).2.1.leafFrames.Perm t.leafFrames) ∨
      ∃ frame, (t.remove m p).2.2 = m.free frame ∧
        t.leafFrames.Perm (frame :: (t.remove m p).2.1.leafFrames) := by
  rw [remove]
  split
  · exact Or.inl ⟨rfl, List.Perm.refl _⟩
  · next leaf hleaf =>
    split
    · exact Or.inl ⟨rfl, List.Perm.refl _⟩
    · split
      · exact Or.inr ⟨leaf.frame, rfl, leafFrames_setLeaf_none hleaf⟩
      · exact Or.inl ⟨rfl, leafFrames_modifyLeaf hleaf rfl⟩

theorem WellFormed.remove {t : PageTable} (hw : t.WellFormed) (m : Machine) (p : VirtPage) :
    (t.remove m p).2.1.WellFormed := by
  rw [PageTable.remove]
  split
  · exact hw
  · next leaf hleaf =>
    split
    · exact hw
    · next old hget =>
      split
      · apply hw.setLeaf
        rintro l ⟨⟩
      · next hlive =>
        exact hw.modifyLeaf hleaf ((hw _ _ hleaf).clear hget (Nat.lt_of_not_le hlive))

/-- Unmapping a page brings no entry about, whether or not the page table is well formed. -/
theorem lookup_of_lookup_remove {t : PageTable} {m : Machine} {p q : VirtPage} {e : PageEntry}
    (h : (t.remove m p).2.1.lookup q = some e) : t.lookup q = some e := by
  rw [remove] at h
  split at h
  · exact h
  · next leaf hleaf =>
    split at h
    · exact h
    · split at h
      · rw [lookup, leaf?_setLeaf] at h
        split at h
        · cases h
        · exact h
      · rw [lookup, leaf?_modifyLeaf] at h
        split at h
        · next hl =>
          rw [← hl, hleaf, Option.map_some, Option.bind_some, LeafTable.get?_clear] at h
          split at h
          · cases h
          · rwa [lookup, ← hl, hleaf]
        · exact h

theorem WellFormed.lookup_remove {t : PageTable} (hw : t.WellFormed) (m : Machine)
    (p q : VirtPage) :
    (t.remove m p).2.1.lookup q = if p = q then none else t.lookup q := by
  have apart : p.leaf = q.leaf → p ≠ q → p.slot ≠ q.slot := fun hl hpq hs =>
    hpq (VirtPage.leaf_slot_ext hl hs)
  by_cases hpq : p = q
  · subst hpq
    rw [if_pos rfl]
    rw [PageTable.remove]
    split
    · next hleaf => simp [lookup, hleaf]
    · next leaf hleaf =>
      split
      · next hget => simp [lookup, hleaf, hget]
      · split <;> simp [lookup, leaf?_setLeaf, leaf?_modifyLeaf, hleaf]
  · rw [if_neg hpq]
    rw [PageTable.remove]
    split
    · rfl
    · next leaf hleaf =>
      split
      · rfl
      · next old hget =>
        split
        · next hlive =>
          rw [lookup, leaf?_setLeaf, lookup]
          split
          · next hl =>
            -- The page next to the last entry of a leaf table was no page of the table before.
            have hnone := (hw _ _ hleaf).get?_eq_none hget hlive (apart hl hpq)
            rw [← hl, hleaf]
            exact hnone.symm
          · rfl
        · rw [lookup, leaf?_modifyLeaf, lookup]
          split
          · next hl => simp [← hl, hleaf, apart hl hpq]
          · rfl

theorem leafFrames_modify (t : PageTable) (p : VirtPage) (f : PageEntry → PageEntry) :
    (t.modify p f).leafFrames.Perm t.leafFrames := by
  rw [modify]
  split
  · exact List.Perm.refl _
  · next e found =>
    obtain ⟨leaf, hleaf, -⟩ := Option.bind_eq_some_iff.mp found
    exact leafFrames_modifyLeaf hleaf rfl

theorem WellFormed.modify {t : PageTable} (hw : t.WellFormed) (p : VirtPage)
    (f : PageEntry → PageEntry) : (t.modify p f).WellFormed := by
  rw [PageTable.modify]
  split
  · exact hw
  · next e found =>
    obtain ⟨leaf, hleaf, hentry⟩ := Option.bind_eq_some_iff.mp found
    exact hw.modifyLeaf hleaf ((hw _ _ hleaf).replace hentry _)

theorem WellFormed.leafFrames_eq_nil {t : PageTable} (hw : t.WellFormed)
    (h : ∀ q, t.lookup q = none) : t.leafFrames = [] := by
  rw [leafFrames, leafList, List.map_eq_nil_iff, List.filterMap_eq_nil_iff]
  intro l hl
  cases l with
  | none => rfl
  | some leaf =>
      obtain ⟨d, hd, hget⟩ := List.mem_iff_getElem.mp hl
      have bound : d < leafTables := by simpa using hd
      have hleaf : t.leaf? ⟨d, bound⟩ = some leaf := by
        simpa [leaf?] using hget
      obtain ⟨s, e, hentry⟩ := (hw _ _ hleaf).exists_entry
      have hnone := h (VirtPage.ofLeafSlot ⟨d, bound⟩ s)
      rw [lookup, VirtPage.leaf_ofLeafSlot, VirtPage.slot_ofLeafSlot, hleaf, Option.bind_some,
        hentry] at hnone
      cases hnone

/-- The list of all entries names exactly what the view shows. -/
theorem mem_mappings {t : PageTable} {p : VirtPage} {e : PageEntry} :
    (p, e) ∈ t.mappings ↔ t.lookup p = some e := by
  simp only [mappings, List.mem_flatMap, List.mem_finRange, true_and]
  constructor
  · rintro ⟨d, hmem⟩
    split at hmem
    · cases hmem
    · next leaf hleaf =>
      obtain ⟨s, -, hs⟩ := List.mem_filterMap.mp hmem
      obtain ⟨e', he', heq⟩ := Option.map_eq_some_iff.mp hs
      cases heq
      rw [lookup, VirtPage.leaf_ofLeafSlot, VirtPage.slot_ofLeafSlot, hleaf, Option.bind_some, he']
  · intro h
    obtain ⟨leaf, hleaf, hentry⟩ := Option.bind_eq_some_iff.mp h
    refine ⟨p.leaf, ?_⟩
    rw [hleaf]
    apply List.mem_filterMap.mpr
    refine ⟨p.slot, List.mem_finRange _, ?_⟩
    rw [hentry, Option.map_some, VirtPage.ofLeafSlot_leaf_slot]

end PageTable

end Exokernel
