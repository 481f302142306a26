import Exokernel.Proofs.Mapping.Census
import Exokernel.Proofs.Region.Spans
import Mathlib.Data.Finset.Card
import Mathlib.Data.List.FinRange

/-! # Leaf tables

Which leaf tables a page table has, and which are missing for some pages.  Each leaf table is found
under the frame that holds it, and is there as long as one of its pages is mapped; so mapping the
pages of a list takes one for each leaf table that is missing. -/

namespace Exokernel

/-! ## Missing leaf tables -/

namespace PageRange

theorem mem_leaves {r : PageRange} {d : Fin leafTables} :
    d ∈ r.leaves ↔ ∃ p ∈ r.toList, p.leaf = d := by
  rw [leaves]
  split
  · next hempty =>
    simp only [List.not_mem_nil, mem_toList, false_iff, not_exists, not_and]
    omega
  · next hcount =>
    rw [List.mem_ofFn]
    constructor
    · rintro ⟨i, rfl⟩
      -- the first page of the range in this leaf table
      have hi : i.val < (r.first + r.count - 1) / 512 - r.first / 512 + 1 := i.isLt
      have bound : r.first + r.count ≤ 524288 := r.bound
      refine ⟨⟨max r.first ((r.first / 512 + i.val) * 512), ?_⟩, mem_toList.mpr ?_, Fin.ext ?_⟩
      · simp only [userPages]
        omega
      · simp only
        omega
      · simp only [VirtPage.leaf, leafEntries]
        omega
    · rintro ⟨p, hp, rfl⟩
      obtain ⟨lower, upper⟩ := mem_toList.mp hp
      refine ⟨⟨p.val / leafEntries - r.first / leafEntries, ?_⟩, Fin.ext ?_⟩
      · simp only [leafEntries]
        omega
      · simp only [VirtPage.leaf, leafEntries]
        omega

theorem nodup_leaves (r : PageRange) : r.leaves.Nodup := by
  rw [leaves]
  split
  · exact List.nodup_nil
  · rw [List.nodup_ofFn]
    intro i j hij
    have hval := congrArg Fin.val hij
    exact Fin.ext (Nat.add_left_cancel hval)

end PageRange

namespace PageTable

variable {t t' : PageTable} {p : VirtPage} {pages rest : List VirtPage}

/-- The leaf tables that the pages of a list belong to and that are missing. -/
def missingLeaves (t : PageTable) (pages : List VirtPage) : Finset (Fin leafTables) :=
  (pages.map VirtPage.leaf).toFinset.filter fun d => (t.leaf? d).isNone

/-- The number of leaf tables that mapping the pages of a list would still take. -/
def needed (t : PageTable) (pages : List VirtPage) : Nat := (t.missingLeaves pages).card

theorem mem_missingLeaves {d : Fin leafTables} :
    d ∈ t.missingLeaves pages ↔ (∃ p ∈ pages, p.leaf = d) ∧ t.leaf? d = none := by
  simp [missingLeaves]

/-- The same leaf tables are there, whatever their entries are. -/
def SameLeaves (t t' : PageTable) : Prop := ∀ d, (t'.leaf? d).isNone = (t.leaf? d).isNone

theorem SameLeaves.refl (t : PageTable) : SameLeaves t t := fun _ => rfl

theorem SameLeaves.trans {t'' : PageTable} (h : SameLeaves t t') (h' : SameLeaves t' t'') :
    SameLeaves t t'' := fun d => (h' d).trans (h d)

theorem SameLeaves.needed_eq (h : SameLeaves t t') (pages : List VirtPage) :
    t'.needed pages = t.needed pages := by
  rw [needed, needed, missingLeaves, missingLeaves]
  simp only [h _]

theorem sameLeaves_modifyLeaf (t : PageTable) (d : Fin leafTables) (f : LeafTable → LeafTable) :
    SameLeaves t (t.modifyLeaf d f) := by
  intro d'
  rw [leaf?_modifyLeaf]
  split
  · exact Option.isNone_map
  · rfl

theorem sameLeaves_modify (t : PageTable) (p : VirtPage) (f : PageEntry → PageEntry) :
    SameLeaves t (t.modify p f) := by
  rw [modify]
  split
  · exact .refl _
  · exact sameLeaves_modifyLeaf _ _ _

theorem needed_mono (h : pages ⊆ rest) : t.needed pages ≤ t.needed rest := by
  apply Finset.card_le_card
  apply Finset.filter_subset_filter
  intro d hd
  rw [List.mem_toFinset] at hd ⊢
  exact List.map_subset _ h hd

theorem needed_cons_of_present {leaf : LeafTable} (h : t.leaf? p.leaf = some leaf)
    (rest : List VirtPage) : t.needed (p :: rest) = t.needed rest := by
  rw [needed, needed, missingLeaves, missingLeaves, List.map_cons, List.toFinset_cons,
    Finset.filter_insert, if_neg (by simp [h])]

theorem needed_cons_modifyLeaf {leaf : LeafTable} (h : t.leaf? p.leaf = some leaf)
    (f : LeafTable → LeafTable) (rest : List VirtPage) :
    t.needed (p :: rest) = (t.modifyLeaf p.leaf f).needed rest := by
  rw [needed_cons_of_present h, (sameLeaves_modifyLeaf t p.leaf f).needed_eq]

theorem needed_cons (t : PageTable) (p : VirtPage) (rest : List VirtPage) :
    t.needed (p :: rest) =
      ((t.missingLeaves rest).erase p.leaf).card + if (t.leaf? p.leaf).isNone then 1 else 0 := by
  cases hleaf : t.leaf? p.leaf with
  | some leaf =>
      have hnot : p.leaf ∉ t.missingLeaves rest := by simp [mem_missingLeaves, hleaf]
      rw [needed_cons_of_present hleaf, Finset.erase_eq_of_notMem hnot]
      rfl
  | none =>
      have hinsert : t.missingLeaves (p :: rest) =
          Insert.insert p.leaf ((t.missingLeaves rest).erase p.leaf) := by
        ext d
        simp only [mem_missingLeaves, List.mem_cons, exists_eq_or_imp, Finset.mem_insert,
          Finset.mem_erase]
        by_cases hd : p.leaf = d
        · simp [← hd, hleaf]
        · simp [hd, Ne.symm hd]
      rw [needed, hinsert, Finset.card_insert_of_notMem (Finset.notMem_erase _ _)]
      rfl

theorem missingLeaves_setLeaf (t : PageTable) (d : Fin leafTables) (leaf : LeafTable)
    (pages : List VirtPage) :
    (t.setLeaf d (some leaf)).missingLeaves pages = (t.missingLeaves pages).erase d := by
  ext d'
  rw [Finset.mem_erase, mem_missingLeaves, mem_missingLeaves, leaf?_setLeaf]
  by_cases hd : d = d'
  · simp [hd]
  · simp [hd, Ne.symm hd]

/-- Once a page has its leaf table, the other pages of that leaf table take none. -/
theorem needed_cons_of_missing (h : t.leaf? p.leaf = none) (leaf : LeafTable)
    (rest : List VirtPage) :
    t.needed (p :: rest) = (t.setLeaf p.leaf (some leaf)).needed rest + 1 := by
  rw [needed_cons, h, needed, missingLeaves_setLeaf]
  rfl

/-- A range of pages takes as many leaf tables as are counted for it. -/
theorem needed_toList (t : PageTable) (r : PageRange) : t.needed r.toList = t.missingTables r := by
  have hleaves : t.missingLeaves r.toList = (r.leaves.filter fun d => (t.leaf? d).isNone).toFinset := by
    ext d
    simp only [missingLeaves, Finset.mem_filter, List.mem_toFinset, List.mem_filter,
      PageRange.mem_leaves, List.mem_map]
  rw [needed, hleaves, List.toFinset_card_of_nodup (r.nodup_leaves.filter _), missingTables,
    List.countP_eq_length_filter]

/-! ## Counting in one pass -/

/-- One pass over the pages counts the missing leaf tables.  It remembers the leaf table that it
came to last, and counts that one no more. -/
def missingAlong (t : PageTable) : Option (Fin leafTables) → List VirtPage → Nat
  | _, [] => 0
  | last, p :: rest =>
    if last = some p.leaf then t.missingAlong last rest
    else t.missingAlong (some p.leaf) rest + if (t.leaf? p.leaf).isNone then 1 else 0

/-- Over pages in ascending order the pass comes to each leaf table once and never comes back, so
that the one that it remembers is the only one that could be counted twice. -/
theorem missingAlong_some {d : Fin leafTables} (hsorted : (d :: pages.map VirtPage.leaf).Pairwise (· ≤ ·)) :
    t.missingAlong (some d) pages = ((t.missingLeaves pages).erase d).card := by
  induction pages generalizing d with
  | nil => simp [missingAlong, missingLeaves]
  | cons p rest ih =>
      rw [List.map_cons, List.pairwise_cons] at hsorted
      obtain ⟨hfirst, hrest⟩ := hsorted
      rw [missingAlong]
      by_cases hd : d = p.leaf
      · subst hd
        rw [if_pos rfl, ih hrest]
        congr 1
        ext d'
        simp only [Finset.mem_erase, mem_missingLeaves, List.mem_cons, exists_eq_or_imp]
        tauto
      · -- the leaf table that is remembered lies before all others
        have hnot : d ∉ t.missingLeaves (p :: rest) := by
          intro hmem
          obtain ⟨⟨q, hq, rfl⟩, -⟩ := mem_missingLeaves.mp hmem
          rcases List.mem_cons.mp hq with rfl | hq
          · exact hd rfl
          · have hback := (List.pairwise_cons.mp hrest).1 q.leaf (List.mem_map_of_mem hq)
            exact hd (le_antisymm (hfirst p.leaf List.mem_cons_self) hback)
        rw [if_neg fun hsome => hd (Option.some.inj hsome), ih hrest, Finset.erase_eq_of_notMem hnot,
          ← needed_cons, needed]

theorem missingAlong_none (hsorted : (pages.map VirtPage.leaf).Pairwise (· ≤ ·)) :
    t.missingAlong none pages = t.needed pages := by
  cases pages with
  | nil => rfl
  | cons p rest =>
      rw [missingAlong, if_neg nofun, missingAlong_some hsorted, needed_cons]

theorem pairwise_leaf_toList (r : PageRange) : (r.toList.map VirtPage.leaf).Pairwise (· ≤ ·) :=
  List.pairwise_map.mpr (r.pairwise_toList.imp fun hlt => Nat.div_le_div_right (Nat.le_of_lt hlt))

theorem missingTables_eq_missingAlong (t : PageTable) (r : PageRange) :
    t.missingTables r = t.missingAlong none r.toList := by
  rw [missingAlong_none (pairwise_leaf_toList r), needed_toList]

/-! ## Leaf tables and their frames -/

variable {m : Machine} {d d' : Fin leafTables} {leaf leaf' : LeafTable} {pa : PhysAddr}

theorem leafList_eq (t : PageTable) : t.leafList = (List.finRange leafTables).filterMap t.leaf? := by
  have hslots : t.leaves.toList = (List.finRange leafTables).map t.leaf? := by
    apply List.ext_getElem
    · simp
    · intro i hi hi'
      simp [leaf?]
  rw [leafList, hslots, List.filterMap_map]
  rfl

theorem leafFrames_eq (t : PageTable) : t.leafFrames =
    (List.finRange leafTables).filterMap fun d => (t.leaf? d).map LeafTable.frame := by
  rw [leafFrames, leafList_eq, List.map_filterMap]

theorem mem_leafFrames : pa ∈ t.leafFrames ↔ ∃ d leaf, t.leaf? d = some leaf ∧ leaf.frame = pa := by
  simp [leafFrames_eq, Option.map_eq_some_iff]

theorem leaf_unique (hnodup : t.leafFrames.Nodup) (h : t.leaf? d = some leaf)
    (h' : t.leaf? d' = some leaf') (hframe : leaf.frame = leaf'.frame) : d = d' := by
  rw [leafFrames_eq, List.Nodup, List.pairwise_filterMap, List.pairwise_iff_getElem] at hnodup
  have happly : ∀ {i j : Fin leafTables} {l l' : LeafTable}, i < j → t.leaf? i = some l →
      t.leaf? j = some l' → l.frame ≠ l'.frame := by
    intro i j l l' hlt hi hj
    exact hnodup i j (by simp) (by simp) hlt l.frame (by simp [hi]) l'.frame (by simp [hj])
  rcases lt_trichotomy d d' with hlt | heq | hlt
  · exact absurd hframe (happly hlt h h')
  · exact heq
  · exact absurd hframe.symm (happly hlt h' h)

theorem WellFormed.leaf?_eq_none_iff (hwf : t.WellFormed) :
    t.leaf? d = none ↔ ∀ q, q.leaf = d → t.lookup q = none := by
  constructor
  · rintro hnone q rfl
    rw [lookup, hnone, Option.bind_none]
  · intro hholes
    cases hleaf : t.leaf? d with
    | none => rfl
    | some leaf =>
        obtain ⟨slot, e, he⟩ := (hwf d leaf hleaf).exists_entry
        have hhole := hholes (.ofLeafSlot d slot) (VirtPage.leaf_ofLeafSlot d slot)
        rw [lookup, VirtPage.leaf_ofLeafSlot, VirtPage.slot_ofLeafSlot, hleaf, Option.bind_some,
          he] at hhole
        cases hhole

end PageTable

end Exokernel
