import Exokernel.Proofs.Mapping.Leaves

/-! # The list of the mapped pages

The mapped pages of a table are listed in the order of user space, each of them once.  The two
counters tell how long the list is and how many leaf tables it goes through. -/

namespace Exokernel

open Finset

/-! ## User space -/

def PageRange.whole : PageRange := ⟨0, userPages, Nat.le_of_eq (Nat.zero_add _)⟩

theorem PageRange.mem_whole (p : VirtPage) : p ∈ whole.toList := by
  rw [mem_toList]
  exact ⟨Nat.zero_le _, (Nat.zero_add userPages).symm ▸ p.isLt⟩

/-- The pages of user space are those of the leaf tables, one after the other. -/
theorem PageRange.toList_whole : whole.toList =
    (List.finRange leafTables).flatMap fun d =>
      (List.finRange leafEntries).map (VirtPage.ofLeafSlot d) := by
  apply List.map_injective_iff.mpr Fin.val_injective
  have hleaf : ∀ d : Fin leafTables,
      ((List.finRange leafEntries).map (VirtPage.ofLeafSlot d)).map Fin.val =
        List.range' (d.val * leafEntries) ((d.val + 1) * leafEntries - d.val * leafEntries) := by
    intro d
    rw [Nat.succ_mul, Nat.add_sub_cancel_left, List.range'_eq_map_range,
      ← List.map_coe_finRange_eq_range, List.map_map, List.map_map]
    rfl
  have hmark : Monotone fun i => i * leafEntries := fun i j hij => Nat.mul_le_mul_right _ hij
  have hall := flatMap_range'_eq hmark 0 leafTables
  rw [← List.range_eq_range', ← List.map_coe_finRange_eq_range, List.flatMap_map] at hall
  rw [map_val_toList, List.map_flatMap, List.flatMap_congr fun d _ => hleaf d, hall]
  rfl

/-- The mapped pages of a table are listed in the order of user space. -/
theorem PageTable.map_fst_mappings (t : PageTable) :
    t.mappings.map Prod.fst = PageRange.whole.toList.filter t.isMapped := by
  rw [mappings, PageRange.toList_whole, List.map_flatMap, List.filter_flatMap]
  refine List.flatMap_congr fun d _ => ?_
  have hmapped : ∀ slot, t.isMapped (.ofLeafSlot d slot) =
      ((t.leaf? d).bind (·.get? slot)).isSome := by
    intro slot
    rw [isMapped, lookup, VirtPage.leaf_ofLeafSlot, VirtPage.slot_ofLeafSlot]
  rw [List.filter_map]
  cases hleaf : t.leaf? d with
  | none =>
      rw [List.filter_eq_nil_iff.mpr fun slot _ => by simp [hmapped, hleaf]]
      rfl
  | some leaf =>
      simp only [leafMappings]
      induction List.finRange leafEntries with
      | nil => rfl
      | cons slot rest ih =>
          cases hget : leaf.get? slot with
          | none => simpa [hmapped, hleaf, hget, List.filterMap_cons] using ih
          | some e => simpa [hmapped, hleaf, hget, List.filterMap_cons] using ih

namespace PageTable

variable {t : PageTable}

theorem pairwise_mappings (t : PageTable) :
    t.mappings.Pairwise fun x y => x.1.start < y.1.start := by
  have hpages : (t.mappings.map Prod.fst).Pairwise (· < ·) := by
    rw [map_fst_mappings]
    exact PageRange.whole.pairwise_toList.filter _
  exact (List.pairwise_map.mp hpages).imp fun hlt => Nat.mul_lt_mul_of_pos_right hlt (by decide)

theorem length_mappings (t : PageTable) :
    t.mappings.length = #{p | (t.lookup p).isSome = true} := by
  have hpages : (PageRange.whole.toList.filter t.isMapped).toFinset =
      ({p | (t.lookup p).isSome = true} : Finset VirtPage) := by
    ext p
    rw [List.mem_toFinset, List.mem_filter, mem_filter]
    exact and_congr (iff_of_true (PageRange.mem_whole p) (mem_univ p)) Iff.rfl
  rw [← hpages, List.toFinset_card_of_nodup (PageRange.whole.nodup_toList.filter _),
    ← map_fst_mappings, List.length_map]

/-! ## The counters -/

theorem countP_finRange {n : Nat} (P : Fin n → Bool) :
    (List.finRange n).countP P = #{i | P i = true} := by
  rw [List.countP_eq_length_filter, ← List.toFinset_card_of_nodup ((List.nodup_finRange n).filter P)]
  congr 1
  ext i
  simp

theorem tablePages_eq (t : PageTable) : t.tablePages = #{d | (t.leaf? d).isSome = true} := by
  rw [tablePages, leafList_eq, List.length_filterMap_eq_countP, countP_finRange]

theorem length_leafMappings (d : Fin leafTables) (leaf : LeafTable) :
    (leafMappings d leaf).length = leaf.size := by
  rw [leafMappings, List.length_filterMap_eq_countP, countP_finRange]
  simp [LeafTable.size]

theorem WellFormed.mappedPages_eq (hwf : t.WellFormed) :
    t.mappedPages = #{p | (t.lookup p).isSome = true} := by
  rw [← length_mappings, mappedPages, leafList_eq, mappings]
  induction List.finRange leafTables with
  | nil => rfl
  | cons d rest ih =>
      rw [List.filterMap_cons, List.flatMap_cons, List.length_append, ← ih]
      cases hleaf : t.leaf? d with
      | none => exact (Nat.zero_add _).symm
      | some leaf =>
          rw [List.foldr_cons, (hwf d leaf hleaf).live_eq, length_leafMappings]

end PageTable

end Exokernel
