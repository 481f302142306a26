import Exokernel.Env.Registry
import Mathlib.Data.List.Nodup

/-! # The page tables of a registry

The page tables of all environments, and those that are left when some slots are looked past.  A
change of one slot is a change of one table. -/

namespace Exokernel

private theorem perm_filterMap_of_mem {α β : Type*} [DecidableEq α] {f : α → Option β} {l : List α}
    {a : α} {b : β} (hnodup : l.Nodup) (ha : a ∈ l) (hb : f a = some b) :
    (l.filterMap f).Perm (b :: l.filterMap fun x => if x = a then none else f x) := by
  induction l with
  | nil => cases ha
  | cons x rest ih =>
      obtain ⟨hx, hnodup⟩ := List.nodup_cons.mp hnodup
      by_cases hxa : x = a
      · subst hxa
        have hrest : rest.filterMap (fun y => if y = x then none else f y) = rest.filterMap f := by
          apply List.filterMap_congr
          intro y hy
          rw [if_neg]
          rintro rfl
          exact hx hy
        rw [List.filterMap_cons_some hb]
        simp only [List.filterMap_cons, if_true, hrest]
        exact List.Perm.refl _
      · have hmem : a ∈ rest := (List.mem_cons.mp ha).resolve_left fun heq => hxa heq.symm
        have hperm := ih hnodup hmem
        cases hfx : f x with
        | none =>
            simp only [List.filterMap_cons, if_neg hxa, hfx]
            exact hperm
        | some c =>
            simp only [List.filterMap_cons, if_neg hxa, hfx]
            exact (hperm.cons c).trans (List.Perm.swap _ _ _)

namespace Registry

/-- The page tables of the environments in all but some slots. -/
def tablesBut (r : Registry) (skip : List Nat) : List PageTable :=
  (List.range r.capacity).filterMap fun index =>
    if index ∈ skip then none else (r.env? index).map Env.table

/-- The page tables of all environments. -/
def tables (r : Registry) : List PageTable := r.tablesBut []

theorem lt_capacity_of_env? {r : Registry} {index : Nat} {env : Env}
    (h : r.env? index = some env) : index < r.capacity := by
  obtain ⟨slot, hslot, -⟩ := Option.bind_eq_some_iff.mp h
  exact (Array.getElem?_eq_some_iff.mp hslot).1

@[simp] theorem capacity_modify (r : Registry) (index : Nat) (f : Env → Env) :
    (r.modify index f).capacity = r.capacity := by
  simp [capacity, modify]

/-- The table of an occupied slot set apart from the others. -/
theorem tablesBut_perm {r : Registry} {skip : List Nat} {index : Nat} {env : Env}
    (henv : r.env? index = some env) (hskip : index ∉ skip) :
    (r.tablesBut skip).Perm (env.table :: r.tablesBut (index :: skip)) := by
  have hmem : index ∈ List.range r.capacity := List.mem_range.mpr (lt_capacity_of_env? henv)
  have hperm := perm_filterMap_of_mem
    (f := fun i => if i ∈ skip then none else (r.env? i).map Env.table) List.nodup_range hmem
    (by simp only [if_neg hskip, henv]; rfl)
  have hrest : r.tablesBut (index :: skip) = (List.range r.capacity).filterMap fun x =>
      if x = index then none else if x ∈ skip then none else (r.env? x).map Env.table := by
    apply List.filterMap_congr
    intro x _
    by_cases hx : x = index <;> simp [hx]
  rw [hrest]
  exact hperm

theorem tables_perm {r : Registry} {index : Nat} {env : Env} (henv : r.env? index = some env) :
    r.tables.Perm (env.table :: r.tablesBut [index]) :=
  tablesBut_perm henv (by simp)

theorem tablesBut_congr {r r' : Registry} {skip : List Nat} (hcapacity : r'.capacity = r.capacity)
    (h : ∀ index, index ∉ skip → (r'.env? index).map Env.table = (r.env? index).map Env.table) :
    r'.tablesBut skip = r.tablesBut skip := by
  rw [tablesBut, tablesBut, hcapacity]
  apply List.filterMap_congr
  intro index _
  by_cases hskip : index ∈ skip
  · rw [if_pos hskip, if_pos hskip]
  · rw [if_neg hskip, if_neg hskip, h index hskip]

theorem tablesBut_cons_of_none {r : Registry} {index : Nat} (h : r.env? index = none)
    (skip : List Nat) : r.tablesBut (index :: skip) = r.tablesBut skip := by
  apply List.filterMap_congr
  intro x _
  by_cases hx : x = index
  · simp [hx, h]
  · simp [hx]

theorem mem_tablesBut {r : Registry} {skip : List Nat} {t : PageTable} :
    t ∈ r.tablesBut skip ↔
      ∃ index, index ∉ skip ∧ ∃ env, r.env? index = some env ∧ env.table = t := by
  rw [tablesBut, List.mem_filterMap]
  constructor
  · rintro ⟨index, -, h⟩
    by_cases hskip : index ∈ skip
    · rw [if_pos hskip] at h
      cases h
    · rw [if_neg hskip] at h
      exact ⟨index, hskip, Option.map_eq_some_iff.mp h⟩
  · rintro ⟨index, hskip, env, henv, rfl⟩
    refine ⟨index, List.mem_range.mpr (lt_capacity_of_env? henv), ?_⟩
    rw [if_neg hskip, henv]
    rfl

theorem mem_tables {r : Registry} {t : PageTable} :
    t ∈ r.tables ↔ ∃ index env, r.env? index = some env ∧ env.table = t := by
  rw [tables, mem_tablesBut]
  simp

/-! ## Changes of the registry -/

theorem tables_modify_of_table_eq {r : Registry} {index : Nat} {f : Env → Env}
    (hf : ∀ env, (f env).table = env.table) : (r.modify index f).tables = r.tables := by
  apply tablesBut_congr (capacity_modify r index f)
  intro i _
  rw [env?_modify]
  split
  · rw [Option.map_map]
    congr 1
    funext env
    exact hf env
  · rfl

theorem tablesBut_modify {r : Registry} {index : Nat} {f : Env → Env} {skip : List Nat}
    (h : index ∈ skip) : (r.modify index f).tablesBut skip = r.tablesBut skip := by
  apply tablesBut_congr (capacity_modify r index f)
  intro i hi
  rw [env?_modify, if_neg]
  rintro rfl
  exact hi h

/-- A new environment is in a slot that was free, and all other slots are as they were. -/
theorem allocate_eq_ok {r r' : Registry} {parent : Option EnvId} {kind : EnvKind}
    {status : EnvStatus} {index : Nat} (h : r.allocate parent kind status = .ok (index, r')) :
    r.env? index = none ∧ r'.capacity = r.capacity ∧ r'.current = r.current ∧
      (∃ generation, r'.env? index =
        some (.fresh (.ofParts index generation) parent kind status)) ∧
      ∀ i, i ≠ index → r'.env? i = r.env? i := by
  rw [allocate] at h
  split at h
  · cases h
  · next index' hfree =>
    cases h
    obtain ⟨bound, hnone, -⟩ := Array.findIdx?_eq_some_iff_getElem.mp hfree
    have hslot : r.slots[index]? = some r.slots[index] := Array.getElem?_eq_getElem bound
    refine ⟨?_, ?_, rfl, ⟨nextGeneration r.slots[index].generation, ?_⟩, ?_⟩
    · rw [env?, hslot, Option.bind_some]
      exact Option.isNone_iff_eq_none.mp hnone
    · simp [capacity]
    · simp [env?, Array.getElem?_modify, hslot, occupy]
    · intro i hi
      simp [env?, Array.getElem?_modify, Ne.symm hi]

theorem take?_eq_some {r r' : Registry} {index : Nat} {env : Env}
    (h : r.take? index = some (env, r')) :
    r.env? index = some env ∧ r'.capacity = r.capacity ∧ r'.env? index = none ∧
      (∀ i, i ≠ index → r'.env? i = r.env? i) ∧
      r'.current = if r.current = some index then none else r.current := by
  rw [take?] at h
  split at h
  · cases h
  · next env' henv =>
    cases h
    refine ⟨henv, by simp [capacity], ?_, ?_, rfl⟩
    · simp only [env?, Array.getElem?_modify, if_true]
      cases r.slots[index]? <;> rfl
    · intro i hi
      simp [env?, Array.getElem?_modify, Ne.symm hi]

theorem tables_of_allocate {r r' : Registry} {parent : Option EnvId} {kind : EnvKind}
    {status : EnvStatus} {index : Nat} (h : r.allocate parent kind status = .ok (index, r')) :
    r'.tables.Perm (.empty :: r.tables) := by
  obtain ⟨hnone, hcapacity, -, ⟨generation, hfresh⟩, hother⟩ := allocate_eq_ok h
  have hrest : r'.tablesBut [index] = r.tables := by
    rw [tables, ← tablesBut_cons_of_none hnone]
    apply tablesBut_congr hcapacity
    intro i hi
    rw [hother i (by simpa using hi)]
  have hperm := tables_perm hfresh
  rw [hrest] at hperm
  exact hperm

theorem tables_of_take? {r r' : Registry} {index : Nat} {env : Env}
    (h : r.take? index = some (env, r')) : r.tables.Perm (env.table :: r'.tables) := by
  obtain ⟨henv, hcapacity, hnone, hother, -⟩ := take?_eq_some h
  have hrest : r.tablesBut [index] = r'.tables := by
    rw [tables, ← tablesBut_cons_of_none hnone]
    apply tablesBut_congr hcapacity.symm
    intro i hi
    rw [hother i (by simpa using hi)]
  have hperm := tables_perm henv
  rw [hrest] at hperm
  exact hperm

theorem tables_ofCapacity (capacity : Nat) : (ofCapacity capacity).tables = [] := by
  rw [List.eq_nil_iff_forall_not_mem]
  intro t ht
  obtain ⟨index, env, henv, -⟩ := mem_tables.mp ht
  by_cases h : index < capacity <;> simp [env?, ofCapacity, h] at henv

end Registry

end Exokernel
