import Exokernel.Proofs.Env.Tables

/-! # Slots and their generations

What each change of the registry does to each slot.  The generation of a slot moves with its
occupants alone. -/

namespace Exokernel.Registry

variable {r r' : Registry} {index i : Nat} {env : Env}

def slot? (r : Registry) (index : Nat) : Option Slot := r.slots[index]?

theorem env?_of_slot? {generation : Nat} {occupant : Option Env}
    (h : r.slot? i = some ⟨generation, occupant⟩) : r.env? i = occupant :=
  congrArg (Option.bind · Slot.env) h

theorem slot?_of_env? (h : r.env? i = some env) :
    ∃ generation, r.slot? i = some ⟨generation, some env⟩ := by
  obtain ⟨⟨generation, occupant⟩, hslot, rfl⟩ := Option.bind_eq_some_iff.mp h
  exact ⟨generation, hslot⟩

theorem slot?_modify (r : Registry) (index i : Nat) (f : Env → Env) :
    (r.modify index f).slot? i =
      if index = i then (r.slot? i).map fun s => { s with env := s.env.map f } else r.slot? i :=
  Array.getElem?_modify

theorem slot?_of_take? (h : r.take? index = some (env, r')) (i : Nat) :
    r'.slot? i =
      if index = i then (r.slot? i).map fun s => { s with env := none } else r.slot? i := by
  rw [take?] at h
  split at h
  · cases h
  · cases h
    exact Array.getElem?_modify

theorem slot?_of_allocate {parent : Option EnvId} {kind : EnvKind} {status : EnvStatus}
    (h : r.allocate parent kind status = .ok (index, r')) :
    ∃ generation, r.slot? index = some ⟨generation, none⟩ ∧ ∀ i, r'.slot? i =
      if index = i then some (occupy parent kind status index ⟨generation, none⟩)
      else r.slot? i := by
  rw [allocate] at h
  split at h
  · cases h
  · next hfree =>
    cases h
    obtain ⟨bound, hnone, -⟩ := Array.findIdx?_eq_some_iff_getElem.mp hfree
    have hslot : r.slots[index] = ⟨r.slots[index].generation, none⟩ :=
      congrArg (Slot.mk _) (Option.isNone_iff_eq_none.mp hnone)
    have hbefore : r.slot? index = some ⟨r.slots[index].generation, none⟩ :=
      (Array.getElem?_eq_getElem bound).trans (congrArg some hslot)
    refine ⟨_, hbefore, ?_⟩
    intro i
    refine Array.getElem?_modify.trans ?_
    split
    · next heq =>
      subst heq
      exact congrArg (Option.map _) hbefore
    · rfl

theorem slot?_ofCapacity {capacity : Nat} {slot : Slot}
    (h : (ofCapacity capacity).slot? i = some slot) : slot = ⟨0, none⟩ := by
  obtain ⟨bound, heq⟩ := Array.getElem?_eq_some_iff.mp h
  rw [← heq]
  exact Array.getElem_replicate _

/-! ## The number of slots and the current environment -/

theorem current_of_take? (h : r.take? index = some (env, r')) :
    r'.current = r.current ∨ r'.current = none := by
  obtain ⟨-, -, -, -, hcurrent⟩ := take?_eq_some h
  rw [hcurrent]
  split
  · exact Or.inr rfl
  · exact Or.inl rfl

/-- Generations start at one and never pass the largest. -/
theorem nextGeneration_bounds (generation : Nat) :
    1 ≤ nextGeneration generation ∧ nextGeneration generation ≤ maxGeneration := by
  rw [nextGeneration]
  split <;> simp only [maxGeneration] at * <;> omega

end Exokernel.Registry
