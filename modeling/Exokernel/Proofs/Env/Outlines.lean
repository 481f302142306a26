import Exokernel.Proofs.Env.Slots
import Exokernel.Scheduler

/-! # Outlines

An environment apart from its memory: what is left when its page table and its entry point for page
faults are looked past.  Requests on address spaces keep the outlines of all environments. -/

namespace Exokernel

/-- An environment apart from its memory. -/
def Env.outline (env : Env) : Env := { env with table := .empty, upcall := none }

theorem Env.eq_of_outline_eq {env env' : Env} (h : env'.outline = env.outline) :
    env' = { env with table := env'.table, upcall := env'.upcall } := by
  obtain ⟨id, parent, status, kind, table, frame, mailbox, upcall⟩ := env
  obtain ⟨id', parent', status', kind', table', frame', mailbox', upcall'⟩ := env'
  simp only [outline, Env.mk.injEq] at h
  obtain ⟨rfl, rfl, rfl, rfl, -, rfl, rfl, -⟩ := h
  rfl

namespace Registry

/-- Two registries whose slots hold the same environments, apart from their memory. -/
structure SameOutlines (r r' : Registry) : Prop where
  current_eq : r'.current = r.current
  slot_eq : ∀ i, (r'.slot? i).map (fun s => (s.generation, s.env.map Env.outline)) =
    (r.slot? i).map fun s => (s.generation, s.env.map Env.outline)

namespace SameOutlines

variable {r r' r'' : Registry}

theorem refl (r : Registry) : SameOutlines r r := ⟨rfl, fun _ => rfl⟩

theorem trans (h : SameOutlines r r') (h' : SameOutlines r' r'') : SameOutlines r r'' :=
  ⟨h'.current_eq.trans h.current_eq, fun i => (h'.slot_eq i).trans (h.slot_eq i)⟩

theorem modify (r : Registry) (index : Nat) {f : Env → Env}
    (hf : ∀ env, (f env).outline = env.outline) : SameOutlines r (r.modify index f) := by
  refine ⟨rfl, ?_⟩
  intro i
  rw [slot?_modify]
  split
  · rw [Option.map_map]
    congr 1
    funext s
    change (s.generation, (s.env.map f).map Env.outline) = _
    rw [Option.map_map]
    congr 2
    funext env
    exact hf env
  · rfl

theorem vacant (h : SameOutlines r r') {i generation : Nat}
    (hslot : r.slot? i = some ⟨generation, none⟩) : r'.slot? i = some ⟨generation, none⟩ := by
  have hi := h.slot_eq i
  rw [hslot] at hi
  obtain ⟨⟨generation', occupant⟩, hslot', heq⟩ := Option.map_eq_some_iff.mp hi
  obtain ⟨rfl, hnone⟩ := Prod.mk.injEq .. ▸ heq
  cases Option.map_eq_none_iff.mp hnone
  exact hslot'

theorem occupied (h : SameOutlines r r') {i generation : Nat} {env : Env}
    (hslot : r.slot? i = some ⟨generation, some env⟩) :
    ∃ table upcall, r'.slot? i = some ⟨generation, some { env with table, upcall }⟩ := by
  have hi := h.slot_eq i
  rw [hslot] at hi
  obtain ⟨⟨generation', occupant⟩, hslot', heq⟩ := Option.map_eq_some_iff.mp hi
  obtain ⟨rfl, hsome⟩ := Prod.mk.injEq .. ▸ heq
  obtain ⟨env', rfl, houtline⟩ := Option.map_eq_some_iff.mp hsome
  refine ⟨env'.table, env'.upcall, ?_⟩
  rw [← Env.eq_of_outline_eq houtline]
  exact hslot'

theorem capacity_eq (h : SameOutlines r r') : r'.capacity = r.capacity := by
  have hnone : ∀ i, r'.slots.size ≤ i ↔ r.slots.size ≤ i := by
    intro i
    rw [← Array.getElem?_eq_none_iff, ← Array.getElem?_eq_none_iff]
    have hi := h.slot_eq i
    constructor
    · intro hslot
      rw [slot?, hslot] at hi
      exact Option.map_eq_none_iff.mp hi.symm
    · intro hslot
      rw [slot?, slot?, hslot] at hi
      exact Option.map_eq_none_iff.mp hi
  exact Nat.le_antisymm ((hnone _).mpr (Nat.le_refl _)) ((hnone _).mp (Nat.le_refl _))

theorem isRunnable_eq (h : SameOutlines r r') (i : Nat) : r'.isRunnable i = r.isRunnable i := by
  rw [isRunnable, isRunnable]
  cases hslot : r.slot? i with
  | none =>
      have hslot' := h.slot_eq i
      rw [hslot] at hslot'
      rw [env?, env?, show r.slots[i]? = none from hslot,
        show r'.slots[i]? = none from Option.map_eq_none_iff.mp hslot']
  | some slot =>
      obtain ⟨generation, _ | env⟩ := slot
      · rw [env?_of_slot? hslot, env?_of_slot? (h.vacant hslot)]
      · obtain ⟨table, upcall, hslot'⟩ := h.occupied hslot
        rw [env?_of_slot? hslot, env?_of_slot? hslot']
        rfl

end SameOutlines

end Registry

end Exokernel
