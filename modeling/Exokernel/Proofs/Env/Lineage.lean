import Exokernel.Proofs.Env.Control
import Exokernel.Proofs.Env.Generations

/-! # Lineage

Environments end, and new ones are born.  Parents are identifiers and not environments, so the
parent of an environment may be gone and its slot taken by somebody else; but as long as generations
do not come round, nobody is born with an identifier that a parent had, and control does not
grow. -/

namespace Exokernel

namespace Registry

variable {r r' : Registry} {a t id : EnvId} {i child : Nat} {parent : Option EnvId}

/-! ## Births and ends -/

/-- Environments may have ended; otherwise slots and the identifiers in them are as they were. -/
structure Remains (r r' : Registry) : Prop where
  capacity_eq : r'.capacity = r.capacity
  slot : ∀ i s, r.slot? i = some s → ∃ s', r'.slot? i = some s' ∧ s'.generation = s.generation ∧
    ∀ env', s'.env = some env' →
      ∃ env, s.env = some env ∧ env'.id = env.id ∧ env'.parent = env.parent

/-- An environment was born into a free slot; otherwise slots and the identifiers in them are as
they were. -/
structure Begets (parent : Option EnvId) (child : Nat) (r r' : Registry) : Prop where
  capacity_eq : r'.capacity = r.capacity
  born : ∃ generation env, r.slot? child = some ⟨generation, none⟩ ∧
    r'.slot? child = some ⟨nextGeneration generation, some env⟩ ∧
    env.id = .ofParts child (nextGeneration generation) ∧ env.parent = parent
  other : ∀ i s, i ≠ child → r.slot? i = some s → ∃ s', r'.slot? i = some s' ∧
    s'.generation = s.generation ∧
    s'.env.map (fun env => (env.id, env.parent)) = s.env.map fun env => (env.id, env.parent)

/-- The generation in an identifier was reached in its slot. -/
def Issued (r : Registry) (id : EnvId) : Prop :=
  ∃ s, r.slot? id.index = some s ∧ id.generation ≤ s.generation

/-- Identifiers are made up of slots and generations, and parents were issued. -/
structure Pedigree (r : Registry) : Prop where
  capacity_le : r.capacity ≤ maxEnvs
  labelled : ∀ i s, r.slot? i = some s → Labelled i s
  parent_issued : ∀ i env parent, r.env? i = some env → env.parent = some parent → r.Issued parent

theorem exists_slot?_of_eq (h : r'.capacity = r.capacity) {s' : Slot} (hslot : r'.slot? i = some s') :
    ∃ s, r.slot? i = some s := by
  have hlt : i < r'.capacity := (Array.getElem?_eq_some_iff.mp hslot).1
  exact slot?_of_lt (h ▸ hlt)

/-! ## When nobody is born -/

namespace Remains

theorem env? (h : Remains r r') {env' : Env} (henv' : r'.env? i = some env') :
    ∃ env, r.env? i = some env ∧ env'.id = env.id ∧ env'.parent = env.parent := by
  obtain ⟨generation, hslot'⟩ := slot?_of_env? henv'
  obtain ⟨s, hslot⟩ := exists_slot?_of_eq h.capacity_eq hslot'
  obtain ⟨s', hafter, -, hkept⟩ := h.slot i s hslot
  rw [hslot'] at hafter
  cases hafter
  obtain ⟨env, henv, hsame⟩ := hkept env' rfl
  exact ⟨env, (env?_of_slot? hslot).trans henv, hsame⟩

theorem lookup (h : Remains r r') (hlookup : r'.lookup id = some i) : r.lookup id = some i := by
  obtain ⟨rfl, env', henv', hid⟩ := index_of_lookup hlookup
  obtain ⟨env, henv, hid', -⟩ := h.env? henv'
  rw [Registry.lookup, henv]
  exact if_pos (hid'.symm.trans hid)

theorem parentOf {p : EnvId} (h : Remains r r') (hparent : r'.parentOf t = some p) :
    r.parentOf t = some p := by
  obtain ⟨i, env', hlookup, henv', hp⟩ := parentOf_eq_some_iff.mp hparent
  obtain ⟨env, henv, -, hsame⟩ := h.env? henv'
  exact parentOf_eq_some_iff.mpr ⟨i, env, h.lookup hlookup, henv, hsame.symm.trans hp⟩

theorem controls (h : Remains r r') (hcontrols : r'.Controls a t) : r.Controls a t := by
  induction hcontrols with
  | self hlive =>
      obtain ⟨i, hlookup⟩ := hlive
      exact .self ⟨i, h.lookup hlookup⟩
  | child hparent _ ih => exact .child (h.parentOf hparent) ih

theorem issued (h : Remains r r') (hissued : r.Issued id) : r'.Issued id := by
  obtain ⟨s, hslot, hle⟩ := hissued
  obtain ⟨s', hslot', hgeneration, -⟩ := h.slot _ s hslot
  exact ⟨s', hslot', hgeneration ▸ hle⟩

theorem pedigree (h : Remains r r') (hr : r.Pedigree) : r'.Pedigree where
  capacity_le := h.capacity_eq ▸ hr.capacity_le
  labelled i s' hslot' := by
    obtain ⟨s, hslot⟩ := exists_slot?_of_eq h.capacity_eq hslot'
    obtain ⟨s'', hafter, hgeneration, hkept⟩ := h.slot i s hslot
    rw [hslot'] at hafter
    cases hafter
    have hlabelled := hr.labelled i s hslot
    refine ⟨?_, ?_, hgeneration ▸ hlabelled.generation_le⟩
    · intro env' henv'
      obtain ⟨env, henv, hid, -⟩ := hkept env' henv'
      rw [hid, hgeneration, hlabelled.id_eq env henv]
    · intro env' henv'
      obtain ⟨env, henv, -⟩ := hkept env' henv'
      exact hgeneration ▸ hlabelled.generation_pos env henv
  parent_issued i env' parent henv' hparent := by
    obtain ⟨env, henv, -, hsame⟩ := h.env? henv'
    exact h.issued (hr.parent_issued i env parent henv (hsame ▸ hparent))

end Remains

/-! ## When somebody is born -/

theorem Pedigree.issued_of_lookup (h : r.Pedigree) (hlookup : r.lookup id = some i) :
    r.Issued id := by
  obtain ⟨rfl, env, henv, hid⟩ := index_of_lookup hlookup
  obtain ⟨generation, hslot⟩ := slot?_of_env? henv
  have hlabelled := h.labelled _ _ hslot
  refine ⟨_, hslot, ?_⟩
  rw [← hid, hlabelled.id_eq env rfl, EnvId.generation_ofParts _ hlabelled.generation_le]

/-- The environment that is born, and the generation that it is born into. -/
structure Begets.Newborn (parent : Option EnvId) (child : Nat) (r r' : Registry) (generation : Nat)
    (env : Env) : Prop where
  generation_lt : generation < maxGeneration
  vacant : r.slot? child = some ⟨generation, none⟩
  slot_eq : r'.slot? child = some ⟨generation + 1, some env⟩
  id_eq : env.id = .ofParts child (generation + 1)
  parent_eq : env.parent = parent
  index_eq : env.id.index = child
  generation_eq : env.id.generation = generation + 1

namespace Begets

/-- With generations left the newborn has the next of them. -/
theorem newborn (h : Begets parent child r r') (hr : r.Pedigree)
    (hroom : ∀ s, r.slot? child = some s → s.generation < maxGeneration) :
    ∃ generation env, Newborn parent child r r' generation env := by
  obtain ⟨generation, env, hvacant, hslot, hid, hparent⟩ := h.born
  have hlt : generation < maxGeneration := hroom _ hvacant
  have hnext : nextGeneration generation = generation + 1 := if_neg (Nat.not_le_of_lt hlt)
  have hchild : child < maxEnvs :=
    Nat.lt_of_lt_of_le (Array.getElem?_eq_some_iff.mp hvacant).1 hr.capacity_le
  rw [hnext] at hslot hid
  refine ⟨generation, env, hlt, hvacant, hslot, hid, hparent, ?_, ?_⟩
  · rw [hid, EnvId.index_ofParts hchild]
  · rw [hid, EnvId.generation_ofParts child hlt]

theorem env?_other (h : Begets parent child r r') (hi : i ≠ child) :
    (r'.env? i).map (fun env => (env.id, env.parent)) =
      (r.env? i).map fun env => (env.id, env.parent) := by
  cases hslot : r.slot? i with
  | none =>
      have hnone : r'.slot? i = none := by
        cases hslot' : r'.slot? i with
        | none => rfl
        | some s' =>
            obtain ⟨s, hs⟩ := exists_slot?_of_eq h.capacity_eq hslot'
            rw [hslot] at hs
            cases hs
      have henv : r.env? i = none := congrArg (Option.bind · Slot.env) hslot
      have henv' : r'.env? i = none := congrArg (Option.bind · Slot.env) hnone
      rw [henv, henv']
  | some s =>
      obtain ⟨s', hslot', -, hsame⟩ := h.other i s hi hslot
      rwa [env?_of_slot? hslot, env?_of_slot? hslot']

end Begets

namespace Begets.Newborn

variable {generation : Nat} {env : Env}

theorem not_issued (h : Newborn parent child r r' generation env) : ¬ r.Issued env.id := by
  rintro ⟨s, hslot, hle⟩
  rw [h.index_eq, h.vacant] at hslot
  cases hslot
  rw [h.generation_eq] at hle
  exact Nat.not_succ_le_self _ hle

theorem env?_eq (h : Newborn parent child r r' generation env) : r'.env? child = some env :=
  env?_of_slot? h.slot_eq

theorem lookup_eq (h : Newborn parent child r r' generation env) :
    r'.lookup env.id = some child := by
  rw [Registry.lookup, h.index_eq, h.env?_eq]
  exact if_pos rfl

theorem lookup_of_ne (h : Newborn parent child r r' generation env) (hr : Begets parent child r r')
    (hne : id ≠ env.id) : r'.lookup id = r.lookup id := by
  rw [Registry.lookup, Registry.lookup]
  by_cases hi : id.index = child
  · rw [hi, h.env?_eq, env?_of_slot? h.vacant]
    exact if_neg (Ne.symm hne)
  · have hsame := hr.env?_other hi
    cases henv : r.env? id.index with
    | none =>
        rw [henv, Option.map_none, Option.map_eq_none_iff] at hsame
        rw [hsame]
    | some before =>
        rw [henv] at hsame
        obtain ⟨after, hafter, heq⟩ := Option.map_eq_some_iff.mp hsame
        rw [hafter]
        simp only [(Prod.mk.inj heq).1]

theorem parentOf_eq (h : Newborn parent child r r' generation env) :
    r'.parentOf env.id = parent := by
  rw [parentOf, h.lookup_eq, Option.bind_some, h.env?_eq, Option.bind_some, h.parent_eq]

theorem parentOf_of_ne (h : Newborn parent child r r' generation env)
    (hr : Begets parent child r r') (hne : id ≠ env.id) : r'.parentOf id = r.parentOf id := by
  rw [parentOf, parentOf, h.lookup_of_ne hr hne]
  cases hlookup : r.lookup id with
  | none => rfl
  | some i =>
      obtain ⟨rfl, before, hbefore, -⟩ := index_of_lookup hlookup
      have hi : id.index ≠ child := by
        intro hi
        rw [hi, env?_of_slot? h.vacant] at hbefore
        cases hbefore
      have hsame := hr.env?_other hi
      rw [hbefore] at hsame
      obtain ⟨after, hafter, heq⟩ := Option.map_eq_some_iff.mp hsame
      rw [Option.bind_some, Option.bind_some, hbefore, hafter]
      exact (Prod.mk.inj heq).2

theorem ne_id_of_issued (h : Newborn parent child r r' generation env) {id : EnvId}
    (hissued : r.Issued id) : id ≠ env.id := by
  rintro rfl
  exact h.not_issued hissued

theorem controls_of_controls (h : Newborn parent child r r' generation env)
    (hr : Begets parent child r r') (hpedigree : r.Pedigree) (hcontrols : r.Controls a t) :
    r'.Controls a t := by
  induction hcontrols with
  | self hlive =>
      obtain ⟨i, hlookup⟩ := hlive
      refine .self ⟨i, ?_⟩
      rwa [h.lookup_of_ne hr (h.ne_id_of_issued (hpedigree.issued_of_lookup hlookup))]
  | child hp _ ih =>
      obtain ⟨i, -, hlookup, -⟩ := parentOf_eq_some_iff.mp hp
      refine .child ?_ ih
      rwa [h.parentOf_of_ne hr (h.ne_id_of_issued (hpedigree.issued_of_lookup hlookup))]

/-- Control is what it was; and the newborn is controlled by itself and by whoever controls its
parent. -/
theorem controls_iff (h : Newborn parent child r r' generation env) (hr : Begets parent child r r')
    (hpedigree : r.Pedigree) (hparent : ∀ p, parent = some p → ∃ i, r.lookup p = some i) :
    r'.Controls a t ↔ r.Controls a t ∨
      t = env.id ∧ (a = env.id ∨ ∃ p, parent = some p ∧ r.Controls a p) := by
  constructor
  · intro hcontrols
    induction hcontrols with
    | self hlive =>
        by_cases ha : a = env.id
        · exact Or.inr ⟨ha, Or.inl ha⟩
        · rw [h.lookup_of_ne hr ha] at hlive
          exact Or.inl (.self hlive)
    | @child t p hp _ ih =>
        -- No parent, of an old environment or of the newborn, has the identifier of the newborn.
        have hup : r.Issued p → r.Controls a p := by
          intro hissued
          rcases ih with hcontrols | ⟨hnewborn, -⟩
          · exact hcontrols
          · exact absurd hnewborn (h.ne_id_of_issued hissued)
        by_cases ht : t = env.id
        · rw [ht, h.parentOf_eq] at hp
          obtain ⟨i, hlookup⟩ := hparent p hp
          exact Or.inr ⟨ht, Or.inr ⟨p, hp, hup (hpedigree.issued_of_lookup hlookup)⟩⟩
        · rw [h.parentOf_of_ne hr ht] at hp
          obtain ⟨i, before, -, hbefore, hsame⟩ := parentOf_eq_some_iff.mp hp
          exact Or.inl (.child hp (hup (hpedigree.parent_issued i before p hbefore hsame)))
  · rintro (hcontrols | ⟨rfl, rfl | ⟨p, hp, hcontrols⟩⟩)
    · exact h.controls_of_controls hr hpedigree hcontrols
    · exact .self ⟨child, h.lookup_eq⟩
    · exact .child (h.parentOf_eq.trans hp) (h.controls_of_controls hr hpedigree hcontrols)

theorem issued (h : Newborn parent child r r' generation env) (hr : Begets parent child r r')
    (hissued : r.Issued id) : r'.Issued id := by
  obtain ⟨s, hslot, hle⟩ := hissued
  by_cases hi : id.index = child
  · rw [hi, h.vacant] at hslot
    cases hslot
    exact ⟨_, hi ▸ h.slot_eq, Nat.le_succ_of_le hle⟩
  · obtain ⟨s', hslot', hgeneration, -⟩ := hr.other _ s hi hslot
    exact ⟨s', hslot', hgeneration ▸ hle⟩

theorem pedigree (h : Newborn parent child r r' generation env) (hr : Begets parent child r r')
    (hpedigree : r.Pedigree) (hparent : ∀ p, parent = some p → ∃ i, r.lookup p = some i) :
    r'.Pedigree where
  capacity_le := hr.capacity_eq ▸ hpedigree.capacity_le
  labelled i s' hslot' := by
    by_cases hi : i = child
    · subst hi
      rw [h.slot_eq] at hslot'
      cases hslot'
      refine ⟨?_, fun _ _ => Nat.succ_pos generation, h.generation_lt⟩
      rintro _ ⟨⟩
      exact h.id_eq
    · obtain ⟨s, hslot⟩ := exists_slot?_of_eq hr.capacity_eq hslot'
      obtain ⟨s'', hafter, hgeneration, hsame⟩ := hr.other i s hi hslot
      rw [hslot'] at hafter
      cases hafter
      have hlabelled := hpedigree.labelled i s hslot
      refine ⟨?_, ?_, hgeneration ▸ hlabelled.generation_le⟩
      · intro after hafter
        rw [hafter] at hsame
        obtain ⟨before, hbefore, heq⟩ := Option.map_eq_some_iff.mp hsame.symm
        rw [← (Prod.mk.inj heq).1, hgeneration, hlabelled.id_eq before hbefore]
      · intro after hafter
        rw [hafter] at hsame
        obtain ⟨before, hbefore, -⟩ := Option.map_eq_some_iff.mp hsame.symm
        exact hgeneration ▸ hlabelled.generation_pos before hbefore
  parent_issued i after p hafter hp := by
    refine h.issued hr ?_
    by_cases hi : i = child
    · rw [hi, h.env?_eq] at hafter
      cases hafter
      obtain ⟨j, hlookup⟩ := hparent p (h.parent_eq.symm.trans hp)
      exact hpedigree.issued_of_lookup hlookup
    · have hsame := hr.env?_other hi
      rw [hafter] at hsame
      obtain ⟨before, hbefore, heq⟩ := Option.map_eq_some_iff.mp hsame.symm
      exact hpedigree.parent_issued i before p hbefore ((Prod.mk.inj heq).2.trans hp)

end Begets.Newborn

end Registry

end Exokernel
