import Exokernel.Proofs.Env.Authority

/-! # Descent

Who descends from whom, link by link of the chain of parents, and that the registry lets an
environment act on nobody but itself and its descendants. -/

namespace Exokernel.Registry

variable {r : Registry} {caller : Nat}

/-- The identifier of every environment names its slot, and there is an environment in the slot of
the current one. -/
structure Named (r : Registry) : Prop where
  index_eq : ∀ i env, r.env? i = some env → env.id.index = i
  current_occupied : ∀ i, r.current = some i → ∃ env, r.env? i = some env

/-- The chain of parents of an environment leads to the one in a slot.  Each parent is named
exactly, so that no identifier of a former occupant is a link. -/
inductive Descends (r : Registry) (ancestor : Nat) : Env → Prop where
  | child {env id} (hparent : env.parent = some id) (hlookup : r.lookup id = some ancestor) :
      Descends r ancestor env
  | step {env id index parent} (hparent : env.parent = some id)
      (hlookup : r.lookup id = some index) (henv : r.env? index = some parent)
      (hrest : Descends r ancestor parent) : Descends r ancestor env

theorem lookup_eq_some_iff (hnames : ∀ i env, r.env? i = some env → env.id.index = i) {id : EnvId}
    {i : Nat} : r.lookup id = some i ↔ ∃ env, r.env? i = some env ∧ env.id = id := by
  constructor
  · intro h
    exact (index_of_lookup h).2
  · rintro ⟨env, henv, rfl⟩
    rw [lookup, hnames i env henv, henv]
    exact if_pos rfl

theorem descends_of_chainMeets {steps : Nat} {ancestor : EnvId} {env : Env}
    (hancestor : r.lookup ancestor = some caller)
    (h : r.chainMeets ancestor steps env.parent = true) : r.Descends caller env := by
  induction steps generalizing env with
  | zero => cases h
  | succ steps ih =>
      cases hparent : env.parent with
      | none =>
          rw [hparent] at h
          cases h
      | some id =>
          rw [hparent, chainMeets, Bool.or_eq_true, beq_iff_eq] at h
          rcases h with rfl | hchain
          · exact .child hparent hancestor
          · unfold parentOf at hchain
            cases hlookup : r.lookup id with
            | none =>
                rw [hlookup, Option.bind_none] at hchain
                cases steps <;> cases hchain
            | some index =>
                obtain ⟨-, parent, henv, -⟩ := index_of_lookup hlookup
                rw [hlookup, Option.bind_some, henv, Option.bind_some] at hchain
                exact .step hparent hlookup henv (ih hchain)

theorem descends_of_isAncestor (hnames : ∀ i env, r.env? i = some env → env.id.index = i) {env : Env}
    (h : r.isAncestor caller env = true) : r.Descends caller env := by
  rw [isAncestor] at h
  split at h
  · cases h
  · next requester hrequester =>
    exact descends_of_chainMeets ((lookup_eq_some_iff hnames).mpr ⟨requester, hrequester, rfl⟩) h

/-- An identifier with which the caller may act names the caller or one of its descendants. -/
theorem descends_of_resolve (hnamed : r.Named) {id : EnvId} {index : Nat}
    (h : r.resolve id caller true = .ok index) :
    index = caller ∨ ∃ env, r.env? index = some env ∧ r.Descends caller env := by
  obtain ⟨-, env, henv, -, hallowed⟩ := resolve_eq_ok_iff_isAncestor.mp h
  exact (hallowed rfl).imp_right fun hancestor =>
    ⟨env, henv, descends_of_isAncestor hnamed.index_eq hancestor⟩

theorem id_of_resolve {id : EnvId} {check : Bool} {index : Nat} {env : Env}
    (h : r.resolve id caller check = .ok index) (hne : index ≠ caller)
    (henv : r.env? index = some env) : env.id = id := by
  obtain ⟨hnames, -⟩ := resolve_eq_ok_iff_isAncestor.mp h
  split at hnames
  · cases hnames
    exact absurd rfl hne
  · obtain ⟨-, env', henv', hid⟩ := index_of_lookup hnames
    rw [henv] at henv'
    cases henv'
    exact hid

/-- The environment in a slot is neither the caller nor one that it may act on. -/
structure OutOfReach (r : Registry) (caller i : Nat) (env : Env) : Prop where
  env_eq : r.env? i = some env
  ne_caller : i ≠ caller
  ne_resolved : ∀ id index, r.resolve id caller true = .ok index → i ≠ index

theorem outOfReach_of_not_descends (hnamed : r.Named) {i : Nat} {env : Env}
    (henv : r.env? i = some env) (hne : i ≠ caller) (hnot : ¬ r.Descends caller env) :
    r.OutOfReach caller i env := by
  refine ⟨henv, hne, ?_⟩
  rintro id index hresolve rfl
  rcases descends_of_resolve hnamed hresolve with heq | ⟨env', henv', hdescends⟩
  · exact hne heq
  · rw [henv] at henv'
    cases henv'
    exact hnot hdescends

end Exokernel.Registry
