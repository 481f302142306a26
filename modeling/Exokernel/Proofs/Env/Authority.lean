import Exokernel.Env.Registry

/-! # Names and authority

Which slot an identifier names, and who may act on it, depends on the identities of the
environments: their identifiers, their parents and their states. -/

namespace Exokernel

/-- What naming an environment and acting on it depend on. -/
def Env.identity (env : Env) : EnvId × Option EnvId × EnvStatus := (env.id, env.parent, env.status)

namespace Registry

/-- Two registries with the same identities in the same slots. -/
structure SameNames (r r' : Registry) : Prop where
  capacity_eq : r'.capacity = r.capacity
  identity_eq : ∀ i, (r'.env? i).map Env.identity = (r.env? i).map Env.identity

namespace SameNames

variable {r r' : Registry}

theorem refl (r : Registry) : SameNames r r := ⟨rfl, fun _ => rfl⟩

/-- The slots are free or occupied alike, and the occupants have the same identity. -/
theorem cases (h : SameNames r r') (i : Nat) :
    (r.env? i = none ∧ r'.env? i = none) ∨
      ∃ env env', r.env? i = some env ∧ r'.env? i = some env' ∧ env'.id = env.id ∧
        env'.parent = env.parent ∧ env'.status = env.status := by
  have hi := h.identity_eq i
  cases henv : r.env? i with
  | none =>
      rw [henv] at hi
      exact Or.inl ⟨rfl, Option.map_eq_none_iff.mp hi⟩
  | some env =>
      rw [henv] at hi
      obtain ⟨env', henv', heq⟩ := Option.map_eq_some_iff.mp hi
      simp only [Env.identity, Prod.mk.injEq] at heq
      exact Or.inr ⟨env, env', rfl, henv', heq⟩

theorem lookup_eq (h : SameNames r r') (id : EnvId) : r'.lookup id = r.lookup id := by
  unfold lookup
  rcases h.cases id.index with ⟨hr, hr'⟩ | ⟨env, env', hr, hr', hid, -⟩
  · rw [hr, hr']
  · rw [hr, hr']
    simp only [hid]

theorem parentOf_eq (h : SameNames r r') (id : EnvId) : r'.parentOf id = r.parentOf id := by
  rw [parentOf, parentOf, h.lookup_eq]
  congr 1
  funext i
  rcases h.cases i with ⟨hr, hr'⟩ | ⟨env, env', hr, hr', -, hparent, -⟩
  · rw [hr, hr']
  · rw [hr, hr', Option.bind_some, Option.bind_some, hparent]

theorem chainMeets_eq (h : SameNames r r') (ancestor : EnvId) (steps : Nat)
    (start : Option EnvId) :
    r'.chainMeets ancestor steps start = r.chainMeets ancestor steps start := by
  induction steps generalizing start with
  | zero => rfl
  | succ steps ih =>
      cases start with
      | none => rfl
      | some id => rw [chainMeets, chainMeets, h.parentOf_eq, ih]

theorem resolve_eq (h : SameNames r r') (id : EnvId) (requester : Nat) (check : Bool) :
    r'.resolve id requester check = r.resolve id requester check := by
  have hancestor : ∀ target target' : Env, target'.parent = target.parent →
      r'.isAncestor requester target' = r.isAncestor requester target := by
    intro target target' hparent
    unfold isAncestor
    rcases h.cases requester with ⟨hr, hr'⟩ | ⟨env, env', hr, hr', hid, -⟩
    · rw [hr, hr']
    · rw [hr, hr']
      simp only [hid, hparent, h.capacity_eq, h.chainMeets_eq]
  unfold resolve
  rw [h.lookup_eq]
  cases (if id.isSelf = true then some requester else r.lookup id) with
  | none => rfl
  | some index =>
      simp only
      rcases h.cases index with ⟨hr, hr'⟩ | ⟨env, env', hr, hr', -, hparent, hstatus⟩
      · rw [hr, hr']
      · rw [hr, hr']
        simp only [hstatus, hancestor env env' hparent]

end SameNames

theorem sameNames_modify (r : Registry) (index : Nat) {f : Env → Env}
    (hf : ∀ env, (f env).identity = env.identity) : SameNames r (r.modify index f) := by
  refine ⟨by simp [capacity, modify], ?_⟩
  intro i
  rw [env?_modify]
  split
  · rw [Option.map_map]
    congr 1
    funext env
    exact hf env
  · rfl

/-! ## What an identifier stands for -/

variable {r : Registry} {id : EnvId} {requester i : Nat} {check : Bool}

/-- Whoever is named has to be there and not on its way out.  If it matters who asks, that has to be
the one that is named or one of its ancestors. -/
theorem resolve_eq_ok_iff_isAncestor : r.resolve id requester check = .ok i ↔
    (if id.isSelf then some requester else r.lookup id) = some i ∧
      ∃ target, r.env? i = some target ∧ target.status ≠ .dying ∧
        (check = true → i = requester ∨ r.isAncestor requester target = true) := by
  rw [resolve]
  cases (if id.isSelf = true then some requester else r.lookup id) with
  | none => simp
  | some index =>
      simp only [Option.some.injEq]
      constructor
      · intro h
        split at h
        · cases h
        · next target htarget =>
          split at h
          · cases h
          · next halive =>
            split at h
            · cases h
            · next hallowed =>
              cases h
              refine ⟨rfl, target, htarget, halive, ?_⟩
              rintro rfl
              simpa [Decidable.or_iff_not_imp_left] using hallowed
      · rintro ⟨rfl, target, htarget, halive, hallowed⟩
        simp only [htarget, if_neg halive]
        refine if_neg fun hrefused => ?_
        rw [Bool.and_eq_true, Bool.and_eq_true, bne_iff_ne, Bool.not_eq_true'] at hrefused
        obtain ⟨⟨hcheck, hne⟩, hancestor⟩ := hrefused
        rw [(hallowed hcheck).resolve_left hne] at hancestor
        cases hancestor

theorem resolve_eq_error {e : EnvError} (h : r.resolve id requester check = .error e) :
    e = .badEnvironment := by
  rw [resolve] at h
  split at h
  · cases h; rfl
  · split at h
    · cases h; rfl
    · split at h
      · cases h; rfl
      · split at h
        · cases h; rfl
        · cases h

end Registry

end Exokernel
