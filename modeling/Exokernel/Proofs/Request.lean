/-! # What a request keeps

Changes outlast a refusal, so a property that is to hold after every request has to hold of the
state that it leaves when it is carried out and of the one that it leaves when it is refused.  A
request is atomic where a refusal leaves no change behind. -/

namespace Exokernel

variable {ε ε' σ τ α β : Type}

/-- The state that a request leaves, carried out or refused. -/
def stateOf : EStateM.Result ε σ α → σ
  | .ok _ s => s
  | .error _ s => s

@[simp] theorem stateOf_ok (a : α) (s : σ) : stateOf (.ok a s : EStateM.Result ε σ α) = s := rfl

@[simp] theorem stateOf_error (e : ε) (s : σ) : stateOf (.error e s : EStateM.Result ε σ α) = s :=
  rfl

def isDone : EStateM.Result ε σ α → Bool
  | .ok _ _ => true
  | .error _ _ => false

theorem eq_ok_of_isDone {x : EStateM.Result ε σ Unit} (h : isDone x = true) :
    x = .ok () (stateOf x) := by
  cases x with
  | ok _ s => rfl
  | error e s => cases h

def answer? : EStateM.Result ε σ α → Option α
  | .ok a _ => some a
  | .error _ _ => none

theorem eq_ok_of_answer? {x : EStateM.Result ε σ α} {a : α} (h : answer? x = some a) :
    x = .ok a (stateOf x) := by
  cases x with
  | ok b s =>
      cases h
      rfl
  | error e s => cases h

theorem bind_eq_ok_iff {x : EStateM ε σ α} {f : α → EStateM ε σ β} {s s' : σ} {b : β} :
    (x >>= f) s = .ok b s' ↔ ∃ a t, x s = .ok a t ∧ f a t = .ok b s' := by
  change EStateM.bind x f s = _ ↔ _
  rw [EStateM.bind]
  cases h : x s with
  | ok a t =>
      constructor
      · intro hf
        exact ⟨a, t, rfl, hf⟩
      · rintro ⟨_, _, heq, hf⟩
        cases heq
        exact hf
  | error e t => simp

theorem bind_of_ok {x : EStateM ε σ α} {s t : σ} {a : α} (h : x s = .ok a t)
    (f : α → EStateM ε σ β) : (x >>= f) s = f a t := by
  change EStateM.bind x f s = _
  rw [EStateM.bind, h]

theorem bind_of_error {x : EStateM ε σ α} {s t : σ} {e : ε} (h : x s = .error e t)
    (f : α → EStateM ε σ β) : (x >>= f) s = .error e t := by
  change EStateM.bind x f s = _
  rw [EStateM.bind, h]

theorem bind_eq_error_iff {x : EStateM ε σ α} {f : α → EStateM ε σ β} {s s' : σ} {e : ε} :
    (x >>= f) s = .error e s' ↔
      x s = .error e s' ∨ ∃ a t, x s = .ok a t ∧ f a t = .error e s' := by
  cases h : x s with
  | ok a t =>
      rw [bind_of_ok h]
      constructor
      · intro hf
        exact Or.inr ⟨a, t, rfl, hf⟩
      · rintro (heq | ⟨_, _, heq, hf⟩)
        · cases heq
        · cases heq
          exact hf
  | error e' t =>
      rw [bind_of_error h]
      simp

theorem stateOf_adaptExcept (g : ε → ε') (x : EStateM ε σ α) (s : σ) :
    stateOf (EStateM.adaptExcept g x s) = stateOf (x s) := by
  rw [EStateM.adaptExcept]
  cases x s <;> rfl

theorem adaptExcept_eq_ok_iff {g : ε → ε'} {x : EStateM ε σ α} {s s' : σ} {a : α} :
    EStateM.adaptExcept g x s = .ok a s' ↔ x s = .ok a s' := by
  rw [EStateM.adaptExcept]
  cases x s <;> simp

theorem stateOf_bind {I : σ → Prop} {x : EStateM ε σ α} {f : α → EStateM ε σ β} {s : σ}
    (hx : I (stateOf (x s))) (hf : ∀ a t, I t → I (stateOf (f a t))) :
    I (stateOf ((x >>= f) s)) := by
  cases h : x s with
  | ok a t =>
      rw [bind_of_ok h]
      rw [h] at hx
      exact hf a t hx
  | error e t =>
      rw [bind_of_error h]
      rw [h] at hx
      exact hx

theorem stateOf_bind_pure (x : EStateM ε σ α) (b : β) (s : σ) :
    stateOf ((x >>= fun _ => pure b) s) = stateOf (x s) := by
  cases h : x s with
  | ok a t =>
      rw [bind_of_ok h]
      rfl
  | error e t =>
      rw [bind_of_error h]
      rfl

/-- Whatever a request comes to, it leads from states with the property to states with it. -/
def Keeps (I : σ → Prop) (x : EStateM ε σ α) : Prop := ∀ s, I s → I (stateOf (x s))

namespace Keeps

variable {I : σ → Prop} {x : EStateM ε σ α}

theorem pure (a : α) : Keeps I (Pure.pure a : EStateM ε σ α) := fun _ h => h

theorem throw (e : ε) : Keeps I (MonadExcept.throw e : EStateM ε σ α) := fun _ h => h

theorem update {f : σ → σ} (hf : ∀ s, I s → I (f s)) :
    Keeps I (modify f : EStateM ε σ PUnit) := hf

theorem bind {f : α → EStateM ε σ β} (hx : Keeps I x) (hf : ∀ a, Keeps I (f a)) :
    Keeps I (x >>= f) := fun s hs => stateOf_bind (hx s hs) fun a => hf a

theorem get_bind {f : σ → EStateM ε σ β} (hf : ∀ s, I s → Keeps I (f s)) :
    Keeps I (get >>= f) := fun s hs => hf s hs s hs

end Keeps

/-- Refused in this state, a request changes nothing. -/
def Atomic (x : EStateM ε σ α) (s : σ) : Prop := ∀ e t, x s = .error e t → t = s

namespace Atomic

variable {x : EStateM ε σ α} {s : σ}

theorem pure (a : α) : Atomic (Pure.pure a : EStateM ε σ α) s := nofun

theorem throw (e : ε) : Atomic (MonadExcept.throw e : EStateM ε σ α) s := by
  intro e' t h
  cases h
  rfl

theorem update (f : σ → σ) : Atomic (modify f : EStateM ε σ PUnit) s := nofun

theorem of_ok {a : α} {t : σ} (h : x s = .ok a t) : Atomic x s := by
  intro e u he
  rw [h] at he
  cases he

theorem bind_of_looks {f : α → EStateM ε σ β} (hx : stateOf (x s) = s)
    (hf : ∀ a, x s = .ok a s → Atomic (f a) s) : Atomic (x >>= f) s := by
  intro e t h
  rcases bind_eq_error_iff.mp h with hx' | ⟨a, u, hx', hf'⟩
  · rw [hx'] at hx
    exact hx
  · rw [hx'] at hx
    cases hx
    exact hf a hx' e t hf'

theorem bind_pure (hx : Atomic x s) (b : β) : Atomic (x >>= fun _ => Pure.pure b) s := by
  intro e t h
  rcases bind_eq_error_iff.mp h with hx' | ⟨a, u, -, hpure⟩
  · exact hx e t hx'
  · cases hpure

theorem get_bind {f : σ → EStateM ε σ β} (hf : Atomic (f s) s) : Atomic (get >>= f) s := hf

theorem adaptExcept (g : ε → ε') (hx : Atomic x s) : Atomic (EStateM.adaptExcept g x) s := by
  intro e t h
  rw [EStateM.adaptExcept] at h
  cases hresult : x s with
  | ok a u =>
      rw [hresult] at h
      cases h
  | error e' u =>
      rw [hresult] at h
      cases h
      exact hx e' t hresult

end Atomic

end Exokernel
