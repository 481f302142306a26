import Exokernel.Proofs.Env.Authority
import Exokernel.Proofs.Env.Slots
import Mathlib.Data.Finset.Card

/-! # Control

Who controls whom: an environment controls itself and everybody on whose chain of parents it is, as
long as each link of the chain names an environment exactly.  This is what an identifier is checked
for before anybody acts with it, and what it takes to keep it from growing. -/

namespace Exokernel.Registry

variable {r r' : Registry} {a t : EnvId}

/-- The environment with one identifier controls that with another. -/
inductive Controls (r : Registry) (a : EnvId) : EnvId → Prop where
  | self (h : ∃ i, r.lookup a = some i) : Controls r a a
  | child {t parent} (hparent : r.parentOf t = some parent) (h : Controls r a parent) :
      Controls r a t

theorem parentOf_eq_some_iff {parent : EnvId} : r.parentOf t = some parent ↔
    ∃ i env, r.lookup t = some i ∧ r.env? i = some env ∧ env.parent = some parent := by
  simp only [parentOf, Option.bind_eq_some_iff]
  constructor
  · rintro ⟨i, hlookup, env, henv, hparent⟩
    exact ⟨i, env, hlookup, henv, hparent⟩
  · rintro ⟨i, env, hlookup, henv, hparent⟩
    exact ⟨i, hlookup, env, henv, hparent⟩

theorem Controls.live_left (h : r.Controls a t) : ∃ i, r.lookup a = some i := by
  induction h with
  | self h => exact h
  | child _ _ ih => exact ih

theorem Controls.live_right (h : r.Controls a t) : ∃ i, r.lookup t = some i := by
  cases h with
  | self h => exact h
  | child hparent _ =>
      obtain ⟨i, -, hlookup, -⟩ := parentOf_eq_some_iff.mp hparent
      exact ⟨i, hlookup⟩

/-! ## The chain of parents -/

/-- What is met after so many steps up the chain of parents. -/
def link (r : Registry) (start : Option EnvId) : Nat → Option EnvId
  | 0 => start
  | n + 1 => (r.link start n).bind r.parentOf

theorem link_add (r : Registry) (start : Option EnvId) (m n : Nat) :
    r.link start (m + n) = r.link (r.link start m) n := by
  induction n with
  | zero => rfl
  | succ n ih => exact congrArg (Option.bind · r.parentOf) ih

theorem link_none (r : Registry) (n : Nat) : r.link none n = none := by
  induction n with
  | zero => rfl
  | succ n ih => rw [link, ih, Option.bind_none]

theorem link_some_succ (r : Registry) (t : EnvId) (n : Nat) :
    r.link (some t) (n + 1) = r.link (r.parentOf t) n := by
  rw [Nat.add_comm, link_add]
  rfl

theorem chainMeets_iff {steps : Nat} {start : Option EnvId} :
    r.chainMeets a steps start = true ↔ ∃ n < steps, r.link start n = some a := by
  induction steps generalizing start with
  | zero => simp [chainMeets]
  | succ steps ih =>
      cases start with
      | none => simp [chainMeets, link_none]
      | some id =>
          rw [chainMeets, Bool.or_eq_true, beq_iff_eq, ih]
          constructor
          · rintro (rfl | ⟨n, hn, hlink⟩)
            · exact ⟨0, Nat.succ_pos _, rfl⟩
            · exact ⟨n + 1, Nat.succ_lt_succ hn, (link_some_succ r id n).trans hlink⟩
          · rintro ⟨_ | n, hn, hlink⟩
            · exact Or.inl (Option.some.inj hlink)
            · exact Or.inr ⟨n, Nat.lt_of_succ_lt_succ hn, (link_some_succ r id n).symm.trans hlink⟩

theorem controls_iff_link :
    r.Controls a t ↔ (∃ i, r.lookup a = some i) ∧ ∃ n, r.link (some t) n = some a := by
  constructor
  · intro h
    refine ⟨h.live_left, ?_⟩
    induction h with
    | self => exact ⟨0, rfl⟩
    | child hparent _ ih =>
        obtain ⟨n, hlink⟩ := ih
        refine ⟨n + 1, ?_⟩
        rw [link_some_succ, hparent, hlink]
  · rintro ⟨hlive, n, hlink⟩
    induction n generalizing t with
    | zero =>
        cases hlink
        exact .self hlive
    | succ n ih =>
        rw [link_some_succ] at hlink
        cases hparent : r.parentOf t with
        | none =>
            rw [hparent, link_none] at hlink
            cases hlink
        | some parent => exact .child hparent (ih (hparent ▸ hlink))

theorem live_of_link {start : Option EnvId} {i n : Nat} (hi : i ≤ n)
    (hlive : ∃ index, r.lookup a = some index) (hlink : r.link start n = some a) :
    ∃ id index, r.link start i = some id ∧ r.lookup id = some index := by
  obtain ⟨d, rfl⟩ := Nat.exists_eq_add_of_le hi
  rw [link_add] at hlink
  cases hid : r.link start i with
  | none =>
      rw [hid, link_none] at hlink
      cases hlink
  | some id =>
      rw [hid] at hlink
      obtain ⟨index, hlookup⟩ := (controls_iff_link.mpr ⟨hlive, d, hlink⟩).live_right
      exact ⟨id, index, rfl, hlookup⟩

theorem eq_of_lookup_eq {id id' : EnvId} {index : Nat} (h : r.lookup id = some index)
    (h' : r.lookup id' = some index) : id = id' := by
  obtain ⟨-, env, henv, rfl⟩ := index_of_lookup h
  obtain ⟨-, env', henv', rfl⟩ := index_of_lookup h'
  rw [henv] at henv'
  cases henv'
  rfl

/-- On a chain with as many steps as there are slots some link is met twice. -/
theorem exists_link_eq {start : Option EnvId} {n : Nat} (hlive : ∃ index, r.lookup a = some index)
    (hlink : r.link start n = some a) (hle : r.capacity ≤ n) :
    ∃ i j, i < j ∧ j ≤ n ∧ r.link start i = r.link start j := by
  let slotAt (i : Nat) : Nat := ((r.link start i).bind r.lookup).getD 0
  have hslot : ∀ i ≤ n, ∃ id, r.link start i = some id ∧ r.lookup id = some (slotAt i) := by
    intro i hi
    obtain ⟨id, index, hid, hlookup⟩ := live_of_link hi hlive hlink
    refine ⟨id, hid, ?_⟩
    simp only [slotAt, hid, Option.bind_some, hlookup, Option.getD_some]
  obtain ⟨i, hi, j, hj, hne, hsame⟩ : ∃ i ∈ Finset.range (n + 1), ∃ j ∈ Finset.range (n + 1),
      i ≠ j ∧ slotAt i = slotAt j := by
    refine Finset.exists_ne_map_eq_of_card_lt_of_maps_to (t := Finset.range r.capacity) ?_ ?_
    · simpa using Nat.lt_succ_of_le hle
    · intro i hi
      obtain ⟨id, -, hlookup⟩ := hslot i (by simpa [Nat.lt_succ_iff] using hi)
      obtain ⟨-, env, henv, -⟩ := index_of_lookup hlookup
      simpa using lt_capacity_of_env? henv
  rw [Finset.mem_range, Nat.lt_succ_iff] at hi hj
  have heq : r.link start i = r.link start j := by
    obtain ⟨id, hid, hlookup⟩ := hslot i hi
    obtain ⟨id', hid', hlookup'⟩ := hslot j hj
    rw [hid, hid', eq_of_lookup_eq hlookup (hsame ▸ hlookup')]
  rcases Nat.lt_or_gt_of_ne hne with hlt | hlt
  · exact ⟨i, j, hlt, hj, heq⟩
  · exact ⟨j, i, hlt, hi, heq.symm⟩

/-- A chain that leads to an environment does so in fewer steps than there are slots: what lies
between two meetings with the same link can be left out. -/
theorem exists_link_lt_capacity {start : Option EnvId} {n : Nat}
    (hlive : ∃ index, r.lookup a = some index) (hlink : r.link start n = some a) :
    ∃ m < r.capacity, r.link start m = some a := by
  induction n using Nat.strong_induction_on with
  | _ n ih =>
  by_cases hlt : n < r.capacity
  · exact ⟨n, hlt, hlink⟩
  · obtain ⟨i, j, hij, hj, heq⟩ := exists_link_eq hlive hlink (Nat.le_of_not_lt hlt)
    obtain ⟨d, rfl⟩ := Nat.exists_eq_add_of_le hj
    refine ih (i + d) (by omega) ?_
    rw [link_add, heq, ← link_add]
    exact hlink

/-! ## Control and identifiers -/

theorem isAncestor_of_controls {requester : Nat} {env target : Env}
    (henv : r.env? requester = some env) (hparent : r.parentOf t = target.parent) (hne : env.id ≠ t)
    (h : r.Controls env.id t) : r.isAncestor requester target = true := by
  obtain ⟨n, hlink⟩ := (controls_iff_link.mp h).2
  obtain ⟨m, hlt, hlink⟩ := exists_link_lt_capacity h.live_left hlink
  rw [isAncestor, henv]
  refine chainMeets_iff.mpr ?_
  cases m with
  | zero => exact absurd (Option.some.inj hlink).symm hne
  | succ m =>
      rw [link_some_succ, hparent] at hlink
      exact ⟨m, Nat.lt_of_succ_lt hlt, hlink⟩

theorem controls_of_isAncestor {requester : Nat} {env target : Env}
    (henv : r.env? requester = some env) (hlookup : r.lookup env.id = some requester)
    (hparent : r.parentOf t = target.parent) (h : r.isAncestor requester target = true) :
    r.Controls env.id t := by
  rw [isAncestor, henv] at h
  obtain ⟨n, -, hlink⟩ := chainMeets_iff.mp h
  refine controls_iff_link.mpr ⟨⟨requester, hlookup⟩, n + 1, ?_⟩
  rwa [link_some_succ, hparent]

/-- The identifier of another environment is accepted from whoever controls that environment, and
from nobody else. -/
theorem resolve_eq_ok_iff_controls {requester index : Nat} {env : Env}
    (henv : r.env? requester = some env) (hrequester : r.lookup env.id = some requester)
    (hlookup : r.lookup t = some index) (hself : t.isSelf = false)
    (halive : ∀ target, r.env? index = some target → target.status ≠ .dying) :
    r.resolve t requester true = .ok index ↔ r.Controls env.id t := by
  obtain ⟨-, target, htarget, rfl⟩ := index_of_lookup hlookup
  have hparent : r.parentOf target.id = target.parent := by
    rw [parentOf, hlookup, Option.bind_some, htarget, Option.bind_some]
  rw [resolve_eq_ok_iff_isAncestor]
  constructor
  · rintro ⟨-, target', htarget', -, hallowed⟩
    rw [htarget] at htarget'
    cases htarget'
    rcases hallowed rfl with rfl | hancestor
    · rw [henv] at htarget
      cases htarget
      exact .self ⟨index, hlookup⟩
    · exact controls_of_isAncestor henv hrequester hparent hancestor
  · intro h
    refine ⟨?_, target, htarget, halive target htarget, fun _ => ?_⟩
    · rw [hself, if_neg Bool.false_ne_true, hlookup]
    · by_cases hsame : index = requester
      · exact Or.inl hsame
      · have hne : env.id ≠ target.id := by
          intro hid
          rw [hid, hlookup] at hrequester
          exact hsame (Option.some.inj hrequester)
        exact Or.inr (isAncestor_of_controls henv hparent hne h)

end Exokernel.Registry
