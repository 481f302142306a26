import Exokernel.Proofs.Env.Control
import Exokernel.Proofs.Env.Descent

/-! # Resolution

What an identifier stands for when an environment uses it, decided by the walk up the chain of
parents and said here without the walk.  The parents may be anything: absent, the identifier of a
former occupant, or links that run in a circle. -/

namespace Exokernel.Registry

variable {r : Registry} {requester : Nat} {a id : EnvId}

/-- The slot that an identifier stands for when the environment in the slot `requester` uses it.  An
environment that is on its way out stands for nobody, but it is still a link between others. -/
structure Resolves (r : Registry) (id : EnvId) (requester : Nat) (check : Bool) (i : Nat) : Prop where
  named : if id.isSelf then i = requester else ∃ env, r.env? i = some env ∧ env.id = id
  alive : ∃ env, r.env? i = some env ∧ env.status ≠ .dying
  permitted : check = true → i = requester ∨ ∃ env, r.env? i = some env ∧ r.Descends requester env

/-! ## The walk -/

theorem link_of_descends {env : Env} (ha : r.lookup a = some requester)
    (h : r.Descends requester env) : ∃ n, r.link env.parent n = some a := by
  induction h with
  | child hparent hlookup => exact ⟨0, hparent.trans (congrArg some (eq_of_lookup_eq hlookup ha))⟩
  | @step env id index parent hparent hlookup henv _ ih =>
      obtain ⟨n, hlink⟩ := ih
      refine ⟨n + 1, ?_⟩
      have hnext : r.parentOf id = parent.parent := by
        rw [parentOf, hlookup, Option.bind_some, henv, Option.bind_some]
      rw [hparent, link_some_succ, hnext, hlink]

theorem occupied_of_descends {env : Env} (h : r.Descends requester env) :
    ∃ env, r.env? requester = some env := by
  induction h with
  | child _ hlookup =>
      obtain ⟨-, env, henv, -⟩ := index_of_lookup hlookup
      exact ⟨env, henv⟩
  | step _ _ _ _ ih => exact ih

theorem chainMeets_of_capacity_le (hlive : ∃ i, r.lookup a = some i) {steps : Nat}
    (hle : r.capacity ≤ steps) (start : Option EnvId) :
    r.chainMeets a steps start = r.chainMeets a r.capacity start := by
  rw [Bool.eq_iff_iff, chainMeets_iff, chainMeets_iff]
  constructor
  · rintro ⟨n, -, hlink⟩
    exact exists_link_lt_capacity hlive hlink
  · rintro ⟨n, hlt, hlink⟩
    exact ⟨n, Nat.lt_of_lt_of_le hlt hle, hlink⟩

/-- On a chain that comes back to one of its links nobody is met who was not met before. -/
theorem link_ne_of_cycle {start : Option EnvId} {i j : Nat} (hlt : i < j)
    (hcycle : r.link start i = r.link start j) (hbefore : ∀ n < j, r.link start n ≠ some a)
    (n : Nat) : r.link start n ≠ some a := by
  induction n using Nat.strong_induction_on with
  | _ n ih =>
  by_cases hn : n < j
  · exact hbefore n hn
  · obtain ⟨d, rfl⟩ := Nat.exists_eq_add_of_le (Nat.le_of_not_lt hn)
    rw [link_add, ← hcycle, ← link_add]
    exact ih (i + d) (by omega)

theorem chainMeets_of_cycle {start : Option EnvId} {i j : Nat} (hlt : i < j)
    (hcycle : r.link start i = r.link start j) (hbefore : ∀ n < j, r.link start n ≠ some a)
    (steps : Nat) : r.chainMeets a steps start = false := by
  rw [← Bool.not_eq_true, chainMeets_iff]
  rintro ⟨n, -, hlink⟩
  exact link_ne_of_cycle hlt hcycle hbefore n hlink

theorem isAncestor_iff_descends (hnames : ∀ i env, r.env? i = some env → env.id.index = i)
    {target : Env} : r.isAncestor requester target = true ↔ r.Descends requester target := by
  refine ⟨descends_of_isAncestor hnames, fun h => ?_⟩
  obtain ⟨env, henv⟩ := occupied_of_descends h
  have hlookup := (lookup_eq_some_iff hnames).mpr ⟨env, henv, rfl⟩
  obtain ⟨n, hlink⟩ := link_of_descends hlookup h
  rw [isAncestor, henv]
  exact chainMeets_iff.mpr (exists_link_lt_capacity ⟨requester, hlookup⟩ hlink)

/-! ## The decision -/

theorem named_iff (hnames : ∀ i env, r.env? i = some env → env.id.index = i) (requester i : Nat)
    (id : EnvId) :
    (if id.isSelf then some requester else r.lookup id) = some i ↔
      if id.isSelf then i = requester else ∃ env, r.env? i = some env ∧ env.id = id := by
  cases id.isSelf with
  | true => exact Option.some_inj.trans eq_comm
  | false => exact lookup_eq_some_iff hnames

theorem resolve_eq_ok_iff (hnames : ∀ i env, r.env? i = some env → env.id.index = i)
    {check : Bool} {i : Nat} : r.resolve id requester check = .ok i ↔
      r.Resolves id requester check i := by
  rw [resolve_eq_ok_iff_isAncestor, named_iff hnames]
  constructor
  · rintro ⟨hname, target, htarget, halive, hallowed⟩
    refine ⟨hname, ⟨target, htarget, halive⟩, fun hcheck => (hallowed hcheck).imp_right ?_⟩
    exact fun hancestor => ⟨target, htarget, (isAncestor_iff_descends hnames).mp hancestor⟩
  · rintro ⟨hname, ⟨target, htarget, halive⟩, hpermitted⟩
    refine ⟨hname, target, htarget, halive, fun hcheck => (hpermitted hcheck).imp_right ?_⟩
    rintro ⟨env, henv, hdescends⟩
    rw [htarget] at henv
    cases henv
    exact (isAncestor_iff_descends hnames).mpr hdescends

/-- The check of a capability decides the relation between the living.  Its bounded walk answers as
one of any greater length would, and on a chain that runs in a circle it answers no. -/
theorem resolve_decides (hnames : ∀ i env, r.env? i = some env → env.id.index = i) (id : EnvId)
    (requester : Nat) (check : Bool) :
    (∀ i, r.resolve id requester check = .ok i ↔ r.Resolves id requester check i) ∧
    (r.resolve id requester check = .error .badEnvironment ↔
      ∀ i, ¬ r.Resolves id requester check i) ∧
    ∀ env, r.env? requester = some env → ∀ start,
      (∀ steps, r.capacity ≤ steps →
        r.chainMeets env.id steps start = r.chainMeets env.id r.capacity start) ∧
      (r.chainMeets env.id r.capacity start = true ↔ ∃ n, r.link start n = some env.id) ∧
      ∀ i j, i < j → r.link start i = r.link start j →
        (∀ n < j, r.link start n ≠ some env.id) →
        ∀ steps, r.chainMeets env.id steps start = false := by
  refine ⟨fun i => resolve_eq_ok_iff hnames, ?_, ?_⟩
  · constructor
    · intro herror i hresolves
      rw [(resolve_eq_ok_iff hnames).mpr hresolves] at herror
      cases herror
    · intro hnone
      cases hresolve : r.resolve id requester check with
      | ok i => exact absurd ((resolve_eq_ok_iff hnames).mp hresolve) (hnone i)
      | error e => rw [resolve_eq_error hresolve]
  · intro env henv start
    have hlive : ∃ i, r.lookup env.id = some i :=
      ⟨requester, (lookup_eq_some_iff hnames).mpr ⟨env, henv, rfl⟩⟩
    refine ⟨fun steps hle => chainMeets_of_capacity_le hlive hle start, ?_,
      fun i j hlt hcycle hbefore => chainMeets_of_cycle hlt hcycle hbefore⟩
    rw [chainMeets_iff]
    constructor
    · rintro ⟨n, -, hlink⟩
      exact ⟨n, hlink⟩
    · rintro ⟨n, hlink⟩
      exact exists_link_lt_capacity hlive hlink

/-- A full registry in which each environment is the parent of the next and the first one its
own. -/
def lineage : Registry where
  slots := Array.ofFn fun i : Fin 5 =>
    ⟨1, some (.fresh (.ofParts i 1) (some (.ofParts (i - 1 : Nat) 1)) .user .runnable)⟩
  current := some 0

theorem index_eq_lineage (i : Nat) (env : Env) (h : lineage.env? i = some env) :
    env.id.index = i := by
  have hlt : i < 5 := by simpa [lineage, capacity] using lt_capacity_of_env? h
  have hall : ∀ j : Fin 5, ((lineage.env? j).map (·.id.index)) = some (j : Nat) := by decide +kernel
  have hindex := hall ⟨i, hlt⟩
  rw [h] at hindex
  exact Option.some.inj hindex

/-- The first environment of the lineage may act on the last, over as many links as there can be;
the last may not act on the first, whose chain never ends. -/
theorem resolve_decides_lineage :
    lineage.Resolves (.ofParts 4 1) 0 true 4 ∧ (∀ i, ¬ lineage.Resolves (.ofParts 0 1) 4 true i) ∧
      ∀ env, lineage.env? 4 = some env →
        ∀ steps, lineage.chainMeets env.id steps (some (.ofParts 0 1)) = false := by
  have hdown : lineage.resolve (.ofParts 4 1) 0 true = .ok 4 := by decide +kernel
  have hup : lineage.resolve (.ofParts 0 1) 4 true = .error .badEnvironment := by decide +kernel
  refine ⟨((resolve_decides index_eq_lineage _ _ _).1 4).mp hdown,
    (resolve_decides index_eq_lineage _ _ _).2.1.mp hup, fun env henv steps => ?_⟩
  have hid : env.id = .ofParts 4 1 := by
    have hsome : (lineage.env? 4).map Env.id = some (.ofParts 4 1) := by decide +kernel
    rw [henv] at hsome
    exact Option.some.inj hsome
  refine ((resolve_decides index_eq_lineage (.ofParts 0 1) 4 true).2.2 env henv
    (some (.ofParts 0 1))).2.2 0 1 (by decide) (by decide +kernel) (fun n hn => ?_) steps
  obtain rfl := Nat.lt_one_iff.mp hn
  rw [hid]
  decide +kernel

end Exokernel.Registry
