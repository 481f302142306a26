import Exokernel.Proofs.Region.Views
import Exokernel.Realm

/-! # Requests on spaces as seen from the realm

A request on an address space changes the memory and the page table of the environment that owns it,
and the environments are otherwise as they were. -/

namespace Exokernel.Realm

variable {α : Type} {s t : Realm} {i j : Nat}

/-! ## The log -/

/-- The realms differ in the log at most. -/
structure SameButLog (s t : Realm) : Prop where
  registry_eq : t.registry = s.registry
  refs_eq : t.memory.refs = s.memory.refs
  pool_eq : t.memory.machine.pool = s.memory.machine.pool
  overclaim_eq : t.memory.machine.overclaim = s.memory.machine.overclaim
  hidden_eq : t.memory.machine.hidden = s.memory.machine.hidden
  console_eq : t.console = s.console

theorem SameButLog.refl (s : Realm) : s.SameButLog s := ⟨rfl, rfl, rfl, rfl, rfl, rfl⟩

theorem SameButLog.trans {u : Realm} (h : s.SameButLog t) (h' : t.SameButLog u) :
    s.SameButLog u :=
  ⟨h'.registry_eq.trans h.registry_eq, h'.refs_eq.trans h.refs_eq, h'.pool_eq.trans h.pool_eq,
    h'.overclaim_eq.trans h.overclaim_eq, h'.hidden_eq.trans h.hidden_eq,
    h'.console_eq.trans h.console_eq⟩

theorem sameButLog_note (s : Realm) (level : LogLevel) (target text : String) :
    s.SameButLog (s.note level target text) :=
  ⟨rfl, rfl, rfl, rfl, rfl, rfl⟩

theorem SameButLog.machine_eq (h : s.SameButLog t) :
    t.memory.machine = { s.memory.machine with log := t.memory.machine.log } := by
  obtain ⟨-, -, hpool, hoverclaim, hhidden, -⟩ := h
  obtain ⟨_, ⟨⟨pool, overclaim, hidden, log⟩, _⟩, _⟩ := t
  cases hpool
  cases hoverclaim
  cases hhidden
  rfl

/-! ## One space -/

/-- The realm with the memory and the page table that a request on a space has left. -/
def putSpace (s : Realm) (index : Nat) (space : Space) : Realm :=
  { s with memory := space.memory }.setTable index space.table

theorem env?_modifyEnv (s : Realm) (index k : Nat) (f : Env → Env) :
    (s.modifyEnv index f).registry.env? k =
      if index = k then (s.registry.env? k).map f else s.registry.env? k :=
  Registry.env?_modify _ _ _ _

theorem modifyEnv_of_fixed {index : Nat} {f : Env → Env}
    (h : ∀ env, s.registry.env? index = some env → f env = env) : s.modifyEnv index f = s := by
  have hslots : (s.registry.slots.modify index fun slot => { slot with env := slot.env.map f }) =
      s.registry.slots := by
    apply Array.ext_getElem?
    intro i
    rw [Array.getElem?_modify]
    split
    · next heq =>
      subst heq
      cases hslot : s.registry.slots[index]? with
      | none => rfl
      | some slot =>
          obtain ⟨generation, _ | env⟩ := slot
          · rfl
          · have henv : s.registry.env? index = some env := by
              rw [Registry.env?, hslot]
              rfl
            rw [Option.map_some, Option.map_some, h env henv]
    · rfl
  rw [modifyEnv, Registry.modify, hslots]

theorem modifyEnv_of_vacant {index : Nat} (h : s.registry.env? index = none) (f : Env → Env) :
    s.modifyEnv index f = s := by
  apply modifyEnv_of_fixed
  intro env henv
  rw [h] at henv
  cases henv

theorem modifyEnv_modifyEnv (s : Realm) (index : Nat) (f g : Env → Env) :
    (s.modifyEnv index f).modifyEnv index g = s.modifyEnv index fun env => g (f env) := by
  have hslots : ((s.registry.slots.modify index fun slot => { slot with env := slot.env.map f }).modify
      index fun slot => { slot with env := slot.env.map g }) =
      s.registry.slots.modify index fun slot =>
        { slot with env := slot.env.map fun env => g (f env) } := by
    apply Array.ext_getElem?
    intro i
    rw [Array.getElem?_modify, Array.getElem?_modify, Array.getElem?_modify]
    split
    · rw [Option.map_map]
      congr 1
      funext slot
      simp only [Function.comp_apply, Option.map_map]
      rfl
    · rfl
  simp only [modifyEnv, Registry.modify]
  rw [hslots]

theorem env?_putSpace (s : Realm) (index k : Nat) (space : Space) :
    (s.putSpace index space).registry.env? k =
      if index = k then (s.registry.env? k).map fun env => { env with table := space.table }
      else s.registry.env? k :=
  Registry.env?_modify _ _ _ _

theorem putSpace_self {index : Nat} {env : Env} (henv : s.registry.env? index = some env) :
    s.putSpace index ⟨s.memory, env.table⟩ = s := by
  refine modifyEnv_of_fixed (s := s) fun env' henv' => ?_
  rw [henv] at henv'
  cases henv'
  rfl

/-- A request runs on the memory and the page table, and they are put back whatever it comes to. -/
theorem onSpace_eq (index : Nat) (env : Env) (x : SpaceM α) (s : Realm) :
    onSpace index env x s =
      match x ⟨s.memory, env.table⟩ with
      | .ok a space => .ok a (s.putSpace index space)
      | .error e space => .error e (s.putSpace index space) := by
  rw [onSpace]
  cases x ⟨s.memory, env.table⟩ <;> rfl

theorem stateOf_onSpace (index : Nat) (env : Env) (x : SpaceM α) (s : Realm) :
    stateOf (onSpace index env x s) = s.putSpace index (stateOf (x ⟨s.memory, env.table⟩)) := by
  rw [onSpace_eq]
  cases x ⟨s.memory, env.table⟩ <;> rfl

/-! ## Two spaces -/

/-- The realm with the memory and the page tables that a request on two spaces has left. -/
def putPair (s : Realm) (i j : Nat) (pair : SpacePair) : Realm :=
  ({ s with memory := pair.memory }.setTable i pair.source).setTable j pair.target

theorem env?_putPair (s : Realm) (i j k : Nat) (pair : SpacePair) :
    (s.putPair i j pair).registry.env? k =
      if j = k then (s.registry.env? k).map fun env => { env with table := pair.target }
      else if i = k then (s.registry.env? k).map fun env => { env with table := pair.source }
      else s.registry.env? k := by
  rw [putPair, setTable, env?_modifyEnv, setTable, env?_modifyEnv]
  by_cases hj : j = k
  · rw [if_pos hj, if_pos hj]
    split
    · rw [Option.map_map]
      rfl
    · rfl
  · rw [if_neg hj, if_neg hj]

theorem exists_env?_putPair (i j : Nat) (pair : SpacePair) {k : Nat} {env : Env}
    (h : s.registry.env? k = some env) :
    ∃ table, (s.putPair i j pair).registry.env? k = some { env with table } := by
  rw [env?_putPair, h]
  split
  · exact ⟨_, rfl⟩
  · split
    · exact ⟨_, rfl⟩
    · exact ⟨env.table, rfl⟩

theorem shareRegion_same (i : Nat) (source target : Env) (src dst : PageRange)
    (rights : MapRights) (s : Realm) :
    shareRegion i i source target src dst rights s =
      onSpace i source (Space.copyWithin src dst rights) s :=
  congrFun (if_pos rfl) s

theorem shareRegion_ne (h : i ≠ j) (source target : Env) (src dst : PageRange)
    (rights : MapRights) (s : Realm) :
    shareRegion i j source target src dst rights s =
      match SpacePair.copyAcross src dst rights ⟨s.memory, source.table, target.table⟩ with
      | .ok () pair => .ok () (s.putPair i j pair)
      | .error e pair => .error e (s.putPair i j pair) := by
  refine (congrFun (if_neg h) s).trans ?_
  cases SpacePair.copyAcross src dst rights ⟨s.memory, source.table, target.table⟩ <;> rfl

theorem stateOf_shareRegion_ne (h : i ≠ j) (source target : Env) (src dst : PageRange)
    (rights : MapRights) (s : Realm) :
    stateOf (shareRegion i j source target src dst rights s) =
      s.putPair i j (stateOf (SpacePair.copyAcross src dst rights
        ⟨s.memory, source.table, target.table⟩)) := by
  rw [shareRegion_ne h]
  cases SpacePair.copyAcross src dst rights ⟨s.memory, source.table, target.table⟩ <;> rfl

theorem env?_shareRegion (source target : Env) (src dst : PageRange) (rights : MapRights)
    {k : Nat} {env : Env} (h : s.registry.env? k = some env) :
    ∃ table, (stateOf (shareRegion i j source target src dst rights s)).registry.env? k =
      some { env with table } := by
  by_cases hij : i = j
  · subst hij
    rw [shareRegion_same, stateOf_onSpace, env?_putSpace, h]
    split
    · exact ⟨_, rfl⟩
    · exact ⟨env.table, rfl⟩
  · rw [stateOf_shareRegion_ne hij]
    exact exists_env?_putPair i j _ h

theorem env?_shareRegion_of_ne (source target : Env) (src dst : PageRange) (rights : MapRights)
    (s : Realm) {k : Nat} (hi : i ≠ k) (hj : j ≠ k) :
    (stateOf (shareRegion i j source target src dst rights s)).registry.env? k =
      s.registry.env? k := by
  by_cases hij : i = j
  · subst hij
    rw [shareRegion_same, stateOf_onSpace, env?_putSpace, if_neg hi]
  · rw [stateOf_shareRegion_ne hij, env?_putPair, if_neg hj, if_neg hi]

/-! ## The end of an environment -/

/-- The environment is taken out, and its address space is taken down. -/
theorem endEnv_cases (s : Realm) (index : Nat) (actor : Option EnvId) (trace : Bool) :
    (s.registry.env? index = none ∧ (s.endEnv index actor trace).2 = s) ∨
      ∃ env registry, s.registry.take? index = some (env, registry) ∧
        SameButLog { s with registry, memory := (Space.unmapAll ⟨s.memory, env.table⟩).memory }
          (s.endEnv index actor trace).2 := by
  cases htake : s.registry.take? index with
  | none =>
      left
      refine ⟨?_, by simp only [endEnv, htake]⟩
      rw [Registry.take?] at htake
      split at htake
      · assumption
      · cases htake
  | some result =>
      obtain ⟨env, registry⟩ := result
      right
      refine ⟨env, registry, rfl, ?_⟩
      simp only [endEnv, htake]
      generalize (Space.unmapAll ⟨s.memory, env.table⟩).memory = memory
      cases trace
      · exact .refl _
      · exact sameButLog_note _ _ _ _

theorem sameBytes_endEnv (s : Realm) (index : Nat) (actor : Option EnvId) (trace : Bool) :
    s.memory.machine.pool.SameBytes (s.endEnv index actor trace).2.memory.machine.pool := by
  rcases s.endEnv_cases index actor trace with ⟨-, hsame⟩ | ⟨env, registry, -, hlog⟩
  · rw [hsame]
    exact .refl _
  · have hbytes := Space.sameBytes_unmapAll ⟨s.memory, env.table⟩
    generalize Space.unmapAll ⟨s.memory, env.table⟩ = space at hbytes hlog
    rw [hlog.pool_eq]
    exact hbytes

end Exokernel.Realm
