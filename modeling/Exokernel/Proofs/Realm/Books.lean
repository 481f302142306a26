import Exokernel.Proofs.Env.Tables
import Exokernel.Proofs.Ipc.Sending
import Exokernel.Proofs.Region.Books

/-! # Calls keep the books

Books about the memory and the page tables of all environments, kept by every call whatever its
arguments are and wherever it fails.  A copy of pages within one address space is looked at
apart. -/

namespace Exokernel

variable {Q : Record}

namespace Realm

variable {s t : Realm} {i j index : Nat} {env source target : Env}

/-- The books are in order, with the tables of all environments. -/
def Booked (Q : Record) (s : Realm) : Prop := Q none s.memory s.registry.tables

theorem tables_putSpace (henv : s.registry.env? index = some env) (space : Space) :
    (s.putSpace index space).registry.tables.Perm
      (space.table :: s.registry.tablesBut [index]) := by
  have hafter : (s.putSpace index space).registry.env? index =
      some { env with table := space.table } := by
    rw [env?_putSpace, if_pos rfl, henv]
    rfl
  have hperm := Registry.tables_perm hafter
  have hrest : (s.putSpace index space).registry.tablesBut [index] =
      s.registry.tablesBut [index] :=
    Registry.tablesBut_modify (List.mem_singleton_self index)
  rwa [hrest] at hperm

theorem tables_pair (hij : i ≠ j) (hsource : s.registry.env? i = some source)
    (htarget : s.registry.env? j = some target) : s.registry.tables.Perm
      (source.table :: target.table :: s.registry.tablesBut [j, i]) :=
  (Registry.tables_perm hsource).trans
    ((Registry.tablesBut_perm htarget (by simpa using Ne.symm hij)).cons _)

theorem tables_putPair (hij : i ≠ j) (hsource : s.registry.env? i = some source)
    (htarget : s.registry.env? j = some target) (pair : SpacePair) :
    (s.putPair i j pair).registry.tables.Perm
      (pair.source :: pair.target :: s.registry.tablesBut [j, i]) := by
  have hi : (s.putPair i j pair).registry.env? i = some { source with table := pair.source } := by
    rw [env?_putPair, if_neg (Ne.symm hij), if_pos rfl, hsource]
    rfl
  have hj : (s.putPair i j pair).registry.env? j = some { target with table := pair.target } := by
    rw [env?_putPair, if_pos rfl, htarget]
    rfl
  have hrest : (s.putPair i j pair).registry.tablesBut [j, i] =
      s.registry.tablesBut [j, i] := by
    rw [Realm.putPair, setTable, setTable]
    refine (Registry.tablesBut_modify (by simp)).trans ?_
    exact Registry.tablesBut_modify (by simp)
  have hperm := tables_pair hij hi hj
  rwa [hrest] at hperm

end Realm

namespace Books

open Realm

variable {s t : Realm} {i j index : Nat} {env source target : Env} (hQ : Books Q)

theorem modifyEnv (h : Booked Q s) (index : Nat) {f : Env → Env}
    (hf : ∀ env, (f env).table = env.table) : Booked Q (s.modifyEnv index f) := by
  have htables : (s.modifyEnv index f).registry.tables = s.registry.tables :=
    Registry.tables_modify_of_table_eq hf
  rw [Booked, htables]
  exact h

include hQ

theorem of_sameButLog (h : Booked Q s) (hlog : s.SameButLog t) : Booked Q t := by
  rw [Booked, hlog.registry_eq]
  exact hQ.of_eq h hlog.pool_eq hlog.refs_eq

theorem space (h : Booked Q s) (henv : s.registry.env? index = some env) :
    Space.Booked Q (s.registry.tablesBut [index]) ⟨s.memory, env.table⟩ :=
  hQ.perm h (Registry.tables_perm henv).symm

theorem pair (h : Booked Q s) (hij : i ≠ j) (hsource : s.registry.env? i = some source)
    (htarget : s.registry.env? j = some target) :
    SpacePair.Booked Q (s.registry.tablesBut [j, i]) ⟨s.memory, source.table, target.table⟩ :=
  hQ.perm h (tables_pair hij hsource htarget).symm

theorem onSpace {α : Type} {x : SpaceM α} (h : Booked Q s)
    (henv : s.registry.env? index = some env)
    (hx : ∀ rest, Keeps (Space.Booked Q rest) x) :
    Booked Q (stateOf (onSpace index env x s)) := by
  have hafter : Q none _ (_ :: s.registry.tablesBut [index]) := hx _ _ (hQ.space h henv)
  rw [stateOf_onSpace]
  exact hQ.perm hafter (tables_putSpace henv _)

theorem shareRegion_ne (h : Booked Q s) (hij : i ≠ j) (hsource : s.registry.env? i = some source)
    (htarget : s.registry.env? j = some target) (src dst : PageRange) (rights : MapRights) :
    Booked Q (stateOf (shareRegion i j source target src dst rights s)) := by
  have hafter : Q none _ (_ :: _ :: s.registry.tablesBut [j, i]) :=
    hQ.copyAcross src dst rights _ (hQ.pair h hij hsource htarget)
  rw [stateOf_shareRegion_ne hij]
  exact hQ.perm hafter (tables_putPair hij hsource htarget _)

theorem shareRegion_one (h : Booked Q s) (hsource : s.registry.env? i = some source)
    (htarget : s.registry.env? j = some target) (src dst : VirtPage) (rights : MapRights) :
    Booked Q (stateOf (shareRegion i j source target (.one src) (.one dst) rights s)) := by
  by_cases hij : i = j
  · subst hij
    rw [shareRegion_same]
    exact hQ.onSpace h hsource fun _ => hQ.copyWithin_one src dst rights
  · exact hQ.shareRegion_ne h hij hsource htarget _ _ rights

theorem endEnv (h : Booked Q s) (index : Nat) (actor : Option EnvId) (trace : Bool) :
    Booked Q (s.endEnv index actor trace).2 := by
  rcases s.endEnv_cases index actor trace with ⟨-, hsame⟩ | ⟨env, registry, htake, hlog⟩
  · rw [hsame]
    exact h
  · have hbefore : Space.Booked Q registry.tables ⟨s.memory, env.table⟩ :=
      hQ.perm h (Registry.tables_of_take? htake).symm
    have hafter := hQ.unmapAll hbefore
    generalize (Space.unmapAll ⟨s.memory, env.table⟩).memory = memory at hafter hlog
    have hended : Booked Q { s with registry, memory } := hafter
    exact hQ.of_sameButLog hended hlog

theorem allocate {parent : Option EnvId} {kind : EnvKind} {status : EnvStatus}
    {registry : Registry} (h : Booked Q s)
    (hallocate : s.registry.allocate parent kind status = .ok (index, registry)) :
    Booked Q { s with registry } :=
  hQ.perm (hQ.cons_empty h) (Registry.tables_of_allocate hallocate)

theorem trySend (h : Booked Q s) (sender : Nat) (request : SendRequest) :
    Booked Q (stateOf (trySend sender request s)) := by
  have hdeliver : ∀ {u : Realm} receiver delivery, Booked Q u →
      Booked Q (u.deliver receiver delivery) := by
    intro u receiver delivery hu
    exact modifyEnv hu receiver fun _ => rfl
  have houtcome := sendOutcome_trySend sender request s
  generalize Realm.trySend sender request s = result at houtcome
  cases houtcome with
  | refused e => exact h
  | alone _ _ _ _ hlog => exact hQ.of_sameButLog (hdeliver _ _ h) hlog
  | @stuck _ _ _ _ _ src dst rights _ _ _ hsource htarget _ _ _ _ _ hshare =>
      have hafter := hQ.shareRegion_one h hsource htarget src.page dst rights
      rwa [hshare] at hafter
  | @withPage _ _ _ _ _ src dst rights _ _ _ hsource htarget _ _ _ _ _ hshare hlog =>
      have hafter := hQ.shareRegion_one h hsource htarget src.page dst rights
      rw [hshare] at hafter
      exact hQ.of_sameButLog (hdeliver _ _ hafter) hlog

theorem receive (h : Booked Q s) (index : Nat) (request : RecvRequest) :
    Booked Q (stateOf (receive index request s)) := by
  rcases receive_cases index request s with hsame | hlog
  · rw [hsame]
    exact h
  · exact hQ.of_sameButLog (modifyEnv h index (f := waitFor request) fun _ => rfl) hlog

end Books

namespace Service

/-- The call names one address space as the source and as the target of a copy. -/
def SharesWithin (slot : Nat) (args : Args) (s : Realm) : Prop :=
  ∃ index, s.registry.resolve (.ofWord args.arg0) slot true = .ok index ∧
    s.registry.resolve (.ofWord args.arg2) slot true = .ok index

/-- Every call keeps the books, if a copy within one address space does when it is one. -/
theorem Effect.booked {caller : Caller} {args : Args} {call : Syscall} {s t : Realm}
    (heffect : Effect caller args s call t) (hQ : Books Q) (h : Realm.Booked Q s)
    (hwithin : call = .mapRegion → SharesWithin caller.slot args s → ∀ src dst rights rest,
      Keeps (Space.Booked Q rest) (Space.copyWithin src dst rights)) :
    Realm.Booked Q t := by
  cases heffect with
  | same => exact h
  | print =>
      refine keeps_writeChunks ?_ (fun _ _ hu => hu) _ _ s h
      intro u env start length hu henv
      exact hQ.onSpace hu henv fun _ => hQ.readBytes _ _
  | convict hlog => exact Books.modifyEnv (hQ.of_sameButLog h hlog) _ fun _ => rfl
  | readChar => exact h
  | exit _ hlog => exact Books.modifyEnv (hQ.of_sameButLog h hlog) _ fun _ => rfl
  | destroy _ _ hlog => exact hQ.endEnv (hQ.of_sameButLog h hlog) _ _ _
  | alloc _ _ _ henv => exact hQ.onSpace h henv fun _ => hQ.allocateRegion _ _
  | @share _ _ _ i j _ _ _ _ _ hi hj hsource htarget =>
      by_cases hij : i = j
      · subst hij
        rw [Realm.shareRegion_same]
        exact hQ.onSpace h hsource fun _ => hwithin rfl ⟨i, hi, hj⟩ _ _ _ _
      · exact hQ.shareRegion_ne h hij hsource htarget _ _ _
  | device _ henv => exact hQ.onSpace h henv fun _ => hQ.mapDeviceRegion _ _ _
  | unmap _ _ henv =>
      apply hQ.onSpace h henv
      intro others
      exact Keeps.update fun u hu => hQ.unmapPages hu _
  | @fork env child _ _ _ hchild hlog =>
      have hnamed := Books.modifyEnv (hQ.allocate h hchild) child
        (f := fun e => { e with frame := env.frame.setResult 0 }) fun _ => rfl
      exact hQ.of_sameButLog hnamed hlog
  | setStatus => exact Books.modifyEnv h _ fun _ => rfl
  | setUpcall => exact Books.modifyEnv h _ fun _ => rfl
  | send => exact hQ.trySend h _ _
  | receive => exact hQ.receive h _ _

end Service

end Exokernel
