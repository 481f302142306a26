import Exokernel.Proofs.Env.Authority
import Exokernel.Proofs.Kernel.Runs
import Exokernel.Proofs.Service.Effects

/-! # What an event does

A call has its effect, is noted in the log, has its result written back, and may end its caller;
then another environment may become the current one.  The other events come down to one request on
an address space each. -/

namespace Exokernel.Kernel

def withCurrent (s : Realm) (current : Option Nat) : Realm :=
  { s with registry := { s.registry with current } }

theorem sameButLog_noteCall (s : Realm) (config : Config) (id : EnvId) (number : Word) (args : Args)
    (outcome : Except SysError Word) :
    s.SameButLog (noteCall s config id number args outcome) := by
  have hnote : ∀ (b : Bool) (t : Realm) level target text, s.SameButLog t →
      s.SameButLog (if b = true then t.note level target text else t) := by
    intro b t level target text h
    cases b
    · exact h
    · exact h.trans (Realm.sameButLog_note _ _ _ _)
  unfold noteCall
  cases outcome with
  | ok value => exact hnote _ _ _ _ _ (.refl s)
  | error e => exact hnote _ _ _ _ _ (hnote _ _ _ _ _ (.refl s))

/-- The result word is written back if there is one, and a dying caller ends. -/
theorem settle_cases (s : Realm) (config : Config) (caller : Nat) (id : EnvId)
    (word : Option Int64) :
    ∃ t, (t = s ∨ ∃ w, t = s.modifyEnv caller fun env =>
        { env with frame := env.frame.setResult w }) ∧
      (settle s config caller id word = t ∨
        settle s config caller id word = (t.endEnv caller (some id) config.traceEnvs).2) := by
  unfold settle
  cases word with
  | none =>
      refine ⟨s, Or.inl rfl, ?_⟩
      simp only
      split
      · exact Or.inr rfl
      · exact Or.inl rfl
  | some w =>
      refine ⟨_, Or.inr ⟨w, rfl⟩, ?_⟩
      simp only
      split
      · exact Or.inr rfl
      · exact Or.inl rfl

theorem settle_of_ne_dying {s : Realm} {caller : Nat} {env : Env}
    (henv : s.registry.env? caller = some env) (hstatus : env.status ≠ .dying) (config : Config)
    (id : EnvId) (w : Int64) :
    settle s config caller id (some w) =
      s.modifyEnv caller fun env => { env with frame := env.frame.setResult w } := by
  refine if_neg ?_
  rw [Realm.env?_modifyEnv, if_pos rfl, henv, Option.map_some, Option.any_some, beq_iff_eq]
  exact hstatus

theorem settle_of_dying {s : Realm} {caller : Nat} {env : Env}
    (henv : s.registry.env? caller = some env) (hstatus : env.status = .dying) (config : Config)
    (id : EnvId) :
    settle s config caller id none = (s.endEnv caller (some id) config.traceEnvs).2 := by
  refine if_pos ?_
  rw [henv, Option.any_some, hstatus]
  rfl

/-- The realm after a call, step by step. -/
theorem serve_cases (k : Kernel) (caller : Nat) (env : Env) :
    ∃ answered noted worded settled : Realm,
      (answered = k.realm ∨ ∃ call, Syscall.ofNumber? env.frame.callNumber.toNat = some call ∧
        Service.Effect ⟨caller, k.config⟩ env.frame.callArgs k.realm call answered) ∧
      answered.SameButLog noted ∧
      (worded = noted ∨ ∃ w, worded = noted.modifyEnv caller fun env =>
        { env with frame := env.frame.setResult w }) ∧
      (settled = worded ∨ settled = (worded.endEnv caller (some env.id) k.config.traceEnvs).2) ∧
      ∃ current, (k.serve caller env).2 = { k with realm := withCurrent settled current } := by
  have heffect := Service.effect_answer ⟨caller, k.config⟩ env.frame.callArgs k.realm
    env.frame.callNumber
  simp only [serve]
  generalize ServiceTable.standard.answer env.frame.callNumber ⟨caller, k.config⟩
    env.frame.callArgs k.realm = outcome at heffect
  have hnoted := sameButLog_noteCall outcome.realm k.config env.id env.frame.callNumber
    env.frame.callArgs outcome.result
  generalize noteCall outcome.realm k.config env.id env.frame.callNumber env.frame.callArgs
    outcome.result = noted at hnoted
  obtain ⟨worded, hworded, hsettled⟩ := settle_cases noted k.config caller env.id
    (resultWord? outcome.result)
  refine ⟨outcome.realm, noted, worded, _, heffect, hnoted, hworded, hsettled, ?_⟩
  split
  · exact ⟨_, rfl⟩
  · exact ⟨_, rfl⟩

/-- What the call in the registers of an environment comes to. -/
abbrev outcome (k : Kernel) (caller : Nat) (env : Env) : Outcome :=
  ServiceTable.standard.answer env.frame.callNumber ⟨caller, k.config⟩ env.frame.callArgs k.realm

/-- The realm after a call, before another environment is made the current one. -/
abbrev settled (k : Kernel) (caller : Nat) (env : Env) : Realm :=
  settle (noteCall (k.outcome caller env).realm k.config env.id env.frame.callNumber
    env.frame.callArgs (k.outcome caller env).result) k.config caller env.id
    (resultWord? (k.outcome caller env).result)

theorem settled_eq (k : Kernel) (caller : Nat) (env : Env) :
    ∃ noted, (k.outcome caller env).realm.SameButLog noted ∧
      k.settled caller env =
        settle noted k.config caller env.id (resultWord? (k.outcome caller env).result) :=
  ⟨_, sameButLog_noteCall _ _ _ _ _ _, rfl⟩

/-- A caller that gives up the processor or may not run on makes room for another environment. -/
theorem snd_serve (k : Kernel) (caller : Nat) (env : Env) :
    (k.serve caller env).2 =
      if (k.outcome caller env).yields || !(k.settled caller env).registry.isRunnable caller then
        { k with realm := k.settled caller env }.scheduleFrom (some caller)
      else { k with realm := k.settled caller env } := rfl

theorem slots_serve (k : Kernel) (caller : Nat) (env : Env) :
    (k.serve caller env).2.registry.slots = (k.settled caller env).registry.slots := by
  rw [snd_serve]
  split <;> rfl

/-! ## Events -/

theorem trap_eq {k : Kernel} {caller : Nat} {env : Env}
    (hcurrent : k.registry.current = some caller) (henv : k.registry.env? caller = some env) :
    k.trap = k.serve caller env := by
  simp only [trap, hcurrent, henv]

theorem trap_of_idle {k : Kernel} (hcurrent : k.registry.current = none) : k.trap = (none, k) := by
  simp only [trap, hcurrent]

theorem trap_of_vacant {k : Kernel} {caller : Nat} (hcurrent : k.registry.current = some caller)
    (henv : k.registry.env? caller = none) : k.trap = (none, k) := by
  simp only [trap, hcurrent, henv]

def loaded (k : Kernel) (caller : Nat) (number : Word) (args : Args) : Kernel :=
  { k with realm := k.realm.modifyEnv caller fun env =>
    { env with frame := env.frame.loadCall number args } }

theorem env?_loaded (k : Kernel) (caller i : Nat) (number : Word) (args : Args) :
    (k.loaded caller number args).registry.env? i =
      if caller = i then (k.registry.env? i).map fun env =>
        { env with frame := env.frame.loadCall number args }
      else k.registry.env? i :=
  Registry.env?_modify _ _ _ _

theorem syscall_of_idle {k : Kernel} (hcurrent : k.registry.current = none) (number : Word)
    (args : Args) : k.syscall number args = (none, k) := by
  simp only [syscall, hcurrent]

theorem syscall_eq_trap {k : Kernel} {caller : Nat} (hcurrent : k.registry.current = some caller)
    (number : Word) (args : Args) : k.syscall number args = (k.loaded caller number args).trap := by
  simp only [syscall, hcurrent]
  rfl

theorem syscall_of_vacant {k : Kernel} {caller : Nat} (number : Word) (args : Args)
    (hcurrent : k.registry.current = some caller) (henv : k.registry.env? caller = none) :
    k.syscall number args = (none, k) := by
  have hload : k.loaded caller number args = k :=
    congrArg (fun realm => { k with realm }) (Realm.modifyEnv_of_vacant henv _)
  rw [syscall_eq_trap hcurrent, hload]
  exact trap_of_vacant hcurrent henv

/-- A call is served with its number and its arguments in the registers of the caller. -/
theorem step_of_calls {k : Kernel} {caller : Nat} {number : Word} {args : Args} {event : Event}
    {env : Env} (henv : k.registry.env? caller = some env)
    (h : k.Calls caller number args event) :
    ∃ frame, frame.callNumber = number ∧ frame.callArgs = args ∧
      ∃ realm, (realm = k.realm ∧ frame = env.frame ∨
          realm = k.realm.modifyEnv caller fun env =>
            { env with frame := env.frame.loadCall number args }) ∧
        k.step event = ({ k with realm }.serve caller { env with frame }).2 ∧
        k.answer event = ({ k with realm }.serve caller { env with frame }).1 := by
  cases event with
  | syscall n a =>
      obtain ⟨hcurrent, rfl, rfl⟩ := h
      refine ⟨env.frame.loadCall n a, rfl, rfl, _, Or.inr rfl, ?_⟩
      have hloaded := k.env?_loaded caller caller n a
      rw [if_pos rfl, henv] at hloaded
      have hserve := (syscall_eq_trap hcurrent n a).trans (trap_eq hcurrent hloaded)
      exact ⟨congrArg Prod.snd hserve, congrArg Prod.fst hserve⟩
  | trap =>
      obtain ⟨hcurrent, env', henv', rfl, rfl⟩ := h
      rw [henv] at henv'
      cases henv'
      refine ⟨env.frame, rfl, rfl, k.realm, Or.inl ⟨rfl, rfl⟩, ?_⟩
      have htrap := trap_eq hcurrent henv
      exact ⟨congrArg Prod.snd htrap, congrArg Prod.fst htrap⟩
  | _ => cases h

/-- The realms differ in the registers of one environment at most. -/
structure Reframed (index : Nat) (s t : Realm) : Prop where
  names : s.registry.SameNames t.registry
  memory_eq : t.memory = s.memory
  env_eq : ∀ {i env}, s.registry.env? i = some env →
    ∃ frame, t.registry.env? i = some { env with frame } ∧ (i ≠ index → frame = env.frame)

theorem Reframed.refl (index : Nat) (s : Realm) : Reframed index s s :=
  ⟨.refl _, rfl, fun henv => ⟨_, henv, fun _ => rfl⟩⟩

theorem reframed_modifyEnv (index : Nat) (s : Realm) (f : Env → TrapFrame) :
    Reframed index s (s.modifyEnv index fun env => { env with frame := f env }) := by
  refine ⟨s.registry.sameNames_modify index fun _ => rfl, rfl, ?_⟩
  intro i env henv
  rw [Realm.env?_modifyEnv, henv]
  by_cases hi : index = i
  · exact ⟨_, if_pos hi, fun hne => absurd hi.symm hne⟩
  · exact ⟨env.frame, if_neg hi, fun _ => rfl⟩

theorem onSpace_cases {α : Type} (k : Kernel) (id : EnvId) (x : SpaceM α) :
    (k.onSpace id x).2 = k ∨ ∃ index env, k.registry.lookup id = some index ∧
      k.registry.env? index = some env ∧
      (k.onSpace id x).2 = { k with realm := stateOf (Realm.onSpace index env x k.realm) } := by
  rw [onSpace]
  cases hlookup : k.registry.lookup id with
  | none => exact Or.inl rfl
  | some index =>
      simp only
      cases henv : k.registry.env? index with
      | none => exact Or.inl rfl
      | some env =>
          right
          refine ⟨index, env, rfl, henv, ?_⟩
          simp only
          cases Realm.onSpace index env x k.realm <;> rfl

theorem tryResolve_cases (s : Realm) (index : Nat) (env : Env) (va : Word) (write : Bool) :
    (tryResolve s index env va write).2 = s ∨ ∃ address, VirtAddr.ofWord? va = some address ∧
      (tryResolve s index env va write).2 =
        stateOf (Realm.onSpace index env (Space.resolveFault address.page write) s) := by
  rw [tryResolve]
  cases haddress : VirtAddr.ofWord? va with
  | none => exact Or.inl rfl
  | some address =>
      right
      refine ⟨address, rfl, ?_⟩
      simp only
      cases Realm.onSpace index env (Space.resolveFault address.page write) s <;> rfl

/-- A page fault is resolved as far as it can be; then control goes to the entry point of the
environment, or the environment ends, if it was not. -/
theorem pageFault_cases (k : Kernel) (va : Word) (write : Bool) :
    (k.pageFault va write).2 = k ∨ ∃ index env, k.registry.current = some index ∧
      k.registry.env? index = some env ∧ ∃ after current,
        (after = (tryResolve k.realm index env va write).2 ∨
          (∃ entry : VirtAddr, after =
            (tryResolve k.realm index env va write).2.modifyEnv index fun env =>
              { env with frame := env.frame.redirect (UInt64.ofNat entry.raw) va }) ∨
          ∃ noted, (tryResolve k.realm index env va write).2.SameButLog noted ∧
            after = (noted.endEnv index (some env.id) k.config.traceEnvs).2) ∧
        (k.pageFault va write).2 = { k with realm := withCurrent after current } := by
  rw [pageFault]
  cases hcurrent : k.registry.current with
  | none => exact Or.inl rfl
  | some index =>
  simp only
  cases henv : k.registry.env? index with
  | none => exact Or.inl rfl
  | some env =>
  right
  refine ⟨index, env, rfl, henv, ?_⟩
  simp only
  obtain ⟨resolved, realm⟩ := tryResolve k.realm index env va write
  cases resolved with
  | true => exact ⟨realm, realm.registry.current, Or.inl rfl, rfl⟩
  | false =>
      simp only
      cases env.upcall with
      | some entry => exact ⟨_, _, Or.inr (Or.inl ⟨entry, rfl⟩), rfl⟩
      | none => exact ⟨_, _, Or.inr (Or.inr ⟨_, Realm.sameButLog_note _ _ _ _, rfl⟩), rfl⟩

theorem createEnv_eq_ok {k k' : Kernel} {kind : EnvKind} {parent : Option EnvId} {id : EnvId}
    (h : k.createEnv kind parent = .ok (id, k')) :
    ∃ index registry, k.registry.allocate parent kind .runnable = .ok (index, registry) ∧
      ({ k.realm with registry } : Realm).SameButLog k'.realm := by
  rw [createEnv] at h
  cases hallocate : k.registry.allocate parent kind .runnable with
  | error e =>
      rw [hallocate] at h
      cases h
  | ok result =>
      obtain ⟨index, registry⟩ := result
      rw [hallocate] at h
      cases h
      refine ⟨index, registry, rfl, ?_⟩
      simp only
      split
      · exact Realm.sameButLog_note _ _ _ _
      · exact .refl _

theorem run_eq_ok {k k' : Kernel} {id : EnvId} (h : k.run id = .ok k') :
    ∃ current, k'.realm = withCurrent k.realm current := by
  rw [run] at h
  split at h
  · cases h
  · split at h
    · cases h
      exact ⟨_, rfl⟩
    · cases h

/-- What an event comes to: at most the turn of another environment, a new environment, a call that
is served, a page fault, or a request on one address space. -/
inductive Happens (k : Kernel) : Event → Prop where
  | turn {event} (current) (hstep : (k.step event).realm = withCurrent k.realm current) :
      Happens k event
  | birth {kind parent index registry}
      (hallocate : k.registry.allocate parent kind .runnable = .ok (index, registry))
      (hlog : ({ k.realm with registry } : Realm).SameButLog
        (k.step (.createEnv kind parent)).realm) : Happens k (.createEnv kind parent)
  | call {event caller number args env} (hcalls : k.Calls caller number args event)
      (henv : k.registry.env? caller = some env) : Happens k event
  | fault {va write index env after current} (henv : k.registry.env? index = some env)
      (hafter : after = (tryResolve k.realm index env va write).2 ∨
        (∃ entry : VirtAddr, after = (tryResolve k.realm index env va write).2.modifyEnv index
          fun env => { env with frame := env.frame.redirect (UInt64.ofNat entry.raw) va }) ∨
        ∃ noted, (tryResolve k.realm index env va write).2.SameButLog noted ∧
          after = (noted.endEnv index (some env.id) k.config.traceEnvs).2)
      (hstep : (k.step (.pageFault va write)).realm = withCurrent after current) :
      Happens k (.pageFault va write)
  | read {id va length index env} (henv : k.registry.env? index = some env)
      (hstep : (k.step (.readUser id va length)).realm =
        stateOf (Realm.onSpace index env (Space.readBytes va.toNat length) k.realm)) :
      Happens k (.readUser id va length)
  | write {id va bytes index env} (henv : k.registry.env? index = some env)
      (hstep : (k.step (.writeUser id va bytes)).realm =
        stateOf (Realm.onSpace index env (Space.writeBytes va.toNat bytes) k.realm)) :
      Happens k (.writeUser id va bytes)

theorem Happens.nothing {k : Kernel} {event : Event} (h : k.step event = k) : k.Happens event :=
  .turn k.registry.current (by rw [h]; rfl)

theorem happens (k : Kernel) (event : Event) : k.Happens event := by
  cases event with
  | createEnv kind parent =>
      cases hcreate : k.createEnv kind parent with
      | error e => exact .nothing (by simp only [step, hcreate])
      | ok result =>
          obtain ⟨id, k'⟩ := result
          obtain ⟨index, registry, hallocate, hlog⟩ := createEnv_eq_ok hcreate
          refine .birth hallocate ?_
          simp only [step, hcreate]
          exact hlog
  | run id =>
      cases hrun : k.run id with
      | error e => exact .nothing (by simp only [step, hrun])
      | ok k' =>
          obtain ⟨current, heq⟩ := run_eq_ok hrun
          exact .turn current (by simp only [step, hrun]; exact heq)
  | schedule => exact .turn _ rfl
  | syscall number args =>
      cases hcurrent : k.registry.current with
      | none => exact .nothing (congrArg Prod.snd (syscall_of_idle hcurrent number args))
      | some caller =>
          cases henv : k.registry.env? caller with
          | none => exact .nothing (congrArg Prod.snd (syscall_of_vacant number args hcurrent henv))
          | some env => exact .call ⟨hcurrent, rfl, rfl⟩ henv
  | trap =>
      cases hcurrent : k.registry.current with
      | none => exact .nothing (congrArg Prod.snd (trap_of_idle hcurrent))
      | some caller =>
          cases henv : k.registry.env? caller with
          | none => exact .nothing (congrArg Prod.snd (trap_of_vacant hcurrent henv))
          | some env => exact .call ⟨hcurrent, env, henv, rfl, rfl⟩ henv
  | pageFault va write =>
      rcases k.pageFault_cases va write with hsame | ⟨index, env, -, henv, after, current, hafter, heq⟩
      · exact .nothing hsame
      · exact .fault henv hafter (congrArg Kernel.realm heq)
  | readUser id va length =>
      rcases k.onSpace_cases id (Space.readBytes va.toNat length) with
        hsame | ⟨index, env, -, henv, heq⟩
      · exact .nothing hsame
      · exact .read henv (congrArg Kernel.realm heq)
  | writeUser id va bytes =>
      rcases k.onSpace_cases id (Space.writeBytes va.toNat bytes) with
        hsame | ⟨index, env, -, henv, heq⟩
      · exact .nothing hsame
      · exact .write henv (congrArg Kernel.realm heq)

/-! ## What events keep -/

/-- A property of the realm that everything keeps that events are made of, but for the work of
calls. -/
structure Kept (I : Realm → Prop) : Prop where
  log : ∀ {s t : Realm}, s.SameButLog t → I s → I t
  turn : ∀ {s : Realm} (current), I s → I (withCurrent s current)
  frame : ∀ {s : Realm} (index) (f : Env → TrapFrame), I s →
    I (s.modifyEnv index fun env => { env with frame := f env })
  ended : ∀ {s : Realm} (index actor trace), I s → I (s.endEnv index actor trace).2
  born : ∀ {s : Realm} {parent kind index registry},
    s.registry.allocate parent kind .runnable = .ok (index, registry) → I s → I { s with registry }
  fault : ∀ {s : Realm} {index env} (p write), s.registry.env? index = some env → I s →
    I (stateOf (Realm.onSpace index env (Space.resolveFault p write) s))
  read : ∀ {s : Realm} {index env} (start length), s.registry.env? index = some env → I s →
    I (stateOf (Realm.onSpace index env (Space.readBytes start length) s))
  write : ∀ {s : Realm} {index env} (start bytes), s.registry.env? index = some env → I s →
    I (stateOf (Realm.onSpace index env (Space.writeBytes start bytes) s))

namespace Kept

variable {I : Realm → Prop} {k : Kernel}

theorem serve (hI : Kept I) {caller : Nat} {env : Env} (h : I k.realm)
    (hwork : ∀ call t, Syscall.ofNumber? env.frame.callNumber.toNat = some call →
      Service.Effect ⟨caller, k.config⟩ env.frame.callArgs k.realm call t → I t) :
    I (k.serve caller env).2.realm := by
  obtain ⟨answered, noted, worded, settled, hanswered, hnoted, hworded, hsettled, current, heq⟩ :=
    k.serve_cases caller env
  have hanswer : I answered := by
    rcases hanswered with rfl | ⟨call, hcall, heffect⟩
    · exact h
    · exact hwork call answered hcall heffect
  have hword : I worded := by
    have hnote := hI.log hnoted hanswer
    rcases hworded with rfl | ⟨w, rfl⟩
    · exact hnote
    · exact hI.frame caller _ hnote
  have hsettle : I settled := by
    rcases hsettled with rfl | rfl
    · exact hword
    · exact hI.ended _ _ _ hword
  rw [heq]
  exact hI.turn current hsettle

theorem tryResolve (hI : Kept I) {s : Realm} (h : I s) {index : Nat} {env : Env}
    (henv : s.registry.env? index = some env) (va : Word) (write : Bool) :
    I (tryResolve s index env va write).2 := by
  rcases tryResolve_cases s index env va write with hsame | ⟨address, -, hresolve⟩
  · rw [hsame]
    exact h
  · rw [hresolve]
    exact hI.fault _ _ henv h

/-- If the work of the call that an event may be keeps the property, the event keeps it.  The call
is in the registers of its caller by then. -/
theorem step (hI : Kept I) {event : Event} (h : I k.realm)
    (hwork : ∀ caller number args s call t, k.Calls caller number args event →
      Syscall.ofNumber? number.toNat = some call → k.registry.SameNames s.registry → I s →
      Service.Effect ⟨caller, k.config⟩ args s call t → I t) : I (k.step event).realm := by
  cases k.happens event with
  | turn current hstep =>
      rw [hstep]
      exact hI.turn current h
  | birth hallocate hlog => exact hI.log hlog (hI.born hallocate h)
  | @call _ caller number args sender hcalls hsender =>
      obtain ⟨frame, hnumber, hargs, realm, hrealm, hstep, -⟩ := step_of_calls hsender hcalls
      obtain ⟨hreframed, hloaded⟩ : Reframed caller k.realm realm ∧ I realm := by
        rcases hrealm with ⟨rfl, -⟩ | rfl
        · exact ⟨.refl _ _, h⟩
        · exact ⟨reframed_modifyEnv _ _ _, hI.frame caller _ h⟩
      rw [hstep]
      apply hI.serve hloaded
      intro call t hcall heffect
      rw [hnumber] at hcall
      rw [hargs] at heffect
      exact hwork caller number args realm call t hcalls hcall hreframed.names hloaded heffect
  | @fault va write index env after current henv hafter hstep =>
      have hresolved := hI.tryResolve h henv va write
      rw [hstep]
      apply hI.turn
      rcases hafter with rfl | ⟨entry, rfl⟩ | ⟨noted, hlog, rfl⟩
      · exact hresolved
      · exact hI.frame index _ hresolved
      · exact hI.ended _ _ _ (hI.log hlog hresolved)
  | read henv hstep =>
      rw [hstep]
      exact hI.read _ _ henv h
  | write henv hstep =>
      rw [hstep]
      exact hI.write _ _ henv h

end Kept

end Exokernel.Kernel
