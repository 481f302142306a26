import Exokernel.Proofs.Env.Turns
import Exokernel.Proofs.Kernel.Answers

/-! # The turn after a call

A call leaves its caller the current environment as long as the caller may run on and has not given
up the processor.  Otherwise the next one in cyclic order has its turn, and there is no current
environment only if none may run. -/

namespace Exokernel

namespace Realm

variable {s t : Realm}

theorem current_endEnv_of_ne {caller index : Nat} (hcurrent : s.registry.current = some caller)
    (hne : index ≠ caller) (actor : Option EnvId) (trace : Bool) :
    (s.endEnv index actor trace).2.registry.current = some caller := by
  rcases s.endEnv_cases index actor trace with ⟨-, hsame⟩ | ⟨env, registry, htake, hlog⟩
  · rw [hsame]
    exact hcurrent
  · obtain ⟨-, -, -, -, hkept⟩ := Registry.take?_eq_some htake
    have hother : ¬ s.registry.current = some index := by
      rw [hcurrent]
      exact fun heq => hne (Option.some.inj heq).symm
    rw [hlog.registry_eq, hkept, if_neg hother]
    exact hcurrent

theorem current_trySend (sender : Nat) (request : SendRequest) (s : Realm) :
    (stateOf (trySend sender request s)).registry.current = s.registry.current := by
  have houtcome := sendOutcome_trySend sender request s
  generalize trySend sender request s = result at houtcome
  cases houtcome with
  | refused => rfl
  | alone _ _ _ _ hlog =>
      rw [stateOf_ok, hlog.registry_eq]
      rfl
  | @stuck receiver source target _ _ src dst rights _ _ _ _ _ _ _ _ _ _ hshare =>
      have houtlines := sameOutlines_shareRegion (i := sender) (j := receiver) source target
        (.one src.page) (.one dst) rights s
      rw [hshare] at houtlines
      exact houtlines.current_eq
  | @withPage receiver source target _ _ src dst rights _ _ _ _ _ _ _ _ _ _ hshare hlog =>
      have houtlines := sameOutlines_shareRegion (i := sender) (j := receiver) source target
        (.one src.page) (.one dst) rights s
      rw [hshare] at houtlines
      exact (congrArg Registry.current hlog.registry_eq).trans houtlines.current_eq

theorem current_receive (index : Nat) (request : RecvRequest) (s : Realm) :
    (stateOf (receive index request s)).registry.current = s.registry.current := by
  rw [receive]
  cases s.registry.env? index <;> rfl

end Realm

namespace Service

variable {caller : Caller} {args : Args} {s t : Realm} {call : Syscall} {α : Type}

theorem Effect.current_eq (heffect : Effect caller args s call t)
    (hcurrent : s.registry.current = some caller.slot) :
    t.registry.current = some caller.slot := by
  cases heffect with
  | same => exact hcurrent
  | print => exact (sameOutlines_writeChunks _ _ _ _).current_eq.trans hcurrent
  | convict hlog => exact (congrArg Registry.current hlog.registry_eq).trans hcurrent
  | readChar => exact hcurrent
  | exit _ hlog => exact (congrArg Registry.current hlog.registry_eq).trans hcurrent
  | destroy _ hother hlog actor trace =>
      refine Realm.current_endEnv_of_ne ?_ hother actor trace
      exact (congrArg Registry.current hlog.registry_eq).trans hcurrent
  | alloc | device | unmap => exact (Realm.sameOutlines_onSpace _ _ _ _).current_eq.trans hcurrent
  | share => exact (Realm.sameOutlines_shareRegion _ _ _ _ _ _).current_eq.trans hcurrent
  | fork _ hchild hlog =>
      obtain ⟨-, -, hkept, -⟩ := Registry.allocate_eq_ok hchild
      exact (congrArg Registry.current hlog.registry_eq).trans (hkept.trans hcurrent)
  | setStatus | setUpcall => exact hcurrent
  | send => exact (Realm.current_trySend _ _ _).trans hcurrent
  | receive => exact (Realm.current_receive _ _ _).trans hcurrent

theorem current_answer (hcurrent : s.registry.current = some caller.slot) (number : Word) :
    (ServiceTable.standard.answer number caller args s).realm.registry.current =
      some caller.slot := by
  rcases effect_answer caller args s number with hsame | ⟨call, -, heffect⟩
  · rw [hsame]
    exact hcurrent
  · exact heffect.current_eq hcurrent

/-! ## Who gives up the processor -/

/-- A call that keeps the processor when it is answered. -/
def Busy (x : SysM Reply) (s : Realm) : Prop := ∀ reply t, x s = .ok reply t → reply.yields = false

namespace Busy

theorem of_ok {x : SysM Reply} {reply : Reply} (h : x s = .ok reply t)
    (hyields : reply.yields = false) : Busy x s := by
  intro _ _ hok
  rw [h] at hok
  cases hok
  exact hyields

theorem throw (e : SysError) : Busy (MonadExcept.throw e) s := nofun

theorem bind {x : SysM α} {f : α → SysM Reply} (hf : ∀ a t, Busy (f a) t) : Busy (x >>= f) s := by
  intro reply t h
  obtain ⟨a, u, -, hanswer⟩ := bind_eq_ok_iff.mp h
  exact hf a u reply t hanswer

end Busy

theorem busy_cputs : Busy (cputs caller args) s := by
  refine .bind fun env _ => ?_
  split
  · exact .bind fun _ _ => .of_ok rfl rfl
  · exact .bind fun _ _ => .throw _

theorem busy_cgetc : Busy (cgetc caller args) s := by
  refine .bind fun u _ => ?_
  rcases u.console.read with ⟨_ | b, console⟩
  · exact .of_ok rfl rfl
  · exact .of_ok rfl rfl

theorem busy_envDestroy : Busy (envDestroy caller args) s := by
  refine .bind fun index _ => .bind fun u _ => ?_
  split
  · exact .bind fun _ _ => .throw _
  · exact .of_ok rfl rfl

theorem busy_mapPhysicalRegion : Busy (mapPhysicalRegion caller args) s := by
  refine .bind fun index _ => .bind fun env _ => ?_
  by_cases hkind : env.kind = .driver
  · rw [if_neg (not_not_intro hkind)]
    cases PhysAddr.aligned? args.arg0.toNat with
    | none => exact .throw _
    | some pa => exact .bind fun _ _ => .bind fun _ _ => .bind fun _ _ => .of_ok rfl rfl
  · rw [if_pos hkind]
    exact .throw _

theorem busy_exofork : Busy (exofork caller args) s := by
  refine .bind fun env _ => .bind fun u _ => ?_
  cases u.registry.allocate (some env.id) .user .notRunnable with
  | error e => exact .throw _
  | ok result => exact .of_ok rfl rfl

theorem busy_envSetPgfaultUpcall : Busy (envSetPgfaultUpcall caller args) s := by
  refine .bind fun index _ => ?_
  split
  · exact .of_ok rfl rfl
  · split
    · exact .throw _
    · exact .of_ok rfl rfl

/-- Whoever suspends itself gives up the processor, and no other change of a status does. -/
theorem pauses_envSetStatus {reply : Reply} (h : envSetStatus caller args s = .ok reply t)
    (hyields : reply.yields = true) : t.registry.isRunnable caller.slot = false := by
  cases hindex : s.registry.resolve (.ofWord args.arg0) caller.slot true with
  | error e =>
      rw [show envSetStatus caller args s = _ from bind_of_error (controlled_of_error hindex) _] at h
      cases h
  | ok index =>
  rw [show envSetStatus caller args s = _ from bind_of_ok (controlled_of_ok hindex) _] at h
  cases hstatus : settableStatus? args.arg1 with
  | none =>
      rw [hstatus] at h
      cases h
  | some status =>
      rw [hstatus] at h
      cases h
      have hpause : index = caller.slot ∧ status ≠ .runnable := by
        by_contra hdone
        rw [if_neg (by simpa using hdone)] at hyields
        cases hyields
      rw [hpause.1, Registry.isRunnable, Realm.env?_modifyEnv, if_pos rfl, Option.any_map]
      cases s.registry.env? caller.slot with
      | none => rfl
      | some env => simpa [withStatus, Env.isRunnable] using hpause.2

theorem pauses_ipcRecv {reply : Reply} (h : ipcRecv caller args s = .ok reply t) :
    t.registry.isRunnable caller.slot = false := by
  rw [ipcRecv] at h
  cases hrequest : RecvRequest.decode args.arg0 args.arg1 with
  | error e =>
      rw [hrequest] at h
      cases h
  | ok request =>
      rw [hrequest] at h
      obtain ⟨_, u, hreceive, hpause⟩ := bind_eq_ok_iff.mp h
      cases hpause
      cases henv : s.registry.env? caller.slot with
      | none =>
          have hrefused : Realm.receive caller.slot request s = .error (.env .badEnvironment) s := by
            rw [Realm.receive, henv]
          rw [liftIpc_of_error hrefused] at hreceive
          cases hreceive
      | some env =>
          obtain ⟨noted, hwaits, hlog⟩ : ∃ t, Realm.receive caller.slot request s = .ok () t ∧
              (s.modifyEnv caller.slot (Realm.waitFor request)).SameButLog t := by
            rw [Realm.receive, henv]
            exact ⟨_, rfl, Realm.sameButLog_note _ _ _ _⟩
          rw [liftIpc_of_ok hwaits] at hreceive
          cases hreceive
          rw [Registry.isRunnable, hlog.registry_eq, Realm.env?_modifyEnv, if_pos rfl, henv]
          rfl

/-- A call that gives up the processor is a yield, or its caller may not run on. -/
theorem pauses_of_standard {service : Service} {reply : Reply}
    (hservice : ServiceTable.standard call = some service)
    (h : service caller args s = .ok reply t) (hyields : reply.yields = true) :
    call = .yield ∨ t.registry.isRunnable caller.slot = false := by
  have hbusy : ¬ Busy (service caller args) s := fun hbusy => by
    rw [hbusy reply t h] at hyields
    cases hyields
  cases call <;> cases hservice
  case cputs => exact absurd busy_cputs hbusy
  case cgetc => exact absurd busy_cgetc hbusy
  case getEnvId => exact absurd (.bind fun _ _ => .of_ok rfl rfl) hbusy
  case envDestroy => exact absurd busy_envDestroy hbusy
  case allocRegion =>
    exact absurd (.bind fun _ _ => .bind fun _ _ => .bind fun _ _ => .bind fun _ _ => .of_ok rfl rfl)
      hbusy
  case mapRegion =>
    refine absurd (.bind fun _ _ => .bind fun _ _ => .bind fun _ _ => .bind fun _ _ => ?_) hbusy
    exact .bind fun _ _ => .bind fun _ _ => .bind fun _ _ => .bind fun _ _ => .of_ok rfl rfl
  case mapPhysicalRegion => exact absurd busy_mapPhysicalRegion hbusy
  case unmapRegion =>
    exact absurd (.bind fun _ _ => .bind fun _ _ => .bind fun _ _ => .of_ok rfl rfl) hbusy
  case regionRefs => exact absurd (.bind fun _ _ => .bind fun _ _ => .of_ok rfl rfl) hbusy
  case exofork => exact absurd busy_exofork hbusy
  case envSetStatus => exact Or.inr (pauses_envSetStatus h hyields)
  case envSetPgfaultUpcall => exact absurd busy_envSetPgfaultUpcall hbusy
  case yield => exact Or.inl rfl
  case ipcTrySend => exact absurd (.bind fun _ _ => .of_ok rfl rfl) hbusy
  case ipcRecv => exact Or.inr (pauses_ipcRecv h)

theorem yields_answer_iff {number : Word}
    (hruns : (ServiceTable.standard.answer number caller args s).realm.registry.isRunnable
      caller.slot = true) :
    (ServiceTable.standard.answer number caller args s).yields = true ↔
      Syscall.ofNumber? number.toNat = some .yield := by
  rw [ServiceTable.answer, ServiceTable.dispatch] at hruns ⊢
  cases hcall : Syscall.ofNumber? number.toNat with
  | none => exact iff_of_false Bool.false_ne_true (Option.some_ne_none _).symm
  | some call =>
  rw [hcall, Option.bind_some] at hruns
  rw [Option.bind_some]
  cases hservice : ServiceTable.standard call with
  | none => cases call <;> cases hservice
  | some service =>
  rw [hservice] at hruns
  simp only at hruns ⊢
  constructor
  · intro hyields
    cases hresult : service caller args s with
    | error e t =>
        rw [hresult] at hyields
        cases hyields
    | ok reply t =>
        rw [hresult] at hruns hyields
        rcases pauses_of_standard hservice hresult hyields with rfl | hstuck
        · rfl
        · rw [show t.registry.isRunnable caller.slot = true from hruns] at hstuck
          cases hstuck
  · intro hyield
    cases hyield
    cases hservice
    rfl

end Service

namespace Kernel

variable {k : Kernel} {event : Event} {caller : Nat} {number : Word} {args : Args} {sender : Env}

def givesUp (k : Kernel) (caller : Nat) (number : Word) (args : Args) : Bool :=
  (ServiceTable.standard.answer number ⟨caller, k.config⟩ args
    (k.loaded caller number args).realm).yields

/-- Who has the turn after a call of the environment in a slot. -/
structure TurnAfter (k : Kernel) (event : Event) (caller : Nat) (number : Word) (args : Args)
    (sender : Env) : Prop where
  stays : (k.step event).registry.isRunnable caller = true → k.givesUp caller number args = false →
    (k.step event).registry.current = some caller ∧ (k.step event).current? = some sender.id
  passes : (k.step event).registry.isRunnable caller = false ∨ k.givesUp caller number args = true →
    (k.step event).registry.NextRuns caller
  /-- Of those that may run on, whoever yields gives up the processor, and nobody else. -/
  givesUp_iff : (k.step event).registry.isRunnable caller = true →
    (k.givesUp caller number args = true ↔ Syscall.ofNumber? number.toNat = some .yield)
  idle_iff : (k.step event).registry.current = none ↔
    ∀ i, (k.step event).registry.isRunnable i = false

/-! ## The state after the call -/

theorem step_eq_serve (hcalls : k.Calls caller number args event)
    (hsender : k.registry.env? caller = some sender) :
    k.step event = ((k.loaded caller number args).serve caller (calling sender number args)).2 := by
  have htrap := trap_eq (current_loaded hcalls) (env?_loaded_self hsender number args)
  rw [trap_loaded hcalls] at htrap
  exact congrArg Prod.snd htrap

theorem nextRuns_scheduleFrom (h : k.scheduler = .roundRobin) (realm : Realm) :
    ({ k with realm }.scheduleFrom (some caller)).registry.NextRuns caller := by
  change (realm.registry.setCurrent (k.scheduler realm.registry (some caller))).NextRuns caller
  rw [h]
  exact realm.registry.nextRuns_of_roundRobin caller

theorem isRunnable_serve (k : Kernel) (caller : Nat) (env : Env) (i : Nat) :
    (k.serve caller env).2.registry.isRunnable i = (k.settled caller env).registry.isRunnable i := by
  rw [Registry.isRunnable, Registry.env?, slots_serve]
  rfl

theorem isRunnable_endEnv_self (s : Realm) (index : Nat) (actor : Option EnvId) (trace : Bool) :
    (s.endEnv index actor trace).2.registry.isRunnable index = false := by
  have hslot := s.slot?_endEnv index actor trace index
  rw [if_pos rfl] at hslot
  rw [Registry.isRunnable, Registry.env?, show (s.endEnv index actor trace).2.registry.slots[index]? = _
    from hslot]
  cases s.registry.slot? index <;> rfl

/-- A caller that may run on after its call could do so before the call was settled, and its turn
has not been taken from it. -/
theorem settled_of_isRunnable {env : Env} (hcurrent : k.registry.current = some caller)
    (hruns : (k.settled caller env).registry.isRunnable caller = true) :
    (k.outcome caller env).realm.registry.isRunnable caller = true ∧
      (k.settled caller env).registry.current = some caller := by
  have hkept : (k.outcome caller env).realm.registry.current = some caller :=
    Service.current_answer hcurrent env.frame.callNumber
  obtain ⟨noted, hlog, hsettled⟩ := k.settled_eq caller env
  rw [hsettled] at hruns ⊢
  rw [← hlog.registry_eq] at hkept ⊢
  obtain ⟨t, hworded, hsettle⟩ := settle_cases noted k.config caller env.id
    (resultWord? (k.outcome caller env).result)
  rcases hsettle with heq | heq
  · rw [heq] at hruns ⊢
    rcases hworded with rfl | ⟨w, rfl⟩
    · exact ⟨hruns, hkept⟩
    · refine ⟨?_, hkept⟩
      rwa [Registry.isRunnable, Realm.env?_modifyEnv, if_pos rfl, Option.any_map] at hruns
  · rw [heq, isRunnable_endEnv_self] at hruns
    cases hruns

/-! ## Every run -/

theorem givesUp_iff_of_isRunnable (hcalls : k.Calls caller number args event)
    (hsender : k.registry.env? caller = some sender)
    (hruns : (k.step event).registry.isRunnable caller = true) :
    k.givesUp caller number args = true ↔ Syscall.ofNumber? number.toNat = some .yield := by
  rw [step_eq_serve hcalls hsender, isRunnable_serve] at hruns
  obtain ⟨hworked, -⟩ := settled_of_isRunnable (current_loaded hcalls) hruns
  exact Service.yields_answer_iff hworked

theorem id_of_fared {result : Except SysError Word} {env : Env}
    (h : k.Fared event caller sender result)
    (henv : (k.step event).registry.env? caller = some env) : env.id = sender.id := by
  cases h with
  | gone _ hgone =>
      rw [hgone] at henv
      cases henv
  | refused _ _ hsame hid | answered _ _ hsame hid =>
      rw [hsame] at henv
      cases henv
      exact hid

theorem turnAfter_of_calls (hscheduler : k.scheduler = .roundRobin) (hk : k.Sane)
    (hcalls : k.Calls caller number args event) (hsender : k.registry.env? caller = some sender) :
    k.TurnAfter event caller number args sender := by
  have hstep := step_eq_serve hcalls hsender
  have hstays : (k.step event).registry.isRunnable caller = true →
      k.givesUp caller number args = false →
      (k.step event).registry.current = some caller := by
    intro hruns hkeeps
    rw [hstep, isRunnable_serve] at hruns
    have hcurrent := (settled_of_isRunnable (current_loaded hcalls) hruns).2
    rw [hstep, snd_serve, if_neg]
    · exact hcurrent
    · change ¬ (k.givesUp caller number args || _) = true
      rw [hkeeps, hruns]
      exact Bool.false_ne_true
  have hpasses : (k.step event).registry.isRunnable caller = false ∨
      k.givesUp caller number args = true → (k.step event).registry.NextRuns caller := by
    intro hgives
    rw [hstep, isRunnable_serve] at hgives
    rw [hstep, snd_serve, if_pos]
    · exact nextRuns_scheduleFrom hscheduler _
    · change (k.givesUp caller number args || _) = true
      rcases hgives with hstuck | hgives
      · rw [hstuck]
        exact Bool.or_true _
      · rw [hgives]
        rfl
  refine ⟨fun hruns hkeeps => ⟨hstays hruns hkeeps, ?_⟩, hpasses,
    givesUp_iff_of_isRunnable hcalls hsender, ?_⟩
  · obtain ⟨env, henv, -⟩ := (Option.any_eq_true _ _).mp hruns
    rw [current?, Registry.currentEnv?, hstays hruns hkeeps, Option.bind_some, henv]
    rw [Option.map_some, id_of_fared (fared_of_calls hk hcalls hsender) henv]
    rfl
  · by_cases hkeeps : (k.step event).registry.isRunnable caller = true ∧
        k.givesUp caller number args = false
    · obtain ⟨hruns, hkeeps⟩ := hkeeps
      exact Registry.idle_iff_of_isRunnable (hstays hruns hkeeps) hruns
    · refine (hpasses ?_).idle_iff
      rwa [not_and_or, Bool.not_eq_true, Bool.not_eq_false] at hkeeps

/-- From a fresh kernel with the round-robin scheduler on: whatever the registry is, everyone that
may run has its turn; and in every state that events lead to, a call leaves its caller the turn if
it may run on and has not given up the processor, and else the next one has it that may run. -/
theorem turns_of_runs {config : Config} {machine : Machine} {k₀ : Kernel}
    (hboot : boot config machine .roundRobin = .ok k₀) (hrun : Runs (fun _ _ => True) k₀ k)
    (hcalls : k.Calls caller number args event) (hsender : k.registry.env? caller = some sender) :
    (∀ r last, Scheduler.TakesTurns r last) ∧ k.TurnAfter event caller number args sender :=
  ⟨Scheduler.takesTurns, turnAfter_of_calls (orderly_of_runs hboot hrun).scheduler_eq
    (sane_of_runs hboot hrun) hcalls hsender⟩

/-- A child that waits for a message leaves the turn to its parent. -/
theorem turns_of_runs_waiting :
    boot ⟨4, false, false, none⟩ smallMachine .roundRobin = .ok smallKernel ∧
    Runs (fun _ _ => True) smallKernel pairKernel ∧
    pairKernel.Calls 1 14 ⟨0x80000000, 0, 0, 0, 0, 0⟩ waitCall ∧
    ∃ sender, pairKernel.registry.env? 1 = some sender ∧
      (∀ r last, Scheduler.TakesTurns r last) ∧
      pairKernel.TurnAfter waitCall 1 14 ⟨0x80000000, 0, 0, 0, 0, 0⟩ sender := by
  have hrun : Runs (fun _ _ => True) smallKernel pairKernel := runs_after .start _
  have hcalls : pairKernel.Calls 1 14 ⟨0x80000000, 0, 0, 0, 0, 0⟩ waitCall :=
    ⟨by decide +kernel, rfl, rfl⟩
  have hthere : (pairKernel.registry.env? 1).isSome = true := by decide +kernel
  obtain ⟨sender, hsender⟩ := Option.isSome_iff_exists.mp hthere
  exact ⟨boot_smallKernel, hrun, hcalls, sender, hsender,
    turns_of_runs boot_smallKernel hrun hcalls hsender⟩

end Kernel

end Exokernel
