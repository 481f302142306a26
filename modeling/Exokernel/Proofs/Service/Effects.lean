import Exokernel.Proofs.Env.Authority
import Exokernel.Proofs.Realm.Actions
import Exokernel.Service.Dispatch

/-! # What calls do to the realm

A call is refused and changes nothing, or all its checks have passed and it does the one thing that
it is for.  `Effect` lists what that is for each call, with what was decoded and checked before. -/

namespace Exokernel

namespace Service

/-- What the caller asks for in the registers of its call to send a message. -/
abbrev sendRequest (args : Args) : SendRequest :=
  SendRequest.decode args.arg0 args.arg1 args.arg2 args.arg3 args.arg4

/-- The realm after a call of the caller with the given arguments, for each call. -/
inductive Effect (caller : Caller) (args : Args) (s : Realm) : Syscall → Realm → Prop where
  /-- The call is refused, or only looks. -/
  | same (call) : Effect caller args s call s
  /-- Readable bytes are written to the console chunk by chunk. -/
  | print {env r} (henv : s.registry.env? caller.slot = some env)
      (hrange : ByteRange.of? args.arg0.toNat args.arg1.toNat = some r)
      (hpermits : env.table.permits r false = true) :
      Effect caller args s .cputs
        (stateOf (writeChunks caller args.arg0.toNat (chunks args.arg1.toNat) s))
  /-- The caller asks for bytes that it may not read. -/
  | convict {t} (hlog : s.SameButLog t) :
      Effect caller args s .cputs
        (t.modifyEnv caller.slot fun env => { env with status := .dying })
  | readChar (console) : Effect caller args s .cgetc { s with console }
  /-- The caller destroys itself. -/
  | exit {t} (hself : s.registry.resolve (.ofWord args.arg0) caller.slot true = .ok caller.slot)
      (hlog : s.SameButLog t) :
      Effect caller args s .envDestroy
        (t.modifyEnv caller.slot fun env => { env with status := .dying })
  | destroy {index t} (hindex : s.registry.resolve (.ofWord args.arg0) caller.slot true = .ok index)
      (hother : index ≠ caller.slot) (hlog : s.SameButLog t) (actor : Option EnvId) (trace : Bool) :
      Effect caller args s .envDestroy (t.endEnv index actor trace).2
  | alloc {r req index env} (hrange : PageRange.ofWords? args.arg1 args.arg2 = some r)
      (hreq : AllocRequest.decode args.arg3.toUInt32 = .ok req)
      (hindex : s.registry.resolve (.ofWord args.arg0) caller.slot true = .ok index)
      (henv : s.registry.env? index = some env) :
      Effect caller args s .allocRegion
        (stateOf (Realm.onSpace index env (Space.allocateRegion r req) s))
  | share {src dst rights i j source target}
      (hsrc : PageRange.ofWords? args.arg1 args.arg4 = some src)
      (hdst : PageRange.ofWords? args.arg3 args.arg4 = some dst)
      (hrights : MapRights.forCopy args.arg5.toUInt32 = .ok rights)
      (hi : s.registry.resolve (.ofWord args.arg0) caller.slot true = .ok i)
      (hj : s.registry.resolve (.ofWord args.arg2) caller.slot true = .ok j)
      (hsource : s.registry.env? i = some source) (htarget : s.registry.env? j = some target) :
      Effect caller args s .mapRegion
        (stateOf (Realm.shareRegion i j source target src dst rights s))
  | device {index env pa r rights}
      (hindex : s.registry.resolve (.ofWord args.arg1) caller.slot true = .ok index)
      (henv : s.registry.env? index = some env) (hkind : env.kind = .driver)
      (hpa : PhysAddr.aligned? args.arg0.toNat = some pa)
      (hrange : PageRange.ofWords? args.arg2 args.arg3 = some r)
      (hrights : MapRights.forDevice args.arg4.toUInt32 = .ok rights) :
      Effect caller args s .mapPhysicalRegion
        (stateOf (Realm.onSpace index env (Space.mapDeviceRegion r pa rights) s))
  | unmap {r index env} (hrange : PageRange.ofWords? args.arg1 args.arg2 = some r)
      (hindex : s.registry.resolve (.ofWord args.arg0) caller.slot true = .ok index)
      (henv : s.registry.env? index = some env) :
      Effect caller args s .unmapRegion
        (stateOf (Realm.onSpace index env (modify (·.unmapRegion r)) s))
  | fork {env child registry t} (henv : s.registry.env? caller.slot = some env)
      (hchild : s.registry.allocate (some env.id) .user .notRunnable = .ok (child, registry))
      (hlog : ({ s with registry }.modifyEnv child fun e =>
        { e with frame := env.frame.setResult 0 }).SameButLog t) :
      Effect caller args s .exofork t
  | setStatus {index status}
      (hindex : s.registry.resolve (.ofWord args.arg0) caller.slot true = .ok index)
      (hstatus : settableStatus? args.arg1 = some status) :
      Effect caller args s .envSetStatus (s.modifyEnv index (withStatus status))
  | setUpcall {index}
      (hindex : s.registry.resolve (.ofWord args.arg0) caller.slot true = .ok index)
      (upcall : Option VirtAddr) :
      Effect caller args s .envSetPgfaultUpcall
        (s.modifyEnv index fun env => { env with upcall })
  | send : Effect caller args s .ipcTrySend
      (stateOf (Realm.trySend caller.slot (sendRequest args) s))
  | receive {request} (hrequest : RecvRequest.decode args.arg0 args.arg1 = .ok request) :
      Effect caller args s .ipcRecv (stateOf (Realm.receive caller.slot request s))

variable {caller : Caller} {args : Args} {s : Realm}

/-! ## Checks -/

theorem controlled_of_ok {arg : Word} {index : Nat}
    (h : s.registry.resolve (.ofWord arg) caller.slot true = .ok index) :
    controlled caller arg s = .ok index s := by
  change EStateM.adaptExcept _ (Realm.resolve _ _ _) s = _
  rw [EStateM.adaptExcept, Realm.resolve, h]

theorem controlled_of_error {arg : Word} {e : EnvError}
    (h : s.registry.resolve (.ofWord arg) caller.slot true = .error e) :
    controlled caller arg s = .error (.env e) s := by
  change EStateM.adaptExcept _ (Realm.resolve _ _ _) s = _
  rw [EStateM.adaptExcept, Realm.resolve, h]

theorem envAt_of_some {index : Nat} {env : Env} (h : s.registry.env? index = some env) :
    envAt index s = .ok env s := by
  change EStateM.adaptExcept _ (Realm.envAt _) s = _
  rw [EStateM.adaptExcept, Realm.envAt, h]

theorem envAt_of_none {index : Nat} (h : s.registry.env? index = none) :
    envAt index s = .error (.env .badEnvironment) s := by
  change EStateM.adaptExcept _ (Realm.envAt _) s = _
  rw [EStateM.adaptExcept, Realm.envAt, h]

theorem exists_env?_of_resolve {r : Registry} {id : EnvId} {requester index : Nat} {check : Bool}
    (h : r.resolve id requester check = .ok index) :
    ∃ env, r.env? index = some env ∧ env.status ≠ .dying := by
  obtain ⟨-, target, htarget, hstatus, -⟩ := Registry.resolve_eq_ok_iff_isAncestor.mp h
  exact ⟨target, htarget, hstatus⟩

theorem stateOf_onSpace {α : Type} {index : Nat} {env : Env} (h : s.registry.env? index = some env)
    (x : SpaceM α) : stateOf (onSpace index x s) = stateOf (Realm.onSpace index env x s) := by
  rw [onSpace]
  rw [bind_of_ok (envAt_of_some h)]
  exact stateOf_adaptExcept _ _ _

theorem keeps_writeChunks {I : Realm → Prop}
    (hread : ∀ u env start length, I u → u.registry.env? caller.slot = some env →
      I (stateOf (Realm.onSpace caller.slot env (Space.readBytes start length) u)))
    (hconsole : ∀ u console, I u → I { u with console }) (start : Nat) (sizes : List Nat) :
    Keeps I (writeChunks caller start sizes) := by
  induction sizes generalizing start with
  | nil => exact Keeps.pure ()
  | cons n rest ih =>
      apply Keeps.bind
      · intro u hu
        cases henv : u.registry.env? caller.slot with
        | none =>
            rw [onSpace]
            rw [bind_of_error (envAt_of_none henv)]
            exact hu
        | some env =>
            rw [stateOf_onSpace henv]
            exact hread u env start n hu henv
      · intro bytes
        apply Keeps.bind
        · exact Keeps.update fun u hu => hconsole u _ hu
        · intro _
          exact ih (start + n)

/-! ## Each call -/

theorem effect_allocRegion :
    Effect caller args s .allocRegion (stateOf (allocRegion caller args s)) := by
  rw [allocRegion]
  cases hrange : PageRange.ofWords? args.arg1 args.arg2 with
  | none =>
      simp only [pageRange, hrange]
      exact .same _
  | some r =>
  cases hreq : AllocRequest.decode args.arg3.toUInt32 with
  | error e =>
      simp only [pageRange, hrange, decoded]
      exact .same _
  | ok req =>
  simp only [pageRange, hrange, decoded, pure_bind]
  cases hindex : s.registry.resolve (.ofWord args.arg0) caller.slot true with
  | error e =>
      rw [bind_of_error (controlled_of_error hindex)]
      exact .same _
  | ok index =>
      obtain ⟨env, henv, -⟩ := exists_env?_of_resolve hindex
      rw [bind_of_ok (controlled_of_ok hindex), stateOf_bind_pure, stateOf_onSpace henv]
      exact .alloc hrange hreq hindex henv

theorem effect_mapRegion :
    Effect caller args s .mapRegion (stateOf (mapRegion caller args s)) := by
  rw [mapRegion]
  cases hsrc : PageRange.ofWords? args.arg1 args.arg4 with
  | none =>
      simp only [pageRange, hsrc]
      exact .same _
  | some src =>
  cases hdst : PageRange.ofWords? args.arg3 args.arg4 with
  | none =>
      simp only [pageRange, hsrc, hdst]
      exact .same _
  | some dst =>
  cases hrights : MapRights.forCopy args.arg5.toUInt32 with
  | error e =>
      simp only [pageRange, hsrc, hdst, decoded]
      exact .same _
  | ok rights =>
  simp only [pageRange, hsrc, hdst, decoded, pure_bind]
  cases hi : s.registry.resolve (.ofWord args.arg0) caller.slot true with
  | error e =>
      rw [bind_of_error (controlled_of_error hi)]
      exact .same _
  | ok i =>
  rw [bind_of_ok (controlled_of_ok hi)]
  cases hj : s.registry.resolve (.ofWord args.arg2) caller.slot true with
  | error e =>
      rw [bind_of_error (controlled_of_error hj)]
      exact .same _
  | ok j =>
  obtain ⟨source, hsource, -⟩ := exists_env?_of_resolve hi
  obtain ⟨target, htarget, -⟩ := exists_env?_of_resolve hj
  rw [bind_of_ok (controlled_of_ok hj), bind_of_ok (envAt_of_some hsource),
    bind_of_ok (envAt_of_some htarget), stateOf_bind_pure]
  change Effect _ _ _ _ (stateOf (EStateM.adaptExcept _ _ s))
  rw [stateOf_adaptExcept]
  exact .share hsrc hdst hrights hi hj hsource htarget

theorem effect_mapPhysicalRegion :
    Effect caller args s .mapPhysicalRegion (stateOf (mapPhysicalRegion caller args s)) := by
  rw [mapPhysicalRegion]
  cases hindex : s.registry.resolve (.ofWord args.arg1) caller.slot true with
  | error e =>
      rw [bind_of_error (controlled_of_error hindex)]
      exact .same _
  | ok index =>
  obtain ⟨env, henv, -⟩ := exists_env?_of_resolve hindex
  rw [bind_of_ok (controlled_of_ok hindex), bind_of_ok (envAt_of_some henv)]
  by_cases hkind : env.kind = .driver
  · rw [if_neg (not_not_intro hkind)]
    cases hpa : PhysAddr.aligned? args.arg0.toNat with
    | none => exact .same _
    | some pa =>
    cases hrange : PageRange.ofWords? args.arg2 args.arg3 with
    | none =>
        simp only [pageRange, hrange]
        exact .same _
    | some r =>
    cases hrights : MapRights.forDevice args.arg4.toUInt32 with
    | error e =>
        simp only [pageRange, hrange, decoded]
        exact .same _
    | ok rights =>
    simp only [pageRange, hrange, decoded, pure_bind]
    rw [stateOf_bind_pure, stateOf_onSpace henv]
    exact .device hindex henv hkind hpa hrange hrights
  · rw [if_pos hkind]
    exact .same _

theorem effect_unmapRegion :
    Effect caller args s .unmapRegion (stateOf (unmapRegion caller args s)) := by
  rw [unmapRegion]
  cases hrange : PageRange.ofWords? args.arg1 args.arg2 with
  | none =>
      simp only [pageRange, hrange]
      exact .same _
  | some r =>
  simp only [pageRange, hrange, pure_bind]
  cases hindex : s.registry.resolve (.ofWord args.arg0) caller.slot true with
  | error e =>
      rw [bind_of_error (controlled_of_error hindex)]
      exact .same _
  | ok index =>
  obtain ⟨env, henv, -⟩ := exists_env?_of_resolve hindex
  rw [bind_of_ok (controlled_of_ok hindex), stateOf_bind_pure, stateOf_onSpace henv]
  exact .unmap hrange hindex henv

theorem effect_regionRefs :
    Effect caller args s .regionRefs (stateOf (regionRefs caller args s)) := by
  rw [regionRefs]
  cases henv : s.registry.env? caller.slot with
  | none =>
      rw [bind_of_error (envAt_of_none henv)]
      exact .same _
  | some env =>
      rw [bind_of_ok (envAt_of_some henv)]
      exact .same _

theorem effect_cputs : Effect caller args s .cputs (stateOf (cputs caller args s)) := by
  rw [cputs]
  cases henv : s.registry.env? caller.slot with
  | none =>
      rw [bind_of_error (envAt_of_none henv)]
      exact .same _
  | some env =>
  rw [bind_of_ok (envAt_of_some henv)]
  by_cases hreadable : (ByteRange.of? args.arg0.toNat args.arg1.toNat).any
      (env.table.permits · false) = true
  · obtain ⟨r, hrange, hpermits⟩ := (Option.any_eq_true _ _).mp hreadable
    rw [if_pos hreadable, stateOf_bind_pure]
    exact .print henv hrange hpermits
  · rw [if_neg hreadable]
    exact .convict (Realm.sameButLog_note _ _ _ _)

theorem effect_cgetc : Effect caller args s .cgetc (stateOf (cgetc caller args s)) := by
  rw [cgetc]
  rw [bind_of_ok (x := get) (a := s) (t := s) rfl]
  rcases hread : s.console.read with ⟨_ | b, console⟩
  · exact .same _
  · exact .readChar console

theorem effect_getEnvId : Effect caller args s .getEnvId (stateOf (getEnvId caller args s)) :=
  .same _

theorem effect_yield : Effect caller args s .yield (stateOf (yield caller args s)) :=
  .same _

theorem effect_envDestroy :
    Effect caller args s .envDestroy (stateOf (envDestroy caller args s)) := by
  rw [envDestroy]
  cases hindex : s.registry.resolve (.ofWord args.arg0) caller.slot true with
  | error e =>
      rw [bind_of_error (controlled_of_error hindex)]
      exact .same _
  | ok index =>
  rw [bind_of_ok (controlled_of_ok hindex), bind_of_ok (x := get) (a := s) (t := s) rfl]
  by_cases hself : index = caller.slot
  · subst hself
    rw [if_pos rfl]
    refine .exit hindex ?_
    split
    · exact Realm.sameButLog_note _ _ _ _
    · exact .refl _
  · rw [if_neg hself]
    refine .destroy hindex hself ?_ _ _
    split
    · exact Realm.sameButLog_note _ _ _ _
    · exact .refl _

theorem effect_exofork : Effect caller args s .exofork (stateOf (exofork caller args s)) := by
  rw [exofork]
  cases henv : s.registry.env? caller.slot with
  | none =>
      rw [bind_of_error (envAt_of_none henv)]
      exact .same _
  | some env =>
  rw [bind_of_ok (envAt_of_some henv), bind_of_ok (x := get) (a := s) (t := s) rfl]
  cases hchild : s.registry.allocate (some env.id) .user .notRunnable with
  | error e => exact .same _
  | ok result =>
      obtain ⟨child, registry⟩ := result
      refine .fork henv hchild ?_
      split
      · exact Realm.sameButLog_note _ _ _ _
      · exact .refl _

theorem effect_envSetStatus :
    Effect caller args s .envSetStatus (stateOf (envSetStatus caller args s)) := by
  rw [envSetStatus]
  cases hindex : s.registry.resolve (.ofWord args.arg0) caller.slot true with
  | error e =>
      rw [bind_of_error (controlled_of_error hindex)]
      exact .same _
  | ok index =>
  rw [bind_of_ok (controlled_of_ok hindex)]
  cases hstatus : settableStatus? args.arg1 with
  | none => exact .same _
  | some status => exact .setStatus hindex hstatus

theorem effect_envSetPgfaultUpcall :
    Effect caller args s .envSetPgfaultUpcall (stateOf (envSetPgfaultUpcall caller args s)) := by
  rw [envSetPgfaultUpcall]
  cases hindex : s.registry.resolve (.ofWord args.arg0) caller.slot true with
  | error e =>
      rw [bind_of_error (controlled_of_error hindex)]
      exact .same _
  | ok index =>
  rw [bind_of_ok (controlled_of_ok hindex)]
  by_cases hzero : args.arg1 = 0
  · rw [if_pos hzero]
    exact .setUpcall hindex none
  · rw [if_neg hzero]
    cases hentry : VirtAddr.ofWord? args.arg1 with
    | none => exact .same _
    | some entry => exact .setUpcall hindex (some entry)

theorem effect_ipcTrySend :
    Effect caller args s .ipcTrySend (stateOf (ipcTrySend caller args s)) := by
  rw [ipcTrySend]
  rw [stateOf_bind_pure]
  change Effect _ _ _ _ (stateOf (EStateM.adaptExcept _ _ s))
  rw [stateOf_adaptExcept]
  exact .send

theorem effect_ipcRecv : Effect caller args s .ipcRecv (stateOf (ipcRecv caller args s)) := by
  rw [ipcRecv]
  cases hrequest : RecvRequest.decode args.arg0 args.arg1 with
  | error e => exact .same _
  | ok request =>
      simp only
      rw [stateOf_bind_pure]
      change Effect _ _ _ _ (stateOf (EStateM.adaptExcept _ _ s))
      rw [stateOf_adaptExcept]
      exact .receive hrequest

/-- Every call has one of the effects listed for it. -/
theorem effect_of_standard {call : Syscall} {service : Service}
    (h : ServiceTable.standard call = some service) :
    Effect caller args s call (stateOf (service caller args s)) := by
  cases call <;> cases h
  case cputs => exact effect_cputs
  case cgetc => exact effect_cgetc
  case getEnvId => exact effect_getEnvId
  case envDestroy => exact effect_envDestroy
  case allocRegion => exact effect_allocRegion
  case mapRegion => exact effect_mapRegion
  case mapPhysicalRegion => exact effect_mapPhysicalRegion
  case unmapRegion => exact effect_unmapRegion
  case regionRefs => exact effect_regionRefs
  case exofork => exact effect_exofork
  case envSetStatus => exact effect_envSetStatus
  case envSetPgfaultUpcall => exact effect_envSetPgfaultUpcall
  case yield => exact effect_yield
  case ipcTrySend => exact effect_ipcTrySend
  case ipcRecv => exact effect_ipcRecv

/-- The realm after a call by its number: a number without a call changes nothing. -/
theorem effect_answer (caller : Caller) (args : Args) (s : Realm) (number : Word) :
    (ServiceTable.standard.answer number caller args s).realm = s ∨
      ∃ call, Syscall.ofNumber? number.toNat = some call ∧
        Effect caller args s call (ServiceTable.standard.answer number caller args s).realm := by
  have hstate : (ServiceTable.standard.answer number caller args s).realm =
      stateOf (ServiceTable.standard.dispatch number caller args s) := by
    rw [ServiceTable.answer]
    cases ServiceTable.standard.dispatch number caller args s <;> rfl
  rw [hstate]
  rw [ServiceTable.dispatch]
  cases hcall : Syscall.ofNumber? number.toNat with
  | none => exact Or.inl rfl
  | some call =>
      right
      refine ⟨call, rfl, ?_⟩
      rw [Option.bind_some]
      cases hservice : ServiceTable.standard call with
      | none => cases call <;> cases hservice
      | some service => exact effect_of_standard hservice

end Service

end Exokernel
