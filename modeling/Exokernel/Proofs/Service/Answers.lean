import Exokernel.Proofs.Service.Deeds
import Exokernel.Proofs.Service.Refusals

/-! # What callers are answered

Two calls may end their caller, and they are not answered then; every other call leaves its caller
where it is.  What a call is answered with is not negative unless it was refused.  And nobody is
born but by forking. -/

namespace Exokernel

namespace Registry

variable {r r' : Registry} {index i : Nat}

theorem SameOutlines.outline_eq (h : r.SameOutlines r') (i : Nat) :
    (r'.env? i).map Env.outline = (r.env? i).map Env.outline := by
  have hsame := congrArg (Option.bind · Prod.snd) (h.slot_eq i)
  have henv : ∀ r : Registry, ((r.slot? i).map fun s => (s.generation, s.env.map Env.outline)).bind
      Prod.snd = (r.env? i).map Env.outline := by
    intro r
    cases hslot : r.slot? i with
    | none =>
        have hnone : r.env? i = none := congrArg (Option.bind · Slot.env) hslot
        rw [hnone]
        rfl
    | some slot =>
        rw [env?_of_slot? hslot]
        rfl
  exact (henv r').symm.trans (hsame.trans (henv r))

theorem SameOutlines.env?_eq_none (h : r.SameOutlines r') (hvacant : r.env? i = none) :
    r'.env? i = none := by
  have houtline := h.outline_eq i
  rw [hvacant, Option.map_none, Option.map_eq_none_iff] at houtline
  exact houtline

theorem env?_modify_eq_none (index : Nat) (f : Env → Env) (hvacant : r.env? i = none) :
    (r.modify index f).env? i = none := by
  rw [env?_modify, hvacant]
  exact ite_self _

end Registry

namespace Realm

variable {s : Realm} {i : Nat}

theorem env?_endEnv_eq_none (index : Nat) (actor : Option EnvId) (trace : Bool)
    (hvacant : s.registry.env? i = none) :
    (s.endEnv index actor trace).2.registry.env? i = none := by
  rcases s.endEnv_cases index actor trace with ⟨-, hsame⟩ | ⟨env, registry, htake, hlog⟩
  · rwa [hsame]
  · obtain ⟨-, -, hnone, hother, -⟩ := Registry.take?_eq_some htake
    rw [hlog.registry_eq]
    by_cases hi : i = index
    · rw [hi]
      exact hnone
    · exact (hother i hi).trans hvacant

end Realm

namespace Service

variable {caller : Caller} {args : Args} {s t : Realm} {call : Syscall} {α β : Type} {i : Nat}

/-! ## Births -/

theorem env?_trySend_eq_none (sender : Nat) (request : SendRequest)
    (hvacant : s.registry.env? i = none) :
    (stateOf (Realm.trySend sender request s)).registry.env? i = none := by
  have houtcome := Realm.sendOutcome_trySend sender request s
  generalize Realm.trySend sender request s = result at houtcome
  cases houtcome with
  | refused => exact hvacant
  | alone _ _ _ _ hlog =>
      rw [stateOf_ok, hlog.registry_eq]
      exact Registry.env?_modify_eq_none _ _ hvacant
  | @stuck receiver source target _ _ src dst rights _ _ _ _ _ _ _ _ _ _ hshare =>
      have houtlines := Realm.sameOutlines_shareRegion (i := sender) (j := receiver) source target
        (.one src.page) (.one dst) rights s
      rw [hshare] at houtlines
      exact houtlines.env?_eq_none hvacant
  | @withPage receiver source target _ _ src dst rights _ _ _ _ _ _ _ _ _ _ hshare hlog =>
      have houtlines := Realm.sameOutlines_shareRegion (i := sender) (j := receiver) source target
        (.one src.page) (.one dst) rights s
      rw [hshare] at houtlines
      rw [stateOf_ok, hlog.registry_eq]
      exact Registry.env?_modify_eq_none _ _ (houtlines.env?_eq_none hvacant)

/-- A call creates nobody unless it forks and there is room for a child. -/
theorem Effect.env?_eq_none (heffect : Effect caller args s call t)
    (hfork : call = .exofork → ∀ env, s.registry.env? caller.slot = some env →
      ∃ e, s.registry.allocate (some env.id) .user .notRunnable = .error e)
    (hvacant : s.registry.env? i = none) : t.registry.env? i = none := by
  cases heffect with
  | same => exact hvacant
  | print => exact (sameOutlines_writeChunks _ _ _ _).env?_eq_none hvacant
  | convict hlog | exit _ hlog =>
      refine Registry.env?_modify_eq_none _ _ ?_
      rwa [hlog.registry_eq]
  | readChar => exact hvacant
  | destroy _ _ hlog =>
      refine Realm.env?_endEnv_eq_none _ _ _ ?_
      rwa [hlog.registry_eq]
  | alloc | device | unmap => exact (Realm.sameOutlines_onSpace _ _ _ _).env?_eq_none hvacant
  | share => exact (Realm.sameOutlines_shareRegion _ _ _ _ _ _).env?_eq_none hvacant
  | fork henv hchild =>
      obtain ⟨e, herror⟩ := hfork rfl _ henv
      rw [herror] at hchild
      cases hchild
  | setStatus | setUpcall => exact Registry.env?_modify_eq_none _ _ hvacant
  | send => exact env?_trySend_eq_none _ _ hvacant
  | receive =>
      rw [Realm.receive]
      cases henv : s.registry.env? caller.slot with
      | none => exact hvacant
      | some env => exact Registry.env?_modify_eq_none _ _ hvacant

/-- Forking creates a suspended child of the caller with the registers of the caller, and answers
with its identifier. -/
theorem exofork_of_ok {env : Env} {child : Nat} {registry : Registry}
    (henv : s.registry.env? caller.slot = some env)
    (hchild : s.registry.allocate (some env.id) .user .notRunnable = .ok (child, registry)) :
    ∃ id t, exofork caller args s = .ok (.word id.toWord) t ∧
      (registry.env? child).map Env.id = some id ∧
      ({ s with registry }.modifyEnv child fun e =>
        { e with frame := env.frame.setResult 0 }).SameButLog t := by
  obtain ⟨-, -, -, ⟨generation, hfresh⟩, -⟩ := Registry.allocate_eq_ok hchild
  rw [exofork]
  rw [bind_of_ok (envAt_of_some henv), bind_of_ok (x := get) (a := s) (t := s) rfl]
  simp only [hchild]
  refine ⟨_, _, rfl, ?_, ?_⟩
  · rw [Realm.idAt, Realm.env?_modifyEnv, if_pos rfl, hfresh]
    rfl
  · split
    · exact Realm.sameButLog_note _ _ _ _
    · exact .refl _

/-! ## The caller -/

/-- The caller is in its slot as it called, and is not to end. -/
def Stands (slot : Nat) (sender : Env) (r : Registry) : Prop :=
  ∃ env, r.env? slot = some env ∧ env.id = sender.id ∧ env.status ≠ .dying ∧
    ∀ w, env.frame.setResult w = sender.frame.setResult w

namespace Stands

variable {slot index : Nat} {sender : Env} {r r' : Registry}

theorem of_sameOutlines (h : Stands slot sender r) (houtlines : r.SameOutlines r') :
    Stands slot sender r' := by
  obtain ⟨env, henv, hrest⟩ := h
  have houtline := houtlines.outline_eq slot
  rw [henv] at houtline
  obtain ⟨env', henv', heq⟩ := Option.map_eq_some_iff.mp houtline
  refine ⟨env', henv', ?_⟩
  rw [Env.eq_of_outline_eq heq]
  exact hrest

theorem modify (h : Stands slot sender r) {f : Env → Env} (hid : ∀ env, (f env).id = env.id)
    (hstatus : ∀ env, env.status ≠ .dying → (f env).status ≠ .dying)
    (hframe : ∀ env w, (f env).frame.setResult w = env.frame.setResult w) :
    Stands slot sender (r.modify index f) := by
  obtain ⟨env, henv, hsame, halive, hload⟩ := h
  by_cases hi : index = slot
  · refine ⟨f env, ?_, (hid env).trans hsame, hstatus env halive, fun w => (hframe env w).trans (hload w)⟩
    rw [Registry.env?_modify, if_pos hi, henv]
    rfl
  · refine ⟨env, ?_, hsame, halive, hload⟩
    rw [Registry.env?_modify, if_neg hi, henv]

theorem of_env?_eq (h : Stands slot sender r) (henv : r'.env? slot = r.env? slot) :
    Stands slot sender r' := by
  rwa [Stands, henv]

theorem endEnv (h : Stands slot sender s.registry) (hne : slot ≠ index) (actor : Option EnvId)
    (trace : Bool) : Stands slot sender (s.endEnv index actor trace).2.registry := by
  rcases s.endEnv_cases index actor trace with ⟨-, hsame⟩ | ⟨env, registry, htake, hlog⟩
  · rwa [hsame]
  · obtain ⟨-, -, -, hother, -⟩ := Registry.take?_eq_some htake
    rw [hlog.registry_eq]
    exact h.of_env?_eq (hother slot hne)

theorem deliver (h : Stands slot sender s.registry) (receiver : Nat) (delivery : Delivery) :
    Stands slot sender (s.deliver receiver delivery).registry :=
  h.modify (fun _ => rfl) (fun _ _ => by nofun) fun _ _ => rfl

theorem trySend (h : Stands slot sender s.registry) (from' : Nat) (request : SendRequest) :
    Stands slot sender (stateOf (Realm.trySend from' request s)).registry := by
  have houtcome := Realm.sendOutcome_trySend from' request s
  generalize Realm.trySend from' request s = result at houtcome
  cases houtcome with
  | refused => exact h
  | alone _ _ _ _ hlog =>
      rw [stateOf_ok, hlog.registry_eq]
      exact h.deliver _ _
  | @stuck receiver source target _ _ src dst rights _ _ _ _ _ _ _ _ _ _ hshare =>
      have houtlines := Realm.sameOutlines_shareRegion (i := from') (j := receiver) source target
        (.one src.page) (.one dst) rights s
      rw [hshare] at houtlines
      exact h.of_sameOutlines houtlines
  | @withPage receiver source target _ _ src dst rights _ _ _ _ _ _ _ _ _ _ hshare hlog =>
      have houtlines := Realm.sameOutlines_shareRegion (i := from') (j := receiver) source target
        (.one src.page) (.one dst) rights s
      rw [hshare] at houtlines
      rw [stateOf_ok, hlog.registry_eq]
      exact (h.of_sameOutlines houtlines).deliver _ _

theorem receive (h : Stands slot sender s.registry) (index : Nat) (request : RecvRequest) :
    Stands slot sender (stateOf (Realm.receive index request s)).registry := by
  rw [Realm.receive]
  cases s.registry.env? index with
  | none => exact h
  | some env =>
      refine h.modify (fun _ => rfl) (fun _ _ => by simp) fun env w => ?_
      simp [TrapFrame.setResult]

end Stands

theorem ne_dying_of_settableStatus? {arg : Word} {status : EnvStatus}
    (h : settableStatus? arg = some status) : status ≠ .dying := by
  rw [settableStatus?] at h
  split at h <;> cases h <;> nofun

theorem Effect.stands {sender : Env} (heffect : Effect caller args s call t)
    (hcputs : call ≠ .cputs) (hdestroy : call ≠ .envDestroy)
    (h : Stands caller.slot sender s.registry) : Stands caller.slot sender t.registry := by
  cases heffect with
  | same => exact h
  | print | convict => exact absurd rfl hcputs
  | readChar => exact h
  | exit | destroy => exact absurd rfl hdestroy
  | alloc | device | unmap => exact h.of_sameOutlines (Realm.sameOutlines_onSpace _ _ _ _)
  | share => exact h.of_sameOutlines (Realm.sameOutlines_shareRegion _ _ _ _ _ _)
  | @fork env child registry t _ hchild hlog =>
      obtain ⟨hvacant, -, -, -, hother⟩ := Registry.allocate_eq_ok hchild
      have hne : caller.slot ≠ child := by
        intro heq
        obtain ⟨env, henv, -⟩ := h
        rw [heq, hvacant] at henv
        cases henv
      rw [hlog.registry_eq]
      refine (h.of_env?_eq (hother _ hne)).of_env?_eq ?_
      exact (Registry.env?_modify _ _ _ _).trans (if_neg hne.symm)
  | setStatus _ hstatus =>
      exact h.modify (fun _ => rfl) (fun _ _ => ne_dying_of_settableStatus? hstatus) fun _ _ => rfl
  | setUpcall => exact h.modify (fun _ => rfl) (fun _ h => h) fun _ _ => rfl
  | send => exact h.trySend _ _
  | receive => exact h.receive _ _

/-! ## Requests that are answered -/

/-- A request that does not end the caller. -/
def Quiet (x : SysM α) (s : Realm) : Prop := ∀ t, x s ≠ .error .envExit t

theorem Quiet.bind {x : SysM α} {f : α → SysM β} (hx : Quiet x s)
    (hf : ∀ a t, x s = .ok a t → Quiet (f a) t) : Quiet (x >>= f) s := by
  intro t h
  rcases bind_eq_error_iff.mp h with herror | ⟨a, u, hok, herror⟩
  · exact hx t herror
  · exact hf a u hok t herror

theorem Quiet.adaptExcept {ε : Type} {x : EStateM ε Realm α} {g : ε → SysError}
    (hg : ∀ e, g e ≠ .envExit) : Quiet (EStateM.adaptExcept g x) s := by
  intro t h
  rw [EStateM.adaptExcept] at h
  cases hx : x s with
  | ok a u =>
      rw [hx] at h
      cases h
  | error e u =>
      rw [hx] at h
      injection h with he
      exact hg e he

theorem Quiet.of_ok {x : SysM α} {a : α} (h : x s = .ok a t) : Quiet x s := by
  intro u herror
  rw [h] at herror
  cases herror

theorem quiet_pageRange (va len : Word) : Quiet (pageRange va len) s := by
  intro t h
  rw [pageRange] at h
  cases hrange : PageRange.ofWords? va len <;> rw [hrange] at h <;> cases h

theorem quiet_decoded (result : Except RegionError α) : Quiet (decoded result) s := by
  intro t h
  cases result <;> cases h

theorem quiet_controlled (caller : Caller) (arg : Word) : Quiet (controlled caller arg) s :=
  .adaptExcept nofun

theorem quiet_envAt (index : Nat) : Quiet (envAt index) s :=
  .adaptExcept nofun

theorem quiet_onSpace (index : Nat) (x : SpaceM α) : Quiet (onSpace index x) s :=
  (quiet_envAt index).bind fun _ _ _ => .adaptExcept nofun

theorem quiet_writeChunks (caller : Caller) (start : Nat) (sizes : List Nat) (s : Realm) :
    Quiet (writeChunks caller start sizes) s := by
  induction sizes generalizing start s with
  | nil => exact .of_ok rfl
  | cons n rest ih =>
      refine (quiet_onSpace _ _).bind fun bytes t _ => ?_
      exact Quiet.bind (.of_ok rfl) fun _ u _ => ih (start + n) u

/-- A call that does not end its caller, and whose answer is not negative. -/
structure Plain (x : SysM Reply) (s : Realm) : Prop where
  quiet : Quiet x s
  nonneg : ∀ reply t, x s = .ok reply t → 0 ≤ reply.value.toInt64

namespace Plain

theorem throw {e : SysError} (he : e ≠ .envExit) : Plain (MonadExcept.throw e) s where
  quiet _ h := by
    cases h
    exact he rfl
  nonneg _ _ h := by cases h

theorem of_ok {x : SysM Reply} {reply : Reply} (h : x s = .ok reply t)
    (hvalue : 0 ≤ reply.value.toInt64) : Plain x s where
  quiet := .of_ok h
  nonneg _ _ hok := by
    rw [h] at hok
    cases hok
    exact hvalue

theorem bind {x : SysM α} {f : α → SysM Reply} (hx : Quiet x s)
    (hf : ∀ a t, x s = .ok a t → Plain (f a) t) : Plain (x >>= f) s where
  quiet := hx.bind fun a t h => (hf a t h).quiet
  nonneg reply t h := by
    obtain ⟨a, u, hok, hanswer⟩ := bind_eq_ok_iff.mp h
    exact (hf a u hok).nonneg reply t hanswer

end Plain

/-! ## Each call -/

theorem plain_regionRefs (hbound : ∀ env, s.registry.env? caller.slot = some env →
    sharingExcess s.memory env.table args < 2 ^ 63) : Plain (regionRefs caller args) s := by
  refine .bind (quiet_envAt _) fun env t h => ?_
  have hlt := hbound env (env?_of_envAt h)
  have hstate := stateOf_envAt (s := s) caller.slot
  rw [h, stateOf_ok] at hstate
  rw [← hstate] at hlt
  refine .of_ok rfl (nonneg_toInt64 ?_)
  change (UInt64.ofNat (sharingExcess t.memory env.table args)).toNat < 2 ^ 63
  rw [UInt64.toNat_ofNat_of_lt' (Nat.lt_trans hlt (by decide))]
  exact hlt

theorem plain_cgetc : Plain (cgetc caller args) s := by
  rw [cgetc]
  refine .bind (.of_ok rfl) fun u t _ => ?_
  rcases u.console.read with ⟨_ | b, console⟩
  · exact .of_ok rfl nonneg_done
  · exact .of_ok rfl (nonneg_toUInt64 b)

theorem plain_allocRegion : Plain (allocRegion caller args) s := by
  refine .bind (quiet_pageRange _ _) fun _ _ _ => ?_
  refine .bind (quiet_decoded _) fun _ _ _ => ?_
  refine .bind (quiet_controlled _ _) fun _ _ _ => ?_
  refine .bind (quiet_onSpace _ _) fun _ _ _ => ?_
  exact .of_ok rfl nonneg_done

theorem plain_mapRegion : Plain (mapRegion caller args) s := by
  refine .bind (quiet_pageRange _ _) fun _ _ _ => ?_
  refine .bind (quiet_pageRange _ _) fun _ _ _ => ?_
  refine .bind (quiet_decoded _) fun _ _ _ => ?_
  refine .bind (quiet_controlled _ _) fun _ _ _ => ?_
  refine .bind (quiet_controlled _ _) fun _ _ _ => ?_
  refine .bind (quiet_envAt _) fun _ _ _ => ?_
  refine .bind (quiet_envAt _) fun _ _ _ => ?_
  refine .bind (.adaptExcept nofun) fun _ _ _ => ?_
  exact .of_ok rfl nonneg_done

theorem plain_mapPhysicalRegion : Plain (mapPhysicalRegion caller args) s := by
  refine .bind (quiet_controlled _ _) fun _ _ _ => ?_
  refine .bind (quiet_envAt _) fun env _ _ => ?_
  by_cases hkind : env.kind = .driver
  · rw [if_neg (not_not_intro hkind)]
    cases PhysAddr.aligned? args.arg0.toNat with
    | none => exact .throw nofun
    | some pa =>
        refine .bind (quiet_pageRange _ _) fun _ _ _ => ?_
        refine .bind (quiet_decoded _) fun _ _ _ => ?_
        refine .bind (quiet_onSpace _ _) fun _ _ _ => ?_
        exact .of_ok rfl nonneg_done
  · rw [if_pos hkind]
    exact .throw nofun

theorem plain_unmapRegion : Plain (unmapRegion caller args) s := by
  refine .bind (quiet_pageRange _ _) fun _ _ _ => ?_
  refine .bind (quiet_controlled _ _) fun _ _ _ => ?_
  refine .bind (quiet_onSpace _ _) fun _ _ _ => ?_
  exact .of_ok rfl nonneg_done

theorem plain_exofork : Plain (exofork caller args) s := by
  refine .bind (quiet_envAt _) fun env _ _ => ?_
  refine .bind (.of_ok rfl) fun u _ _ => ?_
  cases u.registry.allocate (some env.id) .user .notRunnable with
  | error e => exact .throw nofun
  | ok result => exact .of_ok rfl (nonneg_toWord _)

theorem plain_envSetStatus : Plain (envSetStatus caller args) s := by
  refine .bind (quiet_controlled _ _) fun index _ _ => ?_
  cases settableStatus? args.arg1 with
  | none => exact .throw nofun
  | some status =>
      refine .bind (.of_ok rfl) fun _ _ _ => .of_ok rfl ?_
      split
      · exact nonneg_pause
      · exact nonneg_done

theorem plain_envSetPgfaultUpcall : Plain (envSetPgfaultUpcall caller args) s := by
  refine .bind (quiet_controlled _ _) fun _ _ _ => ?_
  split
  · exact .of_ok rfl nonneg_done
  · split
    · exact .throw nofun
    · exact .of_ok rfl nonneg_done

theorem plain_ipcTrySend : Plain (ipcTrySend caller args) s := by
  refine .bind (.adaptExcept nofun) fun _ _ _ => ?_
  exact .of_ok rfl nonneg_done

theorem plain_ipcRecv : Plain (ipcRecv caller args) s := by
  rw [ipcRecv]
  cases RecvRequest.decode args.arg0 args.arg1 with
  | error e => exact .throw (by simp)
  | ok request =>
      refine .bind (.adaptExcept (by simp)) fun _ _ _ => ?_
      exact .of_ok rfl nonneg_pause

theorem plain_of_standard {service : Service} (hservice : ServiceTable.standard call = some service)
    (hcputs : call ≠ .cputs) (hdestroy : call ≠ .envDestroy)
    (hbound : ∀ env, s.registry.env? caller.slot = some env →
      sharingExcess s.memory env.table args < 2 ^ 63) : Plain (service caller args) s := by
  cases call <;> cases hservice
  case cputs => exact absurd rfl hcputs
  case cgetc => exact plain_cgetc
  case getEnvId => exact .of_ok rfl (nonneg_toWord _)
  case envDestroy => exact absurd rfl hdestroy
  case allocRegion => exact plain_allocRegion
  case mapRegion => exact plain_mapRegion
  case mapPhysicalRegion => exact plain_mapPhysicalRegion
  case unmapRegion => exact plain_unmapRegion
  case regionRefs => exact plain_regionRefs hbound
  case exofork => exact plain_exofork
  case envSetStatus => exact plain_envSetStatus
  case envSetPgfaultUpcall => exact plain_envSetPgfaultUpcall
  case yield => exact .of_ok rfl nonneg_pause
  case ipcTrySend => exact plain_ipcTrySend
  case ipcRecv => exact plain_ipcRecv

/-- What a call comes to for its caller. -/
inductive Verdict (slot : Nat) (sender : Env) : EStateM.Result SysError Realm Reply → Prop where
  /-- The caller is to end. -/
  | exits {t env} (henv : t.registry.env? slot = some env) (hstatus : env.status = .dying) :
      Verdict slot sender (.error .envExit t)
  | refused {e t} (he : e ≠ .envExit) (hstands : Stands slot sender t.registry) :
      Verdict slot sender (.error e t)
  | answered {reply t} (hvalue : 0 ≤ reply.value.toInt64) (hstands : Stands slot sender t.registry) :
      Verdict slot sender (.ok reply t)

theorem Plain.verdict {x : SysM Reply} {slot : Nat} {sender : Env} (h : Plain x s)
    (hstands : Stands slot sender (stateOf (x s)).registry) : Verdict slot sender (x s) := by
  cases hx : x s with
  | ok reply t =>
      rw [hx] at hstands
      exact .answered (h.nonneg reply t hx) hstands
  | error e t =>
      rw [hx] at hstands
      refine .refused ?_ hstands
      rintro rfl
      exact h.quiet t hx

theorem exits_of_doomed {slot : Nat} {sender : Env} (h : Stands slot sender t.registry) :
    Verdict slot sender (.error .envExit
      (t.modifyEnv slot fun env => { env with status := .dying })) := by
  obtain ⟨env, henv, -⟩ := h
  have hdying : (t.modifyEnv slot fun env => { env with status := .dying }).registry.env? slot =
      some { env with status := .dying } := by
    rw [Realm.env?_modifyEnv, if_pos rfl, henv]
    rfl
  exact .exits hdying rfl

theorem verdict_cputs {sender : Env} (h : Stands caller.slot sender s.registry) :
    Verdict caller.slot sender (cputs caller args s) := by
  obtain ⟨env, henv, -⟩ := id h
  rw [cputs]
  rw [bind_of_ok (envAt_of_some henv)]
  split
  · refine Plain.verdict (.bind (quiet_writeChunks _ _ _ _) fun _ _ _ => .of_ok rfl nonneg_done) ?_
    rw [stateOf_bind_pure]
    exact h.of_sameOutlines (sameOutlines_writeChunks _ _ _ _)
  · exact exits_of_doomed h

theorem verdict_envDestroy {sender : Env} (h : Stands caller.slot sender s.registry) :
    Verdict caller.slot sender (envDestroy caller args s) := by
  rw [envDestroy]
  rcases controlled_cases (s := s) caller args.arg0 with ⟨e, herror⟩ | ⟨index, env, hok, -⟩
  · rw [bind_of_error herror]
    refine .refused ?_ h
    rintro rfl
    exact quiet_controlled caller args.arg0 s herror
  · rw [bind_of_ok hok, bind_of_ok (x := get) (a := s) (t := s) rfl]
    by_cases hself : index = caller.slot
    · subst hself
      rw [if_pos rfl]
      refine exits_of_doomed ?_
      split
      · exact h
      · exact h
    · rw [if_neg hself]
      refine .answered nonneg_done ?_
      have hnoted : ∀ text, Stands caller.slot sender (s.note .info "env" text).registry := fun _ => h
      split
      · exact (hnoted _).endEnv (Ne.symm hself) _ _
      · exact h.endEnv (Ne.symm hself) _ _

/-- Whatever is called, the caller is to end and is not answered, or it stays where it is. -/
theorem verdict_dispatch {sender : Env} (number : Word)
    (h : Stands caller.slot sender s.registry)
    (hbound : ∀ env, s.registry.env? caller.slot = some env →
      sharingExcess s.memory env.table args < 2 ^ 63) :
    Verdict caller.slot sender (ServiceTable.standard.dispatch number caller args s) := by
  rw [ServiceTable.dispatch]
  cases Syscall.ofNumber? number.toNat with
  | none => exact .refused (by simp) h
  | some call =>
  rw [Option.bind_some]
  cases hservice : ServiceTable.standard call with
  | none => exact .refused (by simp) h
  | some service =>
  simp only
  by_cases hcputs : call = .cputs
  · subst hcputs
    cases hservice
    exact verdict_cputs h
  by_cases hdestroy : call = .envDestroy
  · subst hdestroy
    cases hservice
    exact verdict_envDestroy h
  exact (plain_of_standard hservice hcputs hdestroy hbound).verdict
    ((effect_of_standard hservice).stands hcputs hdestroy h)

end Service

end Exokernel
