import Exokernel.Proofs.Kernel.Accounts
import Exokernel.Proofs.Realm.Provenance

/-! # The provenance of mappings

Nothing becomes reachable for an environment without a reason.  An entry that an event leaves was
there before, or it had no frame and was given a fresh one, or it is what the call was there to
make: a fresh page, a device page of a driver, or a page that is shared from another environment
with no more rights than that one had to it. -/

namespace Exokernel.Kernel

variable {k : Kernel} {i : Nat} {env' : Env} {p : VirtPage} {e : PageEntry}

/-- What happens once the work of a call is done makes no entries and changes no bytes. -/
theorem traces_serve (k : Kernel) (caller : Nat) (sender : Env) :
    Realm.Traces (k.serve caller sender).2.realm.memory.machine.pool (fun _ => [])
      (fun i env p e => ∃ call, Syscall.ofNumber? sender.frame.callNumber.toNat = some call ∧
        Service.Grants k.realm (k.serve caller sender).2.realm.memory.machine.pool caller
          sender.frame.callArgs i env p e call)
      k.realm (k.serve caller sender).2.realm := by
  obtain ⟨answered, noted, worded, settled, hanswered, hnoted, hworded, hsettled, current, heq⟩ :=
    k.serve_cases caller sender
  have hword : Realm.Trims answered worded ∧
      answered.memory.machine.pool.SameBytes worded.memory.machine.pool := by
    have hnote : answered.memory.machine.pool.SameBytes noted.memory.machine.pool := by
      rw [hnoted.pool_eq]
      exact .refl _
    rcases hworded with rfl | ⟨w, rfl⟩
    · exact ⟨(Realm.Trims.refl _).of_sameButLog hnoted, hnote⟩
    · refine ⟨((Realm.Trims.refl _).of_sameButLog hnoted).trans ?_, hnote⟩
      exact Realm.trims_modifyEnv _ _ fun _ => ⟨rfl, rfl⟩
  have hsettle : Realm.Trims answered settled ∧
      answered.memory.machine.pool.SameBytes settled.memory.machine.pool := by
    rcases hsettled with rfl | rfl
    · exact hword
    · exact ⟨hword.1.trans (Realm.trims_endEnv _ _ _ _),
        hword.2.trans (Realm.sameBytes_endEnv _ _ _ _)⟩
  have htrims : Realm.Trims answered (k.serve caller sender).2.realm := by
    rw [heq]
    exact hsettle.1
  have hbytes : answered.memory.machine.pool.SameBytes
      (k.serve caller sender).2.realm.memory.machine.pool := by
    rw [heq]
    exact hsettle.2
  rcases hanswered with rfl | ⟨call, hcall, heffect⟩
  · exact htrims.traces
  · intro i env' p e hi he
    obtain ⟨env, henv, hid, hcases⟩ := (heffect.traces hbytes).trims htrims i env' p e hi he
    refine ⟨env, henv, hid, hcases.imp_right fun h => h.imp_right fun hgrants => ?_⟩
    exact ⟨call, hcall, hgrants⟩

def Granted (k : Kernel) (event : Event) (i : Nat) (env : Env) (p : VirtPage) (e : PageEntry) :
    Prop :=
  ∃ caller number args call, k.Calls caller number args event ∧
    Syscall.ofNumber? number.toNat = some call ∧
    Service.Grants k.realm (k.step event).realm.memory.machine.pool caller args i env p e call

/-- The bytes that an event writes through a page table. -/
def Event.laid : Event → PageTable → List ((PhysAddr × Nat) × UInt8)
  | .writeUser _ va bytes, t => t.writes (List.range' va.toNat bytes.length) bytes
  | _, _ => []

theorem laid_of_calls {event : Event} {caller : Nat} {number : Word} {args : Args}
    (hcalls : k.Calls caller number args event) : event.laid = fun _ => [] := by
  cases event with
  | syscall n a => rfl
  | trap => rfl
  | _ => cases hcalls

theorem traces_of_calls {event : Event} {caller : Nat} {number : Word} {args : Args} {sender : Env}
    (hsender : k.registry.env? caller = some sender) (hcalls : k.Calls caller number args event) :
    Realm.Traces (k.step event).realm.memory.machine.pool event.laid (k.Granted event) k.realm
      (k.step event).realm := by
  rw [laid_of_calls hcalls]
  obtain ⟨frame, hnumber, hargs, realm, hrealm, hstep, -⟩ := step_of_calls hsender hcalls
  have hserve := traces_serve { k with realm } caller { sender with frame }
  rw [← hstep, hnumber, hargs] at hserve
  intro i env' p e hi he
  obtain ⟨env, henv, hid, hcases⟩ := hserve i env' p e hi he
  rcases hrealm with ⟨rfl, -⟩ | rfl
  · refine ⟨env, henv, hid, hcases.imp_right fun h => h.imp_right fun hgrants => ?_⟩
    exact ⟨caller, number, args, hgrants.choose, hcalls, hgrants.choose_spec⟩
  · change (k.realm.modifyEnv caller _).registry.env? i = some env at henv
    rw [Realm.env?_modifyEnv] at henv
    obtain ⟨o, ho, hsameId, htable, hkind, hmailbox⟩ : ∃ o, k.registry.env? i = some o ∧
        env.id = o.id ∧ env.table = o.table ∧ env.kind = o.kind ∧ env.mailbox = o.mailbox := by
      split at henv
      · obtain ⟨o, ho, rfl⟩ := Option.map_eq_some_iff.mp henv
        exact ⟨o, ho, rfl, rfl, rfl, rfl⟩
      · exact ⟨env, henv, rfl, rfl, rfl, rfl⟩
    rw [htable] at hcases
    refine ⟨o, ho, hsameId.symm.trans hid, hcases.imp_right fun h => h.imp_right ?_⟩
    rintro ⟨call, hcall, hgrants⟩
    exact ⟨caller, number, args, call, hcalls, hcall, hgrants.of_loadCall htable hkind hmailbox⟩

theorem traces_fault {laid : PageTable → List ((PhysAddr × Nat) × UInt8)}
    {grants : Nat → Env → VirtPage → PageEntry → Prop} {index : Nat} {env : Env}
    (henv : k.registry.env? index = some env) (va : Word) (write : Bool) {after : Realm}
    (hbytes : (tryResolve k.realm index env va write).2.memory.machine.pool.SameBytes
      after.memory.machine.pool)
    (hafter : Realm.Trims (tryResolve k.realm index env va write).2 after) :
    Realm.Traces after.memory.machine.pool laid grants k.realm after := by
  have hresolved : Realm.Traces after.memory.machine.pool laid grants k.realm
      (tryResolve k.realm index env va write).2 := by
    rcases tryResolve_cases k.realm index env va write with hsame | ⟨address, -, hresolve⟩
    · rw [hsame]
      exact (Realm.Trims.refl _).traces
    · rw [hresolve] at hbytes ⊢
      exact Realm.traces_onSpace_of_furnished henv
        (Space.keeps_resolveFault (Space.keeps_furnished_populate _ _) write _ (.refl _)) hbytes
  exact hresolved.trims hafter

theorem traces_step (k : Kernel) (event : Event) :
    Realm.Traces (k.step event).realm.memory.machine.pool event.laid (k.Granted event) k.realm
      (k.step event).realm := by
  cases k.happens event with
  | turn current hstep =>
      rw [hstep]
      exact Realm.Trims.traces (Realm.Trims.refl k.realm)
  | birth hallocate hlog =>
      exact (Realm.traces_allocate hallocate).trims ((Realm.Trims.refl _).of_sameButLog hlog)
  | call hcalls hsender => exact traces_of_calls hsender hcalls
  | @fault va write index env after current henv hafter hstep =>
      rw [hstep]
      rcases hafter with rfl | ⟨entry, rfl⟩ | ⟨noted, hlog, rfl⟩
      · exact traces_fault henv va write (.refl _) (.refl _)
      · exact traces_fault henv va write (.refl _) (Realm.trims_modifyEnv _ _ fun _ => ⟨rfl, rfl⟩)
      · have hbytes := Realm.sameBytes_endEnv noted index (some env.id) k.config.traceEnvs
        rw [hlog.pool_eq] at hbytes
        have htrims := (Realm.Trims.refl _).of_sameButLog hlog
        exact traces_fault henv va write hbytes (htrims.trans (Realm.trims_endEnv _ _ _ _))
  | read henv hstep =>
      rw [hstep]
      exact Realm.traces_onSpace_of_furnished henv
        (Space.keeps_readBytes (Space.keeps_furnished_populate _) _ _ _ (.refl _)) (.refl _)
  | write henv hstep =>
      rw [hstep]
      exact Realm.traces_onSpace_of_furnished henv (Space.furnished_writeBytes _ _ _) (.refl _)

end Exokernel.Kernel
