import Exokernel.Proofs.Kernel.Devices
import Exokernel.Proofs.Kernel.Endings
import Exokernel.Proofs.Kernel.Faults
import Exokernel.Proofs.Kernel.Printing
import Exokernel.Proofs.Service.Transcript

/-! # Calls that print

A call to print that is answered with zero has put on the console what its caller saw of the text
before it, and nobody sees any of it in memory.  A caller that names what it may not read ends, all
that it alone held goes back, and the next one has its turn. -/

namespace Exokernel.Kernel

variable {k k₀ : Kernel} {caller : Nat} {env : Env}

/-- What a call of an environment to print some text should come to, given what it is answered with
and the kernel after it. -/
structure PrintsExactly (k : Kernel) (caller : Nat) (env : Env) (start length : Word)
    (answer : Option Int64) (k' : Kernel) : Prop where
  /-- The answer is zero if the text is accepted and there are enough frames for its pages. -/
  zero_iff : answer = some 0 ↔ env.table.accepts start length false = true ∧
    env.table.lazyTouched start.toNat length.toNat ≤ k.realm.memory.machine.freeFrames
  printed : answer = some 0 → ∃ bytes : List UInt8,
    bytes.map some = (List.range' start.toNat length.toNat).map (k.realm.view caller) ∧
      k'.output = k.output ++ bytes ∧ k.realm.SameSight k'.realm
  refused : env.table.accepts start length false = false → answer = none ∧ k'.output = k.output ∧
    k.Ends caller env k'.realm ∧ k.realm.GivesBack caller env k'.realm

/-! ## Accepted text -/

/-- Once a caller that is not dying has read from its space, all that is left to do for its call
goes unnoticed. -/
theorem sameSight_serve (henv : k.registry.env? caller = some env) (hstatus : env.status ≠ .dying)
    {table : PageTable} (hread : Realm.Read caller env table k.realm (k.outcome caller env).realm)
    {w : Int64} (hword : resultWord? (k.outcome caller env).result = some w) :
    k.realm.SameSight (k.serve caller env).2.realm := by
  obtain ⟨noted, hnoted, hsettled⟩ := k.settled_eq caller env
  have hcaller : noted.registry.env? caller = some { env with table } := by
    rw [hnoted.registry_eq, hread.env_eq]
  rw [hword, settle_of_ne_dying hcaller hstatus] at hsettled
  have hsight : k.realm.SameSight (k.settled caller env) := by
    rw [hsettled]
    exact (hread.sameSight henv).trans (hnoted.sameSight.trans
      (Realm.sameSight_modifyEnv noted caller fun _ => ⟨rfl, rfl⟩))
  rw [snd_serve]
  split
  · exact ⟨hsight.id_eq, hsight.view_eq⟩
  · exact hsight

theorem printed_of_serve (henv : k.registry.env? caller = some env) (hstatus : env.status ≠ .dying)
    (hgrounded : Space.Grounded (k.registry.tablesBut [caller]) ⟨k.realm.memory, env.table⟩)
    (hcall : Syscall.ofNumber? env.frame.callNumber.toNat = some .cputs)
    (hcheck : env.table.accepts env.frame.callArgs.arg0 env.frame.callArgs.arg1 false = true)
    (henough : env.table.lazyTouched env.frame.callArgs.arg0.toNat env.frame.callArgs.arg1.toNat ≤
      k.realm.memory.machine.freeFrames) :
    ∃ bytes : List UInt8, bytes.map some =
        (List.range' env.frame.callArgs.arg0.toNat env.frame.callArgs.arg1.toNat).map
          (k.realm.view caller) ∧
      (k.serve caller env).2.output = k.output ++ bytes ∧
      k.realm.SameSight (k.serve caller env).2.realm := by
  obtain ⟨-, t, ht, -⟩ := (Service.cputs_outcome ⟨caller, k.config⟩ henv hgrounded.backed hcheck).1
    henough
  obtain ⟨-, bytes, table, hread, hconsole, hseen⟩ :=
    Service.printed_of_cputs ⟨caller, k.config⟩ henv hgrounded ht
  have houtcome : k.outcome caller env = _ := outcome_cputs hcall
  rw [ht] at houtcome
  refine ⟨bytes, hseen, ?_, ?_⟩
  · rw [output_serve, houtcome]
    simp only [hconsole, Console.write, Array.toList_appendList]
    rfl
  · have hdone : Realm.Read caller env table k.realm (k.outcome caller env).realm := by
      rw [houtcome]
      exact hread
    refine sameSight_serve henv hstatus hdone (w := 0) ?_
    rw [houtcome]
    rfl

/-! ## Refused text -/

theorem serve_of_not_accepts (henv : k.registry.env? caller = some env)
    (hcall : Syscall.ofNumber? env.frame.callNumber.toNat = some .cputs)
    (hcheck : env.table.accepts env.frame.callArgs.arg0 env.frame.callArgs.arg1 false = false) :
    ∃ ending : Realm,
      (k.realm.modifyEnv caller fun env => { env with status := .dying }).SameButLog ending ∧
      k.serve caller env = (none, { k with
        realm := (ending.endEnv caller (some env.id) k.config.traceEnvs).2 }.scheduleFrom
          (some caller)) := by
  obtain ⟨t, ht, hlog⟩ := Service.cputs_of_not_accepts ⟨caller, k.config⟩ henv hcheck
  have houtcome : k.outcome caller env = _ := outcome_cputs hcall
  rw [ht] at houtcome
  obtain ⟨ending, hnoted, hsettled⟩ := k.settled_eq caller env
  rw [houtcome] at hnoted hsettled
  have hdying : ending.registry.env? caller = some { env with status := .dying } := by
    rw [hnoted.registry_eq, hlog.registry_eq, Realm.env?_modifyEnv, if_pos rfl,
      show k.realm.registry.env? caller = some env from henv]
    rfl
  rw [show resultWord? (.error .envExit) = none from rfl, settle_of_dying hdying rfl] at hsettled
  have hidle : (k.settled caller env).registry.isRunnable caller = false := by
    rw [hsettled, Registry.isRunnable, (Realm.vacated_of_endEnv hdying _ _).1]
    rfl
  refine ⟨ending, hlog.trans hnoted, Prod.ext ?_ ?_⟩
  · change resultWord? (k.outcome caller env).result = none
    rw [houtcome]
    rfl
  · rw [snd_serve, hidle, Bool.not_false, Bool.or_true, if_pos rfl, hsettled]

/-- The environment that had the turn ends, all that it alone held goes back, and another one has
its turn.  Its registers and its status do not matter, nor does the log. -/
theorem gone_of_endEnv (hcapacity : k.registry.capacity ≤ Exokernel.maxEnvs)
    (hslots : ∀ i slot, k.registry.slot? i = some slot → slot.Orderly i)
    (hacc : Accounting k.realm.memory k.registry.tables) (hcurrent : k.registry.current = some caller)
    (henv : k.registry.env? caller = some env) {f : Env → Env} (hf : ∀ env, (f env).table = env.table)
    {ending : Realm} (hlog : (k.realm.modifyEnv caller f).SameButLog ending) (actor : Option EnvId)
    (trace : Bool) :
    k.Ends caller env
        ({ k with realm := (ending.endEnv caller actor trace).2 }.scheduleFrom (some caller)).realm ∧
      k.realm.GivesBack caller env
        ({ k with realm := (ending.endEnv caller actor trace).2 }.scheduleFrom (some caller)).realm := by
  have hlast : ending.registry.env? caller = some (f env) := by
    rw [hlog.registry_eq, Realm.env?_modifyEnv, if_pos rfl,
      show k.realm.registry.env? caller = some env from henv]
    rfl
  have hbooked : Realm.InBalance _ ending :=
    books_owing.of_sameButLog (Realm.InBalance.modifyEnv hacc.balanced caller hf) hlog
  constructor
  · refine ends_of_endEnv hcapacity hslots henv ?_ hlast (fun i hi => ?_) hlog.pool_eq actor trace
    · rw [hlog.registry_eq]
      exact hcurrent
    · rw [hlog.registry_eq]
      exact (Registry.slot?_modify _ _ _ _).trans (if_neg (Ne.symm hi))
  · have hgives := Realm.givesBack_endEnv hbooked.accounting hlast actor trace
    exact ((hgives.of_sameButLog hlog).of_modifyEnv (hf env)).setCurrent _

/-! ## The call -/

/-- From a fresh kernel on a machine that has what it claims, in every state that events lead to and
in which all frames are accounted for, and with any registers of the current environment: a call to
print comes to what it should come to. -/
theorem printsExactly_of_runs {config : Config} {frames : Nat} {windows : List (Nat × Nat)} {log : Log}
    {scheduler : Scheduler}
    (hboot : boot config (freshMachine frames windows 0 [] log) scheduler = .ok k₀)
    (hrun : Runs (fun _ _ => True) k₀ k) (hacc : Accounting k.realm.memory k.registry.tables)
    (hcurrent : k.registry.current = some caller) (henv : k.registry.env? caller = some env)
    (frame : TrapFrame) (hcall : Syscall.ofNumber? frame.callNumber.toNat = some .cputs) :
    k.PrintsExactly caller env frame.callArgs.arg0 frame.callArgs.arg1
      (k.withFrame caller frame).trap.1 (k.withFrame caller frame).trap.2 := by
  obtain ⟨hcapacity, hslots⟩ := slots_of_runs hboot hrun
  obtain ⟨generation, hslot⟩ := Registry.slot?_of_env? henv
  have hstatus : env.status ≠ .dying := ((hslots caller _ hslot).calm env rfl).ne_dying
  have hloaded := env?_withFrame henv frame
  have hgrounded : Space.Grounded ((k.withFrame caller frame).registry.tablesBut [caller])
      ⟨(k.withFrame caller frame).realm.memory, env.table⟩ := by
    rw [show (k.withFrame caller frame).registry.tablesBut [caller] = k.registry.tablesBut [caller] from
      Registry.tablesBut_modify (List.mem_singleton_self caller)]
    exact grounded_of_runs hboot hrun hacc henv
  have hsight : k.realm.SameSight (k.withFrame caller frame).realm :=
    Realm.sameSight_modifyEnv k.realm caller fun _ => ⟨rfl, rfl⟩
  rw [trap_eq (k := k.withFrame caller frame) hcurrent hloaded]
  obtain ⟨text, htext, hprints⟩ := prints_serve hloaded hgrounded.backed hcall
  refine ⟨hprints.eq_zero_iff, fun hanswer => ?_, fun hcheck => ?_⟩
  · obtain ⟨hcheck, henough⟩ := hprints.eq_zero_iff.mp hanswer
    obtain ⟨bytes, hseen, houtput, hsame⟩ :=
      printed_of_serve hloaded hstatus hgrounded hcall hcheck henough
    refine ⟨bytes, ?_, houtput, hsight.trans hsame⟩
    rw [hseen, funext (hsight.view_eq caller)]
  · obtain ⟨hanswer, rfl⟩ := hprints.of_not_accepts hcheck
    rw [List.append_nil] at htext
    obtain ⟨ending, hlog, hserve⟩ := serve_of_not_accepts hloaded hcall hcheck
    rw [withFrame, Realm.modifyEnv_modifyEnv] at hlog
    have hgone := gone_of_endEnv (f := fun env => { env with frame, status := .dying }) hcapacity hslots
      hacc hcurrent henv (fun _ => rfl) hlog (some env.id) k.config.traceEnvs
    refine ⟨hanswer, htext, ?_⟩
    rw [hserve]
    exact hgone

/-- Its first environment has a page with a frame and behind it a page without one; a second one
waits for its turn. -/
def neighbourKernel : Kernel := twoPageKernel.after [.createEnv .user none]

theorem inBalance_neighbourKernel : Realm.InBalance (fun _ => False) neighbourKernel.realm := by
  simp only [neighbourKernel, twoPageKernel, busyKernel, after_cons, after_nil]
  refine inBalance_step (inBalance_step (inBalance_step (inBalance_step (inBalance_step
    (inBalance_boot boot_exactKernel) ?_) ?_) ?_) ?_) ?_
  · exact not_copiesWithin_of_not_calls fun _ _ _ => id
  · exact not_copiesWithin_of_not_calls fun _ _ _ => id
  · exact not_copiesWithin_of_ne (by decide)
  · exact not_copiesWithin_of_ne (by decide)
  · exact not_copiesWithin_of_not_calls fun _ _ _ => id

def tooLongFrame : TrapFrame := TrapFrame.zero.loadCall 0 ⟨0x2f00, 512, 0, 0, 0, 0⟩

/-- The end of one page and the beginning of the other are printed; what lies beyond is refused. -/
theorem printsExactly_neighbours :
    boot ⟨4, false, false, none⟩ exactMachine .roundRobin = .ok exactKernel ∧
    Runs (fun _ _ => True) exactKernel neighbourKernel ∧
    Accounting neighbourKernel.realm.memory neighbourKernel.registry.tables ∧
    ∃ env, neighbourKernel.registry.env? 0 = some env ∧
      (neighbourKernel.withFrame 0 longFrame).trap.1 = some 0 ∧
      neighbourKernel.PrintsExactly 0 env 0x1f00 512 (neighbourKernel.withFrame 0 longFrame).trap.1
        (neighbourKernel.withFrame 0 longFrame).trap.2 ∧
      env.table.accepts 0x2f00 512 false = false ∧
      neighbourKernel.PrintsExactly 0 env 0x2f00 512 (neighbourKernel.withFrame 0 tooLongFrame).trap.1
        (neighbourKernel.withFrame 0 tooLongFrame).trap.2 := by
  have hrun : Runs (fun _ _ => True) exactKernel neighbourKernel := runs_after runs_twoPageKernel _
  have hacc := inBalance_neighbourKernel.accounting
  have hcurrent : neighbourKernel.registry.current = some 0 := by decide +kernel
  have hbeyond : (neighbourKernel.registry.env? 0).any
      (fun env => !env.table.accepts 0x2f00 512 false) = true := by decide +kernel
  obtain ⟨env, henv, hbeyond⟩ := (Option.any_eq_true _ _).mp hbeyond
  have hprints := printsExactly_of_runs boot_exactKernel hrun hacc hcurrent henv
  refine ⟨boot_exactKernel, hrun, hacc, env, henv, by decide +kernel, ?_, ?_, ?_⟩
  · exact hprints longFrame (by decide)
  · exact (Bool.not_eq_true' _).mp hbeyond
  · exact hprints tooLongFrame (by decide)

end Exokernel.Kernel
