import Exokernel.Proofs.Kernel.Order
import Exokernel.Proofs.Memory.Windows
import Exokernel.Proofs.Realm.Machines
import Exokernel.Proofs.Service.Refusals

/-! # Refused calls change nothing

Started on a machine that has the frames that it claims and reaches them all, the kernel keeps such
a machine.  A call that is then answered with a negative word has changed the register for the
answer and the log, and nothing else. -/

namespace Exokernel.Kernel

variable {k k₀ : Kernel} {caller : Nat}

/-! ## The machine -/

theorem kept_on {P : Machine → Prop} (hP : Machine.Lasting P) : Kept (Realm.On P) where
  log hlog h := h.of_sameButLog hP hlog
  turn _ h := h
  frame _ _ h := h
  ended index actor trace h := Realm.lasting_endEnv hP index actor trace h
  born _ h := h
  fault p write _ h :=
    Realm.lasting_onSpace _ _ (Space.keeps_resolveFault (Space.lasting_populate hP p) write) h
  read start length _ h :=
    Realm.lasting_onSpace _ _ (Space.keeps_readBytes (Space.lasting_populate hP) start length) h
  write start bytes _ h := by
    apply Realm.lasting_onSpace _ _ _ h
    exact Space.keeps_writeBytes (Space.lasting_populate hP) (fun u pa f hu => hP.update _ pa f hu)
      start bytes

/-- What outlasts every request on the machine outlasts every event. -/
theorem lasting_step {P : Machine → Prop} (hP : Machine.Lasting P) (hk : k.realm.On P)
    (event : Event) : (k.step event).realm.On P := by
  apply (kept_on hP).step hk
  intro caller number args s call t _ _ _ hs heffect
  exact heffect.lasting hP hs

theorem lasting_of_runs {P : Machine → Prop} (hP : Machine.Lasting P) {config : Config}
    {machine : Machine} {scheduler : Scheduler} (hboot : boot config machine scheduler = .ok k₀)
    (hmachine : P machine) (hrun : Runs (fun _ _ => True) k₀ k) : k.realm.On P := by
  refine hrun.invariant (I := fun k => k.realm.On P) ?_ ?_
  · rw [boot] at hboot
    split at hboot
    · cases hboot
    · cases hboot
      exact hP.relog machine _ hmachine
  · exact fun _ event hk _ => lasting_step hP hk event

theorem reliable_of_runs {config : Config} {frames : Nat} {windows : List (Nat × Nat)} {log : Log}
    {scheduler : Scheduler}
    (hboot : boot config (freshMachine frames windows 0 [] log) scheduler = .ok k₀)
    (hrun : Runs (fun _ _ => True) k₀ k) : k.realm.memory.machine.Reliable :=
  lasting_of_runs Machine.lasting_reliable hboot (Machine.reliable_fresh frames windows log) hrun

/-- The free list stays in order. -/
theorem consistent_of_runs {config : Config} {frames : Nat} {windows : List (Nat × Nat)}
    {overclaim : Nat} {hidden : List PhysAddr} {log : Log} {scheduler : Scheduler}
    (hboot : boot config (freshMachine frames windows overclaim hidden log) scheduler = .ok k₀)
    (hrun : Runs (fun _ _ => True) k₀ k) : k.realm.memory.machine.pool.Consistent :=
  lasting_of_runs Machine.lasting_consistent hboot
    (FramePool.consistent_fresh frames windows) hrun

theorem windowsApart_of_runs {config : Config} {frames : Nat} {windows : List (Nat × Nat)}
    {overclaim : Nat} {hidden : List PhysAddr} {log : Log} {scheduler : Scheduler}
    (hboot : boot config (freshMachine frames windows overclaim hidden log) scheduler = .ok k₀)
    (hrun : Runs (fun _ _ => True) k₀ k) : k.realm.memory.machine.pool.WindowsApart :=
  lasting_of_runs Machine.lasting_windowsApart hboot
    (FramePool.windowsApart_fresh frames windows) hrun

/-! ## The answer -/

/-- The kernel with other registers of the environment in a slot. -/
def withFrame (k : Kernel) (index : Nat) (frame : TrapFrame) : Kernel :=
  { k with realm := k.realm.modifyEnv index fun env => { env with frame } }

theorem env?_withFrame {index : Nat} {env : Env} (henv : k.registry.env? index = some env)
    (frame : TrapFrame) : (k.withFrame index frame).registry.env? index = some { env with frame } := by
  refine (Realm.env?_modifyEnv _ _ _ _).trans ?_
  rw [if_pos rfl, show k.realm.registry.env? index = some env from henv]
  rfl

def withLog (k : Kernel) (log : Log) : Kernel :=
  { k with realm.memory.machine.log := log }

def withResult (k : Kernel) (index : Nat) (w : Int64) : Kernel :=
  { k with realm := k.realm.modifyEnv index fun env => { env with frame := env.frame.setResult w } }

theorem withResult_withFrame (k : Kernel) (index : Nat) (frame : TrapFrame) (w : Int64) :
    (k.withFrame index frame).withResult index w = k.withFrame index (frame.setResult w) := by
  rw [withFrame, withResult]
  simp only [Realm.modifyEnv_modifyEnv]
  rfl

theorem eq_withLog {realm : Realm} (h : k.realm.SameButLog realm) :
    { k with realm } = k.withLog realm.memory.machine.log := by
  obtain ⟨registry, ⟨machine, refs⟩, console⟩ := realm
  have hmachine : machine = _ := h.machine_eq
  cases h.registry_eq
  cases h.refs_eq
  cases h.console_eq
  rw [hmachine]
  rfl

/-- If its work has changed nothing, a call whose caller may run changes the result word and the
log. -/
theorem serve_of_unchanged {env : Env} {w : Int64} (henv : k.registry.env? caller = some env)
    (hruns : env.status = .runnable)
    (hword : resultWord? (k.outcome caller env).result = some w)
    (hrealm : (k.outcome caller env).realm = k.realm)
    (hyields : (k.outcome caller env).yields = false) :
    ∃ log, (k.serve caller env).2 = (k.withResult caller w).withLog log := by
  obtain ⟨noted, hnoted, hsettled⟩ := k.settled_eq caller env
  rw [hrealm] at hnoted
  have henv' : noted.registry.env? caller = some env := by
    rw [hnoted.registry_eq]
    exact henv
  have hstatus : env.status ≠ .dying := by
    rw [hruns]
    decide
  rw [hword, settle_of_ne_dying henv' hstatus] at hsettled
  have hstays : (k.settled caller env).registry.isRunnable caller = true := by
    rw [hsettled, Registry.isRunnable, Realm.env?_modifyEnv, if_pos rfl, henv', Option.map_some,
      Option.any_some, Env.isRunnable, hruns]
    rfl
  refine ⟨noted.memory.machine.log, ?_⟩
  rw [snd_serve, hyields, hstays, hsettled]
  exact congrArg (fun k' : Kernel => k'.withResult caller w) (eq_withLog hnoted)

theorem trap_of_negative (hreliable : k.realm.memory.machine.Reliable) {env : Env}
    (hcurrent : k.registry.current = some caller) (henv : k.registry.env? caller = some env)
    (hruns : env.status = .runnable)
    (hcall : Syscall.ofNumber? env.frame.callNumber.toNat ≠ some .cputs) {w : Int64}
    (hanswer : k.trap.1 = some w) (hneg : w < 0) :
    ∃ log, k.trap.2 = (k.withResult caller w).withLog log := by
  rw [trap_eq hcurrent henv] at hanswer ⊢
  obtain ⟨hrealm, hyields⟩ := Service.unchanged_of_negative ⟨caller, k.config⟩ env.frame.callArgs
    hreliable hcall hanswer hneg
  exact serve_of_unchanged henv hruns hanswer hrealm hyields

/-- From a fresh kernel on a machine that has what it claims, in every state that events lead to and
with any registers of the current environment: if its call, other than one that writes text, is
answered with a negative word, then that word is in its register for the answer, and all else but
the log is as before. -/
theorem unchanged_of_refused {config : Config} {frames : Nat} {windows : List (Nat × Nat)} {log : Log}
    (hboot : boot config (freshMachine frames windows 0 [] log) .roundRobin = .ok k₀)
    (hrun : Runs (fun _ _ => True) k₀ k) (hcurrent : k.registry.current = some caller)
    (frame : TrapFrame) (hcall : Syscall.ofNumber? frame.callNumber.toNat ≠ some .cputs) {w : Int64}
    (hanswer : (k.withFrame caller frame).trap.1 = some w) (hneg : w < 0) :
    ∃ log', (k.withFrame caller frame).trap.2 =
      (k.withFrame caller (frame.setResult w)).withLog log' := by
  have horderly := orderly_of_runs hboot hrun
  have hreliable := reliable_of_runs hboot hrun
  obtain ⟨env, henv, hruns⟩ := (Option.any_eq_true _ _).mp (horderly.current caller hcurrent)
  have hloaded := env?_withFrame henv frame
  obtain ⟨log', hstep⟩ := trap_of_negative (k := k.withFrame caller frame) hreliable hcurrent hloaded
    (beq_iff_eq.mp hruns) hcall hanswer hneg
  rw [withResult_withFrame] at hstep
  exact ⟨log', hstep⟩

/-- A machine of eight frames that claims and reaches just these. -/
def exactMachine : Machine := freshMachine 8 [] 0 [] (.withFilter none)

def exactKernel : Kernel :=
  let machine := { exactMachine with log := .withFilter none }
  ⟨⟨4, false, false, none⟩, .roundRobin,
    .ofMachine 4 (machine.note .info "boot" s!"axon: {(4 : Nat)} env slots")⟩

theorem boot_exactKernel :
    boot ⟨4, false, false, none⟩ exactMachine .roundRobin = .ok exactKernel := by
  have hconfig : Config.problem? ⟨4, false, false, none⟩ = none := by decide
  rw [boot]
  rw [hconfig]
  rfl

def busyKernel : Kernel := exactKernel.after [.createEnv .user none, .run ⟨1024⟩]

/-- The registers of a call for eight fresh pages. -/
def greedyFrame : TrapFrame := TrapFrame.zero.loadCall 4 ⟨0, 0x1000, 0x8000, 6, 0, 0⟩

/-- Eight pages and their leaf table are one frame too many. -/
theorem unchanged_of_refused_greedy :
    boot ⟨4, false, false, none⟩ exactMachine .roundRobin = .ok exactKernel ∧
    Runs (fun _ _ => True) exactKernel busyKernel ∧
    (busyKernel.withFrame 0 greedyFrame).trap.1 = some ErrorCode.noMemory.word ∧
    ∃ log', (busyKernel.withFrame 0 greedyFrame).trap.2 =
      (busyKernel.withFrame 0 (greedyFrame.setResult ErrorCode.noMemory.word)).withLog log' := by
  have hrun : Runs (fun _ _ => True) exactKernel busyKernel := runs_after .start _
  have hcurrent : busyKernel.registry.current = some 0 := by decide +kernel
  have hanswer : (busyKernel.withFrame 0 greedyFrame).trap.1 = some ErrorCode.noMemory.word := by
    decide +kernel
  refine ⟨boot_exactKernel, hrun, hanswer, ?_⟩
  exact unchanged_of_refused boot_exactKernel hrun hcurrent greedyFrame (by decide +kernel) hanswer
    (by decide)

end Exokernel.Kernel
