import Exokernel.Proofs.Kernel.Backing
import Exokernel.Proofs.Service.Printing

/-! # Refused calls that print

A call to print is refused only for want of memory, and only when the chunk whose turn it is touches
more pages without a frame than there are free frames.  The chunks before it are on the console by
then, so such a call has printed nothing exactly if it is the first chunk that fails. -/

namespace Exokernel

open Service (chunkSize)

namespace Kernel

variable {k k₀ : Kernel} {caller : Nat} {env : Env}

def output (k : Kernel) : List UInt8 := k.realm.console.output.toList

theorem console_settle (s : Realm) (config : Config) (caller : Nat) (id : EnvId)
    (word : Option Int64) : (settle s config caller id word).console = s.console := by
  obtain ⟨t, ht, hsettle⟩ := settle_cases s config caller id word
  have hworded : t.console = s.console := by
    rcases ht with rfl | ⟨w, rfl⟩
    · rfl
    · rfl
  rcases hsettle with heq | heq
  · rw [heq, hworded]
  · rw [heq]
    rcases t.endEnv_cases caller (some id) config.traceEnvs with ⟨-, hsame⟩ | ⟨_, _, -, hlog⟩
    · rw [hsame, hworded]
    · rw [hlog.console_eq]
      exact hworded

theorem output_serve (k : Kernel) (caller : Nat) (env : Env) :
    (k.serve caller env).2.output = (k.outcome caller env).realm.console.output.toList := by
  have hsettled : (k.settled caller env).console = (k.outcome caller env).realm.console := by
    obtain ⟨noted, hnoted, hsettled⟩ := k.settled_eq caller env
    rw [hsettled, console_settle, hnoted.console_eq]
  rw [← hsettled, snd_serve]
  split <;> rfl

/-- What a call to print answers and what it prints, from the page table of its caller, the text
that it names and the number of free frames. -/
inductive Prints (t : PageTable) (start length : Word) (free : ℕ) : Option Int64 → List UInt8 → Prop where
  /-- A caller that names what it may not read is not answered, and nothing is printed. -/
  | refused (hcheck : t.accepts start length false = false) : Prints t start length free none []
  /-- With enough frames all of the text is printed. -/
  | done {bytes} (hcheck : t.accepts start length false = true)
      (henough : t.lazyTouched start.toNat length.toNat ≤ free)
      (hlength : bytes.length = length.toNat) : Prints t start length free (some 0) bytes
  /-- With too few frames the chunks are printed whose pages can be given their frames. -/
  | stuck {bytes} (j : ℕ) (hcheck : t.accepts start length false = true)
      (hinside : chunkSize * j < length.toNat) (hlength : bytes.length = chunkSize * j)
      (hlower : t.lazyTouched start.toNat (chunkSize * j) ≤ free)
      (hupper : free < t.lazyTouched start.toNat (min length.toNat (chunkSize * (j + 1)))) :
      Prints t start length free (some ErrorCode.noMemory.word) bytes

/-- Whether a refused call has printed anything is settled by its first chunk. -/
theorem Prints.eq_nil_iff {t : PageTable} {start length : Word} {free : ℕ} {answer : Option Int64}
    {bytes : List UInt8} (h : Prints t start length free answer bytes) {w : Int64}
    (hanswer : answer = some w) (hneg : w < 0) :
    bytes = [] ↔ free < t.lazyTouched start.toNat (min length.toNat chunkSize) := by
  cases h with
  | refused => cases hanswer
  | done =>
      cases hanswer
      exact absurd hneg (by decide)
  | stuck j _ hinside hlength hlower hupper =>
      rw [← List.length_eq_zero_iff, hlength]
      constructor
      · intro hzero
        obtain rfl : j = 0 := by
          simp only [chunkSize] at hzero
          omega
        simpa using hupper
      · intro hfirst
        by_contra hj
        have hle : min length.toNat chunkSize ≤ chunkSize * j := by
          simp only [chunkSize] at *
          omega
        have hmono := t.lazyTouched_mono start.toNat hle
        omega

theorem Prints.eq_zero_iff {t : PageTable} {start length : Word} {free : ℕ} {answer : Option Int64}
    {bytes : List UInt8} (h : Prints t start length free answer bytes) :
    answer = some 0 ↔
      t.accepts start length false = true ∧ t.lazyTouched start.toNat length.toNat ≤ free := by
  cases h with
  | refused hcheck => simp [hcheck]
  | done hcheck henough => simp [hcheck, henough]
  | stuck j hcheck _ _ _ hupper =>
      have hmono := t.lazyTouched_mono start.toNat
        (Nat.min_le_left length.toNat (chunkSize * (j + 1)))
      refine iff_of_false (fun hzero => absurd (Option.some.inj hzero) (by decide)) ?_
      rintro ⟨-, henough⟩
      omega

theorem Prints.of_not_accepts {t : PageTable} {start length : Word} {free : ℕ} {answer : Option Int64}
    {bytes : List UInt8} (h : Prints t start length free answer bytes)
    (hcheck : t.accepts start length false = false) : answer = none ∧ bytes = [] := by
  cases h with
  | refused => exact ⟨rfl, rfl⟩
  | done haccepts =>
      rw [hcheck] at haccepts
      cases haccepts
  | stuck _ haccepts =>
      rw [hcheck] at haccepts
      cases haccepts

theorem outcome_cputs (hcall : Syscall.ofNumber? env.frame.callNumber.toNat = some .cputs) :
    k.outcome caller env =
      match Service.cputs ⟨caller, k.config⟩ env.frame.callArgs k.realm with
      | .ok reply s => ⟨.ok reply.value, reply.yields, s⟩
      | .error e s => ⟨.error e, false, s⟩ := by
  simp only [outcome, ServiceTable.answer, ServiceTable.dispatch, hcall, Option.bind_some]
  rfl

theorem prints_serve (henv : k.registry.env? caller = some env)
    (hbacked : Space.Backed ⟨k.realm.memory, env.table⟩)
    (hcall : Syscall.ofNumber? env.frame.callNumber.toNat = some .cputs) :
    ∃ bytes, (k.serve caller env).2.output = k.output ++ bytes ∧
      Prints env.table env.frame.callArgs.arg0 env.frame.callArgs.arg1
        k.realm.memory.machine.freeFrames (k.serve caller env).1 bytes := by
  have hanswer : (k.serve caller env).1 = resultWord? (k.outcome caller env).result := rfl
  have houtput : ∀ {bytes : List UInt8} {t : Realm}, t.console = k.realm.console.write bytes →
      t.console.output.toList = k.output ++ bytes := by
    intro bytes t ht
    rw [ht, Console.write, Array.toList_appendList]
    rfl
  rw [output_serve, hanswer, outcome_cputs hcall]
  cases hcheck : env.table.accepts env.frame.callArgs.arg0 env.frame.callArgs.arg1 false with
  | false =>
      obtain ⟨t, ht, hlog⟩ := Service.cputs_of_not_accepts ⟨caller, k.config⟩ henv hcheck
      rw [ht]
      exact ⟨[], houtput (hlog.console_eq.trans (Console.write_nil _).symm), .refused hcheck⟩
  | true =>
      obtain ⟨hdone, hstuck⟩ :=
        Service.cputs_outcome ⟨caller, k.config⟩ henv hbacked hcheck
      rcases Nat.lt_or_ge k.realm.memory.machine.freeFrames (env.table.lazyTouched
        env.frame.callArgs.arg0.toNat env.frame.callArgs.arg1.toNat) with hfew | henough
      · obtain ⟨j, bytes, t, ht, hinside, hlength, hconsole, hlower, hupper⟩ := hstuck hfew
        rw [ht]
        exact ⟨bytes, houtput hconsole, .stuck j hcheck hinside hlength hlower hupper⟩
      · obtain ⟨bytes, t, ht, hlength, hconsole⟩ := hdone henough
        rw [ht]
        exact ⟨bytes, houtput hconsole, .done hcheck henough hlength⟩

/-- From a fresh kernel on a machine that has what it claims, in every state that events lead to and
with any registers of the current environment: a call to print is refused only for want of memory,
once whole chunks of its text are on the console; and a refused call has left the console as it was
exactly if its first chunk touches more pages without a frame than there are free frames. -/
theorem prints_of_runs {config : Config} {frames : Nat} {windows : List (Nat × Nat)} {log : Log}
    {scheduler : Scheduler}
    (hboot : boot config (freshMachine frames windows 0 [] log) scheduler = .ok k₀)
    (hrun : Runs (fun _ _ => True) k₀ k) (hcurrent : k.registry.current = some caller)
    (henv : k.registry.env? caller = some env) (frame : TrapFrame)
    (hcall : Syscall.ofNumber? frame.callNumber.toNat = some .cputs) :
    (∃ bytes, (k.withFrame caller frame).trap.2.output = k.output ++ bytes ∧
      Prints env.table frame.callArgs.arg0 frame.callArgs.arg1 k.realm.memory.machine.freeFrames
        (k.withFrame caller frame).trap.1 bytes) ∧
    ∀ w, (k.withFrame caller frame).trap.1 = some w → w < 0 →
      ((k.withFrame caller frame).trap.2.output = k.output ↔
        k.realm.memory.machine.freeFrames <
          env.table.lazyTouched frame.callArgs.arg0.toNat (min frame.callArgs.arg1.toNat chunkSize)) := by
  have hloaded := env?_withFrame henv frame
  have htrap := trap_eq (k := k.withFrame caller frame) hcurrent hloaded
  have hbacked : Space.Backed ⟨(k.withFrame caller frame).realm.memory, env.table⟩ :=
    backed_of_runs hboot hrun henv
  obtain ⟨bytes, houtput, hprints⟩ := prints_serve hloaded hbacked hcall
  rw [← htrap] at houtput hprints
  refine ⟨⟨bytes, houtput, hprints⟩, fun w hw hneg => ?_⟩
  refine Iff.trans ?_ (hprints.eq_nil_iff hw hneg)
  rw [houtput]
  exact List.append_right_eq_self

def scarceMachine : Machine := freshMachine 2 [] 0 [] (.withFilter none)

def scarceKernel : Kernel :=
  let machine := { scarceMachine with log := .withFilter none }
  ⟨⟨4, false, false, none⟩, .roundRobin,
    .ofMachine 4 (machine.note .info "boot" s!"axon: {(4 : Nat)} env slots")⟩

theorem boot_scarceKernel :
    boot ⟨4, false, false, none⟩ scarceMachine .roundRobin = .ok scarceKernel := by
  have hconfig : Config.problem? ⟨4, false, false, none⟩ = none := by decide
  rw [boot]
  rw [hconfig]
  rfl

/-- Its one environment has a page, which took both frames with its leaf table, and behind it a page
without a frame. -/
def tightKernel : Kernel :=
  scarceKernel.after [.createEnv .user none, .run ⟨1024⟩,
    .syscall 4 ⟨0, 0x1000, 0x1000, 4, 0, 0⟩, .syscall 4 ⟨0, 0x2000, 0x1000, 0x84, 0, 0⟩]

/-- The registers of a call to print the end of the one page and the beginning of the other. -/
def longFrame : TrapFrame := TrapFrame.zero.loadCall 0 ⟨0x1f00, 512, 0, 0, 0, 0⟩

theorem prints_of_runs_tight :
    boot ⟨4, false, false, none⟩ scarceMachine .roundRobin = .ok scarceKernel ∧
    Runs (fun _ _ => True) scarceKernel tightKernel ∧
    ∃ env bytes, tightKernel.registry.env? 0 = some env ∧
      (tightKernel.withFrame 0 longFrame).trap.2.output = tightKernel.output ++ bytes ∧
      Prints env.table 0x1f00 512 0 (some ErrorCode.noMemory.word) bytes := by
  have hrun : Runs (fun _ _ => True) scarceKernel tightKernel := runs_after .start _
  have hcurrent : tightKernel.registry.current = some 0 := by decide +kernel
  have hoccupied : (tightKernel.registry.env? 0).isSome = true := by decide +kernel
  obtain ⟨env, henv⟩ := Option.isSome_iff_exists.mp hoccupied
  have hfree : tightKernel.realm.memory.machine.freeFrames = 0 := by decide +kernel
  have hanswer : (tightKernel.withFrame 0 longFrame).trap.1 = some ErrorCode.noMemory.word := by
    decide +kernel
  obtain ⟨⟨bytes, houtput, hprints⟩, -⟩ := prints_of_runs boot_scarceKernel hrun hcurrent henv
    longFrame (by decide)
  rw [hfree, hanswer] at hprints
  exact ⟨boot_scarceKernel, hrun, env, bytes, henv, houtput, hprints⟩

/-- The call is refused, and its first chunk has been printed. -/
theorem printed_of_refused_tight :
    boot ⟨4, false, false, none⟩ scarceMachine .roundRobin = .ok scarceKernel ∧
    Runs (fun _ _ => True) scarceKernel tightKernel ∧
    tightKernel.registry.current = some 0 ∧
    Syscall.ofNumber? longFrame.callNumber.toNat = some .cputs ∧
    (tightKernel.withFrame 0 longFrame).trap.1 = some ErrorCode.noMemory.word ∧
    ErrorCode.noMemory.word < 0 ∧
    (tightKernel.withFrame 0 longFrame).trap.2.output ≠ tightKernel.output := by
  refine ⟨boot_scarceKernel, runs_after .start _, by decide +kernel, by decide, by decide +kernel,
    by decide, ?_⟩
  have hbefore : tightKernel.output.length = 0 := by decide +kernel
  have hafter : (tightKernel.withFrame 0 longFrame).trap.2.output.length = chunkSize := by
    decide +kernel
  intro hsame
  rw [hsame, hbefore] at hafter
  exact absurd hafter (by decide)

end Kernel

end Exokernel
