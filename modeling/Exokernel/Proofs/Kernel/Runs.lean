import Exokernel.Kernel

/-! # Runs of the kernel

The events that can reach the kernel, each as a step, and the states that finitely many of them lead
to. -/

namespace Exokernel.Kernel

/-- What can reach the kernel from outside. -/
inductive Event where
  | createEnv (kind : EnvKind) (parent : Option EnvId)
  | run (id : EnvId)
  | schedule
  | syscall (number : Word) (args : Args)
  /-- The call that is in the registers of the current environment. -/
  | trap
  | pageFault (va : Word) (write : Bool)
  | readUser (id : EnvId) (va : Word) (length : Nat)
  | writeUser (id : EnvId) (va : Word) (bytes : List UInt8)

/-- The kernel after an event; a refused request of its owner changes nothing. -/
def step (k : Kernel) : Event → Kernel
  | .createEnv kind parent =>
    match k.createEnv kind parent with
    | .ok (_, k') => k'
    | .error _ => k
  | .run id =>
    match k.run id with
    | .ok k' => k'
    | .error _ => k
  | .schedule => k.schedule
  | .syscall number args => (k.syscall number args).2
  | .trap => k.trap.2
  | .pageFault va write => (k.pageFault va write).2
  | .readUser id va length => (k.readUser id va length).2
  | .writeUser id va bytes => (k.writeUser id va bytes).2

/-- The word that an event answers with, if it is a call that is answered. -/
def answer (k : Kernel) : Event → Option Int64
  | .syscall number args => (k.syscall number args).1
  | .trap => k.trap.1
  | _ => none

/-- The event is the call of a certain environment, with its number and its arguments. -/
def Calls (k : Kernel) (caller : Nat) (number : Word) (args : Args) : Event → Prop
  | .syscall n a => k.registry.current = some caller ∧ n = number ∧ a = args
  | .trap => k.registry.current = some caller ∧ ∃ env, k.registry.env? caller = some env ∧
      env.frame.callNumber = number ∧ env.frame.callArgs = args
  | _ => False

/-- The states that finitely many events lead to, all of them allowed where they happen. -/
inductive Runs (allowed : Kernel → Event → Prop) (start : Kernel) : Kernel → Prop where
  | start : Runs allowed start start
  | step {k} (event) : Runs allowed start k → allowed k event → Runs allowed start (k.step event)

def after (k : Kernel) (events : List Event) : Kernel := events.foldl step k

@[simp] theorem after_nil (k : Kernel) : k.after [] = k := rfl

@[simp] theorem after_cons (k : Kernel) (event : Event) (rest : List Event) :
    k.after (event :: rest) = (k.step event).after rest := rfl

theorem after_append (k : Kernel) (before rest : List Event) :
    k.after (before ++ rest) = (k.after before).after rest :=
  List.foldl_append

theorem runs_after {start k : Kernel} (h : Runs (fun _ _ => True) start k) (events : List Event) :
    Runs (fun _ _ => True) start (k.after events) := by
  induction events generalizing k with
  | nil => exact h
  | cons event rest ih => exact ih (.step event h trivial)

/-- What holds at the start and survives every allowed step holds in every state of a run. -/
theorem Runs.invariant {allowed : Kernel → Event → Prop} {I : Kernel → Prop} {start k : Kernel}
    (hrun : Runs allowed start k) (hstart : I start)
    (hstep : ∀ k event, I k → allowed k event → I (k.step event)) : I k := by
  induction hrun with
  | start => exact hstart
  | step event _ hallowed ih => exact hstep _ event ih hallowed

end Exokernel.Kernel
