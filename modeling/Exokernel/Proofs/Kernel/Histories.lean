import Exokernel.Proofs.Kernel.Fates

/-! # The life of an environment

As long as a slot stays occupied the same environment is in it.  Each event of its life delivers a
message to it, lets it wait for one, gives it a status, or does none of this; what happened can be
counted over the whole life. -/

namespace Exokernel.Kernel

variable {k : Kernel} {event : Event} {index : Nat} {call call' : Syscall}

/-! ## Callers -/

theorem calls_of_call? {caller : Nat} {call : Syscall} {args : Args}
    (h : k.call? event = some (caller, call, args)) :
    ∃ number sender, k.Calls caller number args event ∧ k.registry.env? caller = some sender ∧
      Syscall.ofNumber? number.toNat = some call := by
  cases event with
  | syscall number args' =>
      obtain ⟨caller', hcurrent, hrest⟩ := Option.bind_eq_some_iff.mp h
      obtain ⟨sender, hsender, hrest⟩ := Option.bind_eq_some_iff.mp hrest
      obtain ⟨call', hcall, heq⟩ := Option.bind_eq_some_iff.mp hrest
      cases heq
      exact ⟨number, sender, ⟨hcurrent, rfl, rfl⟩, hsender, hcall⟩
  | trap =>
      obtain ⟨caller', hcurrent, hrest⟩ := Option.bind_eq_some_iff.mp h
      obtain ⟨sender, hsender, hrest⟩ := Option.bind_eq_some_iff.mp hrest
      obtain ⟨call', hcall, heq⟩ := Option.bind_eq_some_iff.mp hrest
      cases heq
      exact ⟨_, sender, ⟨hcurrent, sender, hsender, rfl, rfl⟩, hsender, hcall⟩
  | _ => cases h

theorem acts_of_calls {caller : Nat} {number : Word} {args : Args}
    (h : k.Calls caller number args event) : k.acts index event = (caller == index) := by
  cases event with
  | syscall | trap =>
      rw [acts, h.1]
      rfl
  | _ => cases h

/-! ## Calls about an environment -/

def aims (k : Kernel) (call : Syscall) (index : Nat) (event : Event) : Bool :=
  (k.call? event).any fun (caller, call', args) =>
    call' == call && Service.target? k.registry caller args call == some index

def succeeds (k : Kernel) (call : Syscall) (index : Nat) (event : Event) : Bool :=
  k.aims call index event && k.answer event == some 0

/-- Is the environment in a slot made runnable by a call that gives it its status? -/
def wakes (k : Kernel) (index : Nat) (event : Event) : Bool :=
  k.succeeds .envSetStatus index event && (k.call? event).any fun (_, _, args) =>
    Service.settableStatus? args.arg1 == some .runnable

/-- The message that the event has for the environment in a slot if it is waiting. -/
def message? (k : Kernel) (index : Nat) (event : Event) : Option Delivery := do
  let (caller, _, args) ← k.call? event
  let sender ← k.registry.env? caller
  let receiver ← k.registry.env? index
  let pending ← receiver.mailbox.waiting
  pure (Realm.deliveryFor sender (Service.sendRequest args) pending)

theorem aims_iff : k.aims call index event = true ↔ ∃ caller args,
    k.call? event = some (caller, call, args) ∧
      Service.target? k.registry caller args call = some index := by
  rw [aims, Option.any_eq_true]
  constructor
  · rintro ⟨⟨caller, call', args⟩, hcall, hmatch⟩
    rw [Bool.and_eq_true, beq_iff_eq, beq_iff_eq] at hmatch
    obtain ⟨rfl, htarget⟩ := hmatch
    exact ⟨caller, args, hcall, htarget⟩
  · rintro ⟨caller, args, hcall, htarget⟩
    refine ⟨_, hcall, ?_⟩
    rw [Bool.and_eq_true, beq_iff_eq, beq_iff_eq]
    exact ⟨rfl, htarget⟩

theorem succeeds_iff : k.succeeds call index event = true ↔
    k.aims call index event = true ∧ k.answer event = some 0 := by
  rw [succeeds, Bool.and_eq_true, beq_iff_eq]

theorem succeeds_of_ne (h : k.succeeds call index event = true) (hne : call' ≠ call) :
    k.succeeds call' index event = false := by
  obtain ⟨_, _, hcall, -⟩ := aims_iff.mp (succeeds_iff.mp h).1
  rw [← Bool.not_eq_true]
  intro h'
  obtain ⟨_, _, hcall', -⟩ := aims_iff.mp (succeeds_iff.mp h').1
  rw [hcall] at hcall'
  cases hcall'
  exact hne rfl

theorem acts_of_receives (h : k.succeeds .ipcRecv index event = true) :
    k.acts index event = true := by
  obtain ⟨caller, args, hcall, htarget⟩ := aims_iff.mp (succeeds_iff.mp h).1
  obtain ⟨number, sender, hcalls, -, -⟩ := calls_of_call? hcall
  cases htarget
  rw [acts_of_calls hcalls]
  exact beq_self_eq_true index

/-! ## One event -/

/-- What an event makes of the mailbox and the status of an environment. -/
inductive Change (k : Kernel) (event : Event) (index : Nat) : Env → Env → Prop where
  | none {env} (h : ∀ call, k.succeeds call index event = false) : Change k event index env env
  | delivered {env delivery} (h : k.succeeds .ipcTrySend index event = true)
      (hreceiving : env.mailbox.isReceiving = true)
      (hmessage : k.message? index event = some delivery) :
      Change k event index env { env with mailbox := ⟨none, delivery⟩, status := .runnable }
  | waits {env request} (h : k.succeeds .ipcRecv index event = true) :
      Change k event index env (Realm.waitFor request env)
  | given {env status} (h : k.succeeds .envSetStatus index event = true)
      (hwakes : k.wakes index event = (status == .runnable)) :
      Change k event index env (Service.withStatus status env)

theorem change_of_deed {env env' : Env} (henv : k.registry.env? index = some env)
    (h : k.Deed event index env env') : k.Change event index env env' := by
  rw [Deed] at h
  cases hcall : k.call? event with
  | none =>
      rw [hcall] at h
      rw [h]
      refine .none fun call => ?_
      rw [succeeds, aims, hcall]
      rfl
  | some made =>
  obtain ⟨caller, call, args⟩ := made
  rw [hcall] at h
  cases h with
  | idle hidle =>
      refine .none fun call' => ?_
      rw [← Bool.not_eq_true, succeeds_iff, aims_iff, hcall]
      rintro ⟨⟨_, _, ⟨⟩, htarget⟩, hanswer⟩
      exact hidle hanswer htarget
  | @delivered _ sender pending hword htarget hsender hpending =>
      refine .delivered ?_ ?_ ?_
      · exact succeeds_iff.mpr ⟨aims_iff.mpr ⟨_, _, hcall, htarget⟩, hword⟩
      · rw [Mailbox.isReceiving, hpending]
        rfl
      · simp only [message?, hcall, hsender, henv, hpending, Option.bind_eq_bind, Option.bind_some]
        rfl
  | waits hword hself =>
      have htarget : Service.target? k.registry caller args .ipcRecv = some index :=
        congrArg some hself.symm
      exact .waits (succeeds_iff.mpr ⟨aims_iff.mpr ⟨_, _, hcall, htarget⟩, hword⟩)
  | @given _ status hword htarget hstatus =>
      have hdone : k.succeeds .envSetStatus index event = true :=
        succeeds_iff.mpr ⟨aims_iff.mpr ⟨_, _, hcall, htarget⟩, hword⟩
      refine .given hdone ?_
      rw [wakes, hdone, hcall]
      change (Service.settableStatus? args.arg1 == some .runnable) = _
      rw [hstatus]
      rfl

/-- The environment in a slot before and after an event. -/
structure Becomes (k : Kernel) (event : Event) (index : Nat) (env env' : Env) : Prop where
  change : ∃ changed, k.Change event index env changed ∧ env'.mailbox = changed.mailbox ∧
    env'.status = changed.status
  frame_or : env'.frame = env.frame ∨ k.acts index event = true
  result_eq : ∀ w, k.acts index event = true → k.answer event = some w → env'.frame.result = w

theorem becomes_step {env env' : Env} (henv : k.registry.env? index = some env)
    (henv' : (k.step event).registry.env? index = some env') : k.Becomes event index env env' := by
  obtain ⟨generation, hslot⟩ := Registry.slot?_of_env? henv
  obtain ⟨after, hafter, hfate⟩ := (k.fates_step event).slot index _ hslot
  cases hfate with
  | ended =>
      rw [Registry.env?_of_slot? hafter] at henv'
      cases henv'
  | @kept _ _ deed table frame upcall hdeed hframe hword =>
      rw [Registry.env?_of_slot? hafter] at henv'
      cases henv'
      exact ⟨⟨deed, change_of_deed henv hdeed, rfl, rfl⟩, hframe, hword⟩

/-- Is a slot occupied before and after each of the events? -/
def lives (k : Kernel) (index : Nat) : List Event → Bool
  | [] => (k.registry.env? index).isSome
  | event :: rest => (k.registry.env? index).isSome && (k.step event).lives index rest

/-- The number of events of which something is true where they happen. -/
def tally (p : Kernel → Event → Bool) (k : Kernel) : List Event → Nat
  | [] => 0
  | event :: rest => (p k event).toNat + tally p (k.step event) rest

theorem lives_append (k : Kernel) (index : Nat) (before after : List Event) :
    k.lives index (before ++ after) = (k.lives index before && (k.after before).lives index after) := by
  induction before generalizing k with
  | nil => cases after <;> simp [lives]
  | cons event rest ih => rw [List.cons_append, lives, lives, ih, Bool.and_assoc, after_cons]

theorem tally_le_length (p : Kernel → Event → Bool) (k : Kernel) (events : List Event) :
    tally p k events ≤ events.length := by
  induction events generalizing k with
  | nil => exact Nat.le_refl 0
  | cons event rest ih =>
      rw [tally, List.length_cons, Nat.add_comm]
      exact Nat.add_le_add (ih _) (Bool.toNat_le _)

theorem tally_or_eq_zero {p q : Kernel → Event → Bool} {events : List Event}
    (hp : tally p k events = 0) (hq : tally q k events = 0) :
    tally (fun k event => p k event || q k event) k events = 0 := by
  induction events generalizing k with
  | nil => rfl
  | cons event rest ih =>
      rw [tally, Nat.add_eq_zero_iff, Bool.toNat_eq_zero] at hp hq
      rw [tally, hp.1, hq.1, ih hp.2 hq.2]
      rfl

theorem env?_of_lives {events : List Event} (h : k.lives index events = true) :
    ∃ env, k.registry.env? index = some env := by
  cases events with
  | nil => exact Option.isSome_iff_exists.mp h
  | cons event rest => exact Option.isSome_iff_exists.mp (Bool.and_eq_true_iff.mp h).1

/-- What an event of a life keeps, a life keeps. -/
theorem lives_induction {I : Env → Prop} {p : Kernel → Event → Bool} {events : List Event}
    (hlife : k.lives index events = true)
    (hstep : ∀ k event env env', k.Becomes event index env env' → p k event = false → I env → I env')
    (hnone : tally p k events = 0) {env env' : Env} (henv : k.registry.env? index = some env)
    (henv' : (k.after events).registry.env? index = some env') (h : I env) : I env' := by
  induction events generalizing k env with
  | nil =>
      rw [after_nil, henv] at henv'
      cases henv'
      exact h
  | cons event rest ih =>
      rw [tally, Nat.add_eq_zero_iff, Bool.toNat_eq_zero] at hnone
      rw [lives, Bool.and_eq_true] at hlife
      obtain ⟨next, hnext⟩ := env?_of_lives hlife.2
      have hkept := hstep k event env next (becomes_step henv hnext) hnone.1 h
      exact ih hlife.2 hnone.2 hnext henv' hkept

theorem exists_last {p : Kernel → Event → Bool} {events : List Event} (h : 0 < tally p k events) :
    ∃ before event after, events = before ++ event :: after ∧ p (k.after before) event = true ∧
      tally p ((k.after before).step event) after = 0 := by
  induction events generalizing k with
  | nil => cases h
  | cons event rest ih =>
      by_cases hrest : 0 < tally p (k.step event) rest
      · obtain ⟨before, last, after, rfl, hp, hnone⟩ := ih hrest
        exact ⟨event :: before, last, after, rfl, hp, hnone⟩
      · have hzero : tally p (k.step event) rest = 0 := Nat.eq_zero_of_not_pos hrest
        refine ⟨[], event, rest, rfl, ?_, hzero⟩
        rw [tally, hzero, Nat.add_zero] at h
        cases hp : p k event with
        | true => exact hp
        | false =>
            rw [hp] at h
            cases h

end Exokernel.Kernel
