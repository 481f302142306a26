import Exokernel.Proofs.Kernel.Rendezvous

/-! # How a wait for a message ends

An environment that waits for a message runs again when it is sent one, and then its mailbox shows
that message; or it is made runnable by a call that gives it its status, and then its wait is called
off. -/

namespace Exokernel.Kernel

variable {k : Kernel} {event : Event} {index : Nat}

theorem Becomes.not_runnable {env env' : Env} (h : k.Becomes event index env env')
    (hnot : (k.succeeds .ipcTrySend index event || k.wakes index event) = false)
    (hsuspended : env.status ≠ .runnable) : env'.status ≠ .runnable := by
  obtain ⟨hsend, hwake⟩ := Bool.or_eq_false_iff.mp hnot
  obtain ⟨changed, hchange, -, hstatus⟩ := h.change
  rw [hstatus]
  cases hchange with
  | none => exact hsuspended
  | delivered hdone =>
      rw [hdone] at hsend
      cases hsend
  | waits => exact nofun
  | given _ hwakes =>
      rw [hwakes] at hwake
      exact beq_eq_false_iff_ne.mp hwake

theorem Becomes.of_receives {env env' : Env} (h : k.Becomes event index env env')
    (hreceive : k.succeeds .ipcRecv index event = true) :
    env'.status ≠ .runnable ∧ env'.frame.result = 0 := by
  obtain ⟨changed, hchange, -, hstatus⟩ := h.change
  refine ⟨?_, h.result_eq 0 (acts_of_receives hreceive) (succeeds_iff.mp hreceive).2⟩
  rw [hstatus]
  cases hchange with
  | none hnothing =>
      rw [hnothing] at hreceive
      cases hreceive
  | delivered hsend =>
      rw [succeeds_of_ne hsend (by decide)] at hreceive
      cases hreceive
  | waits => exact nofun
  | given hgiven =>
      rw [succeeds_of_ne hgiven (by decide)] at hreceive
      cases hreceive

theorem result_of_not_acts {events : List Event} {env env' : Env}
    (hlife : k.lives index events = true) (hidle : tally (·.acts index) k events = 0)
    (henv : k.registry.env? index = some env)
    (henv' : (k.after events).registry.env? index = some env') :
    env'.frame.result = env.frame.result := by
  refine lives_induction (I := fun other => other.frame.result = env.frame.result) hlife ?_ hidle henv
    henv' rfl
  intro k' event' before after hbecomes hnot hsame
  rcases hbecomes.frame_or with hframe | hacts
  · rw [hframe]
    exact hsame
  · rw [hacts] at hnot
    cases hnot

/-- An environment has begun to wait for a message.  If it may run later, it was sent a message
since then, its mailbox shows the last one, and until it has run the result of its call is still
zero; or it was sent none, and a call that gives it its status has made it runnable. -/
theorem sent_or_woken {commit : Event} {events : List Event} {env : Env}
    (hcommit : k.succeeds .ipcRecv index commit = true)
    (hlife : (k.step commit).lives index events = true)
    (henv : ((k.step commit).after events).registry.env? index = some env)
    (hruns : env.status = .runnable) :
    (∃ before send after, events = before ++ send :: after ∧
        ((k.step commit).after before).succeeds .ipcTrySend index send = true ∧
        tally (·.succeeds .ipcTrySend index) (((k.step commit).after before).step send) after = 0 ∧
        ((k.step commit).after before).message? index send = some env.mailbox.delivery ∧
        (tally (·.acts index) (k.step commit) events = 0 → env.frame.result = 0)) ∨
      (tally (·.succeeds .ipcTrySend index) (k.step commit) events = 0 ∧
        0 < tally (·.wakes index) (k.step commit) events) := by
  obtain ⟨caller, args, hcall, htarget⟩ := aims_iff.mp (succeeds_iff.mp hcommit).1
  obtain ⟨_, waiter, -, hwaiter, -⟩ := calls_of_call? hcall
  cases htarget
  obtain ⟨suspended, hsuspended⟩ := env?_of_lives hlife
  obtain ⟨hstatus, hresult⟩ := (becomes_step hwaiter hsuspended).of_receives hcommit
  by_cases hsent : 0 < tally (·.succeeds .ipcTrySend index) (k.step commit) events
  · left
    obtain ⟨before, send, after, rfl, hsend, hlast⟩ := exists_last hsent
    have hrest := hlife
    rw [lives_append, Bool.and_eq_true] at hrest
    rw [after_append, after_cons] at henv
    refine ⟨before, send, after, rfl, hsend, hlast, ?_, ?_⟩
    · exact delivery_after_send hrest.2 hsend hlast henv
    · intro hidle
      rw [← after_cons, ← after_append] at henv
      exact (result_of_not_acts hlife hidle hsuspended henv).trans hresult
  · right
    have hnone := Nat.eq_zero_of_not_pos hsent
    refine ⟨hnone, Nat.pos_of_ne_zero fun hquiet => ?_⟩
    exact lives_induction (I := fun env => env.status ≠ .runnable) hlife
      (fun _ _ _ _ hbecomes => hbecomes.not_runnable) (tally_or_eq_zero hnone hquiet) hsuspended henv
      hstatus hruns

def sendCall : Event := .syscall 13 ⟨1025, 77, 0x80000000, 0, 0, 0⟩

def wakeCall : Event := .syscall 10 ⟨1025, 2, 0, 0, 0, 0⟩

/-- A child that waits is sent a message. -/
theorem sent_or_woken_sent :
    pairKernel.succeeds .ipcRecv 1 waitCall = true ∧
    (pairKernel.step waitCall).lives 1 [sendCall] = true ∧
    tally (·.wakes 1) (pairKernel.step waitCall) [sendCall] = 0 ∧
    ∃ env, ((pairKernel.step waitCall).after [sendCall]).registry.env? 1 = some env ∧
      env.status = .runnable ∧ ∃ before send after, [sendCall] = before ++ send :: after ∧
        ((pairKernel.step waitCall).after before).message? 1 send = some env.mailbox.delivery := by
  have hcommit : pairKernel.succeeds .ipcRecv 1 waitCall = true := by decide +kernel
  have hlife : (pairKernel.step waitCall).lives 1 [sendCall] = true := by decide +kernel
  have hquiet : tally (·.wakes 1) (pairKernel.step waitCall) [sendCall] = 0 := by decide +kernel
  have hany : (((pairKernel.step waitCall).after [sendCall]).registry.env? 1).any Env.isRunnable =
      true := by decide +kernel
  obtain ⟨env, henv, hruns⟩ := (Option.any_eq_true _ _).mp hany
  refine ⟨hcommit, hlife, hquiet, env, henv, beq_iff_eq.mp hruns, ?_⟩
  rcases sent_or_woken hcommit hlife henv (beq_iff_eq.mp hruns) with
    ⟨before, send, after, heq, -, -, hmessage, -⟩ | ⟨-, hwoken⟩
  · exact ⟨before, send, after, heq, hmessage⟩
  · rw [hquiet] at hwoken
    cases hwoken

/-- A child that waits is made runnable by its parent, without any message: it runs on with the
result zero and an empty mailbox. -/
theorem woken_without_message :
    boot ⟨4, false, false, none⟩ smallMachine .roundRobin = .ok smallKernel ∧
    Runs (fun _ _ => True) smallKernel pairKernel ∧
    pairKernel.succeeds .ipcRecv 1 waitCall = true ∧
    (pairKernel.step waitCall).lives 1 [wakeCall] = true ∧
    tally (·.succeeds .ipcTrySend 1) (pairKernel.step waitCall) [wakeCall] = 0 ∧
    (((pairKernel.step waitCall).after [wakeCall]).registry.env? 1).any (fun env =>
      env.isRunnable && env.frame.result == 0 && decide (env.mailbox.delivery = .none)) = true := by
  refine ⟨boot_smallKernel, runs_after .start _, ?_, ?_, ?_, ?_⟩ <;> decide +kernel

end Exokernel.Kernel
