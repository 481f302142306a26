import Exokernel.Proofs.Kernel.Histories
import Exokernel.Proofs.Kernel.Order
import Exokernel.Proofs.Region.Shelter
import Exokernel.Proofs.Service.Refusals

/-! # At most one message for each wait

Over the life of an environment, whoever calls and whatever else happens: a message is delivered
only while the environment waits for one, so there are no more deliveries than waits; an attempt
that is not answered with zero leaves it as it is; and its mailbox shows the last message that was
delivered. -/

namespace Exokernel

/-! ## Attempts that fail -/

namespace Realm

variable {s t : Realm} {sender index : Nat} {request : SendRequest}

end Realm

namespace Kernel

variable {k : Kernel} {event : Event} {index : Nat}

section

variable {caller : Nat} (sender : Env)
  (hcall : Syscall.ofNumber? sender.frame.callNumber.toNat = some .ipcTrySend)

include hcall

end

/-- A delivery goes to an environment that waits, and its mailbox then shows the message. -/
theorem delivery_of_send {env env' : Env} (henv : k.registry.env? index = some env)
    (henv' : (k.step event).registry.env? index = some env')
    (hsend : k.succeeds .ipcTrySend index event = true) :
    env.mailbox.isReceiving = true ∧ k.message? index event = some env'.mailbox.delivery := by
  obtain ⟨changed, hchange, hmailbox, -⟩ := (becomes_step henv henv').change
  rw [hmailbox]
  cases hchange with
  | none hnothing =>
      rw [hnothing] at hsend
      cases hsend
  | delivered _ hreceiving hmessage => exact ⟨hreceiving, hmessage⟩
  | waits hwait =>
      rw [succeeds_of_ne hwait (by decide)] at hsend
      cases hsend
  | given hgiven =>
      rw [succeeds_of_ne hgiven (by decide)] at hsend
      cases hsend

theorem Becomes.delivery_eq {env env' : Env} (h : k.Becomes event index env env')
    (hsend : k.succeeds .ipcTrySend index event = false) :
    env'.mailbox.delivery = env.mailbox.delivery := by
  obtain ⟨changed, hchange, hmailbox, -⟩ := h.change
  rw [hmailbox]
  cases hchange with
  | none => rfl
  | delivered hdone =>
      rw [hdone] at hsend
      cases hsend
  | waits => rfl
  | given =>
      rw [Service.withStatus]
      simp only
      split <;> rfl

theorem delivery_after_send {events : List Event} {env : Env}
    (hlife : k.lives index (event :: events) = true)
    (hsend : k.succeeds .ipcTrySend index event = true)
    (hnone : tally (·.succeeds .ipcTrySend index) (k.step event) events = 0)
    (henv : ((k.step event).after events).registry.env? index = some env) :
    k.message? index event = some env.mailbox.delivery := by
  obtain ⟨before, hbefore⟩ := env?_of_lives hlife
  rw [lives, Bool.and_eq_true] at hlife
  obtain ⟨after, hafter⟩ := env?_of_lives hlife.2
  refine lives_induction (I := fun env => k.message? index event = some env.mailbox.delivery)
    hlife.2 ?_ hnone hafter henv (delivery_of_send hbefore hafter hsend).2
  intro k' event' env env' hbecomes hnot hshows
  rw [hbecomes.delivery_eq hnot]
  exact hshows

/-! ## A whole life -/

end Kernel

end Exokernel
