import Exokernel.Ipc.Receive
import Exokernel.Ipc.Send
import Exokernel.Proofs.Realm.Actions
import Exokernel.Proofs.Service.Effects

/-! # What sending a message does

A message is refused with nothing changed, is delivered alone, or comes with a page.  In the last
case the page is mapped first; if that fails, no message is delivered. -/

namespace Exokernel.Realm

variable {s : Realm} {sender : Nat} {request : SendRequest}

/-- What an attempt to send a message comes to, with what was decoded and looked up before. -/
inductive SendOutcome (sender : Nat) (request : SendRequest) (s : Realm) :
    EStateM.Result IpcError Realm Nat → Prop where
  | refused (e) : SendOutcome sender request s (.error e s)
  /-- No page is offered, or none is wanted. -/
  | alone {receiver source target pending t}
      (hreceiver : s.registry.resolve request.target sender false = .ok receiver)
      (hsource : s.registry.env? sender = some source)
      (htarget : s.registry.env? receiver = some target)
      (hpending : target.mailbox.waiting = some pending)
      (hlog : (s.deliver receiver ⟨source.id, request.value, .empty, 0⟩).SameButLog t)
      (hplain : request.page = none ∨ pending.dst = none) :
      SendOutcome sender request s (.ok receiver t)
  /-- The page cannot be mapped. -/
  | stuck {receiver source target pending offer src dst rights e t}
      (hreceiver : s.registry.resolve request.target sender false = .ok receiver)
      (hsource : s.registry.env? sender = some source)
      (htarget : s.registry.env? receiver = some target)
      (hpending : target.mailbox.waiting = some pending)
      (hoffer : request.page = some offer) (hsrc : VirtAddr.aligned? offer.src = some src)
      (hdst : pending.dst = some dst) (hrights : MapRights.forCopy offer.perm = .ok rights)
      (hshare : shareRegion sender receiver source target (.one src.page) (.one dst) rights s =
        .error e t) :
      SendOutcome sender request s (.error (.region e) t)
  | withPage {receiver source target pending offer src dst rights t u}
      (hreceiver : s.registry.resolve request.target sender false = .ok receiver)
      (hsource : s.registry.env? sender = some source)
      (htarget : s.registry.env? receiver = some target)
      (hpending : target.mailbox.waiting = some pending)
      (hoffer : request.page = some offer) (hsrc : VirtAddr.aligned? offer.src = some src)
      (hdst : pending.dst = some dst) (hrights : MapRights.forCopy offer.perm = .ok rights)
      (hshare : shareRegion sender receiver source target (.one src.page) (.one dst) rights s =
        .ok () t)
      (hlog : (t.deliver receiver ⟨source.id, request.value, Prot.truncate offer.perm,
        min offer.size pending.maxSize⟩).SameButLog u) :
      SendOutcome sender request s (.ok receiver u)

/-! ## Lifted requests -/

theorem liftEnv_of_ok {α : Type} {x : EStateM EnvError Realm α} {a : α} {t : Realm}
    (h : x s = .ok a t) : (liftM x : EStateM IpcError Realm α) s = .ok a t := by
  change EStateM.adaptExcept _ x s = _
  rw [EStateM.adaptExcept, h]

theorem liftEnv_of_error {α : Type} {x : EStateM EnvError Realm α} {e : EnvError} {t : Realm}
    (h : x s = .error e t) : (liftM x : EStateM IpcError Realm α) s = .error (.env e) t := by
  change EStateM.adaptExcept _ x s = _
  rw [EStateM.adaptExcept, h]

theorem liftRegion_of_ok {α : Type} {x : EStateM RegionError Realm α} {a : α} {t : Realm}
    (h : x s = .ok a t) : (liftM x : EStateM IpcError Realm α) s = .ok a t := by
  change EStateM.adaptExcept _ x s = _
  rw [EStateM.adaptExcept, h]

theorem liftRegion_of_error {α : Type} {x : EStateM RegionError Realm α} {e : RegionError}
    {t : Realm} (h : x s = .error e t) :
    (liftM x : EStateM IpcError Realm α) s = .error (.region e) t := by
  change EStateM.adaptExcept _ x s = _
  rw [EStateM.adaptExcept, h]

theorem envAt_of_some {index : Nat} {env : Env} (h : s.registry.env? index = some env) :
    envAt index s = .ok env s := by
  rw [envAt, h]

theorem envAt_of_none {index : Nat} (h : s.registry.env? index = none) :
    envAt index s = .error .badEnvironment s := by
  rw [envAt, h]

theorem resolve_of_ok {id : EnvId} {check : Bool} {index : Nat}
    (h : s.registry.resolve id sender check = .ok index) :
    resolve id sender check s = .ok index s := by
  rw [resolve, h]

theorem resolve_of_error {id : EnvId} {check : Bool} {e : EnvError}
    (h : s.registry.resolve id sender check = .error e) :
    resolve id sender check s = .error e s := by
  rw [resolve, h]

theorem pendingReceive_of_some {index : Nat} {env : Env} {pending : RecvRequest}
    (henv : s.registry.env? index = some env) (hpending : env.mailbox.waiting = some pending) :
    pendingReceive index s = .ok pending s := by
  rw [pendingReceive, henv, Option.bind_some, hpending]

theorem pendingReceive_of_none {index : Nat} {env : Env}
    (henv : s.registry.env? index = some env) (hpending : env.mailbox.waiting = none) :
    pendingReceive index s = .error .notReceiving s := by
  rw [pendingReceive, henv, Option.bind_some, hpending]

/-! ## The cases -/

theorem transferPage_of_plain {receiver : Nat} {offer : Option (PageOffer × VirtPage)}
    {pending : RecvRequest} (h : offer = none ∨ pending.dst = none) :
    transferPage sender receiver offer pending s = .ok (.empty, 0) s := by
  rw [transferPage]
  · rfl
  · rintro page src dst rfl hdst
    rcases h with hnone | hnone
    · cases hnone
    · rw [hdst] at hnone
      cases hnone

theorem transferPage_of_refused_rights {receiver : Nat} {page : PageOffer} {src dst : VirtPage}
    {pending : RecvRequest} {e : RegionError} (hdst : pending.dst = some dst)
    (hrights : MapRights.forCopy page.perm = .error e) :
    transferPage sender receiver (some (page, src)) pending s = .error (.region e) s := by
  unfold transferPage
  simp only [hdst, hrights]
  rfl

theorem transferPage_of_rights {receiver : Nat} {page : PageOffer} {src dst : VirtPage}
    {pending : RecvRequest} {rights : MapRights} {source target : Env}
    (hdst : pending.dst = some dst) (hrights : MapRights.forCopy page.perm = .ok rights)
    (hsource : s.registry.env? sender = some source)
    (htarget : s.registry.env? receiver = some target) :
    transferPage sender receiver (some (page, src)) pending s =
      match shareRegion sender receiver source target (.one src) (.one dst) rights s with
      | .ok () t => .ok (Prot.truncate page.perm, min page.size pending.maxSize) t
      | .error e t => .error (.region e) t := by
  unfold transferPage
  simp only [hdst, hrights, pure_bind]
  rw [bind_of_ok (liftEnv_of_ok (envAt_of_some hsource)),
    bind_of_ok (liftEnv_of_ok (envAt_of_some htarget))]
  cases hshare : shareRegion sender receiver source target (.one src) (.one dst) rights s with
  | ok _ t =>
      rw [bind_of_ok (liftRegion_of_ok hshare)]
      rfl
  | error e t =>
      rw [bind_of_error (liftRegion_of_error hshare)]

/-- Nothing is transferred without an offer or without a wish; or the transfer is refused; or the
offered page is shared, which can still fail. -/
theorem transferPage_cases (receiver : Nat) (offer : Option (PageOffer × VirtPage))
    (pending : RecvRequest) :
    ((offer = none ∨ pending.dst = none) ∧
        transferPage sender receiver offer pending s = .ok (.empty, 0) s) ∨
      (∃ e, transferPage sender receiver offer pending s = .error e s) ∨
      ∃ page src dst rights source target, offer = some (page, src) ∧ pending.dst = some dst ∧
        MapRights.forCopy page.perm = .ok rights ∧ s.registry.env? sender = some source ∧
        s.registry.env? receiver = some target ∧
        transferPage sender receiver offer pending s =
          match shareRegion sender receiver source target (.one src) (.one dst) rights s with
          | .ok () t => .ok (Prot.truncate page.perm, min page.size pending.maxSize) t
          | .error e t => .error (.region e) t := by
  cases offer with
  | none => exact Or.inl ⟨Or.inl rfl, transferPage_of_plain (Or.inl rfl)⟩
  | some offered =>
  obtain ⟨page, src⟩ := offered
  cases hdst : pending.dst with
  | none => exact Or.inl ⟨Or.inr rfl, transferPage_of_plain (Or.inr hdst)⟩
  | some dst =>
  right
  cases hrights : MapRights.forCopy page.perm with
  | error e => exact Or.inl ⟨_, transferPage_of_refused_rights hdst hrights⟩
  | ok rights =>
  cases hsource : s.registry.env? sender with
  | none =>
      left
      unfold transferPage
      simp only [hdst, hrights, pure_bind]
      rw [bind_of_error (liftEnv_of_error (envAt_of_none hsource))]
      exact ⟨_, rfl⟩
  | some source =>
  cases htarget : s.registry.env? receiver with
  | none =>
      left
      unfold transferPage
      simp only [hdst, hrights, pure_bind]
      rw [bind_of_ok (liftEnv_of_ok (envAt_of_some hsource)),
        bind_of_error (liftEnv_of_error (envAt_of_none htarget))]
      exact ⟨_, rfl⟩
  | some target =>
      right
      exact ⟨page, src, dst, rights, source, target, rfl, rfl, hrights, rfl, rfl,
        transferPage_of_rights hdst hrights hsource htarget⟩

theorem offeredPage_of_aligned {offer : PageOffer} {va : VirtAddr}
    (h : VirtAddr.aligned? offer.src = some va) :
    offeredPage (some offer) s = .ok (some (offer, va.page)) s := by
  rw [offeredPage]
  simp only [h]
  rfl

theorem offeredPage_of_misaligned {offer : PageOffer} (h : VirtAddr.aligned? offer.src = none) :
    offeredPage (some offer) s = .error .invalidArgs s := by
  rw [offeredPage]
  simp only [h]
  rfl

theorem offeredPage_cases (page : Option PageOffer) :
    (∃ e, offeredPage page s = .error e s) ∨ ∃ offer, offeredPage page s = .ok offer s ∧
      (offer = none → page = none) ∧ ∀ decoded src, offer = some (decoded, src) →
        ∃ va, page = some decoded ∧ VirtAddr.aligned? decoded.src = some va ∧ va.page = src := by
  cases page with
  | none => exact Or.inr ⟨none, rfl, fun _ => rfl, nofun⟩
  | some offer =>
      cases hsrc : VirtAddr.aligned? offer.src with
      | none => exact Or.inl ⟨_, offeredPage_of_misaligned hsrc⟩
      | some va =>
          refine Or.inr ⟨_, offeredPage_of_aligned hsrc, nofun, ?_⟩
          rintro _ _ ⟨⟩
          exact ⟨va, rfl, hsrc, rfl⟩

section Decided

variable {receiver : Nat} {target : Env} {pending : RecvRequest}
  (hreceiver : s.registry.resolve request.target sender false = .ok receiver)
  (htarget : s.registry.env? receiver = some target)
  (hpending : target.mailbox.waiting = some pending)

include hreceiver htarget hpending

theorem trySend_of_offer_error {e : IpcError} (h : offeredPage request.page s = .error e s) :
    trySend sender request s = .error e s := by
  rw [trySend]
  rw [bind_of_ok (liftEnv_of_ok (resolve_of_ok hreceiver)),
    bind_of_ok (pendingReceive_of_some htarget hpending), bind_of_error h]

variable {offer : Option (PageOffer × VirtPage)} (hoffer : offeredPage request.page s = .ok offer s)

include hoffer

theorem trySend_of_transfer_error {e : IpcError} {t : Realm}
    (h : transferPage sender receiver offer pending s = .error e t) :
    trySend sender request s = .error e t := by
  rw [trySend]
  rw [bind_of_ok (liftEnv_of_ok (resolve_of_ok hreceiver)),
    bind_of_ok (pendingReceive_of_some htarget hpending), bind_of_ok hoffer, bind_of_error h]

theorem trySend_of_transfer_ok {perm : Prot} {size : Word} {t : Realm} {source' target' : Env}
    (h : transferPage sender receiver offer pending s = .ok (perm, size) t)
    (hsource : t.registry.env? sender = some source')
    (htarget' : t.registry.env? receiver = some target') :
    ∃ u, trySend sender request s = .ok receiver u ∧
      (t.deliver receiver ⟨source'.id, request.value, perm, size⟩).SameButLog u := by
  rw [trySend]
  rw [bind_of_ok (liftEnv_of_ok (resolve_of_ok hreceiver)),
    bind_of_ok (pendingReceive_of_some htarget hpending), bind_of_ok hoffer, bind_of_ok h]
  dsimp only
  rw [bind_of_ok (liftEnv_of_ok (envAt_of_some hsource)),
    bind_of_ok (liftEnv_of_ok (envAt_of_some htarget'))]
  exact ⟨_, rfl, sameButLog_note _ _ _ _⟩

end Decided

/-- Every attempt to send a message has one of the outcomes listed for it. -/
theorem sendOutcome_trySend (sender : Nat) (request : SendRequest) (s : Realm) :
    SendOutcome sender request s (trySend sender request s) := by
  cases hreceiver : s.registry.resolve request.target sender false with
  | error e =>
      rw [trySend]
      rw [bind_of_error (liftEnv_of_error (resolve_of_error hreceiver))]
      exact .refused _
  | ok receiver =>
  obtain ⟨target, htarget, -⟩ := Service.exists_env?_of_resolve hreceiver
  cases hpending : target.mailbox.waiting with
  | none =>
      rw [trySend]
      rw [bind_of_ok (liftEnv_of_ok (resolve_of_ok hreceiver)),
        bind_of_error (pendingReceive_of_none htarget hpending)]
      exact .refused _
  | some pending =>
  rcases offeredPage_cases request.page with ⟨e, hrefused⟩ | ⟨offer, hoffered, hnone, hpage⟩
  · rw [trySend_of_offer_error hreceiver htarget hpending hrefused]
    exact .refused _
  · rcases transferPage_cases receiver offer pending with ⟨hplain, halone⟩ | ⟨e, hrefused⟩ |
      ⟨page, src, dst, rights, source, target', rfl, hdst, hrights, hsource, htarget', htransfer⟩
    · cases hsource : s.registry.env? sender with
      | none =>
          rw [trySend]
          rw [bind_of_ok (liftEnv_of_ok (resolve_of_ok hreceiver)),
            bind_of_ok (pendingReceive_of_some htarget hpending), bind_of_ok hoffered,
            bind_of_ok halone]
          dsimp only
          rw [bind_of_error (liftEnv_of_error (envAt_of_none hsource))]
          exact .refused _
      | some source =>
          obtain ⟨u, hsend, hlog⟩ :=
            trySend_of_transfer_ok hreceiver htarget hpending hoffered halone hsource htarget
          rw [hsend]
          exact .alone hreceiver hsource htarget hpending hlog (hplain.imp_left hnone)
    · rw [trySend_of_transfer_error hreceiver htarget hpending hoffered hrefused]
      exact .refused _
    · obtain ⟨va, hoffer, hva, rfl⟩ := hpage page src rfl
      rw [htarget] at htarget'
      cases htarget'
      cases hshare : shareRegion sender receiver source target (.one va.page) (.one dst) rights s with
      | error e t =>
          rw [hshare] at htransfer
          rw [trySend_of_transfer_error hreceiver htarget hpending hoffered htransfer]
          exact .stuck hreceiver hsource htarget hpending hoffer hva hdst hrights hshare
      | ok _ t =>
          obtain ⟨_, hsource'⟩ := env?_shareRegion (j := receiver) (i := sender) source target
            (.one va.page) (.one dst) rights hsource
          obtain ⟨_, htarget'⟩ := env?_shareRegion (j := receiver) (i := sender) source target
            (.one va.page) (.one dst) rights htarget
          rw [hshare] at htransfer
          rw [hshare, stateOf_ok] at hsource' htarget'
          obtain ⟨u, hsend, hlog⟩ := trySend_of_transfer_ok hreceiver htarget hpending hoffered
            htransfer hsource' htarget'
          rw [hsend]
          exact .withPage hreceiver hsource htarget hpending hoffer hva hdst hrights hshare hlog

/-! ## Waiting -/

def waitFor (request : RecvRequest) (env : Env) : Env :=
  { env with
    mailbox := { env.mailbox with waiting := some request }
    status := .notRunnable
    frame := env.frame.setResult 0 }

theorem receive_cases (index : Nat) (request : RecvRequest) (s : Realm) :
    stateOf (receive index request s) = s ∨
      (s.modifyEnv index (waitFor request)).SameButLog (stateOf (receive index request s)) := by
  rw [receive]
  split
  · exact Or.inl rfl
  · exact Or.inr (sameButLog_note _ _ _ _)

end Exokernel.Realm
