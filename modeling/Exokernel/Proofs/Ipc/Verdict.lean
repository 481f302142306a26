import Exokernel.Proofs.Ipc.Transfer

/-! # What becomes of a message

Whether a message is delivered, and why not, is decided by looking at the state before it: reasons
to refuse it are looked for in a fixed order, and the first one is the answer.  A refused message
changes nothing; any other is delivered, and the page that comes with it is all that is mapped. -/

namespace Exokernel

/-- The receiver that a request names, and its slot: the sender itself for zero, and else the
environment with exactly this identifier.  An environment that is to end cannot be named. -/
def SendRequest.receiver? (request : SendRequest) (r : Registry) (sender : Nat) :
    Option (Nat × Env) :=
  (if request.target.isSelf then some sender else r.lookup request.target).bind fun index =>
    (r.env? index).bind fun env => if env.status = .dying then none else some (index, env)

/-- The permission word of an offer has a bit without a meaning, or one about fresh pages. -/
def PageOffer.badPermission (offer : PageOffer) : Bool :=
  (Prot.ofBits? offer.perm).isNone ||
    [ProtBit.lazy, .allocZero, .allocOne].any (Prot.contains ⟨offer.perm⟩)

/-- The frames that sharing a page takes: one for a source page without a frame, and one for a leaf
table that is missing. -/
def framesToShare (o : PageEntry) (target : PageTable) (dst : VirtPage) : Nat :=
  (if o.backing.isLazy then 1 else 0) + (if (target.leaf? dst.leaf).isNone then 1 else 0)

/-- The first reason not to map an offered page. -/
def pageFault? (pool : FramePool) (source target : PageTable) (offer : PageOffer)
    (src dst : VirtPage) : Option RegionError :=
  if offer.badPermission then some .badPermission
  else
    match source.lookup src with
    | none => some .notMapped
    | some o =>
      if !o.isUser then some .notMapped
      else if Prot.contains ⟨offer.perm⟩ .write && !o.isWritable then some .permissionDenied
      else if pool.freeFrames < framesToShare o target dst then some .noMemory
      else none

/-- The first reason to refuse a message, in the order in which they are looked for. -/
def sendFault? (s : Realm) (sender : Nat) (source : Env) (request : SendRequest) : Option IpcError :=
  match request.receiver? s.registry sender with
  | none => some (.env .badEnvironment)
  | some (_, target) =>
    match target.mailbox.waiting with
    | none => some .notReceiving
    | some pending =>
      match request.page with
      | none => none
      | some offer =>
        match VirtAddr.aligned? offer.src with
        | none => some .invalidArgs
        | some src =>
          match pending.dst with
          | none => none
          | some dst =>
            (pageFault? s.memory.machine.pool source.table target.table offer src.page dst).map
              .region

/-! ## Reasons -/

theorem forCopy_of_badPermission {offer : PageOffer} (h : offer.badPermission = true) :
    MapRights.forCopy offer.perm = .error .badPermission := by
  rw [PageOffer.badPermission] at h
  rw [MapRights.forCopy, MapRights.decode, Prot.known]
  cases hknown : Prot.ofBits? offer.perm with
  | none => rfl
  | some p =>
      obtain ⟨hbits, -⟩ := Prot.ofBits?_eq_some_iff.mp hknown
      have hp : p = ⟨offer.perm⟩ := Prot.ext hbits
      subst hp
      rw [hknown, Option.isNone_some, Bool.false_or] at h
      simp only [h, if_true]

theorem forCopy_of_not_badPermission {offer : PageOffer} (h : offer.badPermission = false) :
    MapRights.forCopy offer.perm = .ok (.ofProt ⟨offer.perm⟩) := by
  rw [PageOffer.badPermission, Bool.or_eq_false_iff] at h
  obtain ⟨hsome, hnone⟩ := h
  rw [MapRights.forCopy, MapRights.decode, Prot.known]
  cases hknown : Prot.ofBits? offer.perm with
  | none =>
      rw [hknown] at hsome
      cases hsome
  | some p =>
      obtain ⟨hbits, -⟩ := Prot.ofBits?_eq_some_iff.mp hknown
      have hp : p = ⟨offer.perm⟩ := Prot.ext hbits
      subst hp
      simp only [hnone]
      rfl

/-- With rights to it, the page is shared exactly if there is no reason not to map it. -/
theorem copyFault?_eq_pageFault? {memory : Memory} (hreliable : memory.machine.Reliable)
    (source target : PageTable) {offer : PageOffer} (src dst : VirtPage)
    (hperm : offer.badPermission = false) :
    Space.copyFault? memory source target (.one src) (.one dst) (.ofProt ⟨offer.perm⟩) =
      pageFault? memory.machine.pool source target offer src dst := by
  have hfree : memory.machine.freeFrames = memory.machine.pool.freeFrames := hreliable.freeFrames_eq
  rw [Space.copyFault?_one, pageFault?, hperm, Space.sourceFault?, hfree]
  simp only [Bool.false_eq_true, if_false]
  cases source.lookup src with
  | none => rfl
  | some o =>
      simp only [framesToShare, Option.any_some]
      by_cases huser : (!o.isUser) = true
      · rw [if_pos huser, if_pos huser]
      · rw [if_neg huser, if_neg huser]
        by_cases hdenied : ((MapRights.ofProt ⟨offer.perm⟩).write && !o.isWritable) = true
        · rw [if_pos hdenied]
          exact (if_pos hdenied).symm
        · rw [if_neg hdenied]
          exact (if_neg hdenied).symm

namespace Registry

variable {r : Registry} {request : SendRequest} {sender receiver : Nat} {target : Env}

theorem resolve_of_receiver?_eq_none (h : request.receiver? r sender = none) :
    r.resolve request.target sender false = .error .badEnvironment := by
  rw [SendRequest.receiver?] at h
  rw [resolve]
  cases hindex : (if request.target.isSelf then some sender else r.lookup request.target) with
  | none => rfl
  | some index =>
      rw [hindex, Option.bind_some] at h
      cases henv : r.env? index with
      | none => simp only [henv]
      | some env =>
          rw [henv, Option.bind_some] at h
          split at h
          · next hdying => simp only [henv, hdying, if_true]
          · cases h

theorem resolve_of_receiver?_eq_some (h : request.receiver? r sender = some (receiver, target)) :
    r.resolve request.target sender false = .ok receiver ∧ r.env? receiver = some target := by
  obtain ⟨index, hindex, hbind⟩ := Option.bind_eq_some_iff.mp h
  obtain ⟨env, henv, hstatus⟩ := Option.bind_eq_some_iff.mp hbind
  split at hstatus
  · cases hstatus
  · next hdying =>
    cases hstatus
    exact ⟨resolve_eq_ok_iff_isAncestor.mpr ⟨hindex, target, henv, hdying, nofun⟩, henv⟩

end Registry

/-! ## The decision -/

namespace Realm

/-- What comes with a message: nothing, if no page is offered or none is wanted; else the offered
page, with the permission word and the size that the receiver is told of. -/
inductive Transfer (s : Realm) (sender receiver : Nat) (source target : Env) (request : SendRequest)
    (pending : RecvRequest) : SpacePair → Prot → Word → Prop where
  | nothing (hplain : request.page = none ∨ pending.dst = none) :
      Transfer s sender receiver source target request pending
        ⟨s.memory, source.table, target.table⟩ .empty 0
  | page {offer src dst o b pair} (offered : request.page = some offer)
      (aligned : VirtAddr.aligned? offer.src = some src) (wanted : pending.dst = some dst)
      (shared : PageShared sender receiver source target src.page dst (.ofProt ⟨offer.perm⟩) o b s
        pair) :
      Transfer s sender receiver source target request pending pair ⟨offer.perm⟩
        (min offer.size pending.maxSize)

/-- The realm after a message was delivered. -/
structure Delivered (s : Realm) (sender receiver : Nat) (source target : Env) (request : SendRequest)
    (t : Realm) : Prop where
  /-- The receiver waits no more, may run, and has the message; its table, the table of the sender
  and the memory are as the transfer left them, and nothing else is changed but the log. -/
  transferred : ∃ pending pair perm size, target.mailbox.waiting = some pending ∧
    Transfer s sender receiver source target request pending pair perm size ∧
    t.registry.env? receiver = some { target with
      table := pair.target
      mailbox := ⟨none, ⟨source.id, request.value, perm, size⟩⟩
      status := .runnable } ∧
    ((s.putPair sender receiver pair).deliver receiver
      ⟨source.id, request.value, perm, size⟩).SameButLog t
  /-- All frames are accounted for, and no frame is lost. -/
  balanced : Balanced (strays s.memory s.registry.tables) t.memory t.registry.tables

variable {s : Realm} {sender : Nat} {source : Env} {request : SendRequest}

section

variable (hreliable : s.memory.machine.Reliable) (hsource : s.registry.env? sender = some source)

include hreliable hsource

theorem transferPage_outcome {receiver : Nat} {target : Env} {pending : RecvRequest}
    {dst : VirtPage} (htarget : s.registry.env? receiver = some target)
    (hdst : pending.dst = some dst) (offer : PageOffer) (src : VirtPage) :
    match pageFault? s.memory.machine.pool source.table target.table offer src dst with
    | some e => transferPage sender receiver (some (offer, src)) pending s = .error (.region e) s
    | none => ∃ o b pair,
        PageShared sender receiver source target src dst (.ofProt ⟨offer.perm⟩) o b s pair ∧
        transferPage sender receiver (some (offer, src)) pending s =
          .ok (⟨offer.perm⟩, min offer.size pending.maxSize) (s.putPair sender receiver pair) := by
  cases hperm : offer.badPermission with
  | true =>
      rw [pageFault?, hperm]
      exact transferPage_of_refused_rights hdst (forCopy_of_badPermission hperm)
  | false =>
      have hrights := forCopy_of_not_badPermission hperm
      rw [← copyFault?_eq_pageFault? hreliable _ _ _ _ hperm,
        transferPage_of_rights hdst hrights hsource htarget]
      cases hfault : Space.copyFault? s.memory source.table target.table (.one src) (.one dst)
          (.ofProt ⟨offer.perm⟩) with
      | some e =>
          rw [shareRegion_of_fault hsource htarget hfault]
      | none =>
          obtain ⟨t, hshare⟩ := shareRegion_of_no_fault hreliable hsource htarget hfault
          obtain ⟨o, b, pair, hshared, rfl⟩ := pageShared_of_shareRegion hshare
          rw [hshare, (eq_ofProt_of_forCopy hrights).2]
          exact ⟨o, b, pair, hshared, rfl⟩

/-- The reasons to refuse a message are looked for one after the other, as the call does. -/
theorem trySend_outcome (request : SendRequest) :
    match sendFault? s sender source request with
    | some e => trySend sender request s = .error e s
    | none => ∃ receiver target pending pair perm size t,
        request.receiver? s.registry sender = some (receiver, target) ∧
        target.mailbox.waiting = some pending ∧
        Transfer s sender receiver source target request pending pair perm size ∧
        trySend sender request s = .ok receiver t ∧
        ((s.putPair sender receiver pair).deliver receiver
          ⟨source.id, request.value, perm, size⟩).SameButLog t := by
  rw [sendFault?]
  cases hreceiver : request.receiver? s.registry sender with
  | none =>
      simp only
      rw [trySend]
      rw [bind_of_error (liftEnv_of_error
        (resolve_of_error (Registry.resolve_of_receiver?_eq_none hreceiver)))]
  | some named =>
  obtain ⟨receiver, target⟩ := named
  obtain ⟨hresolve, htarget⟩ := Registry.resolve_of_receiver?_eq_some hreceiver
  cases hpending : target.mailbox.waiting with
  | none =>
      simp only [hpending]
      rw [trySend]
      rw [bind_of_ok (liftEnv_of_ok (resolve_of_ok hresolve)),
        bind_of_error (pendingReceive_of_none htarget hpending)]
  | some pending =>
  simp only [hpending]
  have halone : ∀ offer, offeredPage request.page s = .ok offer s →
      (offer = none ∨ pending.dst = none) → ∃ t, trySend sender request s = .ok receiver t ∧
        ((s.putPair sender receiver ⟨s.memory, source.table, target.table⟩).deliver receiver
          ⟨source.id, request.value, .empty, 0⟩).SameButLog t := by
    intro offer hoffered hplain
    rw [putPair_of_unchanged hsource htarget]
    exact trySend_of_transfer_ok hresolve htarget hpending hoffered
      (transferPage_of_plain hplain) hsource htarget
  cases hoffer : request.page with
  | none =>
      obtain ⟨t, hsend, hlog⟩ := halone none (by rw [hoffer]; rfl) (Or.inl rfl)
      exact ⟨receiver, target, pending, _, _, _, t, rfl, hpending, .nothing (Or.inl hoffer), hsend,
        hlog⟩
  | some offer =>
  cases hsrc : VirtAddr.aligned? offer.src with
  | none =>
      simp only [hsrc]
      apply trySend_of_offer_error hresolve htarget hpending
      rw [hoffer]
      exact offeredPage_of_misaligned hsrc
  | some src =>
  simp only [hsrc]
  have hoffered : offeredPage request.page s = .ok (some (offer, src.page)) s := by
    rw [hoffer]
    exact offeredPage_of_aligned hsrc
  cases hdst : pending.dst with
  | none =>
      obtain ⟨t, hsend, hlog⟩ := halone _ hoffered (Or.inr hdst)
      exact ⟨receiver, target, pending, _, _, _, t, rfl, hpending, .nothing (Or.inr hdst), hsend,
        hlog⟩
  | some dst =>
  have htransfer := transferPage_outcome hreliable hsource htarget hdst offer src.page
  cases hfault : pageFault? s.memory.machine.pool source.table target.table offer src.page dst with
  | some e =>
      rw [hfault] at htransfer
      simp only [hfault, Option.map_some]
      exact trySend_of_transfer_error hresolve htarget hpending hoffered htransfer
  | none =>
      rw [hfault] at htransfer
      simp only [hfault, Option.map_none]
      obtain ⟨o, b, pair, hshared, htransfer⟩ := htransfer
      obtain ⟨_, hsource'⟩ := exists_env?_putPair sender receiver pair hsource
      obtain ⟨_, htarget'⟩ := exists_env?_putPair sender receiver pair htarget
      obtain ⟨t, hsend, hlog⟩ := trySend_of_transfer_ok hresolve htarget hpending hoffered htransfer
        hsource' htarget'
      exact ⟨receiver, target, pending, _, _, _, t, rfl, hpending,
        .page hoffer hsrc hdst hshared, hsend, hlog⟩

end

/-- What becomes of a message. -/
structure Decided (s : Realm) (sender : Nat) (source : Env) (request : SendRequest) : Prop where
  refused : ∀ e, sendFault? s sender source request = some e →
    trySend sender request s = .error e s
  delivered : sendFault? s sender source request = none → ∃ receiver target t,
    request.receiver? s.registry sender = some (receiver, target) ∧
    trySend sender request s = .ok receiver t ∧ Delivered s sender receiver source target request t

/-- On an exact machine with all frames accounted for, a message is refused for the first reason
that there is, with nothing changed, and is delivered if there is none. -/
theorem decided_of_accounting (hacc : Accounting s.memory s.registry.tables)
    (hclaims : s.memory.machine.overclaim = 0) (hhidden : s.memory.machine.hidden = [])
    (hsource : s.registry.env? sender = some source) (request : SendRequest) :
    Decided s sender source request := by
  have hreliable : s.memory.machine.Reliable :=
    ⟨hclaims, hhidden, fun _ hi => hacc.pool.lt_size hi⟩
  have houtcome := trySend_outcome hreliable hsource request
  constructor
  · intro e h
    rwa [h] at houtcome
  · intro h
    rw [h] at houtcome
    obtain ⟨receiver, target, pending, pair, perm, size, t, hreceiver, hpending, htransfer, hsend,
      hlog⟩ := houtcome
    obtain ⟨-, htarget⟩ := Registry.resolve_of_receiver?_eq_some hreceiver
    have hbalanced : InBalance (strays s.memory s.registry.tables)
        (stateOf (trySend sender request s)) := books_owing.trySend hacc.balanced sender request
    rw [hsend] at hbalanced
    refine ⟨receiver, target, t, hreceiver, hsend, ⟨pending, pair, perm, size, hpending, htransfer,
      ?_, hlog⟩, hbalanced⟩
    rw [hlog.registry_eq]
    exact env?_deliver_putPair htarget pair _

/-- The realm with one more environment, if there is a free slot. -/
def welcome (s : Realm) : Realm :=
  match s.registry.allocate none .user .runnable with
  | .ok (_, registry) => { s with registry }
  | .error _ => s

theorem inBalance_welcome {stray : PhysAddr → Prop} (h : InBalance stray s) :
    InBalance stray s.welcome := by
  rw [welcome]
  split
  · next hallocate => exact books_owing.allocate h hallocate
  · exact h

def twoEnvs : Realm := (Realm.ofMachine 2 (.sound (.ofFrames 8) (.withFilter none))).welcome.welcome

/-- The sender has a page without a frame, and the other one waits for a page. -/
def postOffice : Realm :=
  match twoEnvs.registry.env? 0, PageRange.ofWords? 0x1000 0x1000 with
  | some writer, some offered =>
    stateOf (receive 1 ⟨(VirtAddr.aligned? 0x5000).map VirtAddr.page, 0x1000⟩ (stateOf (onSpace 0 writer
      (Space.allocateRegion offered ⟨⟨true, false, false, false⟩, true, .zero⟩) twoEnvs)))
  | _, _ => twoEnvs

def letter : SendRequest := ⟨.ofParts 1 1, 7, some ⟨0x1000, 0x1000, 6⟩⟩

theorem inBalance_postOffice : InBalance (fun _ => False) postOffice := by
  have hstart : InBalance (fun _ => False)
      (Realm.ofMachine 2 (.sound (.ofFrames 8) (.withFilter none))) :=
    balanced_ofMachine (FramePool.consistent_ofFrames 8) (FramePool.isUsed_ofFrames 8)
  have henvs : InBalance (fun _ => False) twoEnvs := inBalance_welcome (inBalance_welcome hstart)
  rw [postOffice]
  split
  · next writer offered hwriter _ =>
    apply books_owing.receive
    exact books_owing.onSpace henvs hwriter fun _ => books_owing.allocateRegion _ _
  · exact henvs

theorem decided_of_accounting_letter :
    Accounting postOffice.memory postOffice.registry.tables ∧
    postOffice.memory.machine.overclaim = 0 ∧ postOffice.memory.machine.hidden = [] ∧
    ∃ source, postOffice.registry.env? 0 = some source ∧
      sendFault? postOffice 0 source letter = none ∧ Decided postOffice 0 source letter := by
  obtain ⟨source, hsource⟩ := Option.isSome_iff_exists.mp
    (by decide +kernel : (postOffice.registry.env? 0).isSome = true)
  have hnone : (postOffice.registry.env? 0).all fun source =>
      (sendFault? postOffice 0 source letter).isNone := by decide +kernel
  rw [hsource, Option.all_some, Option.isNone_iff_eq_none] at hnone
  have hacc := inBalance_postOffice.accounting
  have hclaims : postOffice.memory.machine.overclaim = 0 := by decide +kernel
  have hhidden : postOffice.memory.machine.hidden = [] := by decide +kernel
  exact ⟨hacc, hclaims, hhidden, source, hsource, hnone,
    decided_of_accounting hacc hclaims hhidden hsource letter⟩

end Realm

end Exokernel
