import Exokernel.Proofs.Ipc.Verdict

/-! # What the receiver is told of the page

With a message its receiver is told a permission word: that of the page that came with it, and the
empty one if none came.  The word that is told is the word of the sender.  It says nothing of the
access that a page keeps from the one that it replaces, and a page can come with a word that is
empty. -/

namespace Exokernel

/-! ## Kept access -/

theorem Space.access_sharedFlags_iff {access : PageFlags → Bool}
    (hunion : ∀ f g : PageFlags, access (f.union g) = (access f || access g))
    (haccess : ∀ f : PageFlags, access f.access = access f) (rights : MapRights)
    (old : Option PageEntry) (b : Backing) :
    access (sharedFlags rights old b) = true ↔ access rights.flags = true ∨
      rights.combine = true ∧ ∃ o, old = some o ∧ o.backing = b ∧ access o.flags = true := by
  cases old with
  | none => simp [sharedFlags]
  | some o =>
      simp only [sharedFlags]
      split
      · next hsame =>
        rw [Bool.and_eq_true, decide_eq_true_eq] at hsame
        rw [hunion, haccess, Bool.or_eq_true]
        simp [hsame]
      · next hother =>
        rw [Bool.and_eq_true, decide_eq_true_eq, not_and] at hother
        refine (or_iff_left ?_).symm
        rintro ⟨hcombine, _, ⟨⟩, hback, -⟩
        exact hother hcombine hback

namespace Realm

variable {s t : Realm} {sender receiver : Nat} {source before after : Env} {request : SendRequest}
  {pending : RecvRequest} {offer : PageOffer} {src dst : VirtPage} {e : PageEntry}

/-- The page that a message is mapped at: the one that the receiver wants, if one is offered. -/
def broughtPage? (request : SendRequest) (pending : RecvRequest) : Option VirtPage :=
  request.page.bind fun _ => pending.dst

/-- The receiver is told a word that is not empty if a page came with the message, and only then;
and the word grants write and execute access if the page does, and only then. -/
structure Faithful (request : SendRequest) (pending : RecvRequest) (after : Env) : Prop where
  perm_ne_iff : after.mailbox.delivery.perm ≠ .empty ↔ (broughtPage? request pending).isSome = true
  write_iff : ∀ dst e, broughtPage? request pending = some dst → after.table.lookup dst = some e →
    (after.mailbox.delivery.perm.contains .write = true ↔ e.flags.write = true)
  exec_iff : ∀ dst e, broughtPage? request pending = some dst → after.table.lookup dst = some e →
    (after.mailbox.delivery.perm.contains .exec = true ↔ e.flags.execute = true)

/-- The sender asks for the access of the replaced page to be kept, the receiver had that access,
and the replaced page was mapped to what is mapped there now.  A page that is sent to itself is
always the same. -/
def Kept (access : PageFlags → Bool) (sender receiver : Nat) (before : Env) (offer : PageOffer)
    (src dst : VirtPage) (e : PageEntry) : Prop :=
  Prot.contains ⟨offer.perm⟩ .combine = true ∧ ∃ old, before.table.lookup dst = some old ∧
    access old.flags = true ∧ (old.backing = e.backing ∨ sender = receiver ∧ src = dst)

/-- The page that came with a message, and what the receiver is told of it. -/
structure Brought (t : Realm) (sender receiver : Nat) (before after : Env) (offer : PageOffer)
    (src dst : VirtPage) (e : PageEntry) : Prop where
  mapped : after.table.lookup dst = some e
  /-- It is the page of the sender. -/
  sent : ∃ source, t.registry.env? sender = some source ∧ source.table.backing? src = some e.backing
  /-- The receiver is told the word of the sender. -/
  told : after.mailbox.delivery.perm = ⟨offer.perm⟩
  write_iff : e.flags.write = true ↔ Prot.contains ⟨offer.perm⟩ .write = true ∨
    Kept PageFlags.write sender receiver before offer src dst e
  exec_iff : e.flags.execute = true ↔ Prot.contains ⟨offer.perm⟩ .exec = true ∨
    Kept PageFlags.execute sender receiver before offer src dst e

/-- The table that a page is mapped in has the entries of the receiver, but the source page of a
sender to itself has its frame. -/
theorem exists_receivingTable_iff {b : Backing} {access : PageFlags → Bool}
    (hself : sender = receiver → source = before) :
    (∃ old, (receivingTable sender receiver source before src b).lookup dst = some old ∧
      old.backing = b ∧ access old.flags = true) ↔
    ∃ old, before.table.lookup dst = some old ∧ access old.flags = true ∧
      (old.backing = b ∨ sender = receiver ∧ src = dst) := by
  by_cases hsame : sender = receiver ∧ src = dst
  · obtain ⟨hsender, rfl⟩ := hsame
    obtain rfl := hself hsender
    rw [receivingTable, if_pos hsender, PageTable.lookup_rebase, if_pos rfl]
    cases source.table.lookup src with
    | none => simp
    | some old => simp [hsender]
  · have hlookup : (receivingTable sender receiver source before src b).lookup dst =
        before.table.lookup dst := by
      rw [receivingTable]
      split
      · next hsender =>
        obtain rfl := hself hsender
        rw [PageTable.lookup_rebase, if_neg fun hpage => hsame ⟨hsender, hpage⟩]
      · rfl
    rw [hlookup]
    simp only [hsame, or_false]
    constructor
    · rintro ⟨old, hold, hback, haccess⟩
      exact ⟨old, hold, haccess, hback⟩
    · rintro ⟨old, hold, haccess, hback⟩
      exact ⟨old, hold, hback, haccess⟩

theorem PageShared.access_iff {o : PageEntry} {b : Backing} {pair : SpacePair}
    (h : PageShared sender receiver source before src dst (.ofProt ⟨offer.perm⟩) o b s pair)
    (hself : sender = receiver → source = before) (he : pair.target.lookup dst = some e)
    {access : PageFlags → Bool}
    (hunion : ∀ f g : PageFlags, access (f.union g) = (access f || access g))
    (haccess : ∀ f : PageFlags, access f.access = access f) :
    access e.flags = true ↔ access (MapRights.ofProt ⟨offer.perm⟩).flags = true ∨
      Kept access sender receiver before offer src dst e := by
  rw [h.target_eq, if_pos rfl] at he
  cases he
  rw [Space.access_sharedFlags_iff hunion haccess, exists_receivingTable_iff hself]
  rfl

/-- What a receiver has after a message, and what it is told. -/
structure Recorded (t : Realm) (sender receiver : Nat) (request : SendRequest) (pending : RecvRequest)
    (before after : Env) : Prop where
  /-- Without an offer or without a wish nothing is mapped, and the receiver is told so. -/
  nothing : broughtPage? request pending = none →
    after.table = before.table ∧ after.mailbox.delivery.perm = .empty
  page : ∀ dst, broughtPage? request pending = some dst → ∃ offer src e,
    request.page = some offer ∧ VirtAddr.aligned? offer.src = some src ∧
    Brought t sender receiver before after offer src.page dst e
  /-- The record is faithful exactly if the word of the sender has a bit, and the page keeps no
  access that the word does not grant. -/
  faithful_iff : Faithful request pending after ↔ ∀ offer src dst e, request.page = some offer →
    VirtAddr.aligned? offer.src = some src → pending.dst = some dst →
    after.table.lookup dst = some e → offer.perm ≠ 0 ∧
      (Kept PageFlags.write sender receiver before offer src.page dst e →
        Prot.contains ⟨offer.perm⟩ .write = true) ∧
      (Kept PageFlags.execute sender receiver before offer src.page dst e →
        Prot.contains ⟨offer.perm⟩ .exec = true)

theorem recorded_of_nothing (hplain : request.page = none ∨ pending.dst = none)
    (htable : after.table = before.table) (hperm : after.mailbox.delivery.perm = .empty) :
    Recorded t sender receiver request pending before after := by
  have hnone : broughtPage? request pending = none := by
    rw [broughtPage?, Option.bind_eq_none_iff]
    intro offer hoffer
    rcases hplain with hpage | hdst
    · rw [hpage] at hoffer
      cases hoffer
    · exact hdst
  refine ⟨fun _ => ⟨htable, hperm⟩, fun dst hdst => ?_, iff_of_true ⟨?_, ?_, ?_⟩ ?_⟩
  · rw [hnone] at hdst
    cases hdst
  · simp [hnone, hperm]
  · simp [hnone]
  · simp [hnone]
  · intro offer src dst e hoffer _ hdst
    rcases hplain with hpage | hno
    · rw [hpage] at hoffer
      cases hoffer
    · rw [hno] at hdst
      cases hdst

theorem recorded_of_brought {src : VirtAddr} (hoffer : request.page = some offer)
    (hsrc : VirtAddr.aligned? offer.src = some src) (hdst : pending.dst = some dst)
    (h : Brought t sender receiver before after offer src.page dst e) :
    Recorded t sender receiver request pending before after := by
  have hpage : broughtPage? request pending = some dst := by
    rw [broughtPage?, hoffer]
    exact hdst
  refine ⟨fun hnone => ?_, fun dst' hdst' => ?_, ?_⟩
  · rw [hpage] at hnone
    cases hnone
  · rw [hpage] at hdst'
    cases hdst'
    exact ⟨offer, src, e, hoffer, hsrc, h⟩
  have hempty : (⟨offer.perm⟩ : Prot) ≠ .empty ↔ offer.perm ≠ 0 := by
    rw [Prot.empty, Ne, Prot.mk.injEq]
  constructor
  · intro hfaithful offer' src' dst' e' hoffer' hsrc' hdst' he'
    rw [hoffer] at hoffer'
    cases hoffer'
    rw [hsrc] at hsrc'
    cases hsrc'
    rw [hdst] at hdst'
    cases hdst'
    rw [h.mapped] at he'
    cases he'
    have hperm := hfaithful.perm_ne_iff.mpr (by rw [hpage]; rfl)
    have hwrite := hfaithful.write_iff dst e hpage h.mapped
    have hexec := hfaithful.exec_iff dst e hpage h.mapped
    rw [h.told] at hperm hwrite hexec
    exact ⟨hempty.mp hperm, fun hkept => hwrite.mpr (h.write_iff.mpr (Or.inr hkept)),
      fun hkept => hexec.mpr (h.exec_iff.mpr (Or.inr hkept))⟩
  · intro hall
    obtain ⟨hperm, hwrite, hexec⟩ := hall offer src dst e hoffer hsrc hdst h.mapped
    refine ⟨iff_of_true ?_ (by rw [hpage]; rfl), ?_, ?_⟩
    · rw [h.told]
      exact hempty.mpr hperm
    · intro dst' e' hdst' he'
      rw [hpage] at hdst'
      cases hdst'
      rw [h.mapped] at he'
      cases he'
      rw [h.told, h.write_iff]
      exact (or_iff_left_of_imp hwrite).symm
    · intro dst' e' hdst' he'
      rw [hpage] at hdst'
      cases hdst'
      rw [h.mapped] at he'
      cases he'
      rw [h.told, h.exec_iff]
      exact (or_iff_left_of_imp hexec).symm

/-- What every message that is delivered leaves with its receiver, in every state. -/
theorem recorded_of_send (h : trySend sender request s = .ok receiver t) :
    ∃ before after pending, s.registry.env? receiver = some before ∧
      before.mailbox.waiting = some pending ∧ t.registry.env? receiver = some after ∧
      Recorded t sender receiver request pending before after := by
  have houtcome := sendOutcome_trySend sender request s
  rw [h] at houtcome
  cases houtcome with
  | @alone _ source before pending _ _ _ hbefore hpending hlog hplain =>
      refine ⟨before, { before with
        mailbox := ⟨none, ⟨source.id, request.value, .empty, 0⟩⟩, status := .runnable }, pending,
        hbefore, hpending, ?_, recorded_of_nothing hplain rfl rfl⟩
      rw [hlog.registry_eq, deliver, env?_modifyEnv, if_pos rfl, hbefore]
      rfl
  | @withPage _ source before pending offer src dst rights _ _ _ hsource hbefore hpending hoffer hsrc
      hdst hrights hshare hlog =>
      obtain ⟨rfl, htruncate⟩ := eq_ofProt_of_forCopy hrights
      obtain ⟨o, b, pair, hshared, rfl⟩ := pageShared_of_shareRegion hshare
      rw [htruncate] at hlog
      have hself : sender = receiver → source = before := by
        rintro rfl
        exact Option.some.inj (hsource.symm.trans hbefore)
      obtain ⟨sourceAfter, hsourceAfter, hsent⟩ := hshared.exists_backing hsource
        ⟨source.id, request.value, ⟨offer.perm⟩, min offer.size pending.maxSize⟩
      have hmapped := hshared.target_eq dst
      rw [if_pos rfl] at hmapped
      have hafter := env?_deliver_putPair (i := sender) hbefore pair
        ⟨source.id, request.value, ⟨offer.perm⟩, min offer.size pending.maxSize⟩
      rw [← hlog.registry_eq] at hafter
      refine ⟨before, _, pending, hbefore, hpending, hafter, recorded_of_brought hoffer hsrc hdst
        ⟨hmapped, ⟨sourceAfter, ?_, hsent⟩, rfl, ?_, ?_⟩⟩
      · rw [hlog.registry_eq]
        exact hsourceAfter
      · exact hshared.access_iff hself hmapped (fun _ _ => rfl) fun _ => rfl
      · exact hshared.access_iff hself hmapped (fun _ _ => rfl) fun _ => rfl

theorem recorded_of_send_letter : ∃ t, trySend 0 letter postOffice = .ok 1 t ∧
    ∃ before after pending, postOffice.registry.env? 1 = some before ∧
      before.mailbox.waiting = some pending ∧ t.registry.env? 1 = some after ∧
      Recorded t 0 1 letter pending before after := by
  have hsend := eq_ok_of_answer?
    (by decide +kernel : answer? (trySend 0 letter postOffice) = some 1)
  exact ⟨_, hsend, recorded_of_send hsend⟩

def blankLetter : SendRequest := ⟨.ofParts 1 1, 7, some ⟨0x1000, 0x1000, 0⟩⟩

/-- A page comes with the word without any bit, and the receiver is told that none came. -/
theorem unfaithful_of_blank_word : ∃ t before after,
    trySend 0 blankLetter postOffice = .ok 1 t ∧ postOffice.registry.env? 1 = some before ∧
    before.mailbox.waiting = some ⟨some 5, 0x1000⟩ ∧ before.table.lookup 5 = none ∧
    t.registry.env? 1 = some after ∧ after.table.lookup 5 ≠ none ∧
    after.mailbox.delivery.perm = .empty ∧
    ¬ Faithful blankLetter ⟨some 5, 0x1000⟩ after := by
  have hsend := eq_ok_of_answer?
    (by decide +kernel : answer? (trySend 0 blankLetter postOffice) = some 1)
  obtain ⟨before, hbefore, hwaits⟩ := (Option.any_eq_true _ _).mp
    (by decide +kernel : (postOffice.registry.env? 1).any (fun before =>
      before.mailbox.waiting == some ⟨some 5, 0x1000⟩ && (before.table.lookup 5).isNone) = true)
  obtain ⟨after, hafter, hmaps⟩ := (Option.any_eq_true _ _).mp
    (by decide +kernel : ((stateOf (trySend 0 blankLetter postOffice)).registry.env? 1).any
      (fun after => (after.table.lookup 5).isSome && after.mailbox.delivery.perm == .empty) = true)
  rw [Bool.and_eq_true, beq_iff_eq, Option.isNone_iff_eq_none] at hwaits
  rw [Bool.and_eq_true, beq_iff_eq, Option.isSome_iff_ne_none] at hmaps
  refine ⟨_, before, after, hsend, hbefore, hwaits.1, hwaits.2, hafter, hmaps.1, hmaps.2, ?_⟩
  intro hfaithful
  exact hfaithful.perm_ne_iff.mpr rfl hmaps.2

end Realm

end Exokernel
