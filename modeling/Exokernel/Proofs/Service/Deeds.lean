import Exokernel.Proofs.Env.Authority
import Exokernel.Proofs.Env.Outlines
import Exokernel.Proofs.Ipc.Sending

/-! # What calls make of environments

A call that is carried out delivers a message to an environment, lets one wait for a message, or
gives one a status; or it does none of this, and then it leaves every environment as it was but for
its memory, ends one, or creates one. -/

namespace Exokernel

namespace Realm

variable {s t : Realm} {i j : Nat}

/-! ## Requests on address spaces -/

theorem sameOutlines_setTable (s : Realm) (index : Nat) (table : PageTable) :
    s.registry.SameOutlines (s.setTable index table).registry :=
  .modify _ _ fun _ => rfl

theorem sameOutlines_putPair (s : Realm) (i j : Nat) (pair : SpacePair) :
    s.registry.SameOutlines (s.putPair i j pair).registry :=
  (sameOutlines_setTable { s with memory := pair.memory } i pair.source).trans
    (sameOutlines_setTable _ j pair.target)

theorem sameOutlines_onSpace {α : Type} (index : Nat) (env : Env) (x : SpaceM α) (s : Realm) :
    s.registry.SameOutlines (stateOf (onSpace index env x s)).registry := by
  rw [stateOf_onSpace]
  exact sameOutlines_setTable { s with memory := _ } _ _

theorem sameOutlines_shareRegion (source target : Env) (src dst : PageRange) (rights : MapRights)
    (s : Realm) : s.registry.SameOutlines
      (stateOf (shareRegion i j source target src dst rights s)).registry := by
  by_cases hij : i = j
  · subst hij
    rw [shareRegion_same]
    exact sameOutlines_onSpace _ _ _ _
  · rw [stateOf_shareRegion_ne hij]
    exact sameOutlines_putPair _ _ _ _

theorem SameButLog.sameOutlines (h : s.SameButLog t) : s.registry.SameOutlines t.registry := by
  rw [h.registry_eq]
  exact .refl _

/-! ## The end of an environment -/

theorem slot?_endEnv (s : Realm) (index : Nat) (actor : Option EnvId) (trace : Bool) (i : Nat) :
    (s.endEnv index actor trace).2.registry.slot? i =
      if index = i then (s.registry.slot? i).map fun slot => { slot with env := none }
      else s.registry.slot? i := by
  rcases s.endEnv_cases index actor trace with ⟨hvacant, hsame⟩ | ⟨env, registry, htake, hlog⟩
  · rw [hsame]
    split
    · next hi =>
      subst hi
      cases hslot : s.registry.slot? index with
      | none => rfl
      | some slot =>
          obtain ⟨generation, occupant⟩ := slot
          rw [Registry.env?_of_slot? hslot] at hvacant
          rw [hvacant]
          rfl
    · rfl
  · rw [hlog.registry_eq]
    exact Registry.slot?_of_take? htake i

theorem vacated_of_endEnv {index : Nat} {env : Env} {s : Realm}
    (henv : s.registry.env? index = some env) (actor : Option EnvId) (trace : Bool) :
    (s.endEnv index actor trace).2.registry.env? index = none ∧
      (s.endEnv index actor trace).2.registry.current =
        if s.registry.current = some index then none else s.registry.current := by
  rcases s.endEnv_cases index actor trace with ⟨hnone, -⟩ | ⟨_, registry, htake, hlog⟩
  · rw [henv] at hnone
    cases hnone
  · obtain ⟨-, -, hnone, -, hcurrent⟩ := Registry.take?_eq_some htake
    rw [hlog.registry_eq]
    exact ⟨hnone, hcurrent⟩

theorem capacity_endEnv (s : Realm) (index : Nat) (actor : Option EnvId) (trace : Bool) :
    (s.endEnv index actor trace).2.registry.capacity = s.registry.capacity := by
  rcases s.endEnv_cases index actor trace with ⟨-, hsame⟩ | ⟨env, registry, htake, hlog⟩
  · rw [hsame]
  · rw [hlog.registry_eq]
    exact (Registry.take?_eq_some htake).2.1

theorem current_endEnv (s : Realm) (index : Nat) (actor : Option EnvId) (trace : Bool) :
    (s.endEnv index actor trace).2.registry.current = s.registry.current ∨
      (s.endEnv index actor trace).2.registry.current = none := by
  rcases s.endEnv_cases index actor trace with ⟨-, hsame⟩ | ⟨env, registry, htake, hlog⟩
  · rw [hsame]
    exact Or.inl rfl
  · rw [hlog.registry_eq]
    exact Registry.current_of_take? htake

/-! ## Messages -/

/-- The message that a send delivers: the offered page comes with it if the receiver wants one. -/
def deliveryFor (sender : Env) (request : SendRequest) (pending : RecvRequest) : Delivery :=
  match request.page, pending.dst with
  | some offer, some _ =>
    ⟨sender.id, request.value, Prot.truncate offer.perm, min offer.size pending.maxSize⟩
  | _, _ => ⟨sender.id, request.value, .empty, 0⟩

theorem deliveryFor_of_plain (sender : Env) {request : SendRequest} {pending : RecvRequest}
    (h : request.page = none ∨ pending.dst = none) :
    deliveryFor sender request pending = ⟨sender.id, request.value, .empty, 0⟩ := by
  rw [deliveryFor]
  rcases h with hnone | hnone
  · rw [hnone]
  · rw [hnone]
    cases request.page <;> rfl

end Realm

namespace Service

/-- Is the call about one environment apart from its memory? -/
def isDirected : Syscall → Bool
  | .ipcTrySend | .ipcRecv | .envSetStatus => true
  | _ => false

/-- The slot of the environment that a message is sent to, that waits for one, or that is given a
status. -/
def target? (r : Registry) (caller : Nat) (args : Args) : Syscall → Option Nat
  | .ipcTrySend => (r.resolve (.ofWord args.arg0) caller false).toOption
  | .ipcRecv => some caller
  | .envSetStatus => (r.resolve (.ofWord args.arg0) caller true).toOption
  | _ => none

theorem target?_of_not_directed {r : Registry} {caller : Nat} {args : Args} {call : Syscall}
    (h : isDirected call = false) : target? r caller args call = none := by
  cases call <;> first | rfl | cases h

/-- What a call that was answered with `word` makes of the environment in a slot, its memory and the
word itself aside. -/
inductive Deed (r : Registry) (caller : Nat) (args : Args) (word : Option Int64) (index : Nat) :
    Syscall → Env → Env → Prop where
  | idle {call env} (h : word = some 0 → target? r caller args call ≠ some index) :
      Deed r caller args word index call env env
  | delivered {env sender pending} (hword : word = some 0)
      (htarget : target? r caller args .ipcTrySend = some index)
      (hsender : r.env? caller = some sender) (hpending : env.mailbox.waiting = some pending) :
      Deed r caller args word index .ipcTrySend env { env with
        mailbox := ⟨none, Realm.deliveryFor sender (sendRequest args) pending⟩
        status := .runnable }
  | waits {env request} (hword : word = some 0) (hself : index = caller)
      (hrequest : RecvRequest.decode args.arg0 args.arg1 = .ok request) :
      Deed r caller args word index .ipcRecv env (Realm.waitFor request env)
  | given {env status} (hword : word = some 0)
      (htarget : target? r caller args .envSetStatus = some index)
      (hstatus : settableStatus? args.arg1 = some status) :
      Deed r caller args word index .envSetStatus env (withStatus status env)

/-- What the work of a call makes of a slot, given what it makes of an environment. -/
inductive Turn (caller index : Nat) (deed : Env → Env → Prop) : Slot → Slot → Prop where
  | vacant {generation} : Turn caller index deed ⟨generation, none⟩ ⟨generation, none⟩
  | born {generation parent frame} : Turn caller index deed ⟨generation, none⟩
      ⟨Registry.nextGeneration generation,
        some { Env.fresh (.ofParts index (Registry.nextGeneration generation)) parent .user
          .notRunnable with frame }⟩
  | ended {generation env} : Turn caller index deed ⟨generation, some env⟩ ⟨generation, none⟩
  /-- The caller is to end with its call. -/
  | doomed {generation env} (h : index = caller) : Turn caller index deed ⟨generation, some env⟩
      ⟨generation, some { env with status := .dying }⟩
  | kept {generation env env' table upcall} (h : deed env env') :
      Turn caller index deed ⟨generation, some env⟩
        ⟨generation, some { env' with table, upcall }⟩

/-- The work of a call turns one registry into another. -/
structure Turns (caller : Nat) (deed : Nat → Env → Env → Prop) (r r' : Registry) : Prop where
  capacity_eq : r'.capacity = r.capacity
  current_or : r'.current = r.current ∨ r'.current = none
  slot : ∀ i slot, r.slot? i = some slot →
    ∃ slot', r'.slot? i = some slot' ∧ Turn caller i (deed i) slot slot'

variable {caller : Caller} {args : Args} {s t : Realm} {call : Syscall}
  {deed : Nat → Env → Env → Prop}

theorem Turns.of_sameOutlines {slot : Nat} {r r' : Registry} (h : r.SameOutlines r')
    (hdeed : ∀ i env, deed i env env) : Turns slot deed r r' := by
  refine ⟨h.capacity_eq, Or.inl h.current_eq, ?_⟩
  rintro i ⟨generation, _ | env⟩ hslot
  · exact ⟨_, h.vacant hslot, .vacant⟩
  · obtain ⟨table, upcall, hslot'⟩ := h.occupied hslot
    exact ⟨_, hslot', .kept (hdeed i env)⟩

/-- A change of one environment that the deed allows, after some requests on address spaces. -/
theorem Turns.of_modify {slot index : Nat} {r r' : Registry} {f : Env → Env}
    (h : r.SameOutlines r') (hdeed : ∀ i env, i ≠ index → deed i env env)
    (hf : ∀ generation env table upcall, r.slot? index = some ⟨generation, some env⟩ →
      ∃ env', f { env with table, upcall } = { env' with table, upcall } ∧
        deed index env env') : Turns slot deed r (r'.modify index f) := by
  refine ⟨(Registry.capacity_modify _ _ _).trans h.capacity_eq, Or.inl h.current_eq, ?_⟩
  rintro i ⟨generation, _ | env⟩ hslot
  · refine ⟨⟨generation, none⟩, ?_, .vacant⟩
    rw [Registry.slot?_modify, h.vacant hslot]
    exact ite_self _
  · obtain ⟨table, upcall, hslot'⟩ := h.occupied hslot
    rw [Registry.slot?_modify, hslot']
    by_cases hi : index = i
    · subst hi
      obtain ⟨env', heq, hdeed'⟩ := hf generation env table upcall hslot
      refine ⟨_, if_pos rfl, ?_⟩
      change Turn _ _ _ _ ⟨generation, some (f { env with table, upcall })⟩
      rw [heq]
      exact .kept hdeed'
    · exact ⟨_, if_neg hi, .kept (hdeed i env (Ne.symm hi))⟩

theorem Turns.of_doomed {slot : Nat} {r : Registry} (hdeed : ∀ i env, deed i env env) :
    Turns slot deed r (r.modify slot fun env => { env with status := .dying }) := by
  refine ⟨Registry.capacity_modify _ _ _, Or.inl rfl, ?_⟩
  rintro i ⟨generation, _ | env⟩ hslot
  · refine ⟨⟨generation, none⟩, ?_, .vacant⟩
    rw [Registry.slot?_modify, hslot]
    exact ite_self _
  · rw [Registry.slot?_modify, hslot]
    by_cases hi : slot = i
    · exact ⟨_, if_pos hi, .doomed hi.symm⟩
    · exact ⟨_, if_neg hi, .kept (hdeed i env)⟩

theorem Turns.of_endEnv {slot : Nat} (index : Nat) (actor : Option EnvId) (trace : Bool)
    (hdeed : ∀ i env, deed i env env) :
    Turns slot deed s.registry (s.endEnv index actor trace).2.registry := by
  refine ⟨s.capacity_endEnv _ _ _, s.current_endEnv _ _ _, ?_⟩
  rintro i ⟨generation, occupant⟩ hslot
  rw [Realm.slot?_endEnv, hslot]
  by_cases hi : index = i
  · refine ⟨_, if_pos hi, ?_⟩
    cases occupant with
    | none => exact .vacant
    | some env => exact .ended
  · refine ⟨_, if_neg hi, ?_⟩
    cases occupant with
    | none => exact .vacant
    | some env => exact .kept (hdeed i env)

theorem Turns.of_fork {slot child : Nat} {parent : Option EnvId} {r r' : Registry}
    {frame : TrapFrame} (hdeed : ∀ i env, deed i env env)
    (hchild : r.allocate parent .user .notRunnable = .ok (child, r')) :
    Turns slot deed r (r'.modify child fun e => { e with frame }) := by
  obtain ⟨-, hcapacity, hcurrent, -⟩ := Registry.allocate_eq_ok hchild
  obtain ⟨generation, hvacant, hslots⟩ := Registry.slot?_of_allocate hchild
  refine ⟨(Registry.capacity_modify _ _ _).trans hcapacity, Or.inl hcurrent, ?_⟩
  intro i before hslot
  rw [Registry.slot?_modify, hslots i]
  by_cases hi : child = i
  · subst hi
    rw [hvacant] at hslot
    cases hslot
    rw [if_pos rfl, if_pos rfl]
    exact ⟨_, rfl, .born⟩
  · rw [if_neg hi, if_neg hi]
    refine ⟨before, hslot, ?_⟩
    obtain ⟨generation', _ | env⟩ := before
    · exact .vacant
    · exact .kept (hdeed i env)

/-! ## The calls that make nothing of an environment -/

theorem sameOutlines_writeChunks (caller : Caller) (start : Nat) (sizes : List Nat) (s : Realm) :
    s.registry.SameOutlines (stateOf (writeChunks caller start sizes s)).registry := by
  refine keeps_writeChunks (I := fun u => s.registry.SameOutlines u.registry) ?_ ?_ start sizes s
    (.refl _)
  · intro u env start length hu _
    exact hu.trans (Realm.sameOutlines_onSpace _ _ _ _)
  · exact fun _ _ hu => hu

/-- Without a target a call leaves the environments as they were, ends one or creates one. -/
theorem Effect.turns (heffect : Effect caller args s call t)
    (hcall : isDirected call = false) (hdeed : ∀ i env, deed i env env) :
    Turns caller.slot deed s.registry t.registry := by
  cases heffect with
  | same => exact .of_sameOutlines (.refl _) hdeed
  | print => exact .of_sameOutlines (sameOutlines_writeChunks _ _ _ _) hdeed
  | convict hlog =>
      rw [← hlog.registry_eq]
      exact .of_doomed hdeed
  | readChar => exact .of_sameOutlines (.refl _) hdeed
  | exit _ hlog =>
      rw [← hlog.registry_eq]
      exact .of_doomed hdeed
  | destroy _ _ hlog actor trace =>
      rw [← hlog.registry_eq]
      exact .of_endEnv _ actor trace hdeed
  | alloc => exact .of_sameOutlines (Realm.sameOutlines_onSpace _ _ _ _) hdeed
  | share => exact .of_sameOutlines (Realm.sameOutlines_shareRegion _ _ _ _ _ _) hdeed
  | device => exact .of_sameOutlines (Realm.sameOutlines_onSpace _ _ _ _) hdeed
  | unmap => exact .of_sameOutlines (Realm.sameOutlines_onSpace _ _ _ _) hdeed
  | fork _ hchild hlog =>
      rw [hlog.registry_eq]
      exact .of_fork hdeed hchild
  | setStatus => cases hcall
  | setUpcall => exact .of_sameOutlines (.modify _ _ fun _ => rfl) hdeed
  | send => cases hcall
  | receive => cases hcall

/-! ## The calls about one environment -/

theorem liftIpc_of_ok {α : Type} {x : EStateM IpcError Realm α} {a : α} (h : x s = .ok a t) :
    (liftM x : SysM α) s = .ok a t := by
  change EStateM.adaptExcept _ x s = _
  rw [EStateM.adaptExcept, h]

theorem liftIpc_of_error {α : Type} {x : EStateM IpcError Realm α} {e : IpcError}
    (h : x s = .error e t) : (liftM x : SysM α) s = .error (.ipc e) t := by
  change EStateM.adaptExcept _ x s = _
  rw [EStateM.adaptExcept, h]

/-- The word that the result of a call writes back, if it writes one. -/
def answerOf : EStateM.Result SysError Realm Reply → Option Int64
  | .ok reply _ => some reply.value.toInt64
  | .error e _ => e.code?.map ErrorCode.word

theorem answerOf_error_ne (e : SysError) (s : Realm) : answerOf (.error e s) ≠ some 0 := by
  have hword : ∀ code : ErrorCode, code.word ≠ 0 := by
    intro code
    cases code <;> decide
  intro h
  obtain ⟨code, -, hzero⟩ := Option.map_eq_some_iff.mp h
  exact hword code hzero

/-- The deeds of a call, given what it comes to. -/
abbrev deeds (caller : Caller) (args : Args) (s : Realm) (call : Syscall)
    (result : EStateM.Result SysError Realm Reply) (index : Nat) : Env → Env → Prop :=
  Deed s.registry caller.slot args (answerOf result) index call

theorem turns_of_error {result : EStateM.Result SysError Realm Reply} {e : SysError}
    (hresult : result = .error e t) (h : s.registry.SameOutlines t.registry) :
    Turns caller.slot (deeds caller args s call result) s.registry (stateOf result).registry := by
  rw [hresult]
  exact .of_sameOutlines h fun _ _ => .idle fun hword => absurd hword (answerOf_error_ne _ _)

theorem turns_envSetStatus :
    Turns caller.slot (deeds caller args s .envSetStatus (envSetStatus caller args s)) s.registry
      (stateOf (envSetStatus caller args s)).registry := by
  cases hindex : s.registry.resolve (.ofWord args.arg0) caller.slot true with
  | error e => exact turns_of_error (bind_of_error (controlled_of_error hindex) _) (.refl _)
  | ok index =>
  have hresult : envSetStatus caller args s = _ := bind_of_ok (controlled_of_ok hindex) _
  cases hstatus : settableStatus? args.arg1 with
  | none =>
      refine turns_of_error (e := .invalidArgs) (hresult.trans ?_) (.refl _)
      simp only [hstatus]
      rfl
  | some status =>
      have htarget : target? s.registry caller.slot args .envSetStatus = some index :=
        congrArg Except.toOption hindex
      obtain ⟨reply, hdone, hzero⟩ : ∃ reply, envSetStatus caller args s =
          .ok reply (s.modifyEnv index (withStatus status)) ∧ reply.value = 0 := by
        rw [hresult]
        simp only [hstatus]
        refine ⟨_, rfl, ?_⟩
        split <;> rfl
      have hword : answerOf (.ok reply (s.modifyEnv index (withStatus status))) = some 0 := by
        rw [answerOf, hzero]
        rfl
      rw [hdone]
      apply Turns.of_modify (.refl _)
      · intro i env hi
        exact .idle fun _ hi' => hi (Option.some.inj (hi'.symm.trans htarget))
      · intro generation env table upcall _
        exact ⟨withStatus status env, rfl, .given hword htarget hstatus⟩

theorem turns_ipcRecv :
    Turns caller.slot (deeds caller args s .ipcRecv (ipcRecv caller args s)) s.registry
      (stateOf (ipcRecv caller args s)).registry := by
  cases hrequest : RecvRequest.decode args.arg0 args.arg1 with
  | error e =>
      refine turns_of_error (e := .ipc e) ?_ (.refl _)
      rw [ipcRecv]
      rw [hrequest]
      rfl
  | ok request =>
  have hresult : ipcRecv caller args s =
      ((liftM (Realm.receive caller.slot request) : SysM Unit) >>= fun _ => pure .pause) s := by
    rw [ipcRecv]
    rw [hrequest]
  cases henv : s.registry.env? caller.slot with
  | none =>
      have hnone : Realm.receive caller.slot request s = .error (.env .badEnvironment) s := by
        rw [Realm.receive, henv]
      exact turns_of_error (hresult.trans (bind_of_error (liftIpc_of_error hnone) _)) (.refl _)
  | some env =>
      obtain ⟨t, hreceive, hlog⟩ : ∃ t, Realm.receive caller.slot request s = .ok () t ∧
          (s.modifyEnv caller.slot (Realm.waitFor request)).SameButLog t := by
        rw [Realm.receive, henv]
        exact ⟨_, rfl, Realm.sameButLog_note _ _ _ _⟩
      have hdone : ipcRecv caller args s = .ok .pause t :=
        hresult.trans (bind_of_ok (liftIpc_of_ok hreceive) _)
      rw [hdone, stateOf_ok, hlog.registry_eq]
      apply Turns.of_modify (.refl _)
      · intro i env hi
        exact .idle fun _ hi' => hi (Option.some.inj hi').symm
      · intro generation env table upcall _
        exact ⟨Realm.waitFor request env, rfl, .waits rfl rfl hrequest⟩

/-- A message that was delivered, after the offered page was mapped if one is wanted. -/
theorem turns_of_delivery {receiver : Nat} {source target : Env} {pending : RecvRequest}
    {delivery : Delivery} {u : Realm}
    (hsend : Realm.trySend caller.slot (sendRequest args) s = .ok receiver u)
    (hreceiver : s.registry.resolve (sendRequest args).target caller.slot false = .ok receiver)
    (hsource : s.registry.env? caller.slot = some source)
    (htarget : s.registry.env? receiver = some target)
    (hpending : target.mailbox.waiting = some pending)
    (hdelivery : Realm.deliveryFor source (sendRequest args) pending = delivery)
    (houtlines : s.registry.SameOutlines t.registry)
    (hlog : (t.deliver receiver delivery).SameButLog u) :
    Turns caller.slot (deeds caller args s .ipcTrySend (ipcTrySend caller args s)) s.registry
      (stateOf (ipcTrySend caller args s)).registry := by
  have hdone : ipcTrySend caller args s = .ok .done u := bind_of_ok (liftIpc_of_ok hsend) _
  have haim : target? s.registry caller.slot args .ipcTrySend = some receiver :=
    congrArg Except.toOption hreceiver
  rw [hdone, stateOf_ok, hlog.registry_eq]
  apply Turns.of_modify houtlines
  · intro i env hi
    exact .idle fun _ hi' => hi (Option.some.inj (hi'.symm.trans haim))
  · intro generation env table upcall hslot
    rw [Registry.env?_of_slot? hslot] at htarget
    cases htarget
    have hdeed : deeds caller args s .ipcTrySend (.ok .done u) receiver target _ :=
      .delivered rfl haim hsource hpending
    rw [hdelivery] at hdeed
    exact ⟨_, rfl, hdeed⟩

theorem turns_ipcTrySend :
    Turns caller.slot (deeds caller args s .ipcTrySend (ipcTrySend caller args s)) s.registry
      (stateOf (ipcTrySend caller args s)).registry := by
  have houtcome := Realm.sendOutcome_trySend caller.slot (sendRequest args) s
  generalize hsend : Realm.trySend caller.slot (sendRequest args) s = result at houtcome
  cases houtcome with
  | refused e => exact turns_of_error (bind_of_error (liftIpc_of_error hsend) _) (.refl _)
  | alone hreceiver hsource htarget hpending hlog hplain =>
      exact turns_of_delivery hsend hreceiver hsource htarget hpending
        (Realm.deliveryFor_of_plain _ hplain) (.refl _) hlog
  | @stuck receiver source target _ _ src dst rights e t _ _ _ _ _ _ _ _ hshare =>
      have houtlines := Realm.sameOutlines_shareRegion (i := caller.slot) (j := receiver) source
        target (.one src.page) (.one dst) rights s
      rw [hshare] at houtlines
      exact turns_of_error (bind_of_error (liftIpc_of_error hsend) _) houtlines
  | @withPage receiver source target _ _ src dst rights t u hreceiver hsource htarget hpending
      hoffer _ hdst _ hshare hlog =>
      have houtlines := Realm.sameOutlines_shareRegion (i := caller.slot) (j := receiver) source
        target (.one src.page) (.one dst) rights s
      rw [hshare] at houtlines
      refine turns_of_delivery hsend hreceiver hsource htarget hpending ?_ houtlines hlog
      simp only [Realm.deliveryFor, hoffer, hdst]

theorem turns_of_standard {service : Service} (h : ServiceTable.standard call = some service) :
    Turns caller.slot (deeds caller args s call (service caller args s)) s.registry
      (stateOf (service caller args s)).registry := by
  cases hcall : isDirected call with
  | false =>
      apply (effect_of_standard h).turns hcall
      intro i env
      refine .idle fun _ htarget => ?_
      rw [target?_of_not_directed hcall] at htarget
      cases htarget
  | true =>
      cases call with
      | envSetStatus =>
          cases h
          exact turns_envSetStatus
      | ipcTrySend =>
          cases h
          exact turns_ipcTrySend
      | ipcRecv =>
          cases h
          exact turns_ipcRecv
      | _ => cases hcall

/-- What the call with a number makes of the environments; a number without a call makes nothing of
them. -/
theorem turns_answer (caller : Caller) (args : Args) (s : Realm) (number : Word) :
    Turns caller.slot (fun i env env' => match Syscall.ofNumber? number.toNat with
        | some call => Deed s.registry caller.slot args
            (resultWord? (ServiceTable.standard.answer number caller args s).result) i call env env'
        | none => env' = env)
      s.registry (ServiceTable.standard.answer number caller args s).realm.registry := by
  rw [ServiceTable.answer, ServiceTable.dispatch]
  cases hcall : Syscall.ofNumber? number.toNat with
  | none => exact .of_sameOutlines (.refl _) fun _ _ => rfl
  | some call =>
      rw [Option.bind_some]
      cases hservice : ServiceTable.standard call with
      | none => cases call <;> cases hservice
      | some service =>
          have hturns : Turns _ (deeds caller args s call _) _ _ := turns_of_standard hservice
          simp only
          generalize service caller args s = result at hturns
          cases result <;> exact hturns

/-! ## Deeds and registers -/

theorem target?_of_sameNames {r r' : Registry} (h : r.SameNames r') (caller : Nat) (args : Args)
    (call : Syscall) : target? r' caller args call = target? r caller args call := by
  cases call <;> simp only [target?, h.resolve_eq]

theorem Deed.frame_eq {r : Registry} {slot index : Nat} {word : Option Int64} {env env' : Env}
    (h : Deed r slot args word index call env env') (hi : index ≠ slot) : env'.frame = env.frame := by
  cases h with
  | idle => rfl
  | delivered => rfl
  | waits _ hself => exact absurd hself hi
  | given => rfl

/-- A deed does not depend on the registers of the caller, nor on those of the environment. -/
theorem Deed.of_registers {r : Registry} {slot index : Nat} {load : Env → TrapFrame}
    {frame : TrapFrame} {word : Option Int64} {env env' : Env}
    (h : Deed (r.modify slot fun env => { env with frame := load env }) slot args word index call
      { env with frame } env') :
    ∃ env'', Deed r slot args word index call env env'' ∧
      { env' with frame := env.frame } = { env'' with frame := env.frame } := by
  have hnames := r.sameNames_modify slot (f := fun env => { env with frame := load env }) fun _ => rfl
  cases h with
  | idle h =>
      refine ⟨env, .idle ?_, rfl⟩
      rwa [target?_of_sameNames hnames] at h
  | @delivered _ sender pending hword htarget hsender hpending =>
      rw [target?_of_sameNames hnames] at htarget
      rw [Registry.env?_modify, if_pos rfl] at hsender
      obtain ⟨sender', hsender', rfl⟩ := Option.map_eq_some_iff.mp hsender
      exact ⟨_, .delivered hword htarget hsender' hpending, rfl⟩
  | @waits _ request hword hself hrequest => exact ⟨_, .waits hword hself hrequest, rfl⟩
  | @given _ status hword htarget hstatus =>
      rw [target?_of_sameNames hnames] at htarget
      exact ⟨_, .given hword htarget hstatus, rfl⟩

end Service

end Exokernel
