import Exokernel.Proofs.Env.Authority
import Exokernel.Proofs.Env.Tables
import Exokernel.Proofs.Ipc.Sending
import Exokernel.Proofs.Region.Provenance

/-! # Where the entries of environments come from

After a call every entry of every environment was there before, or had no frame and was given one,
or is one that this call is there to make.  `Grants` lists the entries of the last sort for each
call. -/

namespace Exokernel

namespace Service

/-- The entry `e` is put at the page `p` of the environment `env` in slot `i` by the call of the
environment in the slot `caller`. -/
inductive Grants (s : Realm) (pool : FramePool) (caller : Nat) (args : Args) (i : Nat) (env : Env)
    (p : VirtPage) (e : PageEntry) : Syscall → Prop where
  /-- The page is one of the fresh pages.  Its frame, if it has one, is taken when its turn comes,
  and holds the fill byte in the end. -/
  | alloc {r req before after space} (hrange : PageRange.ofWords? args.arg1 args.arg2 = some r)
      (hreq : AllocRequest.decode args.arg3.toUInt32 = .ok req)
      (hindex : s.registry.resolve (.ofWord args.arg0) caller true = .ok i)
      (hpage : r.toList = before ++ p :: after)
      (hbefore : Space.allocatePages req before ⟨s.memory, env.table⟩ = .ok () space)
      (hfresh : Space.FreshEntry req space pool e) :
      Grants s pool caller args i env p e .allocRegion
  /-- The page is one of the device pages.  They are for drivers, and lie inside one window each. -/
  | device {pa r rights} (n : ℕ)
      (hindex : s.registry.resolve (.ofWord args.arg1) caller true = .ok i)
      (hkind : env.kind = .driver) (hpa : PhysAddr.aligned? args.arg0.toNat = some pa)
      (hrange : PageRange.ofWords? args.arg2 args.arg3 = some r)
      (hrights : MapRights.forDevice args.arg4.toUInt32 = .ok rights)
      (hpage : r.toList[n]? = some p) (hentry : e = ⟨.device (pa.advance n), rights.flags⟩)
      (hwindow : s.memory.machine.pool.isDeviceRange (pa.advance n) pageSize = true) :
      Grants s pool caller args i env p e .mapPhysicalRegion
  /-- The page is shared from the corresponding page of an environment that the caller may act on.
  If it is the same environment, giving the source pages their frames can change what is
  replaced. -/
  | share {src dst rights j source settled o} (n : ℕ) (q : VirtPage)
      (hsrc : PageRange.ofWords? args.arg1 args.arg4 = some src)
      (hdst : PageRange.ofWords? args.arg3 args.arg4 = some dst)
      (hrights : MapRights.forCopy args.arg5.toUInt32 = .ok rights)
      (hj : s.registry.resolve (.ofWord args.arg0) caller true = .ok j)
      (hi : s.registry.resolve (.ofWord args.arg2) caller true = .ok i)
      (hsource : s.registry.env? j = some source) (hq : src.toList[n]? = some q)
      (hp : dst.toList[n]? = some p)
      (hsettled : Space.populateAll src.toList ⟨s.memory, source.table⟩ = .ok () settled)
      (hshared : Space.SharedEntry ⟨s.memory, source.table⟩ settled pool rights env.table
        (if i = j then settled.table else env.table) q p o e) :
      Grants s pool caller args i env p e .mapRegion
  /-- The page is shared from a page of the caller, and the environment waits for it. -/
  | send {pending offer src rights sender settled o}
      (hi : s.registry.resolve (.ofWord args.arg0) caller false = .ok i)
      (hsender : s.registry.env? caller = some sender)
      (hpending : env.mailbox.waiting = some pending)
      (hoffer : (sendRequest args).page = some offer)
      (hsrc : VirtAddr.aligned? offer.src = some src) (hdst : pending.dst = some p)
      (hrights : MapRights.forCopy offer.perm = .ok rights)
      (hsettled : Space.populateAll [src.page] ⟨s.memory, sender.table⟩ = .ok () settled)
      (hshared : Space.SharedEntry ⟨s.memory, sender.table⟩ settled pool rights env.table
        (if i = caller then settled.table else env.table) src.page p o e) :
      Grants s pool caller args i env p e .ipcTrySend

end Service

namespace Realm

variable {s t u : Realm} {pool : FramePool} {index j k : Nat}
  {laid : PageTable → List ((PhysAddr × Nat) × UInt8)}
  {grants : Nat → Env → VirtPage → PageEntry → Prop}

/-- The environments of `t` are among those of `s`, with the same page tables. -/
def Trims (s t : Realm) : Prop :=
  ∀ i env', t.registry.env? i = some env' → ∃ env, s.registry.env? i = some env ∧
    env.id = env'.id ∧ env.table = env'.table

/-- Every entry of an environment of `t` belongs to an environment of `s`, where it was there
before, or had no frame and was given one, or is granted.  On the way, the bytes `laid` are written
through the table of an environment. -/
def Traces (pool : FramePool) (laid : PageTable → List ((PhysAddr × Nat) × UInt8))
    (grants : Nat → Env → VirtPage → PageEntry → Prop) (s t : Realm) : Prop :=
  ∀ i env' p e, t.registry.env? i = some env' → env'.table.lookup p = some e →
    ∃ env, s.registry.env? i = some env ∧ env.id = env'.id ∧
      (env.table.lookup p = some e ∨ env.table.GivenFrame s.memory pool (laid env'.table) p e ∨
        grants i env p e)

/-! ## Steps that make no entries -/

theorem Trims.refl (s : Realm) : Trims s s := fun _ env' h => ⟨env', h, rfl, rfl⟩

theorem Trims.trans (h : Trims s t) (h' : Trims t u) : Trims s u := by
  intro i env'' hi
  obtain ⟨env', henv', hid', htable'⟩ := h' i env'' hi
  obtain ⟨env, henv, hid, htable⟩ := h i env' henv'
  exact ⟨env, henv, hid.trans hid', htable.trans htable'⟩

theorem Trims.of_sameButLog (h : Trims s t) (hlog : t.SameButLog u) : Trims s u := by
  intro i env' hi
  rw [hlog.registry_eq] at hi
  exact h i env' hi

theorem trims_modifyEnv (s : Realm) (index : Nat) {f : Env → Env}
    (hf : ∀ env, (f env).id = env.id ∧ (f env).table = env.table) :
    Trims s (s.modifyEnv index f) := by
  intro i env' hi
  rw [env?_modifyEnv] at hi
  split at hi
  · obtain ⟨env, henv, rfl⟩ := Option.map_eq_some_iff.mp hi
    exact ⟨env, henv, (hf env).1.symm, (hf env).2.symm⟩
  · exact ⟨env', hi, rfl, rfl⟩

theorem trims_deliver (s : Realm) (receiver : Nat) (delivery : Delivery) :
    Trims s (s.deliver receiver delivery) :=
  trims_modifyEnv s receiver fun _ => ⟨rfl, rfl⟩

theorem trims_endEnv (s : Realm) (index : Nat) (actor : Option EnvId) (trace : Bool) :
    Trims s (s.endEnv index actor trace).2 := by
  rcases s.endEnv_cases index actor trace with ⟨-, hsame⟩ | ⟨ended, registry, htake, hlog⟩
  · rw [hsame]
    exact .refl s
  · obtain ⟨-, -, hnone, hother, -⟩ := Registry.take?_eq_some htake
    refine Trims.of_sameButLog ?_ hlog
    intro i env' hi
    have hne : i ≠ index := by
      rintro rfl
      rw [hnone] at hi
      cases hi
    exact ⟨env', (hother i hne).symm.trans hi, rfl, rfl⟩

theorem trims_receive (s : Realm) (index : Nat) (request : RecvRequest) :
    Trims s (stateOf (receive index request s)) := by
  rcases receive_cases index request s with hsame | hlog
  · rw [hsame]
    exact .refl s
  · exact (trims_modifyEnv s index (f := waitFor request) fun _ => ⟨rfl, rfl⟩).of_sameButLog hlog

theorem Trims.traces (h : Trims s t) : Traces pool laid grants s t := by
  intro i env' p e hi he
  obtain ⟨env, henv, hid, htable⟩ := h i env' hi
  exact ⟨env, henv, hid, Or.inl (htable ▸ he)⟩

theorem Traces.trims (h : Traces pool laid grants s t) (h' : Trims t u) :
    Traces pool laid grants s u := by
  intro i env'' p e hi he
  obtain ⟨env', henv', hid', htable'⟩ := h' i env'' hi
  obtain ⟨env, henv, hid, hcases⟩ := h i env' p e henv' (htable' ▸ he)
  rw [htable'] at hcases
  exact ⟨env, henv, hid.trans hid', hcases⟩

theorem traces_allocate {parent : Option EnvId} {kind : EnvKind} {status : EnvStatus}
    {registry : Registry} (h : s.registry.allocate parent kind status = .ok (index, registry)) :
    Traces pool laid grants s { s with registry } := by
  obtain ⟨-, -, -, ⟨generation, hnew⟩, hother⟩ := Registry.allocate_eq_ok h
  intro i env' p e hi he
  by_cases heq : i = index
  · subst heq
    cases hnew.symm.trans hi
    rw [Env.fresh, PageTable.lookup_empty] at he
    cases he
  · exact ⟨env', (hother i heq).symm.trans hi, rfl, Or.inl he⟩

/-! ## Requests on spaces -/

theorem traces_putSpace {env : Env} {space : Space} (henv : s.registry.env? index = some env)
    (h : ∀ p e, space.table.lookup p = some e → env.table.lookup p = some e ∨
      env.table.GivenFrame s.memory pool (laid space.table) p e ∨ grants index env p e) :
    Traces pool laid grants s (s.putSpace index space) := by
  intro i env' p e hi he
  rw [env?_putSpace] at hi
  split at hi
  · next heq =>
    subst heq
    rw [henv] at hi
    cases hi
    exact ⟨env, henv, rfl, h p e he⟩
  · exact ⟨env', hi, rfl, Or.inl he⟩

theorem traces_onSpace {α : Type} {env : Env} {x : SpaceM α}
    (henv : s.registry.env? index = some env)
    (h : ∀ p e, (stateOf (x ⟨s.memory, env.table⟩)).table.lookup p = some e →
      env.table.lookup p = some e ∨
        env.table.GivenFrame s.memory pool (laid (stateOf (x ⟨s.memory, env.table⟩)).table) p e ∨
          grants index env p e) :
    Traces pool laid grants s (stateOf (onSpace index env x s)) := by
  rw [stateOf_onSpace]
  exact traces_putSpace henv h

theorem traces_onSpace_of_furnished {α : Type} {env : Env} {x : SpaceM α}
    (henv : s.registry.env? index = some env)
    (hx : Space.Furnished (laid (stateOf (x ⟨s.memory, env.table⟩)).table) ⟨s.memory, env.table⟩
      (stateOf (x ⟨s.memory, env.table⟩)))
    (hbytes : (stateOf (onSpace index env x s)).memory.machine.pool.SameBytes pool) :
    Traces pool laid grants s (stateOf (onSpace index env x s)) := by
  rw [stateOf_onSpace] at hbytes
  apply traces_onSpace henv
  intro p e he
  exact (hx.givenFrame hbytes he).imp_right Or.inl

theorem traces_shareRegion {source target : Env} {src dst : PageRange} {rights : MapRights}
    (hsource : s.registry.env? j = some source) (htarget : s.registry.env? k = some target)
    (hbytes : (stateOf (shareRegion j k source target src dst rights
      s)).memory.machine.pool.SameBytes pool)
    (hgrants : ∀ (n : ℕ) q p o e settled, src.toList[n]? = some q → dst.toList[n]? = some p →
      Space.populateAll src.toList ⟨s.memory, source.table⟩ = .ok () settled →
      Space.SharedEntry ⟨s.memory, source.table⟩ settled pool rights target.table
        (if k = j then settled.table else target.table) q p o e → grants k target p e) :
    Traces pool (fun _ => []) grants s
      (stateOf (shareRegion j k source target src dst rights s)) := by
  by_cases hjk : j = k
  · subst hjk
    rw [hsource] at htarget
    cases htarget
    simp only [if_true] at hgrants
    rw [shareRegion_same, stateOf_onSpace] at hbytes
    rw [shareRegion_same]
    apply traces_onSpace hsource
    intro p e he
    rcases Space.lookup_copyWithin he with hsame | hgiven |
      ⟨n, q, o, settled, hq, hp, hsettled, hshared⟩
    · exact Or.inl hsame
    · exact Or.inr (Or.inl (hgiven.of_sameBytes hbytes))
    · right
      right
      exact hgrants n q p o e settled hq hp hsettled (hshared.of_sameBytes hbytes)
  · rw [stateOf_shareRegion_ne hjk] at hbytes ⊢
    simp only [Ne.symm hjk, if_false] at hgrants
    intro i env' p e hi he
    rw [env?_putPair] at hi
    split at hi
    · next heq =>
      subst heq
      rw [htarget] at hi
      cases hi
      refine ⟨target, htarget, rfl, ?_⟩
      rcases SpacePair.lookup_target_copyAcross he with hsame |
        ⟨n, q, o, settled, hq, hp, hsettled, hshared⟩
      · exact Or.inl hsame
      · right
        right
        exact hgrants n q p o e settled hq hp hsettled (hshared.of_sameBytes hbytes)
    · split at hi
      · next heq =>
        subst heq
        rw [hsource] at hi
        cases hi
        refine ⟨source, hsource, rfl, ?_⟩
        rcases SpacePair.lookup_source_copyAcross he with hsame | hgiven
        · exact Or.inl hsame
        · exact Or.inr (Or.inl (hgiven.of_sameBytes hbytes))
      · exact ⟨env', hi, rfl, Or.inl he⟩

theorem traces_trySend {sender : Nat} {request : SendRequest}
    (hbytes : (stateOf (trySend sender request s)).memory.machine.pool.SameBytes pool)
    (hgrants : ∀ receiver source target pending offer src dst rights o e settled,
      s.registry.resolve request.target sender false = .ok receiver →
      s.registry.env? sender = some source → s.registry.env? receiver = some target →
      target.mailbox.waiting = some pending → request.page = some offer →
      VirtAddr.aligned? offer.src = some src → pending.dst = some dst →
      MapRights.forCopy offer.perm = .ok rights →
      Space.populateAll [src.page] ⟨s.memory, source.table⟩ = .ok () settled →
      Space.SharedEntry ⟨s.memory, source.table⟩ settled pool rights target.table
        (if receiver = sender then settled.table else target.table) src.page dst o e →
        grants receiver target dst e) :
    Traces pool (fun _ => []) grants s (stateOf (trySend sender request s)) := by
  have houtcome := sendOutcome_trySend sender request s
  generalize Realm.trySend sender request s = result at houtcome hbytes
  -- Whether or not the page could be mapped, only the one page has a new entry.
  have hpage : ∀ receiver source target pending offer src dst rights,
      s.registry.resolve request.target sender false = .ok receiver →
      s.registry.env? sender = some source → s.registry.env? receiver = some target →
      target.mailbox.waiting = some pending → request.page = some offer →
      VirtAddr.aligned? offer.src = some src → pending.dst = some dst →
      MapRights.forCopy offer.perm = .ok rights →
      (stateOf (shareRegion sender receiver source target (.one src.page) (.one dst) rights
        s)).memory.machine.pool.SameBytes pool →
        Traces pool (fun _ => []) grants s (stateOf (shareRegion sender receiver source target
          (.one src.page) (.one dst) rights s)) := by
    intro receiver source target pending offer src dst rights hreceiver hsource htarget hpending
      hoffer hsrc hdst hrights hshare
    apply traces_shareRegion hsource htarget hshare
    intro n q p o e settled hq hp hsettled hshared
    have hqmem := List.mem_of_getElem? hq
    have hpmem := List.mem_of_getElem? hp
    rw [PageRange.toList_one] at hqmem hpmem hsettled
    rw [List.mem_singleton] at hqmem hpmem
    subst hqmem hpmem
    exact hgrants receiver source target pending offer src p rights o e settled hreceiver hsource
      htarget hpending hoffer hsrc hdst hrights hsettled hshared
  cases houtcome with
  | refused e => exact (Trims.refl s).traces
  | alone _ _ _ _ hlog =>
      exact ((trims_deliver s _ _).of_sameButLog hlog).traces
  | stuck hreceiver hsource htarget hpending hoffer hsrc hdst hrights hshare =>
      have hafter :=
        hpage _ _ _ _ _ _ _ _ hreceiver hsource htarget hpending hoffer hsrc hdst hrights
      rw [hshare] at hafter
      exact hafter hbytes
  | withPage hreceiver hsource htarget hpending hoffer hsrc hdst hrights hshare hlog =>
      have hafter :=
        hpage _ _ _ _ _ _ _ _ hreceiver hsource htarget hpending hoffer hsrc hdst hrights
      rw [hshare] at hafter
      rw [stateOf_ok, hlog.pool_eq] at hbytes
      exact (hafter hbytes).trims ((trims_deliver _ _ _).of_sameButLog hlog)

end Realm

namespace Service

variable {caller : Caller} {args : Args} {call : Syscall} {s t : Realm} {pool : FramePool}

/-- Text that is written makes the caller read its pages, and only gives frames to them. -/
theorem furnished_writeChunks {env : Env} (henv : s.registry.env? caller.slot = some env)
    (start : Nat) (sizes : List Nat) :
    ∃ space, Space.Furnished [] ⟨s.memory, env.table⟩ space ∧
      (stateOf (writeChunks caller start sizes s)).memory = space.memory ∧
      ∀ i, (stateOf (writeChunks caller start sizes s)).registry.env? i =
        (s.putSpace caller.slot space).registry.env? i := by
  refine keeps_writeChunks (I := fun u => ∃ space, Space.Furnished [] ⟨s.memory, env.table⟩ space ∧
    u.memory = space.memory ∧ ∀ i, u.registry.env? i =
      (s.putSpace caller.slot space).registry.env? i) ?_ (fun _ _ hu => hu) start sizes s ?_
  · rintro u other start length ⟨space, hfurnished, hmemory, hregistry⟩ hother
    rw [hregistry, Realm.env?_putSpace, if_pos rfl, henv] at hother
    cases hother
    refine ⟨_, Space.keeps_readBytes (Space.keeps_furnished_populate _) start length space
      hfurnished, ?_⟩
    rw [Realm.stateOf_onSpace, hmemory]
    refine ⟨rfl, ?_⟩
    intro i
    rw [Realm.env?_putSpace, hregistry, Realm.env?_putSpace, Realm.env?_putSpace]
    split
    · rw [Option.map_map]
      rfl
    · rfl
  · refine ⟨⟨s.memory, env.table⟩, .refl _, rfl, ?_⟩
    intro i
    rw [Realm.env?_putSpace]
    split
    · next heq =>
      subst heq
      rw [henv]
      rfl
    · rfl

/-- After a call every entry was there before, or was given a frame, or is one that the call
grants. -/
theorem Effect.traces (heffect : Effect caller args s call t)
    (hbytes : t.memory.machine.pool.SameBytes pool) :
    Realm.Traces pool (fun _ => [])
      (fun i env p e => Grants s pool caller.slot args i env p e call) s t := by
  cases heffect with
  | same => exact (Realm.Trims.refl s).traces
  | print henv =>
      obtain ⟨space, hfurnished, hmemory, hregistry⟩ := furnished_writeChunks henv args.arg0.toNat
        (chunks args.arg1.toNat)
      rw [hmemory] at hbytes
      have htraces : Realm.Traces pool (fun _ => [])
          (fun i env p e => Grants s pool caller.slot args i env p e .cputs) s
          (s.putSpace caller.slot space) := by
        apply Realm.traces_putSpace henv
        intro p e he
        exact (hfurnished.givenFrame hbytes he).imp_right Or.inl
      intro i env' p e hi
      rw [hregistry] at hi
      exact htraces i env' p e hi
  | convict hlog =>
      refine Realm.Trims.traces (((Realm.Trims.refl s).of_sameButLog hlog).trans ?_)
      exact Realm.trims_modifyEnv _ _ fun _ => ⟨rfl, rfl⟩
  | readChar => exact Realm.Trims.traces fun i env' hi => Realm.Trims.refl s i env' hi
  | exit _ hlog =>
      refine Realm.Trims.traces (((Realm.Trims.refl s).of_sameButLog hlog).trans ?_)
      exact Realm.trims_modifyEnv _ _ fun _ => ⟨rfl, rfl⟩
  | destroy _ _ hlog =>
      exact (((Realm.Trims.refl s).of_sameButLog hlog).trans (Realm.trims_endEnv _ _ _ _)).traces
  | alloc hrange hreq hindex henv =>
      apply Realm.traces_onSpace henv
      intro p e he
      rcases Space.lookup_allocateRegion he with hsame |
        ⟨before, after, u, hpage, hbefore, hfresh⟩
      · exact Or.inl hsame
      · rw [Realm.stateOf_onSpace] at hbytes
        refine Or.inr (Or.inr (.alloc hrange hreq hindex hpage hbefore ?_))
        exact hfresh.of_frame_eq fun pa => (hbytes.frame_eq pa).trans
  | share hsrc hdst hrights hi hj hsource htarget =>
      apply Realm.traces_shareRegion hsource htarget hbytes
      intro n q p o e settled hq hp hsettled hshared
      exact .share n q hsrc hdst hrights hi hj hsource hq hp hsettled hshared
  | device hindex henv hkind hpa hrange hrights =>
      apply Realm.traces_onSpace henv
      intro p e he
      rcases Space.lookup_mapDeviceRegion he with hsame | ⟨n, hpage, hentry, hwindow⟩
      · exact Or.inl hsame
      · exact Or.inr (Or.inr (.device n hindex hkind hpa hrange hrights hpage hentry hwindow))
  | unmap _ _ henv =>
      apply Realm.traces_onSpace henv
      intro p e he
      exact Or.inl (Space.lookup_of_lookup_unmapRegion he)
  | fork _ hchild hlog =>
      refine (Realm.traces_allocate hchild).trims (Realm.Trims.of_sameButLog ?_ hlog)
      exact Realm.trims_modifyEnv _ _ fun _ => ⟨rfl, rfl⟩
  | setStatus => exact Realm.Trims.traces (Realm.trims_modifyEnv s _ fun _ => ⟨rfl, rfl⟩)
  | setUpcall => exact Realm.Trims.traces (Realm.trims_modifyEnv s _ fun _ => ⟨rfl, rfl⟩)
  | send =>
      apply Realm.traces_trySend hbytes
      intro receiver source target pending offer src dst rights o e settled hi hsender _ hpending
        hoffer hsrc hdst hrights hsettled hshared
      exact .send hi hsender hpending hoffer hsrc hdst hrights hsettled hshared
  | receive => exact (Realm.trims_receive _ _ _).traces

/-- What a call grants does not depend on the registers of the environments. -/
theorem Grants.of_loadCall {index slot i : Nat} {number : Word} {words : Args} {env env' : Env}
    {p : VirtPage} {e : PageEntry}
    (h : Grants (s.modifyEnv index fun env => { env with frame := env.frame.loadCall number words })
      pool slot args i env' p e call)
    (htable : env'.table = env.table) (hkind : env'.kind = env.kind)
    (hmailbox : env'.mailbox = env.mailbox) : Grants s pool slot args i env p e call := by
  have hnames := s.registry.sameNames_modify index (f := fun env =>
    { env with frame := env.frame.loadCall number words }) fun _ => rfl
  have hresolve : ∀ id slot check index', (s.modifyEnv index fun env =>
      { env with frame := env.frame.loadCall number words }).registry.resolve id slot check =
        .ok index' → s.registry.resolve id slot check = .ok index' :=
    fun _ _ _ _ hok => (hnames.resolve_eq _ _ _).symm.trans hok
  have hsame : ∀ j source', (s.modifyEnv index fun env =>
      { env with frame := env.frame.loadCall number words }).registry.env? j = some source' →
        ∃ source, s.registry.env? j = some source ∧ source.table = source'.table := by
    intro j source' hj
    obtain ⟨source, hsource, -, hsourceTable⟩ := Realm.trims_modifyEnv s index
      (f := fun env => { env with frame := env.frame.loadCall number words })
      (fun _ => ⟨rfl, rfl⟩) j source' hj
    exact ⟨source, hsource, hsourceTable⟩
  cases h with
  | alloc hrange hreq hindex hpage hbefore hfresh =>
      rw [htable] at hbefore
      exact .alloc hrange hreq (hresolve _ _ _ _ hindex) hpage hbefore hfresh
  | device n hindex hdriver hpa hrange hrights hpage hentry hwindow =>
      exact .device n (hresolve _ _ _ _ hindex) (hkind.symm.trans hdriver) hpa hrange hrights hpage
        hentry hwindow
  | share n q hsrc hdst hrights hj hi hsource hq hp hsettled hshared =>
      obtain ⟨source, hsource, hsourceTable⟩ := hsame _ _ hsource
      rw [← hsourceTable] at hsettled
      rw [htable, ← hsourceTable] at hshared
      exact .share n q hsrc hdst hrights (hresolve _ _ _ _ hj) (hresolve _ _ _ _ hi) hsource hq hp
        hsettled hshared
  | send hi hsender hpending hoffer hsrc hdst hrights hsettled hshared =>
      obtain ⟨sender, hsender, hsenderTable⟩ := hsame _ _ hsender
      rw [← hsenderTable] at hsettled
      rw [htable, ← hsenderTable] at hshared
      rw [hmailbox] at hpending
      exact .send (hresolve _ _ _ _ hi) hsender hpending hoffer hsrc hdst hrights hsettled hshared

end Service

end Exokernel
