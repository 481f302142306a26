import Exokernel.Proofs.Env.Descent
import Exokernel.Proofs.Realm.Upkeep
import Exokernel.Proofs.Region.Shelter

/-! # What calls leave alone

Whatever a call comes to, an environment out of reach of its caller stays as it is, and so do the
bytes that it can reach.  The one thing that can come to it is a message that it waits for. -/

namespace Exokernel

variable {stray : PhysAddr → Prop} {i : Nat} {env : Env} {t : PageTable} {pool : FramePool}

/-- A message has come to an environment that waited for one, and with it at most the page that it
wished for. -/
def Env.GotMessage (env env' : Env) : Prop :=
  ∃ pending delivery table, env.mailbox.waiting = some pending ∧
    env' = { env with mailbox := ⟨none, delivery⟩, status := .runnable, table } ∧
    ∀ p, pending.dst ≠ some p → table.lookup p = env.table.lookup p

namespace Realm

/-- There is this environment in the slot, and what `t` can reach has the bytes that it has in the
pool. -/
structure Holds (i : Nat) (env : Env) (t : PageTable) (pool : FramePool) (s : Realm) : Prop where
  env_eq : s.registry.env? i = some env
  reached : FramePool.SameReached t pool s.memory.machine.pool

variable {s u : Realm} {index j k : Nat} {source target : Env}

/-- Sharing pages changes no byte that any environment but the source can reach.  The target is one
of them. -/
theorem sameReached_shareRegion (hbalance : InBalance stray s)
    (hsource : s.registry.env? j = some source) (htarget : s.registry.env? k = some target)
    (henv : s.registry.env? i = some env) (hne : i ≠ j) (src dst : PageRange) (rights : MapRights) :
    FramePool.SameReached env.table s.memory.machine.pool
      (stateOf (shareRegion j k source target src dst rights s)).memory.machine.pool := by
  by_cases hjk : j = k
  · subst hjk
    have hmem : env.table ∈ s.registry.tablesBut [j] :=
      Registry.mem_tablesBut.mpr ⟨i, by simpa using hne, env, henv, rfl⟩
    rw [shareRegion_same, stateOf_onSpace]
    exact Space.sameReached_copyWithin (hbalance.space hsource) hmem src dst rights
  · have hmem : env.table ∈ target.table :: s.registry.tablesBut [k, j] := by
      by_cases hk : i = k
      · subst hk
        rw [henv] at htarget
        cases htarget
        exact List.mem_cons_self
      · apply List.mem_cons_of_mem
        exact Registry.mem_tablesBut.mpr ⟨i, by simp [hk, hne], env, henv, rfl⟩
    rw [stateOf_shareRegion_ne hjk]
    exact SpacePair.sameReached_copyAcross (hbalance.pair hjk hsource htarget) hmem src dst rights

namespace Holds

theorem of_sameButLog (h : Holds i env t pool s) (hlog : s.SameButLog u) : Holds i env t pool u := by
  refine ⟨?_, ?_⟩
  · rw [hlog.registry_eq]
    exact h.env_eq
  · rw [hlog.pool_eq]
    exact h.reached

theorem modifyEnv (h : Holds i env t pool s) (hne : i ≠ index) (f : Env → Env) :
    Holds i env t pool (s.modifyEnv index f) := by
  refine ⟨?_, h.reached⟩
  rw [env?_modifyEnv, if_neg (Ne.symm hne)]
  exact h.env_eq

theorem putSpace (h : Holds i env t pool s) (hne : i ≠ index) {space : Space}
    (hreached : FramePool.SameReached t s.memory.machine.pool space.pool) :
    Holds i env t pool (s.putSpace index space) := by
  refine ⟨?_, h.reached.trans hreached⟩
  rw [env?_putSpace, if_neg (Ne.symm hne)]
  exact h.env_eq

theorem mem_tablesBut (h : Holds i env t pool s) (hne : i ≠ index) :
    env.table ∈ s.registry.tablesBut [index] :=
  Registry.mem_tablesBut.mpr ⟨i, by simpa using hne, env, h.env_eq, rfl⟩

theorem onSpace {α : Type} {other : Env} {x : SpaceM α} (h : Holds i env env.table pool s)
    (hbalance : InBalance stray s) (hother : s.registry.env? index = some other) (hne : i ≠ index)
    (hx : ∀ rest pool, env.table ∈ rest → Keeps (Space.Shelters stray rest env.table pool) x) :
    Holds i env env.table pool (stateOf (Realm.onSpace index other x s)) := by
  have hafter := hx _ s.memory.machine.pool (h.mem_tablesBut hne) _
    ⟨hbalance.space hother, .refl _ _⟩
  rw [stateOf_onSpace]
  exact h.putSpace hne hafter.reached

theorem shareRegion (h : Holds i env env.table pool s) (hbalance : InBalance stray s)
    (hsource : s.registry.env? j = some source) (htarget : s.registry.env? k = some target)
    (hj : i ≠ j) (hk : i ≠ k) (src dst : PageRange) (rights : MapRights) :
    Holds i env env.table pool (stateOf (Realm.shareRegion j k source target src dst rights s)) := by
  refine ⟨?_, h.reached.trans (sameReached_shareRegion hbalance hsource htarget h.env_eq hj _ _ _)⟩
  rw [env?_shareRegion_of_ne _ _ _ _ _ _ (Ne.symm hj) (Ne.symm hk)]
  exact h.env_eq

theorem endEnv (h : Holds i env t pool s) (hne : i ≠ index) (actor : Option EnvId) (trace : Bool) :
    Holds i env t pool (s.endEnv index actor trace).2 := by
  refine ⟨?_, h.reached.trans ((sameBytes_endEnv s index actor trace).reached t)⟩
  rcases s.endEnv_cases index actor trace with ⟨-, hsame⟩ | ⟨ended, registry, htake, hlog⟩
  · rw [hsame]
    exact h.env_eq
  · obtain ⟨-, -, -, hother, -⟩ := Registry.take?_eq_some htake
    rw [hlog.registry_eq]
    exact (hother i hne).trans h.env_eq

theorem receive (h : Holds i env t pool s) (hne : i ≠ index) (request : RecvRequest) :
    Holds i env t pool (stateOf (Realm.receive index request s)) := by
  rcases receive_cases index request s with hsame | hlog
  · rw [hsame]
    exact h
  · exact (h.modifyEnv hne _).of_sameButLog hlog

end Holds

/-! ## Messages -/

theorem Holds.deliver (table : PageTable) {pending : RecvRequest}
    (h : Holds i { env with table } t pool s) (hpending : env.mailbox.waiting = some pending)
    (htable : ∀ p, pending.dst ≠ some p → table.lookup p = env.table.lookup p)
    (delivery : Delivery) :
    ∃ env', env.GotMessage env' ∧ Holds i env' t pool (s.deliver i delivery) := by
  refine ⟨_, ⟨pending, delivery, table, hpending, rfl, htable⟩, ?_, h.reached⟩
  rw [Realm.deliver, env?_modifyEnv, if_pos rfl, h.env_eq]
  rfl

/-- The target of pages from another environment has a new page table, and is otherwise as it
was. -/
theorem Holds.shareRegion_target (h : Holds i env env.table pool s) (hbalance : InBalance stray s)
    (hne : i ≠ j) (hsource : s.registry.env? j = some source) (src dst : PageRange)
    (rights : MapRights) :
    Holds i
      { env with table := (stateOf (SpacePair.copyAcross src dst rights
        ⟨s.memory, source.table, env.table⟩)).target }
      env.table pool (stateOf (Realm.shareRegion j i source env src dst rights s)) := by
  refine ⟨?_, h.reached.trans (sameReached_shareRegion hbalance hsource h.env_eq h.env_eq hne _ _ _)⟩
  rw [stateOf_shareRegion_ne (Ne.symm hne), env?_putPair, if_pos rfl, h.env_eq]
  rfl

theorem Holds.shareRegion_stuck {src dst : VirtPage} {rights : MapRights} {e : RegionError}
    (h : Holds i env env.table pool s) (hbalance : InBalance stray s) (hne : i ≠ j)
    (hsource : s.registry.env? j = some source)
    (hshare : Realm.shareRegion j i source env (.one src) (.one dst) rights s = .error e u) :
    Holds i env env.table pool u := by
  have hafter := h.shareRegion_target hbalance hne hsource (.one src) (.one dst) rights
  rw [hshare, stateOf_error] at hafter
  rw [shareRegion_ne (Ne.symm hne)] at hshare
  cases hcopy : SpacePair.copyAcross (.one src) (.one dst) rights
      ⟨s.memory, source.table, env.table⟩ with
  | ok _ pair =>
      rw [hcopy] at hshare
      cases hshare
  | error x pair =>
      rwa [hcopy, stateOf_error, SpacePair.target_of_copyAcross_one_error hcopy] at hafter

/-- An attempt to send a message either leaves an environment as it is or delivers the message to
it. -/
theorem holds_trySend {sender : Nat} (request : SendRequest)
    (h : Holds i env env.table pool s) (hbalance : InBalance stray s) (hne : i ≠ sender) :
    Holds i env env.table pool (stateOf (trySend sender request s)) ∨
      ∃ receiver u env', trySend sender request s = .ok receiver u ∧ env.id = request.target ∧
        env.GotMessage env' ∧ Holds i env' env.table pool u := by
  have houtcome := sendOutcome_trySend sender request s
  generalize Realm.trySend sender request s = result at houtcome
  cases houtcome with
  | refused e => exact Or.inl h
  | @alone receiver source target pending _ hreceiver _ htarget hpending hlog =>
      by_cases heq : i = receiver
      · subst heq
        rw [h.env_eq] at htarget
        cases htarget
        obtain ⟨env', hgot, hholds⟩ := Holds.deliver env.table h hpending
          (fun _ _ => rfl) ⟨source.id, request.value, .empty, 0⟩
        exact Or.inr ⟨_, _, env', rfl, Registry.id_of_resolve hreceiver hne h.env_eq, hgot,
          hholds.of_sameButLog hlog⟩
      · exact Or.inl ((h.modifyEnv heq _).of_sameButLog hlog)
  | @stuck receiver source target pending _ src dst rights _ _ _ hsource htarget _ _ _ _ _ hshare =>
      left
      by_cases heq : i = receiver
      · subst heq
        rw [h.env_eq] at htarget
        cases htarget
        exact h.shareRegion_stuck hbalance hne hsource hshare
      · have hafter := h.shareRegion hbalance hsource htarget hne heq (.one src.page) (.one dst) rights
        rwa [hshare] at hafter
  | @withPage receiver source target pending offer src dst rights _ _ hreceiver hsource htarget
      hpending _ _ hdst _ hshare hlog =>
      by_cases heq : i = receiver
      · subst heq
        rw [h.env_eq] at htarget
        cases htarget
        have hafter := h.shareRegion_target hbalance hne hsource (.one src.page) (.one dst) rights
        rw [hshare] at hafter
        obtain ⟨env', hgot, hholds⟩ := Holds.deliver _ hafter hpending
          (fun p hp => SpacePair.lookup_target_copyAcross_one _ fun hq => hp (hq ▸ hdst))
          ⟨source.id, request.value, Prot.truncate offer.perm, min offer.size pending.maxSize⟩
        exact Or.inr ⟨_, _, env', rfl, Registry.id_of_resolve hreceiver hne h.env_eq, hgot,
          hholds.of_sameButLog hlog⟩
      · have hafter := h.shareRegion hbalance hsource htarget hne heq (.one src.page) (.one dst) rights
        rw [hshare] at hafter
        exact Or.inl ((Holds.modifyEnv hafter heq _).of_sameButLog hlog)

end Realm

namespace Service

variable {caller : Caller} {args : Args} {call : Syscall} {s u : Realm}

/-- A call leaves every environment out of reach of its caller as it is, or it delivers a message to
it. -/
theorem Effect.holds (heffect : Effect caller args s call u) (hbalance : Realm.InBalance stray s)
    (hreach : s.registry.OutOfReach caller.slot i env) (h : Realm.Holds i env env.table pool s) :
    Realm.Holds i env env.table pool u ∨
      call = .ipcTrySend ∧ env.id = .ofWord args.arg0 ∧ ∃ receiver env',
        Realm.trySend caller.slot (sendRequest args) s = .ok receiver u ∧ env.GotMessage env' ∧
          Realm.Holds i env' env.table pool u := by
  have hne := hreach.ne_caller
  cases heffect with
  | same => exact Or.inl h
  | print =>
      left
      have hread : ∀ v other start length,
          Realm.InBalance stray v ∧ Realm.Holds i env env.table pool v →
          v.registry.env? caller.slot = some other →
            Realm.InBalance stray (stateOf (Realm.onSpace caller.slot other
              (Space.readBytes start length) v)) ∧
            Realm.Holds i env env.table pool (stateOf (Realm.onSpace caller.slot other
              (Space.readBytes start length) v)) := by
        rintro v other start length ⟨hbalanced, hholds⟩ hother
        constructor
        · exact books_owing.onSpace hbalanced hother fun _ => books_owing.readBytes _ _
        · apply hholds.onSpace hbalanced hother hne
          intro rest pool hmem
          exact Space.keeps_readBytes (Space.shelters_populate hmem) _ _
      exact (keeps_writeChunks hread (fun _ _ hv => ⟨hv.1, hv.2.env_eq, hv.2.reached⟩) _ _ s
        ⟨hbalance, h⟩).2
  | convict hlog => exact Or.inl ((h.of_sameButLog hlog).modifyEnv hne _)
  | readChar => exact Or.inl ⟨h.env_eq, h.reached⟩
  | exit _ hlog => exact Or.inl ((h.of_sameButLog hlog).modifyEnv hne _)
  | destroy hindex _ hlog =>
      exact Or.inl ((h.of_sameButLog hlog).endEnv (hreach.ne_resolved _ _ hindex) _ _)
  | alloc _ _ hindex henv =>
      left
      apply h.onSpace hbalance henv (hreach.ne_resolved _ _ hindex)
      intro rest pool hmem
      exact Space.keeps_allocateRegion (fun p _ => Space.shelters_allocatePage hmem _ p)
        fun v _ _ _ hv => Space.Shelters.note hv _ _ _
  | share _ _ _ hi hj hsource htarget =>
      exact Or.inl (h.shareRegion hbalance hsource htarget (hreach.ne_resolved _ _ hi)
        (hreach.ne_resolved _ _ hj) _ _ _)
  | device hindex henv =>
      left
      apply h.onSpace hbalance henv (hreach.ne_resolved _ _ hindex)
      intro rest pool hmem
      exact Space.keeps_mapDeviceRegion (fun p _ pa => Space.shelters_placeDevice p pa _) _
  | unmap _ hindex henv =>
      left
      apply h.onSpace hbalance henv (hreach.ne_resolved _ _ hindex)
      intro rest pool hmem
      exact Keeps.update fun v hv => Space.keeps_foldl_unmapPage Space.shelters_unmapPage hv
  | @fork _ child registry _ _ hchild hlog =>
      left
      obtain ⟨hnone, -, -, -, hother⟩ := Registry.allocate_eq_ok hchild
      have hchildNe : i ≠ child := by
        rintro rfl
        rw [h.env_eq] at hnone
        cases hnone
      have hallocated : Realm.Holds i env env.table pool { s with registry } :=
        ⟨(hother i hchildNe).trans h.env_eq, h.reached⟩
      exact (hallocated.modifyEnv hchildNe _).of_sameButLog hlog
  | setStatus hindex => exact Or.inl (h.modifyEnv (hreach.ne_resolved _ _ hindex) _)
  | setUpcall hindex => exact Or.inl (h.modifyEnv (hreach.ne_resolved _ _ hindex) _)
  | send =>
      rcases Realm.holds_trySend (sendRequest args) h hbalance hne with
        hsame | ⟨receiver, v, env', hsend, hid, hgot, hholds⟩
      · exact Or.inl hsame
      · right
        rw [hsend]
        exact ⟨rfl, hid, receiver, env', rfl, hgot, hholds⟩
  | receive => exact Or.inl (h.receive hne _)

end Service

end Exokernel
