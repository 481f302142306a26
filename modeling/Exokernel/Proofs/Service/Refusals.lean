import Exokernel.Proofs.Ipc.Sending
import Exokernel.Proofs.Region.Reservations

/-! # Refused calls

On a reliable machine a call that is refused has changed nothing.  The exception is a call that ends
its caller; such a call is not answered.  Writing text to the console is left out: it prints chunk
by chunk, and stops where the caller has no more memory. -/

namespace Exokernel

namespace Realm

variable {s : Realm} {i j index : Nat} {source target env : Env}

/-! ## Requests on address spaces -/

theorem setTable_self (henv : s.registry.env? index = some env) : s.setTable index env.table = s := by
  apply modifyEnv_of_fixed
  intro env' henv'
  rw [henv] at henv'
  cases henv'
  rfl

theorem atomic_onSpace {α : Type} {x : SpaceM α} (henv : s.registry.env? index = some env)
    (hx : Atomic x ⟨s.memory, env.table⟩) : Atomic (onSpace index env x) s := by
  intro e t h
  rw [onSpace_eq] at h
  cases hspace : x ⟨s.memory, env.table⟩ with
  | ok a space =>
      rw [hspace] at h
      cases h
  | error _ space =>
      rw [hspace] at h
      cases h
      rw [hx _ space hspace]
      exact setTable_self henv

theorem atomic_shareRegion (hreliable : s.memory.machine.Reliable)
    (hsource : s.registry.env? i = some source) (htarget : s.registry.env? j = some target)
    (src dst : PageRange) (rights : MapRights) :
    Atomic (shareRegion i j source target src dst rights) s := by
  by_cases hij : i = j
  · subst hij
    intro e t h
    rw [shareRegion_same] at h
    exact atomic_onSpace hsource (Space.atomic_copyWithin hreliable src dst rights) e t h
  · intro e t h
    rw [shareRegion_ne hij] at h
    have hatomic := SpacePair.atomic_copyAcross
      (s := ⟨s.memory, source.table, target.table⟩) hreliable src dst rights
    cases hpair : SpacePair.copyAcross src dst rights ⟨s.memory, source.table, target.table⟩ with
    | ok _ pair =>
        rw [hpair] at h
        cases h
    | error _ pair =>
        rw [hpair] at h
        cases h
        rw [hatomic _ pair hpair, putPair]
        simp only
        rw [setTable_self hsource, setTable_self htarget]

/-! ## Messages -/

theorem atomic_trySend (hreliable : s.memory.machine.Reliable) (sender : Nat)
    (request : SendRequest) : Atomic (trySend sender request) s := by
  intro e t h
  have houtcome := sendOutcome_trySend sender request s
  rw [h] at houtcome
  cases houtcome with
  | refused => rfl
  | stuck _ hsource htarget _ _ _ _ _ hshare =>
      exact atomic_shareRegion hreliable hsource htarget _ _ _ _ _ hshare

theorem atomic_receive (index : Nat) (request : RecvRequest) : Atomic (receive index request) s := by
  intro e t h
  rw [receive] at h
  cases henv : s.registry.env? index with
  | none =>
      rw [henv] at h
      cases h
      rfl
  | some env =>
      rw [henv] at h
      cases h

end Realm

namespace Service

/-- A request that was refused has changed nothing unless it ends the caller, and neither has one
that was answered with a negative word. -/
structure Clean (x : SysM Reply) (s : Realm) : Prop where
  refused : ∀ e t, x s = .error e t → e = .envExit ∨ t = s
  answered : ∀ reply t, x s = .ok reply t →
    0 ≤ reply.value.toInt64 ∨ (t = s ∧ reply.yields = false)

variable {s : Realm} {caller : Caller} {args : Args} {α : Type}

namespace Clean

theorem throw (e : SysError) : Clean (MonadExcept.throw e) s where
  refused _ _ h := by
    cases h
    exact Or.inr rfl
  answered _ _ h := by cases h

theorem word (value : Word) : Clean (pure (.word value)) s where
  refused _ _ h := by cases h
  answered _ _ h := by
    cases h
    exact Or.inr ⟨rfl, rfl⟩

theorem of_ok {x : SysM Reply} {reply : Reply} {t : Realm} (h : x s = .ok reply t)
    (hvalue : 0 ≤ reply.value.toInt64) : Clean x s where
  refused _ _ he := by
    rw [h] at he
    cases he
  answered _ _ hok := by
    rw [h] at hok
    cases hok
    exact Or.inl hvalue

theorem of_exit {x : SysM Reply} {t : Realm} (h : x s = .error .envExit t) : Clean x s where
  refused _ _ he := by
    rw [h] at he
    cases he
    exact Or.inl rfl
  answered _ _ hok := by
    rw [h] at hok
    cases hok

theorem of_atomic {x : SysM α} (hx : Atomic x s) {reply : Reply}
    (hvalue : 0 ≤ reply.value.toInt64) : Clean (x >>= fun _ => pure reply) s where
  refused e t h := Or.inr (hx.bind_pure reply e t h)
  answered reply' t h := by
    obtain ⟨_, _, -, hpure⟩ := bind_eq_ok_iff.mp h
    cases hpure
    exact Or.inl hvalue

theorem bind_of_looks {x : SysM α} {f : α → SysM Reply} (hx : stateOf (x s) = s)
    (hf : ∀ a, x s = .ok a s → Clean (f a) s) : Clean (x >>= f) s := by
  cases h : x s with
  | ok a t =>
      rw [h] at hx
      cases hx
      have hclean := hf a h
      constructor
      · rw [bind_of_ok h]
        exact hclean.refused
      · rw [bind_of_ok h]
        exact hclean.answered
  | error e t =>
      rw [h] at hx
      cases hx
      constructor
      · rw [bind_of_error h]
        rintro _ _ ⟨⟩
        exact Or.inr rfl
      · rw [bind_of_error h]
        nofun

theorem get_bind {f : Realm → SysM Reply} (hf : Clean (f s) s) : Clean (get >>= f) s :=
  bind_of_looks (x := get) rfl fun _ h => by
    cases h
    exact hf

end Clean

/-! ## Checks -/

theorem stateOf_pageRange (va len : Word) : stateOf (pageRange va len s) = s := by
  rw [pageRange]
  cases PageRange.ofWords? va len <;> rfl

theorem stateOf_decoded (result : Except RegionError α) : stateOf (decoded result s) = s := by
  cases result <;> rfl

theorem controlled_cases (caller : Caller) (arg : Word) :
    (∃ e, controlled caller arg s = .error e s) ∨
      ∃ index env, controlled caller arg s = .ok index s ∧ s.registry.env? index = some env := by
  cases hindex : s.registry.resolve (.ofWord arg) caller.slot true with
  | error e => exact Or.inl ⟨_, controlled_of_error hindex⟩
  | ok index =>
      obtain ⟨env, henv, -⟩ := exists_env?_of_resolve hindex
      exact Or.inr ⟨index, env, controlled_of_ok hindex, henv⟩

theorem stateOf_controlled (caller : Caller) (arg : Word) :
    stateOf (controlled caller arg s) = s := by
  rcases controlled_cases caller arg with ⟨e, h⟩ | ⟨index, env, h, -⟩ <;> rw [h] <;> rfl

theorem stateOf_envAt (index : Nat) : stateOf (envAt index s) = s := by
  cases henv : s.registry.env? index with
  | none =>
      rw [envAt_of_none henv]
      rfl
  | some env =>
      rw [envAt_of_some henv]
      rfl

theorem env?_of_envAt {index : Nat} {env : Env} {t : Realm} (h : envAt index s = .ok env t) :
    s.registry.env? index = some env := by
  cases henv : s.registry.env? index with
  | none =>
      rw [envAt_of_none henv] at h
      cases h
  | some env' =>
      rw [envAt_of_some henv] at h
      cases h
      rfl

theorem atomic_onSpace {index : Nat} {x : SpaceM α}
    (hx : ∀ env, s.registry.env? index = some env → Atomic x ⟨s.memory, env.table⟩) :
    Atomic (onSpace index x) s := by
  apply Atomic.bind_of_looks (stateOf_envAt index)
  intro env h
  have henv := env?_of_envAt h
  exact (Realm.atomic_onSpace henv (hx env henv)).adaptExcept _

/-! ## Answers -/

theorem toInt_toInt64 {w : Word} (h : w.toNat < 2 ^ 63) : w.toInt64.toInt = w.toNat := by
  change w.toInt64.toBitVec.toInt = _
  rw [UInt64.toBitVec_toInt64]
  apply BitVec.toInt_eq_toNat_of_lt
  rw [UInt64.toNat_toBitVec]
  omega

theorem nonneg_toInt64 {w : Word} (h : w.toNat < 2 ^ 63) : 0 ≤ w.toInt64 := by
  rw [Int64.le_iff_toInt_le, toInt_toInt64 h]
  exact Int.natCast_nonneg _

theorem nonneg_toWord (id : EnvId) : 0 ≤ id.toWord.toInt64 := by
  apply nonneg_toInt64
  rw [EnvId.toWord, UInt32.toNat_toUInt64]
  exact Nat.lt_trans id.raw.toNat_lt (by decide)

theorem nonneg_toUInt64 (b : UInt8) : 0 ≤ b.toUInt64.toInt64 := by
  apply nonneg_toInt64
  rw [UInt8.toNat_toUInt64]
  exact Nat.lt_trans b.toNat_lt (by decide)

theorem nonneg_done : 0 ≤ Reply.done.value.toInt64 := by decide

theorem nonneg_pause : 0 ≤ Reply.pause.value.toInt64 := by decide

/-! ## Calls about regions -/

theorem clean_allocRegion (hreliable : s.memory.machine.Reliable) :
    Clean (allocRegion caller args) s := by
  apply Clean.bind_of_looks (stateOf_pageRange _ _)
  intro r _
  apply Clean.bind_of_looks (stateOf_decoded _)
  intro req _
  apply Clean.bind_of_looks (stateOf_controlled _ _)
  intro index _
  exact .of_atomic (atomic_onSpace fun _ _ => Space.atomic_allocateRegion hreliable r req)
    nonneg_done

theorem clean_mapRegion (hreliable : s.memory.machine.Reliable) :
    Clean (mapRegion caller args) s := by
  apply Clean.bind_of_looks (stateOf_pageRange _ _)
  intro src _
  apply Clean.bind_of_looks (stateOf_pageRange _ _)
  intro dst _
  apply Clean.bind_of_looks (stateOf_decoded _)
  intro rights _
  apply Clean.bind_of_looks (stateOf_controlled _ _)
  intro i _
  apply Clean.bind_of_looks (stateOf_controlled _ _)
  intro j _
  apply Clean.bind_of_looks (stateOf_envAt i)
  intro source hsource
  apply Clean.bind_of_looks (stateOf_envAt j)
  intro target htarget
  have hshare := Realm.atomic_shareRegion hreliable (env?_of_envAt hsource) (env?_of_envAt htarget)
    src dst rights
  exact .of_atomic (hshare.adaptExcept _) nonneg_done

theorem clean_mapPhysicalRegion (hreliable : s.memory.machine.Reliable) :
    Clean (mapPhysicalRegion caller args) s := by
  apply Clean.bind_of_looks (stateOf_controlled _ _)
  intro index _
  apply Clean.bind_of_looks (stateOf_envAt index)
  intro env _
  by_cases hkind : env.kind = .driver
  · rw [if_neg (not_not_intro hkind)]
    cases PhysAddr.aligned? args.arg0.toNat with
    | none => exact .throw _
    | some pa =>
        apply Clean.bind_of_looks (stateOf_pageRange _ _)
        intro r _
        apply Clean.bind_of_looks (stateOf_decoded _)
        intro rights _
        exact .of_atomic (atomic_onSpace fun _ _ => Space.atomic_mapDeviceRegion hreliable r pa rights)
          nonneg_done
  · rw [if_pos hkind]
    exact .throw _

theorem clean_unmapRegion : Clean (unmapRegion caller args) s := by
  apply Clean.bind_of_looks (stateOf_pageRange _ _)
  intro r _
  apply Clean.bind_of_looks (stateOf_controlled _ _)
  intro index _
  exact .of_atomic (atomic_onSpace fun _ _ => .update _) nonneg_done

/-! ## Calls about environments -/

theorem clean_envDestroy : Clean (envDestroy caller args) s := by
  apply Clean.bind_of_looks (stateOf_controlled _ _)
  intro index _
  apply Clean.get_bind
  by_cases hself : index = caller.slot
  · rw [if_pos hself]
    exact .of_exit rfl
  · rw [if_neg hself]
    exact .of_ok rfl nonneg_done

theorem clean_exofork : Clean (exofork caller args) s := by
  apply Clean.bind_of_looks (stateOf_envAt _)
  intro env _
  apply Clean.get_bind
  cases s.registry.allocate (some env.id) .user .notRunnable with
  | error e => exact .throw _
  | ok result => exact .of_ok rfl (nonneg_toWord _)

theorem clean_envSetStatus : Clean (envSetStatus caller args) s := by
  apply Clean.bind_of_looks (stateOf_controlled _ _)
  intro index _
  cases settableStatus? args.arg1 with
  | none => exact .throw _
  | some status =>
      refine .of_atomic (.update _) ?_
      split
      · exact nonneg_pause
      · exact nonneg_done

theorem clean_envSetPgfaultUpcall : Clean (envSetPgfaultUpcall caller args) s := by
  apply Clean.bind_of_looks (stateOf_controlled _ _)
  intro index _
  split
  · exact .of_ok rfl nonneg_done
  · split
    · exact .throw _
    · exact .of_ok rfl nonneg_done

/-! ## The other calls -/

theorem clean_cgetc : Clean (cgetc caller args) s := by
  apply Clean.get_bind
  rcases s.console.read with ⟨_ | b, console⟩
  · exact .of_ok rfl nonneg_done
  · exact .of_ok rfl (nonneg_toUInt64 b)

theorem clean_regionRefs : Clean (regionRefs caller args) s := by
  apply Clean.bind_of_looks (stateOf_envAt _)
  intro env _
  exact .get_bind (.word _)

theorem clean_ipcTrySend (hreliable : s.memory.machine.Reliable) :
    Clean (ipcTrySend caller args) s :=
  .of_atomic ((Realm.atomic_trySend hreliable _ _).adaptExcept _) nonneg_done

theorem clean_ipcRecv : Clean (ipcRecv caller args) s := by
  rw [ipcRecv]
  cases RecvRequest.decode args.arg0 args.arg1 with
  | error e => exact .throw _
  | ok request => exact .of_atomic ((Realm.atomic_receive _ request).adaptExcept _) nonneg_pause

/-- Every call but the one that writes text. -/
theorem clean_of_standard (hreliable : s.memory.machine.Reliable) {call : Syscall} {service : Service}
    (hservice : ServiceTable.standard call = some service) (hcall : call ≠ .cputs) :
    Clean (service caller args) s := by
  cases call <;> cases hservice
  case cputs => exact absurd rfl hcall
  case cgetc => exact clean_cgetc
  case getEnvId => exact .get_bind (.word _)
  case envDestroy => exact clean_envDestroy
  case allocRegion => exact clean_allocRegion hreliable
  case mapRegion => exact clean_mapRegion hreliable
  case mapPhysicalRegion => exact clean_mapPhysicalRegion hreliable
  case unmapRegion => exact clean_unmapRegion
  case regionRefs => exact clean_regionRefs
  case exofork => exact clean_exofork
  case envSetStatus => exact clean_envSetStatus
  case envSetPgfaultUpcall => exact clean_envSetPgfaultUpcall
  case yield => exact .of_ok rfl nonneg_pause
  case ipcTrySend => exact clean_ipcTrySend hreliable
  case ipcRecv => exact clean_ipcRecv

/-- A call that is answered with a negative word has changed nothing, and its caller runs on. -/
theorem unchanged_of_negative (caller : Caller) (args : Args)
    (hreliable : s.memory.machine.Reliable) {number : Word}
    (hcall : Syscall.ofNumber? number.toNat ≠ some .cputs) {w : Int64}
    (hword : resultWord? (ServiceTable.standard.answer number caller args s).result = some w)
    (hneg : w < 0) :
    (ServiceTable.standard.answer number caller args s).realm = s ∧
      (ServiceTable.standard.answer number caller args s).yields = false := by
  have hclean : Clean (ServiceTable.standard.dispatch number caller args) s := by
    rw [ServiceTable.dispatch]
    cases hnumber : Syscall.ofNumber? number.toNat with
    | none => exact .throw _
    | some call =>
        rw [Option.bind_some]
        cases hservice : ServiceTable.standard call with
        | none => exact .throw _
        | some service =>
            apply clean_of_standard hreliable hservice
            rintro rfl
            exact hcall hnumber
  rw [ServiceTable.answer] at hword ⊢
  cases hresult : ServiceTable.standard.dispatch number caller args s with
  | ok reply t =>
      rw [hresult] at hword
      cases hword
      rcases hclean.answered reply t hresult with hvalue | hsame
      · exact absurd hneg (Int64.not_lt.mpr hvalue)
      · exact hsame
  | error e t =>
      rw [hresult] at hword
      rcases hclean.refused e t hresult with rfl | hsame
      · cases hword
      · exact ⟨hsame, rfl⟩

end Service

end Exokernel
