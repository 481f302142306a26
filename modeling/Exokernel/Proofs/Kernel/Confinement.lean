import Exokernel.Proofs.Kernel.Accounts
import Exokernel.Proofs.Realm.Shelter

/-! # Confinement

A call touches its caller and the descendants of its caller.  Every other environment keeps its
registers, its mailbox, its page table and the bytes of every frame and device page that it maps,
unless the call delivers a message that it waits for. -/

namespace Exokernel.Kernel

variable {stray : PhysAddr → Prop} {k : Kernel} {caller i : Nat} {env : Env} {t : PageTable}
  {pool : FramePool}

theorem fst_serve_of_trySend {sender : Env} {receiver : Nat} {u : Realm}
    (hcall : Syscall.ofNumber? sender.frame.callNumber.toNat = some .ipcTrySend)
    (hsend : Realm.trySend caller (Service.sendRequest sender.frame.callArgs) k.realm =
      .ok receiver u) :
    (k.serve caller sender).1 = some 0 := by
  have hservice : Service.ipcTrySend ⟨caller, k.config⟩ sender.frame.callArgs k.realm =
      .ok .done u := by
    rw [Service.ipcTrySend]
    have hlift : (liftM (Realm.trySend caller (Service.sendRequest sender.frame.callArgs)) :
        SysM Nat) k.realm = .ok receiver u := adaptExcept_eq_ok_iff.mpr hsend
    exact bind_of_ok hlift _
  have hdispatch : ServiceTable.standard.dispatch sender.frame.callNumber ⟨caller, k.config⟩
      sender.frame.callArgs k.realm = .ok .done u := by
    rw [ServiceTable.dispatch]
    rw [hcall]
    exact hservice
  simp only [serve, ServiceTable.answer, hdispatch]
  rfl

/-- What happens to the realm once the work of a call is done touches the caller only. -/
theorem holds_serve (sender : Env) (hbalance : Realm.InBalance stray k.realm)
    (hreach : k.registry.OutOfReach caller i env)
    (h : Realm.Holds i env env.table pool k.realm) :
    Realm.Holds i env env.table pool (k.serve caller sender).2.realm ∨
      Syscall.ofNumber? sender.frame.callNumber.toNat = some .ipcTrySend ∧
        env.id = .ofWord sender.frame.callArgs.arg0 ∧ (k.serve caller sender).1 = some 0 ∧
        ∃ env', env.GotMessage env' ∧
          Realm.Holds i env' env.table pool (k.serve caller sender).2.realm := by
  obtain ⟨answered, noted, worded, settled, hanswered, hnoted, hworded, hsettled, current, heq⟩ :=
    k.serve_cases caller sender
  have hne := hreach.ne_caller
  have hafter : ∀ e, Realm.Holds i e env.table pool answered →
      Realm.Holds i e env.table pool (k.serve caller sender).2.realm := by
    intro e he
    have hword : Realm.Holds i e env.table pool worded := by
      rcases hworded with rfl | ⟨w, rfl⟩
      · exact he.of_sameButLog hnoted
      · exact (he.of_sameButLog hnoted).modifyEnv hne _
    have hsettle : Realm.Holds i e env.table pool settled := by
      rcases hsettled with rfl | rfl
      · exact hword
      · exact hword.endEnv hne _ _
    rw [heq]
    exact ⟨hsettle.env_eq, hsettle.reached⟩
  rcases hanswered with rfl | ⟨call, hcall, heffect⟩
  · exact Or.inl (hafter env h)
  · rcases heffect.holds hbalance hreach h with
      hholds | ⟨rfl, hid, receiver, env', hsend, hgot, hholds⟩
    · exact Or.inl (hafter env hholds)
    · exact Or.inr ⟨hcall, hid, fst_serve_of_trySend hcall hsend, env', hgot, hafter env' hholds⟩

/-- A call leaves every environment alone that is neither its caller nor a descendant of it, but for
a message: an attempt to send one that names the environment and is answered with zero. -/
theorem confined_of_calls {event : Event} {number : Word} {args : Args}
    (hnamed : k.registry.Named) (hacc : Accounting k.realm.memory k.registry.tables)
    (hcalls : k.Calls caller number args event) (henv : k.registry.env? i = some env)
    (hne : i ≠ caller) (hnot : ¬ k.registry.Descends caller env) :
    Realm.Holds i env env.table k.realm.memory.machine.pool (k.step event).realm ∨
      Syscall.ofNumber? number.toNat = some .ipcTrySend ∧ env.id = .ofWord args.arg0 ∧
        k.answer event = some 0 ∧ ∃ env', env.GotMessage env' ∧
          Realm.Holds i env' env.table k.realm.memory.machine.pool (k.step event).realm := by
  have hcurrent : k.registry.current = some caller := by
    cases event <;> first | exact hcalls.1 | cases hcalls
  obtain ⟨sender, hsender⟩ := hnamed.current_occupied caller hcurrent
  obtain ⟨frame, hnumber, hargs, realm, hrealm, hstep, hanswer⟩ := step_of_calls hsender hcalls
  have hreach := Registry.outOfReach_of_not_descends hnamed henv hne hnot
  have hbalance : Realm.InBalance _ k.realm := hacc.balanced
  have hholds : Realm.Holds i env env.table k.realm.memory.machine.pool k.realm :=
    ⟨henv, .refl _ _⟩
  have hserve : Realm.Holds i env env.table k.realm.memory.machine.pool realm ∧
      Realm.InBalance (strays k.realm.memory k.registry.tables) realm ∧
        realm.registry.OutOfReach caller i env := by
    rcases hrealm with ⟨rfl, -⟩ | rfl
    · exact ⟨hholds, hbalance, hreach⟩
    · have hload := hholds.modifyEnv hne fun env =>
        { env with frame := env.frame.loadCall number args }
      have hnames := k.registry.sameNames_modify caller (f := fun env =>
        { env with frame := env.frame.loadCall number args }) fun _ => rfl
      refine ⟨hload, hbalance.modifyEnv caller fun _ => rfl, hload.env_eq, hne, ?_⟩
      intro id index hresolve
      exact hreach.ne_resolved id index ((hnames.resolve_eq _ _ _).symm.trans hresolve)
  obtain ⟨hload, hloadBalance, hloadReach⟩ := hserve
  have hdone := holds_serve (k := { k with realm }) { sender with frame } hloadBalance hloadReach
    hload
  rw [← hstep, ← hanswer] at hdone
  simpa only [hnumber, hargs] using hdone

/-- Two environments without parents.  The second has mapped a page, and the first is to run. -/
def siblingKernel : Kernel :=
  ((((smallKernel.step (.createEnv .user none)).step (.createEnv .user none)).step (.run ⟨1025⟩)).step
    (.syscall 4 ⟨0, 0x1000, 0x1000, 6, 0, 0⟩)).step (.run ⟨1024⟩)

theorem accounting_siblingKernel :
    Accounting siblingKernel.realm.memory siblingKernel.registry.tables := by
  have hrun : Runs (fun k event => ¬ k.CopiesWithin event) smallKernel siblingKernel := by
    refine .step _ (.step _ (.step _ (.step _ (.step _ .start ?_) ?_) ?_) ?_) ?_
    · exact not_copiesWithin_of_not_calls fun _ _ _ => id
    · exact not_copiesWithin_of_not_calls fun _ _ _ => id
    · exact not_copiesWithin_of_not_calls fun _ _ _ => id
    · exact not_copiesWithin_of_ne (by decide)
    · exact not_copiesWithin_of_not_calls fun _ _ _ => id
  exact (inBalance_of_runs (inBalance_boot boot_smallKernel) hrun).accounting

theorem named_siblingKernel : siblingKernel.registry.Named := by
  have hcapacity : siblingKernel.registry.capacity = 4 := by decide +kernel
  have hindex : ∀ i < 4, (siblingKernel.registry.env? i).all (·.id.index == i) = true := by
    decide +kernel
  constructor
  · intro i env henv
    have hi := hindex i (hcapacity ▸ Registry.lt_capacity_of_env? henv)
    rw [henv] at hi
    exact beq_iff_eq.mp hi
  · intro i hi
    have hcurrent : siblingKernel.registry.current = some 0 := by decide +kernel
    rw [hcurrent] at hi
    cases hi
    exact Option.isSome_iff_exists.mp (by decide +kernel)

/-- The first of them maps a page, too. -/
theorem confined_of_calls_sibling : ∃ env, siblingKernel.registry.env? 1 = some env ∧
    siblingKernel.registry.Named ∧
    Accounting siblingKernel.realm.memory siblingKernel.registry.tables ∧
    siblingKernel.Calls 0 4 ⟨0, 0x1000, 0x1000, 6, 0, 0⟩ (.syscall 4 ⟨0, 0x1000, 0x1000, 6, 0, 0⟩) ∧
    ¬ siblingKernel.registry.Descends 0 env ∧
    Realm.Holds 1 env env.table siblingKernel.realm.memory.machine.pool
      (siblingKernel.step (.syscall 4 ⟨0, 0x1000, 0x1000, 6, 0, 0⟩)).realm := by
  have hcalls : siblingKernel.Calls 0 4 ⟨0, 0x1000, 0x1000, 6, 0, 0⟩
      (.syscall 4 ⟨0, 0x1000, 0x1000, 6, 0, 0⟩) := ⟨by decide +kernel, rfl, rfl⟩
  have hparent : (siblingKernel.registry.env? 1).map Env.parent = some none := by decide +kernel
  obtain ⟨env, henv, hnone⟩ := Option.map_eq_some_iff.mp hparent
  have hnot : ¬ siblingKernel.registry.Descends 0 env := by
    intro hdescends
    cases hdescends with
    | child hsome =>
        rw [hnone] at hsome
        cases hsome
    | step hsome =>
        rw [hnone] at hsome
        cases hsome
  refine ⟨env, henv, named_siblingKernel, accounting_siblingKernel, hcalls, hnot, ?_⟩
  rcases confined_of_calls named_siblingKernel accounting_siblingKernel hcalls henv (by decide)
    hnot with hholds | ⟨hcall, -⟩
  · exact hholds
  · exact absurd hcall (by decide)

end Exokernel.Kernel
