import Exokernel.Proofs.Env.Lineage
import Exokernel.Proofs.Kernel.Order
import Exokernel.Proofs.Service.Answers

/-! # Births

Environments are created from outside, and by forking.  A call that forks changes two slots and no
more: its child is in a slot that was free, and its caller has the identifier of the child as its
result. -/

namespace Exokernel

theorem TrapFrame.loadCall_self (f : TrapFrame) : f.loadCall f.callNumber f.callArgs = f := by
  apply TrapFrame.ext
  · apply Vector.ext
    intro i hi
    match i, hi with
    | 0, _ | 1, _ | 2, _ | 3, _ | 4, _ | 5, _ | 6, _ | 7, _ => rfl
  · rfl
  · rfl

namespace Kernel

variable {k : Kernel} {event : Event} {caller child i : Nat} {number : Word} {args : Args}
  {sender : Env}

/-! ## Calls in registers -/

/-- Whichever way it reached the kernel, a call is the trap of its caller with the call in its
registers. -/
theorem trap_loaded (hcalls : k.Calls caller number args event) :
    (k.loaded caller number args).trap = (k.answer event, k.step event) := by
  cases event with
  | syscall n a =>
      obtain ⟨hcurrent, rfl, rfl⟩ := hcalls
      exact (syscall_eq_trap hcurrent n a).symm
  | trap =>
      obtain ⟨hcurrent, env, henv, rfl, rfl⟩ := hcalls
      have hload : k.loaded caller env.frame.callNumber env.frame.callArgs = k := by
        refine congrArg (fun realm => { k with realm }) (Realm.modifyEnv_of_fixed ?_)
        intro env' henv'
        rw [show k.realm.registry.env? caller = _ from henv] at henv'
        cases henv'
        rw [TrapFrame.loadCall_self]
      rw [hload]
      rfl
  | _ => cases hcalls

theorem current_of_calls (hcalls : k.Calls caller number args event) :
    k.registry.current = some caller := by
  cases event with
  | syscall | trap => exact hcalls.1
  | _ => cases hcalls

theorem current_loaded (hcalls : k.Calls caller number args event) :
    (k.loaded caller number args).registry.current = some caller := by
  have hcurrent := current_of_calls hcalls
  exact hcurrent

theorem env?_loaded_self (hsender : k.registry.env? caller = some sender) (number : Word)
    (args : Args) : (k.loaded caller number args).registry.env? caller =
      some { sender with frame := sender.frame.loadCall number args } := by
  rw [env?_loaded, if_pos rfl, hsender]
  rfl

/-! ## Forking -/

/-- The child of a caller, in a slot and a generation, with the registers of the caller except that
its call answers zero. -/
def childOf (sender : Env) (child generation : Nat) : Env :=
  { Env.fresh (.ofParts child generation) (some sender.id) .user .notRunnable with
    frame := sender.frame.setResult 0 }

theorem outcome_fork {registry : Registry} (hsender : k.registry.env? caller = some sender)
    (hcall : Syscall.ofNumber? sender.frame.callNumber.toNat = some .exofork)
    (hchild : k.registry.allocate (some sender.id) .user .notRunnable = .ok (child, registry)) :
    ∃ id, (k.outcome caller sender).result = .ok id.toWord ∧
      (registry.env? child).map Env.id = some id ∧
      (k.outcome caller sender).realm.registry = registry.modify child fun e =>
        { e with frame := sender.frame.setResult 0 } := by
  obtain ⟨id, t, hfork, hid, hlog⟩ := @Service.exofork_of_ok ⟨caller, k.config⟩
    sender.frame.callArgs _ _ _ _ hsender hchild
  have hdispatch : ServiceTable.standard.dispatch sender.frame.callNumber ⟨caller, k.config⟩
      sender.frame.callArgs k.realm = .ok (.word id.toWord) t := by
    rw [ServiceTable.dispatch, hcall]
    exact hfork
  refine ⟨id, ?_, hid, ?_⟩
  · simp only [outcome, ServiceTable.answer, hdispatch]
    rfl
  · simp only [outcome, ServiceTable.answer, hdispatch]
    exact hlog.registry_eq

/-- The slots after a fork. -/
structure Forks (k : Kernel) (caller : Nat) (sender : Env) (child generation : Nat) : Prop where
  vacant : k.registry.slot? child = some ⟨generation, none⟩
  ne_caller : child ≠ caller
  answer_eq : k.trap.1 =
    some (EnvId.ofParts child (Registry.nextGeneration generation)).toWord.toInt64
  capacity_eq : k.trap.2.registry.capacity = k.registry.capacity
  slot_child : k.trap.2.registry.slot? child = some ⟨Registry.nextGeneration generation,
    some (childOf sender child (Registry.nextGeneration generation))⟩
  slot_caller : ∀ {g}, k.registry.slot? caller = some ⟨g, some sender⟩ →
    k.trap.2.registry.slot? caller = some ⟨g, some (answered k.trap.1 sender)⟩
  slot_other : ∀ i, i ≠ child → i ≠ caller → k.trap.2.registry.slot? i = k.registry.slot? i

theorem forks_of_allocate {registry : Registry} (hcurrent : k.registry.current = some caller)
    (hsender : k.registry.env? caller = some sender) (hstatus : sender.status ≠ .dying)
    (hcall : Syscall.ofNumber? sender.frame.callNumber.toNat = some .exofork)
    (hchild : k.registry.allocate (some sender.id) .user .notRunnable = .ok (child, registry)) :
    ∃ generation, k.Forks caller sender child generation := by
  obtain ⟨id, hresult, hid, hworked⟩ := outcome_fork hsender hcall hchild
  obtain ⟨generation, hvacant, hslots⟩ := Registry.slot?_of_allocate hchild
  have hid : id = .ofParts child (Registry.nextGeneration generation) := by
    rw [Registry.env?_of_slot? ((hslots child).trans (if_pos rfl))] at hid
    exact (Option.some.inj hid).symm
  have hne : child ≠ caller := by
    rintro rfl
    rw [Registry.env?_of_slot? hvacant] at hsender
    cases hsender
  have htrap := trap_eq hcurrent hsender
  have hanswer : k.trap.1 = some id.toWord.toInt64 := by
    rw [htrap]
    change resultWord? (k.outcome caller sender).result = _
    rw [hresult]
    rfl
  have hstep : ∀ i, k.trap.2.registry.slot? i = (k.settled caller sender).registry.slot? i := by
    intro i
    rw [htrap]
    exact congrArg (fun slots : Array Slot => slots[i]?) (slots_serve k caller sender)
  have hnoted : ∀ i, (noteCall (k.outcome caller sender).realm k.config sender.id
      sender.frame.callNumber sender.frame.callArgs (k.outcome caller sender).result).registry.slot? i =
      if child = i then (registry.slot? i).map fun s =>
        { s with env := s.env.map fun e => { e with frame := sender.frame.setResult 0 } }
      else registry.slot? i := by
    intro i
    rw [(sameButLog_noteCall _ _ _ _ _ _).registry_eq, hworked]
    exact Registry.slot?_modify _ _ _ _
  refine ⟨generation, hvacant, hne, hid ▸ hanswer, ?_, ?_, ?_, ?_⟩
  · exact (k.fates_step .trap).capacity_eq
  · rw [hstep, slot?_settle_of_ne hne, hnoted, if_pos rfl, hslots, if_pos rfl]
    rfl
  · intro g hslot
    have hbefore := (hnoted caller).trans (if_neg hne)
    rw [hslots, if_neg hne, hslot] at hbefore
    rw [hstep, settled, slot?_settle_self hbefore, Option.filter_some, if_pos (bne_iff_ne.mpr hstatus),
      htrap]
    rfl
  · intro i hi hcaller
    rw [hstep, slot?_settle_of_ne hcaller, hnoted, if_neg (Ne.symm hi), hslots, if_neg (Ne.symm hi)]

/-! ## Nobody else is born -/

theorem env?_settle_eq_none {s : Realm} {config : Config} {id : EnvId} {word : Option Int64}
    (hvacant : s.registry.env? i = none) :
    (settle s config caller id word).registry.env? i = none := by
  obtain ⟨t, ht, hsettle⟩ := settle_cases s config caller id word
  have hword : t.registry.env? i = none := by
    rcases ht with rfl | ⟨w, rfl⟩
    · exact hvacant
    · exact Registry.env?_modify_eq_none _ _ hvacant
  rcases hsettle with heq | heq
  · rwa [heq]
  · rw [heq]
    exact Realm.env?_endEnv_eq_none _ _ _ hword

theorem env?_trap_eq_none (hcurrent : k.registry.current = some caller)
    (hsender : k.registry.env? caller = some sender)
    (hnot : Syscall.ofNumber? sender.frame.callNumber.toNat = some .exofork →
      ∃ e, k.registry.allocate (some sender.id) .user .notRunnable = .error e)
    (hvacant : k.registry.env? i = none) : k.trap.2.registry.env? i = none := by
  have hworked : (k.outcome caller sender).realm.registry.env? i = none := by
    rcases Service.effect_answer ⟨caller, k.config⟩ sender.frame.callArgs k.realm
      sender.frame.callNumber with hsame | ⟨call, hcall, heffect⟩
    · rw [outcome, hsame]
      exact hvacant
    · refine heffect.env?_eq_none ?_ hvacant
      rintro rfl env henv
      rw [show k.realm.registry.env? caller = _ from hsender] at henv
      cases henv
      exact hnot hcall
  rw [trap_eq hcurrent hsender]
  have hslots := slots_serve k caller sender
  have hnoted := (sameButLog_noteCall (k.outcome caller sender).realm k.config sender.id
    sender.frame.callNumber sender.frame.callArgs (k.outcome caller sender).result).registry_eq
  rw [Registry.env?, hslots]
  refine env?_settle_eq_none ?_
  rwa [hnoted]

/-! ## Lineage -/

theorem id_parent_of_deed {env env' : Env} (h : k.Deed event i env env') :
    env'.id = env.id ∧ env'.parent = env.parent := by
  rw [Deed] at h
  split at h
  · cases h <;> exact ⟨rfl, rfl⟩
  · rw [h]
    exact ⟨rfl, rfl⟩

theorem remains_of_unborn (hunborn : ∀ i, k.registry.env? i = none →
    (k.step event).registry.env? i = none) : k.registry.Remains (k.step event).registry := by
  have hfates := k.fates_step event
  refine ⟨hfates.capacity_eq, ?_⟩
  intro i s hslot
  obtain ⟨s', hslot', hfate⟩ := hfates.slot i s hslot
  refine ⟨s', hslot', ?_⟩
  cases hfate with
  | vacant | ended =>
      refine ⟨rfl, ?_⟩
      rintro _ ⟨⟩
  | born =>
      have hnone := hunborn i (Registry.env?_of_slot? hslot)
      rw [Registry.env?_of_slot? hslot'] at hnone
      cases hnone
  | kept hdeed =>
      have hsame := id_parent_of_deed hdeed
      refine ⟨rfl, ?_⟩
      rintro _ ⟨⟩
      exact ⟨_, rfl, hsame⟩

/-- What an event makes of the lineage of the environments. -/
inductive Lineage (k : Kernel) (event : Event) : Prop where
  | remains (h : k.registry.Remains (k.step event).registry)
  | created {kind : EnvKind} {parent : Option EnvId} {child : Nat}
      (hevent : event = .createEnv kind parent)
      (h : k.registry.Begets parent child (k.step event).registry)
  | forked {caller child : Nat} {number : Word} {args : Args} {sender : Env}
      (hcalls : k.Calls caller number args event)
      (hsender : k.registry.env? caller = some sender)
      (hcall : Syscall.ofNumber? number.toNat = some .exofork)
      (h : k.registry.Begets (some sender.id) child (k.step event).registry)

theorem begets_of_allocate {registry : Registry} {parent : Option EnvId} {kind : EnvKind}
    {status : EnvStatus} (h : k.registry.allocate parent kind status = .ok (child, registry)) :
    k.registry.Begets parent child registry := by
  obtain ⟨-, hcapacity, -⟩ := Registry.allocate_eq_ok h
  obtain ⟨generation, hvacant, hslots⟩ := Registry.slot?_of_allocate h
  refine ⟨hcapacity, ⟨generation, _, hvacant, (hslots child).trans (if_pos rfl), rfl, rfl⟩, ?_⟩
  intro i s hi hslot
  exact ⟨s, (hslots i).trans ((if_neg (Ne.symm hi)).trans hslot), rfl, rfl⟩

theorem Forks.begets {generation : Nat} (h : k.Forks caller sender child generation)
    (hsender : k.registry.env? caller = some sender) :
    k.registry.Begets (some sender.id) child k.trap.2.registry := by
  refine ⟨h.capacity_eq, ⟨generation, _, h.vacant, h.slot_child, rfl, rfl⟩, ?_⟩
  intro i s hi hslot
  by_cases hcaller : i = caller
  · subst hcaller
    obtain ⟨g, hbefore⟩ := Registry.slot?_of_env? hsender
    rw [hslot] at hbefore
    cases hbefore
    refine ⟨_, h.slot_caller hslot, rfl, ?_⟩
    cases k.trap.1 <;> rfl
  · exact ⟨s, (h.slot_other i hi hcaller).trans hslot, rfl, rfl⟩

theorem begets_of_loaded {parent : Option EnvId} {r : Registry}
    (h : (k.loaded caller number args).registry.Begets parent child r) :
    k.registry.Begets parent child r := by
  have hslot : ∀ i, (k.loaded caller number args).registry.slot? i = if caller = i then
      (k.registry.slot? i).map fun s => { s with env := s.env.map fun env =>
        { env with frame := env.frame.loadCall number args } }
      else k.registry.slot? i := fun i => Registry.slot?_modify _ _ _ _
  obtain ⟨generation, env, hvacant, hborn⟩ := h.born
  have hbefore : k.registry.slot? child = some ⟨generation, none⟩ := by
    rw [hslot] at hvacant
    split at hvacant
    · obtain ⟨⟨g, occupant⟩, hs, heq⟩ := Option.map_eq_some_iff.mp hvacant
      cases occupant <;> cases heq
      exact hs
    · exact hvacant
  refine ⟨h.capacity_eq.trans (Registry.capacity_modify _ _ _), ⟨generation, env, hbefore, hborn⟩, ?_⟩
  intro i s hi hs
  have hafter := hslot i
  rw [hs] at hafter
  split at hafter
  · obtain ⟨s', hs', hgeneration, hsame⟩ := h.other i _ hi hafter
    refine ⟨s', hs', hgeneration, ?_⟩
    rw [hsame, Option.map_map]
    rfl
  · exact h.other i s hi hafter

theorem begets_of_calls {registry : Registry} (hcalls : k.Calls caller number args event)
    (hsender : k.registry.env? caller = some sender) (hstatus : sender.status ≠ .dying)
    (hcall : Syscall.ofNumber? number.toNat = some .exofork)
    (hchild : (k.loaded caller number args).registry.allocate (some sender.id) .user .notRunnable =
      .ok (child, registry)) :
    (∃ generation, (k.loaded caller number args).Forks caller
      { sender with frame := sender.frame.loadCall number args } child generation) ∧
    k.registry.Begets (some sender.id) child (k.step event).registry := by
  have hcurrent := current_loaded hcalls
  have hloaded := env?_loaded_self hsender number args
  obtain ⟨generation, hforks⟩ := forks_of_allocate hcurrent hloaded hstatus hcall hchild
  refine ⟨⟨generation, hforks⟩, ?_⟩
  rw [← show (k.loaded caller number args).trap.2 = k.step event from
    congrArg Prod.snd (trap_loaded hcalls)]
  exact begets_of_loaded (hforks.begets hloaded)

theorem answer_of_full {e : EnvError} (hcalls : k.Calls caller number args event)
    (hsender : k.registry.env? caller = some sender)
    (hcall : Syscall.ofNumber? number.toNat = some .exofork)
    (hfull : (k.loaded caller number args).registry.allocate (some sender.id) .user .notRunnable =
      .error e) : k.answer event = some e.code.word := by
  have hcurrent := current_loaded hcalls
  have hloaded := env?_loaded_self hsender number args
  have hdispatch : ServiceTable.standard.dispatch number ⟨caller, k.config⟩ args
      (k.loaded caller number args).realm = .error (.env e) (k.loaded caller number args).realm := by
    rw [ServiceTable.dispatch, hcall]
    change Service.exofork _ _ _ = _
    rw [Service.exofork]
    rw [bind_of_ok (Service.envAt_of_some hloaded), bind_of_ok (x := get)
      (a := (k.loaded caller number args).realm) (t := (k.loaded caller number args).realm) rfl]
    change (k.loaded caller number args).realm.registry.allocate _ _ _ = _ at hfull
    simp only [hfull]
    rfl
  have htrap := congrArg Prod.fst ((trap_loaded hcalls).symm.trans (trap_eq hcurrent hloaded))
  rw [show k.answer event = _ from htrap]
  change resultWord? (ServiceTable.answer .standard number ⟨caller, k.config⟩ args
    (k.loaded caller number args).realm).result = _
  rw [ServiceTable.answer, hdispatch]
  rfl

/-- A fork that is answered with a word that is not negative has a child, and the word is its
identifier. -/
theorem begets_of_answer {w : Int64} (hcalls : k.Calls caller number args event)
    (hsender : k.registry.env? caller = some sender) (hstatus : sender.status ≠ .dying)
    (hcall : Syscall.ofNumber? number.toNat = some .exofork) (hanswer : k.answer event = some w)
    (hw : 0 ≤ w) : ∃ child generation, k.registry.Begets (some sender.id) child (k.step event).registry ∧
      (k.step event).registry.slot? child = some ⟨generation, some
        (childOf { sender with frame := sender.frame.loadCall number args } child generation)⟩ ∧
      (EnvId.ofParts child generation).toWord.toInt64 = w := by
  have htrap := trap_loaded hcalls
  cases hchild : (k.loaded caller number args).registry.allocate (some sender.id) .user
      .notRunnable with
  | error e =>
      rw [answer_of_full hcalls hsender hcall hchild] at hanswer
      cases hanswer
      cases e <;> exact absurd hw (by decide)
  | ok result =>
      obtain ⟨⟨generation, hforks⟩, hbegets⟩ :=
        begets_of_calls hcalls hsender hstatus hcall hchild
      refine ⟨result.1, Registry.nextGeneration generation, hbegets, ?_, ?_⟩
      · have hslot := hforks.slot_child
        rw [htrap] at hslot
        exact hslot
      · have hword := hforks.answer_eq
        rw [htrap] at hword
        exact Option.some.inj (hword.symm.trans hanswer)

/-- Whoever is born in a call is the child of its caller. -/
theorem forks_of_born {env : Env} (hcalls : k.Calls caller number args event)
    (hsender : k.registry.env? caller = some sender) (hstatus : sender.status ≠ .dying)
    (hvacant : k.registry.env? i = none) (hborn : (k.step event).registry.env? i = some env) :
    Syscall.ofNumber? number.toNat = some .exofork ∧
      (∃ generation, (k.loaded caller number args).Forks caller
        { sender with frame := sender.frame.loadCall number args } i generation) ∧
      k.registry.Begets (some sender.id) i (k.step event).registry := by
  have hcurrent := current_loaded hcalls
  have hloaded := env?_loaded_self hsender number args
  have hvacant' : (k.loaded caller number args).registry.env? i = none :=
    Registry.env?_modify_eq_none _ _ hvacant
  rw [← show (k.loaded caller number args).trap.2 = k.step event from
    congrArg Prod.snd (trap_loaded hcalls)] at hborn
  by_cases hfork : Syscall.ofNumber? number.toNat = some .exofork ∧ ∃ child registry,
      (k.loaded caller number args).registry.allocate (some sender.id) .user .notRunnable =
        .ok (child, registry)
  · obtain ⟨hcall, child, registry, hchild⟩ := hfork
    obtain ⟨⟨generation, hforks⟩, hbegets⟩ := begets_of_calls hcalls hsender hstatus hcall hchild
    have hi : i = child := by
      by_contra hne
      have hcaller : i ≠ caller := by
        rintro rfl
        rw [hsender] at hvacant
        cases hvacant
      have hslot := hforks.slot_other i hne hcaller
      rw [Registry.env?] at hborn hvacant'
      rw [Registry.slot?, Registry.slot?] at hslot
      rw [hslot, hvacant'] at hborn
      cases hborn
    subst hi
    exact ⟨hcall, ⟨generation, hforks⟩, hbegets⟩
  · rw [env?_trap_eq_none hcurrent hloaded ?_ hvacant'] at hborn
    · cases hborn
    · intro hcall
      cases hchild : (k.loaded caller number args).registry.allocate (some sender.id) .user
          .notRunnable with
      | error e => exact ⟨e, rfl⟩
      | ok result => exact absurd ⟨hcall, result.1, result.2, hchild⟩ hfork

theorem lineage_of_calls (hcalls : k.Calls caller number args event)
    (hsender : k.registry.env? caller = some sender) (hstatus : sender.status ≠ .dying) :
    k.Lineage event := by
  by_cases hborn : ∃ i env, k.registry.env? i = none ∧ (k.step event).registry.env? i = some env
  · obtain ⟨i, env, hvacant, henv⟩ := hborn
    obtain ⟨hcall, -, hbegets⟩ := forks_of_born hcalls hsender hstatus hvacant henv
    exact .forked hcalls hsender hcall hbegets
  · refine .remains (remains_of_unborn fun i hvacant => ?_)
    rw [Option.eq_none_iff_forall_ne_some]
    exact fun env henv => hborn ⟨i, env, hvacant, henv⟩

theorem env?_tryResolve_eq_none {s : Realm} (index : Nat) (env : Env) (va : Word) (write : Bool)
    (hvacant : s.registry.env? i = none) :
    (tryResolve s index env va write).2.registry.env? i = none :=
  (sameOutlines_tryResolve s index env va write).env?_eq_none hvacant

theorem lineage_step (halive : ∀ i env, k.registry.env? i = some env → env.status ≠ .dying)
    (event : Event) : k.Lineage event := by
  cases k.happens event with
  | turn current hstep =>
      refine .remains (remains_of_unborn fun i hvacant => ?_)
      rw [registry, hstep]
      exact hvacant
  | @birth kind parent child born hallocate hlog =>
      have hregistry : (k.step (.createEnv kind parent)).registry = born := hlog.registry_eq
      have hbegets := begets_of_allocate hallocate
      rw [← hregistry] at hbegets
      exact .created rfl hbegets
  | call hcalls hsender => exact lineage_of_calls hcalls hsender (halive _ _ hsender)
  | @fault va write index env after current henv hafter hstep =>
      refine .remains (remains_of_unborn fun i hvacant => ?_)
      have hresolved := env?_tryResolve_eq_none (s := k.realm) index env va write hvacant
      rw [registry, hstep]
      change after.registry.env? i = none
      rcases hafter with rfl | ⟨entry, rfl⟩ | ⟨noted, hlog, rfl⟩
      · exact hresolved
      · exact Registry.env?_modify_eq_none _ _ hresolved
      · refine Realm.env?_endEnv_eq_none _ _ _ ?_
        rwa [hlog.registry_eq]
  | read henv hstep | write henv hstep =>
      refine .remains (remains_of_unborn fun i hvacant => ?_)
      rw [registry, hstep]
      exact (Realm.sameOutlines_onSpace _ _ _ _).env?_eq_none hvacant

end Kernel

end Exokernel
