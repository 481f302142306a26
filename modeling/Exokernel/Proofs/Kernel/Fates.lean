import Exokernel.Proofs.Kernel.Serving
import Exokernel.Proofs.Service.Deeds

/-! # What becomes of an environment

What an event makes of each slot: the slot stays free or gets its next occupant, or the environment
in it ends or stays.  One that stays may be sent a message, wait for one or be given a status, by a
call that is answered with zero.  Its registers change only if the event is its own. -/

namespace Exokernel.Kernel

variable {k : Kernel} {event : Event} {index : Nat}

/-- The call that an event is: the slot of its caller, which call it is, and its arguments. -/
def call? (k : Kernel) : Event → Option (Nat × Syscall × Args)
  | .syscall number args => do
    let caller ← k.registry.current
    let _ ← k.registry.env? caller
    let call ← Syscall.ofNumber? number.toNat
    pure (caller, call, args)
  | .trap => do
    let caller ← k.registry.current
    let env ← k.registry.env? caller
    let call ← Syscall.ofNumber? env.frame.callNumber.toNat
    pure (caller, call, env.frame.callArgs)
  | _ => none

theorem call?_of_idle (hcurrent : k.registry.current = none) (event : Event) :
    k.call? event = none := by
  cases event with
  | syscall | trap =>
      rw [call?]
      rw [hcurrent]
      rfl
  | _ => rfl

/-- Is the event a call or a page fault of the environment in a slot? -/
def acts (k : Kernel) (index : Nat) : Event → Bool
  | .syscall _ _ | .trap | .pageFault _ _ => k.registry.current == some index
  | _ => false

/-- What an event makes of an environment, its memory and its registers aside. -/
def Deed (k : Kernel) (event : Event) (index : Nat) (env env' : Env) : Prop :=
  match k.call? event with
  | some (caller, call, args) =>
    Service.Deed k.registry caller args (k.answer event) index call env env'
  | none => env' = env

/-- What an event makes of a slot. -/
inductive Fate (k : Kernel) (event : Event) (index : Nat) : Slot → Slot → Prop where
  | vacant {generation} : Fate k event index ⟨generation, none⟩ ⟨generation, none⟩
  | born {generation parent kind status frame} (hstatus : status = .runnable ∨ status = .notRunnable) :
      Fate k event index ⟨generation, none⟩ ⟨Registry.nextGeneration generation,
        some { Env.fresh (.ofParts index (Registry.nextGeneration generation)) parent kind status with
          frame }⟩
  | ended {generation env} : Fate k event index ⟨generation, some env⟩ ⟨generation, none⟩
  | kept {generation env env' table frame upcall} (hdeed : k.Deed event index env env')
      (hframe : frame = env.frame ∨ k.acts index event = true)
      (hword : ∀ w, k.acts index event = true → k.answer event = some w → frame.result = w) :
      Fate k event index ⟨generation, some env⟩
        ⟨generation, some { env' with table, frame, upcall }⟩

/-- What an event makes of the registry. -/
structure Fates (k : Kernel) (event : Event) : Prop where
  capacity_eq : (k.step event).registry.capacity = k.registry.capacity
  slot : ∀ i slot, k.registry.slot? i = some slot →
    ∃ slot', (k.step event).registry.slot? i = some slot' ∧ k.Fate event i slot slot'

/-! ## Events without a call -/

/-- An event that no call answers keeps free slots free, and ends environments or changes registers
of the one that it is about. -/
theorem Fates.of_slots (hcall : k.call? event = none) (hanswer : k.answer event = none)
    (hcapacity : (k.step event).registry.capacity = k.registry.capacity)
    (hvacant : ∀ i generation, k.registry.slot? i = some ⟨generation, none⟩ →
      (k.step event).registry.slot? i = some ⟨generation, none⟩)
    (hslot : ∀ i generation env, k.registry.slot? i = some ⟨generation, some env⟩ →
      (k.step event).registry.slot? i = some ⟨generation, none⟩ ∨
        ∃ table frame upcall, (frame = env.frame ∨ k.acts i event = true) ∧
          (k.step event).registry.slot? i =
            some ⟨generation, some { env with table, frame, upcall }⟩) : k.Fates event := by
  refine ⟨hcapacity, ?_⟩
  rintro i ⟨generation, _ | env⟩ hbefore
  · exact ⟨_, hvacant i generation hbefore, .vacant⟩
  · rcases hslot i generation env hbefore with hafter | ⟨table, frame, upcall, hframe, hafter⟩
    · exact ⟨_, hafter, .ended⟩
    · refine ⟨_, hafter, .kept ?_ hframe ?_⟩
      · rw [Deed, hcall]
      · intro w _ hsome
        rw [hanswer] at hsome
        cases hsome

theorem Fates.of_sameOutlines (r : Registry) (hcall : k.call? event = none)
    (hanswer : k.answer event = none) (hslots : (k.step event).registry.slots = r.slots)
    (h : k.registry.SameOutlines r) : k.Fates event := by
  have hslots : ∀ i, (k.step event).registry.slot? i = r.slot? i := fun i =>
    congrArg (fun slots : Array Slot => slots[i]?) hslots
  apply Fates.of_slots hcall hanswer
  · exact (congrArg Array.size ‹_›).trans h.capacity_eq
  · intro i generation hslot
    exact (hslots i).trans (h.vacant hslot)
  · intro i generation env hslot
    obtain ⟨table, upcall, hslot'⟩ := h.occupied hslot
    exact Or.inr ⟨table, env.frame, upcall, Or.inl rfl, (hslots i).trans hslot'⟩

theorem fates_turn {current : Option Nat} (hcall : k.call? event = none)
    (hanswer : k.answer event = none)
    (hstep : (k.step event).realm = withCurrent k.realm current) : k.Fates event :=
  .of_sameOutlines k.registry hcall hanswer
    ((congrArg (fun s : Realm => s.registry.slots) hstep).trans rfl) (.refl _)

theorem fates_same (hcall : k.call? event = none) (hanswer : k.answer event = none)
    (hstep : k.step event = k) : k.Fates event :=
  .of_sameOutlines k.registry hcall hanswer
    (congrArg (fun k' : Kernel => k'.registry.slots) hstep) (.refl _)

theorem fates_createEnv (kind : EnvKind) (parent : Option EnvId) :
    k.Fates (.createEnv kind parent) := by
  cases hcreate : k.createEnv kind parent with
  | error e => exact fates_same rfl rfl (by simp only [step, hcreate])
  | ok result =>
      obtain ⟨id, k'⟩ := result
      obtain ⟨child, registry, hallocate, hlog⟩ := createEnv_eq_ok hcreate
      have hregistry : (k.step (.createEnv kind parent)).registry = registry := by
        simp only [step, hcreate]
        exact hlog.registry_eq
      obtain ⟨-, hcapacity, -⟩ := Registry.allocate_eq_ok hallocate
      obtain ⟨generation, hvacant, hslots⟩ := Registry.slot?_of_allocate hallocate
      refine ⟨by rw [hregistry]; exact hcapacity, ?_⟩
      intro i slot hslot
      rw [hregistry, hslots i]
      by_cases hi : child = i
      · subst hi
        rw [show k.registry.slot? child = _ from hvacant] at hslot
        cases hslot
        exact ⟨_, if_pos rfl, .born (Or.inl rfl)⟩
      · refine ⟨slot, (if_neg hi).trans hslot, ?_⟩
        obtain ⟨generation', _ | env⟩ := slot
        · exact .vacant
        · exact .kept rfl (Or.inl rfl) fun _ hacts => absurd hacts Bool.false_ne_true

theorem fates_run (id : EnvId) : k.Fates (.run id) := by
  cases hrun : k.run id with
  | error e => exact fates_same rfl rfl (by simp only [step, hrun])
  | ok k' =>
      obtain ⟨current, heq⟩ := run_eq_ok hrun
      exact fates_turn rfl rfl (by simp only [step, hrun]; exact heq)

theorem fates_readUser (id : EnvId) (va : Word) (length : Nat) : k.Fates (.readUser id va length) := by
  rcases k.onSpace_cases id (Space.readBytes va.toNat length) with
    hsame | ⟨index, env, -, -, heq⟩
  · exact fates_same rfl rfl hsame
  · exact .of_sameOutlines _ rfl rfl (congrArg (fun k' : Kernel => k'.registry.slots) heq)
      (Realm.sameOutlines_onSpace index env _ k.realm)

theorem fates_writeUser (id : EnvId) (va : Word) (bytes : List UInt8) :
    k.Fates (.writeUser id va bytes) := by
  rcases k.onSpace_cases id (Space.writeBytes va.toNat bytes) with
    hsame | ⟨index, env, -, -, heq⟩
  · exact fates_same rfl rfl hsame
  · exact .of_sameOutlines _ rfl rfl (congrArg (fun k' : Kernel => k'.registry.slots) heq)
      (Realm.sameOutlines_onSpace index env _ k.realm)

theorem sameOutlines_tryResolve (s : Realm) (index : Nat) (env : Env) (va : Word) (write : Bool) :
    s.registry.SameOutlines (tryResolve s index env va write).2.registry := by
  rcases tryResolve_cases s index env va write with hsame | ⟨address, -, hresolve⟩
  · rw [hsame]
    exact .refl _
  · rw [hresolve]
    exact Realm.sameOutlines_onSpace _ _ _ _

theorem fates_pageFault (va : Word) (write : Bool) : k.Fates (.pageFault va write) := by
  rcases k.pageFault_cases va write with
    hsame | ⟨index, env, hcurrent, henv, after, current, hafter, heq⟩
  · exact fates_same rfl rfl hsame
  have houtlines := sameOutlines_tryResolve k.realm index env va write
  have hacts : k.acts index (.pageFault va write) = true := by
    rw [acts, hcurrent]
    exact beq_self_eq_true _
  generalize (tryResolve k.realm index env va write).2 = resolved at hafter houtlines
  have hstep : ∀ i, (k.step (.pageFault va write)).registry.slot? i = after.registry.slot? i :=
    fun i => congrArg (fun k' : Kernel => k'.registry.slot? i) heq
  have hcapacity : (k.step (.pageFault va write)).registry.capacity = after.registry.capacity :=
    congrArg (fun k' : Kernel => k'.registry.capacity) heq
  rcases hafter with rfl | ⟨entry, rfl⟩ | ⟨noted, hlog, rfl⟩
  · exact .of_sameOutlines after.registry rfl rfl
      (congrArg (fun k' : Kernel => k'.registry.slots) heq) houtlines
  · apply Fates.of_slots rfl rfl
    · exact hcapacity.trans ((Registry.capacity_modify _ _ _).trans houtlines.capacity_eq)
    · intro i generation hslot
      rw [hstep, Realm.modifyEnv, Registry.slot?_modify, houtlines.vacant hslot]
      exact ite_self _
    · intro i generation before hslot
      obtain ⟨table, upcall, hslot'⟩ := houtlines.occupied hslot
      right
      rw [hstep, Realm.modifyEnv, Registry.slot?_modify, hslot']
      by_cases hi : index = i
      · subst hi
        exact ⟨_, _, _, Or.inr hacts, if_pos rfl⟩
      · exact ⟨table, before.frame, upcall, Or.inl rfl, if_neg hi⟩
  · have hnoted : k.registry.SameOutlines noted.registry := houtlines.trans hlog.sameOutlines
    apply Fates.of_slots rfl rfl
    · exact hcapacity.trans ((noted.capacity_endEnv _ _ _).trans hnoted.capacity_eq)
    · intro i generation hslot
      rw [hstep, Realm.slot?_endEnv, hnoted.vacant hslot]
      exact ite_self _
    · intro i generation before hslot
      obtain ⟨table, upcall, hslot'⟩ := hnoted.occupied hslot
      rw [hstep, Realm.slot?_endEnv, hslot']
      by_cases hi : index = i
      · exact Or.inl (if_pos hi)
      · exact Or.inr ⟨table, before.frame, upcall, Or.inl rfl, if_neg hi⟩

/-! ## Calls -/

def answered (word : Option Int64) (env : Env) : Env :=
  match word with
  | some w => { env with frame := env.frame.setResult w }
  | none => env

theorem slot?_settle_of_ne {s : Realm} {config : Config} {caller i : Nat} {id : EnvId}
    {word : Option Int64} (hi : i ≠ caller) :
    (settle s config caller id word).registry.slot? i = s.registry.slot? i := by
  obtain ⟨t, ht, hsettle⟩ := settle_cases s config caller id word
  have hword : t.registry.slot? i = s.registry.slot? i := by
    rcases ht with rfl | ⟨w, rfl⟩
    · rfl
    · exact (Registry.slot?_modify _ _ _ _).trans (if_neg (Ne.symm hi))
  rcases hsettle with heq | heq
  · rw [heq]
    exact hword
  · rw [heq, Realm.slot?_endEnv, if_neg (Ne.symm hi)]
    exact hword

theorem slot?_settle_self {s : Realm} {config : Config} {caller generation : Nat} {id : EnvId}
    {word : Option Int64} {occupant : Option Env}
    (h : s.registry.slot? caller = some ⟨generation, occupant⟩) :
    (settle s config caller id word).registry.slot? caller = some ⟨generation,
      (occupant.filter (·.status != .dying)).map (answered word)⟩ := by
  have hword : ∃ t : Realm, t.registry.slot? caller = some ⟨generation, occupant.map (answered word)⟩ ∧
      settle s config caller id word =
        if (t.registry.env? caller).any (·.status == .dying) then
          (t.endEnv caller (some id) config.traceEnvs).2
        else t := by
    cases word with
    | none =>
        refine ⟨s, ?_, rfl⟩
        rw [h]
        cases occupant <;> rfl
    | some w =>
        refine ⟨_, ?_, rfl⟩
        refine (Registry.slot?_modify _ _ _ _).trans ?_
        rw [if_pos rfl, h]
        rfl
  obtain ⟨t, hslot, hsettle⟩ := hword
  rw [hsettle, Registry.env?_of_slot? hslot]
  cases occupant with
  | none => exact hslot
  | some env =>
      have hstatus : (answered word env).status = env.status := by
        cases word <;> rfl
      simp only [Option.map_some, Option.any_some, hstatus]
      cases hdying : env.status == .dying with
      | true =>
          rw [if_pos rfl, Realm.slot?_endEnv, if_pos rfl, hslot]
          simp [Option.filter, bne, hdying]
      | false =>
          rw [if_neg Bool.false_ne_true, hslot]
          simp [Option.filter, bne, hdying]

theorem capacity_settle (s : Realm) (config : Config) (caller : Nat) (id : EnvId)
    (word : Option Int64) :
    (settle s config caller id word).registry.capacity = s.registry.capacity := by
  obtain ⟨t, ht, hsettle⟩ := settle_cases s config caller id word
  have hword : t.registry.capacity = s.registry.capacity := by
    rcases ht with rfl | ⟨w, rfl⟩
    · rfl
    · exact Registry.capacity_modify _ _ _
  rcases hsettle with heq | heq
  · rw [heq]
    exact hword
  · rw [heq, Realm.capacity_endEnv]
    exact hword

theorem Deed.frame_eq {caller : Nat} {env env' : Env} (hcurrent : k.registry.current = some caller)
    (hi : index ≠ caller) (h : k.Deed .trap index env env') : env'.frame = env.frame := by
  rw [Deed] at h
  split at h
  · next slot call args hcall =>
    obtain ⟨caller', hcaller', hrest⟩ := Option.bind_eq_some_iff.mp hcall
    rw [hcurrent] at hcaller'
    cases hcaller'
    obtain ⟨env, -, hrest⟩ := Option.bind_eq_some_iff.mp hrest
    obtain ⟨call', -, heq⟩ := Option.bind_eq_some_iff.mp hrest
    cases heq
    exact Service.Deed.frame_eq h hi
  · rw [h]

/-- What the work of a call makes of another slot than that of the caller is all that becomes of
it. -/
theorem fate_of_turn_of_ne {caller : Nat} {before after : Slot}
    (hcurrent : k.registry.current = some caller) (hi : index ≠ caller)
    (h : Service.Turn caller index (k.Deed .trap index) before after) :
    k.Fate .trap index before after := by
  cases h with
  | vacant => exact .vacant
  | born => exact .born (Or.inr rfl)
  | ended => exact .ended
  | doomed heq => exact absurd heq hi
  | @kept generation env env' table upcall hdeed =>
      have hkept : k.Fate .trap index ⟨generation, some env⟩
          ⟨generation, some { env' with table, frame := env'.frame, upcall }⟩ := by
        refine .kept hdeed (Or.inl (hdeed.frame_eq hcurrent hi)) ?_
        intro w hacts
        rw [acts, hcurrent] at hacts
        exact absurd (Option.some.inj (beq_iff_eq.mp hacts)).symm hi
      exact hkept

theorem fate_of_turn_self {before : Slot} {generation : Nat} {occupant : Option Env}
    (hcurrent : k.registry.current = some index) {sender : Env} (hbefore : before.env = some sender)
    (h : Service.Turn index index (k.Deed .trap index) before ⟨generation, occupant⟩) :
    k.Fate .trap index before ⟨generation,
      (occupant.filter (·.status != .dying)).map (answered k.trap.1)⟩ := by
  cases h with
  | vacant => cases hbefore
  | born => cases hbefore
  | ended => exact .ended
  | doomed => exact .ended
  | @kept _ env env' table upcall hdeed =>
      cases hdying : env'.status != .dying with
      | false =>
          simp only [Option.filter, hdying]
          exact .ended
      | true =>
          simp only [Option.filter, hdying]
          have hacts : k.acts index .trap = true := by
            rw [acts, hcurrent]
            exact beq_self_eq_true _
          have hkept : k.Fate .trap index ⟨generation, some env⟩ ⟨generation, some { env' with
              table, frame := (answered k.trap.1 env').frame, upcall }⟩ := by
            refine .kept hdeed (Or.inr hacts) ?_
            intro w _ hanswer
            rw [show k.trap.1 = some w from hanswer]
            exact TrapFrame.result_setResult _ _
          cases hanswer : k.trap.1 with
          | none =>
              rw [hanswer] at hkept
              exact hkept
          | some w =>
              rw [hanswer] at hkept
              exact hkept

theorem call?_trap {caller : Nat} {sender : Env} (hcurrent : k.registry.current = some caller)
    (hsender : k.registry.env? caller = some sender) :
    k.call? .trap = (Syscall.ofNumber? sender.frame.callNumber.toNat).map fun call =>
      (caller, call, sender.frame.callArgs) := by
  rw [call?]
  simp only [hcurrent, hsender, Option.bind_eq_bind, Option.bind_some]
  cases Syscall.ofNumber? sender.frame.callNumber.toNat <;> rfl

theorem turns_outcome {caller : Nat} {sender : Env} (hcurrent : k.registry.current = some caller)
    (hsender : k.registry.env? caller = some sender) :
    Service.Turns caller (k.Deed .trap) k.registry (k.outcome caller sender).realm.registry := by
  have hturns := Service.turns_answer ⟨caller, k.config⟩ sender.frame.callArgs k.realm
    sender.frame.callNumber
  have hanswer : k.answer .trap = resultWord? (k.outcome caller sender).result :=
    congrArg Prod.fst (trap_eq hcurrent hsender)
  have hcall := call?_trap hcurrent hsender
  cases hnumber : Syscall.ofNumber? sender.frame.callNumber.toNat with
  | none =>
      rw [hnumber] at hturns hcall
      have hdeed : k.Deed .trap = fun _ env env' => env' = env := by
        funext i env env'
        rw [Deed, hcall]
        rfl
      rw [hdeed]
      exact hturns
  | some call =>
      rw [hnumber] at hturns hcall
      have hdeed : k.Deed .trap = fun i env env' => Service.Deed k.registry caller
          sender.frame.callArgs (resultWord? (k.outcome caller sender).result) i call env env' := by
        funext i env env'
        rw [Deed, hcall, hanswer]
        rfl
      rw [hdeed]
      exact hturns

theorem fates_trap (k : Kernel) : k.Fates .trap := by
  cases hcurrent : k.registry.current with
  | none =>
      have htrap := trap_of_idle hcurrent
      exact fates_same (call?_of_idle hcurrent _) (congrArg Prod.fst htrap) (congrArg Prod.snd htrap)
  | some caller =>
  cases hsender : k.registry.env? caller with
  | none =>
      have hcall : k.call? .trap = none := by
        rw [call?]
        simp only [hcurrent, hsender, Option.bind_eq_bind, Option.bind_some, Option.bind_none]
      have htrap := trap_of_vacant hcurrent hsender
      exact fates_same hcall (congrArg Prod.fst htrap) (congrArg Prod.snd htrap)
  | some sender =>
  have htrap := trap_eq hcurrent hsender
  have hturns := turns_outcome hcurrent hsender
  have hnoted := (sameButLog_noteCall (k.outcome caller sender).realm k.config sender.id
    sender.frame.callNumber sender.frame.callArgs (k.outcome caller sender).result).registry_eq
  have hslots : (k.step .trap).registry.slots = (k.settled caller sender).registry.slots :=
    (congrArg (fun x => x.2.registry.slots) htrap).trans (slots_serve k caller sender)
  constructor
  · refine (congrArg Array.size hslots).trans ((capacity_settle _ _ _ _ _).trans ?_)
    rw [hnoted]
    exact hturns.capacity_eq
  · intro i before hbefore
    obtain ⟨⟨generation, occupant⟩, hworked, hturn⟩ := hturns.slot i before hbefore
    rw [← hnoted] at hworked
    have hstep : (k.step .trap).registry.slot? i = (k.settled caller sender).registry.slot? i :=
      congrArg (fun slots : Array Slot => slots[i]?) hslots
    by_cases hi : i = caller
    · subst hi
      have henv : before.env = some sender := by
        exact (Registry.env?_of_slot? hbefore).symm.trans hsender
      refine ⟨_, hstep.trans (slot?_settle_self hworked), ?_⟩
      have hfate := fate_of_turn_self hcurrent henv hturn
      rw [show k.trap.1 = _ from congrArg Prod.fst htrap] at hfate
      exact hfate
    · refine ⟨_, hstep.trans ((slot?_settle_of_ne hi).trans hworked), ?_⟩
      exact fate_of_turn_of_ne hcurrent hi hturn

/-! ## Calls that are loaded first -/

theorem call?_loaded {caller : Nat} (hcurrent : k.registry.current = some caller) (number : Word)
    (args : Args) : (k.loaded caller number args).call? .trap = k.call? (.syscall number args) := by
  have hloaded : (k.loaded caller number args).registry.current = some caller := hcurrent
  rw [call?, call?]
  rw [hloaded, hcurrent]
  simp only [Option.bind_eq_bind, Option.bind_some, env?_loaded, if_true]
  cases k.registry.env? caller <;> rfl

/-- With its call loaded the caller has the same deeds done to it as without. -/
theorem Deed.of_loaded {caller : Nat} (hcurrent : k.registry.current = some caller) {number : Word}
    {args : Args} {frame : TrapFrame} {env env' : Env}
    (h : (k.loaded caller number args).Deed .trap index { env with frame } env') :
    ∃ env'', k.Deed (.syscall number args) index env env'' ∧
      { env' with frame := env.frame } = { env'' with frame := env.frame } := by
  have hanswer : (k.loaded caller number args).answer .trap = k.answer (.syscall number args) :=
    congrArg Prod.fst (syscall_eq_trap hcurrent number args).symm
  rw [Deed, call?_loaded hcurrent, hanswer] at h
  simp only [Deed]
  cases hcall : k.call? (.syscall number args) with
  | none =>
      rw [hcall] at h
      cases h
      exact ⟨env, rfl, rfl⟩
  | some call =>
      obtain ⟨caller', call, args'⟩ := call
      rw [hcall] at h
      obtain ⟨caller'', hcaller, hrest⟩ := Option.bind_eq_some_iff.mp hcall
      obtain ⟨_, -, hrest⟩ := Option.bind_eq_some_iff.mp hrest
      obtain ⟨_, -, heq⟩ := Option.bind_eq_some_iff.mp hrest
      cases heq
      rw [hcurrent] at hcaller
      cases hcaller
      exact Service.Deed.of_registers h

theorem fate_of_loaded {caller generation : Nat} (hcurrent : k.registry.current = some caller)
    {number : Word} {args : Args} {frame : TrapFrame} {env : Env} {after : Slot}
    (hframe : frame = env.frame ∨ k.acts index (.syscall number args) = true)
    (h : (k.loaded caller number args).Fate .trap index ⟨generation, some { env with frame }⟩ after) :
    k.Fate (.syscall number args) index ⟨generation, some env⟩ after := by
  cases h with
  | ended => exact .ended
  | @kept _ _ env' table frame' upcall hdeed hframe' hword =>
      obtain ⟨env'', hdeed', heq⟩ := hdeed.of_loaded hcurrent
      have hafter := congrArg (fun e : Env => { e with table, frame := frame', upcall }) heq
      change { env' with table, frame := frame', upcall } =
        { env'' with table, frame := frame', upcall } at hafter
      have hkept : k.Fate (.syscall number args) index ⟨generation, some env⟩
          ⟨generation, some { env'' with table, frame := frame', upcall }⟩ := by
        refine .kept hdeed' ?_ ?_
        · rcases hframe' with rfl | hacts
          · exact hframe
          · exact Or.inr hacts
        · intro w hacts hanswer
          refine hword w hacts ?_
          exact (congrArg Prod.fst (syscall_eq_trap hcurrent number args)).symm.trans hanswer
      rw [hafter]
      exact hkept

theorem slot?_loaded_of_vacant {caller generation : Nat} {number : Word} {args : Args}
    (hslot : k.registry.slot? index = some ⟨generation, none⟩) :
    (k.loaded caller number args).registry.slot? index = some ⟨generation, none⟩ := by
  refine (Registry.slot?_modify _ _ _ _).trans ?_
  rw [show k.realm.registry.slot? index = _ from hslot]
  exact ite_self _

theorem slot?_loaded {caller generation : Nat} {env : Env}
    (hcurrent : k.registry.current = some caller) (number : Word) (args : Args)
    (hslot : k.registry.slot? index = some ⟨generation, some env⟩) :
    ∃ frame, (frame = env.frame ∨ k.acts index (.syscall number args) = true) ∧
      (k.loaded caller number args).registry.slot? index =
        some ⟨generation, some { env with frame }⟩ := by
  have hloaded : (k.loaded caller number args).registry.slot? index = _ :=
    Registry.slot?_modify _ _ _ _
  rw [show k.realm.registry.slot? index = _ from hslot] at hloaded
  by_cases hi : caller = index
  · subst hi
    refine ⟨_, Or.inr ?_, hloaded.trans (if_pos rfl)⟩
    rw [acts, hcurrent]
    exact beq_self_eq_true _
  · exact ⟨env.frame, Or.inl rfl, hloaded.trans (if_neg hi)⟩

theorem fates_syscall (k : Kernel) (number : Word) (args : Args) : k.Fates (.syscall number args) := by
  cases hcurrent : k.registry.current with
  | none =>
      have hsyscall := syscall_of_idle hcurrent number args
      exact fates_same (call?_of_idle hcurrent _) (congrArg Prod.fst hsyscall)
        (congrArg Prod.snd hsyscall)
  | some caller =>
  have hfates := fates_trap (k.loaded caller number args)
  have hstep : (k.loaded caller number args).step .trap = k.step (.syscall number args) :=
    congrArg Prod.snd (syscall_eq_trap hcurrent number args).symm
  constructor
  · rw [← hstep]
    exact hfates.capacity_eq.trans (Registry.capacity_modify _ _ _)
  · rintro i ⟨generation, _ | env⟩ hbefore
    · obtain ⟨after, hafter, hfate⟩ := hfates.slot i _ (slot?_loaded_of_vacant hbefore)
      rw [hstep] at hafter
      refine ⟨after, hafter, ?_⟩
      cases hfate with
      | vacant => exact .vacant
      | born hstatus => exact .born hstatus
    · obtain ⟨frame, hframe, hloaded⟩ := slot?_loaded hcurrent number args hbefore
      obtain ⟨after, hafter, hfate⟩ := hfates.slot i _ hloaded
      rw [hstep] at hafter
      exact ⟨after, hafter, fate_of_loaded hcurrent hframe hfate⟩

theorem fates_step (k : Kernel) (event : Event) : k.Fates event := by
  cases event with
  | createEnv kind parent => exact fates_createEnv kind parent
  | run id => exact fates_run id
  | schedule => exact fates_turn rfl rfl rfl
  | syscall number args => exact fates_syscall k number args
  | trap => exact fates_trap k
  | pageFault va write => exact fates_pageFault va write
  | readUser id va length => exact fates_readUser id va length
  | writeUser id va bytes => exact fates_writeUser id va bytes

end Exokernel.Kernel
