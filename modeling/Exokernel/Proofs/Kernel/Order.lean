import Exokernel.Proofs.Kernel.Accounts
import Exokernel.Proofs.Kernel.Fates

/-! # Order among the environments

Between two events an environment may run, or is suspended and may wait for a message; nobody is
dying. Its identifier names its slot and the generation of the slot, and whoever is the current
environment may run.  Each event keeps this, whatever is asked for, and so it holds in every state
that events lead to from a fresh kernel on. -/

namespace Exokernel

namespace Env

/-- The environment may run, or is suspended.  Only a suspended one waits for a message. -/
def Calm (env : Env) : Prop :=
  (env.status = .runnable ∧ env.mailbox.waiting = none) ∨ env.status = .notRunnable

theorem Calm.ne_dying {env : Env} (h : env.Calm) : env.status ≠ .dying := by
  rcases h with ⟨hstatus, -⟩ | hstatus
  · rw [hstatus]
    exact nofun
  · rw [hstatus]
    exact nofun

theorem calm_withStatus {arg : Word} {status : EnvStatus}
    (hstatus : Service.settableStatus? arg = some status) (env : Env) :
    (Service.withStatus status env).Calm := by
  rw [Service.settableStatus?] at hstatus
  split at hstatus
  · cases hstatus
    exact Or.inl ⟨rfl, rfl⟩
  · cases hstatus
    exact Or.inr rfl
  · cases hstatus

theorem calm_of_deed {r : Registry} {caller index : Nat} {args : Args} {word : Option Int64}
    {call : Syscall} {env env' : Env} (h : env.Calm)
    (hdeed : Service.Deed r caller args word index call env env') : env'.Calm := by
  cases hdeed with
  | idle => exact h
  | delivered => exact Or.inl ⟨rfl, rfl⟩
  | waits => exact Or.inr rfl
  | given _ _ hstatus => exact calm_withStatus hstatus _

end Env

/-- The occupant of a slot is named after the slot and its generation, and is calm. -/
structure Slot.Orderly (index : Nat) (slot : Slot) : Prop where
  id_eq : ∀ env, slot.env = some env → env.id = .ofParts index slot.generation
  generation_bounds : ∀ env, slot.env = some env →
    1 ≤ slot.generation ∧ slot.generation ≤ maxGeneration
  calm : ∀ env, slot.env = some env → env.Calm

theorem Slot.Orderly.id_parts {index generation : Nat} {env : Env}
    (h : Slot.Orderly index ⟨generation, some env⟩) (hindex : index < maxEnvs) :
    env.id.index = index ∧ env.id.generation = generation ∧ 1 ≤ generation ∧
      generation ≤ maxGeneration := by
  have hbounds := h.generation_bounds env rfl
  rw [h.id_eq env rfl]
  exact ⟨EnvId.index_ofParts hindex _, EnvId.generation_ofParts index hbounds.2, hbounds⟩

theorem Slot.Orderly.vacant (index generation : Nat) : Slot.Orderly index ⟨generation, none⟩ := by
  refine ⟨?_, ?_, ?_⟩
  all_goals
    intro env henv
    cases henv

namespace Kernel

variable {k : Kernel} {event : Event}

theorem id_of_deed {index : Nat} {env env' : Env} (h : k.Deed event index env env') :
    env'.id = env.id := by
  rw [Deed] at h
  split at h
  · cases h <;> rfl
  · rw [h]

theorem Fate.orderly {index : Nat} {before after : Slot} (h : before.Orderly index)
    (hfate : k.Fate event index before after) : after.Orderly index := by
  cases hfate with
  | vacant => exact .vacant _ _
  | ended => exact .vacant _ _
  | @born generation parent kind status frame hstatus =>
      refine ⟨?_, fun _ _ => Registry.nextGeneration_bounds _, ?_⟩
      · rintro _ ⟨⟩
        rfl
      · rintro _ ⟨⟩
        exact hstatus.imp_left fun hrunnable => ⟨hrunnable, rfl⟩
  | @kept generation env env' table frame upcall hdeed =>
      refine ⟨?_, fun _ _ => h.generation_bounds env rfl, ?_⟩
      · rintro _ ⟨⟩
        exact (id_of_deed hdeed).trans (h.id_eq env rfl)
      · rintro _ ⟨⟩
        have hcalm : env'.Calm := by
          rw [Deed] at hdeed
          split at hdeed
          · exact Env.calm_of_deed (h.calm env rfl) hdeed
          · rw [hdeed]
            exact h.calm env rfl
        exact hcalm

/-! ## The current environment -/

def CurrentRuns (k : Kernel) : Prop :=
  ∀ i, k.registry.current = some i → k.registry.isRunnable i = true

theorem currentRuns_scheduleFrom (h : k.scheduler = .roundRobin) (realm : Realm)
    (last : Option Nat) : ({ k with realm }.scheduleFrom last).CurrentRuns := by
  intro i hi
  have hpicked : k.scheduler realm.registry last = some i := (Option.filter_eq_some_iff.mp hi).1
  rw [h] at hpicked
  exact Scheduler.isRunnable_of_roundRobin hpicked

theorem currentRuns_of_sameOutlines {k' : Kernel} (hk : k.CurrentRuns)
    (h : k.registry.SameOutlines k'.registry) : k'.CurrentRuns := by
  intro i hi
  rw [h.current_eq] at hi
  rw [h.isRunnable_eq]
  exact hk i hi

theorem current_settle (s : Realm) (config : Config) (caller : Nat) (id : EnvId)
    (word : Option Int64) :
    (settle s config caller id word).registry.current = s.registry.current ∨
      (settle s config caller id word).registry.current = none := by
  obtain ⟨t, ht, hsettle⟩ := settle_cases s config caller id word
  have hword : t.registry.current = s.registry.current := by
    rcases ht with rfl | ⟨w, rfl⟩ <;> rfl
  rcases hsettle with heq | heq
  · rw [heq]
    exact Or.inl hword
  · rw [heq, ← hword]
    exact t.current_endEnv _ _ _

/-- After a call the caller runs on if it may, or the scheduler picks another environment. -/
theorem currentRuns_trap {caller : Nat} {sender : Env} (hscheduler : k.scheduler = .roundRobin)
    (hcurrent : k.registry.current = some caller) (hsender : k.registry.env? caller = some sender) :
    (k.step .trap).CurrentRuns := by
  have hstep : k.step .trap = (k.serve caller sender).2 :=
    congrArg Prod.snd (trap_eq hcurrent hsender)
  rw [hstep, snd_serve]
  split
  · exact currentRuns_scheduleFrom hscheduler _ _
  · next hstays =>
    have hruns : (k.settled caller sender).registry.isRunnable caller = true := by
      simp only [Bool.or_eq_true, Bool.not_eq_true', not_or, Bool.not_eq_false] at hstays
      exact hstays.2
    intro i hi
    have hcaller : k.registry.current = some i := by
      have hnoted := (sameButLog_noteCall (k.outcome caller sender).realm k.config sender.id
        sender.frame.callNumber sender.frame.callArgs (k.outcome caller sender).result).registry_eq
      change (k.settled caller sender).registry.current = some i at hi
      rcases current_settle (noteCall (k.outcome caller sender).realm k.config sender.id
        sender.frame.callNumber sender.frame.callArgs (k.outcome caller sender).result) k.config caller
        sender.id (resultWord? (k.outcome caller sender).result) with hsame | hnone
      · rw [settled, hsame, hnoted] at hi
        rcases (turns_outcome hcurrent hsender).current_or with hsame' | hnone'
        · rw [← hsame']
          exact hi
        · rw [hnone'] at hi
          cases hi
      · rw [settled, hnone] at hi
        cases hi
    rw [hcurrent] at hcaller
    cases hcaller
    exact hruns

theorem currentRuns_pageFault (hscheduler : k.scheduler = .roundRobin) (hk : k.CurrentRuns) (va : Word)
    (write : Bool) : (k.step (.pageFault va write)).CurrentRuns := by
  rw [step, pageFault]
  cases hcurrent : k.registry.current with
  | none => exact hk
  | some index =>
  simp only
  cases henv : k.registry.env? index with
  | none => exact hk
  | some env =>
  have houtlines := sameOutlines_tryResolve k.realm index env va write
  simp only
  generalize tryResolve k.realm index env va write = result at houtlines
  obtain ⟨resolved, realm⟩ := result
  cases resolved with
  | true => exact currentRuns_of_sameOutlines hk houtlines
  | false =>
      cases env.upcall with
      | some entry =>
          intro i hi
          have hresolved : ({ k with realm } : Kernel).CurrentRuns :=
            currentRuns_of_sameOutlines hk houtlines
          have hruns := hresolved i hi
          have hslot : ({ k with realm }.realm.modifyEnv index fun env =>
              { env with frame := env.frame.redirect (UInt64.ofNat entry.raw) va }).registry.env? i = _ :=
            Registry.env?_modify _ _ _ _
          simp only [Registry.isRunnable, registry] at hruns ⊢
          rw [hslot]
          split
          · rw [Option.any_map]
            exact hruns
          · exact hruns
      | none => exact currentRuns_scheduleFrom hscheduler _ _

theorem currentRuns_createEnv (hk : k.CurrentRuns) (kind : EnvKind) (parent : Option EnvId) :
    (k.step (.createEnv kind parent)).CurrentRuns := by
  rw [step]
  cases hcreate : k.createEnv kind parent with
  | error e => exact hk
  | ok result =>
      obtain ⟨id, k'⟩ := result
      obtain ⟨child, registry, hallocate, hlog⟩ := createEnv_eq_ok hcreate
      obtain ⟨hnone, -, hcurrent, -, hother⟩ := Registry.allocate_eq_ok hallocate
      intro i hi
      have hregistry : k'.registry = registry := hlog.registry_eq
      simp only [hregistry] at hi ⊢
      rw [hcurrent] at hi
      have hruns := hk i hi
      have hne : i ≠ child := by
        rintro rfl
        rw [Registry.isRunnable, hnone] at hruns
        cases hruns
      rw [Registry.isRunnable, hother i hne]
      exact hruns

theorem currentRuns_run (hk : k.CurrentRuns) (id : EnvId) : (k.step (.run id)).CurrentRuns := by
  rw [step, run]
  cases hlookup : k.registry.lookup id with
  | none => exact hk
  | some index =>
      cases hruns : k.registry.isRunnable index with
      | false => simpa [hruns] using hk
      | true =>
          simp only [hruns, if_true]
          intro i hi
          have hfilter : (some index).filter (fun j => (k.registry.env? j).isSome) = some i := hi
          cases (Option.filter_eq_some_iff.mp hfilter).1
          exact hruns

theorem currentRuns_onSpace {α : Type} (hk : k.CurrentRuns) (id : EnvId) (x : SpaceM α) :
    (k.onSpace id x).2.CurrentRuns := by
  rcases k.onSpace_cases id x with hsame | ⟨index, env, -, -, heq⟩
  · rw [hsame]
    exact hk
  · rw [heq]
    exact currentRuns_of_sameOutlines hk (Realm.sameOutlines_onSpace index env x k.realm)

theorem currentRuns_step (hscheduler : k.scheduler = .roundRobin) (hk : k.CurrentRuns)
    (event : Event) : (k.step event).CurrentRuns := by
  cases event with
  | createEnv kind parent => exact currentRuns_createEnv hk kind parent
  | run id => exact currentRuns_run hk id
  | schedule => exact currentRuns_scheduleFrom hscheduler _ _
  | syscall number args =>
      cases hcurrent : k.registry.current with
      | none =>
          rw [show k.step (.syscall number args) = k from
            congrArg Prod.snd (syscall_of_idle hcurrent number args)]
          exact hk
      | some caller =>
      obtain ⟨sender, hsender, -⟩ := (Option.any_eq_true _ _).mp (hk caller hcurrent)
      have hstep : k.step (.syscall number args) = (k.loaded caller number args).step .trap :=
        congrArg Prod.snd (syscall_eq_trap hcurrent number args)
      have hloaded := k.env?_loaded caller caller number args
      rw [if_pos rfl, hsender] at hloaded
      rw [hstep]
      exact currentRuns_trap (k := k.loaded caller number args) hscheduler hcurrent hloaded
  | trap =>
      cases hcurrent : k.registry.current with
      | none =>
          rw [show k.step .trap = k from congrArg Prod.snd (trap_of_idle hcurrent)]
          exact hk
      | some caller =>
      obtain ⟨sender, hsender, -⟩ := (Option.any_eq_true _ _).mp (hk caller hcurrent)
      exact currentRuns_trap hscheduler hcurrent hsender
  | pageFault va write => exact currentRuns_pageFault hscheduler hk va write
  | readUser id va length => exact currentRuns_onSpace hk id _
  | writeUser id va bytes => exact currentRuns_onSpace hk id _

/-! ## What never changes -/

theorem exists_realm_trap (k : Kernel) : ∃ realm, k.trap.2 = { k with realm } := by
  cases hcurrent : k.registry.current with
  | none => exact ⟨k.realm, congrArg Prod.snd (trap_of_idle hcurrent)⟩
  | some caller =>
  cases hsender : k.registry.env? caller with
  | none => exact ⟨k.realm, congrArg Prod.snd (trap_of_vacant hcurrent hsender)⟩
  | some sender =>
  obtain ⟨_, _, _, _, -, -, -, -, _, heq⟩ := k.serve_cases caller sender
  exact ⟨_, (congrArg Prod.snd (trap_eq hcurrent hsender)).trans heq⟩

theorem exists_realm_onSpace {α : Type} (k : Kernel) (id : EnvId) (x : SpaceM α) :
    ∃ realm, (k.onSpace id x).2 = { k with realm } := by
  rcases k.onSpace_cases id x with hsame | ⟨_, _, -, -, heq⟩
  · exact ⟨k.realm, hsame⟩
  · exact ⟨_, heq⟩

theorem exists_realm_step (k : Kernel) (event : Event) : ∃ realm, k.step event = { k with realm } := by
  cases event with
  | createEnv kind parent =>
      rw [step, createEnv]
      cases k.registry.allocate parent kind .runnable <;> exact ⟨_, rfl⟩
  | run id =>
      rw [step, run]
      cases k.registry.lookup id with
      | none => exact ⟨_, rfl⟩
      | some index =>
          cases hruns : k.registry.isRunnable index <;> simp only [hruns] <;> exact ⟨_, rfl⟩
  | schedule => exact ⟨_, rfl⟩
  | syscall number args =>
      cases hcurrent : k.registry.current with
      | none => exact ⟨k.realm, congrArg Prod.snd (syscall_of_idle hcurrent number args)⟩
      | some caller =>
          obtain ⟨realm, htrap⟩ := exists_realm_trap (k.loaded caller number args)
          exact ⟨realm, (congrArg Prod.snd (syscall_eq_trap hcurrent number args)).trans htrap⟩
  | trap => exact exists_realm_trap k
  | pageFault va write =>
      rcases k.pageFault_cases va write with hsame | ⟨_, _, _, _, _, _, _, heq⟩
      · exact ⟨k.realm, hsame⟩
      · exact ⟨_, heq⟩
  | readUser id va length => exact exists_realm_onSpace k id _
  | writeUser id va bytes => exact exists_realm_onSpace k id _

theorem scheduler_step (k : Kernel) (event : Event) : (k.step event).scheduler = k.scheduler := by
  obtain ⟨realm, hstep⟩ := k.exists_realm_step event
  rw [hstep]

/-! ## Every run -/

/-- Orderly slots stay orderly, whoever is to run next. -/
theorem orderly_slot_step (h : ∀ i slot, k.registry.slot? i = some slot → slot.Orderly i)
    (event : Event) {i : Nat} {slot : Slot} (hslot : (k.step event).registry.slot? i = some slot) :
    slot.Orderly i := by
  have hfates := k.fates_step event
  have bound : i < (k.step event).registry.capacity := (Array.getElem?_eq_some_iff.mp hslot).1
  rw [hfates.capacity_eq] at bound
  have hbefore : k.registry.slot? i = some _ := Array.getElem?_eq_getElem bound
  obtain ⟨after, hafter, hfate⟩ := hfates.slot i _ hbefore
  rw [hslot] at hafter
  cases hafter
  exact hfate.orderly (h i _ hbefore)

theorem boot_eq_ok {config : Config} {machine : Machine} {scheduler : Scheduler}
    (h : boot config machine scheduler = .ok k) : config.problem? = none ∧
      k.scheduler = scheduler ∧ k.registry = .ofCapacity config.maxEnvs := by
  rw [boot] at h
  split at h
  · cases h
  · next hconfig =>
    cases h
    exact ⟨hconfig, rfl, rfl⟩

theorem capacity_boot {config : Config} {machine : Machine} {scheduler : Scheduler}
    (h : boot config machine scheduler = .ok k) : k.registry.capacity ≤ Exokernel.maxEnvs := by
  obtain ⟨hconfig, -, hregistry⟩ := boot_eq_ok h
  rw [hregistry]
  exact Nat.le_trans (Nat.le_of_eq Array.size_replicate) (Config.problem?_eq_none_iff.mp hconfig).2

theorem slot?_boot {config : Config} {machine : Machine} {scheduler : Scheduler}
    (h : boot config machine scheduler = .ok k) {i : Nat} {slot : Slot}
    (hslot : k.registry.slot? i = some slot) : slot = ⟨0, none⟩ := by
  obtain ⟨-, -, hregistry⟩ := boot_eq_ok h
  rw [hregistry] at hslot
  exact Registry.slot?_ofCapacity hslot

/-- Whatever the scheduler does, the slots are orderly in every state that events lead to. -/
theorem slots_of_runs {config : Config} {machine : Machine} {scheduler : Scheduler} {k₀ : Kernel}
    (hboot : boot config machine scheduler = .ok k₀) (hrun : Runs (fun _ _ => True) k₀ k) :
    k.registry.capacity ≤ Exokernel.maxEnvs ∧
      ∀ i slot, k.registry.slot? i = some slot → slot.Orderly i := by
  refine hrun.invariant (I := fun k => k.registry.capacity ≤ Exokernel.maxEnvs ∧
    ∀ i slot, k.registry.slot? i = some slot → slot.Orderly i) ⟨capacity_boot hboot, ?_⟩ ?_
  · intro i slot hslot
    rw [slot?_boot hboot hslot]
    exact .vacant _ _
  · rintro k event ⟨hcapacity, hslots⟩ -
    exact ⟨(k.fates_step event).capacity_eq ▸ hcapacity, fun _ _ => orderly_slot_step hslots event⟩

/-- The scheduler takes turns, the slots are orderly, and the current environment may run. -/
structure Orderly (k : Kernel) : Prop where
  capacity_le : k.registry.capacity ≤ Exokernel.maxEnvs
  scheduler_eq : k.scheduler = .roundRobin
  slot : ∀ i slot, k.registry.slot? i = some slot → slot.Orderly i
  current : k.CurrentRuns

theorem Orderly.step (h : k.Orderly) (event : Event) : (k.step event).Orderly where
  capacity_le := (k.fates_step event).capacity_eq ▸ h.capacity_le
  scheduler_eq := (k.scheduler_step event).trans h.scheduler_eq
  slot _ _ hslot := orderly_slot_step h.slot event hslot
  current := currentRuns_step h.scheduler_eq h.current event

theorem orderly_boot {config : Config} {machine : Machine}
    (h : boot config machine .roundRobin = .ok k) : k.Orderly where
  capacity_le := capacity_boot h
  scheduler_eq := (boot_eq_ok h).2.1
  slot _ _ hslot := by
    rw [slot?_boot h hslot]
    exact .vacant _ _
  current i hi := by
    rw [(boot_eq_ok h).2.2] at hi
    cases hi

/-- What holds between two events. -/
structure InOrder (k : Kernel) : Prop where
  current_runnable : ∀ i, k.registry.current = some i →
    ∃ env, k.registry.env? i = some env ∧ env.status = .runnable
  notRunnable_of_receiving : ∀ i env, k.registry.env? i = some env →
    env.mailbox.isReceiving = true → env.status = .notRunnable
  status_or : ∀ i env, k.registry.env? i = some env →
    env.status = .runnable ∨ env.status = .notRunnable
  /-- An identifier has two parts, the slot and its generation. -/
  id_parts : ∀ i generation env, k.registry.slot? i = some ⟨generation, some env⟩ →
    env.id.index = i ∧ env.id.generation = generation ∧ 1 ≤ generation ∧ generation ≤ maxGeneration
  id_injective : ∀ i j env env', k.registry.env? i = some env → k.registry.env? j = some env' →
    env.id = env'.id → i = j
  id_ne_self : ∀ i env, k.registry.env? i = some env → env.id ≠ .self
  id_pos : ∀ i env, k.registry.env? i = some env → 0 < env.id.raw.toInt32

theorem pos_ofParts {index generation : Nat} (hindex : index < Exokernel.maxEnvs)
    (hpos : 1 ≤ generation) (hle : generation ≤ maxGeneration) :
    0 < (EnvId.ofParts index generation).raw.toInt32 := by
  have hraw := EnvId.raw_ofParts index generation
  simp only [Exokernel.maxEnvs, maxGeneration] at hindex hle
  have hsigned : (EnvId.ofParts index generation).raw.toInt32.toInt =
      (EnvId.ofParts index generation).raw.toNat := by
    refine BitVec.toInt_eq_toNat_of_lt ?_
    change 2 * (EnvId.ofParts index generation).raw.toNat < 2 ^ 32
    rw [hraw]
    omega
  rw [Int32.lt_iff_toInt_lt, hsigned, hraw, Int32.toInt_zero]
  omega

theorem Orderly.index_lt (h : k.Orderly) {i : Nat} {env : Env}
    (henv : k.registry.env? i = some env) : i < Exokernel.maxEnvs :=
  Nat.lt_of_lt_of_le (Registry.lt_capacity_of_env? henv) h.capacity_le

theorem Orderly.calm (h : k.Orderly) {i : Nat} {env : Env} (henv : k.registry.env? i = some env) :
    env.Calm := by
  obtain ⟨generation, hslot⟩ := Registry.slot?_of_env? henv
  exact (h.slot i _ hslot).calm env rfl

theorem Orderly.id_parts (h : k.Orderly) {i generation : Nat} {env : Env}
    (hslot : k.registry.slot? i = some ⟨generation, some env⟩) :
    env.id.index = i ∧ env.id.generation = generation ∧ 1 ≤ generation ∧
      generation ≤ maxGeneration :=
  (h.slot i _ hslot).id_parts (h.index_lt (Registry.env?_of_slot? hslot))

theorem Orderly.inOrder (h : k.Orderly) : k.InOrder where
  current_runnable i hi := by
    obtain ⟨env, henv, hruns⟩ := (Option.any_eq_true _ _).mp (h.current i hi)
    exact ⟨env, henv, beq_iff_eq.mp hruns⟩
  notRunnable_of_receiving i env henv hreceiving := by
    rcases h.calm henv with ⟨-, hnone⟩ | hstatus
    · rw [Mailbox.isReceiving, hnone] at hreceiving
      cases hreceiving
    · exact hstatus
  status_or i env henv := (h.calm henv).imp_left And.left
  id_parts i generation env hslot := h.id_parts hslot
  id_injective i j env env' henv henv' heq := by
    obtain ⟨generation, hslot⟩ := Registry.slot?_of_env? henv
    obtain ⟨generation', hslot'⟩ := Registry.slot?_of_env? henv'
    rw [← (h.id_parts hslot).1, ← (h.id_parts hslot').1, heq]
  id_ne_self i env henv hself := by
    obtain ⟨generation, hslot⟩ := Registry.slot?_of_env? henv
    obtain ⟨-, hgeneration, hpos, -⟩ := h.id_parts hslot
    rw [hself] at hgeneration
    have hzero : EnvId.self.generation = 0 := by decide
    omega
  id_pos i env henv := by
    obtain ⟨generation, hslot⟩ := Registry.slot?_of_env? henv
    have horderly := h.slot i _ hslot
    have hbounds := horderly.generation_bounds env rfl
    rw [horderly.id_eq env rfl]
    exact pos_ofParts (h.index_lt henv) hbounds.1 hbounds.2

theorem orderly_of_runs {config : Config} {machine : Machine} {k₀ : Kernel}
    (hboot : boot config machine .roundRobin = .ok k₀) (hrun : Runs (fun _ _ => True) k₀ k) :
    k.Orderly :=
  hrun.invariant (orderly_boot hboot) fun _ event h _ => h.step event

/-- From a fresh kernel with the round-robin scheduler on, every state that events lead to is in
order. -/
theorem inOrder_of_runs {config : Config} {machine : Machine} {k₀ : Kernel}
    (hboot : boot config machine .roundRobin = .ok k₀) (hrun : Runs (fun _ _ => True) k₀ k) :
    k.InOrder :=
  (orderly_of_runs hboot hrun).inOrder

/-- An environment forks and makes its child runnable, and the child is to run. -/
def pairKernel : Kernel :=
  smallKernel.after [.createEnv .user none, .run ⟨1024⟩, .syscall 9 .zero,
    .syscall 10 ⟨1025, 2, 0, 0, 0, 0⟩, .run ⟨1025⟩]

def waitCall : Event := .syscall 14 ⟨0x80000000, 0, 0, 0, 0, 0⟩

theorem inOrder_of_runs_waiting :
    boot ⟨4, false, false, none⟩ smallMachine .roundRobin = .ok smallKernel ∧
    Runs (fun _ _ => True) smallKernel (pairKernel.step waitCall) ∧
    (pairKernel.step waitCall).registry.current = some 0 ∧
    ((pairKernel.step waitCall).registry.env? 1).any (·.mailbox.isReceiving) = true ∧
    (pairKernel.step waitCall).InOrder := by
  have hrun : Runs (fun _ _ => True) smallKernel (pairKernel.step waitCall) :=
    .step waitCall (runs_after .start _) trivial
  refine ⟨boot_smallKernel, hrun, by decide +kernel, by decide +kernel, ?_⟩
  exact inOrder_of_runs boot_smallKernel hrun

end Kernel

end Exokernel
