import Exokernel.Proofs.Kernel.Births
import Exokernel.Proofs.Kernel.Histories

/-! # Control in every run

Environments end and their slots are taken again, and parents are identifiers and not environments.
In a run in which whoever is created from outside has no parent or one that is there, and in which
no slot runs out of generations, control never grows among those who are there: whoever controls an
environment has controlled it ever since it was there. -/

namespace Exokernel.Kernel

variable {k k₀ : Kernel} {event : Event} {before during rest events : List Event} {i : Nat}
  {a t : EnvId}

def bears (k : Kernel) (index : Nat) (event : Event) : Bool :=
  (k.registry.env? index).isNone && ((k.step event).registry.env? index).isSome

/-- Whoever is created from outside has no parent, or one that is there. -/
def Legitimate (k : Kernel) : Event → Prop
  | .createEnv _ (some parent) => ∃ i, k.registry.lookup parent = some i
  | _ => True

def AllLegitimate (k : Kernel) : List Event → Prop
  | [] => True
  | event :: rest => k.Legitimate event ∧ (k.step event).AllLegitimate rest

/-- What holds of a state in a run, with the events that are still to come. -/
structure Governed (k : Kernel) (events : List Event) : Prop where
  pedigree : k.registry.Pedigree
  orderly : ∀ i slot, k.registry.slot? i = some slot → slot.Orderly i
  /-- The generations last. -/
  room : ∀ i slot, k.registry.slot? i = some slot →
    slot.generation + tally (·.bears i) k events < maxGeneration
  legitimate : k.AllLegitimate events

theorem generation_step {slot : Slot} (hslot : k.registry.slot? i = some slot)
    (hroom : slot.generation < maxGeneration) (event : Event) :
    ∃ slot', (k.step event).registry.slot? i = some slot' ∧
      slot'.generation = slot.generation + (k.bears i event).toNat := by
  obtain ⟨slot', hslot', hfate⟩ := (k.fates_step event).slot i slot hslot
  refine ⟨slot', hslot', ?_⟩
  obtain ⟨generation, occupant⟩ := slot
  obtain ⟨generation', occupant'⟩ := slot'
  rw [bears, Registry.env?_of_slot? hslot, Registry.env?_of_slot? hslot']
  cases hfate with
  | vacant | ended | kept => rfl
  | born => exact if_neg (Nat.not_le_of_lt hroom)

namespace Governed

theorem alive {env : Env} (h : k.Governed events) (henv : k.registry.env? i = some env) :
    env.status ≠ .dying := by
  obtain ⟨generation, hslot⟩ := Registry.slot?_of_env? henv
  exact ((h.orderly i _ hslot).calm env rfl).ne_dying

theorem lookup_id {env : Env} (h : k.Governed events) (henv : k.registry.env? i = some env) :
    k.registry.lookup env.id = some i ∧ env.id.isSelf = false := by
  obtain ⟨generation, hslot⟩ := Registry.slot?_of_env? henv
  have hlabelled := h.pedigree.labelled i _ hslot
  have hlt : i < maxEnvs :=
    Nat.lt_of_lt_of_le (Registry.lt_capacity_of_env? henv) h.pedigree.capacity_le
  rw [hlabelled.id_eq env rfl]
  refine ⟨?_, Registry.isSelf_ofParts (hlabelled.generation_pos env rfl) hlabelled.generation_le⟩
  rw [Registry.lookup, EnvId.index_ofParts hlt, henv]
  exact if_pos (hlabelled.id_eq env rfl)

theorem generation_lt {slot : Slot} (h : k.Governed events)
    (hslot : k.registry.slot? i = some slot) : slot.generation < maxGeneration :=
  Nat.lt_of_le_of_lt (Nat.le_add_right _ _) (h.room i slot hslot)

theorem begets_or (h : k.Governed (event :: rest)) :
    k.registry.Remains (k.step event).registry ∨
    ∃ parent child generation env, k.registry.Begets parent child (k.step event).registry ∧
      Registry.Begets.Newborn parent child k.registry (k.step event).registry generation env ∧
      ∀ p, parent = some p → ∃ i, k.registry.lookup p = some i := by
  have hnewborn : ∀ {parent child}, k.registry.Begets parent child (k.step event).registry →
      (∀ p, parent = some p → ∃ i, k.registry.lookup p = some i) →
      ∃ parent child generation env, k.registry.Begets parent child (k.step event).registry ∧
        Registry.Begets.Newborn parent child k.registry (k.step event).registry generation env ∧
        ∀ p, parent = some p → ∃ i, k.registry.lookup p = some i := by
    intro parent child hbegets hparent
    obtain ⟨generation, env, hborn⟩ := hbegets.newborn h.pedigree fun _ => h.generation_lt
    exact ⟨parent, child, generation, env, hbegets, hborn, hparent⟩
  cases k.lineage_step (fun _ _ => h.alive) event with
  | remains hremains => exact Or.inl hremains
  | @created kind parent child hevent hbegets =>
      refine Or.inr (hnewborn hbegets ?_)
      rintro p rfl
      have hlegitimate := h.legitimate.1
      rw [hevent] at hlegitimate
      exact hlegitimate
  | forked hcalls hsender hcall hbegets =>
      refine Or.inr (hnewborn hbegets ?_)
      rintro p ⟨⟩
      exact ⟨_, (h.lookup_id hsender).1⟩

theorem step (h : k.Governed (event :: rest)) : (k.step event).Governed rest where
  pedigree := by
    rcases h.begets_or with hremains | ⟨parent, child, generation, env, hbegets, hborn, hparent⟩
    · exact hremains.pedigree h.pedigree
    · exact hborn.pedigree hbegets h.pedigree hparent
  orderly _ _ hslot := orderly_slot_step h.orderly event hslot
  room i slot' hslot' := by
    obtain ⟨slot, hslot⟩ := Registry.exists_slot?_of_eq (k.fates_step event).capacity_eq hslot'
    obtain ⟨slot'', hafter, hgeneration⟩ := generation_step hslot (h.generation_lt hslot) event
    rw [hslot'] at hafter
    cases hafter
    have hroom := h.room i slot hslot
    rw [tally, ← Nat.add_assoc] at hroom
    rwa [hgeneration]
  legitimate := h.legitimate.2

theorem after (h : k.Governed (before ++ rest)) : (k.after before).Governed rest := by
  induction before generalizing k with
  | nil => exact h
  | cons event before ih => exact ih h.step

/-! ## One event -/

theorem issued_step (h : k.Governed (event :: rest)) (hissued : k.registry.Issued t) :
    (k.step event).registry.Issued t := by
  rcases h.begets_or with hremains | ⟨parent, child, generation, env, hbegets, hborn, -⟩
  · exact hremains.issued hissued
  · exact hborn.issued hbegets hissued

/-- Nobody gains control over the environment with an identifier that was given to somebody
before. -/
theorem controls_step (h : k.Governed (event :: rest)) (hissued : k.registry.Issued t)
    (hcontrols : (k.step event).registry.Controls a t) : k.registry.Controls a t := by
  rcases h.begets_or with hremains | ⟨parent, child, generation, env, hbegets, hborn, hparent⟩
  · exact hremains.controls hcontrols
  · rcases (hborn.controls_iff hbegets h.pedigree hparent).mp hcontrols with hold | ⟨rfl, -⟩
    · exact hold
    · exact absurd hissued hborn.not_issued

theorem controls_of_ended {id : EnvId} (h : k.Governed (event :: rest))
    (hlive : ∃ i, k.registry.lookup id = some i)
    (hended : (k.step event).registry.lookup id = none)
    (hcontrols : (k.step event).registry.Controls a t) : k.registry.Controls a t := by
  rcases h.begets_or with hremains | ⟨parent, child, generation, env, hbegets, hborn, -⟩
  · exact hremains.controls hcontrols
  · obtain ⟨i, hlookup⟩ := hlive
    have hne : id ≠ env.id := by
      rintro rfl
      exact hborn.not_issued (h.pedigree.issued_of_lookup hlookup)
    rw [hborn.lookup_of_ne hbegets hne, hlookup] at hended
    cases hended

/-- A fork that succeeds brings up one environment, which is controlled by itself and by whoever
controls its parent. -/
theorem controls_of_fork {caller : Nat} {number : Word} {args : Args} {sender : Env} {w : Int64}
    (h : k.Governed (event :: rest)) (hcalls : k.Calls caller number args event)
    (hsender : k.registry.env? caller = some sender)
    (hcall : Syscall.ofNumber? number.toNat = some .exofork) (hanswer : k.answer event = some w)
    (hw : 0 ≤ w) : ∃ child : EnvId, child.toWord.toInt64 = w ∧ k.registry.lookup child = none ∧
      ∀ a t, (k.step event).registry.Controls a t ↔
        k.registry.Controls a t ∨ t = child ∧ (a = child ∨ k.registry.Controls a sender.id) := by
  obtain ⟨child, generation, hbegets, hslot, hword⟩ :=
    begets_of_answer hcalls hsender (h.alive hsender) hcall hanswer hw
  obtain ⟨generation', env, hborn⟩ := hbegets.newborn h.pedigree fun _ => h.generation_lt
  rw [hborn.slot_eq] at hslot
  cases hslot
  refine ⟨_, hword, ?_, ?_⟩
  · rw [Option.eq_none_iff_forall_not_mem]
    intro i hlookup
    exact hborn.not_issued (h.pedigree.issued_of_lookup hlookup)
  · intro a t
    refine (hborn.controls_iff hbegets h.pedigree ?_).trans ?_
    · rintro p ⟨⟩
      exact ⟨_, (h.lookup_id hsender).1⟩
    · simp only [Option.some.injEq, exists_eq_left']
      exact Iff.rfl

/-! ## Many events -/

theorem controls_of_after (h : k.Governed (during ++ rest)) (hissued : k.registry.Issued t)
    (hcontrols : (k.after during).registry.Controls a t) : k.registry.Controls a t := by
  induction during generalizing k with
  | nil => exact hcontrols
  | cons event during ih => exact h.controls_step hissued (ih h.step (h.issued_step hissued) hcontrols)

end Governed

theorem governed_boot {config : Config} {machine : Machine} {scheduler : Scheduler}
    (hboot : boot config machine scheduler = .ok k₀)
    (hroom : ∀ i, tally (·.bears i) k₀ events < maxGeneration)
    (hlegitimate : k₀.AllLegitimate events) : k₀.Governed events where
  pedigree := by
    refine ⟨capacity_boot hboot, ?_, ?_⟩
    · intro i slot hslot
      rw [slot?_boot hboot hslot]
      exact .vacant i (Nat.zero_le _)
    · intro i env parent henv
      obtain ⟨generation, hslot⟩ := Registry.slot?_of_env? henv
      cases slot?_boot hboot hslot
  orderly i slot hslot := by
    rw [slot?_boot hboot hslot]
    exact .vacant _ _
  room i slot hslot := by
    rw [slot?_boot hboot hslot, Nat.zero_add]
    exact hroom i
  legitimate := hlegitimate

/-- Control along a run. -/
structure ControlNeverGrows (k₀ : Kernel) (events : List Event) : Prop where
  /-- Control is what identifiers are accepted by. -/
  accepted_iff : ∀ before rest, events = before ++ rest → ∀ requester env t index,
    (k₀.after before).registry.env? requester = some env →
    (k₀.after before).registry.lookup t = some index →
    ((k₀.after before).registry.resolve t requester true = .ok index ↔
      (k₀.after before).registry.Controls env.id t)
  /-- Over an environment that was there before some events nobody has gained control after them,
  whatever became of its parents and their slots. -/
  inherited : ∀ before during rest, events = before ++ during ++ rest → ∀ a t,
    (∃ i, (k₀.after before).registry.lookup t = some i) →
    (k₀.after (before ++ during)).registry.Controls a t →
    (k₀.after before).registry.Controls a t
  /-- An environment whose parent is gone is controlled by nobody but itself from then on. -/
  orphaned : ∀ before during rest, events = before ++ during ++ rest → ∀ a t parent,
    (k₀.after before).registry.parentOf t = some parent →
    (k₀.after before).registry.lookup parent = none →
    (k₀.after (before ++ during)).registry.Controls a t → a = t
  /-- When somebody ends, control over nobody is gained. -/
  ended : ∀ before event rest, events = before ++ event :: rest → ∀ id,
    (∃ i, (k₀.after before).registry.lookup id = some i) →
    ((k₀.after before).step event).registry.lookup id = none →
    ∀ a t, ((k₀.after before).step event).registry.Controls a t →
      (k₀.after before).registry.Controls a t
  /-- A child is controlled by itself, by its parent and by whoever controlled its parent, and
  nothing else changes. -/
  forked : ∀ before event rest, events = before ++ event :: rest →
    ∀ caller number args sender w, (k₀.after before).Calls caller number args event →
    (k₀.after before).registry.env? caller = some sender →
    Syscall.ofNumber? number.toNat = some .exofork →
    (k₀.after before).answer event = some w → 0 ≤ w →
    ∃ child : EnvId, child.toWord.toInt64 = w ∧
      (k₀.after before).registry.lookup child = none ∧
      ∀ a t, ((k₀.after before).step event).registry.Controls a t ↔
        (k₀.after before).registry.Controls a t ∨
          t = child ∧ (a = child ∨ a = sender.id ∨ (k₀.after before).registry.Controls a sender.id)

/-- From a fresh kernel on, as long as parents that are given from outside are there and no slot is
taken as often as there are generations, control never grows. -/
theorem controlNeverGrows_of_boot {config : Config} {machine : Machine} {scheduler : Scheduler}
    (hboot : boot config machine scheduler = .ok k₀) (hlegitimate : k₀.AllLegitimate events)
    (hroom : ∀ i, tally (·.bears i) k₀ events < maxGeneration) : k₀.ControlNeverGrows events where
  accepted_iff before rest hsplit requester env t index henv hlookup := by
    have hstate := (hsplit ▸ governed_boot hboot hroom hlegitimate).after
    obtain ⟨-, target, htarget, rfl⟩ := Registry.index_of_lookup hlookup
    refine Registry.resolve_eq_ok_iff_controls henv (hstate.lookup_id henv).1 hlookup
      (hstate.lookup_id htarget).2 ?_
    exact fun _ => hstate.alive
  inherited before during rest hsplit a t hlive hcontrols := by
    rw [List.append_assoc] at hsplit
    have hstate := (hsplit ▸ governed_boot hboot hroom hlegitimate).after
    obtain ⟨i, hlookup⟩ := hlive
    rw [after_append] at hcontrols
    exact hstate.controls_of_after (hstate.pedigree.issued_of_lookup hlookup) hcontrols
  orphaned before during rest hsplit a t parent hparent hgone hcontrols := by
    rw [List.append_assoc] at hsplit
    have hstate := (hsplit ▸ governed_boot hboot hroom hlegitimate).after
    obtain ⟨i, -, hlookup, -⟩ := Registry.parentOf_eq_some_iff.mp hparent
    rw [after_append] at hcontrols
    cases hstate.controls_of_after (hstate.pedigree.issued_of_lookup hlookup) hcontrols with
    | self => rfl
    | child hsome habove =>
        rw [hparent] at hsome
        cases hsome
        obtain ⟨i, hlive⟩ := habove.live_right
        rw [hgone] at hlive
        cases hlive
  ended before event rest hsplit id hlive hended a t hcontrols := by
    have hstate := (hsplit ▸ governed_boot hboot hroom hlegitimate).after
    exact hstate.controls_of_ended hlive hended hcontrols
  forked before event rest hsplit caller number args sender w hcalls hsender hcall hanswer hw := by
    have hstate := (hsplit ▸ governed_boot hboot hroom hlegitimate).after
    obtain ⟨child, hword, hnone, hiff⟩ := hstate.controls_of_fork hcalls hsender hcall hanswer hw
    refine ⟨child, hword, hnone, fun a t => (hiff a t).trans ?_⟩
    have hself : a = sender.id → (k₀.after before).registry.Controls a sender.id := by
      rintro rfl
      exact .self ⟨_, (hstate.lookup_id hsender).1⟩
    have hmaster : a = sender.id ∨ (k₀.after before).registry.Controls a sender.id ↔
        (k₀.after before).registry.Controls a sender.id := or_iff_right_of_imp hself
    rw [hmaster]

def orphanEvents : List Event :=
  [.createEnv .user none, .run ⟨1024⟩, .syscall 9 .zero, .syscall 10 ⟨1025, 2, 0, 0, 0, 0⟩,
    .run ⟨1025⟩, .syscall 9 .zero, .createEnv .user (some ⟨1024⟩), .run ⟨1024⟩,
    .syscall 3 ⟨1025, 0, 0, 0, 0, 0⟩, .syscall 9 .zero]

/-- The orphan has its parent's identifier and somebody else is in the slot of its parent, but
nobody controls the orphan. -/
theorem controlNeverGrows_of_boot_orphan :
    boot ⟨4, false, false, none⟩ smallMachine .roundRobin = .ok smallKernel ∧
    smallKernel.AllLegitimate orphanEvents ∧
    (∀ i, tally (·.bears i) smallKernel orphanEvents < maxGeneration) ∧
    (smallKernel.after orphanEvents).registry.parentOf ⟨1026⟩ = some ⟨1025⟩ ∧
    (smallKernel.after orphanEvents).registry.lookup ⟨1025⟩ = none ∧
    (smallKernel.after orphanEvents).registry.lookup ⟨2049⟩ = some 1 ∧
    ∀ a, (smallKernel.after orphanEvents).registry.Controls a ⟨1026⟩ → a = ⟨1026⟩ := by
  have hlegitimate : smallKernel.AllLegitimate orphanEvents := by
    refine ⟨trivial, trivial, trivial, trivial, trivial, trivial, ⟨0, ?_⟩, trivial, trivial, trivial,
      trivial⟩
    decide +kernel
  have hroom : ∀ i, tally (·.bears i) smallKernel orphanEvents < maxGeneration := fun i =>
    Nat.lt_of_le_of_lt (tally_le_length _ _ _) (by decide)
  have hparent : (smallKernel.after orphanEvents).registry.parentOf ⟨1026⟩ = some ⟨1025⟩ := by
    decide +kernel
  have hgone : (smallKernel.after orphanEvents).registry.lookup ⟨1025⟩ = none := by decide +kernel
  refine ⟨boot_smallKernel, hlegitimate, hroom, hparent, hgone, by decide +kernel, fun a h => ?_⟩
  refine (controlNeverGrows_of_boot boot_smallKernel hlegitimate hroom).orphaned orphanEvents [] []
    (by simp) a _ _ hparent hgone ?_
  rwa [List.append_nil]

end Exokernel.Kernel
