import Exokernel.Proofs.Env.Slots

/-! # Generations

Which identifiers a slot hands out, one occupant after the other, and for how long the identifier of
a former occupant names nobody. -/

namespace Exokernel

namespace Registry

/-! ## The order of the generations -/

/-- The generation that a slot has when so many more environments were put into it. -/
def later (generation count : Nat) : Nat := (generation - 1 + count) % maxGeneration + 1

theorem later_zero {generation : Nat} (hpos : 1 ≤ generation) (hle : generation ≤ maxGeneration) :
    later generation 0 = generation := by
  simp only [later, maxGeneration] at *
  omega

theorem nextGeneration_later (generation count : Nat) :
    nextGeneration (later generation count) = later generation (count + 1) := by
  rw [nextGeneration]
  split <;> simp only [later, maxGeneration] at * <;> omega

/-- The generations come round after as many environments as there are generations, and no
sooner. -/
theorem later_eq_self_iff {generation count : Nat} (hpos : 1 ≤ generation)
    (hle : generation ≤ maxGeneration) :
    later generation count = generation ↔ maxGeneration ∣ count := by
  simp only [later, maxGeneration] at *
  omega

/-! ## Changes of a registry -/

/-- A change of a registry. -/
inductive Change where
  | allocate (parent : Option EnvId) (kind : EnvKind) (status : EnvStatus)
  | take (index : Nat)
  | setStatus (index : Nat) (status : EnvStatus)

/-- The registry after a change; a refused one leaves it as it is. -/
def change (r : Registry) : Change → Registry
  | .allocate parent kind status =>
    match r.allocate parent kind status with
    | .ok (_, r') => r'
    | .error _ => r
  | .take index =>
    match r.take? index with
    | some (_, r') => r'
    | none => r
  | .setStatus index status => r.modify index fun env => { env with status }

def following (r : Registry) (changes : List Change) : Registry := changes.foldl change r

def fills (r : Registry) (index : Nat) : Change → Bool
  | .allocate .. => r.freeSlot? == some index
  | _ => false

/-- How many environments some changes put into a slot. -/
def fillings (r : Registry) (index : Nat) : List Change → Nat
  | [] => 0
  | c :: rest => (r.fills index c).toNat + (r.change c).fillings index rest

variable {r r' : Registry} {index i : Nat}

theorem following_append (r : Registry) (before rest : List Change) :
    r.following (before ++ rest) = (r.following before).following rest :=
  List.foldl_append

theorem fillings_append (r : Registry) (index : Nat) (before rest : List Change) :
    r.fillings index (before ++ rest) =
      r.fillings index before + (r.following before).fillings index rest := by
  induction before generalizing r with
  | nil => exact (Nat.zero_add _).symm
  | cons c before ih =>
      have hrest := ih (r.change c)
      simp only [List.cons_append, fillings, hrest, Nat.add_assoc]
      rfl

theorem freeSlot?_of_allocate {parent : Option EnvId} {kind : EnvKind} {status : EnvStatus}
    (h : r.allocate parent kind status = .ok (index, r')) : r.freeSlot? = some index := by
  rw [allocate] at h
  split at h
  · cases h
  · next hfree =>
    cases h
    exact hfree

theorem allocate_of_freeSlot? (h : r.freeSlot? = some index) (parent : Option EnvId)
    (kind : EnvKind) (status : EnvStatus) :
    ∃ r', r.allocate parent kind status = .ok (index, r') := by
  rw [allocate, h]
  exact ⟨_, rfl⟩

/-- What a change does to one slot, and whether it put an environment into it. -/
inductive Moves (index : Nat) (s : Slot) : Bool → Slot → Prop where
  | filled (parent kind status) (hvacant : s.env = none) :
      Moves index s true (occupy parent kind status index s)
  | emptied : Moves index s false { s with env := none }
  | kept (f : Env → Env) (hid : ∀ env, (f env).id = env.id) :
      Moves index s false { s with env := s.env.map f }

theorem Moves.refl (index : Nat) (s : Slot) : Moves index s false s := by
  have h : Moves index s false { s with env := s.env.map id } := .kept id fun _ => rfl
  rwa [Option.map_id] at h

theorem moves_change {s : Slot} (hslot : r.slot? i = some s) (c : Change) :
    ∃ s', (r.change c).slot? i = some s' ∧ Moves i s (r.fills i c) s' := by
  cases c with
  | allocate parent kind status =>
      cases halloc : r.allocate parent kind status with
      | error e =>
          have hfull : r.freeSlot? = none := by
            cases hfree : r.freeSlot? with
            | none => rfl
            | some index =>
                obtain ⟨r', hok⟩ := allocate_of_freeSlot? hfree parent kind status
                rw [halloc] at hok
                cases hok
          simp only [change, fills, halloc, hfull]
          exact ⟨s, hslot, .refl i s⟩
      | ok result =>
          obtain ⟨index, r'⟩ := result
          obtain ⟨generation, hvacant, hslots⟩ := slot?_of_allocate halloc
          simp only [change, fills, halloc, freeSlot?_of_allocate halloc, hslots]
          by_cases heq : index = i
          · subst heq
            rw [hvacant] at hslot
            cases hslot
            rw [if_pos rfl, beq_self_eq_true]
            exact ⟨_, rfl, .filled parent kind status rfl⟩
          · rw [if_neg heq, beq_false_of_ne fun h => heq (Option.some.inj h)]
            exact ⟨s, hslot, .refl i s⟩
  | take index =>
      cases htake : r.take? index with
      | none =>
          simp only [change, htake]
          exact ⟨s, hslot, .refl i s⟩
      | some result =>
          obtain ⟨env, r'⟩ := result
          simp only [change, htake, slot?_of_take? htake, hslot]
          split
          · exact ⟨_, rfl, .emptied⟩
          · exact ⟨s, rfl, .refl i s⟩
  | setStatus index status =>
      simp only [change, slot?_modify, hslot]
      split
      · exact ⟨_, rfl, .kept (fun env => { env with status }) fun _ => rfl⟩
      · exact ⟨s, rfl, .refl i s⟩

theorem capacity_change (r : Registry) (c : Change) : (r.change c).capacity = r.capacity := by
  cases c with
  | allocate parent kind status =>
      cases halloc : r.allocate parent kind status with
      | error e => simp only [change, halloc]
      | ok result =>
          simp only [change, halloc]
          exact (allocate_eq_ok halloc).2.1
  | take index =>
      cases htake : r.take? index with
      | none => simp only [change, htake]
      | some result =>
          simp only [change, htake]
          exact (take?_eq_some htake).2.1
  | setStatus index status => exact capacity_modify r index _

/-- What one change keeps of a slot, with the number of environments that were put into it, any
changes keep. -/
theorem slot_following {I : Nat → Slot → Prop}
    (hmoves : ∀ {n s filled s'}, I n s → Moves i s filled s' → I (n + filled.toNat) s')
    (changes : List Change) {n : Nat} {s : Slot} (hslot : r.slot? i = some s) (hs : I n s) :
    ∃ s', (r.following changes).slot? i = some s' ∧ I (n + r.fillings i changes) s' := by
  induction changes generalizing r n s with
  | nil => exact ⟨s, hslot, hs⟩
  | cons c rest ih =>
      obtain ⟨s', hslot', hmoved⟩ := moves_change hslot c
      obtain ⟨s'', hslot'', hs''⟩ := ih hslot' (hmoves hs hmoved)
      refine ⟨s'', hslot'', ?_⟩
      rwa [fillings, ← Nat.add_assoc]

theorem capacity_following (r : Registry) (changes : List Change) :
    (r.following changes).capacity = r.capacity := by
  induction changes generalizing r with
  | nil => rfl
  | cons c rest ih => exact (ih (r.change c)).trans (capacity_change r c)

theorem slot?_of_lt (h : i < r.capacity) : ∃ s, r.slot? i = some s :=
  ⟨_, Array.getElem?_eq_getElem h⟩

/-! ## The identifiers of a slot -/

/-- The identifier of an occupant is made up of the slot and its generation. -/
structure Labelled (index : Nat) (s : Slot) : Prop where
  id_eq : ∀ env, s.env = some env → env.id = .ofParts index s.generation
  generation_pos : ∀ env, s.env = some env → 1 ≤ s.generation
  generation_le : s.generation ≤ maxGeneration

theorem Labelled.vacant {generation : Nat} (index : Nat) (hle : generation ≤ maxGeneration) :
    Labelled index ⟨generation, none⟩ := by
  refine ⟨?_, ?_, hle⟩
  · rintro env ⟨⟩
  · rintro env ⟨⟩

theorem Labelled.moves {s s' : Slot} {filled : Bool} (h : Labelled index s)
    (hmoves : Moves index s filled s') : Labelled index s' := by
  cases hmoves with
  | filled parent kind status hvacant =>
      obtain ⟨hpos, hle⟩ := nextGeneration_bounds s.generation
      refine ⟨?_, fun _ _ => hpos, hle⟩
      intro env henv
      cases henv
      rfl
  | emptied => exact .vacant index h.generation_le
  | kept f hid =>
      refine ⟨?_, ?_, h.generation_le⟩
      · intro env henv
        obtain ⟨old, hold, rfl⟩ := Option.map_eq_some_iff.mp henv
        rw [hid, h.id_eq old hold]
      · intro env henv
        obtain ⟨old, hold, -⟩ := Option.map_eq_some_iff.mp henv
        exact h.generation_pos old hold

theorem labelled_following {capacity : Nat} (changes : List Change) {s : Slot}
    (hslot : ((ofCapacity capacity).following changes).slot? i = some s) : Labelled i s := by
  have hlt : i < (ofCapacity capacity).capacity := by
    rw [← capacity_following _ changes]
    exact (Array.getElem?_eq_some_iff.mp hslot).1
  have hstart : (ofCapacity capacity).slot? i = some ⟨0, none⟩ := by
    obtain ⟨s, hs⟩ := slot?_of_lt hlt
    rw [hs, slot?_ofCapacity hs]
  obtain ⟨s', hslot', hlabelled⟩ := slot_following (I := fun _ s => Labelled i s) Labelled.moves
    changes (n := 0) hstart (.vacant i (Nat.zero_le _))
  rw [hslot] at hslot'
  cases hslot'
  exact hlabelled

/-- The generation of a slot tells how many environments were put into it. -/
theorem generation_following {s : Slot} (hslot : r.slot? i = some s) (hlabelled : Labelled i s)
    (hpos : 1 ≤ s.generation) (changes : List Change) :
    ∃ s', (r.following changes).slot? i = some s' ∧ Labelled i s' ∧
      s'.generation = later s.generation (r.fillings i changes) := by
  have hstart : s.generation = later s.generation 0 :=
    (later_zero hpos hlabelled.generation_le).symm
  let I (n : Nat) (now : Slot) : Prop :=
    Labelled i now ∧ now.generation = later s.generation n
  have hstep : ∀ {n before filled after}, I n before → Moves i before filled after →
      I (n + filled.toNat) after := by
    rintro n before filled after ⟨hbefore, heq⟩ hmoved
    refine ⟨hbefore.moves hmoved, ?_⟩
    cases hmoved with
    | filled => exact (congrArg nextGeneration heq).trans (nextGeneration_later _ n)
    | emptied => exact heq
    | kept => exact heq
  obtain ⟨s', hslot', hlabelled', hgeneration⟩ :=
    slot_following (I := I) hstep changes hslot ⟨hlabelled, hstart⟩
  rw [Nat.zero_add] at hgeneration
  exact ⟨s', hslot', hlabelled', hgeneration⟩

theorem vacant_following {s : Slot} (hslot : r.slot? i = some s) (hvacant : s.env = none)
    (changes : List Change) (hnone : r.fillings i changes = 0) :
    (r.following changes).env? i = none := by
  let I (n : Nat) (now : Slot) : Prop := n = 0 → now.env = none
  have hstep : ∀ {n before filled after}, I n before → Moves i before filled after →
      I (n + filled.toNat) after := by
    intro n before filled after hbefore hmoved hzero
    cases hmoved with
    | filled => cases hzero
    | emptied => rfl
    | kept f => exact congrArg (Option.map f) (hbefore hzero)
  obtain ⟨⟨generation, occupant⟩, hslot', hstill⟩ :=
    slot_following (I := I) hstep changes hslot (n := 0) fun _ => hvacant
  rw [env?_of_slot? hslot']
  exact hstill ((Nat.zero_add _).trans hnone)

/-! ## Full registries -/

theorem slot_env_eq (h : i < r.slots.size) : r.slots[i].env = r.env? i := by
  rw [env?, Array.getElem?_eq_getElem h, Option.bind_some]

theorem freeSlot?_eq_some_iff : r.freeSlot? = some index ↔
    index < r.capacity ∧ r.env? index = none ∧ ∀ i < index, ∃ env, r.env? i = some env := by
  rw [freeSlot?, Array.findIdx?_eq_some_iff_getElem]
  constructor
  · rintro ⟨hlt, hvacant, hbelow⟩
    refine ⟨hlt, ?_, ?_⟩
    · rwa [Option.isNone_iff_eq_none, slot_env_eq] at hvacant
    · intro i hi
      have hsome := hbelow i hi
      rw [slot_env_eq] at hsome
      exact Option.ne_none_iff_exists'.mp fun h => hsome (Option.isNone_iff_eq_none.mpr h)
  · rintro ⟨hlt, hvacant, hbelow⟩
    have hsize : index < r.slots.size := hlt
    refine ⟨hsize, ?_, ?_⟩
    · rwa [Option.isNone_iff_eq_none, slot_env_eq]
    · intro i hi
      obtain ⟨env, henv⟩ := hbelow i hi
      rw [slot_env_eq, henv]
      exact Bool.false_ne_true

theorem freeSlot?_eq_none_iff :
    r.freeSlot? = none ↔ ∀ i < r.capacity, ∃ env, r.env? i = some env := by
  rw [freeSlot?, Array.findIdx?_eq_none_iff]
  constructor
  · intro hnone i hlt
    have hsize : i < r.slots.size := hlt
    have hsome := hnone r.slots[i] (Array.getElem_mem hsize)
    rw [slot_env_eq] at hsome
    exact Option.isSome_iff_exists.mp (Option.isNone_eq_false_iff.mp hsome)
  · intro hfull slot hmem
    obtain ⟨i, hlt, rfl⟩ := Array.mem_iff_getElem.mp hmem
    obtain ⟨env, henv⟩ := hfull i hlt
    rw [slot_env_eq, henv]
    rfl

/-- The first vacant slot is taken, and all slots up to it are occupied then. -/
theorem occupied_of_allocate {parent : Option EnvId} {kind : EnvKind} {status : EnvStatus}
    (h : r.allocate parent kind status = .ok (index, r')) (hi : i ≤ index) :
    ∃ env, r'.env? i = some env := by
  obtain ⟨-, -, -, ⟨generation, hfresh⟩, hother⟩ := allocate_eq_ok h
  by_cases heq : i = index
  · rw [heq]
    exact ⟨_, hfresh⟩
  · rw [hother i heq]
    exact (freeSlot?_eq_some_iff.mp (freeSlot?_of_allocate h)).2.2 i (Nat.lt_of_le_of_ne hi heq)

theorem change_of_allocate {parent : Option EnvId} {kind : EnvKind} {status : EnvStatus}
    (h : r.allocate parent kind status = .ok (index, r')) :
    r.change (.allocate parent kind status) = r' := by
  rw [change, h]

theorem fills_of_allocate {parent : Option EnvId} {kind : EnvKind} {status : EnvStatus}
    (h : r.allocate parent kind status = .ok (index, r')) :
    r.fills i (.allocate parent kind status) = (index == i) := by
  rw [fills, freeSlot?_of_allocate h]
  rfl

/-- A registry can be filled up around an occupied slot.  The induction is on the number of slots
above those that are known to be occupied. -/
theorem exists_full (vacancies : Nat) (hoccupied : r.env? index = some env)
    (hbelow : ∀ i, i + vacancies < r.capacity → ∃ env, r.env? i = some env) :
    ∃ changes, r.fillings index changes = 0 ∧ (r.following changes).freeSlot? = none := by
  induction vacancies generalizing r with
  | zero => exact ⟨[], rfl, freeSlot?_eq_none_iff.mpr hbelow⟩
  | succ vacancies ih =>
      cases hfree : r.freeSlot? with
      | none => exact ⟨[], rfl, hfree⟩
      | some free =>
          obtain ⟨r', halloc⟩ := allocate_of_freeSlot? hfree none .user .runnable
          obtain ⟨hvacant, hcapacity, -, -, hother⟩ := allocate_eq_ok halloc
          have hne : free ≠ index := by
            rintro rfl
            rw [hvacant] at hoccupied
            cases hoccupied
          have hbelow' : ∀ i, i + vacancies < r'.capacity → ∃ env, r'.env? i = some env := by
            intro i hi
            refine occupied_of_allocate halloc ?_
            by_contra habove
            obtain ⟨env, henv⟩ := hbelow free (by omega)
            rw [hvacant] at henv
            cases henv
          have hoccupied' : r'.env? index = some env := by rwa [hother index hne.symm]
          obtain ⟨changes, hnone, hfull⟩ := ih hoccupied' hbelow'
          have hchange := change_of_allocate halloc
          refine ⟨.allocate none .user .runnable :: changes, ?_, ?_⟩
          · rw [fillings, hchange, hnone, fills_of_allocate halloc, beq_false_of_ne hne]
            rfl
          · rwa [following, List.foldl_cons, hchange]

theorem freeSlot?_of_take? (hfull : r.freeSlot? = none) (h : r.take? index = some (env, r')) :
    r'.freeSlot? = some index := by
  obtain ⟨henv, hcapacity, hvacant, hother, -⟩ := take?_eq_some h
  have hoccupied := freeSlot?_eq_none_iff.mp hfull
  refine freeSlot?_eq_some_iff.mpr ⟨hcapacity ▸ lt_capacity_of_env? henv, hvacant, ?_⟩
  intro i hi
  rw [hother i (Nat.ne_of_lt hi)]
  exact hoccupied i (Nat.lt_trans hi (lt_capacity_of_env? henv))

theorem exists_take? (hfull : r.freeSlot? = none) (hlt : index < r.capacity) :
    ∃ env r', r.take? index = some (env, r') := by
  obtain ⟨env, henv⟩ := freeSlot?_eq_none_iff.mp hfull index hlt
  rw [take?, henv]
  exact ⟨_, _, rfl⟩

theorem change_of_take? (h : r.take? index = some (env, r')) : r.change (.take index) = r' := by
  rw [change, h]

theorem freeSlot?_of_refilled {refilled : Registry} {parent : Option EnvId} {kind : EnvKind}
    {status : EnvStatus} (hfull : r.freeSlot? = none) (htake : r.take? index = some (env, r'))
    (halloc : r'.allocate parent kind status = .ok (index, refilled)) :
    refilled.freeSlot? = none := by
  obtain ⟨-, hcapacity, -, hother, -⟩ := take?_eq_some htake
  obtain ⟨-, hcapacity', -, ⟨generation, hfresh⟩, hother'⟩ := allocate_eq_ok halloc
  refine freeSlot?_eq_none_iff.mpr ?_
  intro i hi
  by_cases heq : i = index
  · exact ⟨_, heq ▸ hfresh⟩
  · rw [hother' i heq, hother i heq]
    exact freeSlot?_eq_none_iff.mp hfull i (by omega)

/-- The occupant of one slot of a full registry can be replaced as often as one likes. -/
theorem exists_replacements (hfull : r.freeSlot? = none) (hlt : index < r.capacity) (count : Nat) :
    ∃ changes, r.fillings index changes = count ∧ (r.following changes).freeSlot? = none := by
  induction count generalizing r with
  | zero => exact ⟨[], rfl, hfull⟩
  | succ count ih =>
      obtain ⟨env, emptied, htake⟩ := exists_take? hfull hlt
      obtain ⟨refilled, halloc⟩ := allocate_of_freeSlot? (freeSlot?_of_take? hfull htake)
        none .user .runnable
      have hcapacity : refilled.capacity = r.capacity :=
        (allocate_eq_ok halloc).2.1.trans (take?_eq_some htake).2.1
      obtain ⟨changes, hcount, hfull'⟩ :=
        ih (freeSlot?_of_refilled hfull htake halloc) (hcapacity ▸ hlt)
      refine ⟨.take index :: .allocate none .user .runnable :: changes, ?_, ?_⟩
      · have htaken : r.fills index (.take index) = false := rfl
        simp only [fillings, change_of_take? htake, change_of_allocate halloc, htaken,
          fills_of_allocate halloc, hcount, beq_self_eq_true, Bool.toNat_false, Bool.toNat_true]
        omega
      · simpa only [following, List.foldl_cons, change_of_take? htake, change_of_allocate halloc]
          using hfull'

/-! ## Stale identifiers -/

theorem resolve_of_lookup_eq_none {id : EnvId} (hself : id.isSelf = false)
    (h : r.lookup id = none) (requester : Nat) (check : Bool) :
    r.resolve id requester check = .error .badEnvironment := by
  rw [resolve, hself, if_neg Bool.false_ne_true, h]

theorem isSelf_ofParts {index generation : Nat} (hpos : 1 ≤ generation)
    (hle : generation ≤ maxGeneration) : (EnvId.ofParts index generation).isSelf = false := by
  have hgeneration := EnvId.generation_ofParts index hle
  rw [EnvId.isSelf, beq_eq_false_iff_ne]
  intro hzero
  rw [EnvId.generation, hzero] at hgeneration
  simp at hgeneration
  omega

/-- The identifier that was given to the environment in a slot names nobody from the moment when the
environment is taken out until the slot was filled as often as there are generations, and no
longer. -/
structure StaleForOneCycle (r : Registry) (index : Nat) (x : EnvId) : Prop where
  lookup_eq_none : ∀ before env r' rest,
    (r.following before).take? index = some (env, r') → env.id = x →
    r.fillings index before + r'.fillings index rest < maxGeneration →
    (r'.following rest).lookup x = none
  resolve_eq_error : ∀ before env r' rest requester check,
    (r.following before).take? index = some (env, r') → env.id = x →
    r.fillings index before + r'.fillings index rest < maxGeneration →
    (r'.following rest).resolve x requester check = .error .badEnvironment
  reissued : ∀ changes parent kind status r', r.fillings index changes = maxGeneration - 1 →
    (r.following changes).allocate parent kind status = .ok (index, r') →
    ∃ env, r'.env? index = some env ∧ env.id = x
  reached : ∃ changes r', r.fillings index changes = maxGeneration - 1 ∧
    (r.following changes).allocate none .user .runnable = .ok (index, r')

/-- A vacated slot does not hand out the identifier of its last occupant within a cycle. -/
theorem lookup_following_of_vacant {generation : Nat} (hindex : index < maxEnvs)
    (hslot : r.slot? index = some ⟨generation, none⟩) (hpos : 1 ≤ generation)
    (hle : generation ≤ maxGeneration) (rest : List Change)
    (hlt : r.fillings index rest < maxGeneration) :
    (r.following rest).lookup (.ofParts index generation) = none := by
  obtain ⟨s', hslot', hlabelled, hgeneration⟩ :=
    generation_following hslot (.vacant index hle) hpos rest
  rw [lookup, EnvId.index_ofParts hindex]
  cases henv : (r.following rest).env? index with
  | none => rfl
  | some env =>
      refine if_neg ?_
      intro hid
      rw [env?_of_slot? hslot'] at henv
      have hsame : s'.generation = generation := by
        rw [← EnvId.generation_ofParts index hlabelled.generation_le, ← hlabelled.id_eq env henv,
          hid, EnvId.generation_ofParts index hle]
      -- The slot has the same generation again, so it was not filled at all.
      have hdvd : maxGeneration ∣ r.fillings index rest :=
        (later_eq_self_iff hpos hle).mp (hgeneration.symm.trans hsame)
      have hnone := vacant_following hslot rfl rest (Nat.eq_zero_of_dvd_of_lt hdvd hlt)
      rw [env?_of_slot? hslot', henv] at hnone
      cases hnone

theorem Labelled.slot?_of_take? {s : Slot} {generation : Nat} (h : Labelled index s)
    (hslot : r.slot? index = some s) (htake : r.take? index = some (env, r'))
    (hid : env.id = .ofParts index generation) (hle : generation ≤ maxGeneration) :
    r'.slot? index = some ⟨generation, none⟩ := by
  have henv : s.env = some env := (env?_of_slot? hslot).symm.trans (take?_eq_some htake).1
  have hgeneration : s.generation = generation := by
    rw [← EnvId.generation_ofParts index h.generation_le, ← h.id_eq env henv, hid,
      EnvId.generation_ofParts index hle]
  rw [Registry.slot?_of_take? htake, if_pos rfl, hslot, ← hgeneration]
  rfl

/-- The last filling of a cycle has the generation of the first one again. -/
theorem Labelled.env?_of_full_cycle {s : Slot} (hlabelled : Labelled index s)
    (hslot : r.slot? index = some s) (hpos : 1 ≤ s.generation) {changes : List Change}
    (hcount : r.fillings index changes = maxGeneration - 1) {parent : Option EnvId} {kind : EnvKind}
    {status : EnvStatus} {r' : Registry}
    (halloc : (r.following changes).allocate parent kind status = .ok (index, r')) :
    ∃ env, r'.env? index = some env ∧ env.id = .ofParts index s.generation := by
  obtain ⟨s', hslot', -, hgeneration⟩ := generation_following hslot hlabelled hpos changes
  obtain ⟨generation, hbefore, hafter⟩ := slot?_of_allocate halloc
  rw [hbefore] at hslot'
  cases hslot'
  have hlast : generation = later s.generation (maxGeneration - 1) := hcount ▸ hgeneration
  have hcycle : maxGeneration - 1 + 1 = maxGeneration := Nat.sub_add_cancel (by decide)
  have hagain : nextGeneration generation = s.generation := by
    rw [hlast, nextGeneration_later, later_eq_self_iff hpos hlabelled.generation_le]
    exact hcycle ▸ Nat.dvd_refl _
  refine ⟨_, env?_of_slot? ((hafter index).trans (if_pos rfl)), ?_⟩
  rw [← hagain]
  rfl

/-- An occupied slot can be filled any number of times and then be the next to be filled. -/
theorem exists_allocate_after (hoccupied : r.env? index = some env) (n : Nat) :
    ∃ changes r', r.fillings index changes = n ∧
      (r.following changes).allocate none .user .runnable = .ok (index, r') := by
  obtain ⟨before, hnone, hfull⟩ := exists_full r.capacity hoccupied fun i hi => absurd hi (by omega)
  have hlt : index < (r.following before).capacity := by
    rw [capacity_following]
    exact lt_capacity_of_env? hoccupied
  obtain ⟨between, hcount, hfull'⟩ := exists_replacements hfull hlt n
  obtain ⟨taken, emptied, htake⟩ := exists_take? hfull' (by rwa [capacity_following])
  obtain ⟨r', halloc⟩ := allocate_of_freeSlot? (freeSlot?_of_take? hfull' htake) none .user .runnable
  refine ⟨before ++ (between ++ [.take index]), r', ?_, ?_⟩
  · have hnone' : ((r.following before).following between).fillings index [.take index] = 0 := rfl
    rw [fillings_append, fillings_append, hnone, hcount, hnone', Nat.zero_add, Nat.add_zero]
  · rw [following_append, following_append]
    have hlast : ((r.following before).following between).following [.take index] = emptied :=
      change_of_take? htake
    rw [hlast]
    exact halloc

theorem Labelled.staleForOneCycle {s : Slot} (hlabelled : Labelled index s)
    (hindex : index < maxEnvs) (hslot : r.slot? index = some s) (henv : s.env = some env) :
    StaleForOneCycle r index env.id := by
  have hid := hlabelled.id_eq env henv
  have hpos := hlabelled.generation_pos env henv
  have hle := hlabelled.generation_le
  have hstale : ∀ before taken r' rest,
      (r.following before).take? index = some (taken, r') → taken.id = env.id →
      r.fillings index before + r'.fillings index rest < maxGeneration →
      (r'.following rest).lookup env.id = none := by
    intro before taken r' rest htake htaken hlt
    obtain ⟨s', hslot', hlabelled', -⟩ := generation_following hslot hlabelled hpos before
    have hvacant := hlabelled'.slot?_of_take? hslot' htake (htaken.trans hid) hle
    rw [hid]
    exact lookup_following_of_vacant hindex hvacant hpos hle rest (by omega)
  refine ⟨hstale, ?_, ?_, exists_allocate_after ((env?_of_slot? hslot).trans henv) _⟩
  · intro before taken r' rest requester check htake htaken hlt
    refine resolve_of_lookup_eq_none ?_ (hstale before taken r' rest htake htaken hlt) _ _
    rw [hid]
    exact isSelf_ofParts hpos hle
  · intro changes parent kind status r' hcount halloc
    rw [hid]
    exact hlabelled.env?_of_full_cycle hslot hpos hcount halloc

/-- Whenever a registry puts an environment into a slot, the identifier that it gives out names
nobody else for one cycle of generations. -/
theorem staleForOneCycle_of_allocate {capacity : Nat} (hcapacity : capacity ≤ maxEnvs)
    (past : List Change) {parent : Option EnvId} {kind : EnvKind} {status : EnvStatus}
    (h : ((ofCapacity capacity).following past).allocate parent kind status = .ok (index, r)) :
    ∃ env, r.env? index = some env ∧ StaleForOneCycle r index env.id := by
  have hr : r = (ofCapacity capacity).following (past ++ [.allocate parent kind status]) := by
    rw [following_append, ← change_of_allocate h]
    rfl
  obtain ⟨-, hcap, -, ⟨generation, hfresh⟩, -⟩ := allocate_eq_ok h
  obtain ⟨generation', hslot⟩ := slot?_of_env? hfresh
  have hindex : index < maxEnvs := by
    refine Nat.lt_of_lt_of_le (lt_capacity_of_env? hfresh) ?_
    rw [hcap, capacity_following]
    simpa [Registry.capacity, ofCapacity] using hcapacity
  exact ⟨_, hfresh, (labelled_following _ (hr ▸ hslot)).staleForOneCycle hindex hslot rfl⟩

def usedRegistry : Registry :=
  (ofCapacity 2).following
    [.allocate none .user .runnable, .allocate none .user .runnable, .take 0]

theorem staleForOneCycle_of_second :
    ∃ r, 2 ≤ maxEnvs ∧ usedRegistry.allocate none .driver .notRunnable = .ok (0, r) ∧
      ∃ env, r.env? 0 = some env ∧ StaleForOneCycle r 0 env.id := by
  have hfree : usedRegistry.freeSlot? = some 0 := by decide +kernel
  obtain ⟨r, h⟩ := allocate_of_freeSlot? hfree none .driver .notRunnable
  exact ⟨r, by decide, h, staleForOneCycle_of_allocate (by decide) _ h⟩

end Registry

end Exokernel
