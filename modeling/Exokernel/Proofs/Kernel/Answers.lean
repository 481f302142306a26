import Exokernel.Proofs.Kernel.Births
import Exokernel.Proofs.Kernel.Histories
import Exokernel.Proofs.Realm.Counts

/-! # What a call is answered with

The result word of a call tells its caller what the call came to: the value, or why it was refused.
A caller that is not answered is gone.  No other environment sees a change of its registers; only a
child is born with those of its parent. -/

namespace Exokernel.Kernel

variable {k : Kernel} {event : Event} {caller i : Nat} {number : Word} {args : Args} {sender : Env}
  {w : Int64}

/-! ## Reachable states -/

/-- What holds in every state that events lead to, whoever is to run next. -/
structure Sane (k : Kernel) : Prop where
  capacity_le : k.registry.capacity ≤ maxEnvs
  orderly : ∀ i slot, k.registry.slot? i = some slot → slot.Orderly i
  covered : Realm.Booked Covered k.realm

theorem sane_boot {config : Config} {machine : Machine} {scheduler : Scheduler}
    (h : boot config machine scheduler = .ok k) : k.Sane where
  capacity_le := capacity_boot h
  orderly i slot hslot := by
    rw [slot?_boot h hslot]
    exact .vacant _ _
  covered := by
    rw [boot] at h
    split at h
    · cases h
    · cases h
      rw [Realm.Booked]
      rw [show (Realm.ofMachine _ _).registry.tables = [] from Registry.tables_ofCapacity _]
      exact ⟨fun pa => Nat.le_of_eq (RefCounts.count_empty pa), by simp⟩

theorem Sane.step (h : k.Sane) (event : Event) : (k.step event).Sane where
  capacity_le := (k.fates_step event).capacity_eq ▸ h.capacity_le
  orderly _ _ hslot := orderly_slot_step h.orderly event hslot
  covered := by
    apply (kept_booked books_covered).step h.covered
    intro caller number args s call t _ _ _ hs heffect
    exact heffect.covered hs

theorem sane_of_runs {config : Config} {machine : Machine} {scheduler : Scheduler} {k₀ : Kernel}
    (hboot : boot config machine scheduler = .ok k₀) (hrun : Runs (fun _ _ => True) k₀ k) : k.Sane :=
  hrun.invariant (sane_boot hboot) fun _ event h _ => h.step event

/-- In every state that events lead to, no count of mappings comes near the end of its 32 bits. -/
theorem count_lt_of_runs {config : Config} {machine : Machine} {scheduler : Scheduler} {k₀ : Kernel}
    (hboot : boot config machine scheduler = .ok k₀) (hrun : Runs (fun _ _ => True) k₀ k)
    (pa : PhysAddr) : k.realm.memory.refs.count pa < 2 ^ 32 := by
  have hk := sane_of_runs hboot hrun
  exact hk.covered.count_lt (k.registry.length_tables_le.trans hk.capacity_le) pa

theorem Sane.ne_dying (h : k.Sane) (hsender : k.registry.env? caller = some sender) :
    sender.status ≠ .dying := by
  obtain ⟨generation, hslot⟩ := Registry.slot?_of_env? hsender
  exact ((h.orderly caller _ hslot).calm sender rfl).ne_dying

theorem Sane.index_eq (h : k.Sane) (hsender : k.registry.env? caller = some sender) :
    sender.id.index = caller := by
  obtain ⟨generation, hslot⟩ := Registry.slot?_of_env? hsender
  rw [(h.orderly caller _ hslot).id_eq sender rfl]
  exact EnvId.index_ofParts
    (Nat.lt_of_lt_of_le (Registry.lt_capacity_of_env? hsender) h.capacity_le) _

/-! ## The work of a call -/

/-- What the work of a call comes to, with the call in the registers of its caller. -/
def handled (k : Kernel) (caller : Nat) (number : Word) (args : Args) : Except SysError Word :=
  (ServiceTable.standard.answer number ⟨caller, k.config⟩ args
    (k.loaded caller number args).realm).result

def calling (sender : Env) (number : Word) (args : Args) : Env :=
  { sender with frame := sender.frame.loadCall number args }

theorem answer_of_calls (hcalls : k.Calls caller number args event)
    (hsender : k.registry.env? caller = some sender) :
    k.answer event = resultWord? (k.handled caller number args) := by
  have htrap := trap_eq (current_loaded hcalls) (env?_loaded_self hsender number args)
  rw [trap_loaded hcalls] at htrap
  exact congrArg Prod.fst htrap

theorem verdict_of_calls (hk : k.Sane) (hsender : k.registry.env? caller = some sender)
    (number : Word) (args : Args) : Service.Verdict caller (calling sender number args)
      (ServiceTable.standard.dispatch number ⟨caller, k.config⟩ args
        (k.loaded caller number args).realm) := by
  have hstatus := hk.ne_dying hsender
  have hstands : Service.Stands caller (calling sender number args)
      (k.loaded caller number args).realm.registry :=
    ⟨_, env?_loaded_self hsender number args, rfl, hstatus, fun _ => rfl⟩
  refine @Service.verdict_dispatch ⟨caller, k.config⟩ args _ _ number hstands fun env _ => ?_
  refine sharingExcess_lt (Books.modifyEnv hk.covered caller fun _ => rfl) ?_ env.table args
  exact Nat.le_trans (Nat.le_of_eq (Registry.capacity_modify _ _ _)) hk.capacity_le

/-- The caller has the result of its call, if there is one, and has ended if it is dying. -/
theorem env?_caller (hcalls : k.Calls caller number args event)
    (hsender : k.registry.env? caller = some sender) {env : Env}
    (hworked : (ServiceTable.standard.answer number ⟨caller, k.config⟩ args
      (k.loaded caller number args).realm).realm.registry.env? caller = some env) :
    (k.step event).registry.env? caller =
      ((some env).filter (·.status != .dying)).map (answered (k.answer event)) := by
  have htrap := trap_eq (current_loaded hcalls) (env?_loaded_self hsender number args)
  rw [trap_loaded hcalls] at htrap
  rw [answer_of_calls hcalls hsender, show k.step event = _ from congrArg Prod.snd htrap]
  obtain ⟨generation, hslot⟩ := Registry.slot?_of_env? hworked
  rw [← (sameButLog_noteCall _ k.config sender.id number args
    (k.handled caller number args)).registry_eq] at hslot
  rw [Registry.env?, slots_serve]
  exact Registry.env?_of_slot? (slot?_settle_self hslot)

/-- What a call comes to for its caller: it is gone without an answer, or it is where it was and has
an answer in its registers. -/
inductive Fared (k : Kernel) (event : Event) (caller : Nat) (sender : Env) :
    Except SysError Word → Prop where
  | gone (hanswer : k.answer event = none) (hgone : (k.step event).registry.env? caller = none) :
      Fared k event caller sender (.error .envExit)
  | refused {e code env} (hcode : e.code? = some code) (hanswer : k.answer event = some code.word)
      (henv : (k.step event).registry.env? caller = some env) (hid : env.id = sender.id)
      (hframe : env.frame = sender.frame.setResult code.word) :
      Fared k event caller sender (.error e)
  | answered {value env} (hvalue : 0 ≤ value.toInt64) (hanswer : k.answer event = some value.toInt64)
      (henv : (k.step event).registry.env? caller = some env) (hid : env.id = sender.id)
      (hframe : env.frame = sender.frame.setResult value.toInt64) :
      Fared k event caller sender (.ok value)

theorem env?_of_stands (hcalls : k.Calls caller number args event)
    (hsender : k.registry.env? caller = some sender) (hanswer : k.answer event = some w)
    (hstands : Service.Stands caller (calling sender number args)
      (ServiceTable.standard.answer number ⟨caller, k.config⟩ args
        (k.loaded caller number args).realm).realm.registry) :
    ∃ env, (k.step event).registry.env? caller = some env ∧ env.id = sender.id ∧
      env.frame = (calling sender number args).frame.setResult w := by
  obtain ⟨env, henv, hid, hstatus, hframe⟩ := hstands
  have hafter := env?_caller hcalls hsender henv
  rw [Option.filter_some, if_pos (bne_iff_ne.mpr hstatus), hanswer] at hafter
  exact ⟨_, hafter, hid, hframe w⟩

theorem fared_of_calls (hk : k.Sane) (hcalls : k.Calls caller number args event)
    (hsender : k.registry.env? caller = some sender) :
    k.Fared event caller (calling sender number args) (k.handled caller number args) := by
  have hverdict := verdict_of_calls hk hsender number args
  have hanswer := answer_of_calls hcalls hsender
  have hafter := @env?_caller k event caller number args sender hcalls hsender
  have hstands := @env?_of_stands k event caller number args sender
  rw [handled, ServiceTable.answer] at hanswer
  rw [ServiceTable.answer] at hafter
  simp only [ServiceTable.answer] at hstands
  rw [handled, ServiceTable.answer]
  generalize ServiceTable.standard.dispatch number ⟨caller, k.config⟩ args
    (k.loaded caller number args).realm = result at hverdict hanswer hafter hstands
  cases hverdict with
  | exits henv hstatus =>
      refine .gone hanswer ?_
      rw [hafter henv, Option.filter_some, hstatus]
      rfl
  | @refused e t he hstand =>
      cases hcode : e.code? with
      | none => exact absurd (SysError.code?_eq_none_iff.mp hcode) he
      | some code =>
          have hword : k.answer event = some code.word := by
            rw [hanswer]
            change (e.code?).map ErrorCode.word = _
            rw [hcode]
            rfl
          obtain ⟨env, henv, hid, hframe⟩ := hstands hcalls hsender hword hstand
          exact .refused hcode hword henv hid hframe
  | answered hvalue hstand =>
      obtain ⟨env, henv, hid, hframe⟩ := hstands hcalls hsender hanswer hstand
      exact .answered hvalue hanswer henv hid hframe

/-! ## The word and the registers -/

/-- A result word says what a call came to. -/
structure Tells (w : Int64) (result : Except SysError Word) : Prop where
  negative_iff : w < 0 ↔ ∃ e, result = .error e
  negative_range : w < 0 → -7 ≤ w ∧ w ≤ -2
  /-- A value is read back from the word as it is. -/
  decode_value : ∀ value, result = .ok value → ErrorCode.decode w = .ok value
  /-- A refusal is read back from the word as its code. -/
  decode_refusal : ∀ e, result = .error e →
    ∃ code, e.code? = some code ∧ ErrorCode.decode w = .error code

theorem tells_value {value : Word} (h : 0 ≤ value.toInt64) : Tells value.toInt64 (.ok value) where
  negative_iff := iff_of_false (Int64.not_lt.mpr h) nofun
  negative_range hnegative := absurd hnegative (Int64.not_lt.mpr h)
  decode_value _ heq := by
    cases heq
    rw [ErrorCode.decode, if_pos h]
    rfl
  decode_refusal _ heq := by cases heq

theorem tells_refusal {e : SysError} {code : ErrorCode} (h : e.code? = some code) :
    Tells code.word (.error e) where
  negative_iff := by
    refine iff_of_true ?_ ⟨e, rfl⟩
    cases code <;> decide
  negative_range _ := by cases code <;> decide
  decode_value _ heq := by cases heq
  decode_refusal _ heq := by
    cases heq
    exact ⟨code, h, ErrorCode.decode_word code⟩

theorem Fared.of_answer {result : Except SysError Word} (h : k.Fared event caller sender result)
    (hanswer : k.answer event = some w) :
    (∃ env, (k.step event).registry.env? caller = some env ∧ env.id = sender.id ∧
      env.frame = sender.frame.setResult w) ∧ Tells w result := by
  cases h with
  | gone hnone =>
      rw [hnone] at hanswer
      cases hanswer
  | refused hcode hword henv hid hframe =>
      rw [hword] at hanswer
      cases hanswer
      exact ⟨⟨_, henv, hid, hframe⟩, tells_refusal hcode⟩
  | answered hvalue hword henv hid hframe =>
      rw [hword] at hanswer
      cases hanswer
      exact ⟨⟨_, henv, hid, hframe⟩, tells_value hvalue⟩

theorem Fared.vacant {result : Except SysError Word} (h : k.Fared event caller sender result)
    (hanswer : k.answer event = none) : (k.step event).registry.env? caller = none := by
  cases h with
  | gone _ hgone => exact hgone
  | refused _ hword | answered _ hword =>
      rw [hword] at hanswer
      cases hanswer

theorem Fared.none_iff {result : Except SysError Word} (h : k.Fared event caller sender result)
    (hindex : sender.id.index = caller) :
    k.answer event = none ↔ (k.step event).registry.lookup sender.id = none := by
  constructor
  · intro hanswer
    rw [Registry.lookup, hindex, h.vacant hanswer]
  · intro hgone
    rw [Option.eq_none_iff_forall_ne_some]
    intro w hanswer
    obtain ⟨⟨env, henv, hid, -⟩, -⟩ := h.of_answer hanswer
    rw [Registry.lookup, hindex, henv] at hgone
    simp only [if_pos hid, reduceCtorEq] at hgone

theorem frame_eq_of_ne {env env' : Env} (hcalls : k.Calls caller number args event)
    (hi : i ≠ caller) (henv : k.registry.env? i = some env)
    (henv' : (k.step event).registry.env? i = some env') : env'.frame = env.frame := by
  rcases (becomes_step henv henv').frame_or with hframe | hacts
  · exact hframe
  · rw [acts_of_calls hcalls, beq_iff_eq] at hacts
    exact absurd hacts.symm hi

theorem frame_of_born {env : Env} (hcalls : k.Calls caller number args event)
    (hsender : k.registry.env? caller = some sender) (hstatus : sender.status ≠ .dying)
    (hvacant : k.registry.env? i = none) (hborn : (k.step event).registry.env? i = some env) :
    Syscall.ofNumber? number.toNat = some .exofork ∧
      env.frame = (sender.frame.loadCall number args).setResult 0 ∧
      k.answer event = some env.id.toWord.toInt64 := by
  obtain ⟨hcall, ⟨generation, hforks⟩, -⟩ := forks_of_born hcalls hsender hstatus hvacant hborn
  have hslot := hforks.slot_child
  have hanswer := hforks.answer_eq
  rw [trap_loaded hcalls] at hslot hanswer
  rw [Registry.env?_of_slot? hslot] at hborn
  cases hborn
  exact ⟨hcall, rfl, hanswer⟩

/-- What a call is answered with, and what becomes of the registers of all environments. -/
structure Truthful (k : Kernel) (event : Event) (caller : Nat) (number : Word) (args : Args)
    (sender : Env) : Prop where
  /-- There is no result word exactly if the caller is gone. -/
  none_iff : k.answer event = none ↔ (k.step event).registry.lookup sender.id = none
  /-- Then whoever is left was there before, with the same registers. -/
  silent : k.answer event = none → ∀ i env', (k.step event).registry.env? i = some env' →
    ∃ env, k.registry.env? i = some env ∧ env'.frame = env.frame
  /-- Otherwise the caller is where it was, with the result word in its registers. -/
  written : ∀ w, k.answer event = some w → ∃ env, (k.step event).registry.env? caller = some env ∧
    env.id = sender.id ∧ env.frame = (sender.frame.loadCall number args).setResult w ∧
    env.frame.result = w
  tells : ∀ w, k.answer event = some w → Tells w (k.handled caller number args)
  others : ∀ i env env', i ≠ caller → k.registry.env? i = some env →
    (k.step event).registry.env? i = some env' → env'.frame = env.frame
  /-- A child has the registers of its parent, but for the result zero; its parent is told its
  identifier. -/
  born : ∀ i env', k.registry.env? i = none → (k.step event).registry.env? i = some env' →
    Syscall.ofNumber? number.toNat = some .exofork ∧
    env'.frame = (sender.frame.loadCall number args).setResult 0 ∧ env'.frame.result = 0 ∧
    k.answer event = some env'.id.toWord.toInt64

/-- In every state that events lead to, the result word of a call tells the truth. -/
theorem truthful_of_runs {config : Config} {machine : Machine} {scheduler : Scheduler} {k₀ : Kernel}
    (hboot : boot config machine scheduler = .ok k₀) (hrun : Runs (fun _ _ => True) k₀ k)
    (hcalls : k.Calls caller number args event) (hsender : k.registry.env? caller = some sender) :
    k.Truthful event caller number args sender := by
  have hk := sane_of_runs hboot hrun
  have hindex := hk.index_eq hsender
  have hfared := fared_of_calls hk hcalls hsender
  have hborn : ∀ i env', k.registry.env? i = none → (k.step event).registry.env? i = some env' → _ :=
    fun i env' => frame_of_born hcalls hsender (hk.ne_dying hsender)
  constructor
  case none_iff => exact hfared.none_iff hindex
  case silent =>
    intro hanswer i env' henv'
    have hi : i ≠ caller := by
      rintro rfl
      rw [hfared.vacant hanswer] at henv'
      cases henv'
    cases henv : k.registry.env? i with
    | none =>
        rw [(hborn i env' henv henv').2.2] at hanswer
        cases hanswer
    | some env => exact ⟨env, rfl, frame_eq_of_ne hcalls hi henv henv'⟩
  case written =>
    intro w hanswer
    obtain ⟨⟨env, henv, hid, hframe⟩, -⟩ := hfared.of_answer hanswer
    refine ⟨env, henv, hid, hframe, ?_⟩
    rw [hframe]
    exact TrapFrame.result_setResult _ _
  case tells => exact fun w hanswer => (hfared.of_answer hanswer).2
  case others => exact fun i env env' hi henv henv' => frame_eq_of_ne hcalls hi henv henv'
  case born =>
    intro i env' hvacant henv'
    obtain ⟨hcall, hframe, hanswer⟩ := hborn i env' hvacant henv'
    refine ⟨hcall, hframe, ?_, hanswer⟩
    rw [hframe]
    exact TrapFrame.result_setResult _ _

/-- The first environment forks, and is told the identifier of its child. -/
theorem truthful_of_runs_fork :
    boot ⟨4, false, false, none⟩ smallMachine .roundRobin = .ok smallKernel ∧
    Runs (fun _ _ => True) smallKernel
      (smallKernel.after [.createEnv .user none, .run ⟨1024⟩]) ∧
    ∃ sender, (smallKernel.after [.createEnv .user none, .run ⟨1024⟩]).registry.env? 0 = some sender ∧
      (smallKernel.after [.createEnv .user none, .run ⟨1024⟩]).answer (.syscall 9 .zero) =
        some 1025 ∧
      (smallKernel.after [.createEnv .user none, .run ⟨1024⟩]).Truthful (.syscall 9 .zero) 0 9 .zero
        sender := by
  have hrun : Runs (fun _ _ => True) smallKernel
      (smallKernel.after [.createEnv .user none, .run ⟨1024⟩]) := runs_after .start _
  have hcalls : (smallKernel.after [.createEnv .user none, .run ⟨1024⟩]).Calls 0 9 .zero
      (.syscall 9 .zero) := ⟨by decide +kernel, rfl, rfl⟩
  have hsome : ((smallKernel.after [.createEnv .user none, .run ⟨1024⟩]).registry.env? 0).isSome =
      true := by decide +kernel
  obtain ⟨sender, hsender⟩ := Option.isSome_iff_exists.mp hsome
  refine ⟨boot_smallKernel, hrun, sender, hsender, by decide +kernel, ?_⟩
  exact truthful_of_runs boot_smallKernel hrun hcalls hsender

end Exokernel.Kernel
