import Exokernel.Proofs.Env.Generations
import Exokernel.Proofs.Env.Turns
import Exokernel.Proofs.Kernel.Backing

/-! # Page faults

A fault of the current environment is resolved, goes to the entry point of the environment, or ends
it. To resolve it means to give a page its frame.  But a page that has one already counts as
resolved, too, if user code may access it in the way that faulted: nothing is done then, and the
environment is told to try again. -/

namespace Exokernel

/-! ## The page at an address -/

/-- User code may access the page at an address in this way, and `e` is the entry of the page. -/
structure PageTable.Admits (t : PageTable) (va : Word) (write : Bool) (p : VirtPage) (e : PageEntry) :
    Prop where
  page : ∃ address, VirtAddr.ofWord? va = some address ∧ address.page = p
  lookup : t.lookup p = some e
  permits : e.permits write = true

theorem PageTable.Admits.val_eq {t : PageTable} {va : Word} {write : Bool} {p : VirtPage}
    {e : PageEntry} (h : t.Admits va write p e) : p.val = va.toNat / pageSize := by
  obtain ⟨⟨address, haddress, rfl⟩, -, -⟩ := h
  rw [← VirtAddr.ofWord?_eq_some_iff.mp haddress]
  rfl

theorem PageTable.Admits.unique {t : PageTable} {va : Word} {write : Bool} {p q : VirtPage}
    {e e' : PageEntry} (h : t.Admits va write p e) (h' : t.Admits va write q e') :
    q = p ∧ e' = e := by
  obtain ⟨⟨address, haddress, rfl⟩, hlookup, -⟩ := h
  obtain ⟨⟨address', haddress', rfl⟩, hlookup', -⟩ := h'
  rw [haddress] at haddress'
  cases haddress'
  rw [hlookup] at hlookup'
  cases hlookup'
  exact ⟨rfl, rfl⟩

namespace Kernel

variable {k k₀ : Kernel} {index : Nat} {env : Env} {va : Word} {write : Bool} {p : VirtPage}
  {e : PageEntry} {fill : Fill} {flags : PageFlags}

/-! ## What a fault should come to -/

/-- A page that had no frame is given one that was not handed out, that is counted once and filled
throughout.  All else is as before but the log. -/
structure GivesFrame (s : Realm) (index : Nat) (env : Env) (p : VirtPage) (fill : Fill)
    (pa : PhysAddr) (s' : Realm) : Prop where
  unused : s.memory.machine.pool.isUsed pa = false
  /-- As long as every frame is accounted for, nobody has the new frame mapped. -/
  unmapped : FramesAccounted s →
    s.memory.refs.count pa = 0 ∧ ∀ t ∈ s.registry.tables, ∀ q, t.backing? q ≠ some (.frame pa)
  registry_eq : s'.registry = s.registry.modify index fun env' =>
    { env' with table := env.table.modify p fun e => { e with backing := .frame pa } }
  count_eq : ∀ q, s'.memory.refs.count q = if pa = q then 1 else s.memory.refs.count q
  isUsed_eq : ∀ q, s'.memory.machine.pool.isUsed q =
    (decide (q = pa) || s.memory.machine.pool.isUsed q)
  freeFrames_eq : s'.memory.machine.freeFrames + 1 = s.memory.machine.freeFrames
  filled : s'.memory.machine.pool.frame? pa = some (Vector.replicate pageSize fill.byte)
  frame_eq : ∀ q, q ≠ pa → s'.memory.machine.pool.frame? q = s.memory.machine.pool.frame? q
  sameLayout : s.memory.machine.pool.SameLayout s'.memory.machine.pool
  console_eq : s'.console = s.console

/-- The environment in a slot has ended, and the scheduler has picked the next one. -/
structure Ends (k : Kernel) (index : Nat) (env : Env) (s' : Realm) : Prop where
  vacant : s'.registry.env? index = none
  /-- The identifier names nobody any more, whoever asks. -/
  refused : ∀ requester check, s'.registry.resolve env.id requester check = .error .badEnvironment
  others : ∀ i, i ≠ index → s'.registry.slot? i = k.registry.slot? i
  sameBytes : k.realm.memory.machine.pool.SameBytes s'.memory.machine.pool
  current_eq : s'.registry.current = (k.scheduler (s'.registry.setCurrent none) (some index)).filter
    fun i => (s'.registry.env? i).isSome
  next : k.scheduler = .roundRobin → s'.registry.NextRuns index

/-- A fault can be resolved: user code may access the page in this way, the page waits for its
frame, and a frame is free. -/
def Resolvable (k : Kernel) (env : Env) (va : Word) (write : Bool) : Prop :=
  (∃ p fill flags, env.table.Admits va write p ⟨.lazy fill, flags⟩) ∧
    0 < k.realm.memory.machine.freeFrames

/-- What a fault of the environment in a slot should come to: it is resolved if it can be, and else
it goes to the entry point of the environment, or ends an environment without one. -/
structure FaultsProperly (k : Kernel) (index : Nat) (env : Env) (va : Word) (write : Bool) : Prop where
  resolved_iff : (k.pageFault va write).1 = some .resolved ↔ k.Resolvable env va write
  resolves : ∀ p fill flags, env.table.Admits va write p ⟨.lazy fill, flags⟩ →
    0 < k.realm.memory.machine.freeFrames → ∃ pa realm,
      k.pageFault va write = (some .resolved, { k with realm }) ∧
        GivesFrame k.realm index env p fill pa realm
  redirects : ¬ k.Resolvable env va write → ∀ entry, env.upcall = some entry →
    k.pageFault va write = (some (.upcall entry), { k with realm := k.realm.modifyEnv index fun env' =>
      { env' with frame :=
        { env'.frame with
          pc := UInt64.ofNat entry.raw, regs := env'.frame.regs.set 1 va (by decide) } } })
  ends : ¬ k.Resolvable env va write → env.upcall = none → ∃ realm,
    k.pageFault va write = (some .destroyed, { k with realm }) ∧ k.Ends index env realm

/-! ## Resolving -/

/-- Where the access is allowed, resolving the fault is giving the page its frame. -/
theorem tryResolve_of_admits (h : env.table.Admits va write p e) (s : Realm) (index : Nat) :
    tryResolve s index env va write =
      match Space.populate p ⟨s.memory, env.table⟩ with
      | .ok _ space => (true, s.putSpace index space)
      | .error _ space => (false, s.putSpace index space) := by
  obtain ⟨⟨address, haddress, rfl⟩, hlookup, hpermits⟩ := h
  have hresolve : Space.resolveFault address.page write ⟨s.memory, env.table⟩ =
      Space.populate address.page ⟨s.memory, env.table⟩ := by
    simp only [Space.resolveFault, hlookup, hpermits, if_true]
  simp only [tryResolve, haddress, Realm.onSpace_eq, hresolve]
  cases Space.populate address.page ⟨s.memory, env.table⟩ <;> rfl

theorem tryResolve_of_refused {s : Realm} (henv : s.registry.env? index = some env)
    (h : ∀ p e, ¬ env.table.Admits va write p e) :
    tryResolve s index env va write = (false, s) := by
  cases haddress : VirtAddr.ofWord? va with
  | none => simp only [tryResolve, haddress]
  | some address =>
      have hresolve : Space.resolveFault address.page write ⟨s.memory, env.table⟩ =
          .error .fault ⟨s.memory, env.table⟩ := by
        simp only [Space.resolveFault]
        split
        · next e hlookup =>
          rw [if_neg fun hpermits => h _ e ⟨⟨address, haddress, rfl⟩, hlookup, hpermits⟩]
        · rfl
      simp only [tryResolve, haddress, Realm.onSpace_eq, hresolve]
      rw [Realm.putSpace_self henv]

/-- A page that has its frame or is a device page counts as resolved, and nothing is done. -/
theorem tryResolve_of_present {s : Realm} (henv : s.registry.env? index = some env)
    (h : env.table.Admits va write p e) (hpresent : e.backing.isLazy = false) :
    tryResolve s index env va write = (true, s) := by
  obtain ⟨pa, hpopulate⟩ : ∃ pa, Space.populate p ⟨s.memory, env.table⟩ =
      .ok pa ⟨s.memory, env.table⟩ := by
    obtain ⟨backing, flags⟩ := e
    have hlookup := h.lookup
    cases backing with
    | frame pa => exact ⟨pa, by simp only [Space.populate, hlookup]⟩
    | device pa => exact ⟨pa, by simp only [Space.populate, hlookup]⟩
    | lazy fill => cases hpresent
  rw [tryResolve_of_admits h, hpopulate]
  exact congrArg (Prod.mk true) (Realm.putSpace_self henv)

theorem tryResolve_of_not_resolvable (hreliable : k.realm.memory.machine.Reliable)
    (henv : k.registry.env? index = some env) (hnot : ¬ k.Resolvable env va write)
    (habsent : ¬ ∃ p e, env.table.Admits va write p e ∧ e.backing.isLazy = false) :
    tryResolve k.realm index env va write = (false, k.realm) := by
  by_cases hadmits : ∃ p e, env.table.Admits va write p e
  · obtain ⟨p, ⟨backing, flags⟩, hadmits⟩ := hadmits
    cases backing with
    | frame pa => exact absurd ⟨p, _, hadmits, rfl⟩ habsent
    | device pa => exact absurd ⟨p, _, hadmits, rfl⟩ habsent
    | lazy fill =>
        have hnone : ¬ 0 < k.realm.memory.machine.freeFrames := fun hfree =>
          hnot ⟨⟨p, fill, flags, hadmits⟩, hfree⟩
        have hmapped : env.table.isMapped p = true := by
          rw [PageTable.isMapped, hadmits.lookup]
          rfl
        have hneed : Space.lazyPages env.table [p] = 1 := by
          rw [Space.lazyPages, List.countP_singleton, hadmits.lookup]
          rfl
        have hpopulate := (Space.populate_outcome (s := ⟨k.realm.memory, env.table⟩) hreliable
          hmapped).1 (by rw [hneed]; exact Nat.lt_one_iff.mpr (Nat.eq_zero_of_not_pos hnone))
        rw [tryResolve_of_admits hadmits, hpopulate]
        exact congrArg (Prod.mk false) (Realm.putSpace_self henv)
  · exact tryResolve_of_refused henv fun p e h => hadmits ⟨p, e, h⟩

theorem unmapped_of_unused {s : Realm} (h : FramesAccounted s) {pa : PhysAddr}
    (hunused : s.memory.machine.pool.isUsed pa = false) : s.memory.refs.count pa = 0 ∧
      ∀ t ∈ s.registry.tables, ∀ q, t.backing? q ≠ some (.frame pa) := by
  have hcount : s.memory.refs.count pa = 0 := by
    by_contra hne
    have hused := (h.used_iff pa).mpr (Or.inl (Nat.pos_of_ne_zero hne))
    rw [hunused] at hused
    cases hused
  refine ⟨hcount, fun t ht q hq => ?_⟩
  have hpos := mapsIn_pos_iff.mpr ⟨t, ht, q, hq⟩
  rw [← h.count_eq, hcount] at hpos
  exact absurd hpos (Nat.lt_irrefl 0)

theorem tryResolve_of_lazy {s : Realm} (hreliable : s.memory.machine.Reliable)
    (hpool : s.memory.machine.pool.Consistent)
    (h : env.table.Admits va write p ⟨.lazy fill, flags⟩) (hfree : 0 < s.memory.machine.freeFrames) :
    ∃ pa realm, tryResolve s index env va write = (true, realm) ∧
      GivesFrame s index env p fill pa realm := by
  obtain ⟨pa, memory, hfresh, -⟩ := Machine.CanGive.fresh? (n := 0) ⟨hreliable, hfree⟩ fill
  have htaken := Memory.supplies_of_fresh? hpool hfresh
  have hfewer := hreliable.freeFrames_of_fresh? hfresh
  have hlayout := Memory.sameLayout_of_fresh? hfresh
  have hlookup := h.lookup
  obtain ⟨text, hpopulate⟩ : ∃ text, Space.populate p ⟨s.memory, env.table⟩ =
      .ok pa ⟨memory.note .trace "mm" text,
        env.table.modify p fun e => { e with backing := .frame pa }⟩ := by
    simp only [Space.populate, hlookup, hfresh]
    exact ⟨_, rfl⟩
  refine ⟨pa, _, by rw [tryResolve_of_admits h, hpopulate], ?_⟩
  exact {
    unused := htaken.unused
    unmapped := fun haccounted => unmapped_of_unused haccounted htaken.unused
    registry_eq := rfl
    count_eq := fun q => (congrArg (RefCounts.count · q) htaken.refs_eq).trans
      (RefCounts.count_set _ _ _ _)
    isUsed_eq := htaken.isUsed_eq
    freeFrames_eq := hfewer
    filled := htaken.frame?_self.trans (congrArg some fill.frame_eq_replicate)
    frame_eq := htaken.frame?_other
    sameLayout := hlayout
    console_eq := rfl }

/-! ## The three outcomes -/

theorem pageFault_of_resolved {realm : Realm} (hcurrent : k.registry.current = some index)
    (henv : k.registry.env? index = some env)
    (h : tryResolve k.realm index env va write = (true, realm)) :
    k.pageFault va write = (some .resolved, { k with realm }) := by
  simp only [pageFault, hcurrent, henv, h]

theorem pageFault_of_upcall {entry : VirtAddr} (hcurrent : k.registry.current = some index)
    (henv : k.registry.env? index = some env)
    (h : tryResolve k.realm index env va write = (false, k.realm))
    (hupcall : env.upcall = some entry) :
    k.pageFault va write = (some (.upcall entry), { k with realm := k.realm.modifyEnv index fun env' =>
      { env' with frame :=
        { env'.frame with
          pc := UInt64.ofNat entry.raw, regs := env'.frame.regs.set 1 va (by decide) } } }) := by
  simp only [pageFault, hcurrent, henv, h, hupcall]
  rfl

/-- An environment that had the turn ends, whatever has become of it by then, and another one has
its turn. -/
theorem ends_of_endEnv {ending : Realm} {last : Env}
    (hcapacity : k.registry.capacity ≤ Exokernel.maxEnvs)
    (hslots : ∀ i slot, k.registry.slot? i = some slot → slot.Orderly i)
    (henv : k.registry.env? index = some env) (hcurrent : ending.registry.current = some index)
    (hlast : ending.registry.env? index = some last)
    (hothers : ∀ i, i ≠ index → ending.registry.slot? i = k.registry.slot? i)
    (hpool : ending.memory.machine.pool = k.realm.memory.machine.pool) (actor : Option EnvId)
    (trace : Bool) :
    k.Ends index env
      ({ k with realm := (ending.endEnv index actor trace).2 }.scheduleFrom (some index)).realm := by
  have hbytes := Realm.sameBytes_endEnv ending index actor trace
  have hslot := Realm.slot?_endEnv ending index actor trace
  obtain ⟨hvacant, hidle⟩ := Realm.vacated_of_endEnv hlast actor trace
  rw [hpool] at hbytes
  rw [if_pos hcurrent] at hidle
  generalize (ending.endEnv index actor trace).2 = ended at hbytes hslot hvacant hidle
  obtain ⟨generation, hbefore⟩ := Registry.slot?_of_env? henv
  have horderly := hslots index _ hbefore
  obtain ⟨hindex, -, hpos, hle⟩ := horderly.id_parts
    (Nat.lt_of_lt_of_le (Registry.lt_capacity_of_env? henv) hcapacity)
  have hself : env.id.isSelf = false := by
    rw [horderly.id_eq env rfl]
    exact Registry.isSelf_ofParts hpos hle
  have hlookup : ended.registry.lookup env.id = none := by
    rw [Registry.lookup, hindex, hvacant]
  refine ⟨hvacant, fun requester check => ?_, fun i hi => ?_, hbytes, ?_, fun hturns => ?_⟩
  · refine Registry.resolve_of_lookup_eq_none hself ?_ requester check
    exact hlookup
  · exact (hslot i).trans ((if_neg (Ne.symm hi)).trans (hothers i hi))
  · have hregistry : ended.registry = { ended.registry with current := none } := by
      rw [← hidle]
    change (k.scheduler ended.registry (some index)).filter _ = _
    rw [hregistry]
    rfl
  · have hnext := Registry.nextRuns_of_roundRobin ended.registry index
    rwa [← hturns] at hnext

theorem ends_scheduleFrom {noted : Realm} (hcapacity : k.registry.capacity ≤ Exokernel.maxEnvs)
    (hslots : ∀ i slot, k.registry.slot? i = some slot → slot.Orderly i)
    (hcurrent : k.registry.current = some index) (henv : k.registry.env? index = some env)
    (hlog : k.realm.SameButLog noted) (actor : Option EnvId) (trace : Bool) :
    k.Ends index env
      ({ k with realm := (noted.endEnv index actor trace).2 }.scheduleFrom (some index)).realm := by
  have hnoted : noted.registry = k.registry := hlog.registry_eq
  refine ends_of_endEnv hcapacity hslots henv ?_ (hnoted ▸ henv) (fun i _ => ?_) hlog.pool_eq actor trace
  · rw [hnoted, hcurrent]
  · rw [hnoted]

theorem pageFault_of_ended (hcapacity : k.registry.capacity ≤ Exokernel.maxEnvs)
    (hslots : ∀ i slot, k.registry.slot? i = some slot → slot.Orderly i)
    (hcurrent : k.registry.current = some index) (henv : k.registry.env? index = some env)
    (h : tryResolve k.realm index env va write = (false, k.realm)) (hnone : env.upcall = none) :
    ∃ realm, k.pageFault va write = (some .destroyed, { k with realm }) ∧
      k.Ends index env realm := by
  refine ⟨_, ?_, ends_scheduleFrom hcapacity hslots hcurrent henv
    (Realm.sameButLog_note k.realm .warn "env"
      s!"[{env.id.text}] user fault va {Text.hexAddress va.toNat} write={write}")
    (some env.id) k.config.traceEnvs⟩
  simp only [pageFault, hcurrent, henv, h, hnone]
  rfl

/-- A fault that is not about a page with a frame or about a device page comes to what it should. -/
theorem faultsProperly_of_absent (hreliable : k.realm.memory.machine.Reliable)
    (hpool : k.realm.memory.machine.pool.Consistent)
    (hcapacity : k.registry.capacity ≤ Exokernel.maxEnvs)
    (hslots : ∀ i slot, k.registry.slot? i = some slot → slot.Orderly i)
    (hcurrent : k.registry.current = some index) (henv : k.registry.env? index = some env)
    (habsent : ¬ ∃ p e, env.table.Admits va write p e ∧ e.backing.isLazy = false) :
    k.FaultsProperly index env va write := by
  have hresolves : ∀ p fill flags, env.table.Admits va write p ⟨.lazy fill, flags⟩ →
      0 < k.realm.memory.machine.freeFrames → ∃ pa realm,
        k.pageFault va write = (some .resolved, { k with realm }) ∧
          GivesFrame k.realm index env p fill pa realm := by
    intro p fill flags hadmits hfree
    obtain ⟨pa, realm, hresolve, hgives⟩ := tryResolve_of_lazy hreliable hpool hadmits hfree
    exact ⟨pa, realm, pageFault_of_resolved hcurrent henv hresolve, hgives⟩
  have hstuck : ¬ k.Resolvable env va write →
      tryResolve k.realm index env va write = (false, k.realm) := fun hnot =>
    tryResolve_of_not_resolvable hreliable henv hnot habsent
  refine ⟨⟨fun hresolved => ?_, ?_⟩, hresolves, ?_, ?_⟩
  · by_contra hnot
    cases hupcall : env.upcall with
    | some entry =>
        rw [pageFault_of_upcall hcurrent henv (hstuck hnot) hupcall] at hresolved
        cases hresolved
    | none =>
        obtain ⟨realm, hfault, -⟩ :=
          pageFault_of_ended hcapacity hslots hcurrent henv (hstuck hnot) hupcall
        rw [hfault] at hresolved
        cases hresolved
  · rintro ⟨⟨p, fill, flags, hadmits⟩, hfree⟩
    obtain ⟨pa, realm, hfault, -⟩ := hresolves p fill flags hadmits hfree
    exact congrArg Prod.fst hfault
  · exact fun hnot entry hupcall => pageFault_of_upcall hcurrent henv (hstuck hnot) hupcall
  · exact fun hnot hnone => pageFault_of_ended hcapacity hslots hcurrent henv (hstuck hnot) hnone

/-- From a fresh kernel on a machine that has what it claims, in every state that events lead to: a
fault of the current environment comes to what it should come to, unless the page that it is about
has its frame already and may be accessed in this way.  Then the fault counts as resolved, and
nothing is done. -/
theorem faultsProperly_iff {config : Config} {frames : Nat} {windows : List (Nat × Nat)} {log : Log}
    {scheduler : Scheduler}
    (hboot : boot config (freshMachine frames windows 0 [] log) scheduler = .ok k₀)
    (hrun : Runs (fun _ _ => True) k₀ k) (hcurrent : k.registry.current = some index)
    (henv : k.registry.env? index = some env) (va : Word) (write : Bool) :
    (k.FaultsProperly index env va write ↔
      ¬ ∃ p e, env.table.Admits va write p e ∧ e.backing.isLazy = false) ∧
    ((∃ p e, env.table.Admits va write p e ∧ e.backing.isLazy = false) →
      k.pageFault va write = (some .resolved, k)) := by
  have hpresent : (∃ p e, env.table.Admits va write p e ∧ e.backing.isLazy = false) →
      k.pageFault va write = (some .resolved, k) := by
    rintro ⟨p, e, hadmits, hbacked⟩
    exact pageFault_of_resolved hcurrent henv (tryResolve_of_present henv hadmits hbacked)
  refine ⟨⟨fun hproper hbacked => ?_, fun habsent => ?_⟩, hpresent⟩
  · have hresolved := congrArg Prod.fst (hpresent hbacked)
    obtain ⟨⟨q, fill, flags, hlazy⟩, -⟩ := hproper.resolved_iff.mp hresolved
    obtain ⟨p, e, hadmits, hnot_lazy⟩ := hbacked
    obtain ⟨-, rfl⟩ := hlazy.unique hadmits
    cases hnot_lazy
  · obtain ⟨hcapacity, hslots⟩ := slots_of_runs hboot hrun
    exact faultsProperly_of_absent (reliable_of_runs hboot hrun) (consistent_of_runs hboot hrun)
      hcapacity hslots hcurrent henv habsent

/-- Its one environment has a page with a frame and behind it a page without one. -/
def twoPageKernel : Kernel :=
  busyKernel.after [.syscall 4 ⟨0, 0x1000, 0x1000, 6, 0, 0⟩, .syscall 4 ⟨0, 0x2000, 0x1000, 0x86, 0, 0⟩]

theorem runs_twoPageKernel : Runs (fun _ _ => True) exactKernel twoPageKernel :=
  runs_after (runs_after .start _) _

theorem faultsProperly_iff_twoPages :
    boot ⟨4, false, false, none⟩ exactMachine .roundRobin = .ok exactKernel ∧
    Runs (fun _ _ => True) exactKernel twoPageKernel ∧ twoPageKernel.registry.current = some 0 ∧
    ∃ env, twoPageKernel.registry.env? 0 = some env ∧
      twoPageKernel.FaultsProperly 0 env 0x2010 true := by
  have hcurrent : twoPageKernel.registry.current = some 0 := by decide +kernel
  have hlazy : (twoPageKernel.registry.env? 0).any (fun env =>
      (env.table.lookup ⟨2, by decide⟩).any (·.backing.isLazy)) = true := by decide +kernel
  obtain ⟨env, henv, hlazy⟩ := (Option.any_eq_true _ _).mp hlazy
  refine ⟨boot_exactKernel, runs_twoPageKernel, hcurrent, env, henv, ?_⟩
  refine (faultsProperly_iff boot_exactKernel runs_twoPageKernel hcurrent henv 0x2010 true).1.mpr ?_
  rintro ⟨p, e, hadmits, hpresent⟩
  obtain rfl : p = ⟨2, by decide⟩ := Fin.ext hadmits.val_eq
  rw [hadmits.lookup, Option.any_some, hpresent] at hlazy
  cases hlazy

theorem resolved_of_present_twoPages :
    boot ⟨4, false, false, none⟩ exactMachine .roundRobin = .ok exactKernel ∧
    Runs (fun _ _ => True) exactKernel twoPageKernel ∧ twoPageKernel.registry.current = some 0 ∧
    (twoPageKernel.pageFault 0x1000 true).1 = some .resolved ∧
    ∃ env, twoPageKernel.registry.env? 0 = some env ∧ env.upcall = none ∧
      ¬ twoPageKernel.Resolvable env 0x1000 true ∧
      ¬ twoPageKernel.FaultsProperly 0 env 0x1000 true := by
  have hresolved : (twoPageKernel.pageFault 0x1000 true).1 = some .resolved := by decide +kernel
  have hstate : (twoPageKernel.registry.env? 0).any (fun env => env.upcall.isNone &&
      !(env.table.lookup ⟨1, by decide⟩).any (·.backing.isLazy)) = true := by decide +kernel
  obtain ⟨env, henv, hstate⟩ := (Option.any_eq_true _ _).mp hstate
  obtain ⟨hupcall, hpresent⟩ := (Bool.and_eq_true _ _).mp hstate
  have hnot : ¬ twoPageKernel.Resolvable env 0x1000 true := by
    rintro ⟨⟨p, fill, flags, hadmits⟩, -⟩
    obtain rfl : p = ⟨1, by decide⟩ := Fin.ext hadmits.val_eq
    rw [hadmits.lookup] at hpresent
    cases hpresent
  refine ⟨boot_exactKernel, runs_twoPageKernel, by decide +kernel, hresolved, env, henv,
    Option.isNone_iff_eq_none.mp hupcall, hnot, fun hproper => ?_⟩
  exact hnot (hproper.resolved_iff.mp hresolved)

end Kernel

end Exokernel
