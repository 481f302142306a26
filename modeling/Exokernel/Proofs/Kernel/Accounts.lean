import Exokernel.Proofs.Env.Authority
import Exokernel.Proofs.Kernel.Serving
import Exokernel.Proofs.Realm.Upkeep

/-! # Frame accounts over every run

From a fresh kernel on, in every state that events lead to, the reference counts are the numbers of
page-table entries, and the frames that are handed out are those that are counted and those that
hold leaf tables.  Nothing leaks, and no frame is given back while it is mapped.  The machine may
claim frames that it does not have, and bytes may be out of reach, so that requests fail midway. -/

namespace Exokernel.Kernel

variable {stray : PhysAddr → Prop}

/-! ## One event -/

theorem kept_booked {Q : Record} (hQ : Books Q) : Kept (Realm.Booked Q) where
  log hlog h := hQ.of_sameButLog h hlog
  turn _ h := h
  frame index _ h := Books.modifyEnv h index fun _ => rfl
  ended index actor trace h := hQ.endEnv h index actor trace
  born hallocate h := hQ.allocate h hallocate
  fault p write henv h := hQ.onSpace h henv fun _ => hQ.resolveFault p write
  read start length henv h := hQ.onSpace h henv fun _ => hQ.readBytes start length
  write start bytes henv h := hQ.onSpace h henv fun _ => hQ.writeBytes start bytes

/-- The event is a call that copies pages within one address space. -/
def CopiesWithin (k : Kernel) (event : Event) : Prop :=
  ∃ caller number args, k.Calls caller number args event ∧
    Syscall.ofNumber? number.toNat = some .mapRegion ∧ Service.SharesWithin caller args k.realm

theorem not_copiesWithin_of_not_calls {k : Kernel} {event : Event}
    (h : ∀ caller number args, ¬ k.Calls caller number args event) : ¬ k.CopiesWithin event := by
  rintro ⟨caller, number, args, hcalls, -⟩
  exact h caller number args hcalls

theorem not_copiesWithin_of_ne {k : Kernel} {number : Word} {args : Args}
    (h : Syscall.ofNumber? number.toNat ≠ some .mapRegion) :
    ¬ k.CopiesWithin (.syscall number args) := by
  rintro ⟨_, _, _, ⟨-, rfl, -⟩, hcall, -⟩
  exact h hcall

theorem sharesWithin_of_sameNames {caller : Nat} {args : Args} {s t : Realm}
    (hnames : s.registry.SameNames t.registry) (h : Service.SharesWithin caller args t) :
    Service.SharesWithin caller args s := by
  obtain ⟨index, hsource, htarget⟩ := h
  exact ⟨index, (hnames.resolve_eq _ _ _).symm.trans hsource,
    (hnames.resolve_eq _ _ _).symm.trans htarget⟩

/-- Every event but a copy within one address space keeps the balance. -/
theorem inBalance_step {k : Kernel} (h : Realm.InBalance stray k.realm) {event : Event}
    (hcopy : ¬ k.CopiesWithin event) : Realm.InBalance stray (k.step event).realm := by
  apply (kept_booked books_owing).step h
  intro caller number args s call t hcalls hcall hnames hs heffect
  apply heffect.inBalance hs
  rintro rfl hshares
  exact hcopy ⟨caller, number, args, hcalls, hcall, sharesWithin_of_sameNames hnames hshares⟩

/-! ## Every run -/

/-- The machine that a kernel starts on: a fresh pool with device windows, that claims more free
frames than there are and hides the bytes of some. -/
def freshMachine (frames : Nat) (windows : List (Nat × Nat)) (overclaim : Nat)
    (hidden : List PhysAddr) (log : Log) : Machine :=
  ⟨.fresh frames windows, overclaim, hidden, log⟩

theorem inBalance_boot {config : Config} {frames overclaim : Nat} {windows : List (Nat × Nat)}
    {hidden : List PhysAddr} {log : Log} {scheduler : Scheduler} {k : Kernel}
    (h : boot config (freshMachine frames windows overclaim hidden log) scheduler = .ok k) :
    Realm.InBalance (fun _ => False) k.realm := by
  rw [boot] at h
  split at h
  · cases h
  · cases h
    rw [Realm.InBalance]
    rw [show (Realm.ofMachine _ _).registry.tables = [] from Registry.tables_ofCapacity _]
    exact balanced_ofMachine (FramePool.consistent_fresh frames windows)
      (FramePool.isUsed_fresh frames windows)

/-- Every frame of the realm is accounted for. -/
structure FramesAccounted (s : Realm) : Prop where
  /-- A count is the number of entries of all environments that map the frame. -/
  count_eq : ∀ pa, s.memory.refs.count pa = mapsIn s.registry.tables pa
  /-- No zero is stored. -/
  listed_pos : ∀ pa : PhysAddr, pa.raw ∈ s.memory.refs.counts → 0 < s.memory.refs.count pa
  leaves_nodup : (leavesIn s.registry.tables).Nodup
  leaves_uncounted : ∀ pa ∈ leavesIn s.registry.tables, s.memory.refs.count pa = 0
  used_iff : ∀ pa, s.memory.machine.pool.isUsed pa = true ↔
    0 < s.memory.refs.count pa ∨ pa ∈ leavesIn s.registry.tables
  free_nodup : s.memory.machine.pool.free.Nodup
  free_iff : ∀ index, index ∈ s.memory.machine.pool.free ↔
    index < s.memory.machine.pool.capacity ∧ s.memory.refs.count (FramePool.ramAddr index) = 0 ∧
      FramePool.ramAddr index ∉ leavesIn s.registry.tables
  capacity_eq : s.memory.machine.pool.capacity = s.memory.machine.pool.freeFrames +
    s.memory.refs.liveFrames + (s.registry.tables.map PageTable.tablePages).sum

theorem framesAccounted_of_inBalance {s : Realm} (h : Realm.InBalance (fun _ => False) s) :
    FramesAccounted s := by
  have hacc := h.accounting
  have hused : ∀ pa, s.memory.machine.pool.isUsed pa = true ↔
      0 < s.memory.refs.count pa ∨ pa ∈ leavesIn s.registry.tables := by
    intro pa
    rw [h.ledger.used_iff, hacc.count_eq]
    simp
  refine ⟨hacc.count_eq, hacc.listed, hacc.leaves_nodup, hacc.leaves_uncounted, hused,
    hacc.pool.nodup, ?_, h.capacity_eq⟩
  intro index
  rw [hacc.pool.mem_free_iff_unused, ← Bool.not_eq_true, hused, not_or, Nat.not_lt, Nat.le_zero]
  exact Iff.rfl

theorem inBalance_of_runs {k₀ k : Kernel} (h : Realm.InBalance stray k₀.realm)
    (hrun : Runs (fun k event => ¬ k.CopiesWithin event) k₀ k) : Realm.InBalance stray k.realm := by
  apply hrun.invariant (I := fun k => Realm.InBalance stray k.realm) h
  intro k event hbalance hcopy
  exact inBalance_step hbalance hcopy

/-- From a fresh kernel on, every frame is accounted for as long as no event copies pages within one
address space. -/
theorem framesAccounted_of_runs {config : Config} {frames overclaim : Nat}
    {windows : List (Nat × Nat)} {hidden : List PhysAddr} {log : Log} {scheduler : Scheduler}
    {k₀ k : Kernel}
    (hboot : boot config (freshMachine frames windows overclaim hidden log) scheduler = .ok k₀)
    (hrun : Runs (fun k event => ¬ k.CopiesWithin event) k₀ k) : FramesAccounted k.realm := by
  apply framesAccounted_of_inBalance
  exact inBalance_of_runs (inBalance_boot hboot) hrun

/-- A machine of eight frames that claims four more and hides the last frame. -/
def smallMachine : Machine := freshMachine 8 [(0x80000000, 2)] 4 [⟨0x107000⟩] (.withFilter none)

def smallKernel : Kernel :=
  let machine := { smallMachine with log := .withFilter none }
  ⟨⟨4, false, false, none⟩, .roundRobin,
    .ofMachine 4 (machine.note .info "boot" s!"axon: {(4 : Nat)} env slots")⟩

theorem boot_smallKernel :
    boot ⟨4, false, false, none⟩ smallMachine .roundRobin = .ok smallKernel := by
  have hconfig : Config.problem? ⟨4, false, false, none⟩ = none := by decide
  rw [boot]
  rw [hconfig]
  rfl

/-- An environment maps two fresh pages and forks. -/
def forkedKernel : Kernel :=
  (((smallKernel.step (.createEnv .user none)).step (.run ⟨1024⟩)).step
    (.syscall 4 ⟨0, 0x1000, 0x2000, 6, 0, 0⟩)).step (.syscall 9 .zero)

/-- The call by which it shares both pages with its child. -/
def shareCall : Event := .syscall 5 ⟨0, 0x1000, 1025, 0x5000, 0x2000, 6⟩

theorem not_copiesWithin_shareCall : ¬ forkedKernel.CopiesWithin shareCall := by
  rintro ⟨caller, _, _, ⟨hcurrent, rfl, rfl⟩, -, index, hsource, htarget⟩
  have hzero : forkedKernel.registry.current = some 0 := by decide +kernel
  have hcaller : caller = 0 := Option.some.inj (hcurrent.symm.trans hzero)
  subst hcaller
  have hself : forkedKernel.realm.registry.resolve (.ofWord 0) 0 true = .ok 0 := by decide +kernel
  have hchild : forkedKernel.realm.registry.resolve (.ofWord 1025) 0 true = .ok 1 := by
    decide +kernel
  have hsame : 0 = index := Except.ok.inj (hself.symm.trans hsource)
  have hnext : 1 = index := Except.ok.inj (hchild.symm.trans htarget)
  omega

theorem framesAccounted_of_runs_sharing :
    boot ⟨4, false, false, none⟩ smallMachine .roundRobin = .ok smallKernel ∧
    Runs (fun k event => ¬ k.CopiesWithin event) smallKernel (forkedKernel.step shareCall) ∧
    (forkedKernel.step shareCall).realm.memory.refs.count (FramePool.ramAddr 0) = 2 ∧
    FramesAccounted (forkedKernel.step shareCall).realm := by
  have hrun : Runs (fun k event => ¬ k.CopiesWithin event) smallKernel
      (forkedKernel.step shareCall) := by
    refine .step _ (.step _ (.step _ (.step _ (.step _ .start ?_) ?_) ?_) ?_) ?_
    · exact not_copiesWithin_of_not_calls fun _ _ _ => id
    · exact not_copiesWithin_of_not_calls fun _ _ _ => id
    · exact not_copiesWithin_of_ne (by decide)
    · exact not_copiesWithin_of_ne (by decide)
    · exact not_copiesWithin_shareCall
  refine ⟨boot_smallKernel, hrun, by decide +kernel, ?_⟩
  exact framesAccounted_of_runs boot_smallKernel hrun

end Exokernel.Kernel
