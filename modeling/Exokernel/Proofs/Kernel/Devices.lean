import Exokernel.Proofs.Kernel.Backing
import Exokernel.Proofs.Kernel.Order
import Exokernel.Proofs.Region.Materialising

/-! # Spaces stand on their memory

A device page comes into a space inside a window, or out of another space, and the windows stay
where they are.  So in every state that events lead to, device pages lie inside windows; and if all
frames are accounted for as well, each space stands on its memory, with those of the others beside
it. -/

namespace Exokernel

variable {pool : FramePool} {m : Memory} {s : Realm} {pa : PhysAddr}

/-- The device pages of all environments begin at page boundaries, inside the windows of a pool. -/
def Realm.DevicesIn (pool : FramePool) (s : Realm) : Prop :=
  ∀ i env, s.registry.env? i = some env → ∀ p pa, env.table.backing? p = some (.device pa) →
    isPageAligned pa.raw = true ∧ pool.isDeviceRange pa pageSize = true

theorem Service.Grants.device_or {caller : Nat} {args : Args} {i : Nat} {env : Env} {p : VirtPage}
    {e : PageEntry} {call : Syscall} (h : Grants s pool caller args i env p e call)
    (he : e.backing = .device pa) :
    (isPageAligned pa.raw = true ∧ s.memory.machine.pool.isDeviceRange pa pageSize = true) ∨
      ∃ j source q, s.registry.env? j = some source ∧ source.table.backing? q = some (.device pa) := by
  have hshared : ∀ {j source rights settled target q o}, s.registry.env? j = some source →
      Space.SharedEntry ⟨s.memory, source.table⟩ settled pool rights env.table target q p o e →
      ∃ j source q, s.registry.env? j = some source ∧
        source.table.backing? q = some (.device pa) := by
    intro j source rights settled target q o hsource hentry
    refine ⟨j, source, q, hsource, ?_⟩
    rcases hentry.origin with hsame | ⟨fill, pa', -, hframe, -⟩
    · rw [PageTable.backing?, hentry.before, Option.map_some, hsame, he]
    · cases he.symm.trans hframe
  cases h with
  | alloc _ _ _ _ _ hfresh => exact absurd he (hfresh.not_device pa)
  | device n _ _ hpa _ _ _ hentry hwindow =>
      rw [hentry] at he
      cases he
      exact Or.inl ⟨PhysAddr.isPageAligned_advance hpa n, hwindow⟩
  | share _ _ _ _ _ _ _ hsource _ _ _ hentry => exact Or.inr (hshared hsource hentry)
  | send _ hsender _ _ _ _ _ _ hentry => exact Or.inr (hshared hsender hentry)

namespace Kernel

variable {k k₀ : Kernel}

theorem devicesIn_step (hk : k.realm.DevicesIn k.realm.memory.machine.pool) (event : Event) :
    (k.step event).realm.DevicesIn (k.step event).realm.memory.machine.pool := by
  have hlayout := k.sameLayout_step event
  intro i env' hi p pa hp
  rw [hlayout.isDeviceRange_eq]
  obtain ⟨e, he, hdevice⟩ := Option.map_eq_some_iff.mp hp
  obtain ⟨env, henv, -, hcases⟩ := traces_step k event i env' p e hi he
  rcases hcases with hsame | ⟨fill, pa', -, hframe, -⟩ | ⟨_, _, _, _, -, -, hgrants⟩
  · refine hk i env henv p pa ?_
    rw [PageTable.backing?, hsame, Option.map_some, hdevice]
  · rw [hframe] at hdevice
    cases hdevice
  · rcases hgrants.device_or hdevice with hwindow | ⟨j, source, q, hsource, hq⟩
    · exact hwindow
    · exact hk j source hsource q pa hq

theorem devicesIn_of_runs {config : Config} {machine : Machine} {scheduler : Scheduler}
    (hboot : boot config machine scheduler = .ok k₀) (hrun : Runs (fun _ _ => True) k₀ k) :
    k.realm.DevicesIn k.realm.memory.machine.pool := by
  refine hrun.invariant (I := fun k => k.realm.DevicesIn k.realm.memory.machine.pool) ?_ ?_
  · intro i env henv
    obtain ⟨generation, hslot⟩ := Registry.slot?_of_env? henv
    cases slot?_boot hboot hslot
  · exact fun k event hk _ => devicesIn_step hk event

/-- From a fresh kernel on a machine that has what it claims, in every state that events lead to and
in which all frames are accounted for, each space stands on its memory. -/
theorem grounded_of_runs {config : Config} {frames : Nat} {windows : List (Nat × Nat)} {log : Log}
    {scheduler : Scheduler}
    (hboot : boot config (freshMachine frames windows 0 [] log) scheduler = .ok k₀)
    (hrun : Runs (fun _ _ => True) k₀ k) (hacc : Accounting k.realm.memory k.registry.tables) {i : Nat}
    {env : Env} (henv : k.registry.env? i = some env) :
    Space.Grounded (k.registry.tablesBut [i]) ⟨k.realm.memory, env.table⟩ := by
  have htables := Registry.tables_perm henv
  refine Space.grounded_of_accounting (hacc.perm htables.symm) (reliable_of_runs hboot hrun)
    (windowsApart_of_runs hboot hrun) fun t ht => ?_
  obtain ⟨j, other, hother, rfl⟩ := Registry.mem_tables.mp (htables.symm.subset ht)
  exact devicesIn_of_runs hboot hrun j other hother

end Kernel

end Exokernel
