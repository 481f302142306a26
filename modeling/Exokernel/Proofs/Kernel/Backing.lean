import Exokernel.Proofs.Kernel.Atomicity
import Exokernel.Proofs.Kernel.Provenance
import Exokernel.Proofs.Region.Supply

/-! # What is mapped is there

RAM and the device windows stay where they are, and every entry comes from somewhere: it has a frame
that was fresh at one time, or a device page inside a window, or what another page is mapped to.  So
the bytes of all that is mapped stay within reach, also where the counts of frames went wrong. -/

namespace Exokernel

variable {pool next : FramePool} {m : Memory} {pa : PhysAddr}

theorem PhysAddr.isPageAligned_advance {start : Nat} {base : PhysAddr}
    (hbase : PhysAddr.aligned? start = some base) (n : Nat) :
    isPageAligned (base.advance n).raw = true := by
  rw [PhysAddr.aligned?] at hbase
  split at hbase
  · next hstart =>
    cases hbase
    rw [isPageAligned_iff] at hstart ⊢
    simp only [PhysAddr.advance, pageSize] at hstart ⊢
    omega
  · cases hbase

namespace Backing.Within

theorem of_takes {writes : List ((PhysAddr × Nat) × UInt8)} {fill : Fill}
    (h : m.Takes pool writes fill pa) : Within pool (.frame pa) := by
  obtain ⟨m₁, m₂, m₃, hbefore, hfresh, -, hafter, hbytes⟩ := h.drawn
  intro q hq
  rw [hbytes.frame_eq]
  exact of_drawn ⟨m₁, m₂, hbefore, hfresh, hafter⟩ q hq

theorem of_isDeviceRange {start : Nat} {base : PhysAddr} (hbase : PhysAddr.aligned? start = some base)
    (n : Nat) (h : pool.isDeviceRange (base.advance n) pageSize = true) :
    Within pool (.device (base.advance n)) := by
  intro q hq
  cases hq
  exact FramePool.isSome_frame?_of_isDeviceRange (PhysAddr.isPageAligned_advance hbase n) h

end Backing.Within

/-- The bytes of all that the environments have mapped are within reach in a pool. -/
def Realm.BackedBy (pool : FramePool) (s : Realm) : Prop :=
  ∀ i env, s.registry.env? i = some env → env.table.BackedBy pool

variable {s : Realm}

/-- What a call grants is within reach, if what was mapped before it is. -/
theorem Service.Grants.within {caller : Nat} {args : Args} {i : Nat} {env : Env} {p : VirtPage}
    {e : PageEntry} {call : Syscall} (h : Grants s pool caller args i env p e call)
    (hlayout : s.memory.machine.pool.SameLayout pool) (hs : s.BackedBy s.memory.machine.pool) :
    e.backing.Within pool := by
  have hshared : ∀ {j source rights settled target q o}, s.registry.env? j = some source →
      Space.SharedEntry ⟨s.memory, source.table⟩ settled pool rights env.table target q p o e →
        e.backing.Within pool := by
    intro j source rights settled target q o hsource hentry
    rcases hentry.origin with hsame | ⟨fill, pa, -, hframe, htakes⟩
    · rw [← hsame]
      exact hlayout.within_iff.mpr (hs j source hsource q o hentry.before)
    · rw [show e.backing = .frame pa from hframe]
      exact .of_takes htakes
  cases h with
  | @alloc r req before after space _ _ _ _ hpages hfresh =>
      have hkept := Space.keeps_allocatePages
        (I := Space.On fun m => s.memory.machine.pool.SameLayout m.pool)
        (fun p (_ : p ∈ before) => Space.lasting_allocatePage (Machine.lasting_sameLayout _) req p)
        ⟨s.memory, env.table⟩ (.refl _)
      rw [hpages] at hkept
      obtain ⟨-, hentry⟩ := hfresh
      split at hentry
      · rw [hentry]
        exact .lazy _ _
      · obtain ⟨pa, m, hfresh, hframe, -⟩ := hentry
        have htaken := (Machine.lasting_sameLayout _).fresh? hfresh hkept
        rw [hframe, hlayout.within_iff, ← htaken.within_iff]
        exact .of_fresh? hfresh
  | device n _ _ hpa _ _ _ hentry hwindow =>
      rw [hentry, hlayout.within_iff]
      exact .of_isDeviceRange hpa n hwindow
  | share _ _ _ _ _ _ _ hsource _ _ _ hentry => exact hshared hsource hentry
  | send _ hsender _ _ _ _ _ _ hentry => exact hshared hsender hentry

namespace Kernel

variable {k k₀ : Kernel}

theorem sameLayout_step (k : Kernel) (event : Event) :
    k.realm.memory.machine.pool.SameLayout (k.step event).realm.memory.machine.pool :=
  lasting_step (Machine.lasting_sameLayout _) (FramePool.SameLayout.refl _) event

theorem backedBy_step (hk : k.realm.BackedBy k.realm.memory.machine.pool) (event : Event) :
    (k.step event).realm.BackedBy (k.step event).realm.memory.machine.pool := by
  have hlayout := k.sameLayout_step event
  intro i env' hi p e he
  obtain ⟨env, henv, -, hcases⟩ := traces_step k event i env' p e hi he
  rcases hcases with hsame | ⟨fill, pa, -, hframe, htakes⟩ | ⟨_, _, _, _, -, -, hgrants⟩
  · exact hlayout.within_iff.mpr (hk i env henv p e hsame)
  · rw [hframe]
    exact .of_takes htakes
  · exact hgrants.within hlayout hk

theorem backedBy_of_runs {config : Config} {machine : Machine} {scheduler : Scheduler}
    (hboot : boot config machine scheduler = .ok k₀) (hrun : Runs (fun _ _ => True) k₀ k) :
    k.realm.BackedBy k.realm.memory.machine.pool := by
  refine hrun.invariant (I := fun k => k.realm.BackedBy k.realm.memory.machine.pool) ?_ ?_
  · rw [boot] at hboot
    split at hboot
    · cases hboot
    · cases hboot
      intro i env henv
      have hmem := Registry.mem_tables.mpr ⟨i, env, henv, rfl⟩
      rw [Realm.ofMachine, Registry.tables_ofCapacity] at hmem
      cases hmem
  · exact fun k event hk _ => backedBy_step hk event

/-- From a fresh kernel on a machine that has what it claims, in every state that events lead to,
the bytes of all that an environment has mapped are within reach. -/
theorem backed_of_runs {config : Config} {frames : Nat} {windows : List (Nat × Nat)} {log : Log}
    {scheduler : Scheduler}
    (hboot : boot config (freshMachine frames windows 0 [] log) scheduler = .ok k₀)
    (hrun : Runs (fun _ _ => True) k₀ k) {i : Nat} {env : Env} (henv : k.registry.env? i = some env) :
    Space.Backed ⟨k.realm.memory, env.table⟩ :=
  ⟨reliable_of_runs hboot hrun, backedBy_of_runs hboot hrun i env henv⟩

end Kernel

end Exokernel
