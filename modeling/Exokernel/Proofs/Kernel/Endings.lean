import Exokernel.Proofs.Kernel.Accounts
import Exokernel.Proofs.Region.Reading
import Exokernel.Proofs.Region.Removal
import Exokernel.Proofs.Service.Deeds

/-! # What an environment leaves behind

An environment that ends, at once or when its own call is over, gives back the frames of its leaf
tables and those frames that it alone had mapped.  What others map, too, stays with them. -/

namespace Exokernel

open Finset

namespace Realm

variable {s s' : Realm} {index : Nat} {env : Env} {pa : PhysAddr}

/-- The frames that an environment has mapped and no other one has. -/
def soleFrames (s : Realm) (index : Nat) (env : Env) : Finset PhysAddr :=
  {pa ∈ env.table.frames | mapsIn (s.registry.tablesBut [index]) pa = 0}

/-- The environment in a slot has ended, and all that it alone held has gone back. -/
structure GivesBack (s : Realm) (index : Nat) (env : Env) (s' : Realm) : Prop where
  vacant : s'.registry.env? index = none
  others : ∀ i, i ≠ index → s'.registry.slot? i = s.registry.slot? i
  sameBytes : s.memory.machine.pool.SameBytes s'.memory.machine.pool
  count_eq : ∀ pa, s'.memory.refs.count pa + env.table.mapCount pa = s.memory.refs.count pa
  back_iff : ∀ pa, pa ∈ s.memory.machine.pool.returned s'.memory.machine.pool ↔
    pa ∈ env.table.leafFrames ∨ pa ∈ s.soleFrames index env
  freeFrames_eq : s'.memory.machine.freeFrames =
    s.memory.machine.freeFrames + env.table.tablePages + #(s.soleFrames index env)
  accounting : Accounting s'.memory s'.registry.tables

theorem tables_endEnv (henv : s.registry.env? index = some env) (actor : Option EnvId) (trace : Bool) :
    (s.endEnv index actor trace).2.registry.tables = s.registry.tablesBut [index] := by
  rw [Registry.tables, ← Registry.tablesBut_cons_of_none (vacated_of_endEnv henv actor trace).1]
  refine Registry.tablesBut_congr (s.capacity_endEnv index actor trace) fun i hi => ?_
  have hother := s.slot?_endEnv index actor trace i
  rw [if_neg fun heq => hi (by simp [heq])] at hother
  exact congrArg (Option.map Env.table) (congrArg (Option.bind · Slot.env) hother)

/-- A frame goes back if it holds a leaf table of the space that is gone, or if that space alone had
it mapped. -/
theorem mem_returned_of_gone {stray : PhysAddr → Prop} {m m' : Memory} {t : PageTable}
    {rest : List PageTable} (h : Balanced stray m (t :: rest)) (h' : Balanced stray m' rest)
    (hsize : m'.machine.pool.ram.size = m.machine.pool.ram.size) :
    pa ∈ m.machine.pool.returned m'.machine.pool ↔
      pa ∈ t.leafFrames ∨ (pa ∈ t.frames ∧ mapsIn rest pa = 0) := by
  have hnodup := h.ledger.leaves_nodup
  rw [leavesIn_cons, List.nodup_append] at hnodup
  rw [h.mem_returned_iff h' hsize mapsIn_le_cons mem_leavesIn_cons, PageTable.mem_frames,
    ← PageTable.mapCount_pos_iff, mapsIn_cons, leavesIn_cons, List.mem_append]
  constructor
  · rintro (⟨hpos, hnone⟩ | ⟨hleaf, hgone⟩)
    · exact Or.inr ⟨by omega, hnone⟩
    · exact Or.inl (hleaf.resolve_right hgone)
  · rintro (hleaf | ⟨hpos, hnone⟩)
    · exact Or.inr ⟨Or.inl hleaf, fun hother => hnodup.2.2 pa hleaf pa hother rfl⟩
    · exact Or.inl ⟨by omega, hnone⟩

theorem card_returned_of_gone {stray : PhysAddr → Prop} {m m' : Memory} {t : PageTable}
    {rest : List PageTable} (h : Balanced stray m (t :: rest)) (h' : Balanced stray m' rest)
    (hsize : m'.machine.pool.ram.size = m.machine.pool.ram.size) :
    #(m.machine.pool.returned m'.machine.pool) =
      t.tablePages + #{pa ∈ t.frames | mapsIn rest pa = 0} := by
  have hreturned : m.machine.pool.returned m'.machine.pool =
      t.leafFrames.toFinset ∪ {pa ∈ t.frames | mapsIn rest pa = 0} := by
    ext pa
    rw [mem_returned_of_gone h h' hsize, mem_union, List.mem_toFinset, mem_filter]
  have hapart : Disjoint t.leafFrames.toFinset {pa ∈ t.frames | mapsIn rest pa = 0} := by
    rw [disjoint_left]
    intro pa hleaf hsole
    rw [List.mem_toFinset] at hleaf
    rw [mem_filter, PageTable.mem_frames, ← PageTable.mapCount_pos_iff] at hsole
    have hunmapped := h.ledger.leaves_unmapped pa (by
      rw [leavesIn_cons]
      exact List.mem_append_left _ hleaf)
    rw [mapsIn_cons] at hunmapped
    omega
  have hnodup := h.ledger.leaves_nodup
  rw [leavesIn_cons, List.nodup_append] at hnodup
  rw [hreturned, card_union_of_disjoint hapart, List.toFinset_card_of_nodup hnodup.1,
    PageTable.length_leafFrames]

theorem givesBack_endEnv (h : Accounting s.memory s.registry.tables)
    (henv : s.registry.env? index = some env) (actor : Option EnvId) (trace : Bool) :
    s.GivesBack index env (s.endEnv index actor trace).2 := by
  have hbooked : Booked (Owing (strays s.memory s.registry.tables)) s := h.balanced
  have hended := books_owing.endEnv hbooked index actor trace
  have hleft := tables_endEnv henv actor trace
  have hbytes := s.sameBytes_endEnv index actor trace
  have hclaims := lasting_endEnv (Machine.lasting_overclaim s.memory.machine.overclaim) index actor
    trace (s := s) rfl
  have hslot := s.slot?_endEnv index actor trace
  obtain ⟨hvacant, -⟩ := vacated_of_endEnv henv actor trace
  generalize (s.endEnv index actor trace).2 = s' at hended hleft hbytes hclaims hslot hvacant
  have hbefore := h.balanced.perm (Registry.tables_perm henv).symm
  have hafter : Balanced (strays s.memory s.registry.tables) s'.memory
      (s.registry.tablesBut [index]) := hleft ▸ hended
  refine ⟨hvacant, fun i hi => (hslot i).trans (if_neg (Ne.symm hi)), hbytes, fun pa => ?_,
    fun pa => ?_, ?_, hended.accounting⟩
  · rw [hafter.ledger.count_eq, hbefore.ledger.count_eq, mapsIn_cons, Nat.add_comm]
  · rw [mem_returned_of_gone hbefore hafter hbytes.size_eq, soleFrames, mem_filter]
  · have hframes := FramePool.freeFrames_eq_add_returned h.pool hafter.ledger.consistent
      (hbefore.free_subset hafter hbytes.size_eq mapsIn_le_cons mem_leavesIn_cons)
    rw [card_returned_of_gone hbefore hafter hbytes.size_eq] at hframes
    rw [Machine.freeFrames, Machine.freeFrames, hframes, hclaims, soleFrames]
    omega

theorem GivesBack.of_modifyEnv {f : Env → Env} (hf : (f env).table = env.table)
    (h : (s.modifyEnv index f).GivesBack index (f env) s') : s.GivesBack index env s' := by
  have hsole : (s.modifyEnv index f).soleFrames index (f env) = s.soleFrames index env := by
    rw [soleFrames, soleFrames, hf]
    simp only [modifyEnv, Registry.tablesBut_modify (List.mem_singleton_self index)]
  refine ⟨h.vacant, fun i hi => ?_, h.sameBytes, fun pa => hf ▸ h.count_eq pa, fun pa => ?_, ?_,
    h.accounting⟩
  · refine (h.others i hi).trans ((Registry.slot?_modify _ _ _ _).trans (if_neg (Ne.symm hi)))
  · rw [← hf, ← hsole]
    exact h.back_iff pa
  · rw [← hf, ← hsole]
    exact h.freeFrames_eq

theorem GivesBack.of_sameButLog {t : Realm} (hlog : s.SameButLog t) (h : t.GivesBack index env s') :
    s.GivesBack index env s' := by
  have hsole : t.soleFrames index env = s.soleFrames index env := by
    rw [soleFrames, soleFrames, hlog.registry_eq]
  have hfree : t.memory.machine.freeFrames = s.memory.machine.freeFrames := by
    rw [Machine.freeFrames, Machine.freeFrames, hlog.pool_eq, hlog.overclaim_eq]
  refine ⟨h.vacant, fun i hi => ?_, ?_, fun pa => ?_, fun pa => ?_, ?_, h.accounting⟩
  · rw [h.others i hi, hlog.registry_eq]
  · rw [← hlog.pool_eq]
    exact h.sameBytes
  · rw [h.count_eq, hlog.refs_eq]
  · rw [← hlog.pool_eq, ← hsole]
    exact h.back_iff pa
  · rw [h.freeFrames_eq, hfree, hsole]

theorem GivesBack.setCurrent (h : s.GivesBack index env s') (current : Option Nat) :
    s.GivesBack index env { s' with registry := s'.registry.setCurrent current } :=
  ⟨h.vacant, h.others, h.sameBytes, h.count_eq, h.back_iff, h.freeFrames_eq, h.accounting⟩

theorem givesBack_settle (h : Accounting s.memory s.registry.tables)
    (henv : s.registry.env? index = some env) (hdying : env.status = .dying) (config : Config)
    (id : EnvId) (word : Option Int64) : s.GivesBack index env (Kernel.settle s config index id word) := by
  cases word with
  | none =>
      rw [Kernel.settle_of_dying henv hdying]
      exact givesBack_endEnv h henv _ _
  | some w =>
      let word : Env → Env := fun e => { e with frame := e.frame.setResult w }
      have hworded : (s.modifyEnv index word).registry.env? index = some (word env) := by
        rw [modifyEnv, Registry.env?_modify, if_pos rfl, henv]
        rfl
      have hends : ((s.modifyEnv index word).registry.env? index).any (·.status == .dying) = true := by
        rw [hworded, Option.any_some, show (word env).status = .dying from hdying]
        rfl
      have hacc : Accounting (s.modifyEnv index word).memory (s.modifyEnv index word).registry.tables :=
        (InBalance.modifyEnv (f := word) h.balanced index fun _ => rfl).accounting
      have hsettle : Kernel.settle s config index id (some w) =
          ((s.modifyEnv index word).endEnv index (some id) config.traceEnvs).2 := if_pos hends
      rw [hsettle]
      exact .of_modifyEnv rfl (givesBack_endEnv hacc hworded _ _)

end Realm

/-! ## Removal, page by page and as a whole -/

/-- Removal gives back exactly what was held: by some pages of a space, by all of them, and by an
environment that ends. -/
theorem removal_gives_back :
    (∀ (rest : List PageTable) (s : Space), Accounting s.memory (s.table :: rest) →
      (∀ r : PageRange, s.Removes rest r.toList (s.unmapRegion r) ∧
        (s.unmapRegion r).unmapRegion r = s.unmapRegion r) ∧
      s.unmapAll = s.unmapRegion .whole ∧ (∀ p, s.unmapAll.table.lookup p = none) ∧
      s.unmapAll.table.mappedPages = 0 ∧ s.unmapAll.table.tablePages = 0) ∧
    ∀ (s : Realm) (index : Nat) (env : Env), Accounting s.memory s.registry.tables →
      s.registry.env? index = some env →
      (∀ actor trace, s.GivesBack index env (s.endEnv index actor trace).2) ∧
      (env.status = .dying → ∀ config id word,
        s.GivesBack index env (Kernel.settle s config index id word)) := by
  constructor
  · intro rest s h
    have hwf := h.tables_wellFormed s.table List.mem_cons_self
    have hnone := Space.leafList_unmapAll hwf
    refine ⟨fun r => ⟨Space.removes_of_accounting h r.toList, Space.unmapRegion_unmapRegion hwf r⟩,
      Space.unmapAll_eq hwf, Space.lookup_unmapAll hwf, ?_, ?_⟩
    · rw [PageTable.mappedPages, hnone]
      rfl
    · rw [PageTable.tablePages, hnone]
      rfl
  · intro s index env h henv
    exact ⟨Realm.givesBack_endEnv h henv, Realm.givesBack_settle h henv⟩

namespace Kernel

def sharedRealm : Realm := (forkedKernel.step shareCall).realm

theorem inBalance_sharedRealm : Realm.InBalance (fun _ => False) sharedRealm := by
  have hforked : Realm.InBalance (fun _ => False) forkedKernel.realm := by
    refine inBalance_step (inBalance_step (inBalance_step (inBalance_step
      (inBalance_boot boot_smallKernel) ?_) ?_) ?_) ?_
    · exact not_copiesWithin_of_not_calls fun _ _ _ => id
    · exact not_copiesWithin_of_not_calls fun _ _ _ => id
    · exact not_copiesWithin_of_ne (by decide)
    · exact not_copiesWithin_of_ne (by decide)
  exact inBalance_step hforked not_copiesWithin_shareCall

/-- The child ends, it unmaps one of the shared pages, or it ends when its call is over. -/
theorem removal_gives_back_shared :
    ∃ env, sharedRealm.registry.env? 1 = some env ∧
      sharedRealm.GivesBack 1 env (sharedRealm.endEnv 1 none false).2 ∧
      sharedRealm.memory.refs.count (FramePool.ramAddr 0) = 2 ∧
      Space.Removes (sharedRealm.registry.tablesBut [1]) (PageRange.one 5).toList
        ⟨sharedRealm.memory, env.table⟩ (Space.unmapRegion ⟨sharedRealm.memory, env.table⟩ (.one 5)) ∧
      (sharedRealm.modifyEnv 1 fun e => { e with status := .dying }).GivesBack 1
        { env with status := .dying } (Kernel.settle
          (sharedRealm.modifyEnv 1 fun e => { e with status := .dying }) ⟨4, false, false, none⟩ 1
            env.id none) := by
  have hoccupied : (sharedRealm.registry.env? 1).isSome = true := by decide +kernel
  obtain ⟨env, henv⟩ := Option.isSome_iff_exists.mp hoccupied
  have hacc := inBalance_sharedRealm.accounting
  let dying : Env → Env := fun e => { e with status := .dying }
  have hdying : (sharedRealm.modifyEnv 1 dying).registry.env? 1 = some (dying env) := by
    rw [Realm.modifyEnv, Registry.env?_modify, if_pos rfl, henv]
    rfl
  have hdyingAcc := (inBalance_sharedRealm.modifyEnv (f := dying) 1 fun _ => rfl).accounting
  have hshared : sharedRealm.memory.refs.count (FramePool.ramAddr 0) = 2 := by decide +kernel
  refine ⟨env, henv, (removal_gives_back.2 sharedRealm 1 env hacc henv).1 none false, hshared, ?_, ?_⟩
  · exact ((removal_gives_back.1 _ ⟨sharedRealm.memory, env.table⟩
      (hacc.perm (Registry.tables_perm henv).symm)).1 (.one 5)).1
  · exact (removal_gives_back.2 _ 1 (dying env) hdyingAcc hdying).2 rfl _ _ _

end Kernel

end Exokernel
