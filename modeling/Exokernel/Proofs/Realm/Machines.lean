import Exokernel.Proofs.Ipc.Sending
import Exokernel.Proofs.Memory.Reliability

/-! # What calls do to the machine

Requests hand out frames, take them back, change bytes and write to the log, and that is all they do
to the machine.  What these four keep therefore outlasts every request, carried out or refused. -/

namespace Exokernel

variable {P : Machine → Prop} (hP : Machine.Lasting P)

/-! ## One space -/

namespace Space

/-- The machine that a space lives on has the property. -/
abbrev On (P : Machine → Prop) (s : Space) : Prop := P s.memory.machine

include hP

theorem lasting_place (p : VirtPage) (e : PageEntry) : Keeps (On P) (place p e) := by
  intro s hs
  cases h : place p e s with
  | ok _ s' =>
      obtain ⟨old, machine, hinsert, hmemory⟩ := place_eq_ok h
      have hmachine : P machine := by
        rcases PageTable.leafFrames_insert hinsert with ⟨rfl, -⟩ | ⟨frame, halloc, -⟩
        · exact hs
        · exact hP.alloc _ _ _ halloc hs
      change P s'.memory.machine
      rcases hmemory with hmemory | ⟨b, hmemory⟩
      · rw [hmemory]
        exact hmachine
      · rw [hmemory]
        exact hP.release (m := ⟨machine, s.memory.refs⟩) hmachine b
  | error x s' =>
      rw [(place_eq_error h).1]
      exact hP.release hs _

theorem lasting_populate (p : VirtPage) : Keeps (On P) (populate p) := by
  intro s hs
  rcases populate_cases p s with heq | ⟨fill, flags, pa, memory, text, -, hfresh, heq⟩
  · rw [heq]
    exact hs
  · rw [heq]
    exact hP.relog _ _ (hP.fresh? hfresh hs)

theorem lasting_allocatePage (req : AllocRequest) (p : VirtPage) :
    Keeps (On P) (allocatePage req p) := by
  rintro ⟨memory, table⟩ hs
  simp only [allocatePage]
  split
  · exact lasting_place hP p _ _ hs
  · split
    · exact hs
    · next pa memory' hfresh =>
      exact lasting_place hP p _ ⟨memory', table⟩ (hP.fresh? hfresh hs)

theorem lasting_sharePage (rights : MapRights) (p : VirtPage) (b : Backing) :
    Keeps (On P) (sharePage rights p b) := by
  intro s hs
  rw [sharePage_eq_place]
  apply lasting_place hP
  change P (s.memory.retain b).machine
  rw [Memory.machine_retain]
  exact hs

theorem lasting_unmapPage (s : Space) (p : VirtPage) (hs : On P s) : On P (s.unmapPage p) := by
  obtain ⟨⟨machine, refs⟩, table⟩ := s
  have hmachine : P (table.remove machine p).2.2 := by
    rcases PageTable.leafFrames_remove table machine p with ⟨heq, -⟩ | ⟨frame, heq, -⟩
    · rw [heq]
      exact hs
    · rw [heq]
      exact hP.free _ _ hs
  simp only [unmapPage]
  generalize table.remove machine p = result at hmachine
  obtain ⟨_ | old, table', machine'⟩ := result
  · exact hmachine
  · exact hP.release (m := ⟨machine', refs⟩) hmachine _

theorem lasting_unmapAll (s : Space) (hs : On P s) : On P s.unmapAll := by
  rw [unmapAll]
  exact keeps_foldl_unmapPage (I := On P) (lasting_unmapPage hP) hs

theorem lasting_copyWithin (src dst : PageRange) (rights : MapRights) :
    Keeps (On P) (copyWithin src dst rights) := by
  intro s hs
  have hpopulated : On P (stateOf (populateAll src.toList s)) :=
    keeps_populateAll (fun p _ => lasting_populate hP p) s hs
  apply stateOf_copyWithin (I := On P) hs
  · exact fun _ => hpopulated
  · intro s₁ hpopulate _
    rw [hpopulate] at hpopulated
    exact keeps_sharePages (fun x _ => lasting_sharePage hP rights x.1 x.2) s₁ hpopulated
  · exact fun _ _ hu => hP.relog _ _ hu

end Space

/-! ## The realm -/

namespace SpacePair

include hP in
theorem lasting_copyAcross (src dst : PageRange) (rights : MapRights) :
    Keeps (fun s => P s.memory.machine) (copyAcross src dst rights) := by
  intro s hs
  have hpopulated : Space.On P (stateOf (Space.populateAll src.toList ⟨s.memory, s.source⟩)) :=
    Space.keeps_populateAll (fun p _ => Space.lasting_populate hP p) ⟨s.memory, s.source⟩ hs
  apply stateOf_copyAcross (I := fun s => P s.memory.machine) hs
  · rintro - _ rfl
    exact hpopulated
  · rintro s₁ hpopulate - _ rfl
    rw [hpopulate] at hpopulated
    exact Space.keeps_sharePages (fun x _ => Space.lasting_sharePage hP rights x.1 x.2)
      ⟨s₁.memory, s.target⟩ hpopulated
  · exact fun _ _ hu => hP.relog _ _ hu

end SpacePair

namespace Realm

variable {s t : Realm}

/-- The machine of the realm has the property. -/
abbrev On (P : Machine → Prop) (s : Realm) : Prop := P s.memory.machine

theorem lasting_onSpace {α : Type} {x : SpaceM α} (index : Nat) (env : Env)
    (hx : Keeps (Space.On P) x) (hs : s.On P) : On P (stateOf (onSpace index env x s)) := by
  rw [stateOf_onSpace]
  exact hx ⟨s.memory, env.table⟩ hs

include hP

theorem On.of_sameButLog (hs : s.On P) (h : s.SameButLog t) : t.On P := by
  rw [On, h.machine_eq]
  exact hP.relog _ _ hs

theorem lasting_shareRegion (i j : Nat) (source target : Env) (src dst : PageRange)
    (rights : MapRights) (hs : s.On P) :
    On P (stateOf (shareRegion i j source target src dst rights s)) := by
  by_cases hij : i = j
  · subst hij
    rw [shareRegion_same]
    exact lasting_onSpace i source (Space.lasting_copyWithin hP src dst rights) hs
  · rw [stateOf_shareRegion_ne hij]
    exact SpacePair.lasting_copyAcross hP src dst rights ⟨s.memory, source.table, target.table⟩ hs

theorem lasting_endEnv (index : Nat) (actor : Option EnvId) (trace : Bool) (hs : s.On P) :
    On P (s.endEnv index actor trace).2 := by
  rcases s.endEnv_cases index actor trace with ⟨-, hsame⟩ | ⟨env, registry, -, hlog⟩
  · rw [hsame]
    exact hs
  · have hunmapped := Space.lasting_unmapAll hP ⟨s.memory, env.table⟩ hs
    generalize Space.unmapAll ⟨s.memory, env.table⟩ = space at hunmapped hlog
    exact On.of_sameButLog hP (s := { s with registry, memory := space.memory }) hunmapped hlog

theorem lasting_trySend (sender : Nat) (request : SendRequest) (hs : s.On P) :
    On P (stateOf (trySend sender request s)) := by
  have houtcome := sendOutcome_trySend sender request s
  generalize trySend sender request s = result at houtcome
  cases houtcome with
  | refused e => exact hs
  | alone _ _ _ _ hlog => exact On.of_sameButLog hP (s := s.deliver _ _) hs hlog
  | @stuck receiver source target _ _ src dst rights _ _ _ _ _ _ _ _ _ _ hshare =>
      have hshared := lasting_shareRegion hP sender receiver source target (.one src.page)
        (.one dst) rights hs
      rwa [hshare] at hshared
  | @withPage receiver source target _ _ src dst rights t _ _ _ _ _ _ _ _ _ hshare hlog =>
      have hshared := lasting_shareRegion hP sender receiver source target (.one src.page)
        (.one dst) rights hs
      rw [hshare] at hshared
      exact On.of_sameButLog hP (s := t.deliver _ _) hshared hlog

theorem lasting_receive (index : Nat) (request : RecvRequest) (hs : s.On P) :
    On P (stateOf (receive index request s)) := by
  rcases receive_cases index request s with hsame | hlog
  · rw [hsame]
    exact hs
  · exact On.of_sameButLog hP (s := s.modifyEnv index (waitFor request)) hs hlog

end Realm

/-! ## Calls -/

include hP in
theorem Service.Effect.lasting {caller : Caller} {args : Args} {call : Syscall} {s t : Realm}
    (heffect : Effect caller args s call t) (hs : s.On P) : t.On P := by
  have hpopulate : ∀ p, Keeps (Space.On P) (Space.populate p) := Space.lasting_populate hP
  cases heffect with
  | same => exact hs
  | print =>
      refine keeps_writeChunks (I := Realm.On P) ?_ (fun _ _ hu => hu) _ _ s hs
      intro u env start length hu _
      exact Realm.lasting_onSpace _ env (Space.keeps_readBytes hpopulate start length) hu
  | @convict t hlog => exact Realm.On.of_sameButLog hP (t := t) hs hlog
  | readChar => exact hs
  | @exit t _ hlog => exact Realm.On.of_sameButLog hP (t := t) hs hlog
  | destroy _ _ hlog => exact Realm.lasting_endEnv hP _ _ _ (Realm.On.of_sameButLog hP hs hlog)
  | alloc =>
      apply Realm.lasting_onSpace _ _ _ hs
      exact Space.keeps_allocateRegion (fun p _ => Space.lasting_allocatePage hP _ p)
        fun _ _ _ _ hu => hP.relog _ _ hu
  | share => exact Realm.lasting_shareRegion hP _ _ _ _ _ _ _ hs
  | device =>
      apply Realm.lasting_onSpace _ _ _ hs
      exact Space.keeps_mapDeviceRegion (fun p _ _ => Space.lasting_place hP p _) _
  | unmap =>
      apply Realm.lasting_onSpace _ _ _ hs
      exact Keeps.update fun u hu =>
        Space.keeps_foldl_unmapPage (I := Space.On P) (Space.lasting_unmapPage hP) hu
  | @fork env child registry _ _ _ hlog =>
      exact Realm.On.of_sameButLog hP (s := { s with registry }.modifyEnv child _) hs hlog
  | setStatus => exact hs
  | setUpcall => exact hs
  | send => exact Realm.lasting_trySend hP _ _ hs
  | receive => exact Realm.lasting_receive hP _ _ hs

end Exokernel
