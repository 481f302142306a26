import Exokernel.Proofs.Realm.Upkeep
import Exokernel.Proofs.Region.SinglePage
import Exokernel.Proofs.Service.Refusals

/-! # The page that comes with a message

The page that a sender offers is given its frame and is mapped where the receiver wants it.  The
receiver may be the sender itself: then both happens in one page table, one after the other. -/

namespace Exokernel.Realm

variable {s t : Realm} {i j : Nat} {source target : Env} {rights : MapRights} {e : RegionError}

/-- The page table that the offered page is mapped in, when it has its frame. -/
def receivingTable (i j : Nat) (source target : Env) (src : VirtPage) (b : Backing) : PageTable :=
  if i = j then source.table.rebase src b else target.table

/-- One page of the environment in the slot `i` was shared with the one in the slot `j`.  The source
page had the entry `o`, and `b` is what backs both pages afterwards. -/
structure PageShared (i j : Nat) (source target : Env) (src dst : VirtPage) (rights : MapRights)
    (o : PageEntry) (b : Backing) (s : Realm) (pair : SpacePair) : Prop where
  found : source.table.lookup src = some o
  backed : b.isLazy = false
  becomes : s.memory.machine.pool.Consistent →
    o.backing.Becomes s.memory.machine.pool pair.memory.machine.pool b
  /-- The target page is mapped, and no other page of the receiver is touched. -/
  target_eq : Space.MapsAt rights dst b (receivingTable i j source target src b) pair.target
  /-- Another sender keeps all its entries, but the source page has its frame. -/
  source_eq : i ≠ j → ∀ q, pair.source.lookup q = (source.table.rebase src b).lookup q

/-- The rights of a word that is not refused are what it says, and it has no bit without a
meaning. -/
theorem eq_ofProt_of_forCopy {raw : UInt32} (h : MapRights.forCopy raw = .ok rights) :
    rights = .ofProt ⟨raw⟩ ∧ Prot.truncate raw = ⟨raw⟩ := by
  rw [MapRights.forCopy, MapRights.decode, Prot.known] at h
  cases hknown : Prot.ofBits? raw with
  | none =>
      rw [hknown] at h
      cases h
  | some p =>
      obtain ⟨rfl, htruncate⟩ := Prot.ofBits?_eq_some_iff.mp hknown
      rw [hknown] at h
      simp only at h
      split at h
      · cases h
      · cases h
        exact ⟨rfl, htruncate⟩

/-! ## Sharing pages of the realm -/

theorem putPair_self (s : Realm) (index : Nat) (memory : Memory) (table : PageTable) :
    s.putPair index index ⟨memory, table, table⟩ = s.putSpace index ⟨memory, table⟩ := by
  rw [putPair, setTable, setTable, modifyEnv_modifyEnv]
  rfl

theorem putPair_of_unchanged (hsource : s.registry.env? i = some source)
    (htarget : s.registry.env? j = some target) :
    s.putPair i j ⟨s.memory, source.table, target.table⟩ = s := by
  rw [putPair]
  change (s.setTable i source.table).setTable j target.table = s
  rw [setTable_self hsource, setTable_self htarget]

theorem shareRegion_of_fault {src dst : PageRange} (hsource : s.registry.env? i = some source)
    (htarget : s.registry.env? j = some target)
    (h : Space.copyFault? s.memory source.table target.table src dst rights = some e) :
    shareRegion i j source target src dst rights s = .error e s := by
  by_cases hij : i = j
  · subst hij
    rw [hsource] at htarget
    cases htarget
    rw [shareRegion_same, onSpace_eq,
      Space.copyWithin_of_fault (s := ⟨s.memory, source.table⟩) h]
    exact congrArg _ (setTable_self hsource)
  · rw [shareRegion_ne hij,
      SpacePair.copyAcross_of_fault (s := ⟨s.memory, source.table, target.table⟩) h]
    exact congrArg _ (putPair_of_unchanged hsource htarget)

theorem shareRegion_of_no_fault {src dst : PageRange} (hreliable : s.memory.machine.Reliable)
    (hsource : s.registry.env? i = some source) (htarget : s.registry.env? j = some target)
    (h : Space.copyFault? s.memory source.table target.table src dst rights = none) :
    ∃ t, shareRegion i j source target src dst rights s = .ok () t := by
  by_cases hij : i = j
  · subst hij
    rw [hsource] at htarget
    cases htarget
    obtain ⟨space, hdone⟩ :=
      Space.copyWithin_of_no_fault (s := ⟨s.memory, source.table⟩) hreliable h
    rw [shareRegion_same, onSpace_eq, hdone]
    exact ⟨_, rfl⟩
  · obtain ⟨pair, hdone⟩ :=
      SpacePair.copyAcross_of_no_fault (s := ⟨s.memory, source.table, target.table⟩) hreliable h
    rw [shareRegion_ne hij, hdone]
    exact ⟨_, rfl⟩

/-- What sharing one page comes to when it is carried out. -/
theorem pageShared_of_shareRegion {src dst : VirtPage}
    (h : shareRegion i j source target (.one src) (.one dst) rights s = .ok () t) :
    ∃ o b pair, PageShared i j source target src dst rights o b s pair ∧ t = s.putPair i j pair := by
  by_cases hij : i = j
  · subst hij
    rw [shareRegion_same, onSpace_eq] at h
    split at h
    · next space hcopy =>
      cases h
      obtain ⟨o, b, ho, hlazy, hmaps, hbecomes⟩ := Space.copyWithin_one_eq_ok hcopy
      refine ⟨o, b, ⟨space.memory, space.table, space.table⟩, ?_, (putPair_self _ _ _ _).symm⟩
      refine ⟨ho, hlazy, hbecomes, ?_, fun hne => absurd rfl hne⟩
      rw [receivingTable, if_pos rfl]
      exact hmaps
    · cases h
  · rw [shareRegion_ne hij] at h
    split at h
    · next pair hcopy =>
      cases h
      obtain ⟨o, b, ho, hlazy, hsource, hmaps, hbecomes⟩ := SpacePair.copyAcross_one_eq_ok hcopy
      refine ⟨o, b, pair, ⟨ho, hlazy, hbecomes, ?_, fun _ => hsource⟩, rfl⟩
      rw [receivingTable, if_neg hij]
      exact hmaps
    · cases h

/-! ## Delivery -/

theorem env?_deliver_putPair (htarget : s.registry.env? j = some target) (pair : SpacePair)
    (delivery : Delivery) :
    ((s.putPair i j pair).deliver j delivery).registry.env? j =
      some { target with
        table := pair.target, mailbox := ⟨none, delivery⟩, status := .runnable } := by
  rw [deliver, env?_modifyEnv, if_pos rfl, env?_putPair, if_pos rfl, htarget]
  rfl

theorem PageShared.exists_backing {src dst : VirtPage} {o : PageEntry} {b : Backing}
    {pair : SpacePair} (h : PageShared i j source target src dst rights o b s pair)
    (hsource : s.registry.env? i = some source) (delivery : Delivery) :
    ∃ after, ((s.putPair i j pair).deliver j delivery).registry.env? i = some after ∧
      after.table.backing? src = some b := by
  have hrebased : (source.table.rebase src b).backing? src = some b := by
    rw [PageTable.backing?, PageTable.lookup_rebase, if_pos rfl, h.found]
    rfl
  by_cases hij : i = j
  · subst hij
    refine ⟨_, env?_deliver_putPair hsource pair delivery, ?_⟩
    change pair.target.backing? src = some b
    rw [PageTable.backing?, h.target_eq, receivingTable, if_pos rfl]
    split
    · rfl
    · exact hrebased
  · refine ⟨{ source with table := pair.source }, ?_, ?_⟩
    · rw [deliver, env?_modifyEnv, if_neg (Ne.symm hij), env?_putPair, if_neg (Ne.symm hij),
        if_pos rfl, hsource]
      rfl
    · change pair.source.backing? src = some b
      rw [PageTable.backing?, h.source_eq hij]
      exact hrebased

end Exokernel.Realm
