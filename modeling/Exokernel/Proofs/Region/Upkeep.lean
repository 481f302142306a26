import Exokernel.Proofs.Region.Books

/-! # Requests keep the balance

The accounts of the frames are books: every request on an address space leaves the frames accounted
for, also when it fails midway. -/

namespace Exokernel

/-! ## Taking a frame -/

/-- Balance, but for one mapping that is counted and has no entry yet. -/
structure Carrying (stray : PhysAddr → Prop) (b : Backing) (m : Memory)
    (tables : List PageTable) : Prop where
  ledger : Ledger m (fun pa => mapsIn tables pa + b.holds pa) (leavesIn tables) stray
  wellFormed : ∀ t ∈ tables, t.WellFormed

variable {stray : PhysAddr → Prop} {rest : List PageTable}

theorem Balanced.carrying {b : Backing} {m : Memory} {tables : List PageTable}
    (h : Balanced stray m tables) (hb : ∀ pa, b ≠ .frame pa) : Carrying stray b m tables := by
  refine ⟨h.ledger.congr ?_ (List.Perm.refl _), h.wellFormed⟩
  intro pa
  rw [Backing.holds, if_neg (hb pa), Nat.add_zero]

theorem Balanced.fresh {m m' : Memory} {fill : Fill} {pa : PhysAddr} {tables : List PageTable}
    (h : Balanced stray m tables) (hfresh : m.fresh? fill = some (pa, m')) :
    Carrying stray (.frame pa) m' tables := by
  obtain ⟨machine, halloc, rfl⟩ := Memory.fresh?_eq_some hfresh
  have hgrant := h.ledger.consistent.grants (Machine.pool_of_alloc? halloc)
  exact ⟨h.ledger.fresh hgrant, h.wellFormed⟩

theorem Balanced.retain {b : Backing} {m : Memory} {tables : List PageTable}
    (h : Balanced stray m tables) (hb : ∀ pa, b = .frame pa → 0 < mapsIn tables pa) :
    Carrying stray b (m.retain b) tables :=
  ⟨h.ledger.retain hb, h.wellFormed⟩

theorem Carrying.release {b : Backing} {m : Memory} {tables : List PageTable}
    (h : Carrying stray b m tables) : Balanced stray (m.release b) tables :=
  ⟨h.ledger.release, h.wellFormed⟩

theorem Balanced.note {m : Memory} {tables : List PageTable} (h : Balanced stray m tables)
    (level : LogLevel) (target text : String) : Balanced stray (m.note level target text) tables :=
  ⟨h.ledger.note level target text, h.wellFormed⟩

/-! ## Putting entries in place -/

/-- The table after an entry is put in place holds the new mapping and owes the one that it
replaces. -/
theorem ledger_insert {m m' : Machine} {refs : RefCounts} {t t' : PageTable} {p : VirtPage}
    {e : PageEntry} {old : Option PageEntry}
    (h : Carrying stray e.backing ⟨m, refs⟩ (t :: rest))
    (hinsert : t.insert m p e = some (old, t', m')) :
    Ledger ⟨m', refs⟩
      (fun pa => mapsIn (t' :: rest) pa + held (old.map PageEntry.backing) pa)
      (leavesIn (t' :: rest)) stray := by
  have hmaps := mapsIn_insert hinsert rest
  rcases PageTable.leafFrames_insert hinsert with ⟨rfl, hleaves⟩ | ⟨frame, halloc, hleaves⟩
  · apply h.ledger.congr hmaps
    rw [leavesIn_cons, leavesIn_cons]
    exact hleaves.append_right _
  · have hgrant := h.ledger.consistent.grants (Machine.pool_of_alloc? halloc)
    apply (h.ledger.allocLeaf hgrant).congr hmaps
    rw [leavesIn_cons, leavesIn_cons]
    exact hleaves.append_right _

theorem ledger_remove {m m' : Machine} {refs : RefCounts} {t t' : PageTable} {p : VirtPage}
    {old : Option PageEntry} (h : Balanced stray ⟨m, refs⟩ (t :: rest))
    (hremove : t.remove m p = (old, t', m')) :
    Ledger ⟨m', refs⟩
      (fun pa => mapsIn (t' :: rest) pa + held (old.map PageEntry.backing) pa)
      (leavesIn (t' :: rest)) stray := by
  have hmaps := mapsIn_remove (h.wellFormed t List.mem_cons_self) hremove rest
  have hleaves := PageTable.leafFrames_remove t m p
  rw [hremove] at hleaves
  rw [leavesIn_cons]
  rcases hleaves with ⟨rfl, hperm⟩ | ⟨frame, rfl, hperm⟩
  · apply h.ledger.congr hmaps
    rw [leavesIn_cons]
    exact hperm.append_right _
  · have hbefore : (frame :: (t'.leafFrames ++ leavesIn rest)).Perm (leavesIn (t :: rest)) := by
      rw [leavesIn_cons]
      exact (hperm.append_right _).symm
    exact (h.ledger.congr hmaps hbefore).freeLeaf

theorem Carrying.materialise {m : Memory} {t : PageTable} {p : VirtPage} {fill : Fill}
    {flags : PageFlags} {pa : PhysAddr} (h : Carrying stray (.frame pa) m (t :: rest))
    (hlookup : t.lookup p = some ⟨.lazy fill, flags⟩) :
    Balanced stray m (t.modify p (fun e => { e with backing := .frame pa }) :: rest) := by
  refine ⟨h.ledger.congr (mapsIn_materialise hlookup pa rest) ?_, ?_⟩
  · rw [leavesIn_cons, leavesIn_cons]
    exact (PageTable.leafFrames_modify t p _).append_right _
  · intro t' ht'
    rcases List.mem_cons.mp ht' with rfl | ht'
    · exact (h.wellFormed t List.mem_cons_self).modify p _
    · exact h.wellFormed t' (List.mem_cons_of_mem _ ht')

theorem Balanced.close {m : Memory} {t : PageTable} (h : Balanced stray m (t :: rest))
    (hnone : ∀ p, t.lookup p = none) : Balanced stray m rest := by
  have hleaves : t.leafFrames = [] := (h.wellFormed t List.mem_cons_self).leafFrames_eq_nil hnone
  refine ⟨h.ledger.congr ?_ ?_, fun t ht => h.wellFormed t (List.mem_cons_of_mem _ ht)⟩
  · intro pa
    rw [mapsIn_cons, PageTable.mapCount_eq_zero hnone, Nat.zero_add]
  · rw [leavesIn_cons, hleaves, List.nil_append]

/-! ## The accounts as books -/

/-- Balance, or balance but for the mapping that is carried. -/
def Owing (stray : PhysAddr → Prop) : Record
  | none => Balanced stray
  | some b => Carrying stray b

theorem owing_of_ledger {b : Option Backing} {m : Memory} {tables : List PageTable}
    (h : Ledger m (fun pa => mapsIn tables pa + held b pa) (leavesIn tables) stray)
    (hwf : ∀ t ∈ tables, t.WellFormed) : Owing stray b m tables := by
  cases b with
  | none =>
      simp only [held_none, Nat.add_zero] at h
      exact ⟨h, hwf⟩
  | some b =>
      simp only [held_some] at h
      exact ⟨h, hwf⟩

theorem books_owing : Books (Owing stray) where
  wellFormed := by
    rintro (_ | b) m tables h
    · exact Balanced.wellFormed h
    · exact Carrying.wellFormed h
  perm := by
    rintro (_ | b) m tables tables' h hperm
    · exact Balanced.perm h hperm
    · refine ⟨h.ledger.congr (fun pa => ?_) (leavesIn_perm hperm),
        fun t ht => h.wellFormed t (hperm.mem_iff.mp ht)⟩
      rw [mapsIn_perm hperm]
  of_eq := by
    rintro (_ | b) m m' tables h hpool hrefs
    · exact Balanced.of_eq h hpool hrefs
    · exact ⟨h.ledger.of_eq hpool hrefs, h.wellFormed⟩
  update pa f h := ⟨h.ledger.update pa f, h.wellFormed⟩
  carry h hb := Balanced.carrying h hb
  fresh h hfresh := Balanced.fresh h hfresh
  retain h hb := Balanced.retain h hb
  release h := Carrying.release h
  insert h hinsert := by
    refine owing_of_ledger (ledger_insert h hinsert) fun t ht => ?_
    rcases List.mem_cons.mp ht with rfl | ht
    · exact (h.wellFormed _ List.mem_cons_self).insert hinsert
    · exact h.wellFormed t (List.mem_cons_of_mem _ ht)
  remove {m m' refs t t' p old rest} h hremove := by
    refine owing_of_ledger (ledger_remove h hremove) fun t'' ht => ?_
    rcases List.mem_cons.mp ht with rfl | ht
    · have hwf := (h.wellFormed t List.mem_cons_self).remove m p
      rwa [hremove] at hwf
    · exact h.wellFormed t'' (List.mem_cons_of_mem _ ht)
  materialise h hlookup := Carrying.materialise h hlookup
  cons_empty h := Balanced.cons_empty h
  close h hnone := Balanced.close h hnone

/-! ## Requests -/

namespace Space

/-- The entries of the space and of the spaces beside it hold exactly what is handed out. -/
def InBalance (stray : PhysAddr → Prop) (rest : List PageTable) (s : Space) : Prop :=
  Balanced stray s.memory (s.table :: rest)

theorem inBalance_populate (p : VirtPage) : Keeps (InBalance stray rest) (populate p) :=
  books_owing.populate p

theorem inBalance_allocatePage (req : AllocRequest) (p : VirtPage) :
    Keeps (InBalance stray rest) (allocatePage req p) :=
  books_owing.allocatePage req p

theorem inBalance_placeDevice (p : VirtPage) (pa : PhysAddr) (flags : PageFlags) :
    Keeps (InBalance stray rest) (place p ⟨.device pa, flags⟩) :=
  books_owing.placeDevice p pa flags

theorem inBalance_sharePage {s : Space} {rights : MapRights} {p : VirtPage} {b : Backing}
    (h : InBalance stray rest s)
    (hb : ∀ pa, b = .frame pa → 0 < mapsIn (s.table :: rest) pa) :
    InBalance stray rest (stateOf (sharePage rights p b s)) :=
  books_owing.sharePage h hb

theorem inBalance_unmapPage {s : Space} (h : InBalance stray rest s) (p : VirtPage) :
    InBalance stray rest (s.unmapPage p) :=
  books_owing.unmapPage h p

end Space

/-- The entries of two spaces and of the spaces beside them hold exactly what is handed out. -/
def SpacePair.InBalance (stray : PhysAddr → Prop) (rest : List PageTable) (s : SpacePair) : Prop :=
  Balanced stray s.memory (s.source :: s.target :: rest)

end Exokernel
