import Exokernel.Proofs.Accounting
import Exokernel.Proofs.Region.Loops

/-! # Keeping books

What is on record about the memory and the page tables of all address spaces.  A mapping is counted
before its entry is put in place, and released after its entry is gone; in between the books carry
it. Books that single steps keep, every request on one address space or on two keeps, also when it
fails midway. -/

namespace Exokernel

/-- Books about the memory and some page tables, and the mapping that they carry, if any. -/
abbrev Record := Option Backing → Memory → List PageTable → Prop

/-- Books that are kept by everything that requests are made of. -/
structure Books (Q : Record) : Prop where
  wellFormed : ∀ {b m tables}, Q b m tables → ∀ t ∈ tables, t.WellFormed
  perm : ∀ {b m tables tables'}, Q b m tables → tables'.Perm tables → Q b m tables'
  of_eq : ∀ {b m m' tables}, Q b m tables → m'.machine.pool = m.machine.pool → m'.refs = m.refs →
    Q b m' tables
  update : ∀ {m tables} pa f, Q none m tables → Q none { m with machine := m.machine.update pa f } tables
  /-- What maps no frame needs no count. -/
  carry : ∀ {b m tables}, Q none m tables → (∀ pa, b ≠ .frame pa) → Q (some b) m tables
  fresh : ∀ {m m' tables fill pa}, Q none m tables → m.fresh? fill = some (pa, m') →
    Q (some (.frame pa)) m' tables
  retain : ∀ {b m tables}, Q none m tables → (∀ pa, b = .frame pa → 0 < mapsIn tables pa) →
    Q (some b) (m.retain b) tables
  release : ∀ {b m tables}, Q (some b) m tables → Q none (m.release b) tables
  /-- The entry of a counted mapping is put in place, and the one that it replaces is still
  counted. -/
  insert : ∀ {m m' refs t t' p e old rest}, Q (some e.backing) ⟨m, refs⟩ (t :: rest) →
    t.insert m p e = some (old, t', m') → Q (old.map PageEntry.backing) ⟨m', refs⟩ (t' :: rest)
  remove : ∀ {m m' refs t t' p old rest}, Q none ⟨m, refs⟩ (t :: rest) →
    t.remove m p = (old, t', m') → Q (old.map PageEntry.backing) ⟨m', refs⟩ (t' :: rest)
  materialise : ∀ {m t p fill flags pa rest}, Q (some (.frame pa)) m (t :: rest) →
    t.lookup p = some ⟨.lazy fill, flags⟩ →
    Q none m (t.modify p (fun e => { e with backing := .frame pa }) :: rest)
  /-- A table without entries may come and go. -/
  cons_empty : ∀ {m tables}, Q none m tables → Q none m (.empty :: tables)
  close : ∀ {m t rest}, Q none m (t :: rest) → (∀ p, t.lookup p = none) → Q none m rest

variable {Q : Record} {rest : List PageTable}

namespace Space

/-- The books are in order, with the table of the space and those of the spaces beside it. -/
def Booked (Q : Record) (rest : List PageTable) (s : Space) : Prop :=
  Q none s.memory (s.table :: rest)

theorem lookup_unmapPage {s : Space} (hwf : s.table.WellFormed) (p q : VirtPage) :
    (s.unmapPage p).table.lookup q = if p = q then none else s.table.lookup q := by
  obtain ⟨⟨machine, refs⟩, table⟩ := s
  rw [← PageTable.WellFormed.lookup_remove hwf machine p q]
  simp only [unmapPage]
  split
  · next heq => rw [heq]
  · next heq => rw [heq]

theorem wellFormed_unmapPage {s : Space} (hwf : s.table.WellFormed) (p : VirtPage) :
    (s.unmapPage p).table.WellFormed := by
  obtain ⟨⟨machine, refs⟩, table⟩ := s
  have hremove := PageTable.WellFormed.remove hwf machine p
  simp only [unmapPage]
  split
  · next heq => rwa [heq] at hremove
  · next heq => rwa [heq] at hremove

theorem lookup_foldl_unmapPage (pages : List VirtPage) {s : Space} (hwf : s.table.WellFormed)
    (q : VirtPage) :
    (pages.foldl unmapPage s).table.WellFormed ∧
      (pages.foldl unmapPage s).table.lookup q = if q ∈ pages then none else s.table.lookup q := by
  induction pages generalizing s with
  | nil => exact ⟨hwf, rfl⟩
  | cons p rest ih =>
      obtain ⟨hwf', hlookup⟩ := ih (wellFormed_unmapPage hwf p)
      refine ⟨hwf', ?_⟩
      rw [List.foldl_cons, hlookup, lookup_unmapPage hwf]
      by_cases hq : q ∈ rest
      · simp [hq]
      · by_cases hp : p = q
        · simp [hp]
        · simp [hq, hp, Ne.symm hp]

theorem lookup_unmapAll {s : Space} (hwf : s.table.WellFormed) (q : VirtPage) :
    s.unmapAll.table.lookup q = none := by
  rw [unmapAll, (lookup_foldl_unmapPage _ hwf q).2]
  split
  · rfl
  · next hq =>
    cases hlookup : s.table.lookup q with
    | none => rfl
    | some e =>
        exact absurd (List.mem_map.mpr ⟨(q, e), PageTable.mem_mappings.mpr hlookup, rfl⟩) hq

theorem mem_backings {table : PageTable} {pages : List VirtPage} {b : Backing}
    (h : b ∈ backings table pages) : ∃ p ∈ pages, table.backing? p = some b :=
  List.mem_filterMap.mp h

end Space

namespace SpacePair

/-- The same with the tables of two spaces. -/
def Booked (Q : Record) (rest : List PageTable) (s : SpacePair) : Prop :=
  Q none s.memory (s.source :: s.target :: rest)

end SpacePair

namespace Books

open Space

variable (hQ : Books Q)

include hQ

/-! ## One page -/

theorem note {b : Option Backing} {m : Memory} {tables : List PageTable} (h : Q b m tables)
    (level : LogLevel) (target text : String) : Q b (m.note level target text) tables :=
  hQ.of_eq h rfl rfl

/-- Putting the entry of a counted mapping in place settles the books, and so does finding no room
for it. -/
theorem place {s : Space} {p : VirtPage} {e : PageEntry}
    (h : Q (some e.backing) s.memory (s.table :: rest)) :
    Booked Q rest (stateOf (Space.place p e s)) := by
  obtain ⟨⟨machine, refs⟩, table⟩ := s
  cases hinsert : table.insert machine p e with
  | none =>
      simp only [Space.place, hinsert]
      exact hQ.release h
  | some result =>
      obtain ⟨old, table', machine'⟩ := result
      have hafter := hQ.insert h hinsert
      cases old with
      | none =>
          simp only [Space.place, hinsert]
          exact hafter
      | some old =>
          simp only [Space.place, hinsert]
          exact hQ.release hafter

theorem populate (p : VirtPage) : Keeps (Booked Q rest) (Space.populate p) := by
  rintro ⟨memory, table⟩ h
  simp only [Space.populate]
  split
  · exact h
  · exact h
  · exact h
  · next fill flags hlookup =>
    split
    · exact h
    · next pa memory' hfresh =>
      exact hQ.note (hQ.materialise (hQ.fresh h hfresh) hlookup) _ _ _

theorem allocatePage (req : AllocRequest) (p : VirtPage) :
    Keeps (Booked Q rest) (Space.allocatePage req p) := by
  rintro ⟨memory, table⟩ h
  simp only [Space.allocatePage]
  split
  · exact hQ.place (hQ.carry h nofun)
  · split
    · exact h
    · next pa memory' hfresh => exact hQ.place (hQ.fresh h hfresh)

theorem placeDevice (p : VirtPage) (pa : PhysAddr) (flags : PageFlags) :
    Keeps (Booked Q rest) (Space.place p ⟨.device pa, flags⟩) := by
  intro s h
  exact hQ.place (hQ.carry h nofun)

theorem sharePage {s : Space} {rights : MapRights} {p : VirtPage} {b : Backing}
    (h : Booked Q rest s) (hb : ∀ pa, b = .frame pa → 0 < mapsIn (s.table :: rest) pa) :
    Booked Q rest (stateOf (Space.sharePage rights p b s)) := by
  obtain ⟨memory, table⟩ := s
  simp only [Space.sharePage]
  exact hQ.place (hQ.retain h hb)

theorem unmapPage {s : Space} (h : Booked Q rest s) (p : VirtPage) :
    Booked Q rest (s.unmapPage p) := by
  obtain ⟨⟨machine, refs⟩, table⟩ := s
  cases hremove : table.remove machine p with
  | mk old result =>
  obtain ⟨table', machine'⟩ := result
  have hafter := hQ.remove h hremove
  cases old with
  | none =>
      simp only [Space.unmapPage, hremove]
      exact hafter
  | some old =>
      simp only [Space.unmapPage, hremove]
      exact hQ.release hafter

/-! ## Ranges -/

theorem populateAll (pages : List VirtPage) : Keeps (Booked Q rest) (Space.populateAll pages) :=
  keeps_populateAll fun p _ => hQ.populate p

theorem resolveFault (p : VirtPage) (write : Bool) :
    Keeps (Booked Q rest) (Space.resolveFault p write) :=
  keeps_resolveFault (hQ.populate p) write

theorem readBytes (start length : Nat) : Keeps (Booked Q rest) (Space.readBytes start length) :=
  keeps_readBytes hQ.populate start length

theorem writeBytes (start : Nat) (bytes : List UInt8) :
    Keeps (Booked Q rest) (Space.writeBytes start bytes) :=
  keeps_writeBytes hQ.populate (fun _ pa f h => hQ.update pa f h) start bytes

theorem allocateRegion (r : PageRange) (req : AllocRequest) :
    Keeps (Booked Q rest) (Space.allocateRegion r req) :=
  keeps_allocateRegion (fun p _ => hQ.allocatePage req p) fun _ _ _ _ h => hQ.note h _ _ _

theorem mapDeviceRegion (r : PageRange) (pa : PhysAddr) (rights : MapRights) :
    Keeps (Booked Q rest) (Space.mapDeviceRegion r pa rights) :=
  keeps_mapDeviceRegion (fun p _ pa => hQ.placeDevice p pa _) pa

theorem unmapPages {s : Space} (h : Booked Q rest s) (pages : List VirtPage) :
    Booked Q rest (pages.foldl Space.unmapPage s) :=
  keeps_foldl_unmapPage (I := Booked Q rest) (fun _ p hs => hQ.unmapPage hs p) h

theorem unmapAll {s : Space} (h : Booked Q rest s) : Q none s.unmapAll.memory rest := by
  have hwf := hQ.wellFormed h s.table List.mem_cons_self
  have hafter : Booked Q rest s.unmapAll := by
    rw [Space.unmapAll]
    exact hQ.unmapPages h _
  exact hQ.close hafter (lookup_unmapAll hwf)

/-! ## Copies -/

/-- The frame of the source page is mapped while the one target page is. -/
theorem copyWithin_one (src dst : VirtPage) (rights : MapRights) :
    Keeps (Booked Q rest) (Space.copyWithin (.one src) (.one dst) rights) := by
  intro s h
  have hpopulated : Booked Q rest (stateOf (Space.populateAll (PageRange.one src).toList s)) :=
    hQ.populateAll _ s h
  apply stateOf_copyWithin (I := Booked Q rest) h
  · exact fun _ => hpopulated
  · intro s₁ hpopulate _
    rw [hpopulate] at hpopulated
    rw [PageRange.toList_one, PageRange.toList_one]
    cases hsrc : s₁.table.backing? src with
    | none =>
        have hnone : backings s₁.table [src] = [] := List.filterMap_cons_none hsrc
        rw [hnone]
        exact hpopulated
    | some b =>
        have hsome : backings s₁.table [src] = [b] := List.filterMap_cons_some hsrc
        rw [hsome]
        apply stateOf_bind
        · apply hQ.sharePage hpopulated
          rintro pa rfl
          exact mapsIn_pos_iff.mpr ⟨s₁.table, List.mem_cons_self, src, hsrc⟩
        · exact fun _ _ ht => ht
  · intro u text hu
    exact hQ.note hu _ _ _

/-- The frames that are shared stay mapped in the source space all the while. -/
theorem copyAcross (src dst : PageRange) (rights : MapRights) :
    Keeps (SpacePair.Booked Q rest) (SpacePair.copyAcross src dst rights) := by
  intro s h
  have hpopulated : Booked Q (s.target :: rest)
      (stateOf (Space.populateAll src.toList ⟨s.memory, s.source⟩)) :=
    hQ.populateAll _ ⟨s.memory, s.source⟩ h
  apply SpacePair.stateOf_copyAcross (I := SpacePair.Booked Q rest) h
  · rintro - u rfl
    exact hpopulated
  · rintro s₁ hpopulate - u rfl
    rw [hpopulate] at hpopulated
    have hstart : Q none s₁.memory (s₁.table :: s.target :: rest) := hpopulated
    have hswap : Booked Q (s₁.table :: rest) ⟨s₁.memory, s.target⟩ :=
      hQ.perm hstart (List.Perm.swap _ _ _)
    have hshare : Keeps (Booked Q (s₁.table :: rest)) (Space.sharePages rights
        (dst.toList.zip (backings s₁.table src.toList))) := by
      apply keeps_sharePages
      intro x hx t ht
      apply hQ.sharePage ht
      intro pa hpa
      obtain ⟨p, -, hp⟩ := mem_backings (List.of_mem_zip hx).2
      exact mapsIn_pos_iff.mpr ⟨s₁.table, by simp, p, hpa ▸ hp⟩
    have hdone : Q none _ (_ :: s₁.table :: rest) := hshare _ hswap
    exact hQ.perm hdone (List.Perm.swap _ _ _)
  · intro u text hu
    exact hQ.note hu _ _ _

end Books

end Exokernel
