import Exokernel.Proofs.Region.Reading
import Exokernel.Proofs.Region.Renewal
import Exokernel.Proofs.Region.SinglePage

/-! # Copies between two spaces

A copy from one space to another is carried out exactly if nothing speaks against it: what was
reserved for the source pages without a frame and for the leaf tables of the target is what they
take.  Then each target page shares what backs its source page, and the counts follow the
entries. -/

namespace Exokernel

open Finset

variable {p q : VirtPage} {pa : PhysAddr}

/-- The number of pages that are mapped to a frame in a later page table and were not before. -/
def PageTable.gains (t t' : PageTable) (pa : PhysAddr) : Nat :=
  #{p | t'.backing? p = some (.frame pa) ∧ t.backing? p ≠ some (.frame pa)}

/-- What a table maps now and what it has lost is what it mapped before and what it has gained. -/
theorem PageTable.mapCount_add_gains (t t' : PageTable) (pa : PhysAddr) :
    t'.mapCount pa + t'.gains t pa = t.mapCount pa + t.gains t' pa := by
  have hsplit : ∀ u v : PageTable, u.mapCount pa =
      #{p | u.backing? p = some (.frame pa) ∧ v.backing? p = some (.frame pa)} + v.gains u pa := by
    intro u v
    rw [mapCount, gains, ← card_filter_add_card_filter_not (fun p => v.backing? p = some (.frame pa)),
      filter_filter, filter_filter]
  rw [hsplit t' t, hsplit t t']
  simp only [and_comm]
  omega

namespace Space

theorem lookup_of_mem_sharePages {rights : MapRights} {l : List (VirtPage × Backing)} {s s' : Space}
    (hnodup : (l.map Prod.fst).Nodup) (h : sharePages rights l s = .ok () s') {b : Backing}
    (hq : (q, b) ∈ l) :
    s'.table.lookup q = some ⟨b, sharedFlags rights (s.table.lookup q) b⟩ := by
  induction l generalizing s with
  | nil => cases hq
  | cons x rest ih =>
      obtain ⟨_, t, hx, hrest⟩ := bind_eq_ok_iff.mp h
      obtain ⟨hfirst, hnodup⟩ := List.nodup_cons.mp hnodup
      rcases List.mem_cons.mp hq with rfl | hq
      · have hkept : (stateOf (sharePages rights rest t)).table.lookup q = t.table.lookup q :=
          lookup_sharePages_of_not_mem hfirst t
        rw [hrest, stateOf_ok] at hkept
        rw [hkept, lookup_of_sharePage hx, if_pos rfl]
      · have hne : x.1 ≠ q := by
          rintro rfl
          exact hfirst (List.mem_map.mpr ⟨_, hq, rfl⟩)
        rw [ih hnodup hrest hq, lookup_of_sharePage hx, if_neg hne]

theorem lookup_of_sharePages_zip {rights : MapRights} {src dst : PageRange} {source : PageTable}
    {s s' : Space} (hmapped : ∀ p ∈ src.toList, ∃ b, source.backing? p = some b)
    (h : sharePages rights (dst.toList.zip (backings source src.toList)) s = .ok () s') :
    (∀ (i : ℕ) p q b, src.toList[i]? = some p → dst.toList[i]? = some q →
      source.backing? p = some b →
        s'.table.lookup q = some ⟨b, sharedFlags rights (s.table.lookup q) b⟩) ∧
    ∀ q ∉ dst.toList, s'.table.lookup q = s.table.lookup q := by
  constructor
  · intro i p q b hp hq hb
    apply lookup_of_mem_sharePages (nodup_zip_toList dst _) h
    apply List.mem_of_getElem? (i := i)
    rw [List.getElem?_zip_eq_some]
    exact ⟨hq, (getElem?_backings_iff hmapped).mpr ⟨p, hp, hb⟩⟩
  · intro q hq
    have hnot : q ∉ (dst.toList.zip (backings source src.toList)).map Prod.fst := by
      intro hmem
      obtain ⟨x, hx, rfl⟩ := List.mem_map.mp hmem
      exact hq (List.of_mem_zip hx).1
    have hsame : (stateOf (sharePages rights _ s)).table.lookup q = s.table.lookup q :=
      lookup_sharePages_of_not_mem hnot s
    rwa [h, stateOf_ok] at hsame

/-- Once all pages of a list are populated, each of them has its flags still and has something that
backs it: what it had before, or a frame of its own. -/
theorem settled_of_populateAll {stray : PhysAddr → Prop} {rest : List PageTable} {s s' : Space}
    {pages : List VirtPage} (hbalanced : InBalance stray rest s) (hnodup : pages.Nodup)
    (h : populateAll pages s = .ok () s') (hp : p ∈ pages) :
    ∃ o b, s.table.lookup p = some o ∧ s'.table.lookup p = some ⟨b, o.flags⟩ ∧
      (o.backing.isLazy = false → b = o.backing) ∧
      ∀ fill, o.backing = .lazy fill → ∃ pa, b = .frame pa ∧ s.pool.isUsed pa = false ∧
        Owns rest fill o.flags p pa s' := by
  have hrenewed := renewed_of_populateAll hbalanced hnodup h
  by_cases hlazy : p ∈ lazyAmong s.table pages
  · obtain ⟨fill, ⟨backing, flags⟩, ⟨hbefore, pa, hpa⟩, hafter, howns⟩ :=
      hrenewed.entry (hnodup.filter _) hlazy
    cases hpa
    refine ⟨_, _, hbefore, hafter, nofun, ?_⟩
    rintro _ ⟨⟩
    refine ⟨pa, rfl, ?_, howns pa rfl⟩
    have hpopulated := populated_populateAll pages s
    rw [h, stateOf_ok] at hpopulated
    rcases hpopulated.lookup_or p with hsame | ⟨_, _, pa', -, hframe, hdrawn⟩
    · rw [hafter, hbefore] at hsame
      cases hsame
    · rw [hafter] at hframe
      cases hframe
      exact hdrawn.unused hbalanced.ledger.consistent
  · have hsame := hrenewed.lookup_eq hlazy
    obtain ⟨b, hb, -⟩ := backing?_of_populateAll h hp
    obtain ⟨o, ho, rfl⟩ := Option.map_eq_some_iff.mp hb
    refine ⟨o, o.backing, hsame ▸ ho, ho, fun _ => rfl, fun fill hfill => ?_⟩
    refine absurd (List.mem_filter.mpr ⟨hp, ?_⟩) hlazy
    rw [← hsame, ho, Option.any_some, hfill]
    rfl

end Space

namespace SpacePair

variable {rest : List PageTable} {rights : MapRights} {src dst : PageRange} {s s' : SpacePair}

/-- The pool of the machine that both spaces live on. -/
abbrev pool (s : SpacePair) : FramePool := s.memory.machine.pool

/-- The ranges have the same length, user code can reach every source page, and write it if that is
to be passed on, and there are frames for the source pages without one and for the leaf tables that
the target lacks. -/
structure Shareable (rights : MapRights) (src dst : PageRange) (s : SpacePair) : Prop where
  count_eq : src.count = dst.count
  reachable : ∀ p ∈ src.toList, ∃ e, s.source.lookup p = some e ∧ e.isUser = true ∧
    (rights.write = true → e.isWritable = true)
  frames_le : Space.lazyPages s.source src.toList + s.target.missingTables dst ≤
    s.memory.machine.freeFrames

theorem sourceFault?_eq_none_iff {t : PageTable} : Space.sourceFault? t rights p = none ↔
    ∃ e, t.lookup p = some e ∧ e.isUser = true ∧ (rights.write = true → e.isWritable = true) := by
  rw [Space.sourceFault?]
  cases t.lookup p with
  | none => simp
  | some e =>
      cases huser : e.isUser <;> cases hwrite : rights.write <;> cases hwritable : e.isWritable <;>
        simp [huser, hwritable]

theorem copyFault?_eq_none_iff :
    Space.copyFault? s.memory s.source s.target src dst rights = none ↔
      Shareable rights src dst s := by
  rw [Space.copyFault?]
  constructor
  · intro h
    split at h
    · cases h
    · next hcount =>
      split at h
      · cases h
      · next hsource =>
        split at h
        · cases h
        · next hframes =>
          refine ⟨Decidable.not_not.mp hcount, fun p hp => ?_, Nat.le_of_not_lt hframes⟩
          exact sourceFault?_eq_none_iff.mp (List.findSome?_eq_none_iff.mp hsource p hp)
  · rintro ⟨hcount, hreachable, hframes⟩
    have hsource : src.toList.findSome? (Space.sourceFault? s.source rights) = none :=
      List.findSome?_eq_none_iff.mpr fun p hp => sourceFault?_eq_none_iff.mpr (hreachable p hp)
    rw [if_neg (not_not.mpr hcount), hsource]
    exact if_neg (Nat.not_lt.mpr hframes)

/-- The page `q` of the target shares what backs the page `p` of the source.  `o` is the entry of
the source page before, `b` what backs both pages now, and `flags` are those of the target page. -/
structure SharesPage (rights : MapRights) (p q : VirtPage) (o : PageEntry) (b : Backing)
    (flags : PageFlags) (s s' : SpacePair) : Prop where
  source_before : s.source.lookup p = some o
  source_eq : s'.source.lookup p = some ⟨b, o.flags⟩
  target_eq : s'.target.lookup q = some ⟨b, flags⟩
  backing_eq : o.backing.isLazy = false → b = o.backing
  /-- A source page without a frame has been given a filled one, which the two pages share. -/
  frame_of_lazy : ∀ fill, o.backing = .lazy fill → ∃ pa, b = .frame pa ∧
    s.pool.isUsed pa = false ∧ s'.memory.refs.count pa = 2 ∧
      s'.pool.frame? pa = some (Vector.replicate pageSize fill.byte)
  flags_of_combine : rights.combine = true → ∀ old, s.target.lookup q = some old → old.backing = b →
    flags = rights.flags.union old.flags.access
  flags_else : ¬ (rights.combine = true ∧ s.target.backing? q = some b) → flags = rights.flags

/-- What a copy between two spaces comes to.  `rest` are the page tables of all other spaces. -/
structure CopiesAcross (rest : List PageTable) (rights : MapRights) (src dst : PageRange)
    (s s' : SpacePair) : Prop where
  pages : ∀ (i : ℕ) p q, src.toList[i]? = some p → dst.toList[i]? = some q →
    ∃ o b flags, SharesPage rights p q o b flags s s'
  source_outside : ∀ p ∉ src.toList, s'.source.lookup p = s.source.lookup p
  target_outside : ∀ q ∉ dst.toList, s'.target.lookup q = s.target.lookup q
  /-- The bytes of all frames that were mapped, and those outside RAM, stay. -/
  frame_eq : ∀ pa, 0 < mapsIn (s.source :: s.target :: rest) pa ∨ s.pool.ramIndex? pa = none →
    s'.pool.frame? pa = s.pool.frame? pa
  /-- The entries that a frame has lost and those that it has gained make the difference. -/
  count_eq : ∀ pa, s'.memory.refs.count pa + (s'.source.gains s.source pa + s'.target.gains s.target pa) =
    s.memory.refs.count pa + (s.source.gains s'.source pa + s.target.gains s'.target pa)
  accounting : Accounting s'.memory (s'.source :: s'.target :: rest)

theorem flags_of_sharedFlags (rights : MapRights) (old : Option PageEntry) (b : Backing) :
    (rights.combine = true → ∀ o, old = some o → o.backing = b →
      Space.sharedFlags rights old b = rights.flags.union o.flags.access) ∧
    (¬ (rights.combine = true ∧ old.map PageEntry.backing = some b) →
      Space.sharedFlags rights old b = rights.flags) := by
  cases old with
  | none => exact ⟨nofun, fun _ => rfl⟩
  | some o =>
      constructor
      · rintro hcombine _ ⟨⟩ rfl
        simp [Space.sharedFlags, hcombine]
      · intro hnot
        rw [Space.sharedFlags, if_neg]
        simpa using hnot

/-- Target pages that map what their source pages map, of which one owns its frame, map that frame
once. -/
theorem mapCount_eq_one {table target target' : PageTable} {i : ℕ}
    (hcount : src.count = dst.count)
    (hpages : ∀ (j : ℕ) p q, src.toList[j]? = some p → dst.toList[j]? = some q →
      target'.backing? q = table.backing? p)
    (houtside : ∀ q ∉ dst.toList, target'.lookup q = target.lookup q)
    (hp : src.toList[i]? = some p) (hq : dst.toList[i]? = some q)
    (hback : table.backing? p = some (.frame pa))
    (hself : ∀ r, table.backing? r = some (.frame pa) → r = p)
    (hothers : ∀ r, target.backing? r ≠ some (.frame pa)) : target'.mapCount pa = 1 := by
  rw [PageTable.mapCount, card_eq_one]
  refine ⟨q, Finset.ext fun r => ?_⟩
  rw [mem_filter, mem_singleton]
  constructor
  · rintro ⟨-, hr⟩
    by_cases hmem : r ∈ dst.toList
    · obtain ⟨j, hj⟩ := List.mem_iff_getElem?.mp hmem
      have hlt : j < src.toList.length := by
        have hlt := (List.getElem?_eq_some_iff.mp hj).1
        rwa [PageRange.length_toList, ← hcount, ← PageRange.length_toList] at hlt
      have hsource := List.getElem?_eq_getElem hlt
      rw [hpages j _ r hsource hj] at hr
      -- the frame is that of one source page, so it is that of one target page
      have hsame : src.toList[j]? = src.toList[i]? := by rw [hsource, hself _ hr, hp]
      have hij := (List.getElem?_inj hlt src.nodup_toList).mp hsame
      rw [hij, hq] at hj
      exact (Option.some.inj hj).symm
    · rw [PageTable.backing?, houtside r hmem] at hr
      exact absurd hr (hothers r)
  · rintro rfl
    exact ⟨mem_univ _, (hpages i p r hp hq).trans hback⟩

theorem mapsIn_eq_two {table target target' : PageTable} {i : ℕ} (hcount : src.count = dst.count)
    (hpages : ∀ (j : ℕ) p q, src.toList[j]? = some p → dst.toList[j]? = some q →
      target'.backing? q = table.backing? p)
    (houtside : ∀ q ∉ dst.toList, target'.lookup q = target.lookup q)
    (hp : src.toList[i]? = some p) (hq : dst.toList[i]? = some q)
    (hback : table.backing? p = some (.frame pa)) (hone : mapsIn (table :: target :: rest) pa = 1) :
    mapsIn (table :: target' :: rest) pa = 2 := by
  obtain ⟨hself, hothers⟩ := sole_of_mapsIn hback hone
  have htarget : target'.mapCount pa = 1 :=
    mapCount_eq_one hcount hpages houtside hp hq hback hself (hothers target List.mem_cons_self)
  have hpos : 0 < table.mapCount pa := PageTable.mapCount_pos_iff.mpr ⟨p, hback⟩
  simp only [mapsIn_cons] at hone ⊢
  omega

theorem copiesAcross_of_ok (hacc : Accounting s.memory (s.source :: s.target :: rest))
    (hcount : src.count = dst.count) (h : copyAcross src dst rights s = .ok () s') :
    CopiesAcross rest rights src dst s s' := by
  have hkept : SpacePair.InBalance (strays s.memory (s.source :: s.target :: rest)) rest
      (stateOf (copyAcross src dst rights s)) := books_owing.copyAcross src dst rights s hacc.balanced
  rw [h, stateOf_ok] at hkept
  have hafter : Accounting s'.memory (s'.source :: s'.target :: rest) := hkept.accounting
  obtain ⟨s₁, s₂, hpopulate, hshare, rfl⟩ := copyAcross_eq_ok h
  have hbefore : Space.InBalance (strays s.memory (s.source :: s.target :: rest)) (s.target :: rest)
      ⟨s.memory, s.source⟩ := hacc.balanced
  have hrenewed := Space.renewed_of_populateAll hbefore src.nodup_toList hpopulate
  have hbytes := Space.sameBytes_sharePages rights
    (dst.toList.zip (Space.backings s₁.table src.toList)) ⟨s₁.memory, s.target⟩
  rw [hshare, stateOf_ok] at hbytes
  have hmapped : ∀ p ∈ src.toList, ∃ b, s₁.table.backing? p = some b := fun p hp =>
    (Space.backing?_of_populateAll hpopulate hp).imp fun _ hb => hb.1
  obtain ⟨hentry, houtside⟩ := Space.lookup_of_sharePages_zip hmapped hshare
  refine ⟨?_, ?_, houtside, ?_, ?_, hafter⟩
  · intro i p q hp hq
    obtain ⟨o, b, ho, hb, hsame, hfresh⟩ := Space.settled_of_populateAll hbefore src.nodup_toList
      hpopulate (List.mem_of_getElem? hp)
    have hback : s₁.table.backing? p = some b := by rw [PageTable.backing?, hb]; rfl
    obtain ⟨hcombine, helse⟩ := flags_of_sharedFlags rights (s.target.lookup q) b
    refine ⟨o, b, _, ho, hb, hentry i p q b hp hq hback, hsame, ?_, hcombine, helse⟩
    intro fill hfill
    obtain ⟨pa, rfl, hunused, howns⟩ := hfresh fill hfill
    refine ⟨pa, rfl, hunused, ?_, (hbytes.frame_eq pa).trans howns.filled⟩
    have hpairs : ∀ (j : ℕ) p' q', src.toList[j]? = some p' → dst.toList[j]? = some q' →
        s₂.table.backing? q' = s₁.table.backing? p' := by
      intro j p' q' hp' hq'
      obtain ⟨b', hb'⟩ := hmapped p' (List.mem_of_getElem? hp')
      rw [hb', PageTable.backing?, hentry j p' q' b' hp' hq' hb']
      rfl
    exact (hafter.count_eq pa).trans
      (mapsIn_eq_two hcount hpairs houtside hp hq hback howns.mapsIn_eq)
  · intro p hp
    exact hrenewed.lookup_eq fun hmem => hp (List.mem_of_mem_filter hmem)
  · intro pa hseen
    exact (hbytes.frame_eq pa).trans
      (hrenewed.frame_eq (Space.seenBeside_lazyAmong src.toList hseen))
  · intro pa
    have hsource := PageTable.mapCount_add_gains s.source s₁.table pa
    have htarget := PageTable.mapCount_add_gains s.target s₂.table pa
    rw [hafter.count_eq, hacc.count_eq]
    simp only [mapsIn_cons]
    omega

/-- A copy between two spaces is carried out exactly if its pages can be shared; otherwise nothing
changes. -/
theorem copyAcross_of_accounting (hacc : Accounting s.memory (s.source :: s.target :: rest))
    (hclaims : s.memory.machine.overclaim = 0) (hhidden : s.memory.machine.hidden = [])
    (src dst : PageRange) (rights : MapRights) :
    (Shareable rights src dst s → ∃ s', copyAcross src dst rights s = .ok () s' ∧
      CopiesAcross rest rights src dst s s') ∧
    (¬ Shareable rights src dst s → ∃ e, copyAcross src dst rights s = .error e s) := by
  have hreliable : s.memory.machine.Reliable := ⟨hclaims, hhidden, fun _ => hacc.pool.lt_size⟩
  constructor
  · intro hshareable
    obtain ⟨s', hdone⟩ := copyAcross_of_no_fault hreliable (copyFault?_eq_none_iff.mpr hshareable)
    exact ⟨s', hdone, copiesAcross_of_ok hacc hshareable.count_eq hdone⟩
  · intro hnot
    obtain ⟨e, hfault⟩ := Option.ne_none_iff_exists'.mp (mt copyFault?_eq_none_iff.mp hnot)
    exact ⟨e, copyAcross_of_fault hfault⟩

/-- A page without a frame and a device page are shared with a space that has a page of its own at
the first of the two places. -/
theorem copyAcross_of_accounting_lazyAndDevice :
    Accounting Space.lazyAndDevice.memory [Space.lazyAndDevice.table, Space.onePage.table] ∧
    Space.lazyAndDevice.memory.machine.overclaim = 0 ∧
    Space.lazyAndDevice.memory.machine.hidden = [] ∧
    ∃ s', copyAcross ⟨1, 2, by decide⟩ ⟨7, 2, by decide⟩ ⟨true, false, false, false⟩
        ⟨Space.lazyAndDevice.memory, Space.lazyAndDevice.table, Space.onePage.table⟩ = .ok () s' ∧
      CopiesAcross [] ⟨true, false, false, false⟩ ⟨1, 2, by decide⟩ ⟨7, 2, by decide⟩
        ⟨Space.lazyAndDevice.memory, Space.lazyAndDevice.table, Space.onePage.table⟩ s' := by
  have hacc := Space.accounting_lazyAndDevice
  have hclaims : Space.lazyAndDevice.memory.machine.overclaim = 0 := by decide +kernel
  have hhidden : Space.lazyAndDevice.memory.machine.hidden = [] := by decide +kernel
  refine ⟨hacc, hclaims, hhidden, ?_⟩
  apply (copyAcross_of_accounting
    (s := ⟨Space.lazyAndDevice.memory, Space.lazyAndDevice.table, Space.onePage.table⟩)
    hacc hclaims hhidden ⟨1, 2, by decide⟩ ⟨7, 2, by decide⟩ ⟨true, false, false, false⟩).1
  exact copyFault?_eq_none_iff.mp (by decide +kernel)

end SpacePair

end Exokernel
