import Exokernel.Proofs.Region.Spans
import Exokernel.Proofs.Region.Upkeep
import Exokernel.Proofs.Region.Views

/-! # Copies within one address space

The backings of the source are collected first, and then the pages of the target are mapped one
after the other.  Where the ranges overlap, an early page of the target can be the last mapping of a
frame that a later one needs.  Such a frame is given back and then mapped all the same. -/

namespace Exokernel.Space

variable {stray : PhysAddr → Prop} {others : List PageTable} {rights : MapRights}

/-! ## Pages mapped one after the other -/

theorem backing?_of_sharePage {p : VirtPage} {b : Backing} {s s' : Space}
    (h : sharePage rights p b s = .ok () s') (q : VirtPage) :
    s'.table.backing? q = if p = q then some b else s.table.backing? q := by
  rw [PageTable.backing?, lookup_of_sharePage h]
  split <;> rfl

theorem backing?_of_sharePages {l : List (VirtPage × Backing)} {s s' : Space}
    (h : sharePages rights l s = .ok () s') {q : VirtPage} (hq : q ∉ l.map Prod.fst) :
    s'.table.backing? q = s.table.backing? q := by
  induction l generalizing s with
  | nil =>
      cases h
      rfl
  | cons x rest ih =>
      obtain ⟨_, t, hx, hrest⟩ := bind_eq_ok_iff.mp h
      rw [List.map_cons, List.mem_cons, not_or] at hq
      rw [ih hrest hq.2, backing?_of_sharePage hx, if_neg (Ne.symm hq.1)]

theorem backing?_of_mem_sharePages {l : List (VirtPage × Backing)} {s s' : Space}
    (hnodup : (l.map Prod.fst).Nodup) (h : sharePages rights l s = .ok () s')
    {q : VirtPage} {b : Backing} (hq : (q, b) ∈ l) : s'.table.backing? q = some b := by
  induction l generalizing s with
  | nil => cases hq
  | cons x rest ih =>
      obtain ⟨_, t, hx, hrest⟩ := bind_eq_ok_iff.mp h
      obtain ⟨hfirst, hnodup⟩ := List.nodup_cons.mp hnodup
      rcases List.mem_cons.mp hq with rfl | hq
      · rw [backing?_of_sharePages hrest hfirst, backing?_of_sharePage hx, if_pos rfl]
      · exact ih hnodup hrest hq

/-! ## Lost frames -/

/-- A frame that is not handed out, or that holds a leaf table: mapping it is a mistake. -/
def Lost (others : List PageTable) (pa : PhysAddr) (s : Space) : Prop :=
  s.pool.isUsed pa = false ∨ pa ∈ leavesIn (s.table :: others)

theorem Lost.of_used {pa : PhysAddr} {s s' : Space} (h : Lost others pa s)
    (hused : s'.pool.isUsed pa = true →
      s.pool.isUsed pa = true ∨ pa ∈ leavesIn (s'.table :: others))
    (hleaves : pa ∈ leavesIn (s.table :: others) → pa ∈ leavesIn (s'.table :: others)) :
    Lost others pa s' := by
  rcases h with hunused | hleaf
  · cases hnext : s'.pool.isUsed pa with
    | false => exact Or.inl hnext
    | true =>
        rcases hused hnext with hbefore | hmem
        · rw [hunused] at hbefore
          cases hbefore
        · exact Or.inr hmem
  · exact Or.inr (hleaves hleaf)

/-- Mapping more pages never makes up for a lost frame. -/
theorem keeps_lost_sharePage (pa : PhysAddr) (x : VirtPage × Backing) :
    Keeps (Lost others pa) (sharePage rights x.1 x.2) := by
  intro s h
  rw [sharePage_eq_place]
  cases hplace : place x.1 ⟨x.2, sharedFlags rights (s.table.lookup x.1) x.2⟩
      ⟨s.memory.retain x.2, s.table⟩ with
  | error e s' =>
      obtain ⟨rfl, -⟩ := place_eq_error hplace
      apply h.of_used
      · intro hnext
        have hbefore := Memory.isUsed_of_release hnext
        rw [Memory.machine_retain] at hbefore
        exact Or.inl hbefore
      · exact id
  | ok _ s' =>
      obtain ⟨old, machine, hinsert, hmemory⟩ := place_eq_ok hplace
      rw [Memory.machine_retain] at hinsert
      have hused : s'.pool.isUsed pa = true → machine.pool.isUsed pa = true := by
        intro hnext
        change s'.memory.machine.pool.isUsed pa = true at hnext
        rcases hmemory with hmemory | ⟨b, hmemory⟩
        · rwa [hmemory] at hnext
        · rw [hmemory] at hnext
          exact Memory.isUsed_of_release hnext
      rcases PageTable.leafFrames_insert hinsert with ⟨rfl, hperm⟩ | ⟨frame, halloc, hperm⟩
      · apply h.of_used
        · exact fun hnext => Or.inl (hused hnext)
        · intro hleaf
          rw [leavesIn_cons] at hleaf
          exact (hperm.append_right _).mem_iff.mpr hleaf
      · have hmem : ∀ q, q ∈ leavesIn (s'.table :: others) ↔
            q = frame ∨ q ∈ leavesIn (s.table :: others) := by
          intro q
          rw [leavesIn_cons, leavesIn_cons, (hperm.append_right _).mem_iff, List.cons_append,
            List.mem_cons]
        apply h.of_used
        · intro hnext
          rcases FramePool.isUsed_of_alloc? (Machine.pool_of_alloc? halloc) (hused hnext) with
            heq | hbefore
          · exact Or.inr ((hmem pa).mpr (Or.inl heq))
          · exact Or.inl hbefore
        · exact fun hleaf => (hmem pa).mpr (Or.inr hleaf)

theorem Lost.not_accounting {s : Space} {pa : PhysAddr} (h : Lost others pa s) {q : VirtPage}
    (hq : s.table.backing? q = some (.frame pa)) :
    ¬ Accounting s.memory (s.table :: others) := by
  intro hacc
  have hcount : 0 < s.memory.refs.count pa := by
    rw [hacc.count_eq]
    exact mapsIn_pos_iff.mpr ⟨s.table, List.mem_cons_self, q, hq⟩
  rcases h with hunused | hleaf
  · have hused := hacc.counted_used pa hcount
    rw [show s.memory.machine.pool.isUsed pa = false from hunused] at hused
    cases hused
  · have hzero := hacc.leaves_uncounted pa hleaf
    omega

/-! ## Which copies keep the accounting -/

/-- When the turn of a page comes, the frame that it is to be mapped to is mapped somewhere: at a
page mapped before it, in another space, or at a page that still has the entry that it had. -/
def SafeShares (others : List PageTable) (t : PageTable) (l : List (VirtPage × Backing)) : Prop :=
  ∀ i p pa, l[i]? = some (p, .frame pa) →
    .frame pa ∈ (l.take i).map Prod.snd ∨ 0 < mapsIn others pa ∨
      ∃ q, q ∉ (l.take i).map Prod.fst ∧ t.backing? q = some (.frame pa)

theorem safeShares_cons {t t' : PageTable} {p : VirtPage} {b : Backing}
    {rest : List (VirtPage × Backing)} (hp : p ∉ rest.map Prod.fst)
    (ht : ∀ q, t'.backing? q = if p = q then some b else t.backing? q) :
    SafeShares others t ((p, b) :: rest) ↔
      (∀ pa, b = .frame pa → 0 < mapsIn (t :: others) pa) ∧ SafeShares others t' rest := by
  have houtside : ∀ i, p ∉ (rest.take i).map Prod.fst := by
    intro i hmem
    rw [List.map_take] at hmem
    exact hp (List.mem_of_mem_take hmem)
  constructor
  · intro h
    constructor
    · rintro pa rfl
      rw [mapsIn_pos_iff]
      rcases h 0 p pa rfl with hmem | hmapped | ⟨q, -, hq⟩
      · cases hmem
      · obtain ⟨u, hu, q, hq⟩ := mapsIn_pos_iff.mp hmapped
        exact ⟨u, List.mem_cons_of_mem _ hu, q, hq⟩
      · exact ⟨t, List.mem_cons_self, q, hq⟩
    · intro i q pa hi
      rcases h (i + 1) q pa hi with hmem | hmapped | ⟨r, hr, hback⟩
      · rw [List.take_succ_cons, List.map_cons, List.mem_cons] at hmem
        rcases hmem with heq | hmem
        · exact Or.inr (Or.inr ⟨p, houtside i, by rw [ht, if_pos rfl, heq]⟩)
        · exact Or.inl hmem
      · exact Or.inr (Or.inl hmapped)
      · rw [List.take_succ_cons, List.map_cons, List.mem_cons, not_or] at hr
        exact Or.inr (Or.inr ⟨r, hr.2, by rw [ht, if_neg (Ne.symm hr.1)]; exact hback⟩)
  · rintro ⟨hfirst, hrest⟩ i q pa hi
    cases i with
    | zero =>
        obtain ⟨rfl, rfl⟩ : p = q ∧ b = .frame pa := by simpa using hi
        obtain ⟨u, hu, r, hr⟩ := mapsIn_pos_iff.mp (hfirst pa rfl)
        rcases List.mem_cons.mp hu with rfl | hu
        · exact Or.inr (Or.inr ⟨r, by simp, hr⟩)
        · exact Or.inr (Or.inl (mapsIn_pos_iff.mpr ⟨u, hu, r, hr⟩))
    | succ i =>
        simp only [List.take_succ_cons, List.map_cons, List.mem_cons]
        rcases hrest i q pa hi with hmem | hmapped | ⟨r, hr, hback⟩
        · exact Or.inl (Or.inr hmem)
        · exact Or.inr (Or.inl hmapped)
        · rw [ht] at hback
          split at hback
          · exact Or.inl (Or.inl (Option.some.inj hback).symm)
          · next hpr =>
            refine Or.inr (Or.inr ⟨r, ?_, hback⟩)
            rintro (heq | hmem)
            · exact hpr heq.symm
            · exact hr hmem

/-- Mapping pages one after the other keeps the balance if every frame is still mapped when its turn
comes.  If not, a page is mapped to a lost frame in the end. -/
theorem safe_or_lost_of_sharePages {l : List (VirtPage × Backing)} {s s' : Space}
    (hnodup : (l.map Prod.fst).Nodup) (hbalanced : InBalance stray others s)
    (hstray : ∀ pa, .frame pa ∈ l.map Prod.snd → ¬ stray pa)
    (h : sharePages rights l s = .ok () s') :
    SafeShares others s.table l ∧ InBalance stray others s' ∨
      ¬ SafeShares others s.table l ∧
        ∃ q ∈ l.map Prod.fst, ∃ pa, s'.table.backing? q = some (.frame pa) ∧ Lost others pa s' := by
  induction l generalizing s with
  | nil =>
      obtain ⟨-, rfl⟩ := EStateM.Result.ok.inj h
      left
      refine ⟨?_, hbalanced⟩
      intro i p pa hi
      cases hi
  | cons x rest ih =>
      obtain ⟨p, b⟩ := x
      obtain ⟨_, t, hx, hrest⟩ := bind_eq_ok_iff.mp h
      obtain ⟨hfirst, hnodup⟩ := List.nodup_cons.mp hnodup
      rw [safeShares_cons hfirst (backing?_of_sharePage hx)]
      by_cases hmapped : ∀ pa, b = .frame pa → 0 < mapsIn (s.table :: others) pa
      · have hafter : InBalance stray others (stateOf (sharePage rights p b s)) :=
          inBalance_sharePage hbalanced hmapped
        rw [show sharePage rights p b s = .ok () t from hx] at hafter
        rcases ih hnodup hafter (fun pa hpa => hstray pa (List.mem_cons_of_mem _ hpa)) hrest with
          ⟨hsafe, hdone⟩ | ⟨hbroken, q, hq, hlost⟩
        · exact Or.inl ⟨⟨hmapped, hsafe⟩, hdone⟩
        · exact Or.inr ⟨fun hboth => hbroken hboth.2, q, List.mem_cons_of_mem _ hq, hlost⟩
      · -- The frame was given back before its turn: it is lost, and is mapped all the same.
        obtain ⟨pa, hpa⟩ := not_forall.mp hmapped
        obtain ⟨rfl, hnone⟩ := Classical.not_imp.mp hpa
        have hlost : Lost others pa s := by
          cases hused : s.pool.isUsed pa with
          | false => exact Or.inl hused
          | true =>
              rcases (hbalanced.ledger.used_iff pa).mp hused with hpos | hleaf | hstrayed
              · exact absurd hpos hnone
              · exact Or.inr hleaf
              · exact absurd hstrayed (hstray pa (by simp))
        have hlost' : Lost others pa s' := by
          have hkept : Lost others pa (stateOf (sharePage rights p (.frame pa) s)) :=
            keeps_lost_sharePage pa (p, .frame pa) s hlost
          rw [show sharePage rights p (.frame pa) s = .ok () t from hx] at hkept
          have hall : Lost others pa (stateOf (sharePages rights rest t)) :=
            keeps_sharePages (fun y _ => keeps_lost_sharePage pa y) t hkept
          rwa [hrest] at hall
        have hback : s'.table.backing? p = some (.frame pa) := by
          rw [backing?_of_sharePages hrest hfirst, backing?_of_sharePage hx, if_pos rfl]
        exact Or.inr ⟨fun hboth => hmapped hboth.1, p, List.mem_cons_self, pa, hback, hlost'⟩

/-! ## Ranges -/

theorem map_some_backings {t : PageTable} {pages : List VirtPage}
    (h : ∀ p ∈ pages, ∃ b, t.backing? p = some b) :
    (backings t pages).map some = pages.map t.backing? := by
  induction pages with
  | nil => rfl
  | cons p rest ih =>
      obtain ⟨b, hb⟩ := h p List.mem_cons_self
      have hcons : backings t (p :: rest) = b :: backings t rest := List.filterMap_cons_some hb
      rw [hcons, List.map_cons, List.map_cons, hb, ih fun q hq => h q (List.mem_cons_of_mem _ hq)]

theorem getElem?_backings_iff {t : PageTable} {pages : List VirtPage}
    (h : ∀ p ∈ pages, ∃ b, t.backing? p = some b) {i : ℕ} {b : Backing} :
    (backings t pages)[i]? = some b ↔ ∃ p, pages[i]? = some p ∧ t.backing? p = some b := by
  have hget := congrArg (·[i]?) (map_some_backings h)
  simp only [List.getElem?_map] at hget
  constructor
  · intro hb
    rw [hb] at hget
    exact Option.map_eq_some_iff.mp hget.symm
  · rintro ⟨p, hp, hb⟩
    rw [hp, Option.map_some, hb] at hget
    obtain ⟨b', hb', heq⟩ := Option.map_eq_some_iff.mp hget
    cases heq
    exact hb'

theorem mem_take_backings_iff {t : PageTable} {pages : List VirtPage}
    (h : ∀ p ∈ pages, ∃ b, t.backing? p = some b) {i : ℕ} {b : Backing} :
    b ∈ (backings t pages).take i ↔ ∃ p ∈ pages.take i, t.backing? p = some b := by
  rw [← List.mem_map_of_injective (Option.some_injective _), List.map_take, map_some_backings h,
    ← List.map_take, List.mem_map]

/-- When the turn of a page of the source comes, its frame is mapped somewhere: at a page of the
source before it, and so of the target, in another space, or at a page that is not among the pages
of the target before it. -/
def SafeOverlap (others : List PageTable) (t : PageTable) (src dst : PageRange) : Prop :=
  ∀ i p pa, src.toList[i]? = some p → t.backing? p = some (.frame pa) →
    (∃ q ∈ src.toList.take i, t.backing? q = some (.frame pa)) ∨ 0 < mapsIn others pa ∨
      ∃ q, q ∉ dst.toList.take i ∧ t.backing? q = some (.frame pa)

theorem safeShares_zip_iff {t : PageTable} {src dst : PageRange} (hcount : src.count = dst.count)
    (h : ∀ p ∈ src.toList, ∃ b, t.backing? p = some b) :
    SafeShares others t (dst.toList.zip (backings t src.toList)) ↔
      SafeOverlap others t src dst := by
  have hlength : dst.toList.length = (backings t src.toList).length := by
    have hmap := congrArg List.length (map_some_backings h)
    simpa [hcount] using hmap.symm
  have hfst : ∀ i, ((dst.toList.zip (backings t src.toList)).take i).map Prod.fst =
      dst.toList.take i := by
    intro i
    rw [List.map_take, List.map_fst_zip hlength.le]
  have hsnd : ∀ i pa, Backing.frame pa ∈
      ((dst.toList.zip (backings t src.toList)).take i).map Prod.snd ↔
        ∃ q ∈ src.toList.take i, t.backing? q = some (.frame pa) := by
    intro i pa
    rw [List.map_take, List.map_snd_zip hlength.ge, mem_take_backings_iff h]
  constructor
  · intro hsafe i p pa hp hback
    have hi : i < dst.toList.length := by
      have hlt := (List.getElem?_eq_some_iff.mp hp).1
      rwa [PageRange.length_toList, hcount, ← PageRange.length_toList] at hlt
    rw [← hsnd, ← hfst]
    apply hsafe i dst.toList[i] pa
    rw [List.getElem?_zip_eq_some]
    exact ⟨List.getElem?_eq_getElem hi, (getElem?_backings_iff h).mpr ⟨p, hp, hback⟩⟩
  · intro hsafe i q pa hi
    obtain ⟨-, hb⟩ := List.getElem?_zip_eq_some.mp hi
    obtain ⟨p, hp, hback⟩ := (getElem?_backings_iff h).mp hb
    rw [hsnd, hfst]
    exact hsafe i p pa hp hback

theorem val_lt_of_mem_take_toList {r : PageRange} {i : ℕ} {p : VirtPage}
    (h : p ∈ r.toList.take i) : r.first ≤ p.val ∧ p.val < r.first + i := by
  obtain ⟨j, hj, rfl⟩ := List.mem_take_iff_getElem.mp h
  obtain ⟨hval, -⟩ := PageRange.val_of_getElem?_toList (List.getElem?_eq_getElem
    (Nat.lt_of_lt_of_le hj (Nat.min_le_right _ _)))
  rw [hval]
  have hlt : j < i := Nat.lt_of_lt_of_le hj (Nat.min_le_left _ _)
  omega

/-- A copy downwards, or onto pages above all of the source, keeps the accounting. -/
theorem safeOverlap_of_le {t : PageTable} {src dst : PageRange}
    (h : dst.first ≤ src.first ∨ src.first + src.count ≤ dst.first) :
    SafeOverlap others t src dst := by
  intro i p pa hp hback
  refine Or.inr (Or.inr ⟨p, ?_, hback⟩)
  intro hmem
  obtain ⟨hval, -⟩ := PageRange.val_of_getElem?_toList hp
  have hlt := (List.getElem?_eq_some_iff.mp hp).1
  rw [PageRange.length_toList] at hlt
  obtain ⟨hlower, hupper⟩ := val_lt_of_mem_take_toList hmem
  omega

/-! ## The request -/

/-- What a copy within one space does when it is carried out: the source pages get their frames, and
then the target pages are mapped. -/
theorem copyWithin_eq_ok {src dst : PageRange} {s s' : Space}
    (h : copyWithin src dst rights s = .ok () s') :
    copyFault? s.memory s.table s.table src dst rights = none ∧
      ∃ s₁ s₂, populateAll src.toList s = .ok () s₁ ∧
        sharePages rights (dst.toList.zip (backings s₁.table src.toList)) s₁ = .ok () s₂ ∧
        s' = s₂.note .trace "mm" (copyText src dst) := by
  obtain ⟨_, _, hget, h⟩ := bind_eq_ok_iff.mp h
  cases hget
  cases hfault : copyFault? s.memory s.table s.table src dst rights with
  | some e =>
      simp only [hfault] at h
      cases h
  | none =>
      simp only [hfault] at h
      obtain ⟨_, s₁, hpopulate, h⟩ := bind_eq_ok_iff.mp h
      obtain ⟨_, _, hget, h⟩ := bind_eq_ok_iff.mp h
      cases hget
      obtain ⟨_, s₂, hshare, h⟩ := bind_eq_ok_iff.mp h
      cases h
      exact ⟨rfl, s₁, s₂, hpopulate, hshare, rfl⟩

theorem count_eq_of_copyFault? {memory : Memory} {source target : PageTable} {src dst : PageRange}
    (h : copyFault? memory source target src dst rights = none) : src.count = dst.count := by
  rw [copyFault?] at h
  split at h
  · cases h
  · next hcount => exact Decidable.not_not.mp hcount

/-- A copy within one space that is carried out gives the pages of the source their frames and maps
each page of the target to what its source page is mapped to then.  If the overlap is safe, all
frames are accounted for afterwards; if it is not, a page of the target is mapped to a lost
frame. -/
theorem copyWithin_spec {src dst : PageRange} {s s' : Space}
    (hacc : Accounting s.memory (s.table :: others))
    (h : copyWithin src dst rights s = .ok () s') :
    ∃ s₁, populateAll src.toList s = .ok () s₁ ∧ Populated s s₁ ∧ src.count = dst.count ∧
      (∀ (i : ℕ) p q, src.toList[i]? = some p → dst.toList[i]? = some q →
        ∃ b, b.isLazy = false ∧ s₁.table.backing? p = some b ∧ s'.table.backing? q = some b) ∧
      (SafeOverlap others s₁.table src dst ↔ Accounting s'.memory (s'.table :: others)) ∧
      (¬ SafeOverlap others s₁.table src dst →
        ∃ q ∈ dst.toList, ∃ pa, s'.table.backing? q = some (.frame pa) ∧ Lost others pa s') := by
  obtain ⟨hfault, s₁, s₂, hpopulate, hshare, rfl⟩ := copyWithin_eq_ok h
  have hcount := count_eq_of_copyFault? hfault
  have hpopulated := populated_populateAll src.toList s
  rw [hpopulate] at hpopulated
  have hmapped : ∀ p ∈ src.toList, ∃ b, s₁.table.backing? p = some b := fun p hp =>
    (backing?_of_populateAll hpopulate hp).imp fun _ hb => hb.1
  have hbalanced : InBalance (strays s.memory (s.table :: others)) others s₁ := by
    have hkept : InBalance (strays s.memory (s.table :: others)) others
        (stateOf (populateAll src.toList s)) :=
      keeps_populateAll (fun p _ => inBalance_populate p) s hacc.balanced
    rwa [hpopulate] at hkept
  have hlength : dst.toList.length = (backings s₁.table src.toList).length := by
    have hmap := congrArg List.length (map_some_backings hmapped)
    simpa [hcount] using hmap.symm
  have hfst : (dst.toList.zip (backings s₁.table src.toList)).map Prod.fst = dst.toList :=
    List.map_fst_zip hlength.le
  have hnodup := dst.nodup_toList
  rw [← hfst] at hnodup
  refine ⟨s₁, hpopulate, hpopulated, hcount, ?_, ?_⟩
  · intro i p q hp hq
    obtain ⟨b, hb, hlazy⟩ := backing?_of_populateAll hpopulate (List.mem_of_getElem? hp)
    refine ⟨b, hlazy, hb, ?_⟩
    apply backing?_of_mem_sharePages hnodup hshare
    apply List.mem_of_getElem? (i := i)
    rw [List.getElem?_zip_eq_some]
    exact ⟨hq, (getElem?_backings_iff hmapped).mpr ⟨p, hp, hb⟩⟩
  · have hstray : ∀ pa, .frame pa ∈ (dst.toList.zip (backings s₁.table src.toList)).map Prod.snd →
        ¬ strays s.memory (s.table :: others) pa := by
      intro pa hpa hs
      rw [List.map_snd_zip hlength.ge] at hpa
      obtain ⟨p, -, hp⟩ := mem_backings hpa
      have hzero := (hbalanced.ledger.stray_apart pa hs).1
      have hpos := mapsIn_pos_iff.mpr ⟨s₁.table, List.mem_cons_self (l := others), p, hp⟩
      omega
    have hcases := safe_or_lost_of_sharePages hnodup hbalanced hstray hshare
    rw [safeShares_zip_iff hcount hmapped, hfst] at hcases
    rcases hcases with ⟨hsafe, hdone⟩ | ⟨hbroken, q, hq, pa, hback, hlost⟩
    · exact ⟨⟨fun _ => (hdone.note _ _ _).accounting, fun _ => hsafe⟩,
        fun hbroken => absurd hsafe hbroken⟩
    · refine ⟨⟨fun hsafe => absurd hsafe hbroken, ?_⟩, fun _ => ⟨q, hq, pa, hback, hlost⟩⟩
      intro hafter
      have hlost' : Lost others pa (s₂.note .trace "mm" (copyText src dst)) := hlost
      exact absurd hafter (hlost'.not_accounting hback)

/-- A space with writable pages 1, 2 and 3, alone on a machine of eight frames. -/
def threePages : Space :=
  stateOf (allocateRegion ⟨1, 3, by decide⟩ ⟨⟨true, false, false, false⟩, false, .zero⟩
    ⟨.ofMachine (.sound (.ofFrames 8) (.withFilter none)), .empty⟩)

theorem inBalance_threePages : InBalance (fun _ => False) [] threePages := by
  apply keeps_allocateRegion
  · intro p _
    exact inBalance_allocatePage _ p
  · intro s level target text h
    exact h.note level target text
  · exact (balanced_ofMachine (FramePool.consistent_ofFrames 8)
      (FramePool.isUsed_ofFrames 8)).cons_empty

theorem copyWithin_spec_down : Accounting threePages.memory [threePages.table] ∧
    ∃ s', copyWithin ⟨2, 2, by decide⟩ ⟨1, 2, by decide⟩ ⟨true, false, false, false⟩ threePages =
      .ok () s' ∧ Accounting s'.memory [s'.table] := by
  have hdone := eq_ok_of_isDone (x := copyWithin ⟨2, 2, by decide⟩ ⟨1, 2, by decide⟩
    ⟨true, false, false, false⟩ threePages) (by decide +kernel)
  have hacc := inBalance_threePages.accounting
  obtain ⟨_, -, -, -, -, haccounts, -⟩ := copyWithin_spec hacc hdone
  exact ⟨hacc, _, hdone, haccounts.mp (safeOverlap_of_le (Or.inl (by decide)))⟩

/-- Pages 1 and 2 are copied one page up: the frame of page 2 goes back to the pool when page 2 is
mapped to that of page 1, and then page 3 is mapped to it. -/
theorem copyWithin_up_unaccounted : Accounting threePages.memory [threePages.table] ∧
    ∃ s', copyWithin ⟨1, 2, by decide⟩ ⟨2, 2, by decide⟩ ⟨true, false, false, false⟩ threePages =
      .ok () s' ∧ ¬ Accounting s'.memory [s'.table] := by
  have hdone := eq_ok_of_isDone (x := copyWithin ⟨1, 2, by decide⟩ ⟨2, 2, by decide⟩
    ⟨true, false, false, false⟩ threePages) (by decide +kernel)
  refine ⟨inBalance_threePages.accounting, _, hdone, ?_⟩
  intro hacc
  have hcounted := hacc.counted_used (FramePool.ramAddr 2) (by decide +kernel)
  revert hcounted
  decide +kernel

end Exokernel.Space
