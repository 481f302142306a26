import Exokernel.Proofs.Memory.Windows
import Exokernel.Proofs.Region.Reservations
import Exokernel.Proofs.Region.Spans
import Exokernel.Proofs.Region.Views
import Mathlib.Data.Set.Basic

/-! # Reads and the supply of frames

A read touches the pages of its range one after the other, and each of them that has no frame takes
a free one.  Where all that is mapped is within reach, a read of a readable range can only run out
of frames, and it does so exactly if the range touches more pages without a frame than there are
free frames.  What a read has touched needs no more frames later. -/

namespace Exokernel

open Finset

variable {s s' s'' : Space} {p : VirtPage} {pa : PhysAddr} {t t' t'' : PageTable}

/-! ## What is mapped -/

/-- The bytes of what backs a page are within reach, if it has a frame or a device page. -/
def Backing.Within (pool : FramePool) (b : Backing) : Prop :=
  ∀ pa, b.phys? = some pa → (pool.frame? pa).isSome = true

/-- The bytes of all that the pages of a table are mapped to are within reach. -/
def PageTable.BackedBy (t : PageTable) (pool : FramePool) : Prop :=
  ∀ p e, t.lookup p = some e → e.backing.Within pool

theorem FramePool.SameLayout.within_iff {pool next : FramePool} (h : pool.SameLayout next)
    {b : Backing} : b.Within next ↔ b.Within pool := by
  simp only [Backing.Within, h.isSome_frame?_eq]

theorem Memory.Draws.lasting {m m' : Memory} {P : Machine → Prop} (hP : Machine.Lasting P)
    (h : Draws m m') (hm : P m.machine) : P m'.machine := by
  induction h with
  | refl => exact hm
  | fresh _ hfresh ih => exact hP.fresh? hfresh ih
  | write _ _ _ ih => exact hP.update _ _ _ ih
  | note _ _ _ _ ih => exact hP.relog _ _ ih

namespace Backing.Within

theorem lazy (pool : FramePool) (fill : Fill) : Within pool (.lazy fill) := nofun

theorem of_fresh? {m m' : Memory} {fill : Fill} (h : m.fresh? fill = some (pa, m')) :
    Within m'.machine.pool (.frame pa) := by
  intro q hq
  cases hq
  exact Memory.isSome_frame?_of_fresh? h

theorem of_drawn {m m' : Memory} {fill : Fill} (h : m.Drawn m' fill pa) :
    Within m'.machine.pool (.frame pa) := by
  obtain ⟨m₁, m₂, -, hfresh, hafter⟩ := h
  have hlayout := hafter.lasting (Machine.lasting_sameLayout m₂.machine.pool) (.refl _)
  exact hlayout.within_iff.mpr (of_fresh? hfresh)

end Backing.Within

namespace Space

/-- The machine keeps its word, and the bytes of all that is mapped are within reach. -/
structure Backed (s : Space) : Prop where
  reliable : s.memory.machine.Reliable
  backedBy : s.table.BackedBy s.pool

theorem Backed.of_populated (h : Backed s) (hpopulated : Populated s s') : Backed s' := by
  have hlayout := hpopulated.draws.lasting (Machine.lasting_sameLayout s.pool) (.refl _)
  refine ⟨hpopulated.draws.lasting Machine.lasting_reliable h.reliable, ?_⟩
  intro p e he
  rw [pool, hlayout.within_iff]
  rcases hpopulated.lookup_or p with hsame | ⟨fill, flags, pa, -, hafter, hdrawn⟩
  · exact h.backedBy p e (hsame.symm.trans he)
  · rw [hafter] at he
    cases he
    exact hlayout.within_iff.mp (.of_drawn hdrawn)

end Space

/-! ## Pages that were touched -/

/-- A table after some of its pages were touched: none of these is without a frame, and the others
are as they were. -/
structure PageTable.Touched (pages : Set VirtPage) (t t' : PageTable) : Prop where
  not_lazy : ∀ p ∈ pages, (t'.lookup p).any (·.backing.isLazy) = false
  lookup_eq : ∀ p ∉ pages, t'.lookup p = t.lookup p

namespace PageTable

variable {pages others : Set VirtPage}

theorem Touched.trans (h : Touched pages t t') (h' : Touched others t' t'') :
    Touched (pages ∪ others) t t'' := by
  constructor
  · intro p hp
    by_cases hother : p ∈ others
    · exact h'.not_lazy p hother
    · rw [h'.lookup_eq p hother]
      exact h.not_lazy p (hp.resolve_right hother)
  · intro p hp
    rw [Set.mem_union, not_or] at hp
    exact (h'.lookup_eq p hp.2).trans (h.lookup_eq p hp.1)

theorem Touched.isLazy_iff (h : Touched pages t t') (p : VirtPage) :
    (t'.lookup p).any (·.backing.isLazy) = true ↔
      (t.lookup p).any (·.backing.isLazy) = true ∧ p ∉ pages := by
  by_cases hp : p ∈ pages
  · simp [h.not_lazy p hp, hp]
  · simp [h.lookup_eq p hp, hp]

def pagesOf (start length : Nat) : Set VirtPage :=
  {p | ∃ i < length, (start + i) / pageSize = p.val}

theorem mem_pagesOf_add {start n m : Nat} :
    p ∈ pagesOf start (n + m) ↔ p ∈ pagesOf start n ∨ p ∈ pagesOf (start + n) m := by
  constructor
  · rintro ⟨i, hi, hpage⟩
    by_cases hlt : i < n
    · exact Or.inl ⟨i, hlt, hpage⟩
    · refine Or.inr ⟨i - n, by omega, ?_⟩
      rwa [Nat.add_assoc, Nat.add_sub_cancel' (Nat.le_of_not_lt hlt)]
  · rintro (⟨i, hi, hpage⟩ | ⟨i, hi, hpage⟩)
    · exact ⟨i, Nat.lt_of_lt_of_le hi (Nat.le_add_right _ _), hpage⟩
    · exact ⟨n + i, Nat.add_lt_add_left hi n, by rwa [← Nat.add_assoc]⟩

/-- The number of pages that have no frame yet and hold a byte of a range. -/
def lazyTouched (t : PageTable) (start length : Nat) : Nat :=
  #{p : VirtPage | (t.lookup p).any (·.backing.isLazy) = true ∧
    ∃ i < length, (start + i) / pageSize = p.val}

/-- The check that a read begins with: the range ends below the ceiling, and user code may read its
pages. -/
def Readable (t : PageTable) (start length : Nat) : Prop :=
  ∃ r, ByteRange.of? start length = some r ∧ t.permits r false = true

/-- Once the first part of a range was touched, what it has in common with the second needs no frame
any more. -/
theorem lazyTouched_add {start n : Nat} (h : Touched (pagesOf start n) t t') (m : Nat) :
    t.lazyTouched start (n + m) = t.lazyTouched start n + t'.lazyTouched (start + n) m := by
  classical
  rw [lazyTouched, ← card_filter_add_card_filter_not (· ∈ pagesOf start n)]
  refine congrArg₂ (· + ·) (congrArg card ?_) (congrArg card ?_)
  · ext p
    simp only [mem_filter, mem_univ, true_and]
    constructor
    · exact fun hp => ⟨hp.1.1, hp.2⟩
    · exact fun hp => ⟨⟨hp.1, mem_pagesOf_add.mpr (Or.inl hp.2)⟩, hp.2⟩
  · ext p
    simp only [mem_filter, mem_univ, true_and, h.isLazy_iff]
    constructor
    · exact fun hp => ⟨⟨hp.1.1, hp.2⟩, (mem_pagesOf_add.mp hp.1.2).resolve_left hp.2⟩
    · exact fun hp => ⟨⟨hp.1.1, mem_pagesOf_add.mpr (Or.inr hp.2)⟩, hp.1.2⟩

@[simp] theorem lazyTouched_zero (t : PageTable) (start : Nat) : t.lazyTouched start 0 = 0 := by
  rw [lazyTouched, card_eq_zero, filter_eq_empty_iff]
  rintro p - ⟨-, i, hi, -⟩
  exact absurd hi (Nat.not_lt_zero i)

theorem lazyTouched_mono (t : PageTable) (start : Nat) {n m : Nat} (h : n ≤ m) :
    t.lazyTouched start n ≤ t.lazyTouched start m := by
  apply Finset.card_le_card
  intro p hp
  rw [mem_filter_univ] at hp ⊢
  obtain ⟨hlazy, i, hi, hpage⟩ := hp
  exact ⟨hlazy, i, Nat.lt_of_lt_of_le hi h, hpage⟩

end PageTable

theorem PageTable.lazyTouched_eq (t : PageTable) (r : ByteRange) :
    t.lazyTouched r.start r.length = Space.lazyPages t (r.spans.map Span.page) := by
  have htouched : ({p : VirtPage | (t.lookup p).any (·.backing.isLazy) = true ∧
      ∃ i < r.length, (r.start + i) / pageSize = p.val} : Finset VirtPage) =
        ((r.spans.map Span.page).filter fun p => (t.lookup p).any (·.backing.isLazy)).toFinset := by
    ext p
    rw [mem_filter_univ, List.mem_toFinset, List.mem_filter, ByteRange.mem_page_spans_iff]
    exact and_comm
  rw [lazyTouched, htouched, List.toFinset_card_of_nodup (r.nodup_page_spans.filter _),
    Space.lazyPages, List.countP_eq_length_filter]

namespace Space

/-- Pages were touched, and those of them that had no frame have taken so many of the free ones. -/
structure Provided (pages : Set VirtPage) (count : Nat) (s s' : Space) : Prop where
  populated : Populated s s'
  touched : PageTable.Touched pages s.table s'.table
  freeFrames_eq : s'.memory.machine.freeFrames + count = s.memory.machine.freeFrames

theorem Provided.trans {pages others : Set VirtPage} {n m : Nat} (h : Provided pages n s s')
    (h' : Provided others m s' s'') : Provided (pages ∪ others) (n + m) s s'' := by
  refine ⟨h.populated.trans h'.populated, h.touched.trans h'.touched, ?_⟩
  have hfirst := h.freeFrames_eq
  have hsecond := h'.freeFrames_eq
  omega

/-! ## One page -/

theorem lazyPages_cons (t : PageTable) (p : VirtPage) (pages : List VirtPage) :
    lazyPages t (p :: pages) = lazyPages t pages + lazyPages t [p] := by
  simp only [lazyPages, List.countP_cons, List.countP_nil, Nat.zero_add]

theorem lazyPages_congr {t t' : PageTable} {pages : List VirtPage}
    (h : ∀ p ∈ pages, t'.lookup p = t.lookup p) : lazyPages t' pages = lazyPages t pages := by
  apply List.countP_congr
  intro p hp
  rw [h p hp]

theorem provided_of_populate (hreliable : s.memory.machine.Reliable)
    (hpage : populate p s = .ok pa s') : Provided {p} (lazyPages s.table [p]) s s' := by
  have hpopulated := populated_populate s p s (.refl s)
  rw [hpage] at hpopulated
  have hsettled : (s'.table.lookup p).any (·.backing.isLazy) = false := by
    obtain ⟨b, hb, hphys⟩ := backing?_of_populate hpage
    obtain ⟨e, he, rfl⟩ := Option.map_eq_some_iff.mp hb
    rw [he, Option.any_some]
    cases hbacking : e.backing with
    | frame _ => rfl
    | device _ => rfl
    | lazy _ =>
        rw [hbacking] at hphys
        cases hphys
  have hnot_lazy : ∀ q ∈ ({p} : Set VirtPage), (s'.table.lookup q).any (·.backing.isLazy) = false := by
    rintro q rfl
    exact hsettled
  rcases populate_cases p s with hsame | ⟨fill, flags, pa', memory, text, hlazy, hfresh, heq⟩
  · rw [hpage] at hsame
    obtain rfl : s' = s := hsame
    refine ⟨hpopulated, ⟨hnot_lazy, fun _ _ => rfl⟩, ?_⟩
    rw [lazyPages, List.countP_singleton, hsettled]
    rfl
  · rw [hpage] at heq
    cases heq
    refine ⟨hpopulated, ⟨hnot_lazy, ?_⟩, ?_⟩
    · intro q hq
      rw [PageTable.lookup_modify, if_neg (Ne.symm hq)]
    · have htaken := hreliable.freeFrames_of_fresh? hfresh
      rw [lazyPages, List.countP_singleton, hlazy]
      exact htaken

/-- A mapped page without a frame takes one of the free ones, and there has to be one. -/
theorem populate_outcome (hreliable : s.memory.machine.Reliable)
    (hmapped : s.table.isMapped p = true) :
    (s.memory.machine.freeFrames < lazyPages s.table [p] →
      populate p s = .error .noMemory s) ∧
    (lazyPages s.table [p] ≤ s.memory.machine.freeFrames → ∃ pa s', populate p s = .ok pa s') := by
  obtain ⟨memory, table⟩ := s
  obtain ⟨⟨backing, flags⟩, hlookup⟩ := Option.isSome_iff_exists.mp hmapped
  simp only at hlookup hreliable
  simp only [lazyPages, List.countP_singleton, populate, hlookup, Option.any_some]
  cases backing with
  | frame pa => exact ⟨fun h => absurd h (Nat.not_lt_zero _), fun _ => ⟨pa, _, rfl⟩⟩
  | device pa => exact ⟨fun h => absurd h (Nat.not_lt_zero _), fun _ => ⟨pa, _, rfl⟩⟩
  | lazy fill =>
      simp only [Backing.isLazy, if_true]
      cases hfresh : memory.fresh? fill with
      | none =>
          refine ⟨fun _ => rfl, fun hfree => ?_⟩
          obtain ⟨pa, memory', hsome, -⟩ := Machine.CanGive.fresh? (n := 0) ⟨hreliable, hfree⟩ fill
          rw [hfresh] at hsome
          cases hsome
      | some result =>
          have htaken := hreliable.freeFrames_of_fresh? hfresh
          exact ⟨fun hnone => by omega, fun _ => ⟨_, _, rfl⟩⟩

/-! ## One span -/

theorem readSpan_outcome (h : Backed s) {span : Span} (hmapped : s.table.isMapped span.page = true)
    (hinside : span.offset + span.length ≤ pageSize) :
    (s.memory.machine.freeFrames < lazyPages s.table [span.page] →
      readSpan span s = .error .noMemory s) ∧
    (lazyPages s.table [span.page] ≤ s.memory.machine.freeFrames → ∃ bytes s',
      readSpan span s = .ok bytes s' ∧ bytes.length = span.length ∧
      Provided {span.page} (lazyPages s.table [span.page]) s s') := by
  obtain ⟨hfail, hpopulate⟩ := populate_outcome h.reliable hmapped
  refine ⟨fun hnone => bind_of_error (hfail hnone) _, fun hfree => ?_⟩
  obtain ⟨pa, s', hpage⟩ := hpopulate hfree
  have hprovided := provided_of_populate h.reliable hpage
  have hafter := h.of_populated hprovided.populated
  obtain ⟨b, hb, hphys⟩ := backing?_of_populate hpage
  obtain ⟨e, he, rfl⟩ := Option.map_eq_some_iff.mp hb
  obtain ⟨f, hf⟩ := Option.isSome_iff_exists.mp (hafter.backedBy _ e he pa hphys)
  have hframe : s'.memory.machine.frame? pa = some f := by
    rw [Machine.frame?, hafter.reliable.hidden_eq, if_neg List.not_mem_nil]
    exact hf
  refine ⟨f.read span.offset span.length, s', ?_, f.length_read hinside, hprovided⟩
  rw [readSpan, bind_of_ok hpage, bind_of_ok (x := get) (a := s') (t := s') rfl]
  simp only [hframe]
  rfl

/-! ## Ranges -/

theorem readSpans_outcome (h : Backed s) {spans : List Span}
    (hmapped : ∀ span ∈ spans, s.table.isMapped span.page = true)
    (hinside : ∀ span ∈ spans, span.offset + span.length ≤ pageSize)
    (hnodup : (spans.map Span.page).Nodup) (done : List (List UInt8)) :
    (s.memory.machine.freeFrames < lazyPages s.table (spans.map Span.page) →
      ∃ s', readSpans done spans s = .error .noMemory s') ∧
    (lazyPages s.table (spans.map Span.page) ≤ s.memory.machine.freeFrames →
      ∃ bytes s', readSpans done spans s = .ok bytes s' ∧
        bytes.length = done.flatten.length + (spans.map Span.length).sum ∧
        Provided {p | p ∈ spans.map Span.page} (lazyPages s.table (spans.map Span.page)) s s') := by
  induction spans generalizing s done with
  | nil =>
      refine ⟨fun h => absurd h (Nat.not_lt_zero _), fun _ => ⟨_, s, rfl, ?_, .refl s, ?_, rfl⟩⟩
      · simp
      · exact ⟨nofun, fun _ _ => rfl⟩
  | cons span spans ih =>
      obtain ⟨hfail, hread⟩ := readSpan_outcome h (hmapped span List.mem_cons_self)
        (hinside span List.mem_cons_self)
      rw [List.map_cons, lazyPages_cons]
      by_cases hfree : s.memory.machine.freeFrames < lazyPages s.table [span.page]
      · refine ⟨fun _ => ⟨s, bind_of_error (hfail hfree) _⟩, fun henough => ?_⟩
        omega
      · obtain ⟨bytes, s₁, hspan, hlength, hprovided⟩ := hread (Nat.le_of_not_lt hfree)
        obtain ⟨hnew, hnodup⟩ := List.nodup_cons.mp hnodup
        have hfreed := hprovided.freeFrames_eq
        -- the pages of the other spans are as they were
        have hkept : ∀ p ∈ spans.map Span.page, s₁.table.lookup p = s.table.lookup p := by
          intro p hp
          apply hprovided.touched.lookup_eq
          rintro rfl
          exact hnew hp
        have hmapped₁ : ∀ other ∈ spans, s₁.table.isMapped other.page = true := by
          intro other hother
          rw [PageTable.isMapped, hkept _ (List.mem_map_of_mem hother)]
          exact hmapped other (List.mem_cons_of_mem _ hother)
        have hrest := ih (h.of_populated hprovided.populated) hmapped₁
          (fun other hother => hinside other (List.mem_cons_of_mem _ hother)) hnodup (bytes :: done)
        rw [lazyPages_congr hkept] at hrest
        rw [readSpans, bind_of_ok hspan]
        refine ⟨fun hfew => hrest.1 (by omega), fun henough => ?_⟩
        obtain ⟨all, s₂, hall, htotal, hothers⟩ := hrest.2 (by omega)
        refine ⟨all, s₂, hall, ?_, ?_⟩
        · rw [htotal, List.flatten_cons, List.length_append, hlength, List.map_cons, List.sum_cons]
          omega
        · rw [Nat.add_comm]
          have hpages : {p | p ∈ span.page :: spans.map Span.page} =
              {span.page} ∪ {p | p ∈ spans.map Span.page} := by
            ext p
            simp
          rw [hpages]
          exact hprovided.trans hothers

theorem readBytes_of_permits {r : ByteRange} (h : s.table.permits r false = true) :
    readBytes r.start r.length s = readSpans [] r.spans s := by
  rw [readBytes, bind_of_ok (x := get) (a := s) (t := s) rfl]
  simp only [ByteRange.of?_eq_some_iff.mpr ⟨rfl, rfl⟩, h, if_true]

/-- A readable range is read, and its pages are touched, unless too few frames are free. -/
theorem readBytes_outcome (h : Backed s) {start length : Nat}
    (hreadable : s.table.Readable start length) :
    (s.memory.machine.freeFrames < s.table.lazyTouched start length →
      ∃ s', readBytes start length s = .error .noMemory s') ∧
    (s.table.lazyTouched start length ≤ s.memory.machine.freeFrames →
      ∃ bytes s', readBytes start length s = .ok bytes s' ∧ bytes.length = length ∧
        Provided (PageTable.pagesOf start length) (s.table.lazyTouched start length) s s') := by
  obtain ⟨r, hrange, hpermits⟩ := hreadable
  obtain ⟨rfl, rfl⟩ := ByteRange.of?_eq_some_iff.mp hrange
  have hmapped : ∀ span ∈ r.spans, s.table.isMapped span.page = true := by
    intro span hspan
    have hpage := ByteRange.page_mem_touched hspan
    exact Option.isSome_of_any (List.all_eq_true.mp hpermits _ hpage)
  have hpages : {p | p ∈ r.spans.map Span.page} = PageTable.pagesOf r.start r.length :=
    Set.ext fun _ => ByteRange.mem_page_spans_iff
  have houtcome := readSpans_outcome h hmapped (fun _ => ByteRange.span_inside) r.nodup_page_spans []
  rw [← PageTable.lazyTouched_eq, hpages, r.sum_length_spans, List.flatten_nil, List.length_nil,
    Nat.zero_add] at houtcome
  rw [readBytes_of_permits hpermits]
  exact houtcome

theorem readBytes_of_not_readable {start length : Nat} (h : ¬ s.table.Readable start length) :
    readBytes start length s = .error .fault s := by
  rw [readBytes, bind_of_ok (x := get) (a := s) (t := s) rfl]
  cases hrange : ByteRange.of? start length with
  | none => rfl
  | some r =>
      have hrefused : ¬ s.table.permits r false = true := fun hpermits => h ⟨r, hrange, hpermits⟩
      simp only [hrefused]
      rfl

end Space

end Exokernel
