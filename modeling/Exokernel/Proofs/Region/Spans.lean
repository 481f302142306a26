import Exokernel.PageRange
import Mathlib.Algebra.Ring.Nat
import Mathlib.Data.List.Nodup
import Mathlib.Order.Monotone.Basic

/-! # Ranges cut at page boundaries

The spans of a range of bytes lie one after the other, each of them in one page, and together they
are the range: the first and the last page may be touched in part. -/

namespace Exokernel

namespace PageRange

theorem map_val_toList (r : PageRange) : r.toList.map Fin.val = List.range' r.first r.count := by
  apply List.ext_getElem
  · simp
  · intro i hi hi'
    simp [toList]

theorem pairwise_toList (r : PageRange) : r.toList.Pairwise (· < ·) := by
  have hnumbers : (r.toList.map Fin.val).Pairwise (· < ·) := by
    rw [map_val_toList]
    exact List.pairwise_lt_range' 1 Nat.one_pos
  rw [List.pairwise_map] at hnumbers
  exact hnumbers

theorem nodup_toList (r : PageRange) : r.toList.Nodup :=
  r.pairwise_toList.imp Fin.ne_of_lt

theorem val_of_getElem?_toList {r : PageRange} {k : Nat} {p : VirtPage}
    (h : r.toList[k]? = some p) : p.val = r.first + k ∧ k < r.count := by
  obtain ⟨hk, rfl⟩ := List.getElem?_eq_some_iff.mp h
  exact ⟨by simp [toList], by simpa using hk⟩

theorem toList_eq_take {r r' : PageRange} {k : Nat} (hfirst : r'.first = r.first)
    (hcount : r'.count = min k r.count) : r'.toList = r.toList.take k := by
  apply List.ext_getElem
  · simp [hcount]
  · intro i hi hi'
    simp [toList, hfirst]

end PageRange

def Span.addresses (span : Span) : List Nat :=
  List.range' (span.page.start + span.offset) span.length

/-- Runs of numbers between ascending marks make up the run from the first mark to the last. -/
theorem flatMap_range'_eq {mark : Nat → Nat} (hmark : Monotone mark) (first n : Nat) :
    (List.range' first n).flatMap (fun i => List.range' (mark i) (mark (i + 1) - mark i)) =
      List.range' (mark first) (mark (first + n) - mark first) := by
  induction n with
  | zero => simp
  | succ n ih =>
      have hfirst : mark first ≤ mark (first + n) := hmark (Nat.le_add_right _ _)
      have hlast : mark (first + n) ≤ mark (first + n + 1) := hmark (Nat.le_succ _)
      have happend : List.range' (mark first) (mark (first + n) - mark first) ++
          List.range' (mark first + (mark (first + n) - mark first))
            (mark (first + n + 1) - mark (first + n)) =
          List.range' (mark first)
            (mark (first + n) - mark first + (mark (first + n + 1) - mark (first + n))) :=
        List.range'_append_1
      rw [Nat.add_sub_cancel' hfirst] at happend
      rw [List.range'_1_concat, List.flatMap_append, ih, List.flatMap_singleton, happend,
        ← Nat.add_assoc]
      congr 1
      omega

namespace ByteRange

variable {r : ByteRange} {p : VirtPage}

theorem of?_eq_some_iff {start length : Nat} :
    of? start length = some r ↔ r.start = start ∧ r.length = length := by
  rw [of?]
  constructor
  · intro h
    split at h
    · cases h
      exact ⟨rfl, rfl⟩
    · cases h
  · rintro ⟨rfl, rfl⟩
    rw [dif_pos r.bound]

/-- The touched pages of a range with bytes are those that hold one of them. -/
theorem mem_touched_iff (hlength : r.length ≠ 0) :
    p ∈ r.touched.toList ↔ ∃ i < r.length, (r.start + i) / pageSize = p.val := by
  simp only [PageRange.mem_toList, touched, pagesCovering, stop, pageSize]
  constructor
  · rintro ⟨lower, upper⟩
    exact ⟨p.val * 4096 - r.start, by omega, by omega⟩
  · rintro ⟨i, hi, hpage⟩
    omega

theorem spanIn_inside (hlength : r.length ≠ 0) (hp : p ∈ r.touched.toList) :
    (r.spanIn p).offset + (r.spanIn p).length ≤ pageSize := by
  obtain ⟨i, hi, hpage⟩ := (mem_touched_iff hlength).mp hp
  simp only [spanIn, VirtPage.start, stop, pageSize] at *
  omega

theorem page_mem_touched {span : Span} (h : span ∈ r.spans) : span.page ∈ r.touched.toList := by
  rw [spans] at h
  split at h
  · cases h
  · obtain ⟨p, hp, rfl⟩ := List.mem_map.mp h
    exact hp

theorem span_inside {span : Span} (h : span ∈ r.spans) :
    span.offset + span.length ≤ pageSize := by
  rw [spans] at h
  split at h
  · cases h
  · next hlength =>
    obtain ⟨p, hp, rfl⟩ := List.mem_map.mp h
    exact spanIn_inside hlength hp

/-- Where a page begins, but no address outside the range. -/
private def mark (r : ByteRange) (i : Nat) : Nat := min r.stop (max r.start (i * pageSize))

private theorem monotone_mark (r : ByteRange) : Monotone r.mark := by
  intro i j hij
  simp only [mark, pageSize]
  omega

private theorem addresses_spanIn (hlength : r.length ≠ 0) (hp : p ∈ r.touched.toList) :
    (r.spanIn p).addresses = List.range' (r.mark p.val) (r.mark (p.val + 1) - r.mark p.val) := by
  obtain ⟨i, hi, hpage⟩ := (mem_touched_iff hlength).mp hp
  simp only [Span.addresses, spanIn, VirtPage.start, mark, stop, pageSize] at hpage ⊢
  congr 1 <;> omega

/-- The spans of a range are the range. -/
theorem flatMap_addresses_spans (r : ByteRange) :
    r.spans.flatMap Span.addresses = List.range' r.start r.length := by
  rw [spans]
  split
  · next hempty => rw [hempty]; rfl
  · next hlength =>
    have hpages := flatMap_range'_eq r.monotone_mark r.touched.first r.touched.count
    rw [← PageRange.map_val_toList, List.flatMap_map] at hpages
    rw [List.flatMap_map, List.flatMap_congr fun p hp => addresses_spanIn hlength hp, hpages]
    -- the pages begin at or before the range and end at or after it
    have hstart : r.mark r.touched.first = r.start := by
      simp only [mark, touched, stop, pageSize]
      omega
    have hstop : r.mark (r.touched.first + r.touched.count) = r.stop := by
      simp only [mark, touched, pagesCovering, stop, pageSize]
      omega
    rw [hstart, hstop, stop, Nat.add_sub_cancel_left]

theorem sum_length_spans (r : ByteRange) : (r.spans.map Span.length).sum = r.length := by
  have hlengths : ∀ span : Span, span.addresses.length = span.length := by
    intro span
    rw [Span.addresses, List.length_range']
  have htotal := congrArg List.length r.flatMap_addresses_spans
  rw [List.length_flatMap, List.length_range'] at htotal
  rw [← htotal]
  exact congrArg List.sum (List.map_congr_left fun span _ => (hlengths span).symm)

theorem map_page_spans (hlength : r.length ≠ 0) : r.spans.map Span.page = r.touched.toList := by
  rw [spans, if_neg hlength, List.map_map]
  exact List.map_id' _

theorem nodup_page_spans (r : ByteRange) : (r.spans.map Span.page).Nodup := by
  by_cases hlength : r.length = 0
  · simp [spans, hlength]
  · rw [map_page_spans hlength]
    exact r.touched.nodup_toList

theorem mem_page_spans_iff :
    p ∈ r.spans.map Span.page ↔ ∃ i < r.length, (r.start + i) / pageSize = p.val := by
  by_cases hlength : r.length = 0
  · simp [spans, hlength]
  · rw [map_page_spans hlength, mem_touched_iff hlength]

/-! ## Shorter ranges -/

theorem touched_subset {r' : ByteRange} (hstart : r'.start = r.start) (hle : r'.length ≤ r.length)
    (hp : p ∈ r'.touched.toList) : p ∈ r.touched.toList := by
  simp only [PageRange.mem_toList, touched, pagesCovering, stop, pageSize, hstart] at hp ⊢
  omega

/-- The part of a range before a page. -/
def upTo (r : ByteRange) (p : VirtPage) : ByteRange :=
  ⟨r.start, max r.start p.start - r.start, by
    have bound := r.bound
    have hp := p.isLt
    simp only [VirtPage.start, maxUserAddress, pageSize, userPages] at *
    omega⟩

/-- The part before a touched page is shorter, and the next byte lies in that page. -/
theorem length_upTo (hlength : r.length ≠ 0) (hp : p ∈ r.touched.toList) :
    (r.upTo p).length < r.length ∧ (r.start + (r.upTo p).length) / pageSize = p.val := by
  obtain ⟨i, hi, hpage⟩ := (mem_touched_iff hlength).mp hp
  simp only [upTo, VirtPage.start, pageSize] at hpage ⊢
  omega

theorem spans_upTo (hlength : r.length ≠ 0) {k : Nat} (hp : r.touched.toList[k]? = some p) :
    (r.upTo p).spans = r.spans.take k := by
  obtain ⟨hval, hcount⟩ := PageRange.val_of_getElem?_toList hp
  obtain ⟨i, hi, hpage⟩ := (mem_touched_iff hlength).mp (List.mem_of_getElem? hp)
  rw [spans, spans, if_neg hlength]
  split
  · next hempty =>
    have hk : k = 0 := by
      simp only [upTo, touched, VirtPage.start, pageSize] at hempty hval
      omega
    rw [hk, List.take_zero]
  · next hsome =>
    have htake : (r.upTo p).touched.toList = r.touched.toList.take k := by
      refine PageRange.toList_eq_take rfl ?_
      simp only [upTo, touched, pagesCovering, stop, VirtPage.start, pageSize] at hsome hval hcount ⊢
      omega
    rw [htake, ← List.map_take]
    apply List.map_congr_left
    intro q hq
    obtain ⟨j, hj, rfl⟩ := List.mem_take_iff_getElem.mp hq
    simp only [spanIn, upTo, stop, PageRange.toList, List.getElem_ofFn, VirtPage.start, touched,
      pageSize, Span.mk.injEq, true_and] at hval hsome hpage ⊢
    omega

/-- The first spans of a range are the spans of its part before the next one. -/
theorem spans_upTo_of_append {before after : List Span} {span : Span}
    (h : r.spans = before ++ span :: after) :
    r.length ≠ 0 ∧ span.page ∈ r.touched.toList ∧ (r.upTo span.page).spans = before := by
  have hlength : r.length ≠ 0 := by
    intro hempty
    simp [spans, hempty] at h
  have hpage : r.touched.toList[before.length]? = some span.page := by
    rw [← map_page_spans hlength, h, List.getElem?_map, List.getElem?_append_right (Nat.le_refl _)]
    simp
  refine ⟨hlength, List.mem_of_getElem? hpage, ?_⟩
  rw [spans_upTo hlength hpage, h, List.take_left]

end ByteRange

end Exokernel
