import Exokernel.Proofs.Region.Materialising
import Exokernel.Proofs.Region.Provenance
import Exokernel.Proofs.Region.Supply

/-! # Reads are exact

A read walks over the spans of its range, and gives each page its frame on the way.  That changes
nothing of what is seen, so the bytes that it puts together are those that were seen before it
began. -/

namespace Exokernel

variable {rest : List PageTable} {s s' : Space} {p : VirtPage} {pa : PhysAddr}

namespace PageTable

variable {t : PageTable} {pool : FramePool} {f : Frame}

theorem view_of_contents (h : t.contents pool p = some f) {i : Nat} (hi : i < pageSize) :
    t.view pool (p.start + i) = f[i]? := by
  have bound := p.isLt
  have hbelow : p.start + i < maxUserAddress := by
    simp only [VirtPage.start, maxUserAddress, pageSize, userPages] at *
    omega
  have hpage : VirtAddr.page ⟨p.start + i, hbelow⟩ = p := by
    apply Fin.ext
    simp only [VirtAddr.page, VirtPage.start, pageSize] at *
    omega
  have hoffset : pageOffset (p.start + i) = i := by
    simp only [pageOffset, VirtPage.start, pageSize] at *
    omega
  rw [view, dif_pos hbelow, hpage, h, hoffset]
  rfl

theorem map_some_read {span : Span} (h : t.contents pool span.page = some f)
    (hinside : span.offset + span.length ≤ pageSize) :
    (f.read span.offset span.length).map some = span.addresses.map (t.view pool) := by
  apply List.ext_getElem
  · rw [List.length_map, f.length_read hinside, List.length_map, Span.addresses, List.length_range']
  · intro i hi hi'
    rw [List.length_map, f.length_read hinside] at hi
    have hbyte := f.getElem?_read hi hinside
    have hseen := view_of_contents h (i := span.offset + i) (by omega)
    rw [List.getElem_map, List.getElem_map, ← List.getElem?_eq_getElem, hbyte]
    simp only [Span.addresses, List.getElem_range', Nat.one_mul]
    rw [Nat.add_assoc, hseen]

end PageTable

namespace Space

theorem Grounded.backed (h : Grounded rest s) : Backed s := by
  refine ⟨h.reliable, ?_⟩
  intro p e he pa hphys
  have hp : s.table.backing? p = some e.backing := by
    rw [PageTable.backing?, he]
    rfl
  rw [← PageTable.contents_of_phys? hp hphys]
  exact h.isSome_contents List.mem_cons_self (Option.isSome_of_eq_some he)

theorem map_some_of_readSpan (h : Grounded rest s) {span : Span} {bytes : List UInt8}
    (hinside : span.offset + span.length ≤ pageSize) (hread : readSpan span s = .ok bytes s') :
    Materialised rest s s' ∧ bytes.map some = span.addresses.map (s.table.view s.pool) := by
  obtain ⟨pa, s₁, hpage, hframe⟩ := bind_eq_ok_iff.mp hread
  rw [bind_of_ok (x := get) (a := s₁) (t := s₁) rfl] at hframe
  have hafter := h.materialised_of_populate hpage
  obtain ⟨b, hb, hphys⟩ := backing?_of_populate hpage
  cases hf : s₁.memory.machine.frame? pa with
  | none =>
      simp only [hf] at hframe
      cases hframe
  | some f =>
      simp only [hf] at hframe
      cases hframe
      rw [Machine.frame?, hafter.grounded.reliable.hidden_eq, if_neg List.not_mem_nil,
        ← PageTable.contents_of_phys? hb hphys, hafter.contents_eq] at hf
      exact ⟨hafter, PageTable.map_some_read hf hinside⟩

theorem map_some_of_readSpans (h : Grounded rest s) {spans : List Span} {bytes : List UInt8}
    (hinside : ∀ span ∈ spans, span.offset + span.length ≤ pageSize) {done : List (List UInt8)}
    (hread : readSpans done spans s = .ok bytes s') :
    bytes.map some = done.reverse.flatten.map some ++
      (spans.flatMap Span.addresses).map (s.table.view s.pool) := by
  induction spans generalizing s done with
  | nil =>
      cases hread
      simp
  | cons span spans ih =>
      obtain ⟨first, s₁, hspan, hrest⟩ := bind_eq_ok_iff.mp hread
      obtain ⟨hafter, hfirst⟩ := map_some_of_readSpan h (hinside span List.mem_cons_self) hspan
      have hview : s₁.table.view s₁.pool = s.table.view s.pool :=
        funext (PageTable.view_congr hafter.contents_eq)
      have hseen := ih hafter.grounded
        (fun other hother => hinside other (List.mem_cons_of_mem _ hother)) hrest
      rw [hseen, hview]
      simp [hfirst]

theorem map_some_of_readBytes (h : Grounded rest s) {start length : Nat} {bytes : List UInt8}
    (hread : readBytes start length s = .ok bytes s') :
    bytes.map some = (List.range' start length).map (s.table.view s.pool) := by
  by_cases hreadable : s.table.Readable start length
  · obtain ⟨r, hrange, hpermits⟩ := hreadable
    obtain ⟨rfl, rfl⟩ := ByteRange.of?_eq_some_iff.mp hrange
    rw [readBytes_of_permits hpermits] at hread
    have hseen := map_some_of_readSpans h (fun _ => ByteRange.span_inside) hread
    rwa [ByteRange.flatMap_addresses_spans] at hseen
  · rw [readBytes_of_not_readable hreadable] at hread
    cases hread

/-- What a read comes to. -/
structure ReadsExactly (s : Space) (start length : Nat) : Prop where
  bytes_eq : ∀ bytes s', readBytes start length s = .ok bytes s' →
    bytes.map some = (List.range' start length).map (s.table.view s.pool)
  error_eq : s.table.Readable start length →
    ∀ e s', readBytes start length s = .error e s' → e = .noMemory
  noMemory_iff : s.table.Readable start length →
    ((∃ s', readBytes start length s = .error .noMemory s') ↔
      s.memory.machine.freeFrames < s.table.lazyTouched start length)

theorem Grounded.readsExactly (h : Grounded rest s) (start length : Nat) :
    ReadsExactly s start length := by
  refine ⟨fun bytes s' => map_some_of_readBytes h, fun hreadable => ?_, fun hreadable => ?_⟩
  all_goals
    obtain ⟨hfail, hread⟩ := readBytes_outcome h.backed hreadable
    rcases Nat.lt_or_ge s.memory.machine.freeFrames (s.table.lazyTouched start length) with
      hfew | henough
  · obtain ⟨s', herror⟩ := hfail hfew
    intro e t ht
    rw [herror] at ht
    cases ht
    rfl
  · obtain ⟨bytes, s', hok, -⟩ := hread henough
    intro e t ht
    rw [hok] at ht
    cases ht
  · exact ⟨fun _ => hfew, fun _ => hfail hfew⟩
  · obtain ⟨bytes, s', hok, -⟩ := hread henough
    refine ⟨?_, fun hfew => absurd henough (Nat.not_le_of_lt hfew)⟩
    rintro ⟨t, ht⟩
    rw [hok] at ht
    cases ht

/-- Touching a page, resolving a fault and reading bytes go unnoticed in all spaces, whatever
becomes of them, and a read returns what was seen before it. -/
theorem unnoticed_of_grounded (h : Grounded rest s) :
    (∀ p, Unnoticed rest s (stateOf (populate p s))) ∧
    (∀ p write, Unnoticed rest s (stateOf (resolveFault p write s))) ∧
    ∀ start length, Unnoticed rest s (stateOf (readBytes start length s)) ∧
      ReadsExactly s start length :=
  ⟨fun p => (materialised_populate p s (.refl h)).unnoticed,
    fun p write => (materialised_resolveFault p write s (.refl h)).unnoticed,
    fun start length => ⟨(materialised_readBytes start length s (.refl h)).unnoticed,
      h.readsExactly start length⟩⟩

theorem not_device_of_allocateRegion {r : PageRange} {req : AllocRequest} (memory : Memory)
    (p : VirtPage) (pa : PhysAddr) :
    (stateOf (allocateRegion r req ⟨memory, .empty⟩)).table.backing? p ≠ some (.device pa) := by
  intro hp
  obtain ⟨e, he, hdevice⟩ := Option.map_eq_some_iff.mp hp
  rcases lookup_allocateRegion he with hempty | ⟨-, -, u, -, -, hfresh⟩
  · rw [PageTable.lookup_empty] at hempty
    cases hempty
  · exact hfresh.not_device pa hdevice

/-- A space with a page of its own, on a machine of eight frames and a window of two device
pages. -/
def onePage : Space :=
  stateOf (allocateRegion (.one 7) ⟨⟨true, false, false, false⟩, false, .zero⟩
    ⟨.ofMachine (.sound (.fresh 8 [(0x200000, 2)]) (.withFilter none)), .empty⟩)

/-- Beside it, a space whose page 1 has no frame yet and is to be filled with ones. -/
def lazyPage : Space :=
  stateOf (allocateRegion (.one 1) ⟨⟨true, false, false, false⟩, true, .one⟩
    ⟨onePage.memory, .empty⟩)

/-- The same space with the second device page at page 2. -/
def lazyAndDevice : Space :=
  stateOf (mapDeviceRegion (.one 2) ⟨0x201000⟩ ⟨true, false, false, false⟩ lazyPage)

theorem inBalance_onePage : InBalance (fun _ => False) [] onePage := by
  apply books_owing.allocateRegion
  exact (balanced_ofMachine (FramePool.consistent_fresh 8 _) (FramePool.isUsed_fresh 8 _)).cons_empty

theorem accounting_lazyAndDevice :
    Accounting lazyAndDevice.memory [lazyAndDevice.table, onePage.table] := by
  have hlazy : InBalance (fun _ => False) [onePage.table] lazyPage := by
    apply books_owing.allocateRegion
    exact Balanced.cons_empty inBalance_onePage
  exact (books_owing.mapDeviceRegion (.one 2) ⟨0x201000⟩ ⟨true, false, false, false⟩ lazyPage
    hlazy).accounting

theorem grounded_lazyAndDevice : Grounded [onePage.table] lazyAndDevice := by
  apply grounded_of_accounting accounting_lazyAndDevice
  · exact ⟨by decide +kernel, by decide +kernel, by decide +kernel⟩
  · unfold FramePool.WindowsApart
    decide +kernel
  · intro t ht p pa hp
    rcases List.mem_cons.mp ht with rfl | ht
    · obtain ⟨e, he, hdevice⟩ := Option.map_eq_some_iff.mp hp
      rcases lookup_mapDeviceRegion he with hbefore | ⟨n, hn, rfl, -⟩
      · have hlazy : lazyPage.table.backing? p = some (.device pa) := by
          rw [PageTable.backing?, hbefore, ← hdevice]
          rfl
        exact absurd hlazy (not_device_of_allocateRegion _ p pa)
      · rw [PageRange.toList_one] at hn
        obtain ⟨hzero, -⟩ := List.getElem?_eq_some_iff.mp hn
        obtain rfl : n = 0 := by simpa using hzero
        cases hdevice
        decide +kernel
    · obtain rfl := List.mem_singleton.mp ht
      exact absurd hp (not_device_of_allocateRegion _ p pa)

theorem unnoticed_lazyAndDevice : Grounded [onePage.table] lazyAndDevice ∧
    ∃ s', readBytes 8188 8 lazyAndDevice = .ok [255, 255, 255, 255, 0, 0, 0, 0] s' ∧
      Unnoticed [onePage.table] lazyAndDevice s' ∧ ReadsExactly lazyAndDevice 8188 8 := by
  have hread : (match readBytes 8188 8 lazyAndDevice with
      | .ok bytes _ => bytes
      | .error _ _ => []) = [255, 255, 255, 255, 0, 0, 0, 0] := by decide +kernel
  obtain ⟨-, -, hreads⟩ := unnoticed_of_grounded grounded_lazyAndDevice
  obtain ⟨hunnoticed, hexact⟩ := hreads 8188 8
  cases hresult : readBytes 8188 8 lazyAndDevice with
  | error e s' =>
      rw [hresult] at hread
      cases hread
  | ok bytes s' =>
      rw [hresult] at hread hunnoticed
      cases hread
      exact ⟨grounded_lazyAndDevice, s', rfl, hunnoticed, hexact⟩

end Space

end Exokernel
