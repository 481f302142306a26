import Exokernel.Proofs.Region.Spans
import Mathlib.Data.Nat.Bitwise

/-! # Ranges from argument words

Two words of a request name a range of pages: they are taken as they are, if they lie on page
boundaries, or rounded outward and cut off at the ceiling.  In either case the pages are those that
hold one of the bytes asked for.  A machine does this in words, and walks over the addresses of the
pages in words, where a sum or a product could wrap around and a difference could be negative.  None
of them ever does. -/

namespace Exokernel

/-! ## Word arithmetic -/

namespace Word

/-- The sum of two words, unless it passes the word size. -/
def add? (a b : Word) : Option Word := if a.toNat + b.toNat < wordLimit then some (a + b) else none

/-- The difference of two words, unless it is negative. -/
def sub? (a b : Word) : Option Word := if b.toNat ≤ a.toNat then some (a - b) else none

/-- The product of two words, unless it passes the word size. -/
def mul? (a b : Word) : Option Word := if a.toNat * b.toNat < wordLimit then some (a * b) else none

/-- The sum of two words, or the largest word if that is smaller. -/
def saturatingAdd (a b : Word) : Word := (add? a b).getD (-1)

/-- The page boundary at or below a word. -/
def floor (a : Word) : Word := a &&& ~~~4095

/-- The page boundary at or above a word, unless rounding up passes the word size. -/
def ceil? (a : Word) : Option Word := (add? a 4095).map floor

def ceiling : Word := 0x80000000

variable {a b c : Word}

theorem toNat_ceiling : ceiling.toNat = maxUserAddress := rfl

theorem add?_eq_some (h : a.toNat + b.toNat < wordLimit) :
    add? a b = some (a + b) ∧ (a + b).toNat = a.toNat + b.toNat := by
  refine ⟨if_pos h, ?_⟩
  rw [UInt64.toNat_add]
  exact Nat.mod_eq_of_lt h

theorem add?_eq_some_iff : add? a b = some c ↔ c.toNat = a.toNat + b.toNat := by
  have bound := c.toNat_lt
  constructor
  · intro h
    by_cases hfits : a.toNat + b.toNat < wordLimit
    · obtain ⟨hsum, hvalue⟩ := add?_eq_some hfits
      rw [hsum] at h
      cases h
      exact hvalue
    · rw [add?, if_neg hfits] at h
      cases h
  · intro h
    obtain ⟨hsum, hvalue⟩ := add?_eq_some (h ▸ bound)
    rw [hsum, ← UInt64.toNat_inj.mp (hvalue.trans h.symm)]

theorem sub?_eq_some (h : b.toNat ≤ a.toNat) :
    sub? a b = some (a - b) ∧ (a - b).toNat = a.toNat - b.toNat :=
  ⟨if_pos h, UInt64.toNat_sub_of_le _ _ (UInt64.le_iff_toNat_le.mpr h)⟩

theorem mul?_eq_some (h : a.toNat * b.toNat < wordLimit) :
    mul? a b = some (a * b) ∧ (a * b).toNat = a.toNat * b.toNat := by
  refine ⟨if_pos h, ?_⟩
  rw [UInt64.toNat_mul]
  exact Nat.mod_eq_of_lt h

theorem toNat_saturatingAdd (a b : Word) :
    (saturatingAdd a b).toNat = min (a.toNat + b.toNat) (wordLimit - 1) := by
  rw [saturatingAdd]
  by_cases h : a.toNat + b.toNat < wordLimit
  · obtain ⟨hsum, hvalue⟩ := add?_eq_some h
    rw [hsum, Option.getD_some, hvalue, Nat.min_eq_left (Nat.le_sub_one_of_lt h)]
  · rw [add?, if_neg h, Option.getD_none, Nat.min_eq_right (by omega)]
    rfl

theorem toNat_floor (a : Word) : (floor a).toNat = pageFloor a.toNat := by
  have hmask : (floor a).toBitVec = a.toBitVec >>> 12 <<< 12 := by
    rw [BitVec.shiftLeft_ushiftRight, floor, UInt64.toBitVec_and]
    rfl
  have hvalue := congrArg BitVec.toNat hmask
  have bound := a.toNat_lt
  rw [BitVec.toNat_shiftLeft, BitVec.toNat_ushiftRight, Nat.shiftRight_eq_div_pow, Nat.shiftLeft_eq,
    Nat.mod_eq_of_lt] at hvalue
  · exact hvalue
  · change a.toNat / 2 ^ 12 * 2 ^ 12 < 2 ^ 64
    omega

/-- Rounding up gives what it gives for numbers, and fails where it does. -/
theorem map_toNat_ceil? (a : Word) : (ceil? a).map UInt64.toNat = pageCeil? a.toNat := by
  rw [ceil?, pageCeil?]
  by_cases h : a.toNat + (pageSize - 1) < wordLimit
  · obtain ⟨hsum, hvalue⟩ := add?_eq_some (a := a) (b := 4095) h
    rw [hsum, if_pos h, Option.map_some, Option.map_some, toNat_floor, hvalue]
    rfl
  · have hnone : add? a 4095 = none := if_neg h
    rw [if_neg h, hnone]
    rfl

theorem and_pageMask_eq_zero_iff (a : Word) : a &&& 4095 = 0 ↔ isPageAligned a.toNat = true := by
  rw [isPageAligned_iff, ← UInt64.toNat_inj, UInt64.toNat_and]
  exact Iff.of_eq (congrArg (· = 0) (Nat.and_two_pow_sub_one_eq_mod a.toNat 12))

end Word

/-- A run of pages as a machine holds it: the address of the first page, and their number. -/
structure WordRange where
  start : Word
  pages : Word

namespace WordRange

/-- The words stand for a range. -/
structure Holds (w : WordRange) (r : PageRange) : Prop where
  start_eq : w.start.toNat = r.start
  pages_eq : w.pages.toNat = r.count

/-- The range of an argument pair, both of which lie on page boundaries. -/
def user? (va len : Word) : Option WordRange :=
  if va < Word.ceiling ∧ va &&& 4095 = 0 ∧ len &&& 4095 = 0 then
    (Word.add? va len).bind fun stop => if stop ≤ Word.ceiling then some ⟨va, len / 4096⟩ else none
  else none

/-- The range that covers the bytes of an argument pair, cut off at the ceiling. -/
def covering? (va len : Word) : Option WordRange :=
  if va < Word.ceiling then
    let start := Word.floor va
    if len = 0 then some ⟨start, 0⟩
    else
      let limit := min (Word.saturatingAdd va len) Word.ceiling
      (Word.sub? ((Word.ceil? limit).getD Word.ceiling) start).map fun bytes => ⟨start, bytes / 4096⟩
  else none

def one (va : Word) : WordRange := ⟨Word.floor va, 1⟩

def address? (w : WordRange) (i : Nat) : Option Word :=
  (Word.mul? (UInt64.ofNat i) 4096).bind fun bytes => Word.add? w.start bytes

end WordRange

namespace PageRange

variable {r : PageRange} {p : VirtPage} {va len : Word}

/-! ## The pages that hold the bytes -/

theorem exists_byte_iff {lower upper page : Nat} (h : lower < upper) :
    (∃ addr, lower ≤ addr ∧ addr < upper ∧ addr / pageSize = page) ↔
      lower / pageSize ≤ page ∧ page < pagesCovering upper := by
  simp only [pagesCovering, pageSize]
  constructor
  · rintro ⟨addr, hlower, hupper, hpage⟩
    omega
  · rintro ⟨hfirst, hlast⟩
    exact ⟨max lower (page * 4096), by omega, by omega, by omega⟩

theorem isSome_ofWords?_iff : (ofWords? va len).isSome = true ↔
    isPageAligned va.toNat = true ∧ isPageAligned len.toNat = true ∧ va.toNat < maxUserAddress ∧
      va.toNat + len.toNat ≤ maxUserAddress := by
  rw [ofWords?]
  split
  · next h => exact iff_of_true rfl h
  · next h => exact iff_of_false Bool.false_ne_true h

theorem isSome_covering?_iff : (covering? va len).isSome = true ↔ va.toNat < maxUserAddress := by
  rw [covering?]
  split
  · next h => exact iff_of_true rfl h
  · next h => exact iff_of_false Bool.false_ne_true h

theorem eq_of_ofWords? (h : ofWords? va len = some r) :
    r.first = va.toNat / pageSize ∧ r.count = len.toNat / pageSize := by
  rw [ofWords?] at h
  split at h
  · cases h
    exact ⟨rfl, rfl⟩
  · cases h

theorem eq_of_covering? (h : covering? va len = some r) :
    r.first = va.toNat / pageSize ∧ r.count = if len = 0 then 0
      else pagesCovering (min (va.toNat + len.toNat) maxUserAddress) - va.toNat / pageSize := by
  rw [covering?] at h
  split at h
  · cases h
    exact ⟨rfl, rfl⟩
  · cases h

/-- The pages of an aligned range are those that hold one of its bytes. -/
theorem mem_of_ofWords?_iff (h : ofWords? va len = some r) : p ∈ r.toList ↔
    ∃ addr, va.toNat ≤ addr ∧ addr < va.toNat + len.toNat ∧ addr / pageSize = p.val := by
  obtain ⟨hva, hlen, -, -⟩ := isSome_ofWords?_iff.mp (Option.isSome_of_eq_some h)
  obtain ⟨hfirst, hcount⟩ := eq_of_ofWords? h
  rw [isPageAligned_iff] at hva hlen
  rw [mem_toList, hfirst, hcount]
  rcases Nat.eq_zero_or_pos len.toNat with hzero | hpos
  · rw [hzero, Nat.zero_div, Nat.add_zero, Nat.add_zero]
    refine iff_of_false (by omega) ?_
    rintro ⟨addr, hlower, hupper, -⟩
    omega
  · rw [exists_byte_iff (Nat.lt_add_of_pos_right hpos)]
    simp only [pagesCovering, pageSize] at *
    omega

theorem mem_of_covering?_iff (h : covering? va len = some r) : p ∈ r.toList ↔
    ∃ addr, va.toNat ≤ addr ∧ addr < min (va.toNat + len.toNat) maxUserAddress ∧
      addr / pageSize = p.val := by
  have hbelow := isSome_covering?_iff.mp (Option.isSome_of_eq_some h)
  obtain ⟨hfirst, hcount⟩ := eq_of_covering? h
  rw [mem_toList, hfirst, hcount]
  by_cases hlen : len = 0
  · subst hlen
    rw [if_pos rfl, UInt64.toNat_zero, Nat.add_zero, Nat.add_zero]
    refine iff_of_false (by omega) ?_
    rintro ⟨addr, hlower, hupper, -⟩
    omega
  · have hpos : 0 < len.toNat := Nat.pos_of_ne_zero fun hzero => hlen (UInt64.toNat_inj.mp hzero)
    rw [if_neg hlen, exists_byte_iff (by omega)]
    simp only [pagesCovering, pageSize]
    omega

/-! ## The walk over the pages -/

def addresses (r : PageRange) : List Nat := r.toList.map VirtPage.start

theorem addresses_eq (r : PageRange) : r.addresses = List.range' r.start r.count pageSize := by
  apply List.ext_getElem
  · simp [addresses]
  · intro i hi hi'
    simp only [addresses, toList, List.getElem_map, List.getElem_ofFn, VirtPage.start,
      List.getElem_range', start]
    rw [Nat.add_mul, Nat.mul_comm i]

/-- What a walk over the pages of a range meets. -/
structure Walks (r : PageRange) : Prop where
  aligned : ∀ addr ∈ r.addresses, isPageAligned addr = true
  below : ∀ addr ∈ r.addresses, addr < maxUserAddress
  ascending : r.addresses.Pairwise (· < ·)
  /-- In words, no product and no sum wraps around on the way. -/
  inWords : ∀ w : WordRange, w.Holds r → ∀ i < r.count,
    (w.address? i).map UInt64.toNat = r.addresses[i]?

theorem walks (r : PageRange) : r.Walks where
  aligned addr haddr := by
    obtain ⟨p, -, rfl⟩ := List.mem_map.mp haddr
    rw [isPageAligned_iff]
    exact Nat.mul_mod_left p.val pageSize
  below addr haddr := by
    obtain ⟨p, -, rfl⟩ := List.mem_map.mp haddr
    have hp := p.isLt
    simp only [VirtPage.start, maxUserAddress, pageSize, userPages] at *
    omega
  ascending := by
    rw [addresses_eq]
    exact List.pairwise_lt_range' pageSize (by decide)
  inWords w hw i hi := by
    have bound := r.bound
    have hindex : (UInt64.ofNat i).toNat = i := by
      rw [UInt64.toNat_ofNat']
      exact Nat.mod_eq_of_lt (by simp only [userPages] at bound; omega)
    have hbytes : (UInt64.ofNat i).toNat * (4096 : Word).toNat = i * pageSize := by
      rw [hindex]
      rfl
    have hfits : r.start + i * pageSize < wordLimit := by
      simp only [start, pageSize, userPages, wordLimit] at *
      omega
    have hproductFits : (UInt64.ofNat i).toNat * (4096 : Word).toNat < wordLimit := by
      rw [hbytes]
      exact Nat.lt_of_le_of_lt (Nat.le_add_left _ _) hfits
    obtain ⟨hmul, hproduct⟩ := Word.mul?_eq_some hproductFits
    have hsumFits : w.start.toNat + (UInt64.ofNat i * 4096).toNat < wordLimit := by
      rw [hproduct, hbytes, hw.start_eq]
      exact hfits
    obtain ⟨hadd, hsum⟩ := Word.add?_eq_some hsumFits
    rw [WordRange.address?, hmul, Option.bind_some, hadd, Option.map_some, hsum, hproduct, hbytes,
      hw.start_eq, addresses_eq, List.getElem?_range' hi, Nat.mul_comm i]

/-! ## Ranges in words -/

theorem rel_user? (va len : Word) :
    Option.Rel WordRange.Holds (WordRange.user? va len) (ofWords? va len) := by
  have hguard : (va < Word.ceiling ∧ va &&& 4095 = 0 ∧ len &&& 4095 = 0) ↔
      va.toNat < maxUserAddress ∧ isPageAligned va.toNat = true ∧ isPageAligned len.toNat = true := by
    rw [UInt64.lt_iff_toNat_lt, Word.toNat_ceiling, Word.and_pageMask_eq_zero_iff,
      Word.and_pageMask_eq_zero_iff]
  rw [WordRange.user?]
  by_cases hargs : va < Word.ceiling ∧ va &&& 4095 = 0 ∧ len &&& 4095 = 0
  · obtain ⟨hbelow, hva, hlen⟩ := hguard.mp hargs
    rw [if_pos hargs]
    by_cases hstop : va.toNat + len.toNat ≤ maxUserAddress
    · obtain ⟨hsum, hvalue⟩ := Word.add?_eq_some (Nat.lt_of_le_of_lt hstop (by decide))
      have hle : va + len ≤ Word.ceiling := by
        rw [UInt64.le_iff_toNat_le, hvalue]
        exact hstop
      rw [hsum, Option.bind_some, if_pos hle, ofWords?, dif_pos ⟨hva, hlen, hbelow, hstop⟩]
      refine .some ⟨?_, UInt64.toNat_div _ _⟩
      rw [isPageAligned_iff] at hva
      simp only [start, pageSize] at *
      omega
    · have hnone : ofWords? va len = none := dif_neg fun h => hstop h.2.2.2
      rw [hnone]
      cases hsum : Word.add? va len with
      | none => exact .none
      | some stop =>
          have hle : ¬ stop ≤ Word.ceiling := by
            rw [UInt64.le_iff_toNat_le, Word.add?_eq_some_iff.mp hsum]
            exact hstop
          rw [Option.bind_some, if_neg hle]
          exact .none
  · have hnone : ofWords? va len = none := dif_neg fun h => hargs (hguard.mpr ⟨h.2.2.1, h.1, h.2.1⟩)
    rw [if_neg hargs, hnone]
    exact .none

theorem ceil?_limit (va len : Word) :
    ∃ stop, Word.ceil? (min (Word.saturatingAdd va len) Word.ceiling) = some stop ∧
      stop.toNat = pagesCovering (min (va.toNat + len.toNat) maxUserAddress) * pageSize := by
  have hlimit : (min (Word.saturatingAdd va len) Word.ceiling).toNat =
      min (va.toNat + len.toNat) maxUserAddress := by
    rw [UInt64.toNat_min, Word.toNat_saturatingAdd, Word.toNat_ceiling]
    simp only [wordLimit, maxUserAddress]
    omega
  have hceil := Word.map_toNat_ceil? (min (Word.saturatingAdd va len) Word.ceiling)
  rw [hlimit, pageCeil?, if_pos] at hceil
  · exact Option.map_eq_some_iff.mp hceil
  · simp only [wordLimit, maxUserAddress, pageSize]
    omega

theorem rel_covering? (va len : Word) :
    Option.Rel WordRange.Holds (WordRange.covering? va len) (covering? va len) := by
  rw [WordRange.covering?, covering?]
  by_cases hbelow : va.toNat < maxUserAddress
  · rw [if_pos (UInt64.lt_iff_toNat_lt.mpr hbelow), dif_pos hbelow]
    by_cases hlen : len = 0
    · simp only [if_pos hlen]
      exact .some ⟨Word.toNat_floor va, rfl⟩
    · obtain ⟨stop, hceil, hstop⟩ := ceil?_limit va len
      have hfloor := Word.toNat_floor va
      have hpos : 0 < len.toNat := Nat.pos_of_ne_zero fun hzero => hlen (UInt64.toNat_inj.mp hzero)
      -- the first page begins at or before the end, so the difference is not negative
      have hle : (Word.floor va).toNat ≤ stop.toNat := by
        rw [hfloor, hstop]
        simp only [pageFloor, pagesCovering, pageSize]
        omega
      obtain ⟨hsub, hbytes⟩ := Word.sub?_eq_some hle
      simp only [if_neg hlen, hceil, Option.getD_some, hsub, Option.map_some]
      refine .some ⟨hfloor, ?_⟩
      have hpages : ((stop - Word.floor va) / 4096).toNat =
          (stop - Word.floor va).toNat / pageSize := UInt64.toNat_div _ _
      rw [hpages, hbytes, hstop, hfloor, pageFloor, ← Nat.sub_mul]
      exact Nat.mul_div_cancel _ (by decide)
  · rw [if_neg fun h => hbelow (UInt64.lt_iff_toNat_lt.mp h), dif_neg hbelow]
    exact .none

/-! ## Decoding -/

/-- What two argument words name: as a range that is taken as it is, and as one that is rounded
outward; and what a user address names as a single page. -/
structure Decodes (va len : Word) : Prop where
  user_isSome_iff : (ofWords? va len).isSome = true ↔
    isPageAligned va.toNat = true ∧ isPageAligned len.toNat = true ∧ va.toNat < maxUserAddress ∧
      va.toNat + len.toNat ≤ maxUserAddress
  user_mem_iff : ∀ r, ofWords? va len = some r → ∀ p, p ∈ r.toList ↔
    ∃ addr, va.toNat ≤ addr ∧ addr < va.toNat + len.toNat ∧ addr / pageSize = p.val
  user_words : Option.Rel WordRange.Holds (WordRange.user? va len) (ofWords? va len)
  user_walks : ∀ r, ofWords? va len = some r → r.Walks
  covering_isSome_iff : (covering? va len).isSome = true ↔ va.toNat < maxUserAddress
  covering_contains : ∀ r, covering? va len = some r →
    ∀ addr, va.toNat ≤ addr → addr < min (va.toNat + len.toNat) maxUserAddress →
      ∃ p ∈ r.toList, p.start ≤ addr ∧ addr < p.start + pageSize
  /-- No smaller run of pages holds the bytes. -/
  covering_least : ∀ r, covering? va len = some r → ∀ first stop : Nat,
    (∀ addr, va.toNat ≤ addr → addr < min (va.toNat + len.toNat) maxUserAddress →
      first * pageSize ≤ addr ∧ addr < stop * pageSize) →
    ∀ p ∈ r.toList, first ≤ p.val ∧ p.val < stop
  covering_isEmpty_iff : ∀ r, covering? va len = some r → (r.isEmpty = true ↔ len = 0)
  covering_words : Option.Rel WordRange.Holds (WordRange.covering? va len) (covering? va len)
  covering_walks : ∀ r, covering? va len = some r → r.Walks
  one_mem_iff : ∀ addr, VirtAddr.ofWord? va = some addr → ∀ p, p ∈ (one addr.page).toList ↔
    p.start ≤ va.toNat ∧ va.toNat < p.start + pageSize
  one_words : ∀ addr, VirtAddr.ofWord? va = some addr → (WordRange.one va).Holds (one addr.page)
  one_walks : ∀ addr, VirtAddr.ofWord? va = some addr → (one addr.page).Walks

/-- No range of pages that comes out of argument words reaches past the ceiling, and none takes a
machine past its words. -/
theorem decodes_words (va len : Word) : Decodes va len where
  user_isSome_iff := isSome_ofWords?_iff
  user_mem_iff _ h _ := mem_of_ofWords?_iff h
  user_words := rel_user? va len
  user_walks r _ := r.walks
  covering_isSome_iff := isSome_covering?_iff
  covering_contains r h addr hlower hupper := by
    have hbelow : addr < maxUserAddress := Nat.lt_of_lt_of_le hupper (Nat.min_le_right _ _)
    refine ⟨VirtAddr.page ⟨addr, hbelow⟩, (mem_of_covering?_iff h).mpr ⟨addr, hlower, hupper, rfl⟩, ?_⟩
    simp only [VirtPage.start, VirtAddr.page, pageSize]
    omega
  covering_least r h first stop hbytes p hp := by
    obtain ⟨addr, hlower, hupper, hpage⟩ := (mem_of_covering?_iff h).mp hp
    have hinside := hbytes addr hlower hupper
    simp only [pageSize] at hpage hinside
    omega
  covering_isEmpty_iff r h := by
    have hbelow := isSome_covering?_iff.mp (Option.isSome_of_eq_some h)
    obtain ⟨-, hcount⟩ := eq_of_covering? h
    rw [isEmpty, hcount, beq_iff_eq]
    split
    · next hlen => exact iff_of_true rfl hlen
    · next hlen =>
      have hpos : len.toNat ≠ 0 := fun hzero => hlen (UInt64.toNat_inj.mp hzero)
      refine iff_of_false ?_ hlen
      simp only [pagesCovering, pageSize]
      omega
  covering_words := rel_covering? va len
  covering_walks r _ := r.walks
  one_mem_iff addr h p := by
    rw [VirtAddr.ofWord?_eq_some_iff] at h
    rw [toList_one, List.mem_singleton, ← h, Fin.ext_iff]
    simp only [VirtAddr.page, VirtPage.start, pageSize]
    omega
  one_words addr h := by
    rw [VirtAddr.ofWord?_eq_some_iff] at h
    refine ⟨?_, rfl⟩
    rw [WordRange.one, Word.toNat_floor, ← h]
    rfl
  one_walks addr _ := (one addr.page).walks

/-- The byte below the ceiling is covered by the last page, however many bytes were asked for. -/
example : (covering? 0x7fffffff 0xffffffffffffffff).map (fun r => (r.first, r.count)) =
    some (userPages - 1, 1) := by decide

end PageRange

end Exokernel
