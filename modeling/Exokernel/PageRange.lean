import Exokernel.Address

/-!
# Ranges of user memory

Runs of pages and runs of bytes below the ceiling of user space.  Both stay below it by their type,
so every page that they name is a page of user space.
-/

namespace Exokernel

/-- A run of user pages. -/
@[ext]
structure PageRange where
  first : Nat
  count : Nat
  bound : first + count ≤ userPages
deriving DecidableEq

namespace PageRange

def toList (r : PageRange) : List VirtPage :=
  List.ofFn fun i : Fin r.count => ⟨r.first + i.val, by
    have bound := r.bound
    omega⟩

def start (r : PageRange) : Nat := r.first * pageSize

def isEmpty (r : PageRange) : Bool := r.count == 0

def one (p : VirtPage) : PageRange := ⟨p.val, 1, p.isLt⟩

/-- The range of an argument pair, both of which lie on page boundaries. -/
def ofWords? (va len : Word) : Option PageRange :=
  if h : isPageAligned va.toNat ∧ isPageAligned len.toNat ∧ va.toNat < maxUserAddress ∧
      va.toNat + len.toNat ≤ maxUserAddress then
    some ⟨va.toNat / pageSize, len.toNat / pageSize, by
      obtain ⟨-, -, -, bound⟩ := h
      simp only [maxUserAddress, pageSize, userPages] at *
      omega⟩
  else none

/-- The smallest range that covers the bytes of an argument pair, cut off at the ceiling; none when
they start at or above it. -/
def covering? (va len : Word) : Option PageRange :=
  if h : va.toNat < maxUserAddress then
    let limit := min (va.toNat + len.toNat) maxUserAddress
    let first := va.toNat / pageSize
    some ⟨first, if len = 0 then 0 else pagesCovering limit - first, by
      have below : limit ≤ maxUserAddress := Nat.min_le_right _ _
      simp only [first, pagesCovering, maxUserAddress, pageSize, userPages] at *
      split <;> omega⟩
  else none

@[simp]
theorem length_toList (r : PageRange) : r.toList.length = r.count := by
  simp [toList]

theorem mem_toList {r : PageRange} {p : VirtPage} :
    p ∈ r.toList ↔ r.first ≤ p.val ∧ p.val < r.first + r.count := by
  simp only [toList, List.mem_ofFn]
  constructor
  · rintro ⟨i, rfl⟩
    exact ⟨Nat.le_add_right _ _, Nat.add_lt_add_left i.isLt _⟩
  · rintro ⟨lower, upper⟩
    refine ⟨⟨p.val - r.first, by omega⟩, Fin.ext ?_⟩
    simp only
    omega

@[simp]
theorem toList_one (p : VirtPage) : (one p).toList = [p] := by
  simp [toList, one]

end PageRange

/-- A run of user bytes. -/
@[ext]
structure ByteRange where
  start : Nat
  length : Nat
  bound : start + length ≤ maxUserAddress
deriving DecidableEq

/-- The part of a run of bytes that lies in one page. -/
structure Span where
  page : VirtPage
  offset : Nat
  length : Nat
deriving DecidableEq

namespace ByteRange

/-- The range of `length` bytes from `start` on; none if it reaches past the ceiling. -/
def of? (start length : Nat) : Option ByteRange :=
  if h : start + length ≤ maxUserAddress then some ⟨start, length, h⟩ else none

def stop (r : ByteRange) : Nat := r.start + r.length

/-- The pages from the one that holds the start up to the end.  An empty range inside a page still
names that page. -/
def touched (r : ByteRange) : PageRange :=
  ⟨r.start / pageSize, pagesCovering r.stop - r.start / pageSize, by
    have bound := r.bound
    simp only [pagesCovering, stop, maxUserAddress, pageSize, userPages] at *
    omega⟩

def spanIn (r : ByteRange) (p : VirtPage) : Span :=
  let lower := max r.start p.start
  let upper := min r.stop (p.start + pageSize)
  ⟨p, lower - p.start, upper - lower⟩

/-- A range cut at the page boundaries, in ascending order. -/
def spans (r : ByteRange) : List Span :=
  if r.length = 0 then [] else r.touched.toList.map r.spanIn

end ByteRange

end Exokernel
