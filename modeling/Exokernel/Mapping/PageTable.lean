import Exokernel.Mapping.Entry
import Exokernel.Memory.Machine
import Exokernel.PageRange

/-!
# Page tables

The mapped pages of one address space.  Entries live in leaf tables of 512 entries.  A leaf table
takes a frame of the machine for as long as it has an entry, so mapping a page can fail for want of
memory.  `PageTable.lookup` is the view through which the other operations are described.
-/

namespace Exokernel

/-- Entries in a leaf table. -/
abbrev leafEntries : Nat := 512

/-- Leaf tables that cover user space. -/
abbrev leafTables : Nat := 1024

namespace VirtPage

def leaf (p : VirtPage) : Fin leafTables :=
  ⟨p.val / leafEntries, by
    have bound := p.isLt
    simp only [userPages, leafEntries, leafTables] at *
    omega⟩

def slot (p : VirtPage) : Fin leafEntries := ⟨p.val % leafEntries, Nat.mod_lt _ (by decide)⟩

/-- The page at a place of a leaf table. -/
def ofLeafSlot (leaf : Fin leafTables) (slot : Fin leafEntries) : VirtPage :=
  ⟨leaf.val * leafEntries + slot.val, by
    have hl := leaf.isLt
    have hs := slot.isLt
    simp only [userPages, leafEntries, leafTables] at *
    omega⟩

theorem ofLeafSlot_leaf_slot (p : VirtPage) : ofLeafSlot p.leaf p.slot = p := by
  apply Fin.ext
  simp only [ofLeafSlot, leaf, slot, leafEntries]
  omega

theorem leaf_slot_ext {p q : VirtPage} (hl : p.leaf = q.leaf) (hs : p.slot = q.slot) : p = q := by
  rw [← ofLeafSlot_leaf_slot p, ← ofLeafSlot_leaf_slot q, hl, hs]

end VirtPage

/-- The leaf tables that the pages of a range belong to, ascending. -/
def PageRange.leaves (r : PageRange) : List (Fin leafTables) :=
  if h : r.count = 0 then [] else
    List.ofFn fun i : Fin ((r.first + r.count - 1) / leafEntries - r.first / leafEntries + 1) =>
      ⟨r.first / leafEntries + i.val, by
        have bound := r.bound
        have hi := i.isLt
        simp only [userPages, leafEntries, leafTables] at *
        omega⟩

/-- A leaf table: the frame that holds it, its entries, and how many of them are set. -/
structure LeafTable where
  frame : PhysAddr
  entries : Vector (Option PageEntry) leafEntries
  live : Nat

namespace LeafTable

def get? (leaf : LeafTable) (slot : Fin leafEntries) : Option PageEntry := leaf.entries[slot]

def single (frame : PhysAddr) (slot : Fin leafEntries) (e : PageEntry) : LeafTable :=
  ⟨frame, (Vector.replicate leafEntries none).set slot (some e), 1⟩

/-- Puts an entry where none is. -/
def add (leaf : LeafTable) (slot : Fin leafEntries) (e : PageEntry) : LeafTable :=
  { leaf with entries := leaf.entries.set slot (some e), live := leaf.live + 1 }

def replace (leaf : LeafTable) (slot : Fin leafEntries) (e : PageEntry) : LeafTable :=
  { leaf with entries := leaf.entries.set slot (some e) }

def clear (leaf : LeafTable) (slot : Fin leafEntries) : LeafTable :=
  { leaf with entries := leaf.entries.set slot none, live := leaf.live - 1 }

@[simp]
theorem get?_single (frame : PhysAddr) (slot s : Fin leafEntries) (e : PageEntry) :
    (single frame slot e).get? s = if slot = s then some e else none := by
  simp [single, get?, Vector.getElem_set, Fin.ext_iff]

@[simp]
theorem get?_add (leaf : LeafTable) (slot s : Fin leafEntries) (e : PageEntry) :
    (leaf.add slot e).get? s = if slot = s then some e else leaf.get? s := by
  simp [add, get?, Vector.getElem_set, Fin.ext_iff]

@[simp]
theorem get?_replace (leaf : LeafTable) (slot s : Fin leafEntries) (e : PageEntry) :
    (leaf.replace slot e).get? s = if slot = s then some e else leaf.get? s := by
  simp [replace, get?, Vector.getElem_set, Fin.ext_iff]

@[simp]
theorem get?_clear (leaf : LeafTable) (slot s : Fin leafEntries) :
    (leaf.clear slot).get? s = if slot = s then none else leaf.get? s := by
  simp [clear, get?, Vector.getElem_set, Fin.ext_iff]

end LeafTable

/-- The page table of an address space. -/
structure PageTable where
  leaves : Vector (Option LeafTable) leafTables

namespace PageTable

def empty : PageTable := ⟨Vector.replicate leafTables none⟩

instance : Inhabited PageTable := ⟨empty⟩

def leaf? (t : PageTable) (d : Fin leafTables) : Option LeafTable := t.leaves[d]

def setLeaf (t : PageTable) (d : Fin leafTables) (leaf : Option LeafTable) : PageTable :=
  ⟨t.leaves.set d leaf⟩

def modifyLeaf (t : PageTable) (d : Fin leafTables) (f : LeafTable → LeafTable) : PageTable :=
  ⟨⟨t.leaves.toArray.modify d.val (Option.map f), by simp⟩⟩

def lookup (t : PageTable) (p : VirtPage) : Option PageEntry :=
  (t.leaf? p.leaf).bind (·.get? p.slot)

def isMapped (t : PageTable) (p : VirtPage) : Bool := (t.lookup p).isSome

def modify (t : PageTable) (p : VirtPage) (f : PageEntry → PageEntry) : PageTable :=
  match t.lookup p with
  | none => t
  | some e => t.modifyLeaf p.leaf (·.replace p.slot (f e))

/-- Maps a page: the entry that was replaced, the new table and the new machine.  None if a leaf
table is needed and the machine has no frame for it. -/
def insert (t : PageTable) (m : Machine) (p : VirtPage) (e : PageEntry) :
    Option (Option PageEntry × PageTable × Machine) :=
  match t.leaf? p.leaf with
  | some leaf =>
    match leaf.get? p.slot with
    | some old => some (some old, t.modifyLeaf p.leaf (·.replace p.slot e), m)
    | none => some (none, t.modifyLeaf p.leaf (·.add p.slot e), m)
  | none =>
    match m.alloc? with
    | none => none
    | some (frame, m) =>
      some (none, t.setLeaf p.leaf (some (LeafTable.single frame p.slot e)), m)

/-- Unmaps a page: the entry that was removed, the new table and the new machine.  A leaf table that
loses its last entry gives its frame back. -/
def remove (t : PageTable) (m : Machine) (p : VirtPage) :
    Option PageEntry × PageTable × Machine :=
  match t.leaf? p.leaf with
  | none => (none, t, m)
  | some leaf =>
    match leaf.get? p.slot with
    | none => (none, t, m)
    | some old =>
      if leaf.live ≤ 1 then (some old, t.setLeaf p.leaf none, m.free leaf.frame)
      else (some old, t.modifyLeaf p.leaf (·.clear p.slot), m)

/-- The entries of a leaf table with their pages, ascending. -/
def leafMappings (d : Fin leafTables) (leaf : LeafTable) : List (VirtPage × PageEntry) :=
  (List.finRange leafEntries).filterMap fun slot =>
    (leaf.get? slot).map fun e => (VirtPage.ofLeafSlot d slot, e)

/-- All mapped pages with their entries, ascending. -/
def mappings (t : PageTable) : List (VirtPage × PageEntry) :=
  (List.finRange leafTables).flatMap fun d =>
    match t.leaf? d with
    | none => []
    | some leaf => leafMappings d leaf

def leafList (t : PageTable) : List LeafTable := t.leaves.toList.filterMap id

def tablePages (t : PageTable) : Nat := t.leafList.length

def mappedPages (t : PageTable) : Nat := t.leafList.foldr (fun leaf n => leaf.live + n) 0

/-- The number of leaf tables that mapping every page of a range would still take. -/
def missingTables (t : PageTable) (r : PageRange) : Nat :=
  r.leaves.countP fun d => (t.leaf? d).isNone

def isVacant (t : PageTable) (r : PageRange) : Bool := r.toList.all fun p => !t.isMapped p

/-- Every byte of the range can be reached by user code, for writing if `write` is set.  An empty
range inside a page asks for that page. -/
def permits (t : PageTable) (r : ByteRange) (write : Bool) : Bool :=
  r.touched.toList.all fun p => (t.lookup p).any (·.permits write)

@[simp]
theorem leaf?_empty (d : Fin leafTables) : empty.leaf? d = none := by
  simp [leaf?, empty]

theorem leaf?_setLeaf (t : PageTable) (d d' : Fin leafTables) (leaf : Option LeafTable) :
    (t.setLeaf d leaf).leaf? d' = if d = d' then leaf else t.leaf? d' := by
  simp only [setLeaf, leaf?, Fin.getElem_fin, Vector.getElem_set, Fin.ext_iff]

theorem leaf?_modifyLeaf (t : PageTable) (d d' : Fin leafTables) (f : LeafTable → LeafTable) :
    (t.modifyLeaf d f).leaf? d' = if d = d' then (t.leaf? d').map f else t.leaf? d' := by
  simp only [modifyLeaf, leaf?, Fin.getElem_fin, Vector.getElem_mk, Array.getElem_modify,
    Fin.ext_iff]
  rfl

@[simp]
theorem lookup_empty (p : VirtPage) : empty.lookup p = none := by
  simp [lookup]

theorem lookup_modify (t : PageTable) (p q : VirtPage) (f : PageEntry → PageEntry) :
    (t.modify p f).lookup q = if p = q then (t.lookup q).map f else t.lookup q := by
  unfold modify
  split
  · next hole =>
    split
    · next h => rw [← h, hole]; rfl
    · rfl
  · next e found =>
    obtain ⟨leaf, hleaf, hentry⟩ := Option.bind_eq_some_iff.mp found
    by_cases hpq : p = q
    · subst hpq
      simp [lookup, leaf?_modifyLeaf, hleaf, hentry]
    · rw [if_neg hpq, lookup, leaf?_modifyLeaf, lookup]
      split
      · next hl =>
        have hs : p.slot ≠ q.slot := fun hs => hpq (VirtPage.leaf_slot_ext hl hs)
        simp [← hl, hleaf, hs]
      · rfl

theorem lookup_insert {t t' : PageTable} {m m' : Machine} {p : VirtPage} {e : PageEntry}
    {old : Option PageEntry} (h : t.insert m p e = some (old, t', m')) (q : VirtPage) :
    t'.lookup q = if p = q then some e else t.lookup q := by
  have apart : p.leaf = q.leaf → p ≠ q → p.slot ≠ q.slot := fun hl hpq hs =>
    hpq (VirtPage.leaf_slot_ext hl hs)
  unfold insert at h
  split at h
  · next leaf hleaf =>
    split at h
    all_goals
      cases h
      by_cases hpq : p = q
      · subst hpq
        simp [lookup, leaf?_modifyLeaf, hleaf]
      · rw [if_neg hpq, lookup, leaf?_modifyLeaf, lookup]
        split
        · next hl => simp [← hl, hleaf, apart hl hpq]
        · rfl
  · next hleaf =>
    split at h
    · cases h
    · cases h
      by_cases hpq : p = q
      · subst hpq
        simp [lookup, leaf?_setLeaf]
      · rw [if_neg hpq, lookup, leaf?_setLeaf, lookup]
        split
        · next hl => simp [← hl, hleaf, apart hl hpq]
        · rfl

theorem old_of_insert {t t' : PageTable} {m m' : Machine} {p : VirtPage} {e : PageEntry}
    {old : Option PageEntry} (h : t.insert m p e = some (old, t', m')) : old = t.lookup p := by
  unfold insert at h
  unfold lookup
  split at h
  · next leaf hleaf =>
    rw [hleaf]
    split at h <;> cases h <;> simp [*]
  · next hleaf =>
    rw [hleaf]
    split at h <;> cases h
    rfl

theorem fst_remove (t : PageTable) (m : Machine) (p : VirtPage) :
    (t.remove m p).1 = t.lookup p := by
  unfold remove lookup
  split
  · next hleaf => simp [hleaf]
  · next leaf hleaf =>
    rw [hleaf, Option.bind_some]
    split
    · next hentry => rw [hentry]
    · next old hentry =>
      rw [hentry]
      split <;> rfl

end PageTable

end Exokernel
