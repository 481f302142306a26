import Exokernel.Layout

/-!
# Permission words

The permission word of the region calls: access bits, bits that shape the mapping, and the fill
pattern of fresh pages.  A word may carry bits that have no meaning; `Prot.ofBits?` refuses them and
`Prot.truncate` drops them.
-/

namespace Exokernel

namespace Text

/-- The text of a set of named bits: the names in order, or `0x0` for none of them. -/
def bitSet (type : String) (names : List String) : String :=
  type ++ "(" ++ (if names.isEmpty then "0x0" else " | ".intercalate names) ++ ")"

end Text

/-- The bits with a meaning. -/
inductive ProtBit where
  | exec
  | write
  | read
  /-- Keep the page shared when the address space is duplicated. -/
  | share
  /-- Put off taking a frame until the page is touched. -/
  | lazy
  /-- Keep the access bits of a mapping of the same page. -/
  | combine
  /-- Fill fresh pages with zeros. -/
  | allocZero
  /-- Fill fresh pages with ones. -/
  | allocOne
deriving DecidableEq, Inhabited

namespace ProtBit

def all : List ProtBit := [exec, write, read, share, lazy, combine, allocZero, allocOne]

def place : ProtBit → Nat
  | exec => 0
  | write => 1
  | read => 2
  | share => 6
  | lazy => 7
  | combine => 8
  | allocZero => 20
  | allocOne => 21

def name : ProtBit → String
  | exec => "EXEC"
  | write => "WRITE"
  | read => "READ"
  | share => "SHARE"
  | lazy => "LAZY"
  | combine => "COMBINE"
  | allocZero => "ALLOC_ZERO"
  | allocOne => "ALLOC_ONE"

end ProtBit

/-- A permission word. -/
@[ext]
structure Prot where
  bits : UInt32
deriving DecidableEq, Inhabited

namespace Prot

def empty : Prot := ⟨0⟩

/-- All bits with a meaning. -/
def knownBits : UInt32 := 0x3001c7

def contains (p : Prot) (b : ProtBit) : Bool := p.bits.toNat.testBit b.place

def truncate (raw : UInt32) : Prot := ⟨raw &&& knownBits⟩

/-- A word all of whose bits have a meaning. -/
def ofBits? (raw : UInt32) : Option Prot :=
  if raw &&& knownBits = raw then some ⟨raw⟩ else none

def text (p : Prot) : String :=
  Text.bitSet "Prot" ((ProtBit.all.filter p.contains).map ProtBit.name)

theorem ofBits?_eq_some_iff {raw : UInt32} {p : Prot} :
    ofBits? raw = some p ↔ p.bits = raw ∧ truncate raw = p := by
  constructor
  · intro h
    unfold ofBits? at h
    split at h
    · next known => cases h; exact ⟨rfl, Prot.ext known⟩
    · cases h
  · rintro ⟨rfl, h⟩
    have known : p.bits &&& knownBits = p.bits := congrArg Prot.bits h
    simp [ofBits?, known]

end Prot

end Exokernel
