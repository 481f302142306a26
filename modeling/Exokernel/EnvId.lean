import Exokernel.Text.Hex

/-!
# Environment identifiers

An identifier is a registry slot tagged with the slot's generation: the low ten bits hold the slot,
the bits above them the generation.  Zero is no environment's identifier and names the caller.
-/

namespace Exokernel

/-- The number of slots that an identifier can tell apart. -/
abbrev maxEnvs : Nat := 1024

/-- The largest generation: with it in place an identifier is still positive as a signed word. -/
abbrev maxGeneration : Nat := 2097151

/-- The name of an environment. -/
@[ext]
structure EnvId where
  raw : UInt32
deriving DecidableEq, Inhabited

namespace EnvId

/-- The identifier that stands for the calling environment. -/
def self : EnvId := ⟨0⟩

/-- The identifier of a slot in a generation.  Bits that do not fit are lost. -/
def ofParts (index generation : Nat) : EnvId :=
  ⟨UInt32.ofNat (generation * maxEnvs + index % maxEnvs)⟩

/-- An identifier as it is passed in an argument word. -/
def ofWord (w : UInt64) : EnvId := ⟨w.toUInt32⟩

def toWord (id : EnvId) : UInt64 := id.raw.toUInt64

def index (id : EnvId) : Nat := id.raw.toNat % maxEnvs

def generation (id : EnvId) : Nat := id.raw.toNat / maxEnvs

def isSelf (id : EnvId) : Bool := id.raw == 0

def text (id : EnvId) : String := Text.hexPadded 8 id.raw.toNat

theorem raw_ofParts (index generation : Nat) :
    (ofParts index generation).raw.toNat = (generation * 1024 + index % 1024) % 4294967296 := by
  simp [ofParts]

theorem index_ofParts {index : Nat} (h : index < maxEnvs) (generation : Nat) :
    (ofParts index generation).index = index := by
  simp only [EnvId.index, raw_ofParts, maxEnvs] at *
  omega

theorem generation_ofParts (index : Nat) {generation : Nat} (h : generation ≤ maxGeneration) :
    (ofParts index generation).generation = generation := by
  simp only [EnvId.generation, raw_ofParts, maxEnvs, maxGeneration] at *
  omega

end EnvId

end Exokernel
