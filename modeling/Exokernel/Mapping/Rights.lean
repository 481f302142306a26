import Exokernel.Failure
import Exokernel.Mapping.PageFlags
import Exokernel.Memory.Frame

/-!
# Decoded permission words

A permission word means different things to the calls that take one.  Each of them decodes it once,
into the form that it accepts, and refuses every bit that it has no use for.
-/

namespace Exokernel

/-- What a mapping is to allow, and how it is to behave. -/
structure MapRights where
  write : Bool
  exec : Bool
  share : Bool
  /-- Keep the access bits of a mapping of the same page. -/
  combine : Bool
deriving DecidableEq, Inhabited

/-- What fresh pages are to be like. -/
structure AllocRequest where
  rights : MapRights
  lazy : Bool
  fill : Fill
deriving DecidableEq, Inhabited

def Prot.known (raw : UInt32) : Except RegionError Prot :=
  match Prot.ofBits? raw with
  | some p => .ok p
  | none => .error .badPermission

namespace MapRights

/-- The part of a permission word that concerns the mapping. -/
def ofProt (p : Prot) : MapRights :=
  ⟨p.contains .write, p.contains .exec, p.contains .share, p.contains .combine⟩

/-- Decodes a permission word that may have none of the given bits. -/
def decode (refused : List ProtBit) (raw : UInt32) : Except RegionError MapRights :=
  match Prot.known raw with
  | .error e => .error e
  | .ok p => if refused.any p.contains then .error .badPermission else .ok (ofProt p)

/-- The rights for sharing pages: nothing is allocated, so nothing may be said about it. -/
def forCopy : UInt32 → Except RegionError MapRights := decode [.lazy, .allocZero, .allocOne]

/-- The rights for mapping device pages, which are neither shared, combined nor allocated. -/
def forDevice : UInt32 → Except RegionError MapRights :=
  decode [.share, .combine, .lazy, .allocZero, .allocOne]

def access (r : MapRights) : PageFlags :=
  { PageFlags.none with read := true, write := r.write, execute := r.exec }

def flags (r : MapRights) : PageFlags :=
  { r.access with valid := true, user := true, shared := r.share }

end MapRights

namespace AllocRequest

/-- Decodes a permission word for fresh pages.  They are filled with ones if that is asked for, and
else with zeros. -/
def decode (raw : UInt32) : Except RegionError AllocRequest :=
  match Prot.known raw with
  | .error e => .error e
  | .ok p => .ok ⟨.ofProt p, p.contains .lazy, if p.contains .allocOne then .one else .zero⟩

end AllocRequest

end Exokernel
