import Exokernel.Log
import Exokernel.Memory.FramePool

/-!
# The machine

The frame pool and the kernel log.  A machine can be imperfect: it may claim more free frames than
its pool has, and the bytes of some frames may be out of reach.
-/

namespace Exokernel

/-- The physical side of the kernel. -/
structure Machine where
  pool : FramePool
  /-- How many frames the machine claims beyond those that its pool has. -/
  overclaim : Nat
  /-- The addresses whose bytes are out of reach. -/
  hidden : List PhysAddr
  log : Log

namespace Machine

/-- A machine that has what it claims and reaches every frame. -/
def sound (pool : FramePool) (log : Log) : Machine := ⟨pool, 0, [], log⟩

def freeFrames (m : Machine) : Nat := m.pool.freeFrames + m.overclaim

/-- The bytes of a frame or device page within reach. -/
def frame? (m : Machine) (pa : PhysAddr) : Option Frame :=
  if pa ∈ m.hidden then none else m.pool.frame? pa

def update (m : Machine) (pa : PhysAddr) (f : Frame → Frame) : Machine :=
  { m with pool := m.pool.update pa f }

def note (m : Machine) (level : LogLevel) (target text : String) : Machine :=
  { m with log := m.log.add level target text }

def alloc? (m : Machine) : Option (PhysAddr × Machine) :=
  m.pool.alloc?.map fun (pa, pool) => (pa, { m with pool })

/-- Gives a frame back.  A frame that was not handed out is left alone, with a warning. -/
def free (m : Machine) (pa : PhysAddr) : Machine :=
  match m.pool.release? pa with
  | some pool => { m with pool }
  | none => m.note .warn "mm" s!"free of unowned frame {Text.hexAddress pa.raw}"

end Machine

end Exokernel
