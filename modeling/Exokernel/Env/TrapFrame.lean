import Exokernel.Layout

/-!
# Trap frames

The registers of an environment while it is not running.  Register 0 carries the number of a call in
and its result word out, registers 1 to 6 its arguments.
-/

namespace Exokernel

/-- The arguments of a call. -/
@[ext]
structure Args where
  arg0 : Word
  arg1 : Word
  arg2 : Word
  arg3 : Word
  arg4 : Word
  arg5 : Word
deriving DecidableEq

namespace Args

def zero : Args := ⟨0, 0, 0, 0, 0, 0⟩

def toList (a : Args) : List Word := [a.arg0, a.arg1, a.arg2, a.arg3, a.arg4, a.arg5]

end Args

/-- Saved registers. -/
@[ext]
structure TrapFrame where
  regs : Vector Word 8
  pc : Word
  sp : Word
deriving DecidableEq

namespace TrapFrame

def zero : TrapFrame := ⟨Vector.replicate 8 0, 0, 0⟩

def callNumber (f : TrapFrame) : Word := f.regs[0]

def callArgs (f : TrapFrame) : Args :=
  ⟨f.regs[1], f.regs[2], f.regs[3], f.regs[4], f.regs[5], f.regs[6]⟩

/-- Loads a call as user code does before it traps. -/
def loadCall (f : TrapFrame) (number : Word) (args : Args) : TrapFrame :=
  { f with
    regs := #v[number, args.arg0, args.arg1, args.arg2, args.arg3, args.arg4, args.arg5, f.regs[7]] }

def setResult (f : TrapFrame) (word : Int64) : TrapFrame :=
  { f with regs := f.regs.set 0 word.toUInt64 }

def result (f : TrapFrame) : Int64 := f.regs[0].toInt64

/-- Sends control to the fault entry point with the faulting address as its argument. -/
def redirect (f : TrapFrame) (entry fault : Word) : TrapFrame :=
  { f with regs := f.regs.set 1 fault, pc := entry }

@[simp]
theorem result_setResult (f : TrapFrame) (word : Int64) : (f.setResult word).result = word := by
  simp [setResult, result]

end TrapFrame

end Exokernel
