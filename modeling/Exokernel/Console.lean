import Exokernel.Layout

/-!
# The console

A console that keeps all output and reads from a queue of input.
-/

namespace Exokernel

/-- All output so far, and the input that was not read yet. -/
structure Console where
  output : Array UInt8
  input : List UInt8
deriving DecidableEq, Inhabited

namespace Console

def empty : Console := ⟨#[], []⟩

def write (c : Console) (bytes : List UInt8) : Console := { c with output := c.output ++ bytes }

def push (c : Console) (bytes : List UInt8) : Console := { c with input := c.input ++ bytes }

def read (c : Console) : Option UInt8 × Console :=
  match c.input with
  | [] => (none, c)
  | b :: rest => (some b, { c with input := rest })

end Console

end Exokernel
