import Exokernel.Region.UserBytes
import Exokernel.Service.Basic

/-!
# Console calls
-/

namespace Exokernel.Service

abbrev chunkSize : Nat := 256

/-- The sizes of the chunks that make up so many bytes. -/
def chunks (length : Nat) : List Nat :=
  List.replicate (length / chunkSize) chunkSize ++
    if length % chunkSize = 0 then [] else [length % chunkSize]

/-- Writes the caller's bytes to the console, one chunk after the other. -/
def writeChunks (caller : Caller) (start : Nat) : List Nat → SysM Unit
  | [] => pure ()
  | n :: rest => do
    let bytes ← onSpace caller.slot (Space.readBytes start n)
    modify fun s => { s with console := s.console.write bytes }
    writeChunks caller (start + n) rest

/-- Writes `args.arg1` bytes from `args.arg0` on.  A caller that may not read all of them is
destroyed. -/
def cputs : Service := fun caller args => do
  let start := args.arg0.toNat
  let length := args.arg1.toNat
  let env ← envAt caller.slot
  if (ByteRange.of? start length).any (env.table.permits · false) then
    writeChunks caller start (chunks length)
    pure .done
  else
    modify fun s => (s.note .debug "sys"
      (s!"[{env.id.text}] cputs: {Text.hexAddress start}+{Text.hexAddress length} not readable, " ++
        "destroying")).modifyEnv caller.slot fun env => { env with status := .dying }
    throw .envExit

/-- Reads one character; zero if there is none. -/
def cgetc : Service := fun _ _ => do
  let s ← get
  match s.console.read with
  | (none, _) => pure .done
  | (some b, console) =>
    set { s with console }
    pure (.word b.toUInt64)

end Exokernel.Service
