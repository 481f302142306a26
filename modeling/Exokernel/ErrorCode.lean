import Exokernel.Layout

/-!
# Result words

A call answers with one signed word.  Words that are not negative are values; negative words are
error codes.  Main statement: the word of an error code is read back as that code.
-/

namespace Exokernel

/-- An error as user code sees it. -/
inductive ErrorCode where
  /-- Unknown, unauthorised or stale identifier. -/
  | badEnvironment
  /-- Misaligned or out-of-range address, or a permission word that is not allowed. -/
  | invalidArgument
  /-- No frame is left for a page or a page table. -/
  | noMemory
  /-- The registry is full. -/
  | noFreeEnvironment
  /-- The target of a message is not waiting for one. -/
  | ipcNotReceiving
  /-- No call has this number. -/
  | noSuchSyscall
deriving DecidableEq, Inhabited

namespace ErrorCode

def all : List ErrorCode :=
  [badEnvironment, invalidArgument, noMemory, noFreeEnvironment, ipcNotReceiving, noSuchSyscall]

/-- The negative result word of an error. -/
def word : ErrorCode → Int64
  | badEnvironment => -2
  | invalidArgument => -3
  | noMemory => -4
  | noFreeEnvironment => -5
  | ipcNotReceiving => -6
  | noSuchSyscall => -7

def ofWord? (w : Int64) : Option ErrorCode := all.find? fun code => code.word == w

/-- Splits a result word into a value or an error.  A negative word that stands for no error counts
as an invalid argument. -/
def decode (w : Int64) : Except ErrorCode Word :=
  if 0 ≤ w then .ok w.toUInt64 else .error ((ofWord? w).getD invalidArgument)

def name : ErrorCode → String
  | badEnvironment => "BadEnvironment"
  | invalidArgument => "InvalidArgument"
  | noMemory => "NoMemory"
  | noFreeEnvironment => "NoFreeEnvironment"
  | ipcNotReceiving => "IpcNotReceiving"
  | noSuchSyscall => "NoSuchSyscall"

def message : ErrorCode → String
  | badEnvironment => "bad environment"
  | invalidArgument => "invalid argument"
  | noMemory => "out of memory"
  | noFreeEnvironment => "out of environments"
  | ipcNotReceiving => "env is not recving"
  | noSuchSyscall => "invalid syscall number"

theorem decode_word (code : ErrorCode) : decode code.word = .error code := by
  cases code <;> rfl

end ErrorCode

end Exokernel
