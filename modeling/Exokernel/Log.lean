import Exokernel.Text.Hex

/-!
# The kernel log

A bounded record of what the kernel has to say.  Records above the chosen level are dropped when
they are made; of the rest the log keeps the latest ones. -/

namespace Exokernel

/-- How grave a record is, gravest first. -/
inductive LogLevel where
  | error
  | warn
  | info
  | debug
  | trace
deriving DecidableEq, Inhabited

namespace LogLevel

/-- The place of a level, higher for less grave ones. -/
def rank : LogLevel → Nat
  | error => 1
  | warn => 2
  | info => 3
  | debug => 4
  | trace => 5

def label : LogLevel → String
  | error => "ERROR"
  | warn => "WARN"
  | info => "INFO"
  | debug => "DEBUG"
  | trace => "TRACE"

def name : LogLevel → String
  | error => "Error"
  | warn => "Warn"
  | info => "Info"
  | debug => "Debug"
  | trace => "Trace"

end LogLevel

/-- One entry of the log. -/
structure LogRecord where
  level : LogLevel
  target : String
  text : String
deriving DecidableEq, Inhabited

def LogRecord.line (r : LogRecord) : String :=
  "[" ++ r.level.label ++ " " ++ r.target ++ "] " ++ r.text

/-- The least grave level that is recorded; none when nothing is. -/
abbrev LogFilter := Option LogLevel

namespace LogFilter

def name : LogFilter → String
  | none => "Off"
  | some level => level.name

end LogFilter

/-- The latest records, newest first, and the filter for new ones. -/
structure Log where
  filter : LogFilter
  recent : List LogRecord
deriving Inhabited

namespace Log

abbrev capacity : Nat := 512

def withFilter (filter : LogFilter) : Log := ⟨filter, []⟩

def admits (log : Log) (level : LogLevel) : Bool :=
  match log.filter with
  | none => false
  | some limit => level.rank ≤ limit.rank

/-- Adds a record; a full log loses its oldest one. -/
def add (log : Log) (level : LogLevel) (target text : String) : Log :=
  if log.admits level then
    { log with recent := (⟨level, target, text⟩ :: log.recent).take capacity }
  else log

def lines (log : Log) : List String := log.recent.reverse.map LogRecord.line

def cleared (log : Log) : Log := { log with recent := [] }

end Log

end Exokernel
