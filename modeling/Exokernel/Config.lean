import Exokernel.EnvId
import Exokernel.Log

/-!
# Configuration

What is fixed when the kernel starts.
-/

namespace Exokernel

/-- The choices fixed when the kernel starts. -/
structure Config where
  /-- The number of registry slots. -/
  maxEnvs : Nat
  /-- Record the creation and the end of environments. -/
  traceEnvs : Bool
  /-- Record every call. -/
  traceSyscalls : Bool
  logFilter : LogFilter
deriving DecidableEq, Inhabited

/-- Why a configuration is refused. -/
inductive ConfigError where
  | noEnvironments
  | tooManyEnvironments (requested : Nat)
deriving DecidableEq, Inhabited

namespace ConfigError

def name : ConfigError → String
  | noEnvironments => "NoEnvironments"
  | tooManyEnvironments _ => "TooManyEnvironments"

def message : ConfigError → String
  | noEnvironments => "registry needs at least one slot"
  | tooManyEnvironments requested =>
    s!"registry of {requested} slots exceeds envid limit {Exokernel.maxEnvs}"

end ConfigError

namespace Config

/-- As many slots as identifiers can tell apart, no traces, and records down to `info`. -/
def standard : Config := ⟨Exokernel.maxEnvs, false, false, some .info⟩

def problem? (c : Config) : Option ConfigError :=
  if c.maxEnvs = 0 then some .noEnvironments
  else if c.maxEnvs > Exokernel.maxEnvs then some (.tooManyEnvironments c.maxEnvs)
  else none

def text (c : Config) : String :=
  s!"KernelConfig \x7b max_envs: {c.maxEnvs}, trace_envs: {c.traceEnvs}, " ++
    s!"trace_syscalls: {c.traceSyscalls}, log_level: {c.logFilter.name} \x7d"

theorem problem?_eq_none_iff {c : Config} :
    c.problem? = none ↔ 0 < c.maxEnvs ∧ c.maxEnvs ≤ Exokernel.maxEnvs := by
  unfold problem?
  split
  · simp; omega
  · split <;> simp <;> omega

end Config

end Exokernel
