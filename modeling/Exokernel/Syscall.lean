/-!
# System calls

The closed list of calls, each with its number and its names.
-/

namespace Exokernel

/-- A system call. -/
inductive Syscall where
  | cputs
  | cgetc
  | getEnvId
  | envDestroy
  | allocRegion
  | mapRegion
  | mapPhysicalRegion
  | unmapRegion
  | regionRefs
  | exofork
  | envSetStatus
  | envSetPgfaultUpcall
  | yield
  | ipcTrySend
  | ipcRecv
deriving DecidableEq, Inhabited

namespace Syscall

def all : List Syscall :=
  [cputs, cgetc, getEnvId, envDestroy, allocRegion, mapRegion, mapPhysicalRegion, unmapRegion,
    regionRefs, exofork, envSetStatus, envSetPgfaultUpcall, yield, ipcTrySend, ipcRecv]

/-- The number of a call, its place in the list of all calls. -/
def number : Syscall → Nat
  | cputs => 0
  | cgetc => 1
  | getEnvId => 2
  | envDestroy => 3
  | allocRegion => 4
  | mapRegion => 5
  | mapPhysicalRegion => 6
  | unmapRegion => 7
  | regionRefs => 8
  | exofork => 9
  | envSetStatus => 10
  | envSetPgfaultUpcall => 11
  | yield => 12
  | ipcTrySend => 13
  | ipcRecv => 14

def ofNumber? (n : Nat) : Option Syscall := all[n]?

/-- The short name, which the log uses. -/
def name : Syscall → String
  | cputs => "cputs"
  | cgetc => "cgetc"
  | getEnvId => "getenvid"
  | envDestroy => "env_destroy"
  | allocRegion => "alloc_region"
  | mapRegion => "map_region"
  | mapPhysicalRegion => "map_physical_region"
  | unmapRegion => "unmap_region"
  | regionRefs => "region_refs"
  | exofork => "exofork"
  | envSetStatus => "env_set_status"
  | envSetPgfaultUpcall => "env_set_pgfault_upcall"
  | yield => "yield"
  | ipcTrySend => "ipc_try_send"
  | ipcRecv => "ipc_recv"

def title : Syscall → String
  | cputs => "Cputs"
  | cgetc => "Cgetc"
  | getEnvId => "GetEnvId"
  | envDestroy => "EnvDestroy"
  | allocRegion => "AllocRegion"
  | mapRegion => "MapRegion"
  | mapPhysicalRegion => "MapPhysicalRegion"
  | unmapRegion => "UnmapRegion"
  | regionRefs => "RegionRefs"
  | exofork => "Exofork"
  | envSetStatus => "EnvSetStatus"
  | envSetPgfaultUpcall => "EnvSetPgfaultUpcall"
  | yield => "Yield"
  | ipcTrySend => "IpcTrySend"
  | ipcRecv => "IpcRecv"

end Syscall

end Exokernel
