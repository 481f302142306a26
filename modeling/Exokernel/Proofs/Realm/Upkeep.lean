import Exokernel.Proofs.Realm.Books
import Exokernel.Proofs.Region.Upkeep

/-! # Calls keep the balance

Every call leaves all frames of the realm accounted for, whatever its arguments are and wherever it
fails.  The one exception is a copy of pages within one address space. -/

namespace Exokernel

variable {stray : PhysAddr → Prop}

namespace Realm

/-- The entries of all environments hold exactly what is handed out. -/
def InBalance (stray : PhysAddr → Prop) (s : Realm) : Prop :=
  Balanced stray s.memory s.registry.tables

variable {s t : Realm}

theorem InBalance.modifyEnv (h : InBalance stray s) (index : Nat) {f : Env → Env}
    (hf : ∀ env, (f env).table = env.table) : InBalance stray (s.modifyEnv index f) :=
  Books.modifyEnv (Q := Owing stray) h index hf

theorem InBalance.space (h : InBalance stray s) {index : Nat} {env : Env}
    (henv : s.registry.env? index = some env) :
    Space.InBalance stray (s.registry.tablesBut [index]) ⟨s.memory, env.table⟩ :=
  books_owing.space h henv

theorem InBalance.pair {i j : Nat} {source target : Env} (h : InBalance stray s) (hij : i ≠ j)
    (hsource : s.registry.env? i = some source) (htarget : s.registry.env? j = some target) :
    SpacePair.InBalance stray (s.registry.tablesBut [j, i])
      ⟨s.memory, source.table, target.table⟩ :=
  books_owing.pair h hij hsource htarget

end Realm

/-- Every call but a copy within one address space keeps the balance. -/
theorem Service.Effect.inBalance {caller : Caller} {args : Args} {call : Syscall} {s t : Realm}
    (heffect : Effect caller args s call t) (h : Realm.InBalance stray s)
    (hwithin : call = .mapRegion → ¬ SharesWithin caller.slot args s) :
    Realm.InBalance stray t :=
  heffect.booked books_owing h fun hcall hshares => absurd hshares (hwithin hcall)

end Exokernel
