import Exokernel.Proofs.Kernel.Answers
import Exokernel.Proofs.Kernel.Endings
import Exokernel.Proofs.Mapping.Ranges
import Mathlib.Order.Interval.Finset.Nat

/-! # Comparing how widely ranges are shared

A caller asks how much more widely one range of its pages is shared than another.  The answer comes
from the counts of the frames.  As long as each frame counts its mappings, it is about the mappings
themselves: the entries of all page tables. -/

namespace Exokernel

variable {tables : List PageTable} {t : PageTable} {m : Memory} {va size : Word}

/-! ## What is asked for -/

/-- The number of entries of all page tables that map what a page is mapped to.  A hole has none; a
device page and a page without a frame are mapped once. -/
def mappersOf (tables : List PageTable) (t : PageTable) (p : VirtPage) : Nat :=
  match t.backing? p with
  | none => 0
  | some (.frame pa) => mapsIn tables pa
  | some _ => 1

/-- The user pages that hold one of `size` bytes from `va` on, as far as these lie below the
ceiling. -/
def pagesMet (va size : Word) : Finset VirtPage :=
  Finset.univ.filter fun p =>
    ∃ b ∈ Finset.Ico va.toNat (min (va.toNat + size.toNat) maxUserAddress), b / pageSize = p.val

/-- The widest sharing among the pages that some bytes meet; nothing if they meet none. -/
def widest (tables : List PageTable) (t : PageTable) (va size : Word) : Nat :=
  (pagesMet va size).sup (mappersOf tables t)

/-! ## The pages -/

theorem pagesMet_eq_empty (h : maxUserAddress ≤ va.toNat ∨ size = 0) : pagesMet va size = ∅ := by
  refine Finset.filter_eq_empty_iff.mpr fun p _ => ?_
  rintro ⟨b, hb, -⟩
  obtain ⟨hlower, hupper⟩ := Finset.mem_Ico.mp hb
  rcases h with habove | rfl
  · omega
  · rw [UInt64.toNat_zero] at hupper
    omega

theorem toFinset_covering {r : PageRange} (h : PageRange.covering? va size = some r) :
    r.toList.toFinset = pagesMet va size := by
  ext p
  rw [List.mem_toFinset, PageRange.mem_of_covering?_iff h, pagesMet, Finset.mem_filter]
  simp only [Finset.mem_univ, true_and, Finset.mem_Ico, and_assoc]

/-! ## The count -/

theorem pageRefs_eq_mappersOf (h : ∀ pa, m.refs.count pa = mapsIn tables pa) (p : VirtPage) :
    Space.pageRefs m t p = mappersOf tables t p := by
  rw [Space.pageRefs, mappersOf, PageTable.backing?]
  cases t.lookup p with
  | none => rfl
  | some e =>
      obtain ⟨backing, flags⟩ := e
      cases backing with
      | frame pa => exact h pa
      | device pa | lazy fill => rfl

theorem maxRefs_covering (h : ∀ pa, m.refs.count pa = mapsIn tables pa) (va size : Word) :
    ((PageRange.covering? va size).map (Space.maxRefs m t)).getD 0 = widest tables t va size := by
  cases hrange : PageRange.covering? va size with
  | none =>
      have habove : maxUserAddress ≤ va.toNat := by
        by_contra hbelow
        rw [PageRange.covering?, dif_pos (Nat.not_le.mp hbelow)] at hrange
        cases hrange
      rw [widest, pagesMet_eq_empty (Or.inl habove)]
      rfl
  | some r =>
      rw [Option.map_some, Option.getD_some, Space.maxRefs_eq_sup, toFinset_covering hrange, widest]
      exact Finset.sup_congr rfl fun p _ => pageRefs_eq_mappersOf h p

theorem sharingExcess_eq (h : ∀ pa, m.refs.count pa = mapsIn tables pa) (t : PageTable)
    (args : Args) : Service.sharingExcess m t args =
      widest tables t args.arg0 args.arg1 - widest tables t args.arg2 args.arg3 := by
  rw [Service.sharingExcess]
  simp only
  rw [maxRefs_covering h, maxRefs_covering h]

theorem widest_le (tables : List PageTable) (t : PageTable) (va size : Word) :
    widest tables t va size ≤ tables.length * userPages + 1 := by
  refine Finset.sup_le fun p _ => ?_
  rw [mappersOf]
  split
  · exact Nat.zero_le _
  · exact Nat.le_succ_of_le (mapsIn_le tables _)
  · exact Nat.le_add_left 1 _

theorem widest_lt {r : Registry} (hcapacity : r.capacity ≤ maxEnvs) (t : PageTable)
    (va size : Word) : widest r.tables t va size < 2 ^ 63 := by
  have hlength : r.tables.length * userPages ≤ maxEnvs * userPages :=
    Nat.mul_le_mul_right _ (r.length_tables_le.trans hcapacity)
  refine Nat.lt_of_le_of_lt ((widest_le _ _ _ _).trans (Nat.succ_le_succ hlength)) ?_
  decide

namespace Kernel

variable {k : Kernel} {event : Event} {caller : Nat} {number : Word} {args : Args} {sender : Env}

/-- What the call comes to, as it is worked out from the counts. -/
theorem handled_regionRefs (hnumber : Syscall.ofNumber? number.toNat = some .regionRefs)
    (hsender : k.registry.env? caller = some sender) :
    k.handled caller number args =
      .ok (UInt64.ofNat (Service.sharingExcess k.realm.memory sender.table args)) := by
  have henv := Service.envAt_of_some (env?_loaded_self hsender number args)
  have hwork : Service.regionRefs ⟨caller, k.config⟩ args (k.loaded caller number args).realm =
      .ok (.word (UInt64.ofNat (Service.sharingExcess k.realm.memory sender.table args)))
        (k.loaded caller number args).realm :=
    bind_of_ok henv _
  rw [handled, ServiceTable.answer, ServiceTable.dispatch, hnumber, Option.bind_some]
  simp only [ServiceTable.standard, hwork]
  rfl

/-- Comparing two ranges answers with the widest sharing of the first, less that of the second
unless it starts at or above the ceiling; nothing is shared where the bytes are absent.  It never
answers with less than zero. -/
theorem regionRefs_compares (hcounts : ∀ pa, k.realm.memory.refs.count pa = mapsIn k.registry.tables pa)
    (hcapacity : k.registry.capacity ≤ maxEnvs) (hcalls : k.Calls caller number args event)
    (hnumber : Syscall.ofNumber? number.toNat = some .regionRefs)
    (hsender : k.registry.env? caller = some sender) :
    (∃ w, k.answer event = some w ∧ w.toInt =
      if maxUserAddress ≤ args.arg2.toNat then
        (widest k.registry.tables sender.table args.arg0 args.arg1 : Int)
      else
        max 0 ((widest k.registry.tables sender.table args.arg0 args.arg1 : Int) -
          widest k.registry.tables sender.table args.arg2 args.arg3)) ∧
    ∀ va size : Word, maxUserAddress ≤ va.toNat ∨ size = 0 →
      widest k.registry.tables sender.table va size = 0 := by
  have habsent : ∀ va size : Word, maxUserAddress ≤ va.toNat ∨ size = 0 →
      widest k.registry.tables sender.table va size = 0 := by
    intro va size h
    rw [widest, pagesMet_eq_empty h]
    rfl
  refine ⟨⟨_, (answer_of_calls hcalls hsender).trans
    (congrArg resultWord? (handled_regionRefs hnumber hsender)), ?_⟩, habsent⟩
  have hsmall := widest_lt hcapacity sender.table args.arg0 args.arg1
  have hword : (UInt64.ofNat (Service.sharingExcess k.realm.memory sender.table args)).toNat =
      Service.sharingExcess k.realm.memory sender.table args := by
    apply UInt64.toNat_ofNat_of_lt'
    rw [sharingExcess_eq hcounts]
    exact Nat.lt_trans (Nat.lt_of_le_of_lt (Nat.sub_le _ _) hsmall) (by decide)
  rw [Service.toInt_toInt64, hword, sharingExcess_eq hcounts]
  · split
    · next habove =>
      rw [habsent _ _ (Or.inl habove), Nat.sub_zero]
    · omega
  · rw [hword, sharingExcess_eq hcounts]
    omega

/-- The call that compares two ranges: two bytes in as many pages, and all that lies behind the last
byte of user space. -/
def compareCall : Event := .syscall 8 ⟨0x1fff, 2, 0x7fffffff, 0xffffffffffffffff, 0, 0⟩

/-- Two pages are each shared with a child.  Their bytes are compared with those of a hole. -/
theorem regionRefs_compares_shared :
    (∀ pa, (forkedKernel.step shareCall).realm.memory.refs.count pa =
      mapsIn (forkedKernel.step shareCall).registry.tables pa) ∧
    (forkedKernel.step shareCall).registry.capacity ≤ maxEnvs ∧
    (forkedKernel.step shareCall).Calls 0 8 ⟨0x1fff, 2, 0x7fffffff, 0xffffffffffffffff, 0, 0⟩
      compareCall ∧
    Syscall.ofNumber? (8 : Word).toNat = some .regionRefs ∧
    (forkedKernel.step shareCall).answer compareCall = some 2 ∧
    ∃ sender, (forkedKernel.step shareCall).registry.env? 0 = some sender ∧
      (2 : Int) = max 0 (
        (widest (forkedKernel.step shareCall).registry.tables sender.table 0x1fff 2 : Int) -
        widest (forkedKernel.step shareCall).registry.tables sender.table 0x7fffffff
          0xffffffffffffffff) := by
  have hcounts : ∀ pa, (forkedKernel.step shareCall).realm.memory.refs.count pa =
      mapsIn (forkedKernel.step shareCall).registry.tables pa :=
    inBalance_sharedRealm.accounting.count_eq
  have hcapacity : (forkedKernel.step shareCall).registry.capacity ≤ maxEnvs := by decide +kernel
  have hcalls : (forkedKernel.step shareCall).Calls 0 8 ⟨0x1fff, 2, 0x7fffffff, 0xffffffffffffffff, 0, 0⟩
      compareCall := ⟨by decide +kernel, rfl, rfl⟩
  have hanswer : (forkedKernel.step shareCall).answer compareCall = some 2 := by decide +kernel
  have hthere : ((forkedKernel.step shareCall).registry.env? 0).isSome = true := by decide +kernel
  obtain ⟨sender, hsender⟩ := Option.isSome_iff_exists.mp hthere
  obtain ⟨⟨w, hw, hvalue⟩, -⟩ := regionRefs_compares hcounts hcapacity hcalls (by decide) hsender
  rw [hanswer] at hw
  cases hw
  rw [if_neg (by decide)] at hvalue
  exact ⟨hcounts, hcapacity, hcalls, by decide, hanswer, sender, hsender, hvalue⟩

end Kernel

end Exokernel
