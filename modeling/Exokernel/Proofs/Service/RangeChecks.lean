import Exokernel.Proofs.Region.Spans
import Exokernel.Proofs.Service.Answers

/-! # Checks of user memory

Before user memory is read or written on behalf of user code, its range is checked page by page.
For a range with bytes this is as good as a check of every byte.  An empty range has no bytes, but
the page that it lies in is looked at all the same, unless it lies on a page boundary. -/

namespace Exokernel

variable {t : PageTable} {r : ByteRange} {write : Bool}

namespace PageTable

def accepts (t : PageTable) (va len : Word) (write : Bool) : Bool :=
  (ByteRange.of? va.toNat len.toNat).any (t.permits · write)

/-- User code may touch the byte at an address, for writing if `write` is set: its page is mapped
for user code, and writable if it has to be. -/
def Allows (t : PageTable) (write : Bool) (addr : Nat) : Prop :=
  ∃ h : addr < maxUserAddress, ∃ e, t.lookup (VirtAddr.page ⟨addr, h⟩) = some e ∧
    e.isUser = true ∧ (write = true → e.isWritable = true)

end PageTable

theorem PageEntry.permits_iff {e : PageEntry} :
    e.permits write = true ↔ e.isUser = true ∧ (write = true → e.isWritable = true) := by
  cases write <;> simp [permits]

theorem any_permits_iff {p : VirtPage} {addr : Nat} (h : addr < maxUserAddress)
    (hp : addr / pageSize = p.val) :
    (t.lookup p).any (·.permits write) = true ↔ t.Allows write addr := by
  have hpage : VirtAddr.page ⟨addr, h⟩ = p := Fin.ext hp
  rw [Option.any_eq_true_iff_get]
  constructor
  · rintro ⟨hsome, hpermits⟩
    exact ⟨h, _, by rw [hpage, Option.some_get], PageEntry.permits_iff.mp hpermits⟩
  · rintro ⟨_, e, he, haccess⟩
    rw [hpage] at he
    have hpermits := PageEntry.permits_iff.mpr haccess
    simp [he, hpermits]

namespace ByteRange

/-- Every byte of a range with bytes has its page among those that are looked at, and every such
page has a byte of the range. -/
theorem permits_iff_of_ne_zero (hlength : r.length ≠ 0) :
    t.permits r write = true ↔ ∀ i < r.length, t.Allows write (r.start + i) := by
  have hbelow : ∀ i < r.length, r.start + i < maxUserAddress := by
    intro i hi
    have bound := r.bound
    omega
  rw [PageTable.permits, List.all_eq_true]
  constructor
  · intro hall i hi
    have hpage := (mem_touched_iff (p := VirtAddr.page ⟨r.start + i, hbelow i hi⟩) hlength).mpr
      ⟨i, hi, rfl⟩
    exact (any_permits_iff (hbelow i hi) rfl).mp (hall _ hpage)
  · intro hall p hp
    obtain ⟨i, hi, hpage⟩ := (mem_touched_iff hlength).mp hp
    exact (any_permits_iff (hbelow i hi) hpage).mpr (hall i hi)

theorem mem_touched_of_empty {p : VirtPage} (hlength : r.length = 0) :
    p ∈ r.touched.toList ↔ isPageAligned r.start = false ∧ r.start / pageSize = p.val := by
  rw [← Bool.not_eq_true, isPageAligned_iff]
  simp only [PageRange.mem_toList, touched, pagesCovering, stop, hlength, pageSize]
  omega

theorem permits_iff_of_empty (hlength : r.length = 0) :
    t.permits r write = true ↔ isPageAligned r.start = true ∨ t.Allows write r.start := by
  rw [PageTable.permits, List.all_eq_true]
  cases haligned : isPageAligned r.start with
  | true =>
      refine iff_of_true ?_ (Or.inl rfl)
      intro p hp
      rw [mem_touched_of_empty hlength, haligned] at hp
      cases hp.1
  | false =>
      -- the ceiling is a page boundary
      have hbelow : r.start < maxUserAddress := by
        have bound := r.bound
        rw [← Bool.not_eq_true, isPageAligned_iff] at haligned
        simp only [maxUserAddress, pageSize] at *
        omega
      constructor
      · intro hall
        have hpage := (mem_touched_of_empty (p := VirtAddr.page ⟨r.start, hbelow⟩) hlength).mpr
          ⟨haligned, rfl⟩
        exact Or.inr ((any_permits_iff hbelow rfl).mp (hall _ hpage))
      · rintro (hfalse | hallows) p hp
        · cases hfalse
        · exact (any_permits_iff hbelow ((mem_touched_of_empty hlength).mp hp).2).mpr hallows

end ByteRange

theorem PageTable.accepts_iff {va len : Word} : t.accepts va len write = true ↔
    ∃ r, ByteRange.of? va.toNat len.toNat = some r ∧ t.permits r write = true := by
  rw [accepts, Option.any_eq_true]

theorem PageTable.allows_of_accepts {va len : Word} (h : t.accepts va len write = true) :
    ∀ i < len.toNat, t.Allows write (va.toNat + i) := by
  obtain ⟨r, hrange, hpermits⟩ := accepts_iff.mp h
  obtain ⟨hstart, hcount⟩ := ByteRange.of?_eq_some_iff.mp hrange
  rw [← hstart, ← hcount]
  intro i hi
  exact (ByteRange.permits_iff_of_ne_zero (Nat.ne_zero_of_lt hi)).mp hpermits i hi

namespace Service

variable {caller : Caller} {args : Args} {s : Realm} {env : Env}

theorem cputs_of_accepts (henv : s.registry.env? caller.slot = some env)
    (hcheck : env.table.accepts args.arg0 args.arg1 false = true) :
    cputs caller args s =
      (writeChunks caller args.arg0.toNat (chunks args.arg1.toNat) >>= fun _ => pure .done) s := by
  rw [PageTable.accepts] at hcheck
  rw [cputs, bind_of_ok (envAt_of_some henv)]
  simp only [hcheck, if_true]

theorem cputs_of_not_accepts (caller : Caller) (henv : s.registry.env? caller.slot = some env)
    (hcheck : env.table.accepts args.arg0 args.arg1 false = false) :
    ∃ t, cputs caller args s = .error .envExit t ∧
      (s.modifyEnv caller.slot fun env => { env with status := .dying }).SameButLog t := by
  rw [PageTable.accepts] at hcheck
  rw [cputs, bind_of_ok (envAt_of_some henv)]
  simp only [hcheck, Bool.false_eq_true, if_false]
  exact ⟨_, rfl, rfl, rfl, rfl, rfl, rfl, rfl⟩

theorem cputs_exits_iff (henv : s.registry.env? caller.slot = some env) :
    (∃ t, cputs caller args s = .error .envExit t) ↔
      env.table.accepts args.arg0 args.arg1 false = false := by
  cases hcheck : env.table.accepts args.arg0 args.arg1 false with
  | false =>
      obtain ⟨t, ht, -⟩ := cputs_of_not_accepts caller henv hcheck
      exact iff_of_true ⟨t, ht⟩ rfl
  | true =>
      refine iff_of_false ?_ Bool.noConfusion
      rintro ⟨t, ht⟩
      rw [cputs_of_accepts henv hcheck] at ht
      have hquiet : Quiet (writeChunks caller args.arg0.toNat (chunks args.arg1.toNat) >>= fun _ =>
          (pure .done : SysM Reply)) s :=
        .bind (quiet_writeChunks _ _ _ _) fun _ _ _ => .of_ok rfl
      exact hquiet t ht

end Service

namespace PageTable

/-- What the check of a range of user memory comes to. -/
structure ChecksRange (t : PageTable) (va len : Word) (write : Bool) : Prop where
  /-- A range with bytes is accepted if it ends at or below the ceiling, and user code may touch
  every byte of it. -/
  accepts_iff : len ≠ 0 → (t.accepts va len write = true ↔
    va.toNat + len.toNat < wordLimit ∧ va.toNat + len.toNat ≤ maxUserAddress ∧
      ∀ addr, va.toNat ≤ addr → addr < va.toNat + len.toNat → t.Allows write addr)
  /-- An empty range is accepted if it lies at or below the ceiling, and on a page boundary or in a
  page that user code may touch. -/
  accepts_empty_iff : len = 0 → (t.accepts va len write = true ↔ va.toNat ≤ maxUserAddress ∧
    (isPageAligned va.toNat = true ∨ t.Allows write va.toNat))
  /-- Printing ends its caller exactly if the check refuses the text. -/
  exits_iff : ∀ (caller : Caller) (args : Args) (s : Realm) (env : Env),
    s.registry.env? caller.slot = some env → env.table = t → args.arg0 = va → args.arg1 = len →
      ((∃ u, Service.cputs caller args s = .error .envExit u) ↔ t.accepts va len false = false)

/-- The check is exact for every range with bytes, wherever it starts and ends, and for an empty
range it is exact on page boundaries. -/
theorem checksRange (t : PageTable) (va len : Word) (write : Bool) : t.ChecksRange va len write where
  accepts_iff hlen := by
    have hlength : len.toNat ≠ 0 := fun hzero => hlen (UInt64.toNat_inj.mp hzero)
    rw [accepts_iff]
    constructor
    · rintro ⟨r, hrange, hpermits⟩
      obtain ⟨hstart, hcount⟩ := ByteRange.of?_eq_some_iff.mp hrange
      rw [ByteRange.permits_iff_of_ne_zero (by rwa [hcount]), hstart, hcount] at hpermits
      have bound := r.bound
      rw [hstart, hcount] at bound
      refine ⟨Nat.lt_of_le_of_lt bound (by decide), bound, fun addr hlower hupper => ?_⟩
      have hbyte := hpermits (addr - va.toNat) (by omega)
      rwa [Nat.add_sub_cancel' hlower] at hbyte
    · rintro ⟨-, bound, hbytes⟩
      refine ⟨⟨va.toNat, len.toNat, bound⟩, ByteRange.of?_eq_some_iff.mpr ⟨rfl, rfl⟩, ?_⟩
      rw [ByteRange.permits_iff_of_ne_zero hlength]
      intro i hi
      exact hbytes (va.toNat + i) (Nat.le_add_right _ _) (Nat.add_lt_add_left hi _)
  accepts_empty_iff hlen := by
    subst hlen
    rw [accepts_iff]
    constructor
    · rintro ⟨r, hrange, hpermits⟩
      obtain ⟨hstart, hcount⟩ := ByteRange.of?_eq_some_iff.mp hrange
      have bound := r.bound
      rw [ByteRange.permits_iff_of_empty hcount, hstart] at hpermits
      exact ⟨by omega, hpermits⟩
    · rintro ⟨bound, hpage⟩
      refine ⟨⟨va.toNat, 0, bound⟩, ByteRange.of?_eq_some_iff.mpr ⟨rfl, rfl⟩, ?_⟩
      exact (ByteRange.permits_iff_of_empty rfl).mpr hpage
  exits_iff caller args s env henv htable hstart hlen := by
    subst htable hstart hlen
    exact Service.cputs_exits_iff henv

/-- An empty range below the ceiling is refused if it lies inside a page that is not mapped. -/
theorem not_accepts_empty_range : ¬ (empty.accepts 1 0 false = true ↔
    (1 : Word).toNat + (0 : Word).toNat < wordLimit ∧
      (1 : Word).toNat + (0 : Word).toNat ≤ maxUserAddress ∧
      ∀ addr, (1 : Word).toNat ≤ addr → addr < (1 : Word).toNat + (0 : Word).toNat →
        empty.Allows false addr) := by
  have hrefused : empty.accepts 1 0 false = false := by decide +kernel
  rw [hrefused]
  intro hiff
  refine Bool.noConfusion (hiff.mpr ⟨by decide, by decide, ?_⟩)
  intro addr hlower hupper
  exact absurd hupper (Nat.not_lt_of_le hlower)

end PageTable

end Exokernel
