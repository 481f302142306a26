import Exokernel.Proofs.Region.Supply
import Exokernel.Proofs.Service.RangeChecks

/-! # Printing

Text goes to the console chunk by chunk, and each chunk is read when its turn comes.  So it is there
in full, or whole chunks of it are there and the next one touches more pages without a frame than
there are free frames. -/

namespace Exokernel

variable {s t : Realm} {env : Env}

theorem Space.Populated.allows {u v : Space} (h : Populated u v) {write : Bool} {addr : Nat}
    (hallows : u.table.Allows write addr) : v.table.Allows write addr := by
  obtain ⟨bound, e, he, hpermits⟩ := hallows
  rcases h.lookup_or (VirtAddr.page ⟨addr, bound⟩) with hsame | ⟨fill, flags, pa, hlazy, hframe, -⟩
  · exact ⟨bound, e, hsame.trans he, hpermits⟩
  · rw [hlazy] at he
    cases he
    exact ⟨bound, _, hframe, hpermits⟩

theorem PageTable.readable_of_allows {t : PageTable} {start n : Nat} (hn : n ≠ 0)
    (h : ∀ i < n, t.Allows false (start + i)) : t.Readable start n := by
  obtain ⟨hlast, -⟩ := h (n - 1) (by omega)
  exact ⟨⟨start, n, by omega⟩, ByteRange.of?_eq_some_iff.mpr ⟨rfl, rfl⟩,
    (ByteRange.permits_iff_of_ne_zero hn).mpr h⟩

namespace Console

@[simp] theorem write_nil (c : Console) : c.write [] = c := by
  simp [write]

@[simp] theorem write_write (c : Console) (bytes more : List UInt8) :
    (c.write bytes).write more = c.write (bytes ++ more) := by
  have houtput : c.output ++ bytes ++ more = c.output ++ (bytes ++ more) := by
    apply Array.toList_inj.mp
    simp
  simp only [write, houtput]

end Console

namespace Service

/-! ## Chunks -/

theorem sum_take_chunks (length j : Nat) :
    ((chunks length).take j).sum = min length (chunkSize * j) := by
  have htail : ∀ i, ((if length % chunkSize = 0 then [] else [length % chunkSize]).take i).sum =
      if i = 0 then 0 else length % chunkSize := by
    intro i
    cases i with
    | zero => rfl
    | succ i =>
        split
        · next hzero => simp [hzero]
        · simp
  rw [chunks, List.take_append, List.sum_append, htail, List.take_replicate,
    List.sum_replicate_nat, List.length_replicate]
  simp only [chunkSize]
  split <;> omega

theorem sum_chunks (length : Nat) : (chunks length).sum = length := by
  have hall := sum_take_chunks length (max (chunks length).length length)
  rw [List.take_of_length_le (Nat.le_max_left _ _)] at hall
  simp only [chunkSize] at hall
  omega

theorem ne_zero_of_mem_chunks {length n : Nat} (h : n ∈ chunks length) : n ≠ 0 := by
  rcases List.mem_append.mp h with hwhole | hlast
  · rw [List.eq_of_mem_replicate hwhole]
    decide
  · split at hlast
    · cases hlast
    · next hrest =>
      rw [List.mem_singleton.mp hlast]
      exact hrest

theorem sum_of_chunks_eq {length n : Nat} {before later : List Nat}
    (h : chunks length = before ++ n :: later) :
    chunkSize * before.length < length ∧ before.sum = chunkSize * before.length ∧
      before.sum + n = min length (chunkSize * (before.length + 1)) := by
  have hmem : n ∈ chunks length := by
    rw [h]
    simp
  have hn := ne_zero_of_mem_chunks hmem
  have hbefore := sum_take_chunks length before.length
  have hupto := sum_take_chunks length (before.length + 1)
  rw [h, List.take_left] at hbefore
  rw [h, List.take_length_add_append] at hupto
  simp only [List.take_succ_cons, List.take_zero, List.sum_append, List.sum_singleton,
    chunkSize] at *
  omega

/-! ## The text -/

variable {caller : Caller} {args : Args}

theorem onSpace_of_env? {α : Type} {index : Nat} (henv : s.registry.env? index = some env)
    (x : SpaceM α) :
    onSpace index x s =
      match x ⟨s.memory, env.table⟩ with
      | .ok a space => .ok a (s.putSpace index space)
      | .error e space => .error (.region e) (s.putSpace index space) := by
  rw [onSpace, bind_of_ok (envAt_of_some henv)]
  change EStateM.adaptExcept _ (Realm.onSpace index env x) s = _
  rw [EStateM.adaptExcept, Realm.onSpace_eq]
  cases x ⟨s.memory, env.table⟩ <;> rfl

/-- User code may read a range of bytes, and all that is mapped in its space is within reach. -/
structure Legible (slot : Nat) (s : Realm) (env : Env) (start length : Nat) : Prop where
  env_eq : s.registry.env? slot = some env
  backed : Space.Backed ⟨s.memory, env.table⟩
  allows : ∀ i < length, env.table.Allows false (start + i)

theorem Legible.stuck {start n m : Nat} (h : Legible caller.slot s env start (n + m)) (hn : n ≠ 0)
    (hfew : s.memory.machine.freeFrames < env.table.lazyTouched start n) (rest : List Nat) :
    ∃ t, writeChunks caller start (n :: rest) s = .error (.region .noMemory) t ∧
      t.console = s.console := by
  have hreadable := PageTable.readable_of_allows hn fun i hi => h.allows i (by omega)
  obtain ⟨space, hspace⟩ := (Space.readBytes_outcome h.backed hreadable).1 hfew
  have hread := onSpace_of_env? h.env_eq (Space.readBytes start n)
  rw [hspace] at hread
  refine ⟨s.putSpace caller.slot space, ?_, rfl⟩
  rw [writeChunks, bind_of_error hread]

/-- A chunk that can be read is written, and its pages need no more frames for the rest of the
text. -/
theorem Legible.chunk {start n m : Nat} (h : Legible caller.slot s env start (n + m)) (hn : n ≠ 0)
    (henough : env.table.lazyTouched start n ≤ s.memory.machine.freeFrames) :
    ∃ bytes t table, bytes.length = n ∧ t.console = s.console.write bytes ∧
      (∀ rest, writeChunks caller start (n :: rest) s = writeChunks caller (start + n) rest t) ∧
      Legible caller.slot t { env with table } (start + n) m ∧
      t.memory.machine.freeFrames + env.table.lazyTouched start n = s.memory.machine.freeFrames ∧
      ∀ k, env.table.lazyTouched start (n + k) =
        env.table.lazyTouched start n + table.lazyTouched (start + n) k := by
  have hreadable := PageTable.readable_of_allows hn fun i hi => h.allows i (by omega)
  obtain ⟨bytes, ⟨memory, table⟩, hspace, hlength, hprovided⟩ :=
    (Space.readBytes_outcome h.backed hreadable).2 henough
  have hread := onSpace_of_env? h.env_eq (Space.readBytes start n)
  rw [hspace] at hread
  refine ⟨bytes, { s.putSpace caller.slot ⟨memory, table⟩ with console := s.console.write bytes },
    table, hlength, rfl, ?_, ⟨?_, h.backed.of_populated hprovided.populated, ?_⟩,
    hprovided.freeFrames_eq, PageTable.lazyTouched_add hprovided.touched⟩
  · intro rest
    rw [writeChunks, bind_of_ok hread]
    rfl
  · change (s.putSpace caller.slot ⟨memory, table⟩).registry.env? caller.slot = _
    rw [Realm.env?_putSpace, if_pos rfl, h.env_eq]
    rfl
  · intro i hi
    rw [Nat.add_assoc]
    exact hprovided.populated.allows (h.allows (n + i) (Nat.add_lt_add_left hi n))

/-- Chunks are all written, or those before the first that touches more pages without a frame than
there are free frames by then. -/
theorem Legible.outcome {sizes : List Nat} {start : Nat}
    (h : Legible caller.slot s env start sizes.sum) (hsizes : ∀ n ∈ sizes, n ≠ 0) :
    (env.table.lazyTouched start sizes.sum ≤ s.memory.machine.freeFrames →
      ∃ bytes t, writeChunks caller start sizes s = .ok () t ∧ bytes.length = sizes.sum ∧
        t.console = s.console.write bytes) ∧
    (s.memory.machine.freeFrames < env.table.lazyTouched start sizes.sum →
      ∃ before n later bytes t, sizes = before ++ n :: later ∧
        writeChunks caller start sizes s = .error (.region .noMemory) t ∧
        bytes.length = before.sum ∧ t.console = s.console.write bytes ∧
        env.table.lazyTouched start before.sum ≤ s.memory.machine.freeFrames ∧
        s.memory.machine.freeFrames < env.table.lazyTouched start (before.sum + n)) := by
  induction sizes generalizing s env start with
  | nil => exact ⟨fun _ => ⟨[], s, rfl, rfl, by simp⟩, fun hfew => by simp at hfew⟩
  | cons n rest ih =>
      have hn := hsizes n List.mem_cons_self
      rw [List.sum_cons] at h ⊢
      rcases Nat.lt_or_ge s.memory.machine.freeFrames (env.table.lazyTouched start n) with
        hfew | henough
      · have hmono := env.table.lazyTouched_mono start (Nat.le_add_right n rest.sum)
        refine ⟨fun hall => absurd hall (by omega), fun _ => ?_⟩
        obtain ⟨t, ht, hconsole⟩ := h.stuck hn hfew rest
        exact ⟨[], n, rest, [], t, rfl, ht, rfl, by simpa using hconsole, by simp, by simpa using hfew⟩
      · obtain ⟨bytes, t, table, hlength, hconsole, hwrite, hlegible, hfreed, hadd⟩ :=
          h.chunk hn henough
        obtain ⟨hdone, hstuck⟩ := ih hlegible fun m hm => hsizes m (List.mem_cons_of_mem _ hm)
        simp only at hdone hstuck
        rw [hwrite, hadd]
        constructor
        · intro hall
          obtain ⟨more, u, hmore, hcount, hu⟩ := hdone (by omega)
          refine ⟨bytes ++ more, u, hmore, ?_, ?_⟩
          · rw [List.length_append, hlength, hcount]
          · rw [hu, hconsole, Console.write_write]
        · intro hfew
          obtain ⟨before, m, later, more, u, rfl, hmore, hcount, hu, hlower, hupper⟩ :=
            hstuck (by omega)
          refine ⟨n :: before, m, later, bytes ++ more, u, rfl, hmore, ?_, ?_, ?_, ?_⟩
          · rw [List.length_append, hlength, hcount, List.sum_cons]
          · rw [hu, hconsole, Console.write_write]
          · rw [List.sum_cons, hadd]
            omega
          · rw [List.sum_cons, Nat.add_assoc, hadd]
            omega

/-- Text that is accepted is printed, or whole chunks of it are, up to one that touches too many
pages without a frame. -/
theorem cputs_outcome (caller : Caller) (henv : s.registry.env? caller.slot = some env)
    (hbacked : Space.Backed ⟨s.memory, env.table⟩)
    (haccepts : env.table.accepts args.arg0 args.arg1 false = true) :
    (env.table.lazyTouched args.arg0.toNat args.arg1.toNat ≤ s.memory.machine.freeFrames →
      ∃ bytes t, cputs caller args s = .ok .done t ∧ bytes.length = args.arg1.toNat ∧
        t.console = s.console.write bytes) ∧
    (s.memory.machine.freeFrames < env.table.lazyTouched args.arg0.toNat args.arg1.toNat →
      ∃ j bytes t, cputs caller args s = .error (.region .noMemory) t ∧
        chunkSize * j < args.arg1.toNat ∧ bytes.length = chunkSize * j ∧
        t.console = s.console.write bytes ∧
        env.table.lazyTouched args.arg0.toNat (chunkSize * j) ≤ s.memory.machine.freeFrames ∧
        s.memory.machine.freeFrames < env.table.lazyTouched args.arg0.toNat
          (min args.arg1.toNat (chunkSize * (j + 1)))) := by
  have hlegible : Legible caller.slot s env args.arg0.toNat (chunks args.arg1.toNat).sum := by
    rw [sum_chunks]
    exact ⟨henv, hbacked, PageTable.allows_of_accepts haccepts⟩
  obtain ⟨hdone, hstuck⟩ := hlegible.outcome fun _ => ne_zero_of_mem_chunks
  rw [sum_chunks] at hdone hstuck
  rw [cputs_of_accepts henv haccepts]
  constructor
  · intro henough
    obtain ⟨bytes, t, hwrite, hlength, hconsole⟩ := hdone henough
    exact ⟨bytes, t, bind_of_ok hwrite _, hlength, hconsole⟩
  · intro hfew
    obtain ⟨before, n, later, bytes, t, hchunks, hwrite, hlength, hconsole, hlower, hupper⟩ :=
      hstuck hfew
    obtain ⟨hinside, hsum, hnext⟩ := sum_of_chunks_eq hchunks
    rw [hnext] at hupper
    rw [hsum] at hlength hlower
    exact ⟨before.length, bytes, t, bind_of_error hwrite _, hinside, hlength, hconsole, hlower, hupper⟩

end Service

end Exokernel
