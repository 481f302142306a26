import Exokernel.Proofs.Region.Reading
import Exokernel.Proofs.Service.Printing

/-! # What is printed is what was seen

A chunk of text is read as its space sees it, and reading changes nothing of what any space sees.
So the chunks, put one after the other, are the text as it was before the first of them was read. -/

namespace Exokernel

variable {s t u : Realm} {slot : Nat} {env : Env} {table : PageTable}

namespace Realm

/-! ## What the environments see -/

def view (s : Realm) (i addr : Nat) : Option UInt8 :=
  (s.registry.env? i).bind fun env => env.table.view s.memory.machine.pool addr

/-- The same environments are there, and they see the same bytes. -/
structure SameSight (s t : Realm) : Prop where
  id_eq : ∀ i, (t.registry.env? i).map Env.id = (s.registry.env? i).map Env.id
  view_eq : ∀ i addr, t.view i addr = s.view i addr

theorem SameSight.trans (h : s.SameSight t) (h' : t.SameSight u) : s.SameSight u :=
  ⟨fun i => (h'.id_eq i).trans (h.id_eq i), fun i addr => (h'.view_eq i addr).trans (h.view_eq i addr)⟩

theorem SameButLog.sameSight (h : s.SameButLog t) : s.SameSight t := by
  refine ⟨fun i => by rw [h.registry_eq], fun i addr => ?_⟩
  rw [view, view, h.registry_eq, h.pool_eq]

theorem sameSight_modifyEnv (s : Realm) (index : Nat) {f : Env → Env}
    (hf : ∀ env, (f env).id = env.id ∧ (f env).table = env.table) :
    s.SameSight (s.modifyEnv index f) := by
  constructor
  · intro i
    rw [env?_modifyEnv]
    split
    · rw [Option.map_map]
      exact congrArg (Option.map · _) (funext fun env => (hf env).1)
    · rfl
  · intro i addr
    rw [view, view, env?_modifyEnv]
    split
    · rw [Option.bind_map]
      exact congrArg (Option.bind _) (funext fun env => by rw [Function.comp_apply, (hf env).2]; rfl)
    · rfl

/-! ## One space is read -/

/-- The environment in a slot has read from its space, whose page table is `table` by now. -/
structure Read (slot : Nat) (env : Env) (table : PageTable) (s t : Realm) : Prop where
  env_eq : t.registry.env? slot = some { env with table }
  others : ∀ i, i ≠ slot → t.registry.env? i = s.registry.env? i
  space : Space.Materialised (s.registry.tablesBut [slot]) ⟨s.memory, env.table⟩ ⟨t.memory, table⟩

theorem Read.refl (henv : s.registry.env? slot = some env)
    (h : Space.Grounded (s.registry.tablesBut [slot]) ⟨s.memory, env.table⟩) :
    Read slot env env.table s s :=
  ⟨henv, fun _ _ => rfl, .refl h⟩

theorem Read.sameSight (h : Read slot env table s t) (henv : s.registry.env? slot = some env) :
    s.SameSight t := by
  constructor
  · intro i
    by_cases hi : i = slot
    · rw [hi, h.env_eq, henv]
      rfl
    · rw [h.others i hi]
  · intro i addr
    rw [view, view]
    by_cases hi : i = slot
    · rw [hi, h.env_eq, henv]
      exact PageTable.view_congr h.space.contents_eq addr
    · rw [h.others i hi]
      cases hother : s.registry.env? i with
      | none => rfl
      | some other =>
          have hmem : other.table ∈ s.registry.tablesBut [slot] :=
            Registry.mem_tablesBut.mpr ⟨i, by simpa using hi, other, hother, rfl⟩
          exact PageTable.view_congr (h.space.contents_rest _ hmem) addr

theorem Read.more (h : Read slot env table s t) {start n : Nat} {bytes : List UInt8} {space : Space}
    (hread : Space.readBytes start n ⟨t.memory, table⟩ = .ok bytes space) :
    Read slot env space.table s (t.putSpace slot space) ∧
      bytes.map some = (List.range' start n).map (env.table.view s.memory.machine.pool) := by
  have hspace := Space.materialised_readBytes start n ⟨t.memory, table⟩ h.space
  rw [hread] at hspace
  have hseen := Space.map_some_of_readBytes h.space.grounded hread
  have hview : table.view t.memory.machine.pool = env.table.view s.memory.machine.pool :=
    funext (PageTable.view_congr h.space.contents_eq)
  refine ⟨⟨?_, fun i hi => ?_, hspace⟩, hseen.trans (congrArg (List.map · _) hview)⟩
  · rw [env?_putSpace, if_pos rfl, h.env_eq]
    rfl
  · rw [env?_putSpace, if_neg (Ne.symm hi), h.others i hi]

end Realm

namespace Service

variable {caller : Caller} {args : Args}

/-- The chunks that were written are the bytes of the range, each once and in order, as they were
seen before the first of them was read. -/
theorem written_of_writeChunks {sizes : List Nat} {start : Nat}
    (h : Realm.Read caller.slot env table s t) (hwrite : writeChunks caller start sizes t = .ok () u) :
    ∃ bytes table', Realm.Read caller.slot env table' s u ∧ u.console = t.console.write bytes ∧
      bytes.map some =
        (List.range' start sizes.sum).map (env.table.view s.memory.machine.pool) := by
  induction sizes generalizing start t table with
  | nil =>
      cases hwrite
      exact ⟨[], table, h, (Console.write_nil _).symm, rfl⟩
  | cons n rest ih =>
      rw [writeChunks] at hwrite
      obtain ⟨bytes, t₁, hread, hrest⟩ := bind_eq_ok_iff.mp hwrite
      rw [onSpace_of_env? h.env_eq] at hread
      cases hspace : Space.readBytes start n ⟨t.memory, table⟩ with
      | error e space =>
          simp only [hspace] at hread
          cases hread
      | ok chunk space =>
          simp only [hspace] at hread
          cases hread
          obtain ⟨hmore, hseen⟩ := h.more hspace
          let printed : Realm :=
            { t.putSpace caller.slot space with console := t.console.write bytes }
          have hprinted : Realm.Read caller.slot env space.table s printed :=
            ⟨hmore.env_eq, hmore.others, hmore.space⟩
          obtain ⟨later, table', hlater, hconsole, hothers⟩ := ih hprinted hrest
          refine ⟨bytes ++ later, table', hlater, ?_, ?_⟩
          · rw [hconsole, ← Console.write_write]
          · rw [List.map_append, hseen, hothers, ← List.map_append, List.range'_append_1,
              List.sum_cons]

/-- Text that is printed to its end is the text that its caller saw. -/
theorem printed_of_cputs (caller : Caller) (henv : s.registry.env? caller.slot = some env)
    (hgrounded : Space.Grounded (s.registry.tablesBut [caller.slot]) ⟨s.memory, env.table⟩)
    {reply : Reply} (hdone : cputs caller args s = .ok reply t) :
    reply = .done ∧ ∃ bytes table, Realm.Read caller.slot env table s t ∧
      t.console = s.console.write bytes ∧
      bytes.map some = (List.range' args.arg0.toNat args.arg1.toNat).map (s.view caller.slot) := by
  have hview : s.view caller.slot = env.table.view s.memory.machine.pool := by
    funext addr
    rw [Realm.view, henv]
    rfl
  cases hcheck : env.table.accepts args.arg0 args.arg1 false with
  | false =>
      obtain ⟨_, herror, -⟩ := cputs_of_not_accepts caller henv hcheck
      rw [herror] at hdone
      cases hdone
  | true =>
      rw [cputs_of_accepts henv hcheck] at hdone
      obtain ⟨_, _, hwrite, hreply⟩ := bind_eq_ok_iff.mp hdone
      cases hreply
      obtain ⟨bytes, table, hread, hconsole, hseen⟩ :=
        written_of_writeChunks (.refl henv hgrounded) hwrite
      rw [sum_chunks] at hseen
      rw [hview]
      exact ⟨rfl, bytes, table, hread, hconsole, hseen⟩

end Service

end Exokernel
