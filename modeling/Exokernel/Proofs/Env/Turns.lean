import Exokernel.Proofs.Env.Slots
import Exokernel.Scheduler
import Mathlib.Data.Finset.Card
import Mathlib.Data.List.Rotate

/-! # Turns

The round-robin scheduler looks through the slots in cyclic order from the one after the last turn
on. The slots whose environments may run are thus a queue: the first of it has the turn and goes to
its end. Main statement: in as many turns as there are environments that may run, each of them has
one. -/

namespace Exokernel

namespace Registry

variable {r : Registry}

theorem lt_capacity_of_isRunnable {i : Nat} (h : r.isRunnable i = true) : i < r.capacity := by
  obtain ⟨env, henv, -⟩ := (Option.any_eq_true _ _).mp h
  exact lt_capacity_of_env? henv

/-! ## The next environment -/

/-- The current environment is the first that may run in the slots after `last`, taken in cyclic
order; there is none if none may run. -/
def NextRuns (r : Registry) (last : Nat) : Prop :=
  match r.current with
  | some i => ∃ n < r.capacity, i = (last + 1 + n) % r.capacity ∧ r.isRunnable i = true ∧
      ∀ m < n, r.isRunnable ((last + 1 + m) % r.capacity) = false
  | none => ∀ i, r.isRunnable i = false

theorem idle_iff_of_isRunnable {i : Nat} (hcurrent : r.current = some i)
    (hruns : r.isRunnable i = true) : r.current = none ↔ ∀ j, r.isRunnable j = false := by
  rw [hcurrent]
  refine iff_of_false (Option.some_ne_none i) fun hidle => ?_
  rw [hidle i] at hruns
  cases hruns

theorem NextRuns.idle_iff {last : Nat} (h : r.NextRuns last) :
    r.current = none ↔ ∀ i, r.isRunnable i = false := by
  rw [NextRuns] at h
  split at h
  · next i hcurrent =>
    obtain ⟨-, -, -, hruns, -⟩ := h
    exact idle_iff_of_isRunnable hcurrent hruns
  · next hcurrent => exact iff_of_true hcurrent h

theorem exists_turn {i n : Nat} (hi : i < n) (start : Nat) : ∃ m < n, (start + m) % n = i := by
  have hpos : 0 < n := Nat.zero_lt_of_lt hi
  refine ⟨(i + n * start - start) % n, Nat.mod_lt _ hpos, ?_⟩
  have hle : start ≤ i + n * start := Nat.le_add_left_of_le (Nat.le_mul_of_pos_left start hpos)
  rw [Nat.add_mod_mod, Nat.add_sub_cancel' hle, Nat.add_mul_mod_self_left, Nat.mod_eq_of_lt hi]

theorem nextRuns_of_roundRobin (r : Registry) (last : Nat) :
    (r.setCurrent (Scheduler.roundRobin r (some last))).NextRuns last := by
  have hpick : Scheduler.roundRobin r (some last) =
      ((List.range r.capacity).find? fun n => r.isRunnable ((last + 1 + n) % r.capacity)).map
        fun n => (last + 1 + n) % r.capacity :=
    List.find?_map
  rw [hpick]
  cases hfind : (List.range r.capacity).find? fun n => r.isRunnable ((last + 1 + n) % r.capacity) with
  | none =>
      intro i
      rw [List.find?_eq_none] at hfind
      by_contra hruns
      have hruns : r.isRunnable i = true := Bool.of_not_eq_false hruns
      obtain ⟨m, hm, rfl⟩ := exists_turn (lt_capacity_of_isRunnable hruns) (last + 1)
      exact hfind m (List.mem_range.mpr hm) hruns
  | some n =>
      obtain ⟨hruns, hn, hearlier⟩ := List.find?_range_eq_some.mp hfind
      have hcurrent : (r.setCurrent (some ((last + 1 + n) % r.capacity))).current =
          some ((last + 1 + n) % r.capacity) := by
        have hoccupied : (r.env? ((last + 1 + n) % r.capacity)).isSome = true :=
          Option.isSome_of_any hruns
        rw [setCurrent, Option.filter_some, if_pos hoccupied]
      rw [Option.map_some, NextRuns, hcurrent]
      refine ⟨n, List.mem_range.mp hn, rfl, hruns, fun m hm => ?_⟩
      exact (Bool.not_eq_true' _).mp (hearlier m hm)

/-! ## The queue -/

def runnable (r : Registry) : Finset Nat :=
  (Finset.range r.capacity).filter fun i => r.isRunnable i = true

/-- The runnable slots in the order in which they have their turns after `last`. -/
def queue (r : Registry) (last : Option Nat) : List Nat := (r.cycleAfter last).filter r.isRunnable

theorem mem_runnable {i : Nat} : i ∈ r.runnable ↔ r.isRunnable i = true := by
  rw [runnable, Finset.mem_filter, Finset.mem_range]
  exact ⟨And.right, fun h => ⟨lt_capacity_of_isRunnable h, h⟩⟩

/-- The cyclic order is the order of the slots, begun at another place. -/
theorem cycleAfter_eq_rotate (r : Registry) (last : Option Nat) :
    r.cycleAfter last = (List.range r.capacity).rotate (last.elim 0 (· + 1)) := by
  apply List.ext_getElem
  · simp [cycleAfter]
  · intro m _ _
    rw [List.getElem_rotate]
    cases last <;> simp [cycleAfter, Nat.add_comm]

theorem nodup_cycleAfter (r : Registry) (last : Option Nat) : (r.cycleAfter last).Nodup := by
  rw [cycleAfter_eq_rotate, List.nodup_rotate]
  exact List.nodup_range

theorem mem_cycleAfter {last : Option Nat} {i : Nat} : i ∈ r.cycleAfter last ↔ i < r.capacity := by
  rw [cycleAfter_eq_rotate, List.mem_rotate, List.mem_range]

theorem nodup_queue (r : Registry) (last : Option Nat) : (r.queue last).Nodup :=
  (r.nodup_cycleAfter last).filter _

theorem mem_queue {last : Option Nat} {i : Nat} : i ∈ r.queue last ↔ r.isRunnable i = true := by
  rw [queue, List.mem_filter, mem_cycleAfter]
  exact ⟨And.right, fun h => ⟨lt_capacity_of_isRunnable h, h⟩⟩

theorem length_queue (r : Registry) (last : Option Nat) :
    (r.queue last).length = r.runnable.card := by
  rw [← List.toFinset_card_of_nodup (r.nodup_queue last)]
  congr 1
  ext i
  rw [List.mem_toFinset, mem_queue, mem_runnable]

/-- Going on from a slot, one comes first to the slots that were behind it, then to those that were
before it, and last to the slot itself. -/
theorem cycleAfter_of_append {last : Option Nat} {before behind : List Nat} {i : Nat}
    (h : r.cycleAfter last = before ++ i :: behind) :
    r.cycleAfter (some i) = behind ++ (before ++ [i]) := by
  have hrotate := r.cycleAfter_eq_rotate last
  have hlength : before.length < (r.cycleAfter last).length := by simp [h]
  have hi : i = (before.length + last.elim 0 (· + 1)) % r.capacity := by
    have hget : (r.cycleAfter last)[before.length] = i := by simp [h]
    simp only [hrotate, List.getElem_rotate, List.getElem_range, List.length_range] at hget
    exact hget.symm
  calc r.cycleAfter (some i)
      = (List.range r.capacity).rotate (i + 1) := r.cycleAfter_eq_rotate (some i)
    _ = (List.range r.capacity).rotate (last.elim 0 (· + 1) + (before.length + 1)) := by
        rw [← List.rotate_mod _ (i + 1), ← List.rotate_mod _ (_ + (before.length + 1)),
          List.length_range, hi, Nat.mod_add_mod]
        congr 2
        omega
    _ = (r.cycleAfter last).rotate (before ++ [i]).length := by
        rw [hrotate, List.rotate_rotate, List.length_append, List.length_singleton]
    _ = behind ++ (before ++ [i]) := by
        rw [h, show before ++ i :: behind = (before ++ [i]) ++ behind by simp,
          List.rotate_append_length_eq]

/-- Whoever has the turn goes to the end of the queue. -/
theorem queue_head? (r : Registry) (last : Option Nat) :
    r.queue (r.queue last).head? = (r.queue last).rotate 1 := by
  cases hqueue : r.queue last with
  | nil =>
      have hempty : r.runnable.card = 0 := by rw [← length_queue r last, hqueue]; rfl
      rw [List.head?_nil, List.rotate_nil]
      exact List.eq_nil_of_length_eq_zero ((r.length_queue none).trans hempty)
  | cons i rest =>
      obtain ⟨before, behind, horder, hbefore, hruns, hrest⟩ := List.filter_eq_cons_iff.mp hqueue
      have hnone : before.filter r.isRunnable = [] := List.filter_eq_nil_iff.mpr hbefore
      rw [List.head?_cons, queue, cycleAfter_of_append horder, List.filter_append,
        List.filter_append, hnone, hrest, List.nil_append, List.filter_singleton, hruns, cond_true,
        List.rotate_cons_succ, List.rotate_zero]

end Registry

namespace Scheduler

open Registry

variable {r : Registry} {last : Option Nat}

/-- The turn that the round-robin scheduler gives out when it has given out `n` turns since
`last`. -/
def turn (r : Registry) (last : Option Nat) : Nat → Option Nat
  | 0 => roundRobin r last
  | n + 1 => roundRobin r (turn r last n)

theorem roundRobin_eq_head? (r : Registry) (last : Option Nat) :
    roundRobin r last = (r.queue last).head? :=
  List.head?_filter.symm

theorem turn_eq_head? (r : Registry) (last : Option Nat) (n : Nat) :
    turn r last n = ((r.queue last).rotate n).head? ∧
      r.queue (turn r last n) = (r.queue last).rotate (n + 1) := by
  induction n with
  | zero =>
      rw [turn, roundRobin_eq_head?, List.rotate_zero]
      exact ⟨rfl, r.queue_head? last⟩
  | succ n ih =>
      have hnext : turn r last (n + 1) = (r.queue (turn r last n)).head? := roundRobin_eq_head? _ _
      refine ⟨hnext.trans (congrArg List.head? ih.2), ?_⟩
      rw [hnext, queue_head?, ih.2, List.rotate_rotate]

/-- How the round-robin scheduler gives out turns: in as many turns as there are environments that
may run each of them has one, and then the first has its turn again. -/
structure TakesTurns (r : Registry) (last : Option Nat) : Prop where
  each : ∃ order : List Nat, order.Nodup ∧ (∀ i, i ∈ order ↔ r.isRunnable i = true) ∧
    (List.range r.runnable.card).map (turn r last) = order.map some
  again : turn r last r.runnable.card = turn r last 0
  /-- An environment has two turns in a row only if it is the only one that may run. -/
  alone : ∀ i, r.isRunnable i = true →
    (roundRobin r (some i) = some i ↔ ∀ j, r.isRunnable j = true → j = i)
  idle : roundRobin r last = none ↔ ∀ i, r.isRunnable i = false

theorem takesTurns (r : Registry) (last : Option Nat) : TakesTurns r last where
  each := by
    refine ⟨r.queue last, r.nodup_queue last, fun i => mem_queue, ?_⟩
    rw [← r.length_queue last]
    apply List.ext_getElem
    · simp
    · intro n hn _
      have hlt : n < (r.queue last).length := by simpa using hn
      simp [(turn_eq_head? r last n).1, List.head?_rotate hlt, List.getElem?_eq_getElem hlt]
  again := by
    rw [(turn_eq_head? r last _).1, (turn_eq_head? r last 0).1, ← r.length_queue last,
      List.rotate_length, List.rotate_zero]
  alone i hruns := by
    have hmem : i ∈ r.queue (some i) := mem_queue.mpr hruns
    rw [roundRobin_eq_head?]
    constructor
    · intro hhead j hj
      have hround := r.queue_head? (some i)
      rw [hhead] at hround
      have hnodup := r.nodup_queue (some i)
      have hj : j ∈ r.queue (some i) := mem_queue.mpr hj
      obtain ⟨rest, hqueue⟩ := List.head?_eq_some_iff.mp hhead
      rw [hqueue] at hround hnodup hj
      cases rest with
      | nil => exact List.mem_singleton.mp hj
      | cons next rest =>
          -- The queue is as it was after going round by one, so its first two are the same.
          cases (List.cons_eq_cons.mp hround).1
          exact absurd List.mem_cons_self (List.nodup_cons.mp hnodup).1
    · intro honly
      obtain ⟨j, rest, hqueue⟩ := List.exists_cons_of_ne_nil (List.ne_nil_of_mem hmem)
      have hj : j ∈ r.queue (some i) := by rw [hqueue]; exact List.mem_cons_self
      rw [hqueue, List.head?_cons, honly j (mem_queue.mp hj)]
  idle := by
    rw [roundRobin_eq_head?, List.head?_eq_none_iff, List.eq_nil_iff_forall_not_mem]
    simp only [mem_queue, Bool.not_eq_true]

end Scheduler

end Exokernel
