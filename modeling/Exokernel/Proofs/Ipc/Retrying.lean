import Exokernel.Gate
import Exokernel.Ipc.Send

/-! # Sending until there is an answer

User code tries a send again for as long as the receiver is not ready.  The calls that it makes
follow from the number of refused tries: a try and a yield for each of them, and the try that is
answered.  The result is what the last reply reports, and the kernel reads the arguments back as the
message that was meant. -/

namespace Exokernel

namespace ErrorCode

/-- What a reply reports about a send: a word that is not negative accepts it, a word in the range
of the error codes names its error, and any other negative word counts as an invalid argument. -/
structure Reports (w : Int64) (result : Except ErrorCode Unit) : Prop where
  accepted : 0 ≤ w → result = .ok ()
  named : -7 ≤ w → w ≤ -2 → ∃ code, code.word = w ∧ result = .error code
  unnamed : w < 0 → (w < -7 ∨ -2 < w) → result = .error .invalidArgument

def outcome (w : Int64) : Except ErrorCode Unit := (decode w).map fun _ => ()

theorem exists_word_eq {w : Int64} (hlow : -7 ≤ w) (hhigh : w ≤ -2) : ∃ code, word code = w := by
  have hlower : -7 ≤ w.toInt := Int64.le_iff_toInt_le.mp hlow
  have hupper : w.toInt ≤ -2 := Int64.le_iff_toInt_le.mp hhigh
  have hcases : w.toInt = -2 ∨ w.toInt = -3 ∨ w.toInt = -4 ∨ w.toInt = -5 ∨ w.toInt = -6 ∨
      w.toInt = -7 := by omega
  rcases hcases with h | h | h | h | h | h
  · exact ⟨.badEnvironment, Int64.toInt_inj.mp h.symm⟩
  · exact ⟨.invalidArgument, Int64.toInt_inj.mp h.symm⟩
  · exact ⟨.noMemory, Int64.toInt_inj.mp h.symm⟩
  · exact ⟨.noFreeEnvironment, Int64.toInt_inj.mp h.symm⟩
  · exact ⟨.ipcNotReceiving, Int64.toInt_inj.mp h.symm⟩
  · exact ⟨.noSuchSyscall, Int64.toInt_inj.mp h.symm⟩

theorem word_range (code : ErrorCode) : -7 ≤ code.word ∧ code.word ≤ -2 := by
  cases code <;> decide

theorem reports_outcome (w : Int64) : Reports w (outcome w) where
  accepted hpos := by simp [outcome, decode, hpos, Except.map]
  named hlow hhigh := by
    obtain ⟨code, rfl⟩ := exists_word_eq hlow hhigh
    refine ⟨code, rfl, ?_⟩
    rw [outcome, decode_word]
    rfl
  unnamed hneg hout := by
    have hnone : ofWord? w = none := by
      refine List.find?_eq_none.mpr fun code _ hfound => ?_
      have hrange := code.word_range
      rw [eq_of_beq hfound] at hrange
      rcases hout with hlow | hhigh
      · exact absurd hrange.1 (Int64.not_le.mpr hlow)
      · exact absurd hrange.2 (Int64.not_le.mpr hhigh)
    simp [outcome, decode, Int64.not_le.mpr hneg, hnone, Except.map]

theorem decode_eq_ipcNotReceiving_iff {w : Int64} :
    decode w = .error .ipcNotReceiving ↔ w = -6 := by
  constructor
  · intro h
    rw [decode] at h
    split at h
    · cases h
    · cases hcode : ofWord? w with
      | none => simp [hcode] at h
      | some code =>
          obtain rfl : code = .ipcNotReceiving := by simpa [hcode] using h
          rw [ofWord?] at hcode
          have hword := List.find?_some hcode
          exact (eq_of_beq hword).symm
  · rintro rfl
    exact decode_word .ipcNotReceiving

theorem ne_of_decode {w : Int64} {x : Except ErrorCode Word} (h : decode w = x)
    (hx : x ≠ .error .ipcNotReceiving) : w ≠ -6 := by
  intro heq
  exact hx (h.symm.trans (decode_eq_ipcNotReceiving_iff.mpr heq))

/-- A send goes on only when the receiver was not ready; what a reply decodes to is otherwise the
end of it. -/
theorem match_decode {α : Type} (w : Int64) (done : Except ErrorCode Unit → α) (again : α) :
    (match decode w with
      | .ok _ => done (.ok ())
      | .error .ipcNotReceiving => again
      | .error e => done (.error e)) = if w = -6 then again else done (outcome w) := by
  split
  · next haccepted =>
    rw [if_neg (ne_of_decode haccepted (by simp)), outcome, haccepted]
    rfl
  · next hrefused => rw [if_pos (decode_eq_ipcNotReceiving_iff.mp hrefused)]
  · next e hother hrefused =>
    have hready : w ≠ -6 := ne_of_decode hrefused fun heq => hother (Except.error.inj heq)
    rw [if_neg hready, outcome, hrefused]
    rfl

end ErrorCode

/-- The kernel reads back the message that user code put into the arguments of a send; an address at
or above the ceiling stands for no page. -/
theorem SendRequest.decode_sendArgs (target : EnvId) (value : UInt32) (page : Option PagePayload) :
    let args := Gate.sendArgs target value page
    SendRequest.decode args.arg0 args.arg1 args.arg2 args.arg3 args.arg4 = ⟨target, value,
      page.bind fun p =>
        if p.src.toNat < maxUserAddress then some ⟨p.src, p.size, p.perm.bits⟩ else none⟩ := by
  cases page with
  | none =>
      have hceiling : ¬ Gate.noPage.toNat < maxUserAddress := by decide
      simp [Gate.sendArgs, SendRequest.decode, EnvId.ofWord, EnvId.toWord, hceiling]
  | some p => simp [Gate.sendArgs, SendRequest.decode, EnvId.ofWord, EnvId.toWord]

namespace Gate

variable {σ : Type}

/-- The state in which the send is tried for the `n`-th time, counted from zero, when every try
before was refused. -/
def beforeTry (gate : Gate σ) (args : Args) (s : σ) : Nat → σ
  | 0 => s
  | n + 1 => (gate.call .yield .zero (gate.call .ipcTrySend args (beforeTry gate args s n)).2).2

def reply (gate : Gate σ) (args : Args) (s : σ) (n : Nat) : Int64 :=
  (gate.call .ipcTrySend args (gate.beforeTry args s n)).1

def afterTry (gate : Gate σ) (args : Args) (s : σ) (n : Nat) : σ :=
  (gate.call .ipcTrySend args (gate.beforeTry args s n)).2

/-- The `n`-th try is the first one that is not refused because the receiver is not ready. -/
structure AnsweredAt (gate : Gate σ) (args : Args) (s : σ) (n : Nat) : Prop where
  refused : ∀ i < n, gate.reply args s i = -6
  answered : gate.reply args s n ≠ -6

/-- The calls of so many refused tries: each is followed by a yield. -/
def refusedTries (args : Args) (n : Nat) : List (Syscall × Args) :=
  (List.replicate n [(.ipcTrySend, args), (.yield, .zero)]).flatten

/-- The same way into the kernel, with a record of the calls that were made, in their order. -/
def recorded (gate : Gate σ) : Gate (σ × List (Syscall × Args)) where
  call number args := fun s =>
    let (word, next) := gate.call number args s.1
    (word, next, s.2 ++ [(number, args)])
  inbox s := gate.inbox s.1

@[simp] theorem recorded_call (gate : Gate σ) (number : Syscall) (args : Args)
    (s : σ × List (Syscall × Args)) :
    gate.recorded.call number args s = ((gate.call number args s.1).1,
      (gate.call number args s.1).2, s.2 ++ [(number, args)]) := rfl

/-! ## One try after the other -/

variable (gate : Gate σ) (args : Args) (s : σ)

/-- Every try but the first is a try of a send that starts after the first refusal. -/
theorem beforeTry_succ (n : Nat) :
    gate.beforeTry args s (n + 1) = gate.beforeTry args (gate.beforeTry args s 1) n := by
  induction n with
  | zero => rfl
  | succ n ih =>
      rw [beforeTry, ih]
      rfl

theorem reply_succ (n : Nat) :
    gate.reply args s (n + 1) = gate.reply args (gate.beforeTry args s 1) n := by
  rw [reply, reply, beforeTry_succ]

theorem afterTry_succ (n : Nat) :
    gate.afterTry args s (n + 1) = gate.afterTry args (gate.beforeTry args s 1) n := by
  rw [afterTry, afterTry, beforeTry_succ]

theorem beforeTry_recorded (made : List (Syscall × Args)) (n : Nat) :
    gate.recorded.beforeTry args (s, made) n =
      (gate.beforeTry args s n, made ++ refusedTries args n) := by
  induction n with
  | zero => simp [beforeTry, refusedTries]
  | succ n ih =>
      rw [beforeTry, ih]
      simp [recorded_call, beforeTry, refusedTries, List.replicate_succ']

theorem reply_recorded (made : List (Syscall × Args)) (n : Nat) :
    gate.recorded.reply args (s, made) n = gate.reply args s n := by
  rw [reply, beforeTry_recorded]
  rfl

theorem afterTry_recorded (made : List (Syscall × Args)) (n : Nat) :
    gate.recorded.afterTry args (s, made) n =
      (gate.afterTry args s n, made ++ refusedTries args n ++ [(.ipcTrySend, args)]) := by
  rw [afterTry, beforeTry_recorded]
  rfl

/-! ## The try that is answered -/

variable {gate args s} {n : Nat}

theorem AnsweredAt.recorded (h : gate.AnsweredAt args s n) (made : List (Syscall × Args)) :
    gate.recorded.AnsweredAt args (s, made) n where
  refused i hi := (reply_recorded gate args s made i).trans (h.refused i hi)
  answered := by
    rw [reply_recorded]
    exact h.answered

theorem AnsweredAt.of_succ (h : gate.AnsweredAt args s (n + 1)) :
    gate.reply args s 0 = -6 ∧ gate.AnsweredAt args (gate.beforeTry args s 1) n := by
  refine ⟨h.refused 0 n.succ_pos, fun i hi => ?_, ?_⟩
  · rw [← reply_succ]
    exact h.refused (i + 1) (Nat.succ_lt_succ hi)
  · rw [← reply_succ]
    exact h.answered

/-- One round of the loop without a limit. -/
theorem comesOut_iff {result : Except ErrorCode Unit} {s' : σ} :
    gate.ComesOut args s result s' ↔
      if gate.reply args s 0 = -6 then gate.ComesOut args (gate.beforeTry args s 1) result s'
      else result = ErrorCode.outcome (gate.reply args s 0) ∧ s' = gate.afterTry args s 0 := by
  constructor
  · intro h
    cases h with
    | accepted hdecode =>
        change ErrorCode.decode (gate.reply args s 0) = _ at hdecode
        rw [if_neg (ErrorCode.ne_of_decode hdecode (by simp)), ErrorCode.outcome, hdecode]
        exact ⟨rfl, rfl⟩
    | refused hdecode hother =>
        change ErrorCode.decode (gate.reply args s 0) = _ at hdecode
        rw [if_neg (ErrorCode.ne_of_decode hdecode (by simpa using hother)), ErrorCode.outcome,
          hdecode]
        exact ⟨rfl, rfl⟩
    | again hdecode hlater =>
        change ErrorCode.decode (gate.reply args s 0) = _ at hdecode
        rw [if_pos (ErrorCode.decode_eq_ipcNotReceiving_iff.mp hdecode)]
        exact hlater
  · split
    · next hrefused => exact .again (ErrorCode.decode_eq_ipcNotReceiving_iff.mpr hrefused)
    · next hready =>
      rintro ⟨rfl, rfl⟩
      rw [ErrorCode.outcome]
      cases hdecode : ErrorCode.decode (gate.reply args s 0) with
      | ok n => exact .accepted hdecode
      | error e =>
          refine .refused hdecode ?_
          rintro rfl
          exact hready (ErrorCode.decode_eq_ipcNotReceiving_iff.mp hdecode)

theorem sendLoop_succ (gate : Gate σ) (args : Args) (s : σ) (retries : Nat) :
    gate.sendLoop args (retries + 1) s =
      if gate.reply args s 0 = -6 then gate.sendLoop args retries (gate.beforeTry args s 1)
      else (ErrorCode.outcome (gate.reply args s 0), gate.afterTry args s 0) := by
  have hround := ErrorCode.match_decode (gate.reply args s 0)
    (fun result => (pure result : StateM σ (Except ErrorCode Unit)))
    (do let _ ← gate.call .yield .zero; gate.sendLoop args retries)
  refine (congrFun hround (gate.afterTry args s 0)).trans ?_
  split
  · rfl
  · rfl

/-- Without a limit on the tries, the first reply that is no refusal of this kind ends the send. -/
theorem AnsweredAt.comesOut_iff (h : gate.AnsweredAt args s n) {result : Except ErrorCode Unit}
    {s' : σ} : gate.ComesOut args s result s' ↔
      result = ErrorCode.outcome (gate.reply args s n) ∧ s' = gate.afterTry args s n := by
  induction n generalizing s with
  | zero => rw [Gate.comesOut_iff, if_neg h.answered]
  | succ n ih =>
      obtain ⟨hrefused, hlater⟩ := h.of_succ
      rw [Gate.comesOut_iff, if_pos hrefused, ih hlater, reply_succ, afterTry_succ]

/-- A limit that lets the send be made often enough does not show. -/
theorem AnsweredAt.sendLoop_eq {retries : Nat} (h : gate.AnsweredAt args s n)
    (hretries : n ≤ retries) :
    gate.sendLoop args retries s =
      (ErrorCode.outcome (gate.reply args s n), gate.afterTry args s n) := by
  induction n generalizing s retries with
  | zero =>
      cases retries with
      | zero => rfl
      | succ retries => rw [sendLoop_succ, if_neg h.answered]
  | succ n ih =>
      obtain ⟨hrefused, hlater⟩ := h.of_succ
      obtain ⟨more, rfl⟩ := Nat.exists_eq_add_of_lt hretries
      have henough : n ≤ n + more := Nat.le_add_right n more
      rw [sendLoop_succ, if_pos hrefused, ih hlater henough, reply_succ, afterTry_succ]

/-! ## What a send comes to -/

/-- What a send comes to whose try `n` is the first to be answered: it makes that try and the `n`
before it, with the same arguments and a yield between any two, and no other call; its result is
what the last reply reports; and the kernel reads the message that was meant from the arguments. -/
structure SentAt (gate : Gate σ) (s : σ) (target : EnvId) (value : UInt32)
    (page : Option PagePayload) (n : Nat) (result : Except ErrorCode Unit) : Prop where
  /-- Without a limit on the tries, and with the calls on record. -/
  unlimited : ∀ answer last, gate.recorded.ComesOut (sendArgs target value page) (s, []) answer last ↔
    answer = result ∧ last = (gate.afterTry (sendArgs target value page) s n,
      refusedTries (sendArgs target value page) n ++ [(.ipcTrySend, sendArgs target value page)])
  /-- Within any limit that allows that many tries. -/
  limited : ∀ retries, n ≤ retries → gate.recorded.send retries target value page (s, []) =
    (result, gate.afterTry (sendArgs target value page) s n,
      refusedTries (sendArgs target value page) n ++ [(.ipcTrySend, sendArgs target value page)])
  /-- The record changes nothing. -/
  unrecorded : ∀ retries, n ≤ retries → gate.send retries target value page s =
    (result, gate.afterTry (sendArgs target value page) s n)
  reported : ErrorCode.Reports (gate.reply (sendArgs target value page) s n) result
  understood :
    let args := sendArgs target value page
    SendRequest.decode args.arg0 args.arg1 args.arg2 args.arg3 args.arg4 = ⟨target, value,
      page.bind fun p =>
        if p.src.toNat < maxUserAddress then some ⟨p.src, p.size, p.perm.bits⟩ else none⟩

/-- User code and kernel agree on a send, whatever the replies are. -/
theorem sentAt_of_answeredAt (gate : Gate σ) (s : σ) (target : EnvId) (value : UInt32)
    (page : Option PagePayload) (n : Nat)
    (hanswered : gate.AnsweredAt (sendArgs target value page) s n) :
    ∃ result, gate.SentAt s target value page n result := by
  refine ⟨ErrorCode.outcome (gate.reply (sendArgs target value page) s n), ?_, ?_, ?_, ?_, ?_⟩
  · intro answer last
    rw [(hanswered.recorded []).comesOut_iff, reply_recorded, afterTry_recorded, List.nil_append]
  · intro retries hretries
    rw [send, (hanswered.recorded []).sendLoop_eq hretries, reply_recorded, afterTry_recorded,
      List.nil_append]
  · intro retries hretries
    exact hanswered.sendLoop_eq hretries
  · exact ErrorCode.reports_outcome _
  · exact SendRequest.decode_sendArgs target value page

def readyAtThird : Gate Nat where
  call number _ := fun tries =>
    match number with
    | .ipcTrySend => (if tries < 2 then -6 else 0, tries + 1)
    | _ => (0, tries)
  inbox _ := .none

/-- A send of a value with a page, refused twice. -/
theorem sentAt_readyAtThird :
    readyAtThird.AnsweredAt (sendArgs ⟨0x1402⟩ 7 (some ⟨0x400000, 4096, ⟨6⟩⟩)) 0 2 ∧
      ∃ result, readyAtThird.SentAt 0 ⟨0x1402⟩ 7 (some ⟨0x400000, 4096, ⟨6⟩⟩) 2 result := by
  have hanswered :
      readyAtThird.AnsweredAt (sendArgs ⟨0x1402⟩ 7 (some ⟨0x400000, 4096, ⟨6⟩⟩)) 0 2 :=
    ⟨by decide, by decide⟩
  exact ⟨hanswered, sentAt_of_answeredAt readyAtThird 0 ⟨0x1402⟩ 7 _ 2 hanswered⟩

end Gate

end Exokernel
