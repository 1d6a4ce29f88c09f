import Xv6Paging.Kernel.Log
import Xv6Paging.Lib.Machine

/-!
# Room in the log

Any number of processes open, use and close operations in any order. `begin_op`
lets an operation in only if there is room for `MAXOPBLOCKS` blocks for it and for
every other one that is open, so the blocks in the header and those the open
operations may still add always fit. `log_write` tests for a full header before it
looks whether the block is in it already, so an operation that has used up its
share must not log anything again.
-/

namespace Xv6Paging.Proof

open Xv6Paging Lib

variable {P : Type} {s : LogSys P} {l l' : Log} {bs : List Nat} {b : Nat} {a : LogAct P}
  {A : Finset P} {C : List Nat → Nat → Prop}

/-- A `log_write` of `b`, after the blocks of the operation, meets `C`. -/
def PhaseMeets (C : List Nat → Nat → Prop) (b : Nat) : Phase → Prop
  | .inOp bs => C bs b
  | _ => True

instance (C : List Nat → Nat → Prop) [∀ bs b, Decidable (C bs b)] (b : Nat) :
    ∀ x : Phase, Decidable (PhaseMeets C b x)
  | .inOp bs => inferInstanceAs (Decidable (C bs b))
  | .idle => .isTrue trivial
  | .committing => .isTrue trivial

/-- Nothing has panicked, and a `log_write` meets `C`. -/
def LogMeets {P : Type} (C : List Nat → Nat → Prop) (s : LogSys P) : LogAct P → Prop
  | .logWrite p b => s.panicked = none ∧ PhaseMeets C b (s.phase p)
  | _ => s.panicked = none

instance {P : Type} (C : List Nat → Nat → Prop) [∀ bs b, Decidable (C bs b)] (s : LogSys P) :
    ∀ a : LogAct P, Decidable (LogMeets C s a)
  | .logWrite p b => inferInstanceAs (Decidable (s.panicked = none ∧ PhaseMeets C b (s.phase p)))
  | .beginOp _ => inferInstanceAs (Decidable (s.panicked = none))
  | .endOp _ => inferInstanceAs (Decidable (s.panicked = none))
  | .commit _ => inferInstanceAs (Decidable (s.panicked = none))

/-- The states of runs in which every `log_write` meets `C`. -/
def LogRun {P : Type} [DecidableEq P] (C : List Nat → Nat → Prop) : LogSys P → Prop :=
  Reach LogSys.step (fun s => ∃ block, s = LogSys.start P block) (LogMeets C)

/-- An operation logs at most `MAXOPBLOCKS` distinct blocks. -/
def InShare (bs : List Nat) (b : Nat) : Prop := (addLogged bs b).length ≤ maxOpBlocks

/-- It logs nothing more once it has logged that many. -/
def BelowShare (bs : List Nat) (_ : Nat) : Prop := bs.length < maxOpBlocks

/-- What the reservations are for. -/
structure LogSafe {P : Type} (s : LogSys P) : Prop where
  room : s.log.lh.n ≤ logBlocks
  distinct : ∀ i j, i < s.log.lh.n → j < s.log.lh.n → s.log.lh.block i = s.log.lh.block j → i = j
  /-- `commit` runs when no operation is open. -/
  alone : ∀ p q bs, s.phase p = .committing → s.phase q ≠ .inOp bs
  noPanic : s.panicked ≠ some .tooBig

theorem BelowShare.inShare (h : BelowShare bs b) : InShare bs b := by
  unfold InShare addLogged
  unfold BelowShare at h
  split
  · omega
  · rw [List.length_cons]; omega

/-! ## `log_write` -/

/-- `log_write` finds the block, or the end of the header. -/
theorem slot_cases (lh : LogHeader) (b : Nat) :
    (lh.slot b < lh.n ∧ lh.block (lh.slot b) = b) ∨
      (lh.slot b = lh.n ∧ ∀ i, i < lh.n → lh.block i ≠ b) := by
  unfold LogHeader.slot
  cases hf : (List.range lh.n).find? fun i => lh.block i == b with
  | some i =>
    left
    have hp := List.find?_some hf
    exact ⟨List.mem_range.mp (List.mem_of_find?_eq_some hf), by simpa using hp⟩
  | none =>
    right
    refine ⟨rfl, fun i hi he => ?_⟩
    have := List.find?_eq_none.mp hf i (List.mem_range.mpr hi)
    simp [he] at this

/-- Everything `log_write` can do. -/
inductive LogWritten (l : Log) (b : Nat) : Except LogPanic Log → Prop where
  | full : logBlocks ≤ l.lh.n → LogWritten l b (.error .tooBig)
  | outside : l.outstanding < 1 → LogWritten l b (.error .outsideOfTrans)
  /-- The block is there already. -/
  | absorbed {i : Nat} : l.lh.n < logBlocks → i < l.lh.n → l.lh.block i = b → LogWritten l b (.ok l)
  | added {l' : Log} : l.lh.n < logBlocks → (∀ i, i < l.lh.n → l.lh.block i ≠ b) →
      l' = { l with lh := ⟨l.lh.n + 1, Function.update l.lh.block l.lh.n b⟩ } →
      LogWritten l b (.ok l')

theorem logWrite_cases (l : Log) (b : Nat) : LogWritten l b (logWrite l b) := by
  unfold logWrite
  split
  · rename_i h
    exact .full h
  · rename_i hroom
    split
    · rename_i hout
      exact .outside hout
    · rcases slot_cases l.lh b with ⟨hlt, hb⟩ | ⟨heq, hne⟩
      · have hsame : Function.update l.lh.block (l.lh.slot b) b = l.lh.block :=
          Function.update_eq_self_iff.mpr hb.symm
        dsimp only
        rw [if_neg (by omega), hsame]
        exact .absorbed (by omega) hlt hb
      · refine .added (by omega) hne ?_
        simp only [heq, if_true]

/-! ## The reservations -/

/-- The blocks an operation may still add. -/
def shareLeft : Phase → Nat
  | .inOp bs => maxOpBlocks - bs.length
  | _ => 0

/-- The open operations are those of `A`, and there is room for all they may still log. -/
structure Reserved {P : Type} (l : Log) (ph : P → Phase) (A : Finset P) : Prop where
  ops : ∀ p, p ∈ A ↔ ∃ bs, ph p = .inOp bs
  count : l.outstanding = A.card
  budget : l.lh.n + ∑ p ∈ A, shareLeft (ph p) ≤ logBlocks
  share : ∀ p bs, ph p = .inOp bs → bs.length ≤ maxOpBlocks
  /-- What an operation has logged is in the header. -/
  logged : ∀ p bs b, ph p = .inOp bs → b ∈ bs → ∃ i, i < l.lh.n ∧ l.lh.block i = b
  distinct : ∀ i j, i < l.lh.n → j < l.lh.n → l.lh.block i = l.lh.block j → i = j
  flag : ∀ p, ph p = .committing → l.committing = true
  alone : l.committing = true → A = ∅
  one : ∀ p q, ph p = .committing → ph q = .committing → p = q

/-- Everything a step can do. -/
inductive LogStepped {P : Type} [DecidableEq P] (s : LogSys P) : LogAct P → LogSys P → Prop where
  | opened {p : P} : s.phase p = .idle → s.log.committing = false →
      (s.log.lh.n : Int) + (s.log.outstanding + 1) * maxOpBlocks ≤ logBlocks →
      LogStepped s (.beginOp p) { s with
        log := { s.log with outstanding := s.log.outstanding + 1 }
        phase := Function.update s.phase p (.inOp []) }
  | wrote {p : P} {b : Nat} {bs : List Nat} {l : Log} : s.phase p = .inOp bs →
      logWrite s.log b = .ok l → LogStepped s (.logWrite p b) { s with
        log := l, phase := Function.update s.phase p (.inOp (addLogged bs b)) }
  | writeFailed {p : P} {b : Nat} {bs : List Nat} {e : LogPanic} : s.phase p = .inOp bs →
      logWrite s.log b = .error e → LogStepped s (.logWrite p b) { s with panicked := some e }
  | closed {p : P} {bs : List Nat} : s.phase p = .inOp bs → s.log.committing = false →
      s.log.outstanding - 1 ≠ 0 → LogStepped s (.endOp p) { s with
        log := { s.log with outstanding := s.log.outstanding - 1 }
        phase := Function.update s.phase p .idle }
  | closedLast {p : P} {bs : List Nat} : s.phase p = .inOp bs → s.log.committing = false →
      s.log.outstanding - 1 = 0 → LogStepped s (.endOp p) { s with
        log := { s.log with outstanding := s.log.outstanding - 1, committing := true }
        phase := Function.update s.phase p .committing }
  | closeFailed {p : P} {bs : List Nat} : s.phase p = .inOp bs → s.log.committing = true →
      LogStepped s (.endOp p) { s with panicked := some .committing }
  | committed {p : P} : s.phase p = .committing → LogStepped s (.commit p) { s with
        log := endCommit s.log, phase := Function.update s.phase p .idle }

theorem logStep_cases [DecidableEq P] {s' : LogSys P} (h : s.step a = some s') :
    LogStepped s a s' := by
  cases a with
  | beginOp p =>
    simp only [LogSys.step, beginOp] at h
    split at h
    · rename_i l hidle hl
      split at hl
      · simp at hl
      · rename_i hc
        split at hl
        · simp at hl
        · rename_i hroom
          cases hl
          cases h
          exact .opened hidle (by simpa using hc) (by omega)
    · simp at h
  | logWrite p b =>
    simp only [LogSys.step] at h
    split at h
    · rename_i bs hop
      split at h
      · rename_i e he
        cases h
        exact .writeFailed hop he
      · rename_i l hl
        cases h
        exact .wrote hop hl
    · simp at h
  | endOp p =>
    simp only [LogSys.step, endOp] at h
    split at h
    · rename_i bs hop
      split at h
      · rename_i e he
        split at he
        · rename_i hc
          cases he
          cases h
          exact .closeFailed hop hc
        · split at he <;> simp at he
      · rename_i commits l hl
        split at hl
        · simp at hl
        · rename_i hc
          split at hl
          · rename_i hzero
            cases hl
            cases h
            exact .closedLast hop (by simpa using hc) hzero
          · rename_i hzero
            cases hl
            cases h
            exact .closed hop (by simpa using hc) hzero
    · simp at h
  | commit p =>
    simp only [LogSys.step] at h
    split at h
    · rename_i hp
      cases h
      exact .committed hp
    · simp at h

theorem shareLeft_le (x : Phase) : shareLeft x ≤ maxOpBlocks := by
  cases x with
  | inOp bs => exact Nat.sub_le ..
  | idle | committing => exact Nat.zero_le _

theorem Reserved.room {ph : P → Phase} (h : Reserved l ph A) :
    l.lh.n ≤ logBlocks := Nat.le_trans (Nat.le_add_right ..) h.budget

section

variable {P : Type} [DecidableEq P] {l : Log} {ph : P → Phase} {A : Finset P} {p : P}

/-- What is reserved for the others does not depend on what `p` does. -/
theorem shareLeft_erase (x : Phase) :
    ∑ q ∈ A.erase p, shareLeft (Function.update ph p x q) = ∑ q ∈ A.erase p, shareLeft (ph q) :=
  Finset.sum_congr rfl fun q hq => by rw [Function.update_of_ne (Finset.ne_of_mem_erase hq)]

theorem update_phase {x y : Phase} {q : P} (h : Function.update ph p x q = y) :
    q = p ∧ x = y ∨ q ≠ p ∧ ph q = y := by
  by_cases he : q = p
  · rw [he, Function.update_self] at h
    exact Or.inl ⟨he, h⟩
  · rw [Function.update_of_ne he] at h
    exact Or.inr ⟨he, h⟩

/-- An operation that is let in finds room for all it may log. -/
theorem Reserved.opened (h : Reserved l ph A) (hidle : ph p = .idle) (hc : l.committing = false)
    (hroom : (l.lh.n : Int) + (l.outstanding + 1) * maxOpBlocks ≤ logBlocks) :
    Reserved { l with outstanding := l.outstanding + 1 } (Function.update ph p (.inOp []))
      (insert p A) := by
  have hp : p ∉ A := fun hp => by
    obtain ⟨bs, hbs⟩ := (h.ops p).mp hp
    simp [hidle] at hbs
  refine ⟨fun q => ?_, ?_, ?_, fun q bs hq => ?_, fun q bs b hq hb => ?_, h.distinct,
    fun q hq => ?_, fun hcom => ?_, fun q r hq hr => ?_⟩
  · by_cases he : q = p
    · simp [he]
    · simp [he, h.ops q]
  · rw [Finset.card_insert_of_notMem hp, h.count]
    push_cast
    rfl
  · have hsum : ∑ q ∈ insert p A, shareLeft (Function.update ph p (.inOp []) q) ≤
        (insert p A).card • maxOpBlocks := Finset.sum_le_card_nsmul _ _ _ fun q _ => shareLeft_le _
    rw [Finset.card_insert_of_notMem hp, smul_eq_mul] at hsum
    rw [h.count] at hroom
    push_cast at hroom
    change _ ≤ (A.card + 1) * 10 at hsum
    change l.lh.n + _ ≤ 30
    omega
  · rcases update_phase hq with ⟨_, he⟩ | ⟨_, hq⟩
    · cases he
      exact Nat.zero_le _
    · exact h.share q bs hq
  · rcases update_phase hq with ⟨_, he⟩ | ⟨_, hq⟩
    · cases he
      simp at hb
    · exact h.logged q bs b hq hb
  · rcases update_phase hq with ⟨_, he⟩ | ⟨_, hq⟩
    · simp at he
    · exact h.flag q hq
  · exact absurd hcom (by simp [hc])
  · rcases update_phase hq with ⟨_, he⟩ | ⟨_, hq⟩
    · simp at he
    · exact absurd (h.flag q hq) (by simp [hc])

/-- What `log_write` does to the header: the old entries stay, and `b` is among them. -/
theorem logWrite_ok (h : logWrite l b = .ok l')
    (hd : ∀ i j, i < l.lh.n → j < l.lh.n → l.lh.block i = l.lh.block j → i = j) :
    l'.outstanding = l.outstanding ∧ l'.committing = l.committing ∧
      (∀ c, (∃ i, i < l.lh.n ∧ l.lh.block i = c) ∨ c = b →
        ∃ i, i < l'.lh.n ∧ l'.lh.block i = c) ∧
      (∀ i j, i < l'.lh.n → j < l'.lh.n → l'.lh.block i = l'.lh.block j → i = j) ∧
      ((∃ i, i < l.lh.n ∧ l.lh.block i = b) ∧ l'.lh.n = l.lh.n ∨
        (∀ i, i < l.lh.n → l.lh.block i ≠ b) ∧ l'.lh.n = l.lh.n + 1) := by
  have hw := logWrite_cases l b
  rw [h] at hw
  cases hw with
  | @absorbed i _ hi hb =>
    refine ⟨rfl, rfl, fun c hc => ?_, hd, Or.inl ⟨⟨i, hi, hb⟩, rfl⟩⟩
    rcases hc with hc | rfl
    · exact hc
    · exact ⟨i, hi, hb⟩
  | added _ hne hl' =>
    subst hl'
    have hold : ∀ i, i < l.lh.n → Function.update l.lh.block l.lh.n b i = l.lh.block i :=
      fun i hi => Function.update_of_ne (by omega) ..
    have hnew : Function.update l.lh.block l.lh.n b l.lh.n = b := Function.update_self ..
    refine ⟨rfl, rfl, fun c hc => ?_, fun i j hi hj he => ?_, Or.inr ⟨hne, rfl⟩⟩
    · rcases hc with ⟨i, hi, hc⟩ | rfl
      · exact ⟨i, Nat.lt_succ_of_lt hi, (hold i hi).trans hc⟩
      · exact ⟨l.lh.n, Nat.lt_succ_self _, hnew⟩
    · dsimp only at hi hj he
      rcases Nat.lt_succ_iff_lt_or_eq.mp hi with hi | rfl <;>
        rcases Nat.lt_succ_iff_lt_or_eq.mp hj with hj | rfl
      · rw [hold i hi, hold j hj] at he
        exact hd i j hi hj he
      · rw [hold i hi, hnew] at he
        exact absurd he (hne i hi)
      · rw [hnew, hold j hj] at he
        exact absurd he.symm (hne j hj)
      · rfl

/-- A block that is logged comes out of the share of the operation, if the header grows at all. -/
theorem Reserved.wrote (h : Reserved l ph A) (hop : ph p = .inOp bs) (hshare : InShare bs b)
    (hl : logWrite l b = .ok l') :
    Reserved l' (Function.update ph p (.inOp (addLogged bs b))) A := by
  obtain ⟨hout, hcom, hin, hd, hgrow⟩ := logWrite_ok hl h.distinct
  have hp : p ∈ A := (h.ops p).mpr ⟨bs, hop⟩
  have hlogged : ∀ c, c ∈ addLogged bs b → c ∈ bs ∨ c = b := by
    intro c hc
    unfold addLogged at hc
    split at hc
    · exact Or.inl hc
    · exact (List.mem_cons.mp hc).symm
  refine ⟨fun q => ?_, hout.trans h.count, ?_, fun q cs hq => ?_, fun q cs c hq hc => ?_, hd,
    fun q hq => ?_, fun hc => h.alone (hcom ▸ hc), fun q r hq hr => ?_⟩
  · by_cases he : q = p
    · simp [he, hp]
    · simp [he, h.ops q]
  · have hbudget := h.budget
    have hlen := h.share p bs hop
    rw [← Finset.add_sum_erase A _ hp, hop] at hbudget
    rw [← Finset.add_sum_erase A _ hp, shareLeft_erase, Function.update_self]
    simp only [shareLeft] at hbudget ⊢
    unfold InShare at hshare
    by_cases hb : b ∈ bs
    · -- logged before, so it is in the header
      obtain ⟨i, hi, hbi⟩ := h.logged p bs b hop hb
      have hsame : addLogged bs b = bs := if_pos hb
      rw [hsame]
      rcases hgrow with ⟨_, hn⟩ | ⟨hne, _⟩
      · omega
      · exact absurd hbi (hne i hi)
    · have hcons : addLogged bs b = b :: bs := if_neg hb
      rw [hcons, List.length_cons] at hshare ⊢
      rcases hgrow with ⟨_, hn⟩ | ⟨_, hn⟩ <;> omega
  · rcases update_phase hq with ⟨_, he⟩ | ⟨_, hq⟩
    · cases he
      exact hshare
    · exact h.share q cs hq
  · rcases update_phase hq with ⟨_, he⟩ | ⟨_, hq⟩
    · cases he
      rcases hlogged c hc with hc | hc
      · exact hin c (Or.inl (h.logged p bs c hop hc))
      · exact hin c (Or.inr hc)
    · exact hin c (Or.inl (h.logged q cs c hq hc))
  · rcases update_phase hq with ⟨_, he⟩ | ⟨_, hq⟩
    · simp at he
    · exact hcom ▸ h.flag q hq
  · rcases update_phase hq with ⟨_, he⟩ | ⟨_, hq⟩
    · simp at he
    · rcases update_phase hr with ⟨_, he⟩ | ⟨_, hr⟩
      · simp at he
      · exact h.one q r hq hr

/-- A closed operation gives the rest of its share back. -/
theorem Reserved.closed (h : Reserved l ph A) {x : Phase} {c : Bool} (hop : ph p = .inOp bs)
    (hnc : l.committing = false)
    (hl' : l' = { l with outstanding := l.outstanding - 1, committing := c })
    (hx : x = if c then .committing else .idle) (hc : c = true → l.outstanding - 1 = 0) :
    Reserved l' (Function.update ph p x) (A.erase p) := by
  subst hl'
  have hp : p ∈ A := (h.ops p).mpr ⟨bs, hop⟩
  have hcard : (A.erase p).card = A.card - 1 := Finset.card_erase_of_mem hp
  have hpos : 0 < A.card := Finset.card_pos.mpr ⟨p, hp⟩
  have hnop : ∀ cs, x ≠ .inOp cs := fun cs => by rw [hx]; cases c <;> simp
  have hfree : ∀ q, ph q ≠ .committing := fun q hq => absurd (h.flag q hq) (by simp [hnc])
  refine ⟨fun q => ?_, ?_, ?_, fun q cs hq => ?_, fun q cs b hq hb => ?_, h.distinct,
    fun q hq => ?_, fun hcom => ?_, fun q r hq hr => ?_⟩
  · by_cases he : q = p
    · simp [he, hnop]
    · simp [he, h.ops q]
  · dsimp only
    rw [hcard, h.count]
    omega
  · rw [shareLeft_erase]
    have hbudget := h.budget
    rw [← Finset.add_sum_erase A _ hp] at hbudget
    dsimp only
    omega
  · rcases update_phase hq with ⟨_, he⟩ | ⟨_, hq⟩
    · exact absurd he (hnop cs)
    · exact h.share q cs hq
  · rcases update_phase hq with ⟨_, he⟩ | ⟨_, hq⟩
    · exact absurd he (hnop cs)
    · exact h.logged q cs b hq hb
  · rcases update_phase hq with ⟨_, he⟩ | ⟨_, hq⟩
    · rw [hx] at he
      cases c with
      | true => rfl
      | false => simp at he
    · exact absurd hq (hfree q)
  · have hzero := hc hcom
    rw [h.count] at hzero
    exact Finset.card_eq_zero.mp (by omega)
  · rcases update_phase hq with ⟨hq, _⟩ | ⟨_, hq⟩
    · rcases update_phase hr with ⟨hr, _⟩ | ⟨_, hr⟩
      · rw [hq, hr]
      · exact absurd hr (hfree r)
    · exact absurd hq (hfree q)

/-- After `commit` the log is empty. -/
theorem Reserved.committed (h : Reserved l ph A) (hp : ph p = .committing) :
    Reserved (endCommit l) (Function.update ph p .idle) A := by
  have hA : A = ∅ := h.alone (h.flag p hp)
  subst hA
  have hnone : ∀ q cs, Function.update ph p .idle q ≠ .inOp cs := fun q cs hq => by
    rcases update_phase hq with ⟨_, he⟩ | ⟨_, hq⟩
    · simp at he
    · simpa using (h.ops q).mpr ⟨cs, hq⟩
  have hidle : ∀ q, Function.update ph p .idle q ≠ .committing := fun q hq => by
    rcases update_phase hq with ⟨_, he⟩ | ⟨hne, hq⟩
    · simp at he
    · exact hne (h.one q p hq hp)
  have hzero : (endCommit l).lh.n = 0 := by
    unfold endCommit
    dsimp only
    split
    · rfl
    · omega
  refine ⟨fun q => ⟨fun hq => absurd hq (Finset.notMem_empty q),
    fun ⟨cs, hq⟩ => absurd hq (hnone q cs)⟩, h.count, ?_, fun q cs hq => absurd hq (hnone q cs),
    fun q cs b hq => absurd hq (hnone q cs), fun i j hi => absurd hi (by omega),
    fun q hq => absurd hq (hidle q), fun _ => rfl, fun q _ hq => absurd hq (hidle q)⟩
  rw [hzero]
  exact Nat.zero_le _

end

/-! ## Every run -/

theorem LogMeets.of_inOp {p : P} (h : LogMeets C s (.logWrite p b)) (hop : s.phase p = .inOp bs) :
    C bs b := by
  have h₂ := h.2
  rw [hop] at h₂
  exact h₂

theorem LogMeets.going (h : LogMeets C s a) : s.panicked = none := by
  cases a with
  | logWrite p b => exact h.1
  | beginOp p | endOp p | commit p => exact h

theorem LogMeets.mono {C' : List Nat → Nat → Prop} (hC : ∀ bs b, C bs b → C' bs b)
    (h : LogMeets C s a) : LogMeets C' s a := by
  cases a with
  | logWrite p b =>
    refine ⟨h.1, ?_⟩
    have hm := h.2
    cases hp : s.phase p with
    | inOp bs =>
      rw [hp] at hm
      exact hC bs b hm
    | idle | committing => trivial
  | beginOp p | endOp p | commit p => exact h

/-- **A step keeps the reservations in order.** -/
theorem Reserved.step [DecidableEq P] {s' : LogSys P} (h : Reserved s.log s.phase A)
    (hshare : LogMeets InShare s a) (hs : s.step a = some s') :
    ∃ A', Reserved s'.log s'.phase A' := by
  cases logStep_cases hs with
  | opened hidle hc hroom => exact ⟨_, h.opened hidle hc hroom⟩
  | wrote hop hl => exact ⟨A, h.wrote hop (hshare.of_inOp hop) hl⟩
  | writeFailed _ _ => exact ⟨A, h⟩
  | closed hop hnc hne =>
    exact ⟨_, h.closed (c := false) hop hnc (by rw [← hnc]) rfl fun hc => by simp at hc⟩
  | closedLast hop hnc hzero => exact ⟨_, h.closed (c := true) hop hnc rfl rfl fun _ => hzero⟩
  | closeFailed _ _ => exact ⟨A, h⟩
  | committed hp => exact ⟨A, h.committed hp⟩

/-- The header is not full while an operation has some of its share left. -/
theorem Reserved.not_full [DecidableEq P] {ph : P → Phase} (h : Reserved l ph A) {p : P}
    (hop : ph p = .inOp bs) (hleft : bs.length < maxOpBlocks) : logWrite l b ≠ .error .tooBig := by
  intro hfull
  have hbudget := h.budget
  rw [← Finset.add_sum_erase A _ ((h.ops p).mpr ⟨bs, hop⟩), hop] at hbudget
  have hw := logWrite_cases l b
  rw [hfull] at hw
  cases hw with
  | full hn =>
    simp only [shareLeft] at hbudget
    omega

theorem logRun_reserved [DecidableEq P] (h : LogRun InShare s) :
    ∃ A, Reserved s.log s.phase A := by
  refine Reach.keeps (P := fun s => ∃ A, Reserved s.log s.phase A) ?_ ?_ h
  · rintro _ ⟨block, rfl⟩
    refine ⟨∅, ⟨fun p => by simp [LogSys.start], rfl, by simp [LogSys.start], ?_, ?_, ?_,
      ?_, ?_, ?_⟩⟩
    all_goals simp [LogSys.start]
  · rintro s a s' ⟨A, hA⟩ hshare hs
    exact hA.step hshare hs

theorem LogRun.inShare [DecidableEq P] (h : LogRun BelowShare s) :
    LogRun InShare s := Reach.mono (fun _ _ hm => hm.mono fun _ _ => BelowShare.inShare) h

/-- A run whose operations stop logging when they have used up their share does not panic. -/
theorem logRun_noPanic [DecidableEq P] (h : LogRun BelowShare s) :
    s.panicked ≠ some .tooBig := by
  cases h with
  | init h =>
    obtain ⟨block, rfl⟩ := h
    simp [LogSys.start]
  | @step s₀ _ a hrun hmeets hs =>
    obtain ⟨A, hA⟩ := logRun_reserved (LogRun.inShare hrun)
    have hgoing := hmeets.going
    cases logStep_cases hs with
    | writeFailed hop hfail =>
      intro he
      simp only [Option.some.injEq] at he
      rw [he] at hfail
      exact hA.not_full hop (hmeets.of_inOp hop) hfail
    | closeFailed _ _ => simp
    | opened _ _ _ | wrote _ _ | closed _ _ _ | closedLast _ _ _ | committed _ => simp [hgoing]

/--
**The reservations suffice** in every run in which an operation that has logged
`MAXOPBLOCKS` distinct blocks logs nothing more.
-/
theorem log_reservations_suffice {P : Type} [DecidableEq P] {s : LogSys P}
    (h : LogRun BelowShare s) : LogSafe s := by
  obtain ⟨A, hA⟩ := logRun_reserved h.inShare
  refine ⟨hA.room, hA.distinct, fun p q bs hp hq => ?_, logRun_noPanic h⟩
  have hempty := hA.alone (hA.flag p hp)
  rw [hempty] at hA
  simpa using (hA.ops q).mpr ⟨bs, hq⟩

instance (bs : List Nat) (b : Nat) : Decidable (InShare bs b) :=
  inferInstanceAs (Decidable ((addLogged bs b).length ≤ maxOpBlocks))

instance (bs : List Nat) (b : Nat) : Decidable (BelowShare bs b) :=
  inferInstanceAs (Decidable (bs.length < maxOpBlocks))

/-- Three operations, each of which logs ten blocks of its own. -/
def fillLog : List (LogAct (Fin 3)) :=
  [.beginOp 0, .beginOp 1, .beginOp 2] ++
    (List.finRange 3).flatMap fun p => (List.range 10).map fun i => .logWrite p (100 * p.val + i)

theorem log_reservations_suffice_full_log : ∃ s : LogSys (Fin 3), LogRun BelowShare s ∧
    s.log.lh.n = logBlocks ∧ LogSafe s := by
  have hrun : (replay LogSys.step (fun s a => decide (LogMeets BelowShare s a))
      (LogSys.start (Fin 3) fun _ => 0) fillLog).map (fun s => s.log.lh.n) = some 30 := by
    decide +kernel
  obtain ⟨s, hs, hn⟩ := Option.map_eq_some_iff.mp hrun
  have hreach : LogRun BelowShare s :=
    replay_reach (fun _ _ h => of_decide_eq_true h) (.init ⟨_, rfl⟩) hs
  exact ⟨s, hreach, hn, log_reservations_suffice hreach⟩

/-- With the log full, logging one of the blocks again is a panic. -/
theorem log_reservations_can_fail :
    ¬ ∀ (P : Type) [DecidableEq P] (s : LogSys P), LogRun InShare s → LogSafe s := by
  intro hall
  have hrun : (replay LogSys.step (fun s a => decide (LogMeets InShare s a))
      (LogSys.start (Fin 3) fun _ => 0) (fillLog ++ [.logWrite 0 0])).map (fun s => s.panicked) =
      some (some .tooBig) := by
    decide +kernel
  obtain ⟨s, hs, hp⟩ := Option.map_eq_some_iff.mp hrun
  have hreach : LogRun InShare s :=
    replay_reach (fun _ _ h => of_decide_eq_true h) (.init ⟨_, rfl⟩) hs
  exact (hall (Fin 3) s hreach).noPanic hp

end Xv6Paging.Proof
