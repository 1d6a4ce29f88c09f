import Xv6Paging.Kernel.Log

/-!
# A crash never leaves half a transaction

The commit record is the header block. As long as it says that the log is empty,
the blocks outside the log are those of before the transaction; once it lists the
logged blocks, the log holds all there is to know about the new ones, and whatever
a crash made of their home locations, installing them again puts it right. So a
disk is in one of three conditions, and recovery, cut short or not, only ever
moves it on.
-/

namespace Xv6Paging.Proof

open Xv6Paging Lib

variable {d home cache before : Blocks} {m start : Nat} {lh : LogHeader}

theorem logBlocks_eq : logBlocks = 30 := rfl

/-- The blocks of the log: the header and one for each logged block. -/
def InLog (start b : Nat) : Prop := start ≤ b ∧ b ≤ start + logBlocks

instance (start b : Nat) : Decidable (InLog start b) :=
  inferInstanceAs (Decidable (start ≤ b ∧ b ≤ start + logBlocks))

/-- What `log_write` collects for a transaction: distinct blocks, none of them of the log. -/
structure Loggable (start : Nat) (lh : LogHeader) : Prop where
  count : lh.n ≤ logBlocks
  uint : ∀ i, i < lh.n → lh.block i < 2 ^ 32
  home : ∀ i, i < lh.n → ¬ InLog start (lh.block i)
  distinct : ∀ i j, i < lh.n → j < lh.n → lh.block i = lh.block j → i = j

/-- The disk with the transaction done. -/
def installed (lh : LogHeader) (cache d : Blocks) : Blocks := fun b =>
  if b ∈ (List.range lh.n).map lh.block then cache b else d b

theorem installed_logged {i : Nat} (h : i < lh.n) :
    installed lh cache d (lh.block i) = cache (lh.block i) :=
  if_pos (List.mem_map.mpr ⟨i, List.mem_range.mpr h, rfl⟩)

theorem installed_other {b : Nat} (h : ∀ i, i < lh.n → lh.block i ≠ b) :
    installed lh cache d b = d b := by
  refine if_neg fun hb => ?_
  obtain ⟨i, hi, he⟩ := List.mem_map.mp hb
  exact h i (List.mem_range.mp hi) he

/-! ## The header block -/

/-- The entries `write_head` has stored after `m` rounds. -/
theorem word_encode_rounds (block : Nat → Nat) (hb : Block) (hm : m ≤ logBlocks)
    (hu : ∀ i, i < m → block i < 2 ^ 32) :
    word ((List.range m).foldl (fun hb i => setWord hb (i + 1) (block i)) hb) 0 = word hb 0 ∧
      ∀ i, i < m →
        word ((List.range m).foldl (fun hb i => setWord hb (i + 1) (block i)) hb) (i + 1) =
          block i := by
  induction m with
  | zero => exact ⟨rfl, fun i hi => absurd hi (Nat.not_lt_zero i)⟩
  | succ m ih =>
    obtain ⟨h0, hi⟩ := ih (by omega) fun i h => hu i (by omega)
    rw [List.range_succ, List.foldl_append, List.foldl_cons, List.foldl_nil]
    refine ⟨(word_setWord_ne _ _ (by omega)).trans h0, fun i hlt => ?_⟩
    by_cases he : i = m
    · subst he
      rw [logBlocks_eq] at hm
      exact word_setWord_self _ (by omega) (hu i (by omega))
    · rw [word_setWord_ne _ _ (by omega)]
      exact hi i (by omega)

/-- The header is read back as it was written. -/
theorem readHead_writeHead (start : Nat) (d : Blocks) (hn : lh.n ≤ logBlocks)
    (hu : ∀ i, i < lh.n → lh.block i < 2 ^ 32) :
    (readHead start (writeHead start lh d)).n = lh.n ∧
      ∀ i, i < lh.n → (readHead start (writeHead start lh d)).block i = lh.block i := by
  have hread : writeHead start lh d start = lh.encode (d start) := Function.update_self ..
  obtain ⟨h0, hi⟩ := word_encode_rounds lh.block (setWord (d start) 0 lh.n) hn hu
  rw [logBlocks_eq] at hn
  have hcount : word (lh.encode (d start)) 0 = lh.n :=
    h0.trans (word_setWord_self _ (by omega) (by omega))
  constructor
  · simp only [readHead, hread, hcount]
    rw [if_pos (by omega)]
  · intro i hlt
    simp only [readHead, hread]
    exact hi i hlt

theorem readHead_eq {d' : Blocks} (h : d' start = d start) :
    readHead start d' = readHead start d := by
  unfold readHead
  rw [h]

theorem writeHead_ne {b : Nat} (lh : LogHeader) (d : Blocks) (h : b ≠ start) :
    writeHead start lh d b = d b := Function.update_of_ne h ..

/-! ## The loops -/

theorem written_append (ws vs : List BWrite) (d : Blocks) :
    written (ws ++ vs) d = written vs (written ws d) := List.foldl_append

theorem written_range_succ (f : Nat → BWrite) (m : Nat) (d : Blocks) :
    written ((List.range (m + 1)).map f) d = f m (written ((List.range m).map f) d) := by
  rw [List.range_succ, List.map_append, written_append]
  rfl

/-- A prefix of a loop is the loop with fewer rounds. -/
theorem take_rounds (f : Nat → BWrite) (k n : Nat) :
    ((List.range n).map f).take k = (List.range (min k n)).map f := by
  rw [← List.map_take, List.take_range]

/-- `write_log` fills the log and nothing else. -/
theorem writeLog_rounds (start : Nat) (lh : LogHeader) (cache d : Blocks) (m : Nat) :
    (∀ i, i < m → written ((List.range m).map fun tail =>
        bwrite (start + tail + 1) fun _ => cache (lh.block tail)) d (start + i + 1) =
      cache (lh.block i)) ∧
      ∀ b, (∀ i, i < m → b ≠ start + i + 1) → written ((List.range m).map fun tail =>
        bwrite (start + tail + 1) fun _ => cache (lh.block tail)) d b = d b := by
  induction m with
  | zero => exact ⟨fun i hi => absurd hi (Nat.not_lt_zero i), fun b _ => rfl⟩
  | succ m ih =>
    obtain ⟨hlog, hrest⟩ := ih
    simp only [written_range_succ, bwrite]
    refine ⟨fun i hi => ?_, fun b hb => ?_⟩
    · by_cases he : i = m
      · rw [he, Function.update_self]
      · rw [Function.update_of_ne (by omega)]
        exact hlog i (by omega)
    · rw [Function.update_of_ne (hb m (by omega))]
      exact hrest b fun i hi => hb i (by omega)

/-- `install_trans` copies the log to the home locations and changes nothing else. -/
theorem install_rounds (h : Loggable start lh) (d : Blocks) (hm : m ≤ lh.n) :
    (∀ i, i < m → written ((List.range m).map fun tail =>
        bwrite (lh.block tail) fun d => d (start + tail + 1)) d (lh.block i) = d (start + i + 1)) ∧
      ∀ b, (∀ i, i < m → lh.block i ≠ b) → written ((List.range m).map fun tail =>
        bwrite (lh.block tail) fun d => d (start + tail + 1)) d b = d b := by
  induction m with
  | zero => exact ⟨fun i hi => absurd hi (Nat.not_lt_zero i), fun b _ => rfl⟩
  | succ m ih =>
    obtain ⟨hhome, hrest⟩ := ih (by omega)
    simp only [written_range_succ, bwrite]
    refine ⟨fun i hi => ?_, fun b hb => ?_⟩
    · by_cases he : i = m
      · subst he
        rw [Function.update_self]
        -- no home location is a block of the log
        refine hrest _ fun j hj hlog => h.home j (by omega) ?_
        have := h.count
        rw [hlog]
        unfold InLog
        omega
      · rw [Function.update_of_ne fun hb => he (h.distinct i m (by omega) (by omega) hb)]
        exact hhome i (by omega)
    · rw [Function.update_of_ne fun he => hb m (by omega) he.symm]
      exact hrest b fun i hi => hb i (by omega)

/-! ## The three conditions of a disk -/

/-- The log is empty, and the blocks outside it are those of `home`. -/
structure Settled (start : Nat) (home d : Blocks) : Prop where
  empty : (readHead start d).n = 0
  same : ∀ b, ¬ InLog start b → d b = home b

/-- The header lists the transaction and the log has its blocks; the others are those of
`before`. -/
structure Committed (start : Nat) (lh : LogHeader) (cache before d : Blocks) : Prop where
  count : (readHead start d).n = lh.n
  blocks : ∀ i, i < lh.n → (readHead start d).block i = lh.block i
  log : ∀ i, i < lh.n → d (start + i + 1) = cache (lh.block i)
  rest : ∀ b, ¬ InLog start b → (∀ i, i < lh.n → lh.block i ≠ b) → d b = before b

theorem Settled.erase (home : Blocks) (lh : LogHeader) (h : ∀ b, ¬ InLog start b → d b = home b) :
    Settled start home (writeHead start { lh with n := 0 } d) := by
  refine ⟨(readHead_writeHead start d (Nat.zero_le _) fun i hi => absurd hi (Nat.not_lt_zero i)).1,
    fun b hb => ?_⟩
  rw [writeHead_ne _ _ fun he => hb (by unfold InLog; omega)]
  exact h b hb

section

variable {start : Nat} {lh : LogHeader} {cache before d : Blocks}

/-- Part of `install_trans` leaves a committed transaction committed. -/
theorem Committed.install (h : Committed start lh cache before d) (hl : Loggable start lh)
    (hm : m ≤ lh.n) : Committed start lh cache before (written ((List.range m).map fun tail =>
      bwrite (lh.block tail) fun d => d (start + tail + 1)) d) := by
  obtain ⟨_, hrest⟩ := install_rounds hl d hm
  have hcount := hl.count
  have hlog : ∀ b, InLog start b → written ((List.range m).map fun tail =>
      bwrite (lh.block tail) fun d => d (start + tail + 1)) d b = d b := fun b hb =>
    hrest b fun i hi he => hl.home i (by omega) (he ▸ hb)
  have hhead := readHead_eq (hlog start ⟨Nat.le_refl _, Nat.le_add_right ..⟩)
  refine ⟨by rw [hhead]; exact h.count, fun i hi => by rw [hhead]; exact h.blocks i hi,
    fun i hi => ?_, fun b hb hne => ?_⟩
  · rw [hlog _ (by unfold InLog; omega)]
    exact h.log i hi
  · rw [hrest b fun i hi => hne i (by omega)]
    exact h.rest b hb hne

/-- The whole of it, and the log may be erased. -/
theorem Committed.finish (h : Committed start lh cache before d) (hl : Loggable start lh)
    (lh' : LogHeader) : Settled start (installed lh cache before)
      (writeHead start { lh' with n := 0 } (written (installTrans start lh) d)) := by
  obtain ⟨hhome, hrest⟩ := install_rounds hl d (Nat.le_refl _)
  refine Settled.erase _ lh' fun b hb => ?_
  by_cases hlogged : ∃ i, i < lh.n ∧ lh.block i = b
  · obtain ⟨i, hi, rfl⟩ := hlogged
    rw [installed_logged hi, ← h.log i hi]
    exact hhome i hi
  · have hne : ∀ i, i < lh.n → lh.block i ≠ b := fun i hi he => hlogged ⟨i, hi, he⟩
    rw [installed_other hne, ← h.rest b hb hne]
    exact hrest b hne

/-- Recovery works from the header on the disk, which lists the same blocks. -/
theorem Committed.recoverWrites (h : Committed start lh cache before d) : recoverWrites start d =
    installTrans start lh ++ [writeHead start { readHead start d with n := 0 }] := by
  have hinstall : installTrans start (readHead start d) = installTrans start lh := by
    unfold installTrans
    rw [h.count]
    refine List.map_congr_left fun i hi => ?_
    rw [h.blocks i (List.mem_range.mp hi)]
  rw [Xv6Paging.recoverWrites, hinstall]

/-- Recovery that stops early leaves the transaction committed; at its end it is installed. -/
theorem Committed.recoverCrash (h : Committed start lh cache before d) (hl : Loggable start lh)
    (k : Nat) : (k ≤ lh.n → Committed start lh cache before (recoverCrash start d k)) ∧
      (lh.n < k → Settled start (installed lh cache before) (recoverCrash start d k)) := by
  unfold Xv6Paging.recoverCrash crashAfter
  rw [h.recoverWrites]
  have hlen : (installTrans start lh).length = lh.n := by simp [installTrans]
  constructor
  · intro hk
    rw [List.take_append_of_le_length (by omega), installTrans, take_rounds]
    exact h.install hl (by omega)
  · intro hk
    rw [List.take_of_length_le (by simp [hlen]; omega), written_append]
    exact h.finish hl _

end

/-- With an empty log there is nothing to recover. -/
theorem Settled.recoverCrash (h : Settled start home d) (k : Nat) :
    Settled start home (recoverCrash start d k) := by
  have hwrites : recoverWrites start d = [writeHead start { readHead start d with n := 0 }] := by
    unfold recoverWrites installTrans
    rw [h.empty]
    rfl
  unfold Xv6Paging.recoverCrash crashAfter
  rw [hwrites]
  cases k with
  | zero => exact h
  | succ k =>
    rw [List.take_of_length_le (by simp)]
    exact Settled.erase _ _ h.same

/-! ## Crashes -/

/-- A crash while committing. -/
theorem commit_crash (cache : Blocks) (hl : Loggable start lh) (hpos : 0 < lh.n)
    (hempty : (readHead start before).n = 0) (k : Nat) :
    (k ≤ lh.n → Settled start before (crashAfter k (commitWrites start lh cache) before)) ∧
      (lh.n < k →
        Committed start lh cache before (crashAfter k (commitWrites start lh cache) before) ∨
        Settled start (installed lh cache before)
          (crashAfter k (commitWrites start lh cache) before)) := by
  have hcount := hl.count
  have hlen₁ : (writeLog start lh cache).length = lh.n := by simp [writeLog]
  have hlen₂ : (installTrans start lh).length = lh.n := by simp [installTrans]
  -- filling the log does not reach the blocks outside it, nor the header
  have hoff : ∀ m, m ≤ lh.n → ∀ b, (¬ InLog start b ∨ b = start) →
      written ((List.range m).map fun tail =>
        bwrite (start + tail + 1) fun _ => cache (lh.block tail)) before b = before b := by
    intro m hm b hb
    refine (writeLog_rounds start lh cache before m).2 b fun i hi he => ?_
    rcases hb with hb | hb
    · exact hb (by unfold InLog; omega)
    · omega
  unfold crashAfter commitWrites
  rw [if_pos hpos]
  constructor
  · intro hk
    rw [List.append_assoc, List.append_assoc, List.take_append_of_le_length (by omega), writeLog,
      take_rounds]
    refine ⟨?_, fun b hb => hoff _ (by omega) b (Or.inl hb)⟩
    rw [readHead_eq (hoff _ (by omega) start (Or.inr rfl))]
    exact hempty
  · intro hk
    obtain ⟨hlog, _⟩ := writeLog_rounds start lh cache before lh.n
    have hcommitted : Committed start lh cache before
        (writeHead start lh (written (writeLog start lh cache) before)) := by
      obtain ⟨hn, hblocks⟩ := readHead_writeHead start
        (written (writeLog start lh cache) before) hl.count hl.uint
      refine ⟨hn, hblocks, fun i hi => ?_, fun b hb _ => ?_⟩
      · rw [writeHead_ne _ _ (by omega)]
        exact hlog i hi
      · rw [writeHead_ne _ _ fun he => hb (by unfold InLog; omega)]
        exact hoff lh.n (Nat.le_refl _) b (Or.inl hb)
    have hsplit : ∀ ws : List BWrite,
        written (writeLog start lh cache ++ [writeHead start lh] ++ ws) before =
          written ws (writeHead start lh (written (writeLog start lh cache) before)) := by
      intro ws
      rw [written_append, written_append]
      rfl
    by_cases hlate : k ≤ 2 * lh.n + 1
    · left
      rw [List.take_append_of_le_length (by simp [hlen₁, hlen₂]; omega), List.take_append,
        List.take_of_length_le (by simp [hlen₁]; omega), hsplit, installTrans, take_rounds]
      exact hcommitted.install hl (by omega)
    · right
      rw [List.take_of_length_le (by simp [hlen₁, hlen₂]; omega), List.append_assoc, hsplit,
        written_append]
      exact hcommitted.finish hl _

/-- Any number of recoveries that are cut short, before the commit. -/
theorem settled_recoveries : ∀ (ks : List Nat) {d : Blocks},
    Settled start home d → Settled start home (ks.foldl (recoverCrash start) d) := by
  intro ks
  induction ks with
  | nil => intro d h; exact h
  | cons k ks ih => intro d h; exact ih (h.recoverCrash k)

/-- Any number of recoveries that are cut short, after the commit. -/
theorem committed_recoveries (hl : Loggable start lh) : ∀ (ks : List Nat) {d : Blocks},
      Committed start lh cache before d ∨ Settled start (installed lh cache before) d →
        Committed start lh cache before (ks.foldl (recoverCrash start) d) ∨
          Settled start (installed lh cache before) (ks.foldl (recoverCrash start) d) := by
  intro ks
  induction ks with
  | nil => intro d h; exact h
  | cons k ks ih =>
    intro d h
    refine ih ?_
    rcases h with h | h
    · rcases Nat.lt_or_ge lh.n k with hk | hk
      · exact Or.inr ((h.recoverCrash hl k).2 hk)
      · exact Or.inl ((h.recoverCrash hl k).1 hk)
    · exact Or.inr (h.recoverCrash k)

/-- A recovery that runs to its end is one that stops after its last write. -/
theorem recoverFromLog_eq (start : Nat) (d : Blocks) :
    recoverFromLog start d = recoverCrash start d ((readHead start d).n + 1) := by
  unfold recoverFromLog recoverCrash crashAfter
  rw [List.take_of_length_le (by simp [recoverWrites, installTrans])]

theorem Settled.recoverFromLog (h : Settled start home d) :
    ∀ b, ¬ InLog start b → recoverFromLog start d b = home b := by
  rw [recoverFromLog_eq]
  exact (h.recoverCrash _).same

theorem Committed.recoverFromLog (h : Committed start lh cache before d) (hl : Loggable start lh) :
    ∀ b, ¬ InLog start b → recoverFromLog start d b = installed lh cache before b := by
  rw [recoverFromLog_eq, h.count]
  exact ((h.recoverCrash hl _).2 (Nat.lt_succ_self _)).same

/-- The disk of a system that has been started: recovered, and then changed by commits. -/
inductive Running (start : Nat) : Blocks → Prop where
  | boot (d : Blocks) : Running start (recoverFromLog start d)
  | commit {d : Blocks} {lh : LogHeader} (cache : Blocks) : Running start d → Loggable start lh →
      Running start (written (commitWrites start lh cache) d)

/-- A running system starts its transactions with an empty log. -/
theorem Running.empty (h : Running start d) : (readHead start d).n = 0 := by
  induction h with
  | boot d =>
    unfold recoverFromLog recoverWrites
    rw [written_append]
    exact (Settled.erase (written (installTrans start (readHead start d)) d) _
      fun b _ => rfl).empty
  | @commit d lh cache _ hl ih =>
    by_cases hpos : 0 < lh.n
    · unfold commitWrites
      rw [if_pos hpos, written_append]
      exact (Settled.erase _ lh fun b _ => rfl).empty
    · unfold commitWrites
      rw [if_neg hpos]
      exact ih

/--
**A crash is atomic.** A transaction is cut short after `k` of its writes, and so is
recovery, any number of times; when a recovery gets to its end, the blocks outside
the log are all as before the transaction or all as after it, and they are as after
it if the header block had been written.
-/
theorem crash_atomic {start : Nat} {d : Blocks} {lh : LogHeader} (cache : Blocks)
    (hd : Running start d) (hl : Loggable start lh) (k : Nat) (ks : List Nat) :
    let d' := recoverFromLog start
      (ks.foldl (recoverCrash start) (crashAfter k (commitWrites start lh cache) d))
    ((∀ b, ¬ InLog start b → d' b = d b) ∨
      (∀ b, ¬ InLog start b → d' b = installed lh cache d b)) ∧
      (lh.n < k → ∀ b, ¬ InLog start b → d' b = installed lh cache d b) := by
  intro d'
  by_cases hpos : 0 < lh.n
  · obtain ⟨hearly, hlate⟩ := commit_crash cache hl hpos hd.empty k
    rcases Nat.lt_or_ge lh.n k with hk | hk
    · have hafter : ∀ b, ¬ InLog start b → d' b = installed lh cache d b := by
        rcases committed_recoveries hl ks (hlate hk) with h | h
        · exact h.recoverFromLog hl
        · exact h.recoverFromLog
      exact ⟨Or.inr hafter, fun _ => hafter⟩
    · have hbefore : ∀ b, ¬ InLog start b → d' b = d b :=
        (settled_recoveries ks (hearly hk)).recoverFromLog
      exact ⟨Or.inl hbefore, fun hk' => absurd hk' (by omega)⟩
  · -- an empty transaction writes nothing
    have hzero : lh.n = 0 := by omega
    have hnone : installed lh cache d = d := by
      funext b
      exact installed_other fun i hi => absurd hi (by omega)
    have hstart : Settled start d (crashAfter k (commitWrites start lh cache) d) := by
      unfold commitWrites crashAfter
      rw [if_neg hpos, List.take_nil]
      exact ⟨hd.empty, fun b _ => rfl⟩
    have hsame : ∀ b, ¬ InLog start b → d' b = d b :=
      (settled_recoveries ks hstart).recoverFromLog
    rw [hnone]
    exact ⟨Or.inl hsame, fun _ => hsame⟩

theorem crash_atomic_one_block :
    recoverFromLog 2 (crashAfter 2 (commitWrites 2 ⟨1, fun _ => 40⟩ fun _ _ => 7)
      (recoverFromLog 2 fun _ _ => 0)) 40 = fun _ => 7 := by
  have hl : Loggable 2 ⟨1, fun _ => 40⟩ :=
    ⟨by decide, fun _ _ => (by decide : 40 < 2 ^ 32), fun _ _ => (by decide : ¬ InLog 2 40),
      fun i j (hi : i < 1) (hj : j < 1) _ => by omega⟩
  have h := (crash_atomic (fun _ _ => 7) (.boot fun _ _ => 0) hl 2 []).2 (by decide) 40 (by decide)
  exact h

/-! ## Many transactions -/

/-- A transaction; `stop` says after how many writes of its commit the machine stops, if it does,
and how many writes each recovery then does that is cut short as well. -/
structure Commit where
  lh : LogHeader
  cache : Blocks
  stop : Option (Nat × List Nat)

namespace Commit

/-- The disk after it, and after the recovery. -/
def run (start : Nat) (d : Blocks) (c : Commit) : Blocks :=
  match c.stop with
  | none => written (commitWrites start c.lh c.cache) d
  | some (k, ks) =>
    recoverFromLog start (ks.foldl (recoverCrash start)
      (crashAfter k (commitWrites start c.lh c.cache) d))

/-- The header block was written. -/
def survives (c : Commit) : Bool := c.stop.all fun s => c.lh.n < s.1

/-- All of it, or nothing. -/
def apply (home : Blocks) (c : Commit) : Blocks :=
  if c.survives then installed c.lh c.cache home else home

/-- A transaction without blocks. -/
theorem apply_zero {c : Commit} (h : c.lh.n = 0) (home : Blocks) : c.apply home = home := by
  unfold apply
  split
  · funext b
    exact installed_other fun i hi => absurd hi (by omega)
  · rfl

theorem run_settled {c : Commit} (hempty : (readHead start d).n = 0) (hl : Loggable start c.lh) :
    Settled start (c.apply d) (c.run start d) := by
  have hself : Settled start d d := ⟨hempty, fun _ _ => rfl⟩
  obtain ⟨lh, cache, stop⟩ := c
  unfold run
  rcases Nat.eq_zero_or_pos lh.n with hzero | hpos
  · have hnone : commitWrites start lh cache = [] := if_neg (by omega)
    rw [apply_zero hzero]
    cases stop with
    | none =>
      rw [hnone]
      exact hself
    | some s =>
      unfold crashAfter
      simp only [hnone, List.take_nil, recoverFromLog_eq]
      exact (settled_recoveries s.2 hself).recoverCrash _
  · cases stop with
    | none =>
      have hdone := (commit_crash cache hl hpos hempty (commitWrites start lh cache).length).2 (by
        simp [commitWrites, hpos, writeLog, installTrans])
      unfold crashAfter at hdone
      rw [List.take_length] at hdone
      refine hdone.resolve_left fun hc => ?_
      -- the last write of a commit empties the header
      have hcount := hc.count
      unfold commitWrites at hcount
      rw [if_pos hpos, written_append] at hcount
      exact absurd ((Settled.erase _ lh fun b _ => rfl).empty.symm.trans hcount) (Nat.ne_of_lt hpos)
    | some s =>
      obtain ⟨k, ks⟩ := s
      obtain ⟨hearly, hlate⟩ := commit_crash cache hl hpos hempty k
      dsimp only
      rw [recoverFromLog_eq]
      unfold apply survives
      dsimp only [Option.all]
      split
      · rename_i hk
        rcases committed_recoveries hl ks (hlate (of_decide_eq_true hk)) with hc | hs
        · rw [hc.count]
          exact (hc.recoverCrash hl _).2 (Nat.lt_succ_self _)
        · exact hs.recoverCrash _
      · rename_i hk
        exact (settled_recoveries ks (hearly (by simpa using hk))).recoverCrash _

end Commit

/-- **The log is durable.** However many transactions there are, and wherever the machine stops in
them or in the recoveries from that, the blocks outside the log are those that the transactions
make, in order, whose header block was written; of the others there is no trace. -/
theorem log_durable {start : Nat} {home d : Blocks} (cs : List Commit) (hd : Settled start home d)
    (hcs : ∀ c ∈ cs, Loggable start c.lh) :
    Settled start (cs.foldl Commit.apply home) (cs.foldl (Commit.run start) d) := by
  induction cs generalizing home d with
  | nil => exact hd
  | cons c cs ih =>
    refine ih ?_ fun c' hc' => hcs c' (List.mem_cons_of_mem _ hc')
    obtain ⟨hempty, hsame⟩ := Commit.run_settled hd.empty (hcs c List.mem_cons_self)
    refine ⟨hempty, fun b hb => (hsame b hb).trans ?_⟩
    unfold Commit.apply
    split
    · unfold installed
      rw [hd.same b hb]
    · exact hd.same b hb

/-- One transaction that a crash undoes, and one that is carried out. -/
theorem log_durable_two : [Commit.mk ⟨1, fun _ => 40⟩ (fun _ _ => 7) (some (1, [1])),
    ⟨⟨1, fun _ => 41⟩, fun _ _ => 8, none⟩].foldl (Commit.run 2)
      (recoverFromLog 2 fun _ _ => 0) 41 = fun _ => 8 := by
  have hboot : Settled 2 (recoverFromLog 2 fun _ _ => 0) (recoverFromLog 2 fun _ _ => 0) :=
    ⟨(Running.boot _).empty, fun _ _ => rfl⟩
  refine ((log_durable _ hboot ?_).same 41 (by decide)).trans rfl
  refine List.forall_mem_cons.mpr ⟨?_, List.forall_mem_singleton.mpr ?_⟩
  · exact ⟨by decide, fun _ _ => (by decide : 40 < 2 ^ 32), fun _ _ => (by decide : ¬ InLog 2 40),
      fun i j (hi : i < 1) (hj : j < 1) _ => by omega⟩
  · exact ⟨by decide, fun _ _ => (by decide : 41 < 2 ^ 32), fun _ _ => (by decide : ¬ InLog 2 41),
      fun i j (hi : i < 1) (hj : j < 1) _ => by omega⟩

end Xv6Paging.Proof
