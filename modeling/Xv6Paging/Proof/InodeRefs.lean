import Xv6Paging.Lib.Machine
import Xv6Paging.Proof.FileProcs

/-!
# Inode references over whole runs

Between two programs nobody owns a reference but processes, files and the record of the
pointers that were overwritten (`Owns [] []`). Every step keeps that, whatever else is
claimed of the two records, as long as an `exec` that overwrites a pointer and a `wait`
that frees an inode keep the claim (`step_books`). From the record of the lost pointers
come the exact reference counts, from the record of the freed inodes that they are freed
inside of transactions; in each case one call can break it.
-/

namespace Xv6Paging

open Lib

/-! ## The records -/

/-- Inside or outside of a transaction, and what the records say. -/
def Books (D : List Bool → (InodePtr → Nat) → Prop) (tx : Bool) (s : Files) : Prop :=
  s.tx = tx ∧ D s.drops s.lost

section

variable {D : List Bool → (InodePtr → Nat) → Prop} {tx : Bool}

theorem books_entryStable : EntryStable (Books D tx) where
  entry _ hs _ := hs

theorem books_fileStable : FileStable (Books D tx) where
  ref _ _ _ hs := hs
  close _ _ hs := hs
  kind _ _ _ hs _ := hs
  fd _ _ _ _ hs := hs
  cwd _ _ _ hs := hs

theorem books_diskFree : DiskFree (Books D tx) := fun _ _ _ hs => hs

/-- Inside of transactions inodes may be freed. -/
theorem books_txStable (hD : ∀ ds ls, D ds ls → D (true :: ds) ls) :
    TxStable (Books D false) (Books D true) where
  ref :=
    { books_entryStable with
      free := fun {l m s ip n} _ hs _ _ => by
        refine ⟨hs.1, ?_⟩
        change D (s.tx :: s.drops) s.lost
        rw [hs.1]
        exact hD _ _ hs.2 }
  out := books_fileStable
  inside := books_fileStable
  enter _ hs := ⟨rfl, hs.2⟩
  leave _ hs := ⟨rfl, hs.2⟩

/-! ## Steps -/

/-- Only an `exec` loses references, and only `wait` frees inodes outside of transactions. -/
structure Allows (D : List Bool → (InodePtr → Nat) → Prop) (s : Files) (a : FileAct) : Prop where
  exec : ∀ p path, a = .exec p path .done → ∀ ds ls, D ds ls →
    D ds fun ip => ls ip + points (s.proc p).execIp ip
  wait : ∀ p c ip, a = .wait p c → (s.proc c).execIp = some ip → s.lastRef ip = true →
    D s.drops s.lost → D (false :: s.drops) s.lost

theorem wait_books {p c : Fin nproc} {s s' : Files} {u : Unit}
    (hs : Good [] [] (Books D false) s) (hallow : Allows D s (.wait p c))
    (hzombie : (s.proc c).state = .zombie) (hrun : freeprocFiles c s = some (u, s')) :
    Good [] [] (Books D false) s' := by
  have hover := hs.1.zombie_over hzombie
  cases hip : (s.proc c).execIp with
  | none => exact freeprocFiles_none_spec c (fun _ h => h) s ⟨hs, hover, hip⟩ u s' hrun
  | some ip =>
    -- what the last reference would leave behind
    have hput : ∀ n, Triple (Good ((ip, n) :: []) [] fun t => Books D false t ∧
        (t.lastRef ip = true → D (false :: t.drops) t.lost)) (iput ip)
        fun _ => Good [] [] (Books D false) := by
      intro n
      refine iput_cases_spec books_entryStable ip n (fun t ht hlast => ⟨ht.2.1.1, ?_⟩)
        fun t ht _ => ht.1
      change D (t.tx :: t.drops) t.lost
      rw [ht.2.1.1]
      exact ht.2.2 hlast
    refine freeprocFiles_some_spec (I := fun t => Books D false t ∧
      (t.lastRef ip = true → D (false :: t.drops) t.lost)) c ip (fun _ h => h) hput s
      ⟨⟨hs.1, hs.2, fun hlast => ?_⟩, hover, hip⟩ u s' hrun
    exact hallow.wait p c ip rfl hip hlast hs.2.2

theorem exec_books (hD : ∀ ds ls, D ds ls → D (true :: ds) ls) {p : Fin nproc} {path : FsPath}
    {how : ExecEnd} {s s' : Files} {u : Unit} (hs : Good [] [] (Books D false) s)
    (hat : (s.proc p).At .outside) (hallow : Allows D s (.exec p path how))
    (hrun : kexecFiles p path how s = some (u, s')) : Good [] [] (Books D false) s' := by
  have hexecs : Execs (Books D true) (fun e => e.At .outside ∧
      e.execIp = (s.proc p).execIp) p how :=
    { steady := ⟨fun _ _ _ h => h, fun _ _ h => h⟩
      outside := fun _ h => h.1
      stuck := fun _ _ h _ => h
      done := fun hhow t ip ht hc => by
        subst hhow
        refine ⟨ht.1, ?_⟩
        change D t.drops fun jp => t.lost jp + points (t.proc p).execIp jp
        rw [hc.2]
        exact hallow.exec p path rfl _ _ ht.2 }
  exact kexecFiles_spec (books_txStable hD) hexecs path s ⟨hs.1, hs.2, hat, rfl⟩ u s' hrun

theorem books_unowned : Unowned (Books D false) where
  entry := books_entryStable
  out _ _ hs := hs
  pids _ _ hs := hs

theorem step_books (hD : ∀ ds ls, D ds ls → D (true :: ds) ls) {s s' : Files} {a : FileAct}
    (hs : Good [] [] (Books D false) s) (hallow : Allows D s a) (hstep : s.step a = some s') :
    Good [] [] (Books D false) s' := by
  have hT := books_txStable hD
  refine step_rule (J := Books D true) ?_ hs hstep
  exact
    { tx := hT
      creates := books_diskFree.creates hT.ref
      fork := fun _ np _ _ _ => books_unowned.forks hT np
      exec := fun p path how hact hat u t hrun => exec_books hD hs hat (hact ▸ hallow) hrun
      swapfile := fun _ _ _ _ _ ht => ht
      outside := fun _ _ _ _ ht => ht
      exit := fun _ _ => hs.2
      exits := fun p _ => books_unowned.exits p fun _ _ => swapfileUnlink_spec hT books_diskFree p
      wait := fun p c hact hzombie u t hrun => wait_books hs (hact ▸ hallow) hzombie hrun
      link := fun p old new room _ => sysLink_spec hT books_diskFree p old new room s hs
      unlink := fun p path _ => sysUnlink_spec hT books_diskFree p path }

end

/-! ## Runs -/

theorem boot_owns {s : Files} (h : s.Boot) : Owns [] [] s := by
  have hbare : ∀ p, p ≠ initproc → (s.proc p).Bare := by
    intro p hp
    rw [h.procs p hp]
    exact ⟨fun _ => rfl, rfl, rfl, rfl, rfl⟩
  have hfile : ∀ ip f, fileInodes ip (s.ftable f) = 0 := by
    intro ip f
    rw [h.files f]
    rfl
  have hroot : ∀ ip, total (procInodes ip) s.proc = points (some 0) ip := by
    intro ip
    rw [total_single initproc fun p hp => ?_, h.init]
    · exact Nat.add_zero _
    · obtain ⟨_, hcwd, hexec, _, hheld⟩ := hbare p hp
      rw [procInodes, hcwd, hexec, hheld]
      rfl
  have hnone : ∀ f, total (procFiles f) s.proc = 0 := by
    intro f
    refine total_eq_zero fun p => ?_
    have hclear : (∀ fd, (s.proc p).ofile fd = none) ∧ (s.proc p).swapfile = none := by
      by_cases hp : p = initproc
      · rw [hp, h.init]
        exact ⟨fun _ => rfl, rfl⟩
      · exact ⟨(hbare p hp).ofile, (hbare p hp).swapfile⟩
    rw [procFiles, hclear.2, total_eq_zero fun fd => by rw [hclear.1 fd]; rfl]
    rfl
  refine ⟨fun ip => ?_, (by simp), fun f => ?_, fun f _ => by rw [h.files f], fun p hp => ?_,
    fun p hp => ?_, fun p hp => ?_, fun ip jp hi hj _ => ?_⟩
  · rw [hroot ip, total_eq_zero (hfile ip), h.lost ip]
    by_cases hip : ip = 0
    · rw [hip, h.root, points_self]
      rfl
    · rw [h.inodes ip hip, points_ne (by simpa using Ne.symm hip)]
      rfl
  · rw [hnone f, h.files f]
    rfl
  · refine hbare p fun hinit => ?_
    rw [hinit, h.init] at hp
    cases hp
  · by_cases hinit : p = initproc
    · rw [hinit, h.init] at hp
      cases hp
    · exact ⟨(hbare p hinit).ofile, (hbare p hinit).cwd, (hbare p hinit).swapfile⟩
  · by_cases hinit : p = initproc
    · rw [hinit, h.init] at hp
      exact absurd rfl hp
    · exact absurd (hbare p hinit).held hp
  · have hzero : ∀ kp, 0 < (s.itable kp).ref → kp = 0 := by
      intro kp hpos
      by_contra hk
      rw [h.inodes kp hk] at hpos
      cases hpos
    rw [hzero ip hi, hzero jp hj]

/-- The records of a run. -/
theorem run_books {D : List Bool → (InodePtr → Nat) → Prop}
    (hD : ∀ ds ls, D ds ls → D (true :: ds) ls) (h0 : D [] fun _ => 0) {C : Files → FileAct → Prop}
    (hC : ∀ s a, C s a → Allows D s a) {s : Files} (h : Reach Files.step Files.Boot C s) :
    Good [] [] (Books D false) s := by
  refine Reach.keeps (P := Good [] [] (Books D false)) (fun s hs => ⟨boot_owns hs, hs.tx, ?_⟩)
    (fun s a s' hgood hc hstep => step_books hD hgood (hC s a hc) hstep) h
  rw [hs.drops, funext hs.lost]
  exact h0

/-! ## Reference counts -/

/-- The pointers to an entry of the inode table: `cwd` and `exec_ip` of the processes there are,
and `ip` of the open files. -/
def livePointers (s : Files) (ip : InodePtr) : Nat :=
  total (fun e => if e.state = .unused then 0 else points e.cwd ip + points e.execIp ip) s.proc +
    total (fun f => if f.ref = 0 then 0 else points f.kind.ip ip) s.ftable

/-- No call is in progress. -/
def Files.Quiet (s : Files) : Prop :=
  ∀ p, (s.proc p).state = .runnable → (s.proc p).stage = .outside

/-- Who succeeds in `exec` has no executable yet. -/
def FirstExec (s : Files) : FileAct → Prop
  | .exec p _ .done => (s.proc p).execIp = none
  | _ => True

theorem Owns.ref_eq {s : Files} (h : Owns [] [] s) (hquiet : s.Quiet) (ip : InodePtr) :
    (s.itable ip).ref = livePointers s ip + s.lost ip := by
  have hproc : total (procInodes ip) s.proc = total (fun e => if e.state = .unused then 0 else
      points e.cwd ip + points e.execIp ip) s.proc := by
    refine total_congr fun p => ?_
    split
    · rename_i hunused
      obtain ⟨_, hcwd, hexec, _, hheld⟩ := h.unused p hunused
      rw [procInodes, hcwd, hexec, hheld]
      rfl
    · have hheld : (s.proc p).held = none := by
        by_contra hne
        obtain ⟨hrun, hstage⟩ := h.stuck p hne
        cases (hquiet p hrun).symm.trans hstage
      rw [procInodes, hheld, points_none, Nat.add_zero]
  have hfile : total (fileInodes ip) s.ftable = total (fun f => if f.ref = 0 then 0 else
      points f.kind.ip ip) s.ftable := by
    refine total_congr fun f => ?_
    split
    · rename_i hzero
      rw [fileInodes, h.closed f hzero]
      rfl
    · rfl
  have hc := h.inodes ip
  rw [hproc, hfile] at hc
  rw [livePointers]
  simpa using hc

/-- **Reference counts are exact** as long as nobody who has an executable succeeds in `exec`. -/
theorem inode_refs_exact {s : Files} (h : Reach Files.step Files.Boot FirstExec s)
    (hquiet : s.Quiet) (ip : InodePtr) : (s.itable ip).ref = livePointers s ip := by
  have hgood := run_books (D := fun _ ls => ∀ ip, ls ip = 0) (fun _ _ h => h) (fun _ => rfl)
    (fun s a ha => ?_) h
  · rw [hgood.1.ref_eq hquiet, hgood.2.2 ip, Nat.add_zero]
  · refine ⟨fun p path hact ds ls hls ip => ?_, fun _ _ _ _ _ _ h => h⟩
    subst hact
    dsimp only
    rw [hls ip, show (s.proc p).execIp = none from ha, points_none]

/-- A disk with the directory `/` and the files `/a` and `/b`. -/
def twoFiles : Files where
  ninodes := 8
  dinode n :=
    if n = 1 then
      { type := .dir, nlink := 1, entries := [(dot, 1), (dotDot, 1), ([97], 2), ([98], 3)] }
    else if n = 2 ∨ n = 3 then { type := .file, nlink := 1, entries := [] }
    else { type := .free, nlink := 0, entries := [] }
  itable ip :=
    if ip = 0 then { inum := rootIno, ref := 1, valid := false }
    else { inum := 0, ref := 0, valid := false }
  ftable _ := { ref := 0, kind := .none }
  proc p :=
    if p = initproc then
      { state := .runnable, pid := 1, ofile := fun _ => none, cwd := some 0, execIp := none
        swapfile := none, stage := .outside, held := none }
    else
      { state := .unused, pid := 0, ofile := fun _ => none, cwd := none, execIp := none
        swapfile := none, stage := .outside, held := none }
  nextpid := 2
  tx := false
  drops := []
  lost _ := 0

theorem twoFiles_boot : twoFiles.Boot where
  root := rfl
  inodes _ hip := congrArg InodeEntry.ref (if_neg hip)
  files _ := rfl
  init := rfl
  procs _ hp := if_neg hp
  pids := rfl
  tx := rfl
  drops := rfl
  lost _ := rfl

instance (s : Files) : Decidable s.Quiet :=
  inferInstanceAs (Decidable (∀ p, (s.proc p).state = .runnable → (s.proc p).stage = .outside))

instance (s : Files) (a : FileAct) : Decidable (FirstExec s a) :=
  match a with
  | .exec p _ .done => inferInstanceAs (Decidable ((s.proc p).execIp = none))
  | .exec _ _ .stuck | .exec _ _ .failed | .fork .. | .swapfileCreate .. | .exit _ | .exitNext _
  | .wait .. | .openFile .. | .close .. | .dup .. | .chdir .. | .link .. | .unlink .. | .make ..
  | .pipe .. => isTrue trivial

/-- The first process runs `/a`, opens it too, and has a child. -/
theorem inode_refs_exact_two_processes : ∃ s, Reach Files.step Files.Boot FirstExec s ∧ s.Quiet ∧
    (s.itable 1).ref = 3 ∧ (s.itable 1).ref = livePointers s 1 := by
  have hrun : (replay Files.step (fun s a => decide (FirstExec s a)) twoFiles
      [.exec 0 ⟨true, [[97]]⟩ .done, .swapfileCreate 0 true,
        .openFile 0 ⟨false, [[97]]⟩ false true true true, .fork 0 1 true]).map
      (fun s => (decide s.Quiet, (s.itable 1).ref)) = some (true, 3) := by
    decide +kernel
  obtain ⟨s, hs, hfacts⟩ := Option.map_eq_some_iff.mp hrun
  simp only [Prod.mk.injEq, decide_eq_true_eq] at hfacts
  have hreach : Reach Files.step Files.Boot FirstExec s :=
    replay_reach (fun _ _ h => of_decide_eq_true h) (.init twoFiles_boot) hs
  exact ⟨s, hreach, hfacts.1, hfacts.2, inode_refs_exact hreach hfacts.1 1⟩

/-- The first process runs `/a` twice. -/
theorem inode_refs_can_be_lost : ¬ ∀ s, Reach Files.step Files.Boot (fun _ _ => True) s → s.Quiet →
    ∀ ip, (s.itable ip).ref = livePointers s ip := by
  intro hall
  have hrun : (replay Files.step (fun _ _ => true) twoFiles
      [.exec 0 ⟨true, [[97]]⟩ .done, .swapfileCreate 0 true,
        .exec 0 ⟨true, [[97]]⟩ .done, .swapfileCreate 0 true]).map
      (fun s => (decide s.Quiet, (s.itable 1).ref, livePointers s 1)) = some (true, 2, 1) := by
    decide +kernel
  obtain ⟨s, hs, hfacts⟩ := Option.map_eq_some_iff.mp hrun
  simp only [Prod.mk.injEq, decide_eq_true_eq] at hfacts
  have hreach : Reach Files.step Files.Boot (fun _ _ => True) s :=
    replay_reach (fun _ _ _ => trivial) (.init twoFiles_boot) hs
  have heq := hall s hreach hfacts.1 1
  rw [hfacts.2.1, hfacts.2.2] at heq
  cases heq

/-! ## Transactions -/

/-- No process is waited for that has the last reference to an executable that was unlinked. -/
def KeepsExecutable (s : Files) : FileAct → Prop
  | .wait _ c => ∀ ip, (s.proc c).execIp = some ip → s.lastRef ip = false
  | _ => True

/-- **Inodes are freed inside of transactions** as long as `wait` frees none. -/
theorem inodes_freed_in_transactions {s : Files}
    (h : Reach Files.step Files.Boot KeepsExecutable s) : ∀ b ∈ s.drops, b = true := by
  have hgood := run_books (D := fun ds _ => ∀ b ∈ ds, b = true)
    (fun ds _ h b hb => (List.mem_cons.mp hb).elim id (h b)) (by simp) (fun s a ha => ?_) h
  · exact hgood.2.2
  · refine ⟨fun _ _ _ _ _ h => h, fun p c ip hact hip hlast => ?_⟩
    subst hact
    rw [show s.lastRef ip = false from ha ip hip] at hlast
    cases hlast

instance (s : Files) (a : FileAct) : Decidable (KeepsExecutable s a) :=
  match a with
  | .wait _ c =>
    inferInstanceAs (Decidable (∀ ip, (s.proc c).execIp = some ip → s.lastRef ip = false))
  | .exec .. | .fork .. | .swapfileCreate .. | .exit _ | .exitNext _ | .openFile .. | .close ..
  | .dup .. | .chdir .. | .link .. | .unlink .. | .make .. | .pipe .. => isTrue trivial

/-- A child unlinks `/b` while it has it open, exits and is waited for: `/b` and the swap file of
the child are freed. -/
theorem inodes_freed_in_transactions_two_files : ∃ s,
    Reach Files.step Files.Boot KeepsExecutable s ∧ s.drops = [true, true] ∧
      ∀ b ∈ s.drops, b = true := by
  have hrun : (replay Files.step (fun s a => decide (KeepsExecutable s a)) twoFiles
      [.exec 0 ⟨true, [[97]]⟩ .done, .swapfileCreate 0 true, .fork 0 1 true,
        .swapfileCreate 1 true, .openFile 1 ⟨true, [[98]]⟩ false true true true,
        .unlink 1 ⟨true, [[98]]⟩, .exit 1, .exitNext 1, .exitNext 1, .exitNext 1, .exitNext 1,
        .exitNext 1, .wait 0 1]).map (fun s => s.drops) = some [true, true] := by
    decide +kernel
  obtain ⟨s, hs, hdrops⟩ := Option.map_eq_some_iff.mp hrun
  have hreach : Reach Files.step Files.Boot KeepsExecutable s :=
    replay_reach (fun _ _ h => of_decide_eq_true h) (.init twoFiles_boot) hs
  exact ⟨s, hreach, hdrops, inodes_freed_in_transactions hreach⟩

/-- A child runs `/b`, which is unlinked; the child exits and is waited for. -/
theorem inodes_can_be_freed_by_wait : ¬ ∀ s, Reach Files.step Files.Boot (fun _ _ => True) s →
    ∀ b ∈ s.drops, b = true := by
  intro hall
  have hrun : (replay Files.step (fun _ _ => true) twoFiles
      [.exec 0 ⟨true, [[97]]⟩ .done, .swapfileCreate 0 true, .fork 0 1 true,
        .exec 1 ⟨true, [[98]]⟩ .done, .swapfileCreate 1 true, .unlink 0 ⟨true, [[98]]⟩, .exit 1,
        .exitNext 1, .exitNext 1, .exitNext 1, .exitNext 1, .wait 0 1]).map (fun s => s.drops) =
      some [false, true] := by
    decide +kernel
  obtain ⟨s, hs, hdrops⟩ := Option.map_eq_some_iff.mp hrun
  have hreach : Reach Files.step Files.Boot (fun _ _ => True) s :=
    replay_reach (fun _ _ _ => trivial) (.init twoFiles_boot) hs
  have hfalse := hall s hreach false (by rw [hdrops]; exact List.mem_cons_self)
  cases hfalse

end Xv6Paging
