import Xv6Paging.Proof.SwapPrograms

/-!
# Swap files are private

Process creation and exit keep swap files private as long as no new pid agrees in its
last five digits with that of a process that is there. Pids grow without bound, so that
the digits come round: a run without that condition ends with two processes that swap to
the same file.
-/

namespace Xv6Paging

open Lib

/-! ## Steps -/

/-- Process creation and exit. -/
def FileAct.Lifecycle : FileAct → Prop
  | .fork .. | .exec .. | .swapfileCreate .. | .exit _ | .exitNext _ | .wait .. => True
  | _ => False

/-- The pid of a new process differs in its last five digits from those in use. -/
def FreshPid (s : Files) : FileAct → Prop
  | .fork .. => ∀ q, Present q s → s.nextpid % 100000 ≠ (s.proc q).pid % 100000
  | _ => True

theorem private_forks (np : Fin nproc) :
    Forks (fun s => Private s ∧ ∀ q, Present q s → s.nextpid % 100000 ≠ (s.proc q).pid % 100000)
      Private np where
  file := private_fileStable
  entry := private_entryStable
  new s hs := by
    have hpriv : Private { s with nextpid := s.nextpid + 1 } :=
      hs.1.congr rfl rfl (fun _ _ _ => rfl) fun _ _ _ _ _ => rfl
    exact hpriv.setProc (fun _ q _ hq => hs.2 q hq) fun f hf => by cases hf
  start s x hs hused := by
    refine hs.keepProc rfl rfl (fun _ => Iff.rfl) fun _ => ?_
    rw [Present, hused]
    exact ⟨by simp, by simp⟩
  freed s hs hnone := by
    refine hs.setProc (fun h => absurd rfl h.1) fun f hf => ?_
    rw [show (s.proc np).freed.swapfile = none from hnone] at hf
    cases hf

theorem private_execs (p : Fin nproc) (how : ExecEnd) : Execs Private (·.At .outside) p how where
  steady := at_steady .outside
  outside _ h := h
  stuck s ip hs hat := by
    refine hs.keepProc rfl rfl (fun _ => ?_) fun _ => hat.present
    rw [hat.2]
    exact ⟨by simp, by simp⟩
  done _ s ip hs hat := by
    have hset : Private (s.setProc p { s.proc p with execIp := some ip, stage := .execed }) := by
      refine hs.keepProc rfl rfl (fun _ => ?_) fun _ => hat.present
      rw [hat.2]
      exact ⟨by simp, by simp⟩
    exact hset.congr rfl rfl (fun _ _ _ => rfl) fun _ _ _ _ _ => rfl

theorem private_exits (p : Fin nproc) : Exits Private p where
  unlink _ _ := swapfileUnlink_private p
  close s hs _ := by
    exact hs.setProc (fun hp q hq hpq => hs.pids p q hq.symm hp hpq) fun f hf => by cases hf
  zombie s hs hnone := by
    refine hs.setProc (fun h => absurd rfl h.2) fun f hf => ?_
    rw [show (s.proc p).swapfile = some f from hf] at hnone
    cases hnone

theorem wait_private {c : Fin nproc} {s s' : Files} {u : Unit} (hs : Good [] [] Private s)
    (hzombie : (s.proc c).state = .zombie) (hrun : freeprocFiles c s = some (u, s')) :
    Good [] [] Private s' := by
  refine wait_good private_refStable hs hzombie (fun t ht hnone => ?_) hrun
  refine ht.setProc (fun h => absurd rfl h.1) fun f hf => ?_
  rw [show (t.proc c).freed.swapfile = none from hnone] at hf
  cases hf

theorem step_private {s s' : Files} {a : FileAct} (hs : Good [] [] Private s) (ha : a.Lifecycle)
    (hfresh : FreshPid s a) (hstep : s.step a = some s') : Good [] [] Private s' := by
  unfold Files.step at hstep
  split at hstep
  swap
  · cases hstep
  rename_i hcan
  obtain ⟨hrun, hfits, happlies⟩ := hcan
  obtain ⟨⟨u, t⟩, hprog, rfl⟩ := Option.map_eq_some_iff.mp hstep
  cases a with
  | fork p np memory =>
    have hnp : (s.proc np).state = .unused := by simpa [FileAct.applies] using happlies
    have hne : p ≠ np := by
      rintro rfl
      rw [show (s.proc p).state = .runnable from hrun] at hnp
      cases hnp
    exact kforkFiles_spec (private_forks np) hne memory s ⟨⟨hs.1, hs.2, hfresh⟩, hnp⟩ u t hprog
  | exec p path how =>
    exact kexecFiles_spec private_txStable (private_execs p how) path s
      ⟨hs.1, hs.2, hrun, beq_iff_eq.mp hfits⟩ u t hprog
  | swapfileCreate p room =>
    have hstage : (s.proc p).stage = .outside ∨ (s.proc p).stage = .execed :=
      ((Bool.or_eq_true _ _).mp hfits).imp beq_iff_eq.mp beq_iff_eq.mp
    have hne : (s.proc p).stage ≠ .unlinked ∧ (s.proc p).stage ≠ .stuck := by
      rcases hstage with h | h <;> rw [h] <;> exact ⟨by simp, by simp⟩
    have hopen := swapfileOpen_private (l := []) (m := []) (p := p) hne.1 room
    have hcall : Triple (Good [] [] fun t => Private t ∧ (t.proc p).At (s.proc p).stage)
        (FileAct.swapfileCreate p room).run fun _ => Good [] [] Private :=
      hopen.bind fun _ => Triple.modify fun t ht => ?_
    · exact hcall s ⟨hs.1, hs.2, hrun, rfl⟩ u t hprog
    refine ⟨ht.1.setStage ht.2.2 hne.2 _, ht.2.1.keepProc rfl rfl (fun _ => ?_) fun _ =>
      ht.2.2.present⟩
    rw [ht.2.2.2]
    exact ⟨(by simp), fun h => absurd h hne.1⟩
  | exit p =>
    cases hprog
    have hat : (s.proc p).At .outside := ⟨hrun, beq_iff_eq.mp hfits⟩
    refine ⟨hs.1.setStage hat (by simp) _, hs.2.keepProc rfl rfl (fun _ => ?_) fun _ => hat.present⟩
    rw [hat.2]
    exact ⟨by simp, by simp⟩
  | exitNext p =>
    refine exitNext_spec private_txStable (private_exits p) s ⟨hs.1, hs.2, ?_⟩ u t hprog
    have hstage := (Bool.or_eq_true _ _).mp hfits
    exact hstage.imp (fun h => ⟨hrun, beq_iff_eq.mp h⟩) fun h => ⟨hrun, beq_iff_eq.mp h⟩
  | wait p c => exact wait_private hs (by simpa [FileAct.applies] using happlies) hprog
  | openFile | close | dup | chdir | link | unlink | make | pipe => exact ha.elim

/-! ## Runs -/

/-- After `userinit`, on a disk with a good root directory. -/
def SwapBoot (s : Files) : Prop := s.Boot ∧ RootOk s

theorem swapBoot_private {s : Files} (h : SwapBoot s) : Private s := by
  have hnone : ∀ p, (s.proc p).swapfile = none := by
    intro p
    by_cases hp : p = initproc
    · rw [hp, h.1.init]
    · rw [h.1.procs p hp]
  refine ⟨h.2, fun p q hpq hp hq => ?_, fun p f hf => ?_⟩
  · have hinit : ∀ r, Present r s → r = initproc := by
      intro r hr
      by_contra hne
      rw [Present, h.1.procs r hne] at hr
      exact hr.1 rfl
    exact absurd ((hinit p hp).trans (hinit q hq).symm) hpq
  · rw [hnone p] at hf
    cases hf

/-- Swap files of different processes are different inodes, and each has its name in the root
directory until its own process unlinks it. -/
structure SwapsPrivate (s : Files) : Prop where
  distinct : ∀ p q n, p ≠ q → Present p s → Present q s → s.swapInum p = some n →
    s.swapInum q ≠ some n
  kept : ∀ p n, Present p s → s.swapInum p = some n → (s.proc p).stage ≠ .unlinked →
    HasName (swapName (s.proc p).pid) n s.root ∧ 1 ≤ (s.dinode n).nlink

/-- **Swap files are private** as long as the pids in use differ in their last five digits. -/
theorem swap_files_private {s : Files}
    (h : Reach Files.step SwapBoot (fun s a => a.Lifecycle ∧ FreshPid s a) s) : SwapsPrivate s := by
  have hgood : Good [] [] Private s :=
    Reach.keeps (P := Good [] [] Private) (fun s hs => ⟨boot_owns hs.1, swapBoot_private hs⟩)
      (fun s a s' hs hC hstep => step_private hs hC.1 hC.2 hstep) h
  refine ⟨fun p q n hpq _ _ hn => (hgood.2.swapOk hn).apart q hpq.symm, fun p n _ hn hst => ?_⟩
  obtain ⟨e, hfind, rfl⟩ := (hgood.2.swapOk hn).named hst
  exact ⟨⟨e, hfind, rfl⟩, hgood.2.linked e (List.mem_of_find?_eq_some hfind)⟩

theorem swapName_length (k : Nat) : (swapName k).length = 10 := rfl

theorem twoFiles_swapBoot : SwapBoot twoFiles := by
  have hlong : ∀ e ∈ twoFiles.root, ∀ k, e.1 ≠ swapName k := by
    intro e he k hk
    have hlen : e.1.length = 10 := by rw [hk, swapName_length]
    have hshort : ∀ e ∈ twoFiles.root, e.1.length ≠ 10 := by decide
    exact hshort e he hlen
  exact ⟨twoFiles_boot, rfl, by decide, by decide, by decide,
    fun e he k hk => absurd hk (hlong e he k), fun e he k hk => absurd hk (hlong e he k)⟩

instance (a : FileAct) : Decidable a.Lifecycle :=
  match a with
  | .fork .. | .exec .. | .swapfileCreate .. | .exit _ | .exitNext _ | .wait .. => isTrue trivial
  | .openFile .. | .close .. | .dup .. | .chdir .. | .link .. | .unlink .. | .make .. | .pipe .. =>
    isFalse id

instance (p : Fin nproc) (s : Files) : Decidable (Present p s) :=
  inferInstanceAs (Decidable ((s.proc p).state ≠ .unused ∧ (s.proc p).state ≠ .zombie))

instance (s : Files) (a : FileAct) : Decidable (FreshPid s a) :=
  match a with
  | .fork .. =>
    inferInstanceAs (Decidable (∀ q, Present q s → s.nextpid % 100000 ≠ (s.proc q).pid % 100000))
  | .exec .. | .swapfileCreate .. | .exit _ | .exitNext _ | .wait .. | .openFile .. | .close ..
  | .dup .. | .chdir .. | .link .. | .unlink .. | .make .. | .pipe .. => isTrue trivial

/-- Two processes with swap files. -/
theorem swap_files_private_two_processes : ∃ s,
    Reach Files.step SwapBoot (fun s a => a.Lifecycle ∧ FreshPid s a) s ∧
      s.swapInum 0 = some 4 ∧ s.swapInum 1 = some 5 ∧ SwapsPrivate s := by
  have hrun : (replay Files.step (fun s a => decide (a.Lifecycle ∧ FreshPid s a)) twoFiles
      [.swapfileCreate 0 true, .fork 0 1 true, .swapfileCreate 1 true]).map
      (fun s => (s.swapInum 0, s.swapInum 1)) = some (some 4, some 5) := by
    decide +kernel
  obtain ⟨s, hs, hfacts⟩ := Option.map_eq_some_iff.mp hrun
  simp only [Prod.mk.injEq] at hfacts
  have hreach : Reach Files.step SwapBoot (fun s a => a.Lifecycle ∧ FreshPid s a) s :=
    replay_reach (fun _ _ h => of_decide_eq_true h) (.init twoFiles_swapBoot) hs
  exact ⟨s, hreach, hfacts.1, hfacts.2, swap_files_private hreach⟩

/-- An entry of the process table that is free. -/
def FileProc.blank : FileProc where
  state := .unused
  pid := 0
  ofile _ := none
  cwd := none
  execIp := none
  swapfile := none
  stage := .outside
  held := none

/-- A fork that fails for want of memory takes a pid. -/
theorem failed_fork_step {s : Files} {p np : Fin nproc} (hp : (s.proc p).At .outside)
    (hnp : s.proc np = .blank) :
    s.step (.fork p np false) = some { s with nextpid := s.nextpid + 1 } := by
  have hcan : (s.proc (FileAct.fork p np false).actor).state = .runnable ∧
      (FileAct.fork p np false).fits (s.proc (FileAct.fork p np false).actor).stage ∧
      (FileAct.fork p np false).applies s := by
    refine ⟨hp.1, ?_, ?_⟩
    · exact beq_iff_eq.mpr hp.2
    · exact beq_iff_eq.mpr (congrArg FileProc.state hnp)
  obtain ⟨t, ht⟩ : ∃ t, t = ({ s with nextpid := s.nextpid + 1 } : Files).setProc np
      { s.proc np with state := .used, pid := s.nextpid, swapfile := none, stage := .outside } :=
      ⟨_, rfl⟩
  have hexec : (t.proc np).execIp = none := by
    rw [ht, setProc_proc]
    exact congrArg FileProc.execIp hnp
  have hback : t.setProc np { t.proc np with pid := 0, state := .unused, stage := .outside } =
      { s with nextpid := s.nextpid + 1 } := by
    rw [ht, setProc_proc, setProc_setProc, hnp]
    change { s with nextpid := s.nextpid + 1, proc := Function.update s.proc np FileProc.blank } = _
    rw [← hnp, Function.update_eq_self]
  have hfree : freeprocFiles np t = some ((), { s with nextpid := s.nextpid + 1 }) := by
    refine bind_run.mpr ⟨t, t, rfl, ?_⟩
    rw [hexec, ← hback]
    rfl
  have hrun : kforkFiles p np false s = some ((), { s with nextpid := s.nextpid + 1 }) :=
    bind_run.mpr ⟨s, s, rfl,
      bind_run.mpr ⟨(), _, rfl, bind_run.mpr ⟨(), t, by rw [ht]; rfl, hfree⟩⟩⟩
  rw [Files.step, if_pos hcan]
  change (kforkFiles p np false s).map Prod.snd = _
  rw [hrun]
  rfl

/-- Pids grow without bound. -/
theorem reach_pid {s : Files} {p np : Fin nproc} (hp : (s.proc p).At .outside)
    (hnp : s.proc np = .blank) (h : Reach Files.step SwapBoot (fun _ a => a.Lifecycle) s)
    (k : Nat) :
    Reach Files.step SwapBoot (fun _ a => a.Lifecycle) { s with nextpid := s.nextpid + k } := by
  induction k with
  | zero => exact h
  | succ k ih =>
    exact .step (i := .fork p np false) ih trivial (failed_fork_step hp hnp)

/-- The first process has a swap file when the pids come to 100001; the next one opens the same. -/
theorem swap_files_can_be_shared : ¬ ∀ s,
    Reach Files.step SwapBoot (fun _ a => a.Lifecycle) s → SwapsPrivate s := by
  intro hall
  have hfirst : (twoFiles.step (.swapfileCreate 0 true)).map (fun s =>
      ((s.proc 0).state, (s.proc 0).stage, s.proc 1, s.nextpid)) =
      some (.runnable, .outside, .blank, 2) := by
    decide +kernel
  have hsecond : (twoFiles.step (.swapfileCreate 0 true)).bind (fun s =>
      (replay Files.step (fun _ a => decide a.Lifecycle) { s with nextpid := 100001 }
        [.fork 0 1 true, .swapfileCreate 1 true]).map fun s =>
          (decide (Present 0 s), decide (Present 1 s), s.swapInum 0, s.swapInum 1)) =
      some (true, true, some 4, some 4) := by
    decide +kernel
  obtain ⟨s, hs, hfacts⟩ := Option.map_eq_some_iff.mp hfirst
  simp only [Prod.mk.injEq] at hfacts
  obtain ⟨hrun, hout, hblank, hpid⟩ := hfacts
  rw [hs, Option.bind_some] at hsecond
  obtain ⟨t, ht, hfacts⟩ := Option.map_eq_some_iff.mp hsecond
  simp only [Prod.mk.injEq, decide_eq_true_eq] at hfacts
  have hinit : Reach Files.step SwapBoot (fun _ a => a.Lifecycle) s :=
    .step (i := .swapfileCreate 0 true) (.init twoFiles_swapBoot) trivial hs
  have hmany := reach_pid (p := 0) ⟨hrun, hout⟩ hblank hinit 99999
  rw [hpid] at hmany
  have hreach : Reach Files.step SwapBoot (fun _ a => a.Lifecycle) t :=
    replay_reach (fun _ _ h => of_decide_eq_true h) hmany ht
  exact (hall t hreach).distinct 0 1 4 (by decide) hfacts.1 hfacts.2.1 hfacts.2.2.1 hfacts.2.2.2

end Xv6Paging
