import Xv6Paging.Proof.SwapCreate

/-!
# Swap files and their processes

A process that has its swap file removes it from the root directory in `kexit`. One for which
`swapfile_create` has made the file and then found no entry of the file table has no swap file, and
its file stays. If there always is an entry, or a file that was there before, then what a process
adds to the root directory is gone before it is a zombie.
-/

namespace Xv6Paging

open Lib

variable {p np : Fin nproc} {s : Files} {f : FilePtr} {n : Nat}

/-! ## Between `swapfile_create` and `kexit` -/

/-- A process that has a swap file, and has not unlinked it. -/
def Keeping (pid : Nat) (e : FileProc) : Prop :=
  e.state = .runnable ∧ e.swapfile ≠ none ∧ e.stage ≠ .unlinked ∧ e.pid = pid

theorem keeping_steady (pid : Nat) : Steady (Keeping pid) := ⟨fun _ _ _ h => h, fun _ _ h => h⟩

section

variable {s s' : Files} {a : FileAct} {p : Fin nproc} {pid : Nat}

theorem keeping_forks (hne : p ≠ np) :
    Forks (fun t => Keeping pid (t.proc p)) (fun t => Keeping pid (t.proc p)) np where
  file := (keeping_steady pid).fileStable p
  entry := (Steady.refStable p).toEntryStable
  new s hs := by
    rw [setProc_proc_ne hne]
    exact hs
  start s x hs _ := by
    rw [setProc_proc_ne hne]
    exact hs
  freed s hs _ := by
    rw [setProc_proc_ne hne]
    exact hs

theorem keeping_execs (q : Fin nproc) (how : ExecEnd) :
    Execs (fun t => Keeping pid (t.proc p)) (·.At .outside) q how where
  steady := at_steady .outside
  outside _ h := h
  stuck t ip ht _ := Steady.setProc ht fun h => ⟨h.1, h.2.1, by simp, h.2.2.2⟩
  done _ t ip ht _ := Steady.setProc (s := t) ht fun h => ⟨h.1, h.2.1, by simp, h.2.2.2⟩

/-- The calls of the other processes, and its own ones up to `kexit`. -/
theorem step_keeping (howns : Owns [] [] s) (hs : Keeping pid (s.proc p)) (hne : a ≠ .exitNext p)
    (hstep : s.step a = some s') : Keeping pid (s'.proc p) := by
  have hT := (keeping_steady pid).txStable p
  have hD : DiskFree fun t => Keeping pid (t.proc p) := fun _ _ _ ht => ht
  have hgood : Good [] [] (fun t => Keeping pid (t.proc p)) s := ⟨howns, hs⟩
  have hexits : ∀ q, a = .exitNext q → Exits (fun t => Keeping pid (t.proc p)) q := by
    intro q hact
    have hqp : p ≠ q := fun hp => hne (hp ▸ hact)
    have hset : ∀ (t : Files) e, Keeping pid (t.proc p) → Keeping pid ((t.setProc q e).proc p) := by
      intro t e ht
      rw [setProc_proc_ne hqp]
      exact ht
    exact ⟨fun l m => unlinkSwap_spec q (swapfileUnlink_spec hT hD q) fun t => hset t _,
      fun t ht _ => hset t _ ht, fun t ht _ => hset t _ ht⟩
  refine (step_rule (J := fun t => Keeping pid (t.proc p)) ?_ hgood hstep).2
  exact
    { tx := hT
      creates := hD.creates hT.ref
      fork := fun q np memory _ hnp => keeping_forks fun hp => by
        rw [← hp, hs.1] at hnp
        cases hnp
      exec := fun q path how _ hat u t hrun =>
        kexecFiles_spec hT (keeping_execs q how) path s ⟨howns, hs, hat⟩ u t hrun
      swapfile := fun q room _ t f ht => Steady.setProc ht fun h => ⟨h.1, by simp, h.2.2⟩
      outside := fun q room _ t ht => Steady.setProc ht fun h => ⟨h.1, h.2.1, by simp, h.2.2.2⟩
      exit := fun q _ => Steady.setProc hs fun h => ⟨h.1, h.2.1, by simp, h.2.2.2⟩
      exits := hexits
      wait := fun q c _ hzombie u t hrun => wait_good hT.ref hgood hzombie (fun t ht _ => by
        rw [setProc_proc_ne]
        · exact ht
        · rintro rfl
          rw [hs.1] at hzombie
          cases hzombie) hrun
      link := fun q old new room _ => sysLink_spec hT hD q old new room s hgood
      unlink := fun q path _ => sysUnlink_spec hT hD q path }

/-! ### Its own exit -/

theorem noName_refStable (name : Name) : RefStable fun t => NoName name t.root where
  entry _ ht _ := ht
  free {l m t ip n} howns ht hone hzero := by
    change List.find? _ (Function.update t.dinode (t.itable ip).inum _ rootIno).entries = none
    by_cases hroot : rootIno = (t.itable ip).inum
    · rw [hroot, Function.update_self]
      rfl
    · rw [Function.update_of_ne hroot]
      exact ht

/-- With an entry of a name that is there once the name is gone. -/
theorem eraseP_noName {name : Name} {r : List (Name × Nat)} (h : (r.map Prod.fst).Nodup) :
    NoName name (r.eraseP fun e => e.1 == name) := by
  cases hfind : r.find? (fun e => e.1 == name) with
  | none =>
    rw [List.eraseP_of_forall_not fun e he => List.find?_eq_none.mp hfind e he]
    exact hfind
  | some e =>
    obtain ⟨r₁, r₂, rfl, herase⟩ := eraseP_find hfind
    have hname : e.1 = name := by simpa using List.find?_some hfind
    rw [herase]
    refine List.find?_eq_none.mpr fun x hx heq => ?_
    rw [List.map_append, List.map_cons, List.nodup_middle, List.nodup_cons] at h
    refine h.1 ?_
    rw [hname, ← beq_iff_eq.mp heq, ← List.map_append]
    exact List.mem_map_of_mem hx

theorem swapfileUnlink_noName {l : List (InodePtr × Nat)} {m : List FilePtr} (p : Fin nproc)
    (pid : Nat) : Triple (Good l m fun t => Linked 0 t ∧ (t.proc p).pid = pid) (swapfileUnlink p)
      fun _ => Good l m fun t => NoName (swapName pid) t.root := by
  have hE := linked_txStable.ref.toEntryStable
  have hR := noName_refStable (swapName pid)
  have hend : ∀ {l : List (InodePtr × Nat)},
    Triple (Good l m fun t => NoName (swapName pid) t.root) endTx
      fun _ => Good l m fun t => NoName (swapName pid) t.root :=
    Triple.modify fun t ht => ⟨ht.1.congr rfl rfl rfl rfl, ht.2⟩
  refine Triple.get fun s hs => ?_
  rw [hs.2.2]
  refine Triple.bind (Q := fun _ => Good l m (Linked 0)) (Triple.modify fun t ht => ?_) fun _ => ?_
  · subst ht
    exact ⟨hs.1.congr rfl rfl rfl rfl, hs.2.1⟩
  refine (namex_root_spec hE (fun s hs => hs.root) p _).bind fun r => ?_
  refine Triple.exists fun dp => Triple.fact (fun s hs => hs.1) ?_
  rintro rfl
  refine Triple.bind ((ilock_spec hE dp).pre fun s hs => hs.2) fun _ => ?_
  refine (dirlookup_dir_spec hE List.mem_cons_self _).bind fun r => ?_
  cases r with
  | none =>
    exact ((iput_spec hR dp rootIno).pre fun t ht => ⟨ht.1, ht.2.2.2⟩).bind fun _ => hend
  | some ip =>
    refine Triple.exists fun n => (ilock_spec (names_entryStable _ n rootIno) ip).bind fun _ => ?_
    have hdp : (dp, rootIno) ∈ (ip, n) :: (dp, rootIno) :: l :=
      List.mem_cons_of_mem _ List.mem_cons_self
    refine Triple.bind (Q := fun _ => Good ((ip, n) :: (dp, rootIno) :: l) m fun t =>
      NoName (swapName pid) t.root) (Triple.modify fun t ht => ?_) fun _ => ?_
    · rw [Files.setDisk, Files.disk, ht.1.known _ hdp]
      refine ⟨ht.1.congr rfl rfl rfl rfl, ?_⟩
      change NoName _ ((t.setDinode rootIno _).dinode rootIno).entries
      rw [setDinode_self]
      exact eraseP_noName (ht.2.1.names rootIno)
    refine Triple.bind (setNlink_dir_spec List.mem_cons_self _ fun t ht => ?_) fun _ =>
      (iput_spec hR ip n).bind fun _ => (iput_spec hR dp rootIno).bind fun _ => hend
    by_cases hn : n = rootIno
    · subst hn
      change NoName _ ((t.setDinode rootIno _).dinode rootIno).entries
      rw [setDinode_self]
      exact ht
    · rw [setDinode_root hn]
      exact ht

/-- A process on its way out: it has its swap file, or the name of the file is gone. -/
def Leaving (p : Fin nproc) (pid : Nat) (t : Files) : Prop :=
  (Linked 0 t ∧ (t.proc p).pid = pid) ∧ (Keeping pid (t.proc p) ∨ NoName (swapName pid) t.root)

theorem pid_steady (pid : Nat) : Steady fun e => e.pid = pid := ⟨fun _ _ _ h => h, fun _ _ h => h⟩

theorem leaving_txStable (p : Fin nproc) (pid : Nat) :
    TxStable (Leaving p pid) (Leaving p pid) := by
  have hT := linked_txStable.steady (pid_steady pid) p
  have hK := (keeping_steady pid).txStable p
  have hR := noName_refStable (swapName pid)
  have hout : FileStable fun t => Keeping pid (t.proc p) ∨ NoName (swapName pid) t.root :=
    { ref := fun t f n ht => ht.imp (hK.out.ref t f n) id
      close := fun howns hone ht => ht.imp (hK.out.close howns hone) id
      kind := fun t f k ht hnone => ht.imp (fun h => hK.out.kind t f k h hnone) id
      fd := fun t q fd v ht => ht.imp (hK.out.fd t q fd v) id
      cwd := fun t q v ht => ht.imp (hK.out.cwd t q v) id }
  exact
    { ref := hT.ref.and
        { entry := fun howns ht hcase => ht
          free := fun howns ht hone hzero => ht.imp id fun h => hR.free howns h hone hzero }
      out := hT.out.and hout
      inside := hT.out.and hout
      enter := fun _ ht => ht
      leave := fun _ ht => ht }

theorem leaving_exits (p : Fin nproc) (pid : Nat) : Exits (Leaving p pid) p where
  unlink l m := by
    have hpid :=
      swapfileUnlink_spec (l := l) (m := m) ((pid_steady pid).txStable p) (fun _ _ _ ht => ht) p
    have hat :=
      swapfileUnlink_spec (l := l) (m := m) ((at_steady .exiting).txStable p) (fun _ _ _ hs => hs) p
    refine Triple.bind ((((swapfileUnlink_links p).and (swapfileUnlink_noName p pid)).and
      (hpid.and hat)).pre fun t ht => ⟨⟨⟨ht.1, ht.2.1.1.1⟩, ht.1, ht.2.1.1⟩, ⟨ht.1, ht.2.1.1.2⟩,
      ht.1, ht.2.2.1⟩) fun _ => ?_
    refine Triple.modify fun t ht => ⟨ht.1.1.1.setStage ht.2.2.2 (by simp) _, ⟨ht.1.1.2, ?_⟩,
      .inr ht.1.2.2⟩
    rw [setProc_proc]
    exact ht.2.1.2
  close t ht hat := by
    have hno : NoName (swapName pid) t.root := ht.2.resolve_left fun h => h.2.2.1 hat.2
    exact ⟨⟨ht.1.1, by rw [setProc_proc]; exact ht.1.2⟩, .inr hno⟩
  zombie t ht hnone := by
    have hno : NoName (swapName pid) t.root := ht.2.resolve_left fun h => h.2.1 hnone
    exact ⟨⟨ht.1.1, by rw [setProc_proc]; exact ht.1.2⟩, .inr hno⟩

/-- **One step** of anybody: the process has its swap file, or the name of the file is gone. -/
theorem keeping_step (hs : Consistent s) (hk : Keeping pid (s.proc p))
    (hstep : s.step a = some s') : Keeping pid (s'.proc p) ∨ NoName (swapName pid) s'.root := by
  by_cases hexit : a = .exitNext p
  · subst hexit
    unfold Files.step at hstep
    split at hstep
    · rename_i hcan
      obtain ⟨hrun, hfits, -⟩ := hcan
      obtain ⟨⟨u, t⟩, hprog, rfl⟩ := Option.map_eq_some_iff.mp hstep
      have hstage := (Bool.or_eq_true _ _).mp hfits
      have hat := hstage.imp (fun h => And.intro hrun (beq_iff_eq.mp h)) fun h =>
        And.intro hrun (beq_iff_eq.mp h)
      have hleaving : Leaving p pid s := ⟨⟨hs.linked, hk.2.2.2⟩, .inl hk⟩
      exact (exitNext_spec (leaving_txStable p pid) (leaving_exits p pid) s
        ⟨hs.owns, hleaving, hat⟩ u t hprog).2.2
    · cases hstep
  · exact .inl (step_keeping hs.owns hk hexit hstep)

/-! ## Runs -/

/-- Who calls `swapfile_create` without a swap file has an entry of the file table for it, or the
file is there. -/
def SwapRoom (s : Files) : FileAct → Prop
  | .swapfileCreate p _ => (s.proc p).swapfile = none → RoomForSwap s p
  | _ => True

/-- The first `m` steps of a run, which all meet `C`. -/
structure FileRun (C : Files → FileAct → Prop) (s : Nat → Files) (a : Nat → FileAct) (m : Nat) :
    Prop where
  boot : FsBoot (s 0)
  step : ∀ i, i < m → (s i).step (a i) = some (s (i + 1))
  allowed : ∀ i, i < m → C (s i) (a i)

/-- An entry that a `swapfile_create` has added to the root directory has been gone by the time the
process is a zombie; and a `swapfile_create` that fails has changed nothing. -/
structure CleansUp (s : Nat → Files) (a : Nat → FileAct) (m : Nat) : Prop where
  gone : ∀ i j p room e, i < j → j ≤ m → a i = .swapfileCreate p room → e ∉ (s i).root →
    e ∈ (s (i + 1)).root → ((s j).proc p).state = .zombie → ∃ l, i < l ∧ l ≤ j ∧ e ∉ (s l).root
  fails : ∀ i p room, i < m → a i = .swapfileCreate p room → ((s (i + 1)).proc p).swapfile = none →
    Unchanged (s i) (s (i + 1))

theorem FileRun.consistent {C : Files → FileAct → Prop} {s : Nat → Files}
    {a : Nat → FileAct} {m : Nat} (h : FileRun C s a m) : ∀ i, i ≤ m → Consistent (s i) := by
  intro i
  induction i with
  | zero => exact fun _ => h.boot.consistent
  | succ i ih => exact fun hi => step_consistent (ih (by omega)) (h.step i hi)

theorem FileRun.of_list {C : Files → FileAct → Prop} {allowed : Files → FileAct → Bool}
    {acts : List FileAct} (hboot : FsBoot s) (hC : ∀ t a, allowed t a = true → C t a)
    (hrun : (replay Files.step allowed s acts).isSome) :
    FileRun C (passed Files.step allowed s acts) (fun i => acts.getD i (.exit initproc))
      acts.length := by
  refine ⟨hboot, fun i hi => ?_, fun i hi => hC _ _ ?_⟩
  · rw [List.getD_eq_getElem _ _ hi]
    exact (passed_step hrun hi).2
  · rw [List.getD_eq_getElem _ _ hi]
    exact (passed_step hrun hi).1

/-- What a `swapfile_create` does, as a step. -/
theorem swapfileCreate_step (hs : Consistent s) {room : Bool}
    (hstep : s.step (.swapfileCreate p room) = some s') :
    (s.proc p).state = .runnable ∧ ∃ t, s' = t.setProc p { t.proc p with stage := .outside } ∧
      ((s.proc p).swapfile ≠ none ∧ t = s ∨ (s.proc p).swapfile = none ∧ Outcome s p t) := by
  unfold Files.step at hstep
  split at hstep
  swap
  · cases hstep
  rename_i hcan
  obtain ⟨⟨u, t'⟩, hprog, rfl⟩ := Option.map_eq_some_iff.mp hstep
  obtain ⟨_, t, hopen, hset⟩ := bind_run.mp hprog
  refine ⟨hcan.1, t, (Prod.mk.inj (Option.some.inj hset)).2.symm, ?_⟩
  cases hswap : (s.proc p).swapfile with
  | none => exact .inr ⟨rfl, swapfileOpen_outcome hs p hswap room s rfl _ t hopen⟩
  | some f =>
    refine .inl ⟨by simp, ?_⟩
    have hpure : swapfileOpen p room s = some ((), s) := by
      simp only [swapfileOpen]
      refine bind_run.mpr ⟨s, s, rfl, ?_⟩
      rw [hswap]
      rfl
    exact (Prod.mk.inj (Option.some.inj (hopen.symm.trans hpure))).2

theorem Unchanged.root {t : Files} (h : Unchanged s t) (hs : Consistent s) : t.root = s.root := by
  rw [Files.root, (h.inodes rootIno).1 hs.root_type]
  rfl

/-- What was added belongs to a process that has its swap file. -/
theorem added_keeping (hs : Consistent s) {room : Bool} {e : Name × Nat}
    (hroom : SwapRoom s (.swapfileCreate p room))
    (hstep : s.step (.swapfileCreate p room) = some s') (hnot : e ∉ s.root) (hin : e ∈ s'.root) :
    e.1 = swapName (s.proc p).pid ∧ Keeping (s.proc p).pid (s'.proc p) := by
  obtain ⟨hrun, t, rfl, ⟨-, rfl⟩ | ⟨hnone, hout⟩⟩ := swapfileCreate_step hs hstep
  · exact absurd hin hnot
  obtain ⟨v, hproc⟩ := hout.proc
  have hp : t.proc p = { s.proc p with swapfile := v } := by rw [hproc, Function.update_self]
  have hswap : (t.proc p).swapfile ≠ none := by
    intro hswap
    have hsame := (hout.fails (hroom hnone) hswap).root hs
    rw [show (t.setProc p { t.proc p with stage := .outside }).root = t.root from rfl, hsame] at hin
    exact hnot hin
  refine ⟨(hout.only e hin).resolve_left hnot, ?_⟩
  rw [setProc_proc]
  refine ⟨?_, hswap, by simp, ?_⟩
  · rw [hp]
    exact hrun
  · rw [hp]

end

/--
**Swap files do not outlive their processes**, in every run in which whoever calls `swapfile_create`
without a swap file has an entry of the file table for it, or finds the file in the root directory.
-/
theorem swap_files_cleaned_up {s : Nat → Files} {a : Nat → FileAct} {m : Nat}
    (h : FileRun SwapRoom s a m) : CleansUp s a m := by
  refine ⟨fun i j p room e hij hjm hact hnot hin hzombie => ?_, fun i p room hi hact hswap => ?_⟩
  · by_contra hno
    push Not at hno
    have hroom := h.allowed i (by omega)
    have hstep := h.step i (by omega)
    rw [hact] at hroom hstep
    obtain ⟨hname, hkeep⟩ := added_keeping (h.consistent i (by omega)) hroom hstep hnot hin
    -- as long as the entry is there the process has its swap file
    have hall : ∀ d, i + 1 + d ≤ j → Keeping ((s i).proc p).pid ((s (i + 1 + d)).proc p) := by
      intro d
      induction d with
      | zero => exact fun _ => hkeep
      | succ d ih =>
        intro hd
        have hd' := ih (by omega)
        rcases keeping_step (h.consistent (i + 1 + d) (by omega)) hd'
          (h.step (i + 1 + d) (by omega)) with
          hk | hgone
        · exact hk
        · have hmem := hno (i + 1 + d + 1) (by omega) (by omega)
          exact absurd (beq_iff_eq.mpr hname) (List.find?_eq_none.mp hgone e hmem)
    have hend := hall (j - (i + 1)) (by omega)
    rw [show i + 1 + (j - (i + 1)) = j by omega] at hend
    rw [hend.1] at hzombie
    cases hzombie
  · have hroom := h.allowed i hi
    have hstep := h.step i hi
    rw [hact] at hroom hstep
    obtain ⟨-, t, ht, ⟨hsome, rfl⟩ | ⟨hnone, hout⟩⟩ :=
      swapfileCreate_step (h.consistent i (by omega)) hstep
    · rw [ht, setProc_proc] at hswap
      exact absurd hswap hsome
    · rw [ht, setProc_proc] at hswap
      have hsame := hout.fails (hroom hnone) hswap
      rw [ht]
      exact ⟨hsame.inodes, hsame.refs, hsame.files⟩

/-- A child that has had a swap file and is a zombie. -/
theorem swap_files_cleaned_up_one : ∃ s a, FileRun SwapRoom s a 7 ∧ ((s 7).proc 1).state = .zombie ∧
    (swapName 2, 4) ∈ (s 2).root ∧ CleansUp s a 7 := by
  let acts : List FileAct :=
    [.fork 0 1 true, .swapfileCreate 1 true, .exit 1, .exitNext 1, .exitNext 1, .exitNext 1,
      .exitNext 1]
  let allowed : Files → FileAct → Bool := fun s _ => (s.ftable 99).ref == 0
  have hrun : (replay Files.step allowed twoFiles acts).isSome := by decide +kernel
  have hswap : (swapName 2, 4) ∈ (passed Files.step allowed twoFiles acts 2).root := by
    decide +kernel
  have hzombie : ((passed Files.step allowed twoFiles acts 7).proc 1).state = .zombie := by
    decide +kernel
  have h : FileRun SwapRoom _ _ 7 := FileRun.of_list twoFiles_fsBoot (fun t a ha => ?_) hrun
  · exact ⟨_, _, h, hzombie, hswap, swap_files_cleaned_up h⟩
  · cases a with
    | swapfileCreate => exact fun _ => .inl ⟨99, beq_iff_eq.mp ha⟩
    | _ => exact trivial

/-! ## The file table is full -/

theorem filealloc_first (hf : (s.ftable f).ref = 0) (hlt : ∀ g < f, (s.ftable g).ref ≠ 0) :
    filealloc s = some (some f, s.setFile f { s.ftable f with ref := 1 }) := by
  have hfind : (Fin.find? fun g => (s.ftable g).ref == 0) = some f :=
    Fin.find?_eq_some_iff.mpr ⟨beq_iff_eq.mpr hf, fun g hg => beq_eq_false_iff_ne.mpr (hlt g hg)⟩
  unfold filealloc
  rw [hfind]

theorem fdalloc_first {fd : Fin nofile} (hfd : (s.proc p).ofile fd = none)
    (hlt : ∀ d < fd, (s.proc p).ofile d ≠ none) :
    fdalloc p f s = some (some fd, s.setProc p ((s.proc p).setFd fd (some f))) := by
  have hfind : (Fin.find? fun d => (s.proc p).ofile d == none) = some fd :=
    Fin.find?_eq_some_iff.mpr ⟨by rw [hfd]; rfl, fun d hd => beq_eq_false_iff_ne.mpr (hlt d hd)⟩
  unfold fdalloc
  rw [hfind]

/-- The next one is free when all up to here are in use. -/
theorem first_update {α : Type} {T : Fin n → α} {v : α} {f g : Fin n} {U : α → Prop} (hv : U v)
    (hlt : ∀ e < f, U (T e)) (hg : g.val = f.val + 1) :
    ∀ e < g, U (Function.update T f v e) := by
  intro e he
  by_cases hef : e = f
  · rw [hef, Function.update_self]
    exact hv
  · rw [Function.update_of_ne hef]
    have hval : e.val ≠ f.val := fun h => hef (Fin.ext h)
    exact hlt e (Fin.lt_def.mpr (by have := Fin.lt_def.mp he; omega))

theorem sysPipe_first {g : FilePtr} {fd gd : Fin nofile} (hf : (s.ftable f).ref = 0)
    (hlt : ∀ e < f, (s.ftable e).ref ≠ 0) (hg : g.val = f.val + 1) (hg0 : (s.ftable g).ref = 0)
    (hfd : (s.proc p).ofile fd = none) (hdlt : ∀ d < fd, (s.proc p).ofile d ≠ none)
    (hgd : gd.val = fd.val + 1) (hgd0 : (s.proc p).ofile gd = none) :
    sysPipe p true true s = some ((), { s with
      ftable := Function.update (Function.update s.ftable f ⟨1, .pipe⟩) g ⟨1, .pipe⟩
      proc := Function.update s.proc p (((s.proc p).setFd fd (some f)).setFd gd (some g)) }) := by
  have hfg : g ≠ f := fun h => by rw [h] at hg; omega
  have hdg : gd ≠ fd := fun h => by rw [h] at hgd; omega
  unfold sysPipe
  refine bind_run.mpr ⟨some f, _, filealloc_first hf hlt, ?_⟩
  refine bind_run.mpr ⟨some g, _, filealloc_first ?_
    (first_update (U := fun e : FileEntry => e.ref ≠ 0) Nat.one_ne_zero hlt hg), ?_⟩
  · exact (congrArg FileEntry.ref (Function.update_of_ne hfg ..)).trans hg0
  refine bind_run.mpr ⟨(), _, rfl, bind_run.mpr ⟨(), _, rfl, ?_⟩⟩
  unfold pipeFds
  refine bind_run.mpr ⟨some fd, _, fdalloc_first hfd hdlt, ?_⟩
  refine bind_run.mpr ⟨some gd, _, fdalloc_first ?_ fun d hd => ?_, ?_⟩
  · rw [setProc_proc]
    exact (Function.update_of_ne hdg ..).trans hgd0
  · rw [setProc_proc]
    exact first_update (U := fun o : Option FilePtr => o ≠ none) (by simp) hdlt hgd d hd
  · rw [setProc_proc, setProc_setProc]
    refine congrArg (fun s => some ((), s)) ?_
    have hgf := hfg.symm
    simp only [Files.setFile, Files.setProc, Function.update_self, Function.update_of_ne hfg,
      Function.update_of_ne hgf, Function.update_comm hfg, Function.update_idem]

/-- The first `n + 1` processes on `twoFiles`, which have `k` ends of pipes, sixteen each. -/
def crowd (n k : Nat) : Files :=
  { twoFiles with
    itable := fun ip =>
      if ip = 0 then { inum := rootIno, ref := n + 1, valid := false }
      else { inum := 0, ref := 0, valid := false }
    ftable :=
      fun f => if f.val < k then { ref := 1, kind := .pipe } else { ref := 0, kind := .none }
    proc := fun p =>
      { state := if p.val ≤ n then .runnable else .unused
        pid := if p.val ≤ n then p.val + 1 else 0
        ofile := fun fd =>
          if 16 * p.val + fd.val < k then some (Fin.ofNat nfile (16 * p.val + fd.val)) else none
        cwd := if p.val ≤ n then some 0 else none
        execIp := none, swapfile := none, stage := .outside, held := none }
    nextpid := n + 2 }

theorem twoFiles_crowd : twoFiles = crowd 0 0 := by
  have hproc : twoFiles.proc = (crowd 0 0).proc := by decide +kernel
  calc twoFiles = { twoFiles with proc := twoFiles.proc } := rfl
    _ = crowd 0 0 := by
      rw [hproc]
      rfl

theorem dupFiles_none (h : ∀ fd, (s.proc p).ofile fd = none) :
    ∀ fds, dupFiles p np fds s = some ((), s) := by
  intro fds
  induction fds with
  | nil => rfl
  | cons fd fds ih =>
    refine bind_run.mpr ⟨s, s, rfl, ?_⟩
    rw [h fd]
    exact ih

/-- A child of the first process. -/
theorem crowd_fork (hnp : np.val = n + 1) :
    (crowd n 0).step (.fork 0 np true) = some (crowd (n + 1) 0) := by
  have hne : (0 : Fin nproc) ≠ np := fun h => by
    rw [← h] at hnp
    simp at hnp
  have hunused : ((crowd n 0).proc np).state = .unused := if_neg (by omega)
  have hprog : kforkFiles 0 np true (crowd n 0) = some ((), crowd (n + 1) 0) := by
    refine bind_run.mpr ⟨_, _, rfl, bind_run.mpr ⟨(), _, rfl, bind_run.mpr ⟨(), _, rfl, ?_⟩⟩⟩
    refine bind_run.mpr ⟨(), _, dupFiles_none (fun fd => ?_) _, ?_⟩
    · rw [setProc_proc_ne hne]
      rfl
    · refine bind_run.mpr ⟨0, _, rfl, bind_run.mpr ⟨(), _, rfl, ?_⟩⟩
      refine congrArg (fun s => some ((), s)) ?_
      simp only [Files.setProc, Files.setInode, Function.update_self, Function.update_idem]
      unfold crowd
      congr 1
      · funext ip
        by_cases hip : ip = 0 <;> simp [hip]
      · funext q
        by_cases hq : q = np
        · subst hq
          rw [Function.update_self]
          simp [hnp]
        · have hval : q.val ≠ n + 1 := fun h => hq (Fin.ext (h.trans hnp.symm))
          have hiff : q.val ≤ n + 1 ↔ q.val ≤ n := by omega
          simp only [Function.update_of_ne hq, hiff]
  unfold Files.step
  rw [if_pos ⟨rfl, rfl, beq_iff_eq.mpr hunused⟩]
  exact congrArg (Option.map Prod.snd) hprog

/-- A pipe of the process whose turn it is. -/
theorem crowd_pipe {k : Nat} (hp : p.val = k / 16) (hn : p.val ≤ n) (heven : k % 2 = 0)
    (hk : k + 2 ≤ 100) :
    (crowd n k).step (.pipe p true true) = some (crowd n (k + 2)) := by
  have hfiles : ∀ e : FilePtr, (((crowd n k).ftable e).ref = 0 ↔ k ≤ e.val) := by
    intro e
    change (if e.val < k then _ else _ : FileEntry).ref = 0 ↔ _
    split <;> simp <;> omega
  have hfds : ∀ d : Fin nofile, (((crowd n k).proc p).ofile d = none ↔ k ≤ 16 * p.val + d.val) := by
    intro d
    change (if 16 * p.val + d.val < k then _ else _ : Option FilePtr) = none ↔ _
    split <;> simp <;> omega
  obtain ⟨f, hf⟩ : ∃ f : FilePtr, f.val = k := ⟨⟨k, by change k < 100; omega⟩, rfl⟩
  obtain ⟨g, hg⟩ : ∃ g : FilePtr, g.val = k + 1 := ⟨⟨k + 1, by change k + 1 < 100; omega⟩, rfl⟩
  obtain ⟨d, hd⟩ : ∃ d : Fin nofile, d.val = k % 16 := ⟨⟨k % 16, by change k % 16 < 16; omega⟩, rfl⟩
  obtain ⟨e, he⟩ : ∃ e : Fin nofile, e.val = k % 16 + 1 :=
    ⟨⟨k % 16 + 1, by change k % 16 + 1 < 16; omega⟩, rfl⟩
  have hprog : sysPipe p true true (crowd n k) = some ((), crowd n (k + 2)) := by
    refine (sysPipe_first ((hfiles f).mpr (by omega)) (fun i hi => ?_) (hg.trans (by rw [hf]))
      ((hfiles g).mpr (by omega)) ((hfds d).mpr (by omega)) (fun i hi => ?_) (he.trans (by rw [hd]))
      ((hfds e).mpr (by omega))).trans ?_
    · have hlt := Fin.lt_def.mp hi
      rw [Ne, hfiles]
      omega
    · have hlt := Fin.lt_def.mp hi
      rw [Ne, hfds]
      omega
    · refine congrArg (fun s => some ((), s)) ?_
      unfold crowd
      congr 1
      · funext i
        simp only [Function.update_apply, Fin.ext_iff, hf, hg]
        split_ifs <;> first | rfl | omega
      · funext q
        by_cases hq : q = p
        · subst hq
          rw [Function.update_self]
          simp only [FileProc.setFd]
          congr 1
          funext i
          simp only [Function.update_apply, Fin.ext_iff, hd, he]
          have hval : ∀ x : FilePtr, 16 * q.val + i.val = x.val →
              some x = some (Fin.ofNat nfile (16 * q.val + i.val)) := by
            intro x hx
            rw [hx]
            exact congrArg some (Fin.ext (Nat.mod_eq_of_lt x.isLt).symm)
          split_ifs <;> first | rfl | omega | exact hval _ (by omega)
        · have hval : q.val ≠ k / 16 := fun h => hq (Fin.ext (h.trans hp.symm))
          have hiff : ∀ i : Fin nofile, 16 * q.val + i.val < k + 2 ↔ 16 * q.val + i.val < k := by
            intro i
            have := i.isLt
            change i.val < 16 at this
            omega
          simp only [Function.update_of_ne hq, hiff]
  unfold Files.step
  rw [if_pos ⟨if_pos hn, rfl, rfl⟩]
  exact congrArg (Option.map Prod.snd) hprog

/-- Seven children, and fifty pipes. -/
def fillTable : List FileAct :=
  (List.range 7).map (fun i => .fork 0 (Fin.ofNat nproc (i + 1)) true) ++
    (List.range 50).map fun i => .pipe (Fin.ofNat nproc (i / 8)) true true

theorem fillTable_length : fillTable.length = 57 := by
  rw [fillTable, List.length_append, List.length_map, List.length_map, List.length_range,
    List.length_range]

theorem fillTable_run :
    replay Files.step (fun _ _ => true) twoFiles fillTable = some (crowd 7 100) := by
  have hforks : replay Files.step (fun _ _ => true) (crowd 0 0)
      ((List.range 7).map fun i => .fork 0 (Fin.ofNat nproc (i + 1)) true) = some (crowd 7 0) :=
    replay_range (fun n => crowd n 0) _ fun i hi =>
      ⟨rfl, crowd_fork (Nat.mod_eq_of_lt (by change i + 1 < 64; omega))⟩
  have hpipes : replay Files.step (fun _ _ => true) (crowd 7 (2 * 0))
      ((List.range 50).map fun i => .pipe (Fin.ofNat nproc (i / 8)) true true) =
      some (crowd 7 (2 * 50)) := by
    refine replay_range (fun n => crowd 7 (2 * n)) _ fun i hi => ?_
    have hval : (Fin.ofNat nproc (i / 8)).val = i / 8 :=
      Nat.mod_eq_of_lt (by change i / 8 < 64; omega)
    exact ⟨rfl, crowd_pipe (by omega) (by omega) (by omega) (by omega)⟩
  rw [fillTable, replay_append, twoFiles_crowd, hforks, Option.bind_some]
  exact hpipes

/-- Its last child wants a swap file, and exits. -/
def createAndExit : List FileAct := [.swapfileCreate 7 true, .exit 7, .exitNext 7, .exitNext 7]

theorem createAndExit_run (k : Fin 5) :
    ∃ t, replay Files.step (fun _ _ => true) (crowd 7 100) (createAndExit.take k) = some t ∧
      ((swapName 8, 4) ∈ t.root ↔ 0 < k.val) ∧ (k.val = 4 → (t.proc 7).state = .zombie) := by
  have hrun : ∀ k : Fin 5,
    (replay Files.step (fun _ _ => true) (crowd 7 100) (createAndExit.take k)).map
      (fun t => (decide ((swapName 8, 4) ∈ t.root),
      decide (k.val = 4 → (t.proc 7).state = .zombie))) = some (decide (0 < k.val), true) := by
      decide +kernel
  obtain ⟨t, ht, heq⟩ := Option.map_eq_some_iff.mp (hrun k)
  exact ⟨t, ht, decide_eq_decide.mp (congrArg Prod.fst heq),
    of_decide_eq_true (congrArg Prod.snd heq)⟩

/-- The name stays when the process is gone, and the inode with it. -/
theorem swap_file_outlives : ¬ ∀ s a m, FileRun (fun _ _ => True) s a m → CleansUp s a m := by
  intro h
  have hsome : (replay Files.step (fun _ _ => true) twoFiles
      (fillTable ++ createAndExit)).isSome := by
    obtain ⟨t, ht, -⟩ := createAndExit_run 4
    rw [show createAndExit.take (4 : Fin 5).val = createAndExit from rfl] at ht
    rw [replay_append, fillTable_run, Option.bind_some, ht]
    rfl
  have hlength : (fillTable ++ createAndExit).length = 61 := by
    rw [List.length_append, fillTable_length]
    rfl
  have hact : (fillTable ++ createAndExit).getD 57 (.exit initproc) = .swapfileCreate 7 true := by
    rw [List.getD_append_right _ _ _ _ fillTable_length.le, fillTable_length]
    rfl
  have hrun : FileRun (fun _ _ => True) _ _ _ :=
    FileRun.of_list twoFiles_fsBoot (fun _ _ _ => trivial) hsome
  have hat : ∀ k : Fin 5, ((swapName 8, 4) ∈
      (passed Files.step (fun _ _ => true) twoFiles (fillTable ++ createAndExit) (57 + k)).root ↔
      0 < k.val) ∧
      (k.val = 4 →
      ((passed Files.step (fun _ _ => true) twoFiles (fillTable ++ createAndExit) (57 + k)).proc
        7).state = .zombie) := by
    intro k
    obtain ⟨t, ht, hroot⟩ := createAndExit_run k
    rw [← fillTable_length, passed_append k fillTable_run ht]
    exact hroot
  generalize passed Files.step (fun _ _ => true) twoFiles (fillTable ++ createAndExit) =
    s at hrun hat
  rw [hlength] at hrun
  have hnot : (swapName 8, 4) ∉ (s 57).root := fun hin => absurd ((hat 0).1.mp hin) (by decide)
  obtain ⟨l, hl, hle, hno⟩ :=
    (h s _ 61 hrun).gone 57 61 7 true (swapName 8, 4) (by decide) le_rfl hact hnot
      ((hat 1).1.mpr (by decide)) ((hat 4).2 rfl)
  refine hno ?_
  obtain ⟨k, rfl⟩ := Nat.exists_eq_add_of_lt hl
  exact (hat ⟨k + 1, by omega⟩).1.mpr (by simp)

end Xv6Paging
