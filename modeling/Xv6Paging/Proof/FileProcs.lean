import Xv6Paging.Proof.FileCalls

/-!
# What fork, exec, exit and wait do with references

These programs change the entry of a process in more than its descriptors and its
directory. What they need of the assertion they carry is stated for each of them
(`Forks`, `Execs`, `Exits`), so that it may speak about the processes.
-/

namespace Xv6Paging

open Lib

variable {p np : Fin nproc} {s : Files}

section

variable {l : List (InodePtr × Nat)} {m : List FilePtr} {I J : Files → Prop}

/-! ## Stages -/

/-- A process in a call, at a stage of it. -/
def FileProc.At (stage : Stage) (e : FileProc) : Prop := e.state = .runnable ∧ e.stage = stage

theorem at_steady (stage : Stage) : Steady (FileProc.At stage) := ⟨fun _ _ _ h => h, fun _ _ h => h⟩

theorem FileProc.At.present {stage : Stage} (h : (s.proc p).At stage) : Present p s := by
  unfold Present
  rw [h.1]
  exact ⟨by simp, by simp⟩

/-- The stage of a process that holds on to nothing. -/
theorem Owns.setStage {old : Stage} (h : Owns l m s) (hp : (s.proc p).At old) (hold : old ≠ .stuck)
    (stage : Stage) :
    Owns l m (s.setProc p { s.proc p with stage := stage }) := by
  refine h.setPointers (fun _ => rfl) (fun _ => rfl) h.known ?_ fun hheld => ?_
  · dsimp only
    rw [hp.1]
    exact ⟨by simp, by simp⟩
  · exact absurd (hp.2.symm.trans (h.stuck p hheld).2) hold

/-! ## Wait -/

/-- The entry of a process after `freeproc`. -/
def FileProc.freed (e : FileProc) : FileProc :=
  { e with execIp := none, pid := 0, state := .unused, stage := .outside }

/-- A process that has exited, or was never started. -/
structure FileProc.Over (e : FileProc) : Prop extends e.Stripped where
  held : e.held = none

theorem Owns.zombie_over {c : Fin nproc} (h : Owns l m s) (hc : (s.proc c).state = .zombie) :
    (s.proc c).Over := by
  refine ⟨h.zombie c hc, ?_⟩
  by_contra hheld
  have hstate := (h.stuck c hheld).1
  rw [hc] at hstate
  cases hstate

theorem freed_bare {e : FileProc} (h : e.Over) : e.freed.Bare :=
  ⟨h.ofile, h.cwd, rfl, h.swapfile, h.held⟩

theorem freeprocFiles_none_spec (c : Fin nproc)
    (hclear : ∀ s, I s → J (s.setProc c (s.proc c).freed)) :
    Triple (fun s => Good l m I s ∧ (s.proc c).Over ∧ (s.proc c).execIp = none)
      (freeprocFiles c) fun _ => Good l m J := by
  refine Triple.get fun s hpre => ?_
  obtain ⟨hs, hover, hip⟩ := hpre
  rw [hip]
  refine Triple.modify fun t ht => ?_
  subst ht
  have heq : (t.proc c).freed =
      { t.proc c with pid := 0, state := .unused, stage := .outside } := by
    rw [FileProc.freed, ← hip]
  change Good l m J (t.setProc c { t.proc c with pid := 0, state := .unused, stage := .outside })
  rw [← heq]
  refine ⟨hs.1.setProc (fun jp => ?_) (fun _ => rfl) hs.1.known (fun _ => freed_bare hover)
    (fun h => by cases h) (fun h => absurd hover.held h), hclear t hs.2⟩
  rw [procInodes, procInodes, hip]
  rfl

/-- `iput` changes no process, so that the pointer may as well be cleared first. -/
theorem freeprocFiles_some_spec {I' : Files → Prop} (c : Fin nproc) (ip : InodePtr)
    (hclear : ∀ s, I s → I' (s.setProc c (s.proc c).freed))
    (hput : ∀ n, Triple (Good ((ip, n) :: l) m I') (iput ip) fun _ => Good l m J) :
    Triple (fun s => Good l m I s ∧ (s.proc c).Over ∧ (s.proc c).execIp = some ip)
      (freeprocFiles c) fun _ => Good l m J := by
  refine Triple.get fun s hpre => ?_
  obtain ⟨hs, hover, hip⟩ := hpre
  rw [hip]
  have hgood : Good ((ip, (s.itable ip).inum) :: l) m I' (s.setProc c (s.proc c).freed) := by
    refine ⟨hs.1.setProc (fun jp => ?_) (fun _ => rfl) (fun x hx => ?_) (fun _ => freed_bare hover)
      (fun h => by cases h) (fun h => absurd hover.held h), hclear s hs.2⟩
    · rw [List.map_cons, count_cons_points, procInodes, procInodes, hip]
      change points (s.proc c).cwd jp + points none jp + points (s.proc c).held jp + s.lost jp +
        (points (some ip) jp + _) = _
      rw [points_none]
      omega
    · rcases List.mem_cons.mp hx with rfl | hx
      · rfl
      · exact hs.1.known x hx
  rintro t rfl u s' he
  obtain ⟨_, t', hiput, hset⟩ := bind_run.mp he
  cases hset
  have hend := (ProcFree.iput ip).triple (hput _) hgood hiput
  rw [← (ProcFree.iput ip).proc_eq hiput] at hend
  exact hend

/-! ## Fork -/

/-- The entry of a child that has nothing yet, but perhaps open files. -/
structure FileProc.Newborn (e : FileProc) : Prop where
  state : e.state = .used
  cwd : e.cwd = none
  execIp : e.execIp = none
  swapfile : e.swapfile = none
  held : e.held = none

theorem FileProc.Newborn.present (h : (s.proc np).Newborn) :
    Present np s := by
  unfold Present
  rw [h.state]
  exact ⟨by decide, by decide⟩

/-- The loop fills in descriptors of the child. -/
theorem dupFiles_spec (hI : FileStable I) (hne : p ≠ np) (e : FileProc) :
    ∀ fds : List (Fin nofile), fds.Nodup →
      Triple (fun s => Good l m I s ∧ s.proc p = e ∧ (s.proc np).Newborn ∧
          ∀ fd ∈ fds, (s.proc np).ofile fd = none) (dupFiles p np fds)
        fun _ s => Good l m I s ∧ s.proc p = e ∧ (s.proc np).Newborn := by
  intro fds
  induction fds with
  | nil => exact fun _ => Triple.pure fun s hs => ⟨hs.1, hs.2.1, hs.2.2.1⟩
  | cons fd fds ih =>
    intro hnodup
    obtain ⟨hfd, hrest⟩ := List.nodup_cons.mp hnodup
    refine Triple.get fun s hs => ?_
    split
    · rename_i f hf
      refine Triple.bind (Q := fun _ s => Good l (f :: m) I s ∧ s.proc p = e ∧
          (s.proc np).Newborn ∧ ∀ fd' ∈ fd :: fds, (s.proc np).ofile fd' = none) ?_ fun _ => ?_
      · rintro t rfl u s' he
        have hdup := filedup_spec hI f t hs.1 u s' he
        unfold filedup at he
        split at he
        · cases he
        · cases he
          exact ⟨hdup, hs.2⟩
      · refine Triple.bind ?_ fun _ => ih hrest
        refine Triple.modify fun t hpre => ?_
        obtain ⟨ht, hp, hnew, hfree⟩ := hpre
        refine ⟨?_, ?_, ?_, fun fd' hmem => ?_⟩
        · exact ht.storeFd hI hnew.present (hfree fd List.mem_cons_self)
        · rw [setProc_proc_ne hne]
          exact hp
        · rw [setProc_proc]
          exact ⟨hnew.state, hnew.cwd, hnew.execIp, hnew.swapfile, hnew.held⟩
        · rw [setFd_ofile_ne (ne_of_mem_of_not_mem hmem hfd)]
          exact hfree fd' (List.mem_cons_of_mem _ hmem)
    · refine (ih hrest).pre fun t ht => ?_
      subst ht
      exact ⟨hs.1, hs.2.1, hs.2.2.1, fun fd' hmem => hs.2.2.2 fd' (List.mem_cons_of_mem _ hmem)⟩

/-- What `kfork` needs to know: how the child comes into being, starts to run or is given up. -/
structure Forks (I₀ I : Files → Prop) (np : Fin nproc) : Prop where
  file : FileStable I
  entry : EntryStable I
  new : ∀ s, I₀ s → I ({ s with nextpid := s.nextpid + 1 }.setProc np
    { s.proc np with state := .used, pid := s.nextpid, swapfile := none, stage := .outside })
  start : ∀ s x, I s → (s.proc np).state = .used →
    I (s.setProc np { s.proc np with execIp := x, state := .runnable })
  freed : ∀ s, I s → (s.proc np).swapfile = none → I (s.setProc np (s.proc np).freed)

/-- What a process points to may be pointed to once more. -/
theorem idupFor_spec (hI : EntryStable I) (p : Fin nproc) (e : FileProc) (ip : InodePtr)
    (hip : 0 < procInodes ip e) {K : (Fin nproc → FileProc) → Prop} :
    Triple (fun s => Good l m I s ∧ s.proc p = e ∧ K s.proc) (idup ip) fun jp s =>
      jp = ip ∧ (∃ n, Good ((ip, n) :: l) m I s) ∧ s.proc p = e ∧ K s.proc := by
  rintro s ⟨hs, hp, hk⟩ jp s' he
  have hpos : 0 < (s.itable ip).ref := hs.1.ref_pos_of_proc (p := p) (hp ▸ hip)
  obtain ⟨hjp, hgood⟩ := idup_spec (l := l) (m := m) hI ip _ s ⟨hs, hpos, rfl⟩ jp s' he
  cases he
  exact ⟨hjp, ⟨_, hgood⟩, hp, hk⟩

/-- `np->exec_ip = ip; np->state = RUNNABLE`. -/
theorem Good.start {I₀ : Files → Prop} (hF : Forks I₀ I np) {l' : List (InodePtr × Nat)}
    {x : Option InodePtr} (hs : Good l' m I s) (hstate : (s.proc np).state = .used)
    (hexec : (s.proc np).execIp = none) (hheld : (s.proc np).held = none)
    (hl : ∀ ip, points x ip + (l.map Prod.fst).count ip = (l'.map Prod.fst).count ip)
    (hknown : ∀ y ∈ l, y ∈ l') :
    Good l m I (s.setProc np { s.proc np with execIp := x, state := .runnable }) := by
  refine ⟨hs.1.setPointers (fun ip => ?_) (fun _ => rfl) (fun y hy => hs.1.known y (hknown y hy))
    ⟨by simp, by simp⟩ (fun h => absurd hheld h), hF.start s x hs.2 hstate⟩
  have hip := hl ip
  rw [procInodes, procInodes, hexec, points_none]
  dsimp only
  omega

theorem kforkFiles_spec {I₀ : Files → Prop} (hF : Forks I₀ I np) (hne : p ≠ np) (memory : Bool) :
    Triple (fun s => Good l m I₀ s ∧ (s.proc np).state = .unused) (kforkFiles p np memory)
      fun _ => Good l m I := by
  refine Triple.get fun s hpre => ?_
  obtain ⟨hs, hunused⟩ := hpre
  obtain ⟨hofile, hcwd, hexec, hswap, hheld⟩ := hs.1.unused np hunused
  refine Triple.bind (Q := fun _ t => t = { s with nextpid := s.nextpid + 1 })
    (Triple.modify fun t ht => by rw [ht]) fun _ => ?_
  refine Triple.bind (Q := fun _ t => Good l m I t ∧ t.proc p = s.proc p ∧ (t.proc np).Newborn ∧
    ∀ fd ∈ List.finRange nofile, (t.proc np).ofile fd = none) ?_ fun _ => ?_
  · refine Triple.modify fun t ht => ?_
    subst ht
    refine ⟨⟨?_, hF.new s hs.2⟩, ?_, ?_, fun fd _ => ?_⟩
    · have hs' : Owns l m { s with nextpid := s.nextpid + 1 } := hs.1.congr rfl rfl rfl rfl
      refine hs'.setPointers (fun _ => rfl) (fun f => ?_) hs'.known ⟨by simp, by simp⟩
        (fun h => absurd hheld h)
      rw [procFiles, procFiles, hswap]
    · exact setProc_proc_ne hne
    · rw [setProc_proc]
      exact ⟨rfl, hcwd, hexec, rfl, hheld⟩
    · rw [setProc_proc]
      exact hofile fd
  refine Triple.ite (fun _ => ?_) fun _ => ?_
  · refine (dupFiles_spec hF.file hne (s.proc p) _ (List.nodup_finRange _)).bind fun _ => ?_
    split
    · exact Triple.failure
    rename_i cwd hpcwd
    have hdup := idupFor_spec (l := l) (m := m) hF.entry p (s.proc p) cwd
      (by rw [procInodes, hpcwd, points_self]; omega) (K := fun g => (g np).Newborn)
    refine hdup.bind fun jp => ?_
    -- the child's directory is the parent's
    refine Triple.bind (Q := fun _ t => Good l m I t ∧ t.proc p = s.proc p ∧
      (t.proc np).state = .used ∧ (t.proc np).execIp = none ∧ (t.proc np).held = none) ?_
      fun _ => ?_
    · refine Triple.modify fun t hpre => ?_
      obtain ⟨hjp, ⟨n, ht⟩, htp, hnew⟩ := hpre
      subst hjp
      refine ⟨ht.setCwd hF.file hnew.present (fun kp => ?_) fun x hx => ?_, ?_, ?_⟩
      · rw [hnew.cwd, points_none, List.map_cons, count_cons_points, Nat.zero_add]
      · exact ht.1.known x (List.mem_cons_of_mem _ hx)
      · rw [setProc_proc_ne hne]
        exact htp
      · rw [setProc_proc]
        exact ⟨hnew.state, hnew.execIp, hnew.held⟩
    split
    · refine Triple.modify fun t hpre => ?_
      obtain ⟨ht, _, hstate, hnone, hnp⟩ := hpre
      have hend := ht.start (l := l) (x := none) hF hstate hnone hnp (fun ip => ?_) fun y hy => hy
      · rw [← hnone] at hend
        exact hend
      · rw [points_none, Nat.zero_add]
    · rename_i x hx
      have hdup := idupFor_spec (l := l) (m := m) hF.entry p (s.proc p) x
        (by rw [procInodes, hx, points_self]; omega)
        (K := fun g => (g np).state = .used ∧ (g np).execIp = none ∧ (g np).held = none)
      refine hdup.bind fun jp => ?_
      refine Triple.modify fun t hpre => ?_
      obtain ⟨hjp, ⟨n, ht⟩, _, hstate, hnone, hnp⟩ := hpre
      subst hjp
      refine ht.start hF hstate hnone hnp (fun ip => ?_) fun y hy => List.mem_cons_of_mem _ hy
      rw [List.map_cons, count_cons_points]
  · -- the child has no executable, so that nothing is given back
    have hfree := freeprocFiles_none_spec (l := l) (m := m) (J := I) np
      fun s (hs : I s ∧ (s.proc np).swapfile = none) => hF.freed s hs.1 hs.2
    refine hfree.pre fun t hpre => ?_
    obtain ⟨ht, _, hnew, hnone⟩ := hpre
    refine ⟨⟨ht.1, ht.2, hnew.swapfile⟩, ?_, hnew.execIp⟩
    exact ⟨⟨fun fd => hnone fd (List.mem_finRange fd), hnew.cwd, hnew.swapfile⟩, hnew.held⟩

/-! ## Exec -/

/-- What `kexec` needs to know, of a process that is in no other call: what holds when it is stuck
and when it has replaced its executable. -/
structure Execs (J : Files → Prop) (c : FileProc → Prop) (p : Fin nproc) (how : ExecEnd) :
    Prop where
  steady : Steady c
  outside : ∀ e, c e → e.At .outside
  stuck : ∀ s ip, J s → c (s.proc p) →
    J (s.setProc p { s.proc p with stage := .stuck, held := some ip })
  done : how = .done → ∀ s ip, J s → c (s.proc p) →
    J { s.setProc p { s.proc p with execIp := some ip, stage := .execed } with
      lost := fun jp => s.lost jp + points (s.proc p).execIp jp }

theorem kexecFiles_spec {c : FileProc → Prop} {how : ExecEnd} (hT : TxStable I J)
    (hE : Execs J c p how) (path : FsPath) :
    Triple (Good l m fun s => I s ∧ c (s.proc p)) (kexecFiles p path how) fun _ => Good l m I := by
  have hT' := hT.steady hE.steady p
  -- a process that is in no other call holds on to nothing
  have hheld : ∀ (l : List (InodePtr × Nat)) s, Good l m (fun s => J s ∧ c (s.proc p)) s →
      (s.proc p).held = none := by
    intro l s hs
    by_contra hne
    have hstage := (hs.1.stuck p hne).2
    rw [(hE.outside _ hs.2.2).2] at hstage
    cases hstage
  refine (beginTx_spec hT').bind fun _ => (namex_spec hT'.ref p path false).bind fun r => ?_
  rcases r with _ | ⟨ip, name⟩
  · exact (endTx_spec hT').post fun _ s hs => ⟨hs.1, hs.2.1⟩
  refine Triple.exists fun n => (ilock_spec hT'.ref.toEntryStable ip).bind fun _ =>
    Triple.get fun s hs => ?_
  split
  · refine Triple.bind (Q := fun _ => Good l m J) ?_ fun _ => endTx_spec hT
    refine Triple.modify fun t ht => ?_
    subst ht
    refine ⟨hs.1.setPointers (fun jp => ?_) (fun _ => rfl) ?_ ?_ ?_, hE.stuck t ip hs.2.1 hs.2.2⟩
    · rw [List.map_cons, count_cons_points, procInodes, procInodes, hheld _ t hs, points_none]
      dsimp only
      omega
    · exact fun x hx => hs.1.known x (List.mem_cons_of_mem _ hx)
    · dsimp only
      rw [(hE.outside _ hs.2.2).1]
      exact ⟨by simp, by simp⟩
    · exact fun _ => ⟨(hE.outside _ hs.2.2).1, rfl⟩
  · refine Triple.bind ((ilock_spec hT'.ref.toEntryStable ip).pre fun t (ht : t = s) => ht ▸ hs)
      fun _ => ?_
    exact (iput_end_spec hT' ip n).post fun _ s hs => ⟨hs.1, hs.2.1⟩
  · rename_i hend
    have hhow : how = .done := by
      split at hend
      · exact hend
      · cases hend
    refine Triple.bind ((ilock_spec hT'.ref.toEntryStable ip).pre fun t (ht : t = s) => ht ▸ hs)
      fun _ => ?_
    have hdup := idup_spec (l := (ip, n) :: l) (m := m) hT'.ref.toEntryStable ip n
    refine Triple.bind (hdup.pre fun t ht => ?_) fun dup => ?_
    · exact ⟨ht, ht.1.ref_pos List.mem_cons_self, ht.1.known (ip, n) List.mem_cons_self⟩
    -- the pointer to the old executable is overwritten
    refine Triple.bind (Q := fun _ t => ∃ t₀, (dup = ip ∧
      Good ((ip, n) :: (ip, n) :: l) m (fun s => J s ∧ c (s.proc p)) t₀) ∧
      t = { t₀ with lost := fun jp => t₀.lost jp + points (t₀.proc p).execIp jp }) ?_ fun _ => ?_
    · exact Triple.modify fun t ht => ⟨t, ht, rfl⟩
    refine Triple.exists fun t₀ => ?_
    refine Triple.bind (Q := fun _ => Good ((ip, n) :: l) m J) ?_ fun _ => iput_end_spec hT ip n
    rintro t ⟨⟨rfl, ht⟩, rfl⟩ u s' he
    cases he
    refine ⟨?_, hE.done hhow t₀ dup ht.2.1 ht.2.2⟩
    refine ht.1.setProc (fun jp => ?_) (fun _ => rfl) ?_ ?_ ?_ ?_
    · simp only [procInodes, List.map_cons, count_cons_points]
      omega
    · exact fun x hx => ht.1.known x (List.mem_cons_of_mem _ hx)
    · dsimp only
      rw [(hE.outside _ ht.2.2).1]
      simp
    · dsimp only
      rw [(hE.outside _ ht.2.2).1]
      simp
    · exact fun h => absurd (hheld _ t₀ ht) h

/-! ## Swap files -/

/-- `p->swapfile = f` takes the file from the program. -/
theorem Owns.setSwapfile {m' : List FilePtr} {v : Option FilePtr} (h : Owns l m s)
    (hp : Present p s)
    (hm : ∀ f, points v f + m'.count f = points (s.proc p).swapfile f + m.count f) :
    Owns l m' (s.setProc p { s.proc p with swapfile := v }) := by
  refine h.setPointers (fun _ => rfl) (fun f => ?_) h.known hp (h.stuck p)
  have hf := hm f
  unfold procFiles
  dsimp only
  omega

theorem swapfileOpen_spec (hT : TxStable I J) (hC : Creates J) (p : Fin nproc)
    (hp : ∀ s, J s → Present p s)
    (hset : ∀ s f, J s → J (s.setProc p { s.proc p with swapfile := some f })) (room : Bool) :
    Triple (Good l m I) (swapfileOpen p room) fun _ => Good l m I := by
  refine Triple.get fun s hs => ?_
  split
  · exact Triple.pure fun t ht => ht ▸ hs
  rename_i hnone
  have hc : Steady fun e => e.swapfile = none := ⟨fun _ _ _ h => h, fun _ _ h => h⟩
  have hT' := hT.steady hc p
  have hweak : ∀ (_ : Unit) s, Good l m (fun s => I s ∧ (s.proc p).swapfile = none) s →
      Good l m I s :=
    fun _ s hs => ⟨hs.1, hs.2.1⟩
  refine Triple.bind ((beginTx_spec (l := l) (m := m) hT').pre fun t ht => ?_) fun _ => ?_
  · subst ht
    exact ⟨hs.1, hs.2, hnone⟩
  refine (hC.steady (c := fun e => e.swapfile = none) p l m p _ .file room (by simp)).bind
    fun r => ?_
  cases r with
  | none => exact (endTx_spec hT').post hweak
  | some ip =>
    refine Triple.exists fun n => ?_
    refine Triple.bind ((filealloc_spec (K := fun _ => True) hT'.inside).pre fun t ht =>
      ⟨ht, trivial⟩) fun r => ?_
    cases r with
    | none => exact ((iput_end_spec hT' ip n).pre fun t ht => ht.1).post hweak
    | some f =>
      refine Triple.bind ((setKind_spec (l := l) (m := f :: m) hT'.inside f ip n
        (show (FileKind.inode ip).ip = some ip from rfl)).pre fun t ht => ?_) fun _ => ?_
      · exact ⟨ht.1.1, by rw [ht.2]; rfl, ht.1.1.1.file_pos List.mem_cons_self⟩
      refine Triple.bind (Q := fun _ => Good l m J) ?_ fun _ => endTx_spec hT
      refine Triple.modify fun t ht => ⟨ht.1.setSwapfile (hp t ht.2.1) fun g => ?_,
        hset t f ht.2.1⟩
      rw [ht.2.2, points_none, count_cons_points, Nat.zero_add]

theorem swapfileUnlink_spec (hT : TxStable I J) (hD : DiskFree J) (p : Fin nproc) :
    Triple (Good l m I) (swapfileUnlink p) fun _ => Good l m I := by
  refine Triple.get fun s hs => ?_
  refine Triple.bind ((beginTx_spec (l := l) (m := m) hT).pre fun t (ht : t = s) => ht ▸ hs)
    fun _ => ?_
  refine (namex_spec hT.ref p _ true).bind fun r => ?_
  rcases r with _ | ⟨dp, name⟩
  · exact endTx_spec hT
  refine Triple.exists fun k => (ilock_spec hT.ref.toEntryStable dp).bind fun _ => ?_
  refine (dirlookup_spec hT.ref dp name).bind fun r => ?_
  cases r with
  | none => exact iput_end_spec hT dp k
  | some ip =>
    refine Triple.exists fun n => (ilock_spec hT.ref.toEntryStable ip).bind fun _ => ?_
    refine (removeEntry_spec hD dp name).bind fun _ => (setNlink_spec hD ip _).bind fun _ => ?_
    exact (iput_spec hT.ref ip n).bind fun _ => iput_end_spec hT dp k

/-! ## Exit -/

/-- What `kexit` needs to know: that the swap file is unlinked, closed and forgotten, and that the
process has come to its end. -/
structure Exits (I : Files → Prop) (p : Fin nproc) : Prop where
  unlink : ∀ (l : List (InodePtr × Nat)) (m : List FilePtr), Triple
    (Good l m fun s => I s ∧ (s.proc p).At .exiting ∧ (s.proc p).swapfile ≠ none)
    (do swapfileUnlink p; setProcM p fun e => { e with stage := .unlinked })
    fun _ => Good l m I
  close : ∀ s, I s → (s.proc p).At .unlinked → I (s.setProc p { s.proc p with swapfile := none })
  zombie : ∀ s, I s → (s.proc p).swapfile = none →
    I (s.setProc p { s.proc p with state := .zombie, stage := .outside })

theorem exitNext_spec (hT : TxStable I J) (hE : Exits I p) :
    Triple (Good l m fun s => I s ∧ ((s.proc p).At .exiting ∨ (s.proc p).At .unlinked))
      (exitNext p) fun _ => Good l m I := by
  refine Triple.get fun s hs => ?_
  have hgood : Good l m I s := ⟨hs.1, hs.2.1⟩
  have hp : Present p s := hs.2.2.elim (·.present) (·.present)
  have hheld : (s.proc p).held = none := by
    by_contra hne
    have hstuck := (hs.1.stuck p hne).2
    rcases hs.2.2 with h | h <;> cases h.2.symm.trans hstuck
  split
  · split
    · rename_i fd _ _ f hf
      rintro t rfl u s' he
      obtain ⟨_, t', hclose, hset⟩ := bind_run.mp he
      cases hset
      exact (ProcFree.fileclose f).putFd hT.out (fileclose_spec hT f) hgood hp hf hclose
    · exact Triple.pure fun t ht => ht ▸ hgood
  · rename_i hnone
    split
    · rename_i ip hip
      rintro t rfl u s' he
      have hfree : ProcFree (do beginTx; iput ip; endTx) :=
        ProcFree.beginTx.bind fun _ => (ProcFree.iput ip).bind fun _ => .endTx
      obtain ⟨_, t₁, h₁, he⟩ := bind_run.mp he
      obtain ⟨_, t₂, h₂, he⟩ := bind_run.mp he
      obtain ⟨_, t₃, h₃, he⟩ := bind_run.mp he
      cases he
      refine hfree.putCwd (J := I) hT.out (fun n => ?_) hgood hp hip
        (bind_run.mpr ⟨_, _, h₁, bind_run.mpr ⟨_, _, h₂, h₃⟩⟩)
      exact (beginTx_spec hT).bind fun _ => iput_end_spec hT ip n
    · rename_i hcwd
      split
      · rename_i f hf
        refine Triple.ite (fun hexit => ?_) fun hexit => ?_
        · refine (hE.unlink l m).pre fun t ht => ?_
          subst ht
          refine ⟨hs.1, hs.2.1, ⟨hs.2.2.elim (·.1) (·.1), hexit⟩, ?_⟩
          rw [hf]
          simp
        · rintro t rfl u s' he
          obtain ⟨_, t', hclose, hset⟩ := bind_run.mp he
          cases hset
          -- the file is closed before the pointer is cleared
          have hclear : Good l (f :: m) I (t.setProc p { t.proc p with swapfile := none }) := by
            refine ⟨hs.1.setSwapfile hp fun g => ?_,
              hE.close t hs.2.1 (hs.2.2.resolve_left fun h => hexit h.2)⟩
            rw [hf, points_none, count_cons_points, Nat.zero_add]
          have hend := (ProcFree.fileclose f).triple (fileclose_spec hT f) hclear hclose
          rw [← (ProcFree.fileclose f).proc_eq hclose] at hend
          exact hend
      · rename_i hswap
        refine Triple.modify fun t ht => ?_
        subst ht
        refine ⟨hs.1.setProc (fun _ => rfl) (fun _ => rfl) hs.1.known (by simp) (fun _ => ?_)
          (fun h => absurd hheld h), hE.zombie t hs.2.1 hswap⟩
        refine ⟨fun fd => ?_, hcwd, hswap⟩
        have hfd := Fin.find?_eq_none_iff.mp hnone fd
        simpa using hfd

/-! ## Steps -/

/-- What a step needs to know: that new files keep `J`, and what its own call has to keep. An
`exec`, a `wait` and a `link` may do so only from where they are done. -/
structure StepRules (I J : Files → Prop) (s : Files) (a : FileAct) : Prop where
  tx : TxStable I J
  creates : Creates J
  fork : ∀ p np memory, a = .fork p np memory → (s.proc np).state = .unused → Forks I I np
  exec : ∀ p path how, a = .exec p path how → (s.proc p).At .outside →
    ∀ u t, kexecFiles p path how s = some (u, t) → Good [] [] I t
  swapfile : ∀ p room, a = .swapfileCreate p room → ∀ t f, J t →
    J (t.setProc p { t.proc p with swapfile := some f })
  outside : ∀ p room, a = .swapfileCreate p room → ∀ t, I t →
    I (t.setProc p { t.proc p with stage := .outside })
  exit : ∀ p, a = .exit p → I (s.setProc p { s.proc p with stage := .exiting })
  exits : ∀ p, a = .exitNext p → Exits I p
  wait : ∀ p c, a = .wait p c → (s.proc c).state = .zombie →
    ∀ u t, freeprocFiles c s = some (u, t) → Good [] [] I t
  link : ∀ p old new room, a = .link p old new room →
    ∀ u t, sysLink p old new room s = some (u, t) → Good [] [] I t
  unlink : ∀ p path, a = .unlink p path → Triple (Good [] [] I) (sysUnlink p path) fun _ =>
    Good [] [] I

theorem StepRules.swapfileCreate {room : Bool} {stage : Stage}
    (h : StepRules I J s (.swapfileCreate p room)) (hstage : stage ≠ .stuck) :
    Triple (Good [] [] fun s => I s ∧ (s.proc p).At stage) (FileAct.swapfileCreate p room).run
      fun _ => Good [] [] I := by
  have hopen := swapfileOpen_spec (l := []) (m := []) (h.tx.steady (at_steady stage) p)
    (h.creates.steady p) p (fun s hs => hs.2.present)
    (fun s f hs => ⟨h.swapfile p room rfl s f hs.1, by rw [setProc_proc]; exact hs.2⟩) room
  refine hopen.bind fun _ => Triple.modify fun s hs => ⟨?_, h.outside p room rfl s hs.2.1⟩
  exact hs.1.setStage hs.2.2 hstage _

/-- **One step.** -/
theorem step_rule {s' : Files} {a : FileAct} (h : StepRules I J s a) (hs : Good [] [] I s)
    (hstep : s.step a = some s') : Good [] [] I s' := by
  unfold Files.step at hstep
  split at hstep
  swap
  · cases hstep
  rename_i hcan
  obtain ⟨hrun, hfits, happlies⟩ := hcan
  obtain ⟨⟨u, t⟩, hprog, rfl⟩ := Option.map_eq_some_iff.mp hstep
  -- a call of a process that is in no other
  have hcall : ∀ p {prog : FileM Unit}, (s.proc p).At .outside →
      Triple (Good [] [] fun s => I s ∧ (s.proc p).At .outside) prog
        (fun _ => Good [] [] fun s => I s ∧ (s.proc p).At .outside) →
      prog s = some (u, t) → Good [] [] I t := by
    intro p prog hat hspec hprog
    have hend := hspec s ⟨hs.1, hs.2, hat⟩ u t hprog
    exact ⟨hend.1, hend.2.1⟩
  have hT := fun p => h.tx.steady (at_steady .outside) p
  have hp : ∀ p (K : Files → Prop) s, K s ∧ (s.proc p).At .outside → Present p s :=
    fun p K s hs => hs.2.present
  cases a with
  | fork p np memory =>
    have hnp : (s.proc np).state = .unused := by simpa [FileAct.applies] using happlies
    have hne : p ≠ np := by
      rintro rfl
      rw [show (s.proc p).state = .runnable from hrun] at hnp
      cases hnp
    exact kforkFiles_spec (h.fork p np memory rfl hnp) hne memory s ⟨hs, hnp⟩ u t hprog
  | exec p path how =>
    exact h.exec p path how rfl ⟨hrun, beq_iff_eq.mp hfits⟩ u t hprog
  | swapfileCreate p room =>
    refine h.swapfileCreate ?_ s ⟨hs.1, hs.2, hrun, rfl⟩ u t hprog
    intro hstuck
    change (_ == _ || _ == _) = true at hfits
    rw [show (s.proc (FileAct.swapfileCreate p room).actor).stage = .stuck from hstuck] at hfits
    cases hfits
  | exit p =>
    cases hprog
    exact ⟨hs.1.setStage ⟨hrun, beq_iff_eq.mp hfits⟩ (by simp) _, h.exit p rfl⟩
  | exitNext p =>
    refine exitNext_spec h.tx (h.exits p rfl) s ⟨hs.1, hs.2, ?_⟩ u t hprog
    have hstage := (Bool.or_eq_true _ _).mp hfits
    exact hstage.imp (fun h => ⟨hrun, beq_iff_eq.mp h⟩) fun h => ⟨hrun, beq_iff_eq.mp h⟩
  | wait p c =>
    exact h.wait p c rfl (by simpa [FileAct.applies] using happlies) u t hprog
  | openFile p path creat rdonly room major =>
    exact hcall p ⟨hrun, beq_iff_eq.mp hfits⟩
      (sysOpen_spec (hT p) (h.creates.steady p) p (hp p J) path creat rdonly room major) hprog
  | close p fd =>
    exact hcall p ⟨hrun, beq_iff_eq.mp hfits⟩ (sysClose_spec (hT p) p (hp p I) fd) hprog
  | dup p fd =>
    exact hcall p ⟨hrun, beq_iff_eq.mp hfits⟩ (sysDup_spec (hT p).out p (hp p I) fd) hprog
  | chdir p path =>
    exact hcall p ⟨hrun, beq_iff_eq.mp hfits⟩ (sysChdir_spec (hT p) p (hp p I) (hp p J) path) hprog
  | link p old new room => exact h.link p old new room rfl u t hprog
  | unlink p path => exact h.unlink p path rfl s hs u t hprog
  | make p path type room =>
    have htype : type ≠ .free := by simpa [FileAct.applies] using happlies
    exact sysMake_spec h.tx h.creates p path htype room s hs u t hprog
  | pipe p memory copied =>
    exact hcall p ⟨hrun, beq_iff_eq.mp hfits⟩ (sysPipe_spec (hT p) p (hp p I) memory copied) hprog

/-- `wait`, where the last reference to an executable may go. -/
theorem wait_good {c : Fin nproc} {s' : Files} {u : Unit} (hJ : RefStable J) (hs : Good [] [] I s)
    (hzombie : (s.proc c).state = .zombie)
    (hclear : ∀ t, I t → (t.proc c).swapfile = none → J (t.setProc c (t.proc c).freed))
    (hrun : freeprocFiles c s = some (u, s')) : Good [] [] J s' := by
  have hover := hs.1.zombie_over hzombie
  have hpre : Good [] [] (fun t => I t ∧ (t.proc c).swapfile = none) s :=
    ⟨hs.1, hs.2, hover.swapfile⟩
  cases hip : (s.proc c).execIp with
  | none =>
    exact freeprocFiles_none_spec c (fun t ht => hclear t ht.1 ht.2) s ⟨hpre, hover, hip⟩ u s' hrun
  | some ip =>
    exact freeprocFiles_some_spec c ip (fun t ht => hclear t ht.1 ht.2)
      (fun n => iput_spec hJ ip n) s ⟨hpre, hover, hip⟩ u s' hrun

/-- What has nothing to do with processes. -/
structure Unowned (I : Files → Prop) : Prop where
  entry : EntryStable I
  out : ∀ s g, I s → I { s with proc := g }
  pids : ∀ s n, I s → I { s with nextpid := n }

theorem Unowned.forks (h : Unowned I) (hT : TxStable I J) (np : Fin nproc) : Forks I I np where
  file := hT.out
  entry := h.entry
  new s hs := h.out _ _ (h.pids s _ hs)
  start s _ hs _ := h.out s _ hs
  freed s hs _ := h.out s _ hs

/-- Unlinking the swap file, and what `kexit` notes then. -/
theorem unlinkSwap_spec (p : Fin nproc)
    (hunlink : Triple (Good l m I) (swapfileUnlink p) fun _ => Good l m I)
    (hstage : ∀ s, I s → J (s.setProc p { s.proc p with stage := .unlinked })) :
    Triple (Good l m fun s => I s ∧ (s.proc p).At .exiting ∧ (s.proc p).swapfile ≠ none)
      (do swapfileUnlink p; setProcM p fun e => { e with stage := .unlinked }) fun _ =>
        Good l m J := by
  have hat := swapfileUnlink_spec (l := l) (m := m) ((at_steady .exiting).txStable p)
    (fun _ _ _ hs => hs) p
  refine Triple.bind ((hunlink.and hat).pre fun s hs => ⟨⟨hs.1, hs.2.1⟩, hs.1, hs.2.2.1⟩)
    fun _ => ?_
  exact Triple.modify fun s hs => ⟨hs.1.1.setStage hs.2.2 (by simp) _, hstage s hs.1.2⟩

theorem Unowned.exits (h : Unowned I) (p : Fin nproc)
    (hunlink : ∀ (l : List (InodePtr × Nat)) (m : List FilePtr),
      Triple (Good l m I) (swapfileUnlink p) fun _ => Good l m I) : Exits I p where
  unlink l m := unlinkSwap_spec p (hunlink l m) fun s hs => h.out s _ hs
  close s hs _ := h.out s _ hs
  zombie s hs _ := h.out s _ hs

end

end Xv6Paging
