import Xv6Paging.Proof.FileRefs

/-!
# What the system calls do with references

The calls of `sysfile.c` own nothing before and nothing after. `I` is what holds outside
of transactions and `J` what holds inside (`TxStable`). The calls that make files also need
to know that these keep `J` (`Creates`), and those that write link counts a `J` that does not
depend on the disk (`DiskFree`).
-/

namespace Xv6Paging

open Lib

section

variable {l : List (InodePtr × Nat)} {m : List FilePtr} {I J : Files → Prop}

/-! ## Files -/

theorem openInode_spec (hJ : RefStable J) (hC : Creates J) (p : Fin nproc) (path : FsPath)
    (creat rdonly room : Bool) : Triple (Good l m J) (openInode p path creat rdonly room)
      fun r => GoodWith r l m J := by
  refine Triple.ite (fun _ => hC l m p path .file room (by simp)) fun _ => ?_
  refine (namex_spec hJ p path false).bind fun r => ?_
  rcases r with _ | ⟨ip, name⟩
  · exact Triple.pure fun s hs => hs
  refine Triple.exists fun n => (ilock_spec hJ.toEntryStable ip).bind fun _ =>
    Triple.get fun s hs => ?_
  refine Triple.ite (fun _ => ?_) fun _ => Triple.pure fun t ht => ⟨n, ht ▸ hs⟩
  exact ((iput_spec hJ ip n).pre fun t ht => ht ▸ hs).bind fun _ => Triple.pure fun s hs => hs

/-- `iput(ip); end_op()`. -/
theorem iput_end_spec (hT : TxStable I J) (ip : InodePtr) (n : Nat) :
    Triple (Good ((ip, n) :: l) m J) (do iput ip; endTx) fun _ => Good l m I :=
  (iput_spec hT.ref ip n).bind fun _ => endTx_spec hT

theorem sysOpen_spec (hT : TxStable I J) (hC : Creates J) (p : Fin nproc)
    (hp : ∀ s, J s → Present p s) (path : FsPath) (creat rdonly room major : Bool) :
    Triple (Good l m I) (sysOpen p path creat rdonly room major) fun _ => Good l m I := by
  refine (beginTx_spec hT).bind fun _ => (openInode_spec hT.ref hC p path creat rdonly room).bind
    fun r => ?_
  cases r with
  | none => exact endTx_spec hT
  | some ip =>
    refine Triple.exists fun n => Triple.get fun s hs => Triple.ite (fun _ => ?_) fun _ => ?_
    · exact (iput_end_spec hT ip n).pre fun t ht => ht ▸ hs
    refine Triple.bind ((filealloc_spec (K := fun _ => True) hT.inside).pre fun t ht =>
      ⟨ht ▸ hs, trivial⟩) fun r => ?_
    cases r with
    | none => exact (iput_end_spec hT ip n).pre fun t ht => ht.1
    | some f =>
      have hfd := fdalloc_spec (l := (ip, n) :: l) (m := m) p hT.inside hp f
        (K := fun t => (t.kinds f).ip = none ∧ 0 < (t.ftable f).ref)
        (R := fun _ t => (t.kinds f).ip = none ∧ 0 < (t.ftable f).ref) fun t fd hk _ => hk
      refine Triple.bind (hfd.pre fun t ht => ?_) fun r => ?_
      · exact ⟨ht.1.1, by rw [ht.2]; rfl, ht.1.1.1.file_pos List.mem_cons_self⟩
      cases r with
      | none =>
        refine Triple.bind (Q := fun _ => Good ((ip, n) :: l) m J) ?_ fun _ =>
          iput_end_spec hT ip n
        exact (fileclose_none_spec hT.inside f).pre fun t ht => ⟨ht.1, ht.2.1⟩
      | some fd =>
        refine Triple.bind (Q := fun _ => Good l m J) ?_ fun _ => endTx_spec hT
        refine (setKind_spec hT.inside f ip n ?_).pre fun t ht => ⟨ht.1.1, ht.1.2⟩
        split <;> rfl

theorem sysClose_spec (hT : TxStable I J) (p : Fin nproc) (hp : ∀ s, I s → Present p s)
    (fd : Fin nofile) : Triple (Good l m I) (sysClose p fd) fun _ => Good l m I := by
  refine Triple.get fun s hs => ?_
  split
  · exact Triple.pure fun t ht => ht ▸ hs
  · rename_i f hf
    refine Triple.bind (Q := fun _ => Good l (f :: m) I) ?_ fun _ => fileclose_spec hT f
    refine Triple.modify fun t ht => ?_
    subst ht
    exact hs.clearFd hT.out (hp _ hs.2) hf

theorem sysDup_spec (hI : FileStable I) (p : Fin nproc) (hp : ∀ s, I s → Present p s)
    (fd : Fin nofile) : Triple (Good l m I) (sysDup p fd) fun _ => Good l m I := by
  refine Triple.get fun s hs => ?_
  split
  · exact Triple.pure fun t ht => ht ▸ hs
  · rename_i f hf
    rintro t rfl u s' he
    -- the descriptor comes before the reference; the other order gives the same state
    obtain ⟨r, t', halloc, hdup⟩ := bind_run.mp he
    unfold fdalloc at halloc
    split at halloc
    · rename_i fd' hfind
      cases halloc
      have hfree : (t.proc p).ofile fd' = none := by simpa using (Fin.find?_eq_some_iff.mp hfind).1
      change filedup f _ = _ at hdup
      unfold filedup at hdup
      split at hdup
      · cases hdup
      · rename_i hpos
        cases hdup
        have href : Good l (f :: m) I
            (t.setFile f { t.ftable f with ref := (t.ftable f).ref + 1 }) :=
          filedup_spec hI f t hs () _ (if_neg hpos)
        exact href.storeFd hI (hp _ href.2) hfree
    · cases halloc
      cases hdup
      exact hs

theorem sysChdir_spec (hT : TxStable I J) (p : Fin nproc) (hpI : ∀ s, I s → Present p s)
    (hp : ∀ s, J s → Present p s) (path : FsPath) : Triple (Good l m I) (sysChdir p path) fun _ =>
      Good l m I := by
  refine (beginTx_spec hT).bind fun _ => (namex_spec hT.ref p path false).bind fun r => ?_
  rcases r with _ | ⟨ip, name⟩
  · exact endTx_spec hT
  refine Triple.exists fun n => (ilock_spec hT.ref.toEntryStable ip).bind fun _ =>
    Triple.get fun s hs => ?_
  refine Triple.ite (fun _ => (iput_end_spec hT ip n).pre fun t ht => ht ▸ hs) fun _ => ?_
  split
  · exact Triple.failure
  · rename_i c hcwd
    rintro t rfl u s' he
    obtain ⟨_, t₁, hput, hrest⟩ := bind_run.mp he
    cases hrest
    -- the old directory is given back before the pointer is overwritten
    have hfree : ProcFree (do iput c; endTx) := (ProcFree.iput c).bind fun _ => .endTx
    have hclear := hfree.putCwd (l := (ip, n) :: l) (m := m) (J := I) hT.inside
      (fun k => iput_end_spec hT c k) hs (hp _ hs.2) hcwd (bind_run.mpr ⟨_, _, hput, rfl⟩)
    have hset : Good l m I _ := hclear.setCwd (v := some ip) (p := p) hT.out (hpI _ hclear.2) ?_ ?_
    · rw [setProc_setProc, setProc_proc] at hset
      exact hset
    · intro jp
      rw [setProc_proc, List.map_cons, count_cons_points, points_none, Nat.zero_add]
    · exact fun x hx => hclear.1.known x (List.mem_cons_of_mem _ hx)

/-! ## Links -/

theorem linkInode_spec (hJ : RefStable J) (hD : DiskFree J) (p : Fin nproc) (ip : InodePtr)
    (new : FsPath) (room : Bool) :
    Triple (Good l m J) (linkInode p ip new room) fun _ => Good l m J := by
  refine (namex_spec hJ p new true).bind fun r => ?_
  rcases r with _ | ⟨dp, name⟩
  · exact Triple.pure fun s hs => hs
  refine Triple.exists fun k => (ilock_spec hJ.toEntryStable dp).bind fun _ =>
    Triple.get fun s hs => ?_
  refine Triple.bind ((dirlink_spec hJ hD dp name _ room).pre fun t (ht : t = s) => ht ▸ hs)
    fun linked => ?_
  exact (iput_spec hJ dp k).bind fun _ => Triple.pure fun s hs => hs

theorem sysLink_spec (hT : TxStable I J) (hD : DiskFree J) (p : Fin nproc) (old new : FsPath)
    (room : Bool) : Triple (Good l m I) (sysLink p old new room) fun _ => Good l m I := by
  refine (beginTx_spec hT).bind fun _ => (namex_spec hT.ref p old false).bind fun r => ?_
  rcases r with _ | ⟨ip, name⟩
  · exact endTx_spec hT
  refine Triple.exists fun n => (ilock_spec hT.ref.toEntryStable ip).bind fun _ =>
    Triple.get fun s hs => ?_
  refine Triple.ite (fun _ => (iput_end_spec hT ip n).pre fun t ht => ht ▸ hs) fun _ => ?_
  refine Triple.bind ((setNlink_spec hD ip _).pre fun t (ht : t = s) => ht ▸ hs) fun _ => ?_
  refine (linkInode_spec hT.ref hD p ip new room).bind fun linked => ?_
  refine Triple.ite (fun _ => iput_end_spec hT ip n) fun _ => ?_
  refine (ilock_spec hT.ref.toEntryStable ip).bind fun _ => ?_
  exact (setNlink_spec hD ip _).bind fun _ => iput_end_spec hT ip n

theorem removeEntry_spec (hD : DiskFree J) (dp : InodePtr) (name : Name) :
    Triple (Good l m J) (removeEntry dp name) fun _ => Good l m J :=
  modify_spec (fun _ => ⟨rfl, rfl, rfl, rfl⟩) fun s hs => hD s _ _ hs.2

theorem unlinkInode_spec (hT : TxStable I J) (hD : DiskFree J) (dp ip : InodePtr) (name : Name)
    (k n : Nat) : Triple (Good ((ip, n) :: (dp, k) :: l) m J) (unlinkInode dp ip name)
      fun _ => Good l m I := by
  refine (ilock_spec hT.ref.toEntryStable ip).bind fun _ => Triple.get fun s hs => ?_
  refine Triple.ite (fun _ => Triple.failure) fun _ => Triple.ite (fun _ => ?_) fun _ => ?_
  · exact ((iput_spec hT.ref ip n).pre fun t ht => ht ▸ hs).bind fun _ => iput_end_spec hT dp k
  · refine Triple.bind ((removeEntry_spec hD dp name).pre fun t (ht : t = s) => ht ▸ hs) fun _ => ?_
    refine (countDotDot_spec hD _ dp _).bind fun _ => ?_
    refine Triple.bind (Q := fun _ => Good ((ip, n) :: l) m J) ?_ fun _ => ?_
    · exact (iput_spec hT.ref dp k).pre fun t ht => ht.swap
    · exact (setNlink_spec hD ip _).bind fun _ => iput_end_spec hT ip n

theorem sysUnlink_spec (hT : TxStable I J) (hD : DiskFree J) (p : Fin nproc) (path : FsPath) :
    Triple (Good l m I) (sysUnlink p path) fun _ => Good l m I := by
  refine (beginTx_spec hT).bind fun _ => (namex_spec hT.ref p path true).bind fun r => ?_
  rcases r with _ | ⟨dp, name⟩
  · exact endTx_spec hT
  refine Triple.exists fun k => (ilock_spec hT.ref.toEntryStable dp).bind fun _ => ?_
  refine Triple.ite (fun _ => iput_end_spec hT dp k) fun _ => ?_
  refine (dirlookup_spec hT.ref dp name).bind fun r => ?_
  cases r with
  | none => exact iput_end_spec hT dp k
  | some ip => exact Triple.exists fun n => unlinkInode_spec hT hD dp ip name k n

theorem sysMake_spec (hT : TxStable I J) (hC : Creates J) (p : Fin nproc) (path : FsPath)
    {type : InodeType} (htype : type ≠ .free) (room : Bool) :
    Triple (Good l m I) (sysMake p path type room) fun _ => Good l m I := by
  refine (beginTx_spec hT).bind fun _ => (hC l m p path type room htype).bind fun r => ?_
  cases r with
  | none => exact endTx_spec hT
  | some ip => exact Triple.exists fun n => iput_end_spec hT ip n

/-! ## Pipes -/

/-- Both ends of a pipe that did not come about. -/
theorem fileclose_two_spec (hT : TxStable I J) (rf wf : FilePtr) :
    Triple (Good l (rf :: wf :: m) I) (do fileclose rf; fileclose wf) fun _ => Good l m I :=
  (fileclose_spec hT rf).bind fun _ => fileclose_spec hT wf

theorem clearFd_spec (hI : FileStable I) (p : Fin nproc) (hp : ∀ s, I s → Present p s)
    (fd : Fin nofile) (f : FilePtr) {K : Files → Prop}
    (hK : ∀ s, K s → K (s.setProc p ((s.proc p).setFd fd none))) :
    Triple (fun s => (Good l m I s ∧ (s.proc p).ofile fd = some f) ∧ K s)
      (setProcM p fun e => e.setFd fd none) fun _ s => Good l (f :: m) I s ∧ K s :=
  Triple.modify fun s hs => ⟨hs.1.1.clearFd hI (hp s hs.1.1.2) hs.1.2, hK s hs.2⟩

theorem setFd_ofile_ne {s : Files} {p : Fin nproc} {fd fd' : Fin nofile} {v : Option FilePtr}
    (h : fd' ≠ fd) : ((s.setProc p ((s.proc p).setFd fd v)).proc p).ofile fd' =
      (s.proc p).ofile fd' := by
  rw [setProc_proc]
  exact Function.update_of_ne h ..

theorem pipeFds_spec (hT : TxStable I J) (p : Fin nproc) (hp : ∀ s, I s → Present p s)
    (rf wf : FilePtr) (copied : Bool) :
    Triple (Good l (rf :: wf :: m) I) (pipeFds p rf wf copied) fun _ => Good l m I := by
  have hrf := fdalloc_spec (l := l) (m := wf :: m) p hT.out hp rf (K := fun _ => True)
    (R := fun _ _ => True) fun _ _ _ _ => trivial
  refine Triple.bind (hrf.pre fun t ht => ⟨ht, trivial⟩) fun r => ?_
  cases r with
  | none => exact (fileclose_two_spec hT rf wf).pre fun t ht => ht.1
  | some fd0 =>
    have hwf := fdalloc_spec (l := l) (m := m) p hT.out hp wf
      (K := fun t => (t.proc p).ofile fd0 = some rf)
      (R := fun fd1 t => (t.proc p).ofile fd0 = some rf ∧ fd1 ≠ fd0) fun t fd hk hnone => by
        have hne : fd ≠ fd0 := by
          rintro rfl
          rw [hk] at hnone
          cases hnone
        exact ⟨(setFd_ofile_ne hne.symm).trans hk, hne⟩
    refine Triple.bind (hwf.pre fun t ht => ⟨ht.1.1, ht.2⟩) fun r => ?_
    cases r with
    | none =>
      have hclear := clearFd_spec (l := l) (m := wf :: m) hT.out p hp fd0 rf
        (K := fun _ => True) fun _ _ => trivial
      refine Triple.bind (hclear.pre fun t ht => ⟨ht, trivial⟩) fun _ => ?_
      exact (fileclose_two_spec hT rf wf).pre fun t ht => ht.1
    | some fd1 =>
      refine Triple.ite (fun _ => Triple.pure fun t ht => ht.1.1) fun _ => ?_
      refine Triple.fact (c := fd1 ≠ fd0) (fun t ht => ht.1.2.2) fun hne => ?_
      have hclear0 := clearFd_spec (l := l) (m := m) hT.out p hp fd0 rf
        (K := fun t => (t.proc p).ofile fd1 = some wf) fun t hk =>
          (setFd_ofile_ne hne).trans hk
      have hclear1 := clearFd_spec (l := l) (m := rf :: m) hT.out p hp fd1 wf
        (K := fun _ => True) fun _ _ => trivial
      refine Triple.bind (hclear0.pre fun t ht => ⟨⟨ht.1.1, ht.1.2.1⟩, ht.2⟩) fun _ => ?_
      refine Triple.bind (hclear1.pre fun t ht => ⟨ht, trivial⟩) fun _ => ?_
      exact (fileclose_two_spec hT rf wf).pre fun t ht => ht.1.perm (.refl _) (.swap ..)

theorem sysPipe_spec (hT : TxStable I J) (p : Fin nproc) (hp : ∀ s, I s → Present p s)
    (memory copied : Bool) :
    Triple (Good l m I) (sysPipe p memory copied) fun _ => Good l m I := by
  have halloc := filealloc_spec (l := l) (m := m) hT.out (K := fun _ => True)
  refine Triple.bind (halloc.pre fun t ht => ⟨ht, trivial⟩) fun r => ?_
  cases r with
  | none => exact Triple.pure fun t ht => ht.1
  | some rf =>
    have halloc :=
      filealloc_spec (l := l) (m := rf :: m) hT.out (K := fun kinds => kinds rf = .none)
    refine Triple.bind (halloc.pre fun t ht => ⟨ht.1.1, ht.2⟩) fun r => ?_
    cases r with
    | none => exact (fileclose_spec hT rf).pre fun t ht => ht.1
    | some wf =>
      refine Triple.ite (fun _ => ?_) fun _ => ?_
      · have hread := setKind_pipe_spec (l := l) (m := rf :: wf :: m) hT.out (f := rf) (g := wf)
          List.mem_cons_self
        have hwrite := setKind_pipe_spec (l := l) (m := rf :: wf :: m) hT.out (f := wf) (g := wf)
          (List.mem_cons_of_mem _ List.mem_cons_self)
        refine Triple.bind (hread.pre fun t ht => ?_) fun _ => ?_
        · rw [ht.1.2, ht.2]
          exact ⟨ht.1.1.perm (.refl _) (.swap ..), rfl, rfl⟩
        · refine Triple.bind (hwrite.pre fun t ht => ⟨ht.1, ht.2, ht.2⟩) fun _ => ?_
          exact (pipeFds_spec hT p hp rf wf copied).pre fun t ht => ht.1
      · exact (fileclose_two_spec hT rf wf).pre fun t ht => ht.1.1.perm (.refl _) (.swap ..)

end

end Xv6Paging
