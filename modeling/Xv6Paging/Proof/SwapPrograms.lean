import Xv6Paging.Proof.SwapNames

/-!
# Opening and unlinking swap files

`swapfile_create` opens the inode that the name leads to, or makes a new one under that
name; `swapfile_cleanup` takes the name out of the root directory and then closes the
file. Between the two the process has a swap file without a name (`Unlinking`).
-/

namespace Xv6Paging

open Lib

variable {k n : Nat} {s : Files} {d : Dinode} {e : Name × Nat} {p : Fin nproc}

/-! ## The root directory -/

/-- The invariant, and what the root directory has. -/
def Rooted (K : List (Name × Nat) → Prop) (s : Files) : Prop := Private s ∧ K s.root

/-- A name is not in it. -/
def NoName (name : Name) (r : List (Name × Nat)) : Prop := r.find? (fun e => e.1 == name) = none

section

variable {l : List (InodePtr × Nat)} {m : List FilePtr} {I : Files → Prop}
  {K : List (Name × Nat) → Prop}

theorem rooted_refStable : RefStable (Rooted K) where
  entry howns hs hcase := ⟨private_entryStable.entry howns hs.1 hcase, hs.2⟩
  free {l m s ip n} howns hs hone hzero := by
    refine ⟨private_refStable.free howns hs.1 hone hzero, ?_⟩
    have hn := (hs.1.toRootOk.not_linked hzero).1
    rw [show (freeInode s ip).root = s.root from setDinode_root hn]
    exact hs.2

theorem rooted_fileStable : FileStable (Rooted K) where
  ref s f n hs := ⟨private_fileStable.ref s f n hs.1, hs.2⟩
  close howns hone hs := ⟨private_fileStable.close howns hone hs.1, hs.2⟩
  kind s f k hs hnone := ⟨private_fileStable.kind s f k hs.1 hnone, hs.2⟩
  fd s p fd v hs := ⟨private_fileStable.fd s p fd v hs.1, hs.2⟩
  cwd s p v hs := ⟨private_fileStable.cwd s p v hs.1, hs.2⟩

theorem rooted_txStable : TxStable (Rooted K) (Rooted K) where
  ref := rooted_refStable
  out := rooted_fileStable
  inside := rooted_fileStable
  enter s hs := ⟨private_txStable.enter s hs.1, hs.2⟩
  leave s hs := ⟨private_txStable.leave s hs.1, hs.2⟩

/-- The directory of a path with one element. -/
theorem namex_root_spec (hI : EntryStable I) (hdir : ∀ s, I s → (s.dinode rootIno).type = .dir)
    (p : Fin nproc) (name : Name) :
    Triple (Good l m I) (namex p { absolute := true, elems := [name] } true) fun r s =>
      ∃ dp, r = some (dp, name) ∧ Good ((dp, rootIno) :: l) m I s := by
  refine Triple.get fun s hs => Triple.ite (fun _ => ?_) fun h => absurd rfl h
  refine Triple.bind ((iget_spec hI rootIno).pre fun t (ht : t = s) => ht ▸ hs)
    fun ip => ?_
  refine (ilock_spec hI ip).bind fun _ => Triple.get fun t ht => ?_
  have htype : (t.disk ip).type = .dir := by
    rw [Files.disk, ht.1.known _ List.mem_cons_self]
    exact hdir t ht.2
  refine Triple.ite (fun h => absurd htype h) fun _ => Triple.ite (fun _ => ?_) fun h =>
    absurd ⟨rfl, rfl⟩ h
  exact Triple.pure fun t' ht' => ⟨ip, rfl, ht' ▸ ht⟩

/-- What a lookup in a directory says about its entries. -/
theorem dirlookup_dir_spec (hI : EntryStable I) {dp : InodePtr} (hdp : (dp, k) ∈ l) (name : Name) :
    Triple (Good l m I) (dirlookup dp name) fun r s =>
      match r with
      | some ip => ∃ n, Good ((ip, n) :: l) m (fun s => I s ∧ (s.dinode k).type = .dir ∧
          HasName name n (s.dinode k).entries) s
      | none => Good l m (fun s => I s ∧ (s.dinode k).type = .dir ∧
          NoName name (s.dinode k).entries) s := by
  refine Triple.get fun s hs => ?_
  have hdisk : s.disk dp = s.dinode k := by rw [Files.disk, hs.1.known _ hdp]
  rw [hdisk]
  refine Triple.ite (fun _ => Triple.failure) fun hdir => ?_
  split
  · rename_i e he
    have hK : EntryStable fun s => I s ∧ (s.dinode k).type = .dir ∧
        HasName name e.2 (s.dinode k).entries :=
      ⟨fun howns hs hcase => ⟨hI.entry howns hs.1 hcase, hs.2⟩⟩
    refine Triple.bind ((iget_spec (l := l) (m := m) hK e.2).pre fun t ht => ?_) fun ip =>
      Triple.pure fun t ht => ⟨_, ht⟩
    subst ht
    exact ⟨hs.1, hs.2, not_not.mp hdir, e, he, rfl⟩
  · rename_i he
    refine Triple.pure fun t ht => ?_
    subst ht
    exact ⟨hs.1, hs.2, not_not.mp hdir, he⟩

theorem dirlookup_root_spec (hI : EntryStable I) {dp : InodePtr} (hdp : (dp, rootIno) ∈ l)
    (name : Name) : Triple (Good l m I) (dirlookup dp name) fun r s =>
      match r with
      | some ip => ∃ n, Good ((ip, n) :: l) m (fun s => I s ∧ HasName name n s.root) s
      | none => Good l m (fun s => I s ∧ NoName name s.root) s := by
  refine (dirlookup_dir_spec hI hdp name).post fun r s hs => ?_
  cases r with
  | none => exact ⟨hs.1, hs.2.1, hs.2.2.2⟩
  | some ip =>
    obtain ⟨n, hs⟩ := hs
    exact ⟨n, hs.1, hs.2.1, hs.2.2.2⟩

/-! ## Opening a swap file -/

/-- The inode is allocated, and nobody has it yet. -/
structure NewFile (n : Nat) (s : Files) : Prop extends Private s where
  notRootDir : n ≠ rootIno
  unnamed : ∀ e ∈ s.root, e.2 ≠ n
  unopened : ∀ q, s.swapInum q ≠ some n
  allocated : (s.dinode n).type ≠ .free

theorem newFile_entryStable (n : Nat) : EntryStable (NewFile n) where
  entry howns hs hcase :=
    { private_entryStable.entry howns hs.toPrivate hcase with
      notRootDir := hs.notRootDir
      unnamed := hs.unnamed
      unopened := fun q hq => by
        obtain ⟨f, ip, hf, hip, hinum⟩ := swapInum_eq_some.mp hq
        rw [fileInum_setInode howns hcase (f := f) hip] at hinum
        exact hs.unopened q (swapInum_eq_some.mpr ⟨f, ip, hf, hip, hinum⟩)
      allocated := hs.allocated }

/-- What is written to the inode does not matter. -/
theorem Private.newFile (h : Private s) (hne : n ≠ rootIno) (hunnamed : ∀ e ∈ s.root, e.2 ≠ n)
    (hunopened : ∀ q, s.swapInum q ≠ some n) (hd : d.type ≠ .free) :
    NewFile n (s.setDinode n d) ∧ (s.setDinode n d).root = s.root := by
  have hroot : (s.setDinode n d).root = s.root := setDinode_root hne
  refine ⟨{ h.setDinode hne hunnamed hunopened with
    notRootDir := hne, unnamed := ?_, unopened := hunopened, allocated := ?_ }, hroot⟩
  · rw [hroot]
    exact hunnamed
  · rw [setDinode_self]
    exact hd

/-- An inode that is free belongs to nobody. -/
theorem Private.alloc_new (h : Private s) (hn : (s.dinode n).type = .free) (hd : d.type ≠ .free) :
    NewFile n (s.setDinode n d) ∧ (s.setDinode n d).root = s.root := by
  refine h.newFile ?_ (fun e he heq => h.alloc e he (heq ▸ hn))
    (fun q hq => (h.swapOk hq).used hn) hd
  rintro rfl
  rw [h.dir] at hn
  cases hn

/-- The root directory with other entries. -/
def Files.setRoot (s : Files) (r : List (Name × Nat)) : Files :=
  s.setDinode rootIno { s.dinode rootIno with entries := r }

theorem setRoot_dir (s : Files) (r : List (Name × Nat)) :
    (s.setRoot r).dinode rootIno = { s.dinode rootIno with entries := r } :=
  setDinode_self ..

theorem setRoot_root (s : Files) (r : List (Name × Nat)) : (s.setRoot r).root = r := by
  rw [Files.root, setRoot_dir]

/-- Types and link counts stay. -/
theorem setRoot_dinode (s : Files) (r : List (Name × Nat)) (n : Nat) :
    ((s.setRoot r).dinode n).type = (s.dinode n).type ∧
      ((s.setRoot r).dinode n).nlink = (s.dinode n).nlink := by
  by_cases hn : n = rootIno
  · subst hn
    rw [setRoot_dir]
    exact ⟨rfl, rfl⟩
  · rw [show (s.setRoot r).dinode n = s.dinode n from setDinode_ne _ _ hn]
    exact ⟨rfl, rfl⟩

/-- The name of the new inode. -/
theorem NewFile.link (h : NewFile n s) (hlink : 1 ≤ (s.dinode n).nlink)
    (hno : NoName (swapName k) s.root) :
    Rooted (HasName (swapName k) n) (s.setRoot (s.root ++ [(swapName k, n)])) := by
  have hmem : ∀ e ∈ s.root ++ [(swapName k, n)], e ∈ s.root ∨ e = (swapName k, n) := by
    intro e he
    simpa using he
  have hcount : ∀ x, x ≠ n → (s.root ++ [(swapName k, n)]).countP (fun e => e.2 == x) =
      s.root.countP fun e => e.2 == x := by
    intro x hx
    simp [List.countP_append, Ne.symm hx]
  refine ⟨⟨?_, h.pids, fun p f hf => ?_⟩, ?_⟩
  · constructor
    · rw [(setRoot_dinode ..).1]; exact h.dir
    · rw [(setRoot_dinode ..).2]; exact h.nlink
    · rw [setRoot_root]
      intro e he
      rw [(setRoot_dinode ..).1]
      rcases hmem e he with he | rfl
      · exact h.alloc e he
      · exact h.allocated
    · rw [setRoot_root]
      intro e he
      rw [(setRoot_dinode ..).2]
      rcases hmem e he with he | rfl
      · exact h.linked e he
      · exact hlink
    · rw [setRoot_root]
      intro e he j hj
      rcases hmem e he with he | rfl
      · exact h.notRoot e he j hj
      · exact h.notRootDir
    · rw [setRoot_root]
      intro e he j hj
      rcases hmem e he with he | rfl
      · rw [hcount e.2 (h.unnamed e he)]
        exact h.single e he j hj
      · have hzero : s.root.countP (fun x => x.2 == n) = 0 := by
          rw [List.countP_eq_zero]
          intro x hx
          simpa using h.unnamed x hx
        simp [List.countP_append, hzero]
  · obtain ⟨ip, hip, hok⟩ := h.files p f hf
    refine ⟨ip, hip, ?_, fun hst => ?_, fun hst => ?_, hok.apart⟩
    · rw [(setRoot_dinode ..).1]
      exact hok.used
    · rw [setRoot_root]
      obtain ⟨e, he, hex⟩ := hok.named hst
      refine ⟨e, ?_, hex⟩
      change (s.root ++ _).find? (fun e => e.1 == swapName (s.proc p).pid) = some e
      rw [List.find?_append, he]
      rfl
    · rw [setRoot_root]
      intro e he
      rcases hmem e he with he | rfl
      · exact hok.gone hst e he
      · intro hinum
        exact h.unopened p (swapInum_eq_some.mpr ⟨f, ip, hf, by rw [hip]; rfl, hinum.symm⟩)
  · rw [setRoot_root]
    refine ⟨(swapName k, n), ?_, rfl⟩
    rw [List.find?_append, show (s.root.find? fun e => e.1 == swapName k) = none from hno]
    simp

theorem linkName_swap_spec (dp ip : InodePtr) (n k : Nat) (hdp : (dp, rootIno) ∈ l)
    (hip : (ip, n) ∈ l) (room : Bool) :
    Triple (Good l m fun s => (NewFile n s ∧ 1 ≤ (s.dinode n).nlink) ∧ NoName (swapName k) s.root)
      (linkName true dp ip (swapName k) room) fun linked s =>
        match linked with
        | true => Good l m (Rooted (HasName (swapName k) n)) s
        | false => Good l m (NewFile n) s := by
  refine Triple.ite (fun _ => Triple.get fun s hs => ?_) fun h => absurd rfl h
  have hinum : (s.itable ip).inum = n := hs.1.known _ hip
  rw [hinum]
  have hentry : EntryStable fun s => (NewFile n s ∧ 1 ≤ (s.dinode n).nlink) ∧
      NoName (swapName k) s.root :=
    ⟨fun howns hs hcase => ⟨⟨(newFile_entryStable n).entry howns hs.1.1 hcase, hs.1.2⟩, hs.2⟩⟩
  refine Triple.bind ((dirlookup_root_spec hentry hdp (swapName k)).pre
    fun t (ht : t = s) => ht ▸ hs) fun r => ?_
  cases r with
  | some jp =>
    -- the name is not there
    rintro t ⟨_, ht⟩
    obtain ⟨e, he, _⟩ := ht.2.2
    rw [show (t.root.find? fun e => e.1 == swapName k) = none from ht.2.1.2] at he
    cases he
  | none =>
    refine Triple.ite (fun _ => ?_) fun _ => Triple.pure fun t ht => ⟨ht.1, ht.2.1.1.1⟩
    refine Triple.bind (Q := fun _ => Good l m (Rooted (HasName (swapName k) n)))
      (modify_spec (fun _ => ⟨rfl, rfl, rfl, rfl⟩) fun t ht => ?_) fun _ =>
        Triple.pure fun t ht => ht
    rw [Files.setDisk, Files.disk, ht.1.known _ hdp]
    exact ht.2.1.1.1.link ht.2.1.1.2 ht.2.1.2

theorem iallocSwap_spec (k : Nat) :
    Triple (Good l m fun s => Private s ∧ NoName (swapName k) s.root) (ialloc .file) fun r s =>
      match r with
      | some ip => ∃ n, Good ((ip, n) :: l) m (fun s => NewFile n s ∧ NoName (swapName k) s.root) s
      | none => Good l m (fun s => Private s ∧ NoName (swapName k) s.root) s := by
  refine Triple.get fun s hs => ?_
  split
  · rename_i n hfind
    have hfree : (s.dinode n).type = .free := by
      have hfound := List.find?_some hfind
      simp only [Bool.and_eq_true, beq_iff_eq] at hfound
      exact hfound.2
    refine Triple.bind (Q := fun _ => Good l m fun s => NewFile n s ∧ NoName (swapName k) s.root) ?_
      fun _ => ?_
    · refine Triple.modify fun t ht => ?_
      subst ht
      obtain ⟨hnew, hroot⟩ := hs.2.1.alloc_new (d := { type := .file, nlink := 0, entries := [] })
        hfree (by simp)
      refine ⟨hs.1.congr rfl rfl rfl rfl, hnew, ?_⟩
      rw [hroot]
      exact hs.2.2
    · refine Triple.bind (iget_spec ⟨fun howns hs hcase => ?_⟩ n) fun ip =>
        Triple.pure fun t ht => ⟨n, ht⟩
      exact ⟨(newFile_entryStable n).entry howns hs.1 hcase, hs.2⟩
  · exact Triple.pure fun t ht => ht ▸ hs

/-- `setNlink` of the new inode. -/
theorem setNlink_new_spec (ip : InodePtr) (n : Nat) (hip : (ip, n) ∈ l) (x : Int) :
    Triple (Good l m fun s => NewFile n s ∧ K s.root) (setNlink ip fun _ => x) fun _ =>
      Good l m fun s => (NewFile n s ∧ (s.dinode n).nlink = x) ∧ K s.root := by
  refine modify_spec (fun _ => ⟨rfl, rfl, rfl, rfl⟩) fun s hs => ?_
  rw [Files.setDisk, Files.disk, hs.1.known _ hip]
  obtain ⟨hnew, hroot⟩ := hs.2.1.toPrivate.newFile (d := { s.dinode n with nlink := x })
    hs.2.1.notRootDir hs.2.1.unnamed hs.2.1.unopened hs.2.1.allocated
  refine ⟨⟨hnew, ?_⟩, ?_⟩
  · rw [setDinode_self]
  · rw [hroot]
    exact hs.2.2

theorem createSwapAt_spec (dp ip : InodePtr) (n k : Nat) (room : Bool) :
    Triple (Good ((ip, n) :: (dp, rootIno) :: l) m fun s => NewFile n s ∧
      NoName (swapName k) s.root)
      (createAt .file dp ip (swapName k) room) fun r s =>
        match r with
        | some ip => ∃ n, Good ((ip, n) :: l) m (Rooted (HasName (swapName k) n)) s
        | none => Good l m Private s := by
  have hentry : EntryStable fun s => NewFile n s ∧ NoName (swapName k) s.root :=
    ⟨fun howns hs hcase => ⟨(newFile_entryStable n).entry howns hs.1 hcase, hs.2⟩⟩
  refine (ilock_spec hentry ip).bind fun _ => ?_
  refine (setNlink_new_spec ip n List.mem_cons_self 1).bind fun _ => ?_
  -- a swap file is no directory
  refine Triple.bind (Q := fun dots s => dots = true ∧ Good ((ip, n) :: (dp, rootIno) :: l) m
    (fun s => (NewFile n s ∧ (s.dinode n).nlink = 1) ∧ NoName (swapName k) s.root) s) ?_
    fun dots => ?_
  · exact Triple.ite (fun h => by cases h) fun _ => Triple.pure fun s hs => ⟨rfl, hs⟩
  refine Triple.fact (fun s hs => hs.1) ?_
  rintro rfl
  have hlink := linkName_swap_spec (l := (ip, n) :: (dp, rootIno) :: l) (m := m) dp ip n k
    (List.mem_cons_of_mem _ List.mem_cons_self) List.mem_cons_self room
  refine Triple.bind (hlink.pre fun s hs => ?_) fun linked => ?_
  · exact ⟨hs.2.1, ⟨hs.2.2.1.1, hs.2.2.1.2.ge⟩, hs.2.2.2⟩
  cases linked with
  | true =>
    refine Triple.ite (fun _ => ?_) fun h => absurd rfl h
    refine Triple.bind (Q := fun _ => Good ((ip, n) :: (dp, rootIno) :: l) m
      (Rooted (HasName (swapName k) n))) ?_ fun _ => ?_
    · exact Triple.ite (fun h => by cases h) fun _ => Triple.pure fun s hs => hs
    · refine Triple.bind ((iput_spec rooted_refStable dp rootIno).pre fun s hs => hs.swap)
        fun _ => ?_
      exact Triple.pure fun s hs => ⟨n, hs⟩
  | false =>
    refine Triple.ite (fun h => by cases h) fun _ => ?_
    have hzero := setNlink_new_spec (l := (ip, n) :: (dp, rootIno) :: l) (m := m)
      (K := fun _ => True) ip n List.mem_cons_self 0
    refine Triple.bind (hzero.pre fun s hs => ⟨hs.1, hs.2, trivial⟩) fun _ => ?_
    refine Triple.bind ((iput_spec private_refStable ip n).pre fun s hs =>
      ⟨hs.1, hs.2.1.1.toPrivate⟩) fun _ => ?_
    exact (iput_spec private_refStable dp rootIno).bind fun _ => Triple.pure fun s hs => hs

/-- `kcreate` of a swap file. -/
theorem createSwap_spec (p : Fin nproc) (k : Nat) (room : Bool) :
    Triple (Good l m Private) (create p (swapPath k) .file room) fun r s =>
      match r with
      | some ip => ∃ n, Good ((ip, n) :: l) m (Rooted (HasName (swapName k) n)) s
      | none => Good l m Private s := by
  have hR := private_refStable
  refine (namex_root_spec hR.toEntryStable (fun s hs => hs.dir) p (swapName k)).bind fun r => ?_
  refine Triple.exists fun dp => Triple.fact (fun s hs => hs.1) ?_
  rintro rfl
  refine Triple.bind ((ilock_spec hR.toEntryStable dp).pre fun s hs => hs.2) fun _ => ?_
  refine (dirlookup_root_spec hR.toEntryStable List.mem_cons_self (swapName k)).bind fun r => ?_
  cases r with
  | some ip =>
    refine Triple.exists fun n => ?_
    have hRooted : RefStable fun s => Private s ∧ HasName (swapName k) n s.root := rooted_refStable
    refine Triple.bind (Q := fun _ => Good ((ip, n) :: l) m (Rooted (HasName (swapName k) n))) ?_
      fun _ => ?_
    · exact (iput_spec hRooted dp rootIno).pre fun s hs => hs.swap
    · refine (ilock_spec rooted_refStable.toEntryStable ip).bind fun _ => Triple.get fun s hs => ?_
      refine Triple.ite (fun _ => Triple.pure fun t ht => ⟨n, ht ▸ hs⟩) fun _ => ?_
      refine Triple.bind ((iput_spec rooted_refStable ip n).pre fun t (ht : t = s) => ht ▸ hs)
        fun _ => ?_
      exact Triple.pure fun t ht => ⟨ht.1, ht.2.1⟩
  | none =>
    refine (iallocSwap_spec k).bind fun r => ?_
    cases r with
    | none =>
      refine Triple.bind ((iput_spec hR dp rootIno).pre fun s hs => ⟨hs.1, hs.2.1⟩) fun _ => ?_
      exact Triple.pure fun s hs => hs
    | some ip => exact Triple.exists fun n => createSwapAt_spec dp ip n k room

/-- A name of a swap file leads to one inode, and that inode has one name. -/
theorem RootOk.name_eq (h : RootOk s) {e' : Name × Nat} (he : e ∈ s.root) (he' : e' ∈ s.root)
    (hname : e.1 = swapName k) (hinum : e'.2 = e.2) : e' = e := by
  have hone := h.single e he k hname
  obtain ⟨x, hx⟩ := List.length_eq_one_iff.mp ((List.countP_eq_length_filter ..).symm.trans hone)
  have hmem : ∀ y ∈ s.root, y.2 = e.2 → y = x := by
    intro y hy hyn
    have hfilter : y ∈ s.root.filter fun x => x.2 == e.2 :=
      List.mem_filter.mpr ⟨hy, by simpa using hyn⟩
    rw [hx] at hfilter
    exact List.mem_singleton.mp hfilter
  rw [hmem e' he' hinum, hmem e he rfl]

/-- `p->swapfile = f`. Nobody else has the inode, as its only name is that of `p`. -/
theorem Private.openSwap {f : FilePtr} {ip : InodePtr} (h : Private s) (howns : Owns l m s)
    (hname : HasName (swapName (s.proc p).pid) n s.root) (hinum : (s.itable ip).inum = n)
    (hkind : (s.ftable f).kind = .inode ip) (hp : Present p s)
    (hstage : (s.proc p).stage ≠ .unlinked) :
    Private (s.setProc p { s.proc p with swapfile := some f }) := by
  obtain ⟨e, hfind, hen⟩ := hname
  have hmem : e ∈ s.root := List.mem_of_find?_eq_some hfind
  have hename : e.1 = swapName (s.proc p).pid := by simpa using List.find?_some hfind
  refine h.setProc (fun _ q hq hpq => h.pids p q hq.symm hp hpq) fun g hg => ?_
  cases hg
  refine ⟨ip, hkind, ?_, fun _ => ⟨e, hfind, hen.trans hinum.symm⟩, fun hst => absurd hst hstage,
    fun q hq hn => ?_⟩
  · rw [hinum, ← hen]
    exact h.alloc e hmem
  · rw [hinum] at hn
    have hok := h.swapOk hn
    obtain ⟨g, _, hg, _⟩ := swapInum_eq_some.mp hn
    have hqp := howns.swap_present (q := q) (by rw [hg]; simp)
    by_cases hst : (s.proc q).stage = .unlinked
    · exact hok.gone hst e hmem hen
    · obtain ⟨e', hfind', hen'⟩ := hok.named hst
      have heq := h.name_eq hmem (List.mem_of_find?_eq_some hfind') hename (hen'.trans hen.symm)
      have hename' : e'.1 = swapName (s.proc q).pid := by simpa using List.find?_some hfind'
      rw [heq, hename] at hename'
      exact h.pids p q hq.symm hp hqp (swapName_inj hename')

/-- The inode has its name, and the process is about to get the file. -/
def Opening (p : Fin nproc) (stage : Stage) (k n : Nat) (s : Files) : Prop :=
  Rooted (HasName (swapName k) n) s ∧ (s.proc p).At stage ∧ (s.proc p).swapfile = none ∧
    (s.proc p).pid = k

theorem opening_txStable (p : Fin nproc) (stage : Stage) (k n : Nat) :
    TxStable (Opening p stage k n) (Opening p stage k n) :=
  rooted_txStable.steady (c := fun e => e.At stage ∧ e.swapfile = none ∧ e.pid = k)
    ⟨fun _ _ _ h => h, fun _ _ h => h⟩ p

theorem swapfileOpen_private {stage : Stage} (hstage : stage ≠ .unlinked) (room : Bool) :
    Triple (Good l m fun s => Private s ∧ (s.proc p).At stage) (swapfileOpen p room)
      fun _ => Good l m fun s => Private s ∧ (s.proc p).At stage := by
  refine Triple.get fun s hs => ?_
  split
  · exact Triple.pure fun t ht => ht ▸ hs
  rename_i hnone
  have hend := endTx_spec (l := l) (m := m) (private_txStable.steady (at_steady stage) p)
  -- `kcreate` leaves the processes alone
  have hframe := create_spec (l := l) (m := m) (I := fun t => t.proc = s.proc)
    ⟨⟨fun _ hs _ => hs⟩, fun _ hs _ _ => hs⟩ (fun _ _ _ hs => hs) p (swapPath (s.proc p).pid)
    .file room
  refine Triple.bind (Q := fun _ t => Good l m Private t ∧ Good l m (fun t => t.proc = s.proc) t) ?_
    fun _ => ?_
  · refine Triple.modify fun t ht => ?_
    subst ht
    have howns : Owns l m { t with tx := true } := hs.1.congr rfl rfl rfl rfl
    exact ⟨⟨howns, private_txStable.enter t hs.2.1⟩, howns, rfl⟩
  refine Triple.bind ((createSwap_spec p (s.proc p).pid room).and hframe) fun r => ?_
  cases r with
  | none =>
    refine hend.pre fun t ht => ⟨ht.1.1, ht.1.2, ?_⟩
    rw [ht.2.2]
    exact hs.2.2
  | some ip =>
    refine Triple.pre (Triple.exists (P := fun n =>
      Good ((ip, n) :: l) m (Opening p stage (s.proc p).pid n)) fun n => ?_) fun t ht => ?_
    swap
    · obtain ⟨⟨n, hgood⟩, _, hproc⟩ := ht
      refine ⟨n, hgood.1, hgood.2, ?_⟩
      rw [hproc.2]
      exact ⟨hs.2.2, hnone, rfl⟩
    have hT := opening_txStable p stage (s.proc p).pid n
    refine Triple.bind ((filealloc_spec (K := fun _ => True) hT.inside).pre fun t ht =>
      ⟨ht, trivial⟩) fun r => ?_
    cases r with
    | none =>
      refine ((iput_end_spec hT ip n).pre fun t ht => ht.1).post fun _ t ht => ?_
      exact ⟨ht.1, ht.2.1.1, ht.2.2.1⟩
    | some f =>
      -- the file has the inode before the process has the file
      refine Triple.bind (Q := fun _ t => Good l (f :: m) (Opening p stage (s.proc p).pid n) t ∧
        (t.ftable f).kind = .inode ip ∧ (t.itable ip).inum = n) (fun t ht u t' he => ?_) fun _ => ?_
      · have hinum := ht.1.1.1.known _ List.mem_cons_self
        have hgood := setKind_spec (l := l) (m := f :: m) hT.inside f ip n
          (show (FileKind.inode ip).ip = some ip from rfl) t
          ⟨ht.1.1, by rw [ht.2]; rfl, ht.1.1.1.file_pos List.mem_cons_self⟩ u t' he
        cases he
        exact ⟨hgood, congrArg FileEntry.kind (Function.update_self f _ t.ftable), hinum⟩
      · refine Triple.bind (Q := fun _ => Good l m fun s => Private s ∧ (s.proc p).At stage) ?_
          fun _ => hend
        refine Triple.modify fun t hpre => ?_
        obtain ⟨⟨howns, ⟨hpriv, hname⟩, hat, hno, hpid⟩, hkind, hinum⟩ := hpre
        refine ⟨howns.setSwapfile hat.present fun g => ?_, ?_, ?_⟩
        · rw [hno, points_none, count_cons_points, Nat.zero_add]
        · refine hpriv.openSwap howns (hpid ▸ hname) hinum hkind hat.present ?_
          rw [hat.2]
          exact hstage
        · rw [setProc_proc]
          exact hat

/-! ## Unlinking a swap file -/

/-- What `eraseP` takes out is what `find?` finds. -/
theorem eraseP_find {α : Type} {q : α → Bool} {r : List α} {e : α} (h : r.find? q = some e) :
    ∃ r₁ r₂, r = r₁ ++ e :: r₂ ∧ r.eraseP q = r₁ ++ r₂ := by
  obtain ⟨hq, r₁, r₂, rfl, hno⟩ := List.find?_eq_some_iff_append.mp h
  refine ⟨r₁, r₂, rfl, ?_⟩
  rw [List.eraseP_append_right _ (by simpa using hno), List.eraseP_cons_of_pos hq]

/-- A directory `r'` is `r` without the entry `e`, and that was the only one for its inode. -/
structure Without (e : Name × Nat) (r r' : List (Name × Nat)) : Prop where
  sub : ∀ x ∈ r', x ∈ r
  other : ∀ x ∈ r', x.2 ≠ e.2
  count : ∀ n, n ≠ e.2 → r'.countP (fun x => x.2 == n) = r.countP fun x => x.2 == n
  find : ∀ name, name ≠ e.1 → r'.find? (fun x => x.1 == name) = r.find? fun x => x.1 == name

theorem RootOk.without (h : RootOk s) (hfind : s.root.find? (fun x => x.1 == swapName k) = some e) :
    Without e s.root (s.root.eraseP fun x => x.1 == swapName k) := by
  have hone := h.single e (List.mem_of_find?_eq_some hfind) k (by simpa using List.find?_some hfind)
  obtain ⟨r₁, r₂, hroot, herase⟩ := eraseP_find hfind
  rw [herase]
  rw [hroot] at hone ⊢
  rw [List.countP_append, List.countP_cons_of_pos (by simp)] at hone
  refine ⟨fun x hx => ?_, fun x hx hxe => ?_, fun n hn => ?_, fun name hname => ?_⟩
  · exact List.mem_append.mpr ((List.mem_append.mp hx).imp_right (List.mem_cons_of_mem _))
  · have hpos : 0 < (r₁ ++ r₂).countP fun y => y.2 == e.2 :=
      List.countP_pos_iff.mpr ⟨x, hx, by simpa using hxe⟩
    rw [List.countP_append] at hpos
    omega
  · rw [List.countP_append, List.countP_append, List.countP_cons_of_neg (by simpa using Ne.symm hn)]
  · rw [List.find?_append, List.find?_append, List.find?_cons_of_neg (by simpa using Ne.symm hname)]

/-- The directory without the entry, and the inode with other contents. -/
theorem RootOk.unlink (h : RootOk s) {r : List (Name × Nat)} (hr : Without e s.root r)
    (hne : e.2 ≠ rootIno) :
    RootOk ((s.setRoot r).setDinode e.2 d) := by
  have hroot : ((s.setRoot r).setDinode e.2 d).root = r := by rw [setDinode_root hne, setRoot_root]
  have hsame : ∀ n, n ≠ e.2 →
      (((s.setRoot r).setDinode e.2 d).dinode n).type = (s.dinode n).type ∧
        (((s.setRoot r).setDinode e.2 d).dinode n).nlink = (s.dinode n).nlink := by
    intro n hn
    rw [setDinode_ne _ _ hn]
    exact setRoot_dinode ..
  constructor
  · rw [(hsame _ hne.symm).1]; exact h.dir
  · rw [(hsame _ hne.symm).2]; exact h.nlink
  · rw [hroot]
    intro x hx
    rw [(hsame _ (hr.other x hx)).1]
    exact h.alloc x (hr.sub x hx)
  · rw [hroot]
    intro x hx
    rw [(hsame _ (hr.other x hx)).2]
    exact h.linked x (hr.sub x hx)
  · rw [hroot]
    exact fun x hx => h.notRoot x (hr.sub x hx)
  · rw [hroot]
    intro x hx k hk
    rw [hr.count _ (hr.other x hx)]
    exact h.single x (hr.sub x hx) k hk

/-- The process takes the name of its swap file out of the root directory. -/
theorem Private.unlinkSwap (h : Private s) (howns : Owns l m s) (hswap : (s.proc p).swapfile ≠ none)
    (hstage : (s.proc p).stage ≠ .unlinked) (hname : HasName (swapName (s.proc p).pid) n s.root)
    (hd : d.type = (s.dinode n).type) :
    Private
      (((s.setRoot (s.root.eraseP fun e => e.1 == swapName (s.proc p).pid)).setDinode n d).setProc
        p { s.proc p with stage := .unlinked }) := by
  obtain ⟨e, hfind, rfl⟩ := hname
  have hename : e.1 = swapName (s.proc p).pid := by simpa using List.find?_some hfind
  have hne := h.notRoot e (List.mem_of_find?_eq_some hfind) _ hename
  have hr := h.without hfind
  obtain ⟨r, hreq⟩ : ∃ r, r = s.root.eraseP fun x => x.1 == swapName (s.proc p).pid := ⟨_, rfl⟩
  rw [← hreq] at hr ⊢
  have hroot : ((s.setRoot r).setDinode e.2 d).root = r := by rw [setDinode_root hne, setRoot_root]
  have htype : ∀ n, (((s.setRoot r).setDinode e.2 d).dinode n).type = (s.dinode n).type := by
    intro n
    by_cases hn : n = e.2
    · rw [hn, setDinode_self, hd]
    · rw [setDinode_ne _ _ hn, (setRoot_dinode ..).1]
  -- the inode is that of the process
  have hmine : s.swapInum p = some e.2 := by
    obtain ⟨f, hf⟩ := Option.ne_none_iff_exists'.mp hswap
    obtain ⟨ip, hip, hok⟩ := h.files p f hf
    obtain ⟨e', hfind', he'⟩ := hok.named hstage
    rw [hfind] at hfind'
    cases hfind'
    exact swapInum_eq_some.mpr ⟨f, ip, hf, by rw [hip]; rfl, he'.symm⟩
  obtain ⟨t, ht⟩ : ∃ t, t = ((s.setRoot r).setDinode e.2 d).setProc p
    { s.proc p with stage := .unlinked } := ⟨_, rfl⟩
  have hat : t.proc p = { s.proc p with stage := .unlinked } := by rw [ht, setProc_proc]
  have hproc : ∀ q, q ≠ p → t.proc q = s.proc q := fun q hq => by rw [ht, setProc_proc_ne hq]; rfl
  have hkeep : ∀ q, (t.proc q).state = (s.proc q).state ∧ (t.proc q).pid = (s.proc q).pid ∧
      (t.proc q).swapfile = (s.proc q).swapfile := by
    intro q
    by_cases hq : q = p
    · rw [hq, hat]
      exact ⟨rfl, rfl, rfl⟩
    · rw [hproc q hq]
      exact ⟨rfl, rfl, rfl⟩
  have hinum : ∀ q, t.swapInum q = s.swapInum q := by
    intro q
    unfold Files.swapInum
    rw [(hkeep q).2.2, ht]
    rfl
  have htroot : t.root = r := by rw [ht]; exact hroot
  have htd : ∀ n, (t.dinode n).type = (s.dinode n).type := by
    rw [ht]
    exact htype
  rw [← ht]
  refine ⟨?_, fun q q' hqq hq hq' => ?_, fun q f hf => ?_⟩
  · rw [ht]
    exact (h.toRootOk.unlink hr hne).congr rfl
  · rw [(hkeep q).2.1, (hkeep q').2.1]
    rw [Present, (hkeep q).1] at hq
    rw [Present, (hkeep q').1] at hq'
    exact h.pids q q' hqq hq hq'
  · rw [(hkeep q).2.2] at hf
    obtain ⟨ip, hip, hok⟩ := h.files q f hf
    have hq : s.swapInum q = some (s.itable ip).inum :=
      swapInum_eq_some.mpr ⟨f, ip, hf, by rw [hip]; rfl, rfl⟩
    refine ⟨ip, by rw [ht]; exact hip, ?_⟩
    rw [show (t.itable ip).inum = (s.itable ip).inum by rw [ht]; rfl]
    refine ⟨by rw [htd]; exact hok.used, fun hst => ?_, fun hst => ?_, fun q' hq' => ?_⟩
    · have hqp : q ≠ p := by
        rintro rfl
        rw [hat] at hst
        exact hst rfl
      rw [hproc q hqp] at hst ⊢
      obtain ⟨e', hfind', he'⟩ := hok.named hst
      refine ⟨e', ?_, he'⟩
      rw [htroot, hr.find _ fun heq => ?_]
      · exact hfind'
      · refine h.pids q p hqp ?_ (howns.swap_present hswap) (swapName_inj (heq.trans hename))
        exact howns.swap_present (by rw [hf]; simp)
    · rw [htroot]
      by_cases hqp : q = p
      · rw [hqp, hmine] at hq
        rw [← Option.some.inj hq]
        exact hr.other
      · rw [hproc q hqp] at hst
        exact fun x hx => hok.gone hst x (hr.sub x hx)
    · rw [hinum]
      exact hok.apart q' hq'

/-- The name is gone, and the process is about to know it. -/
def Unlinking (p : Fin nproc) (s : Files) : Prop :=
  Private (s.setProc p { s.proc p with stage := .unlinked }) ∧ (s.proc p).At .exiting

theorem unlinking_refStable (p : Fin nproc) : RefStable (Unlinking p) where
  entry howns hs hcase :=
    ⟨private_refStable.entry (howns.setStage hs.2 (by simp) .unlinked) hs.1 hcase, hs.2⟩
  free howns hs hone hzero :=
    ⟨private_refStable.free (howns.setStage hs.2 (by simp) .unlinked) hs.1 hone hzero, hs.2⟩

theorem swapfileUnlink_private (p : Fin nproc) :
    Triple (Good l m fun s => Private s ∧ (s.proc p).At .exiting ∧ (s.proc p).swapfile ≠ none)
      (do swapfileUnlink p; setProcM p fun e => { e with stage := .unlinked })
      fun _ => Good l m Private := by
  refine Triple.bind (Q := fun _ => Good l m (Unlinking p)) (Triple.get fun s hs => ?_) fun _ => ?_
  swap
  · exact Triple.modify fun s hs => ⟨hs.1.setStage hs.2.2 (by simp) .unlinked, hs.2.1⟩
  have hc : Steady fun e => e.At .exiting ∧ e.swapfile ≠ none ∧ e.pid = (s.proc p).pid :=
    ⟨fun _ _ _ h => h, fun _ _ h => h⟩
  have hT := private_txStable.steady hc p
  refine Triple.bind ((beginTx_spec (l := l) (m := m) hT).pre fun t ht => ?_) fun _ => ?_
  · subst ht
    exact ⟨hs.1, hs.2.1, hs.2.2.1, hs.2.2.2, rfl⟩
  refine (namex_root_spec hT.ref.toEntryStable (fun s hs => hs.1.dir) p _).bind fun r => ?_
  refine Triple.exists fun dp => Triple.fact (fun s hs => hs.1) ?_
  rintro rfl
  refine Triple.bind ((ilock_spec hT.ref.toEntryStable dp).pre fun s hs => hs.2) fun _ => ?_
  refine (dirlookup_root_spec hT.ref.toEntryStable List.mem_cons_self _).bind fun r => ?_
  cases r with
  | none =>
    -- the name is there
    rintro t ht
    obtain ⟨f, hf⟩ := Option.ne_none_iff_exists'.mp ht.2.1.2.2.1
    obtain ⟨_, _, hok⟩ := ht.2.1.1.files p f hf
    obtain ⟨e, he, _⟩ := hok.named (by rw [ht.2.1.2.1.2]; simp)
    rw [ht.2.1.2.2.2, show _ = none from ht.2.2] at he
    cases he
  | some ip =>
    refine Triple.exists fun n => ?_
    refine Triple.bind (ilock_spec ⟨fun howns hs hcase => ?_⟩ ip) fun _ => ?_
    · exact ⟨hT.ref.entry howns hs.1 hcase, hs.2⟩
    refine Triple.bind (Q := fun _ t => ∃ t₀, Good ((ip, n) :: (dp, rootIno) :: l) m (fun s' =>
        (Private s' ∧ (s'.proc p).At .exiting ∧ (s'.proc p).swapfile ≠ none ∧
          (s'.proc p).pid = (s.proc p).pid) ∧ HasName (swapName (s.proc p).pid) n s'.root) t₀ ∧
      t = t₀.setRoot (t₀.root.eraseP fun e => e.1 == swapName (s.proc p).pid)) ?_ fun _ => ?_
    · refine Triple.modify fun t ht => ⟨t, ht, ?_⟩
      rw [Files.setDisk, Files.disk,
        ht.1.known (dp, rootIno) (List.mem_cons_of_mem _ List.mem_cons_self)]
      rfl
    refine Triple.exists fun t₀ => ?_
    refine Triple.bind (Q := fun _ => Good ((ip, n) :: (dp, rootIno) :: l) m (Unlinking p)) ?_
      fun _ => ?_
    · refine Triple.modify fun t hpre => ?_
      obtain ⟨ht, heq⟩ := hpre
      subst heq
      obtain ⟨⟨hpriv, hat, hswap, hpid⟩, hname⟩ := ht.2
      have hinum : ∀ r, ((t₀.setRoot r).itable ip).inum = n :=
        fun _ => ht.1.known (ip, n) List.mem_cons_self
      rw [Files.setDisk, Files.disk, hinum]
      refine ⟨ht.1.congr rfl rfl rfl rfl, ?_, hat⟩
      rw [← hpid] at hname ⊢
      exact hpriv.unlinkSwap ht.1 hswap (by rw [hat.2]; simp) hname (setRoot_dinode ..).1
    · have hR := unlinking_refStable p
      refine (iput_spec hR ip n).bind fun _ => (iput_spec hR dp rootIno).bind fun _ => ?_
      refine modify_spec (fun _ => ⟨rfl, rfl, rfl, rfl⟩) fun t ht => ⟨?_, ht.2.2⟩
      exact private_txStable.leave _ ht.2.1

end

end Xv6Paging
