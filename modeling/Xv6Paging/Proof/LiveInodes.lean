import Xv6Paging.Proof.SwapPrograms

/-!
# Entries in use stand for allocated inodes

An inode number that comes out of a directory may be that of an inode that is gone: the `".."` of a
directory that was removed. `iget` takes any number, but whoever keeps an inode has locked it, and
`ilock` stops at an inode that is free. `Live h` says that every reference that is not in `h` is to
an allocated inode: those in `h` have not been locked yet. Between two programs there are none.
-/

namespace Xv6Paging

open Lib

variable {l : List (InodePtr × Nat)} {m : List FilePtr} {type : InodeType}

/-- References apart from those in `h` are to allocated inodes, and so are those to inodes that have
been read from the disk. -/
structure LiveTable (h : List InodePtr) (T : InodePtr → InodeEntry) (D : Nat → Dinode) : Prop where
  unique : ∀ ip jp, 0 < (T ip).ref → 0 < (T jp).ref → (T ip).inum = (T jp).inum → ip = jp
  valid : ∀ ip, 0 < (T ip).ref → (T ip).valid = true → (D (T ip).inum).type ≠ .free
  alloc : ∀ ip, h.count ip < (T ip).ref → (D (T ip).inum).type ≠ .free

def Live (h : List InodePtr) (s : Files) : Prop := LiveTable h s.itable s.dinode

/-- A program that may have taken a reference. -/
def LiveWith (r : Option InodePtr) (h : List InodePtr) (s : Files) : Prop :=
  r.elim (Live h s) fun ip => Live (ip :: h) s

section

variable {h : List InodePtr} {s : Files} {ip : InodePtr} {α β : Type}

theorem Live.weaken (hs : Live h s) (ip : InodePtr) : Live (ip :: h) s := by
  refine ⟨hs.unique, hs.valid, fun jp hj => hs.alloc jp ?_⟩
  have hle : h.count jp ≤ (ip :: h).count jp := List.count_le_count_cons
  omega

/-- A reference to an inode that is allocated. -/
theorem Live.known (hs : Live (ip :: h) s) (htype : (s.disk ip).type ≠ .free) : Live h s := by
  refine ⟨hs.unique, hs.valid, fun jp hj => ?_⟩
  by_cases hji : jp = ip
  · rw [hji]
    exact htype
  · exact hs.alloc jp (by rwa [count_cons_ne hji])

/-- The types of inodes that are not free stay as they are. -/
theorem Live.setDinode (hs : Live h s) (n : Nat) {d : Dinode}
    (hd : (s.dinode n).type ≠ .free → d.type ≠ .free) : Live h (s.setDinode n d) := by
  have htype : ∀ k, (s.dinode k).type ≠ .free → ((s.setDinode n d).dinode k).type ≠ .free := by
    intro k hk
    by_cases hkn : k = n
    · subst hkn
      rw [setDinode_self]
      exact hd hk
    · rw [setDinode_ne s d hkn]
      exact hk
  exact ⟨hs.unique, fun ip hpos hv => htype _ (hs.valid ip hpos hv),
    fun ip hc => htype _ (hs.alloc ip hc)⟩

/-- An entry changes, but for its inode. -/
theorem Live.keepInode {h' : List InodePtr} {e : InodeEntry} (hs : Live h s)
    (hpos : 0 < (s.itable ip).ref) (hinum : e.inum = (s.itable ip).inum)
    (hvalid : e.valid = true → (s.itable ip).valid = true ∨ (s.disk ip).type ≠ .free)
    (halloc : h'.count ip < e.ref → h.count ip < (s.itable ip).ref ∨ (s.disk ip).type ≠ .free)
    (hother : ∀ jp, jp ≠ ip → h.count jp ≤ h'.count jp) : Live h' (s.setInode ip e) := by
  have hself : (s.setInode ip e).itable ip = e := Function.update_self ..
  have hne : ∀ jp, jp ≠ ip → (s.setInode ip e).itable jp = s.itable jp :=
    fun jp hj => Function.update_of_ne hj _ _
  have hboth : ∀ jp, ((s.setInode ip e).itable jp).inum = (s.itable jp).inum := by
    intro jp
    by_cases hj : jp = ip
    · rw [hj, hself, hinum]
    · rw [hne jp hj]
  have hstill : ∀ jp, 0 < ((s.setInode ip e).itable jp).ref → 0 < (s.itable jp).ref := by
    intro jp hpos'
    by_cases hj : jp = ip
    · rw [hj]
      exact hpos
    · rw [hne jp hj] at hpos'
      exact hpos'
  refine ⟨fun ip' jp hi hj heq => ?_, fun jp hj hv => ?_, fun jp hj => ?_⟩
  · rw [hboth, hboth] at heq
    exact hs.unique ip' jp (hstill _ hi) (hstill _ hj) heq
  · rw [hboth]
    by_cases hji : jp = ip
    · subst hji
      rw [hself] at hv
      rcases hvalid hv with hold | htype
      · exact hs.valid jp hpos hold
      · exact htype
    · rw [hne jp hji] at hj hv
      exact hs.valid jp hj hv
  · rw [hboth]
    by_cases hji : jp = ip
    · subst hji
      rw [hself] at hj
      rcases halloc hj with hold | htype
      · exact hs.alloc jp hold
      · exact htype
    · rw [hne jp hji] at hj
      exact hs.alloc jp (lt_of_le_of_lt (hother jp hji) hj)

/-- An entry is not in use any more. -/
theorem LiveTable.gone (ip : InodePtr) {h' : List InodePtr} {T T' : InodePtr → InodeEntry}
    {D D' : Nat → Dinode} (hs : LiveTable h T D) (hzero : (T' ip).ref = 0)
    (hT : ∀ jp, jp ≠ ip → T' jp = T jp) (hD : ∀ jp, jp ≠ ip → 0 < (T jp).ref →
      D' (T jp).inum = D (T jp).inum)
    (hother : ∀ jp, jp ≠ ip → h.count jp ≤ h'.count jp) : LiveTable h' T' D' := by
  have hne : ∀ jp, 0 < (T' jp).ref → jp ≠ ip := by
    rintro jp hpos rfl
    omega
  refine ⟨fun kp jp hk hj heq => ?_, fun jp hj hv => ?_, fun jp hj => ?_⟩
  · have hki := hne kp hk
    have hji := hne jp hj
    rw [hT kp hki] at hk heq
    rw [hT jp hji] at hj heq
    exact hs.unique kp jp hk hj heq
  · have hji := hne jp hj
    rw [hT jp hji] at hj hv ⊢
    rw [hD jp hji hj]
    exact hs.valid jp hj hv
  · have hji := hne jp (by omega)
    rw [hT jp hji] at hj ⊢
    rw [hD jp hji (by omega)]
    exact hs.alloc jp (lt_of_le_of_lt (hother jp hji) hj)

/-! ## References -/

theorem iget_live (n : Nat) : Triple (Live h) (iget n) fun ip s => Live (ip :: h) s ∧
    (s.itable ip).inum = n := by
  intro s hs ip s' he
  unfold iget at he
  split at he
  · rename_i jp hfind
    cases he
    have hfound := (Fin.find?_eq_some_iff.mp hfind).1
    simp only [Bool.and_eq_true, decide_eq_true_eq, beq_iff_eq] at hfound
    have hself : (s.setInode ip { s.itable ip with ref := (s.itable ip).ref + 1 }).itable ip =
      { s.itable ip with ref := (s.itable ip).ref + 1 } := Function.update_self ..
    refine ⟨hs.keepInode hfound.1 rfl .inl (fun hc => .inl ?_) fun jp hj => ?_, ?_⟩
    · rw [List.count_cons_self] at hc
      dsimp only at hc
      omega
    · rw [count_cons_ne hj]
    · rw [hself]
      exact hfound.2
  · rename_i hnone
    split at he
    · rename_i jp hfind
      cases he
      have hzero : (s.itable ip).ref = 0 := by simpa using (Fin.find?_eq_some_iff.mp hfind).1
      have hself : (s.setInode ip { inum := n, ref := 1, valid := false }).itable ip =
        { inum := n, ref := 1, valid := false } := Function.update_self ..
      have hne : ∀ jp, jp ≠ ip → (s.setInode ip { inum := n, ref := 1, valid := false }).itable jp =
        s.itable jp := fun jp hj => Function.update_of_ne hj _ _
      -- no entry in use stands for this inode
      have hnew : ∀ jp, 0 < (s.itable jp).ref → (s.itable jp).inum ≠ n := by
        intro jp hpos heq
        have hno := Fin.find?_eq_none_iff.mp hnone jp
        simp [hpos, heq] at hno
      refine ⟨⟨fun kp jp hk hj heq => ?_, fun jp hj hv => ?_, fun jp hj => ?_⟩, ?_⟩
      · by_cases hki : kp = ip
        · by_cases hji : jp = ip
          · rw [hki, hji]
          · rw [hki, hself, hne jp hji] at heq
            rw [hne jp hji] at hj
            exact absurd heq.symm (hnew jp hj)
        · rw [hne kp hki] at hk heq
          by_cases hji : jp = ip
          · rw [hji, hself] at heq
            exact absurd heq (hnew kp hk)
          · rw [hne jp hji] at hj heq
            exact hs.unique kp jp hk hj heq
      · by_cases hji : jp = ip
        · rw [hji, hself] at hv
          cases hv
        · rw [hne jp hji] at hj hv ⊢
          exact hs.valid jp hj hv
      · by_cases hji : jp = ip
        · rw [hji, hself, List.count_cons_self] at hj
          dsimp only at hj
          omega
        · rw [hne jp hji, count_cons_ne hji] at hj
          rw [hne jp hji]
          exact hs.alloc jp hj
      · rw [hself]
    · cases he

theorem iget_dinode (n : Nat) {D : Nat → Dinode} :
    Triple (fun s => s.dinode = D) (iget n) fun _ s => s.dinode = D := by
  intro s hs ip s' he
  unfold iget at he
  split at he
  · cases he
    exact hs
  · split at he <;> cases he
    exact hs

theorem idup_live (ip : InodePtr) :
    Triple (fun s => Live h s ∧ 0 < (s.itable ip).ref) (idup ip) fun jp s => jp = ip ∧
    Live (ip :: h) s := by
  rintro s ⟨hs, hpos⟩ jp s' he
  cases he
  refine ⟨rfl, hs.keepInode hpos rfl .inl (fun hc => .inl ?_) fun jp hj => ?_⟩
  · rw [List.count_cons_self] at hc
    dsimp only at hc
    omega
  · rw [count_cons_ne hj]

/-- Who has locked an inode knows that it is allocated. -/
theorem ilock_live (ip : InodePtr) : Triple (Live (ip :: h)) (ilock ip) fun _ s =>
    Live h s ∧ 0 < (s.itable ip).ref ∧ (s.disk ip).type ≠ .free := by
  intro s hs u s' he
  unfold ilock at he
  split at he
  · cases he
  · rename_i hlt
    have hpos : 0 < (s.itable ip).ref := by omega
    split at he
    · rename_i hv
      cases he
      have htype : (s.disk ip).type ≠ .free := hs.valid ip hpos hv
      exact ⟨hs.known htype, hpos, htype⟩
    · split at he
      · cases he
      · rename_i htype
        cases he
        have hself : (s.setInode ip { s.itable ip with valid := true }).itable ip =
          { s.itable ip with valid := true } := Function.update_self ..
        refine ⟨hs.keepInode hpos rfl (fun _ => .inr htype) (fun _ => .inr htype)
          fun jp hj => ?_, ?_, ?_⟩
        · rw [count_cons_ne hj]
        · rw [hself]
          exact hpos
        · rw [Files.disk, hself]
          exact htype

/-- The reference that is given back need not be to an allocated inode. -/
theorem iput_live (ip : InodePtr) : Triple (Live (ip :: h)) (iput ip) fun _ => Live h := by
  intro s hs u s' he
  unfold iput at he
  have hother : ∀ jp, jp ≠ ip → (ip :: h).count jp ≤ h.count jp :=
    fun jp hj => by rw [count_cons_ne hj]
  cases hlast : s.lastRef ip with
  | false =>
    simp only [hlast, Bool.false_eq_true, if_false] at he
    cases he
    by_cases hpos : 0 < (s.itable ip).ref
    · refine hs.keepInode hpos rfl .inl (fun hc => .inl ?_) hother
      rw [List.count_cons_self]
      dsimp only at hc
      omega
    · refine LiveTable.gone ip hs ?_ (fun jp hj => Function.update_of_ne hj _ _)
        (fun _ _ _ => rfl) hother
      rw [show (s.setInode ip { s.itable ip with ref := (s.itable ip).ref - 1 }).itable ip =
        { s.itable ip with ref := (s.itable ip).ref - 1 } from Function.update_self ..]
      dsimp only
      omega
  | true =>
    simp only [hlast, if_true] at he
    cases he
    simp only [Files.lastRef, Bool.and_eq_true, beq_iff_eq] at hlast
    refine LiveTable.gone ip hs ?_ (fun jp hj => ?_) (fun jp hj hpos => ?_) hother
    · rw [show ((freeInode s ip).setInode ip { (freeInode s ip).itable ip with
          ref := ((freeInode s ip).itable ip).ref - 1 }).itable ip =
        { (freeInode s ip).itable ip with ref := ((freeInode s ip).itable ip).ref - 1 } from
          Function.update_self .., show (freeInode s ip).itable ip =
          { s.itable ip with valid := false } from
          Function.update_self ..]
      dsimp only
      omega
    · exact (Function.update_of_ne hj _ _).trans (Function.update_of_ne hj _ _)
    · -- no other entry in use stands for the inode that is freed
      refine Function.update_of_ne (fun heq => hj ?_) _ _
      exact hs.unique jp ip hpos (by omega) heq

/-! ## Programs that keep no reference -/

/-- What keeps `Live`, whatever has not been locked yet. -/
def KeepsLive (m : FileM α) : Prop := ∀ h, Triple (Live h) m fun _ => Live h

namespace KeepsLive

theorem pure (a : α) : KeepsLive (Pure.pure a : FileM α) := fun _ => Triple.pure fun _ hs => hs

theorem failure : KeepsLive (failure : FileM α) := fun _ => Triple.failure

theorem bind {m : FileM α} {f : α → FileM β} (hm : KeepsLive m) (hf : ∀ a, KeepsLive (f a)) :
    KeepsLive (m >>= f) := fun h => (hm h).bind fun a => hf a h

theorem get {f : Files → FileM β} (hf : ∀ s, KeepsLive (f s)) : KeepsLive (get >>= f) :=
  fun h => Triple.get fun s hs => (hf s h).pre fun _ ht => ht ▸ hs

theorem ite {c : Prop} [Decidable c] {m n : FileM α} (hm : KeepsLive m) (hn : KeepsLive n) :
    KeepsLive (if c then m else n) := fun h => Triple.ite (fun _ => hm h) fun _ => hn h

/-- Neither the inode table nor the disk changes. -/
theorem modify {f : Files → Files} (hf : ∀ s, (f s).itable = s.itable ∧ (f s).dinode = s.dinode) :
    KeepsLive (modify f) := by
  refine fun h => Triple.modify fun s hs => ?_
  rw [Live, (hf s).1, (hf s).2]
  exact hs

theorem iput (ip : InodePtr) : KeepsLive (Xv6Paging.iput ip) :=
  fun _ => (iput_live ip).pre fun _ hs => hs.weaken ip

theorem ilock (ip : InodePtr) : KeepsLive (Xv6Paging.ilock ip) :=
  fun _ => ((ilock_live ip).pre fun _ hs => hs.weaken ip).post fun _ _ hs => hs.1

theorem beginTx : KeepsLive Xv6Paging.beginTx := modify fun _ => ⟨rfl, rfl⟩

theorem endTx : KeepsLive Xv6Paging.endTx := modify fun _ => ⟨rfl, rfl⟩

theorem setProcM (p : Fin nproc) (g : FileProc → FileProc) : KeepsLive (Xv6Paging.setProcM p g) :=
  modify fun _ => ⟨rfl, rfl⟩

theorem setKind (f : FilePtr) (kind : FileKind) : KeepsLive (Xv6Paging.setKind f kind) :=
  modify fun _ => ⟨rfl, rfl⟩

theorem setNlink (ip : InodePtr) (f : Int → Int) : KeepsLive (Xv6Paging.setNlink ip f) :=
  fun _ => Triple.modify fun _ hs => hs.setDinode _ fun h => h

theorem removeEntry (dp : InodePtr) (name : Name) : KeepsLive (Xv6Paging.removeEntry dp name) :=
  fun _ => Triple.modify fun _ hs => hs.setDinode _ fun h => h

theorem countDotDot (type : InodeType) (dp : InodePtr) (f : Int → Int) :
    KeepsLive (Xv6Paging.countDotDot type dp f) := ite (setNlink dp f) (pure _)

theorem filealloc : KeepsLive Xv6Paging.filealloc := by
  intro h s hs r s' he
  unfold Xv6Paging.filealloc at he
  split at he <;> cases he <;> exact hs

theorem filedup (f : FilePtr) : KeepsLive (Xv6Paging.filedup f) := by
  intro h s hs r s' he
  unfold Xv6Paging.filedup at he
  split at he
  · cases he
  · cases he
    exact hs

theorem filedrop (f : FilePtr) : KeepsLive (Xv6Paging.filedrop f) := by
  intro h s hs r s' he
  unfold Xv6Paging.filedrop at he
  split at he
  · cases he
  · split at he <;> cases he <;> exact hs

theorem fdalloc (p : Fin nproc) (f : FilePtr) : KeepsLive (Xv6Paging.fdalloc p f) := by
  intro h s hs r s' he
  unfold Xv6Paging.fdalloc at he
  split at he <;> cases he <;> exact hs

/-- `iput` in a transaction. -/
theorem iput_end (ip : InodePtr) : KeepsLive (do Xv6Paging.iput ip; Xv6Paging.endTx) :=
  (iput ip).bind fun _ => endTx

theorem fileclose (f : FilePtr) : KeepsLive (Xv6Paging.fileclose f) := by
  refine (filedrop f).bind fun kind => ?_
  cases kind with
  | none => exact pure _
  | pipe => exact pure _
  | inode ip => exact beginTx.bind fun _ => iput_end ip
  | device ip => exact beginTx.bind fun _ => iput_end ip

theorem fileclose_two (rf wf : FilePtr) :
    KeepsLive (do Xv6Paging.fileclose rf; Xv6Paging.fileclose wf) :=
  (fileclose rf).bind fun _ => fileclose wf

theorem freeprocFiles (p : Fin nproc) : KeepsLive (Xv6Paging.freeprocFiles p) := by
  refine get fun s => ?_
  split
  · rename_i ip _
    exact (iput ip).bind fun _ => setProcM _ _
  · exact setProcM _ _

theorem sysClose (p : Fin nproc) (fd : Fin nofile) : KeepsLive (Xv6Paging.sysClose p fd) := by
  refine get fun s => ?_
  split
  · exact pure _
  · rename_i f _
    exact (setProcM _ _).bind fun _ => fileclose f

theorem sysDup (p : Fin nproc) (fd : Fin nofile) : KeepsLive (Xv6Paging.sysDup p fd) := by
  refine get fun s => ?_
  split
  · exact pure _
  · rename_i f _
    refine (fdalloc p f).bind fun r => ?_
    cases r with
    | none => exact pure _
    | some _ => exact filedup f

theorem pipeFds (p : Fin nproc) (rf wf : FilePtr) (copied : Bool) :
    KeepsLive (Xv6Paging.pipeFds p rf wf copied) := by
  refine (fdalloc p rf).bind fun r => ?_
  cases r with
  | none => exact fileclose_two rf wf
  | some fd0 =>
    refine (fdalloc p wf).bind fun r => ?_
    cases r with
    | none => exact (setProcM _ _).bind fun _ => fileclose_two rf wf
    | some fd1 =>
      refine ite (pure _) ?_
      exact (setProcM _ _).bind fun _ => (setProcM _ _).bind fun _ => fileclose_two rf wf

theorem sysPipe (p : Fin nproc) (memory copied : Bool) :
    KeepsLive (Xv6Paging.sysPipe p memory copied) := by
  refine filealloc.bind fun r => ?_
  cases r with
  | none => exact pure _
  | some rf =>
    refine filealloc.bind fun r => ?_
    cases r with
    | none => exact fileclose rf
    | some wf =>
      refine ite ?_ (fileclose_two rf wf)
      exact (setKind _ _).bind fun _ => (setKind _ _).bind fun _ => pipeFds p rf wf copied

end KeepsLive

/-! ## Directories and paths -/

theorem dirlookup_live (dp : InodePtr) (name : Name) :
    Triple (Live h) (dirlookup dp name) fun r s => LiveWith r h s := by
  refine Triple.get fun s hs => Triple.ite (fun _ => Triple.failure) fun _ => ?_
  split
  · exact ((iget_live _).pre fun t ht => ht ▸ hs).bind fun ip => Triple.pure fun t ht => ht.1
  · exact Triple.pure fun t ht => ht ▸ hs

theorem KeepsLive.dirlink (dp : InodePtr) (name : Name) (inum : Nat) (room : Bool) :
    KeepsLive (Xv6Paging.dirlink dp name inum room) := by
  refine fun h => (dirlookup_live dp name).bind fun r => ?_
  cases r with
  | some ip => exact (iput_live ip).bind fun _ => Triple.pure fun s hs => hs
  | none =>
    refine Triple.ite (fun _ => ?_) fun _ => Triple.pure fun s hs => hs
    refine Triple.bind (Q := fun _ => Live h) (Triple.modify fun s hs => ?_) fun _ =>
      Triple.pure fun s hs => hs
    exact hs.setDinode _ fun h => h

theorem namexLoop_live (parent : Bool) : ∀ (elems : List Name) (ip : InodePtr),
    Triple (Live (ip :: h)) (namexLoop parent elems ip) fun r s =>
      LiveWith (r.map Prod.fst) h s := by
  intro elems
  induction elems with
  | nil =>
    intro ip
    refine Triple.ite (fun _ => ?_) fun _ => Triple.pure fun s hs => hs
    exact (iput_live ip).bind fun _ => Triple.pure fun s hs => hs
  | cons name rest ih =>
    intro ip
    refine (ilock_live ip).bind fun _ => Triple.get fun s hs => Triple.ite (fun _ => ?_) fun _ =>
      Triple.ite (fun _ => ?_) fun _ => ?_
    · exact ((KeepsLive.iput ip h).pre fun t (ht : t = s) => ht ▸ hs.1).bind fun _ =>
        Triple.pure fun s hs => hs
    · exact Triple.pure fun t (ht : t = s) => ht ▸ hs.1.weaken ip
    · refine Triple.bind ((dirlookup_live ip name).pre fun t (ht : t = s) => ht ▸ hs.1) fun r => ?_
      cases r with
      | none => exact (KeepsLive.iput ip h).bind fun _ => Triple.pure fun s hs => hs
      | some next => exact (KeepsLive.iput ip (next :: h)).bind fun _ => ih next

/-- The current directory is in use. -/
def CwdHeld (p : Fin nproc) (s : Files) : Prop :=
  ∀ ip, (s.proc p).cwd = some ip → 0 < (s.itable ip).ref

theorem Owns.cwdHeld (hs : Owns l m s) (p : Fin nproc) :
    CwdHeld p s := by
  intro ip hip
  refine hs.ref_pos_of_proc (p := p) ?_
  rw [procInodes, hip, points_self]
  omega

theorem namex_live (p : Fin nproc) (path : FsPath) (parent : Bool) :
    Triple (fun s => Live h s ∧ CwdHeld p s) (namex p path parent)
      fun r s => LiveWith (r.map Prod.fst) h s := by
  refine Triple.get fun s hs => Triple.ite (fun _ => ?_) fun _ => ?_
  · refine Triple.bind ((iget_live _).pre fun t (ht : t = s) => ht ▸ hs.1) fun ip => ?_
    exact (namexLoop_live parent path.elems ip).pre fun t ht => ht.1
  · split
    · rename_i cwd hcwd
      refine Triple.bind ((idup_live (h := h) cwd).pre fun t ht => ?_) fun ip => ?_
      · subst ht
        exact ⟨hs.1, hs.2 cwd hcwd⟩
      · refine Triple.fact (fun t ht => ht.1) ?_
        rintro rfl
        exact (namexLoop_live parent path.elems ip).pre fun t ht => ht.2
    · exact Triple.failure

/-! ## New inodes -/

theorem ialloc_live (htype : type ≠ .free) : KeepsLive (ialloc type) := by
  refine fun h => Triple.get fun s hs => ?_
  split
  · rename_i n _
    refine Triple.bind
      (Q := fun _ t => t = s.setDinode n { type := type, nlink := 0, entries := [] })
      (Triple.modify fun t (ht : t = s) => by rw [ht]) fun _ => ?_
    refine Triple.bind
      (((iget_live (h := h) n).and
      (iget_dinode n (D := (s.setDinode n { type := type, nlink := 0, entries := [] }).dinode))).pre
      fun t ht => ?_) fun ip => Triple.pure fun t ht => ?_
    · subst ht
      exact ⟨hs.setDinode n fun _ => htype, rfl⟩
    · -- the inode has just been allocated
      refine ht.1.1.known ?_
      rw [Files.disk, ht.1.2, ht.2, setDinode_self]
      exact htype
  · exact Triple.pure fun t ht => ht ▸ hs

theorem KeepsLive.linkDots (type : InodeType) (ip dp : InodePtr) (room : Bool) :
    KeepsLive (Xv6Paging.linkDots type ip dp room) := by
  refine .ite (.get fun s => (dirlink _ _ _ _).bind fun one => ?_) (.pure _)
  exact .ite (dirlink _ _ _ _) (.pure _)

theorem KeepsLive.linkName (dots : Bool) (dp ip : InodePtr) (name : Name) (room : Bool) :
    KeepsLive (Xv6Paging.linkName dots dp ip name room) :=
  .ite (.get fun _ => dirlink _ _ _ _) (.pure _)

theorem KeepsLive.createAt (type : InodeType) (dp ip : InodePtr) (name : Name) (room : Bool) :
    KeepsLive (Xv6Paging.createAt type dp ip name room) := by
  refine (ilock ip).bind fun _ => (setNlink ip _).bind fun _ => (linkDots type ip dp room).bind
    fun dots => ?_
  refine (linkName dots dp ip name room).bind fun linked => .ite ?_ ?_
  · exact (countDotDot type dp _).bind fun _ => (iput dp).bind fun _ => .pure _
  · exact (setNlink ip _).bind fun _ => (iput ip).bind fun _ => (iput dp).bind fun _ => .pure _

/-- What `create` returns is locked. -/
theorem create_live (p : Fin nproc) (path : FsPath) (htype : type ≠ .free) (room : Bool) :
    Triple (fun s => Live h s ∧ CwdHeld p s) (create p path type room) fun _ => Live h := by
  refine (namex_live p path true).bind fun r => ?_
  rcases r with _ | ⟨dp, name⟩
  · exact Triple.pure fun s hs => hs
  refine Triple.bind ((ilock_live dp).post fun _ s hs => hs.1) fun _ => ?_
  refine (dirlookup_live dp name).bind fun r => ?_
  cases r with
  | some ip =>
    refine (KeepsLive.iput dp (ip :: h)).bind fun _ => ?_
    refine Triple.bind ((ilock_live ip).post fun _ s hs => hs.1) fun _ => Triple.get fun s hs => ?_
    refine Triple.ite (fun _ => Triple.pure fun t ht => ht ▸ hs) fun _ => ?_
    exact ((KeepsLive.iput ip h).pre fun t (ht : t = s) => ht ▸ hs).bind fun _ =>
      Triple.pure fun t ht => ht
  | none =>
    refine (ialloc_live htype h).bind fun r => ?_
    cases r with
    | none => exact (KeepsLive.iput dp h).bind fun _ => Triple.pure fun s hs => hs
    | some ip => exact KeepsLive.createAt type dp ip name room h

/-! ## System calls -/

theorem openInode_live (p : Fin nproc) (path : FsPath) (creat rdonly room : Bool) :
    Triple (fun s => Live h s ∧ CwdHeld p s) (openInode p path creat rdonly room) fun _ =>
      Live h := by
  refine Triple.ite (fun _ => create_live p path (by simp) room) fun _ => ?_
  refine (namex_live p path false).bind fun r => ?_
  rcases r with _ | ⟨ip, name⟩
  · exact Triple.pure fun s hs => hs
  refine Triple.bind ((ilock_live ip).post fun _ s hs => hs.1) fun _ => Triple.get fun s hs => ?_
  refine Triple.ite (fun _ => ?_) fun _ => Triple.pure fun t ht => ht ▸ hs
  exact ((KeepsLive.iput ip h).pre fun t (ht : t = s) => ht ▸ hs).bind fun _ =>
    Triple.pure fun s hs => hs

/-- A call that begins with a transaction. -/
theorem beginTx_live (p : Fin nproc) :
    Triple (fun s => Live h s ∧ CwdHeld p s) beginTx fun _ s => Live h s ∧ CwdHeld p s :=
  Triple.modify fun _ hs => hs

theorem sysOpen_live (p : Fin nproc) (path : FsPath) (creat rdonly room major : Bool) :
    Triple (fun s => Live h s ∧ CwdHeld p s) (sysOpen p path creat rdonly room major) fun _ =>
      Live h := by
  refine (beginTx_live p).bind fun _ => (openInode_live p path creat rdonly room).bind fun r => ?_
  cases r with
  | none => exact KeepsLive.endTx h
  | some ip =>
    refine KeepsLive.get (fun s => .ite (.iput_end ip) ?_) h
    refine KeepsLive.filealloc.bind fun r => ?_
    cases r with
    | none => exact .iput_end ip
    | some f =>
      refine (KeepsLive.fdalloc p f).bind fun r => ?_
      cases r with
      | none => exact (KeepsLive.fileclose f).bind fun _ => .iput_end ip
      | some fd => exact (KeepsLive.setKind f _).bind fun _ => .endTx

theorem sysChdir_live (p : Fin nproc) (path : FsPath) :
    Triple (fun s => Live h s ∧ CwdHeld p s) (sysChdir p path) fun _ => Live h := by
  refine (beginTx_live p).bind fun _ => (namex_live p path false).bind fun r => ?_
  rcases r with _ | ⟨ip, name⟩
  · exact KeepsLive.endTx h
  refine Triple.bind ((ilock_live ip).post fun _ s hs => hs.1) fun _ =>
    KeepsLive.get (fun s => ?_) h
  refine .ite (.iput_end ip) ?_
  split
  · exact .failure
  · rename_i cwd _
    exact (KeepsLive.iput cwd).bind fun _ => KeepsLive.endTx.bind fun _ => .setProcM _ _

theorem linkInode_live (p : Fin nproc) (ip : InodePtr) (new : FsPath) (room : Bool) :
    Triple (fun s => Live h s ∧ CwdHeld p s) (linkInode p ip new room) fun _ => Live h := by
  refine (namex_live p new true).bind fun r => ?_
  rcases r with _ | ⟨dp, name⟩
  · exact Triple.pure fun s hs => hs
  refine Triple.bind ((ilock_live dp).post fun _ s hs => hs.1) fun _ =>
    KeepsLive.get (fun s => ?_) h
  exact (KeepsLive.dirlink _ _ _ _).bind fun _ => (KeepsLive.iput dp).bind fun _ => .pure _

/-- The first path is looked up before the second one, so that the references have to be counted. -/
theorem sysLink_live (p : Fin nproc) (old new : FsPath) (room : Bool) :
    Triple (fun s => Good l m (fun _ => True) s ∧ Live h s) (sysLink p old new room)
      fun _ => Live h := by
  have hR : RefStable fun _ => True := ⟨⟨fun _ _ _ => trivial⟩, fun _ _ _ _ => trivial⟩
  refine Triple.bind (Q := fun _ s => Good l m (fun _ => True) s ∧ Live h s)
    (Triple.modify fun s hs => ⟨⟨hs.1.1.congr rfl rfl rfl rfl, trivial⟩, hs.2⟩) fun _ => ?_
  refine Triple.bind
    (((namex_spec (l := l) (m := m) hR p old false).and (namex_live p old false)).pre
    fun s hs => ⟨hs.1, hs.2, hs.1.1.cwdHeld p⟩) fun r => ?_
  rcases r with _ | ⟨ip, name⟩
  · exact (KeepsLive.endTx h).pre fun s hs => hs.2
  refine Triple.bind (Q := fun _ s => (∃ n, Good ((ip, n) :: l) m (fun _ => True) s) ∧ Live h s) ?_
    fun _ => ?_
  · refine (((Triple.exists fun n => (ilock_spec hR.toEntryStable ip).post
      fun _ s hs => ⟨n, hs⟩).and (ilock_live ip)).post fun _ s hs => ⟨hs.1, hs.2.1⟩)
  refine Triple.get fun s hs =>
    Triple.ite (fun _ => (KeepsLive.iput_end ip h).pre fun t ht => ht ▸ hs.2) fun _ => ?_
  refine Triple.bind (Q := fun _ s => Live h s ∧ CwdHeld p s) ?_ fun _ =>
    (linkInode_live p ip new room).bind fun linked => ?_
  · refine Triple.modify fun t ht => ?_
    subst ht
    obtain ⟨n, hgood⟩ := hs.1
    exact ⟨hs.2.setDinode _ fun h => h, hgood.1.cwdHeld p⟩
  · refine KeepsLive.ite (.iput_end ip) ?_ h
    exact (KeepsLive.ilock ip).bind fun _ => (KeepsLive.setNlink ip _).bind fun _ => .iput_end ip

theorem unlinkInode_live (dp ip : InodePtr) (name : Name) :
    Triple (Live (ip :: h)) (unlinkInode dp ip name) fun _ => Live h := by
  refine Triple.bind ((ilock_live ip).post fun _ s hs => hs.1) fun _ =>
    KeepsLive.get (fun s => ?_) h
  refine .ite .failure (.ite ?_ ?_)
  · exact (KeepsLive.iput ip).bind fun _ => .iput_end dp
  · refine (KeepsLive.removeEntry dp name).bind fun _ => (KeepsLive.countDotDot _ dp _).bind
      fun _ => ?_
    exact (KeepsLive.iput dp).bind fun _ => (KeepsLive.setNlink ip _).bind fun _ => .iput_end ip

theorem sysUnlink_live (p : Fin nproc) (path : FsPath) :
    Triple (fun s => Live h s ∧ CwdHeld p s) (sysUnlink p path) fun _ => Live h := by
  refine (beginTx_live p).bind fun _ => (namex_live p path true).bind fun r => ?_
  rcases r with _ | ⟨dp, name⟩
  · exact KeepsLive.endTx h
  refine Triple.bind ((ilock_live dp).post fun _ s hs => hs.1) fun _ => ?_
  refine Triple.ite (fun _ => KeepsLive.iput_end dp h) fun _ => (dirlookup_live dp name).bind
    fun r => ?_
  cases r with
  | none => exact KeepsLive.iput_end dp h
  | some ip => exact unlinkInode_live dp ip name

theorem sysMake_live (p : Fin nproc) (path : FsPath) (htype : type ≠ .free) (room : Bool) :
    Triple (fun s => Live h s ∧ CwdHeld p s) (sysMake p path type room) fun _ => Live h := by
  refine (beginTx_live p).bind fun _ => (create_live p path htype room).bind fun r => ?_
  cases r with
  | none => exact KeepsLive.endTx h
  | some ip => exact KeepsLive.iput_end ip h

theorem swapfileOpen_live (p : Fin nproc) (room : Bool) :
    Triple (fun s => Live h s ∧ CwdHeld p s) (swapfileOpen p room) fun _ => Live h := by
  refine Triple.get fun s hs => ?_
  split
  · exact Triple.pure fun t ht => ht ▸ hs.1
  refine Triple.bind ((beginTx_live p).pre fun t (ht : t = s) => ht ▸ hs) fun _ => ?_
  refine (create_live p _ (by simp) room).bind fun r => ?_
  cases r with
  | none => exact KeepsLive.endTx h
  | some ip =>
    refine (KeepsLive.filealloc.bind fun r => ?_) h
    cases r with
    | none => exact .iput_end ip
    | some f =>
      exact (KeepsLive.setKind f _).bind fun _ => (KeepsLive.setProcM p _).bind
        fun _ => .endTx

theorem swapfileUnlink_live (p : Fin nproc) :
    Triple (fun s => Live h s ∧ CwdHeld p s) (swapfileUnlink p) fun _ => Live h := by
  refine Triple.get fun s hs => ?_
  refine Triple.bind ((beginTx_live p).pre fun t (ht : t = s) => ht ▸ hs) fun _ => ?_
  refine (namex_live p _ true).bind fun r => ?_
  rcases r with _ | ⟨dp, name⟩
  · exact KeepsLive.endTx h
  refine Triple.bind ((ilock_live dp).post fun _ s hs => hs.1) fun _ => ?_
  refine (dirlookup_live dp name).bind fun r => ?_
  cases r with
  | none => exact KeepsLive.iput_end dp h
  | some ip =>
    refine Triple.bind ((ilock_live ip).post fun _ s hs => hs.1) fun _ => ?_
    refine ((KeepsLive.removeEntry dp name).bind fun _ => (KeepsLive.setNlink ip _).bind
      fun _ => ?_) h
    exact (KeepsLive.iput ip).bind fun _ => .iput_end dp

/-! ## Processes -/

theorem kexecFiles_live (p : Fin nproc) (path : FsPath) (how : ExecEnd) :
    Triple (fun s => Live h s ∧ CwdHeld p s) (kexecFiles p path how) fun _ => Live h := by
  refine (beginTx_live p).bind fun _ => (namex_live p path false).bind fun r => ?_
  rcases r with _ | ⟨ip, name⟩
  · exact KeepsLive.endTx h
  refine Triple.bind ((ilock_live ip).post fun _ s hs => hs.1) fun _ =>
    KeepsLive.get (fun s => ?_) h
  split
  · exact (KeepsLive.setProcM p _).bind fun _ => .endTx
  · exact (KeepsLive.ilock ip).bind fun _ => .iput_end ip
  · intro h
    refine Triple.bind ((ilock_live ip).pre fun s hs => hs.weaken ip) fun _ => ?_
    refine Triple.bind ((idup_live ip).pre fun s hs => ⟨hs.1, hs.2.1⟩) fun dup => ?_
    refine Triple.fact (fun t ht => ht.1) ?_
    rintro rfl
    -- one reference stays with the process, the other one is given back
    refine Triple.bind (Q := fun _ => Live (dup :: h)) (Triple.modify fun t ht => ht.2) fun _ => ?_
    refine (KeepsLive.setProcM p _ (dup :: h)).bind fun _ => ?_
    exact (iput_live dup).bind fun _ => KeepsLive.endTx h

/-- What a process points to is in use. -/
def PointsHeld (e : FileProc) (s : Files) : Prop :=
  ∀ ip, 0 < procInodes ip e → 0 < (s.itable ip).ref

theorem idup_held {e : FileProc} (ip : InodePtr) (hip : 0 < procInodes ip e) :
    Triple (fun s => Live [] s ∧ PointsHeld e s) (idup ip) fun _ s => Live [] s ∧
    PointsHeld e s := by
  rintro s ⟨hs, hheld⟩ jp s' he
  cases he
  have hpos := hheld ip hip
  refine ⟨hs.keepInode hpos rfl .inl (fun _ => .inl hpos) fun jp _ => le_rfl, fun kp hk => ?_⟩
  by_cases hki : kp = ip
  · rw [hki, show (s.setInode ip { s.itable ip with ref := (s.itable ip).ref + 1 }).itable ip =
      { s.itable ip with ref := (s.itable ip).ref + 1 } from Function.update_self ..]
    exact Nat.succ_pos _
  · rw [show (s.setInode ip { s.itable ip with ref := (s.itable ip).ref + 1 }).itable kp =
      s.itable kp from Function.update_of_ne hki _ _]
    exact hheld kp hk

theorem dupFiles_live {e : FileProc} (p np : Fin nproc) : ∀ fds,
    Triple (fun s => Live h s ∧ PointsHeld e s) (dupFiles p np fds) fun _ s => Live h s ∧
    PointsHeld e s := by
  intro fds
  induction fds with
  | nil => exact Triple.pure fun s hs => hs
  | cons fd fds ih =>
    refine Triple.get fun s hs => ?_
    split
    · refine Triple.bind (Q := fun _ s => Live h s ∧ PointsHeld e s) ?_ fun _ =>
        Triple.bind (Q := fun _ s => Live h s ∧ PointsHeld e s) (Triple.modify fun t ht => ht)
          fun _ => ih
      intro t ht u t' he
      subst ht
      unfold filedup at he
      split at he
      · cases he
      · cases he
        exact hs
    · exact ih.pre fun t ht => ht ▸ hs

theorem kforkFiles_live (p np : Fin nproc) (memory : Bool) :
    Triple (fun s => Live [] s ∧ PointsHeld (s.proc p) s) (kforkFiles p np memory) fun _ =>
      Live [] := by
  refine Triple.get fun s hs => ?_
  have hset : ∀ q g, Triple (fun t => Live [] t ∧ PointsHeld (s.proc p) t) (setProcM q g)
      fun _ t => Live [] t ∧ PointsHeld (s.proc p) t := fun q g => Triple.modify fun t ht => ht
  refine Triple.bind (Q := fun _ t => Live [] t ∧ PointsHeld (s.proc p) t)
    (Triple.modify fun t ht => ?_) fun _ => ?_
  · subst ht
    exact hs
  refine (hset np _).bind fun _ => Triple.ite (fun _ => ?_) fun _ => ?_
  · refine (dupFiles_live p np _).bind fun _ => ?_
    split
    · exact Triple.failure
    · rename_i cwd hcwd
      have hip : 0 < procInodes cwd (s.proc p) := by
        rw [procInodes, hcwd, points_self]
        omega
      refine (idup_held cwd hip).bind fun ip => (hset np _).bind fun _ => ?_
      split
      · exact (hset np _).post fun _ t ht => ht.1
      · rename_i x hx
        have hxp : 0 < procInodes x (s.proc p) := by
          rw [procInodes, hx, points_self]
          omega
        exact (idup_held x hxp).bind fun _ => (hset np _).post fun _ t ht => ht.1
  · exact (KeepsLive.freeprocFiles np []).pre fun t ht => ht.1

theorem exitNext_live (p : Fin nproc) :
    Triple (fun s => Live h s ∧ CwdHeld p s) (exitNext p) fun _ => Live h := by
  refine Triple.get fun s hs => ?_
  -- all but unlinking the swap file
  have hkeep : ∀ {prog : FileM Unit}, KeepsLive prog → Triple (fun t => t = s) prog
      fun _ => Live h :=
    fun hprog => (hprog h).pre fun t ht => ht ▸ hs.1
  split
  · split
    · rename_i f _
      exact hkeep ((KeepsLive.fileclose f).bind fun _ => .setProcM _ _)
    · exact hkeep (.pure _)
  · split
    · rename_i ip _
      refine hkeep (KeepsLive.beginTx.bind fun _ => (KeepsLive.iput ip).bind fun _ => ?_)
      exact KeepsLive.endTx.bind fun _ => .setProcM _ _
    · split
      · rename_i f _
        refine Triple.ite (fun _ => ?_) fun _ =>
          hkeep ((KeepsLive.fileclose f).bind fun _ => .setProcM _ _)
        exact Triple.bind ((swapfileUnlink_live p).pre fun t (ht : t = s) => ht ▸ hs) fun _ =>
          KeepsLive.setProcM p _ h
      · exact hkeep (.setProcM _ _)

/-! ## Steps -/

/-- The references of a process that may be locked. -/
theorem step_live {s s' : Files} {a : FileAct} (howns : Owns l m s) (hs : Live [] s)
    (hstep : s.step a = some s') : Live [] s' := by
  unfold Files.step at hstep
  split at hstep
  swap
  · cases hstep
  rename_i hcan
  obtain ⟨-, -, happlies⟩ := hcan
  obtain ⟨⟨u, t⟩, hprog, rfl⟩ := Option.map_eq_some_iff.mp hstep
  have hcall : ∀ p {prog : FileM Unit},
      Triple (fun s => Live [] s ∧ CwdHeld p s) prog (fun _ => Live []) → prog s = some (u, t) →
      Live [] t :=
    fun p prog hspec hprog => hspec s ⟨hs, howns.cwdHeld p⟩ u t hprog
  cases a with
  | fork p np memory =>
    exact kforkFiles_live p np memory s ⟨hs, fun ip hip => howns.ref_pos_of_proc hip⟩ u t hprog
  | exec p path how => exact hcall p (kexecFiles_live p path how) hprog
  | swapfileCreate p room =>
    exact hcall p ((swapfileOpen_live p room).bind fun _ => KeepsLive.setProcM p _ []) hprog
  | exit p =>
    cases hprog
    exact hs
  | exitNext p => exact hcall p (exitNext_live p) hprog
  | wait p c => exact KeepsLive.freeprocFiles c [] s hs u t hprog
  | openFile p path creat rdonly room major =>
    exact hcall p (sysOpen_live p path creat rdonly room major) hprog
  | close p fd => exact KeepsLive.sysClose p fd [] s hs u t hprog
  | dup p fd => exact KeepsLive.sysDup p fd [] s hs u t hprog
  | chdir p path => exact hcall p (sysChdir_live p path) hprog
  | link p old new room => exact sysLink_live p old new room s ⟨⟨howns, trivial⟩, hs⟩ u t hprog
  | unlink p path => exact hcall p (sysUnlink_live p path) hprog
  | make p path type room =>
    have htype : type ≠ .free := by simpa [FileAct.applies] using happlies
    exact hcall p (sysMake_live p path htype room) hprog
  | pipe p memory copied => exact KeepsLive.sysPipe p memory copied [] s hs u t hprog

end

end Xv6Paging
