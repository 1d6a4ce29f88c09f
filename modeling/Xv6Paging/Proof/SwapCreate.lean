import Xv6Paging.Proof.LinkCounts

/-!
# What `swapfile_create` leaves behind

`swapfile_create` makes the swap file before it has an entry of the file table for it. If there is
none left, the file stays in the root directory. With an entry of the file table, or a file that was
there before, a `swapfile_create` that fails leaves everything as it was.
-/

namespace Xv6Paging

open Lib

/-! ## What a call has left alone -/

/-- Inode `n` is as it was; one that was free may have been used and freed again. -/
def SameInode (s t : Files) (n : Nat) : Prop :=
  ((s.dinode n).type ≠ .free → t.dinode n = s.dinode n) ∧
    ((s.dinode n).type = .free → (t.dinode n).type = .free)

/-- Nobody has got or lost a pointer, and the entries that were in use go on standing for their
inodes. -/
structure Since (s t : Files) : Prop where
  proc : t.proc = s.proc
  ftable : t.ftable = s.ftable
  lost : t.lost = s.lost
  inum : ∀ ip, 0 < (s.itable ip).ref → (t.itable ip).inum = (s.itable ip).inum

/-- Inodes are as they were, too. -/
def LeftAlone (s t : Files) : Prop := Since s t ∧ ∀ n, SameInode s t n

section

variable {l : List (InodePtr × Nat)} {m : List FilePtr} {s t : Files} {n : Nat} {ip : InodePtr}

theorem Since.ref (h : Since s t) (hs : Owns [] [] s) (ht : Owns l m t) (ip : InodePtr) :
    (t.itable ip).ref = (s.itable ip).ref + (l.map Prod.fst).count ip := by
  have hold := hs.inodes ip
  have hnew := ht.inodes ip
  rw [h.proc, h.ftable, h.lost] at hnew
  simp only [List.map_nil, List.count_nil, Nat.add_zero] at hold
  omega

theorem since_entryStable (hs : Owns [] [] s) : EntryStable (Since s) where
  entry {l m t ip e} howns ht hcase := by
    refine ⟨ht.proc, ht.ftable, ht.lost, fun jp hj => ?_⟩
    by_cases hji : jp = ip
    · subst hji
      rw [show (t.setInode jp e).itable jp = e from Function.update_self ..]
      rcases hcase with hzero | hinum
      · have href := ht.ref hs howns jp
        omega
      · rw [hinum]
        exact ht.inum jp hj
    · rw [show (t.setInode ip e).itable jp = t.itable jp from Function.update_of_ne hji _ _]
      exact ht.inum jp hj

theorem leftAlone_entryStable (hs : Owns [] [] s) : EntryStable (LeftAlone s) where
  entry howns ht hcase := ⟨(since_entryStable hs).entry howns ht.1 hcase, ht.2⟩

theorem SameInode.allocated (h : SameInode s t n) (hfree : (t.dinode n).type = .free) :
    (s.dinode n).type = .free := by
  by_contra hne
  rw [h.1 hne] at hfree
  exact hne hfree

/-! ## Inodes that have links -/

theorem iput_linked_spec {I : Files → Prop} (hI : EntryStable I) (ip : InodePtr)
    (hn : ∀ t, I t → (t.dinode n).nlink ≠ 0) :
    Triple (Good ((ip, n) :: l) m I) (iput ip) fun _ => Good l m I := by
  refine iput_cases_spec hI ip n (fun t ht hlast => ?_) fun t ht _ => ht
  simp only [Files.lastRef, Bool.and_eq_true, beq_iff_eq] at hlast
  have hzero := hlast.2
  rw [Files.disk, ht.1.known _ List.mem_cons_self] at hzero
  exact absurd hzero (hn t ht.2)

theorem Consistent.root_type (hs : Consistent s) : (s.dinode rootIno).type ≠ .free := by
  rw [hs.linked.root]
  simp

theorem Consistent.root_linked (hs : Consistent s) : (s.dinode rootIno).nlink ≠ 0 :=
  fun hzero => (hs.linked.no_names (fun _ => le_rfl) hzero).2 rfl

theorem Consistent.named_linked (hs : Consistent s) {pid : Nat}
    (h : HasName (swapName pid) n s.root) : (s.dinode n).type ≠ .free ∧ (s.dinode n).nlink ≠ 0 := by
  obtain ⟨e, hfind, rfl⟩ := h
  obtain ⟨hdot, hdots⟩ := swapName_ne_dots pid
  have hname : e.1 = swapName pid := by simpa using List.find?_some hfind
  have hlink : isLink e = true := by simp [isLink, hname, hdot, hdots]
  have hroot : rootIno < s.ninodes := by
    by_contra hge
    exact hs.root_type (hs.linked.bound _ (by omega))
  have hmem := List.mem_of_find?_eq_some hfind
  refine ⟨fun hfree => ?_, fun hzero => ?_⟩
  · exact not_named (hs.linked.named _ hfree) hroot hmem hlink rfl
  · exact not_named (hs.linked.no_names (fun _ => le_rfl) hzero).1 hroot hmem hlink rfl

theorem LeftAlone.root (h : LeftAlone s t) (hs : Consistent s) :
    t.dinode rootIno = s.dinode rootIno :=
  (h.2 rootIno).1 hs.root_type

/-! ## A new swap file -/

/-- Inode `n` was free and is the one of the new swap file. -/
structure Pending (s : Files) (n : Nat) (t : Files) : Prop where
  since : Since s t
  was : (s.dinode n).type = .free
  same : ∀ j, j ≠ n → SameInode s t j

theorem pending_entryStable (hs : Owns [] [] s) (n : Nat) : EntryStable (Pending s n) where
  entry howns ht hcase := ⟨(since_entryStable hs).entry howns ht.since hcase, ht.was, ht.same⟩

theorem Pending.root (h : Pending s n t) (hs : Consistent s) :
    t.dinode rootIno = s.dinode rootIno := by
  refine (h.same rootIno fun hroot => ?_).1 hs.root_type
  exact hs.root_type (hroot ▸ h.was)

theorem Pending.setDinode (h : Pending s n t) (d : Dinode) : Pending s n (t.setDinode n d) := by
  refine ⟨⟨h.since.proc, h.since.ftable, h.since.lost, h.since.inum⟩, h.was, fun j hj => ?_⟩
  rw [SameInode, setDinode_ne t d hj]
  exact h.same j hj

/-- Nobody had the new inode. -/
theorem Pending.ref (h : Pending s n t) (hs : Consistent s) (ht : Owns l m t)
    (hip : (ip, n) ∈ l) : (t.itable ip).ref = (l.map Prod.fst).count ip := by
  have hnone : (s.itable ip).ref = 0 := by
    by_contra hpos
    have hinum := h.since.inum ip (Nat.pos_of_ne_zero hpos)
    have hlive := hs.live.alloc ip (Nat.pos_of_ne_zero hpos)
    rw [← hinum, ht.known _ hip] at hlive
    exact hlive h.was
  rw [h.since.ref hs.owns ht, hnone, Nat.zero_add]

theorem ilock_valid {I : Files → Prop} (hI : EntryStable I) (ip : InodePtr) :
    Triple (Good l m I) (ilock ip) fun _ t => Good l m I t ∧ (t.itable ip).valid = true := by
  intro t ht u t' he
  refine ⟨ilock_spec hI ip t ht u t' he, ?_⟩
  unfold ilock at he
  split at he
  · cases he
  · split at he
    · cases he
      assumption
    · split at he
      · cases he
      · cases he
        rw [show (t.setInode ip { t.itable ip with valid := true }).itable ip =
          { t.itable ip with valid := true } from Function.update_self ..]

/-- Looking for a name that is not there. -/
theorem dirlookup_noName {P : Files → Prop} (dp : InodePtr) (name : Name)
    (hP : ∀ t, P t → (t.disk dp).type = .dir ∧ NoName name (t.disk dp).entries) :
    Triple P (dirlookup dp name) fun r t => r = none ∧ P t := by
  refine Triple.get fun t ht => ?_
  obtain ⟨hdir, hno⟩ := hP t ht
  refine Triple.ite (fun h => absurd hdir h) fun _ => ?_
  rw [show (t.disk dp).entries.find? (fun e => e.1 == name) = none from hno]
  exact Triple.pure fun t' ht' => ⟨rfl, ht' ▸ ht⟩

/-- Only the name `name` may be new in the root directory. -/
def OnlyNew (s : Files) (name : Name) (t : Files) : Prop := ∀ x ∈ t.root, x ∈ s.root ∨ x.1 = name

/-- A name that was not there has been made. -/
structure Made (s : Files) (pid : Nat) (t : Files) : Prop where
  since : Since s t
  wasNot : NoName (swapName pid) s.root
  only : OnlyNew s (swapName pid) t
  linked : (t.dinode rootIno).nlink ≠ 0

theorem made_entryStable (hs : Owns [] [] s) (pid : Nat) : EntryStable (Made s pid) where
  entry howns ht hcase :=
    ⟨(since_entryStable hs).entry howns ht.since hcase, ht.wasNot, ht.only, ht.linked⟩

/-- The last reference to the new inode goes, so that it is free again. -/
theorem iput_pending (hs : Consistent s) (dp ip : InodePtr) :
    Triple (fun t => (Good [(ip, n), (dp, rootIno)] m (Pending s n) t ∧
      (t.itable ip).valid = true) ∧
      (t.dinode n).nlink = 0) (iput ip) fun _ => Good [(dp, rootIno)] m (LeftAlone s) := by
  let last : Files → Prop := fun t => Pending s n t ∧ t.lastRef ip = true ∧ (t.itable ip).inum = n
  refine (iput_cases_spec (I := LeftAlone s) (l := [(dp, rootIno)]) (m := m)
    (leftAlone_entryStable hs.owns) ip n (fun t ht hlast => ?_) fun t (ht : last t) hlast => ?_).pre
    fun t ht => ?_
  · refine ⟨⟨ht.2.1.since.proc, ht.2.1.since.ftable, ht.2.1.since.lost, fun jp hj => ?_⟩,
      fun j => ?_⟩
    · rw [← ht.2.1.since.inum jp hj]
      by_cases hji : jp = ip
      · rw [hji, show (freeInode t ip).itable ip = { t.itable ip with valid := false } from
          Function.update_self ..]
      · rw [show (freeInode t ip).itable jp = t.itable jp from Function.update_of_ne hji _ _]
    · have hdisk : (freeInode t ip).dinode = Function.update t.dinode n
          { t.dinode n with type := .free, entries := [] } := by
        rw [← ht.2.2.2]
        rfl
      by_cases hj : j = n
      · subst hj
        refine ⟨fun hne => absurd ht.2.1.was hne, fun _ => ?_⟩
        rw [hdisk, Function.update_self]
      · rw [SameInode, hdisk, Function.update_of_ne hj]
        exact ht.2.1.same j hj
  · rw [ht.2.1] at hlast
    cases hlast
  · have hinum := ht.1.1.1.known _ List.mem_cons_self
    have hne : ip ≠ dp := by
      rintro rfl
      have hroot := ht.1.1.1.known (ip, rootIno) (List.mem_cons_of_mem _ List.mem_cons_self)
      dsimp only at hinum hroot
      exact hs.root_type (hroot ▸ hinum ▸ ht.1.1.2.was)
    have href := ht.1.1.2.ref hs ht.1.1.1 List.mem_cons_self
    rw [List.map_cons, List.count_cons_self, List.map_singleton, count_cons_ne hne,
      List.count_nil] at href
    refine ⟨ht.1.1.1, ht.1.1.2, ?_, hinum⟩
    simp only [Files.lastRef, Files.disk, href, ht.1.2, hinum, ht.2]
    rfl

theorem createAt_pending (hs : Consistent s) {pid : Nat} (hno : NoName (swapName pid) s.root)
    (dp ip : InodePtr) (room : Bool) :
    Triple (Good [(ip, n), (dp, rootIno)] m (Pending s n))
      (createAt .file dp ip (swapName pid) room)
      fun r t => r.elim (Good [] m (LeftAlone s) t) fun ip =>
        ∃ k, Good [(ip, k)] m (Made s pid) t := by
  have hip : (ip, n) ∈ [(ip, n), (dp, rootIno)] := List.mem_cons_self
  have hdp : (dp, rootIno) ∈ [(ip, n), (dp, rootIno)] := List.mem_cons_of_mem _ List.mem_cons_self
  -- what holds until the name is written
  let P : Files → Prop := fun t =>
    Good [(ip, n), (dp, rootIno)] m (Pending s n) t ∧ (t.itable ip).valid = true
  have hset : ∀ v : Int, Triple P (setNlink ip fun _ => v) fun _ t =>
      P t ∧ (t.dinode n).nlink = v := by
    intro v
    refine Triple.modify fun t ht => ?_
    rw [Files.setDisk, Files.disk, ht.1.1.known _ hip]
    refine ⟨⟨⟨ht.1.1.congr rfl rfl rfl rfl, ht.1.2.setDinode _⟩, ht.2⟩, ?_⟩
    rw [setDinode_self]
  have hroot : ∀ t, P t → t.disk dp = s.dinode rootIno := by
    intro t ht
    rw [Files.disk, ht.1.1.known _ hdp]
    exact ht.1.2.root hs
  refine (ilock_valid (pending_entryStable hs.owns n) ip).bind fun _ => ?_
  refine Triple.bind (hset 1) fun _ => ?_
  refine Triple.bind (Q := fun dots t => dots = true ∧ P t) ?_ fun dots => ?_
  · exact Triple.ite (fun h => by cases h) fun _ => Triple.pure fun t ht => ⟨rfl, ht.1⟩
  refine Triple.fact (fun t ht => ht.1) ?_
  rintro rfl
  refine Triple.bind (Q := fun linked t => if linked = true then
    Good [(ip, n), (dp, rootIno)] m (Made s pid) t else P t) ?_ fun linked => ?_
  · refine Triple.ite (fun _ => Triple.get fun t ht => ?_) fun h => absurd rfl h
    refine Triple.bind ((dirlookup_noName (P := P) dp (swapName pid) fun t' ht' => ?_).pre
      fun t' ht' => ?_) fun r => ?_
    · rw [hroot t' ht']
      exact ⟨hs.linked.root, hno⟩
    · exact ht' ▸ ht.2
    refine Triple.fact (fun t ht => ht.1) ?_
    rintro rfl
    refine Triple.ite (fun _ => ?_) fun _ => Triple.pure fun t ht => ht.2
    refine Triple.bind (Q := fun _ => Good [(ip, n), (dp, rootIno)] m (Made s pid)) ?_ fun _ =>
      Triple.pure fun t ht => ht
    refine Triple.modify fun t' ht' => ?_
    have hdisk := hroot t' ht'.2
    rw [Files.setDisk, hdisk, ht'.2.1.1.known _ hdp]
    have hsince := ht'.2.1.2.since
    refine ⟨ht'.2.1.1.congr rfl rfl rfl rfl, ⟨hsince.proc, hsince.ftable, hsince.lost,
      hsince.inum⟩, hno, fun x hx => ?_, ?_⟩
    · rw [Files.root, setDinode_self] at hx
      rcases List.mem_append.mp hx with hx | hx
      · exact .inl hx
      · exact .inr (by rw [List.mem_singleton.mp hx])
    · rw [setDinode_self]
      exact hs.root_linked
  cases linked with
  | true =>
    refine Triple.ite (fun _ => ?_) fun h => absurd rfl h
    refine Triple.bind (Q := fun _ => Good [(ip, n), (dp, rootIno)] m (Made s pid)) ?_ fun _ => ?_
    · exact Triple.ite (fun h => by cases h) fun _ => Triple.pure fun t ht => by simpa using ht
    refine Triple.bind ((iput_linked_spec (made_entryStable hs.owns pid) dp
      fun t ht => ht.linked).pre fun t ht => ht.swap) fun _ => Triple.pure fun t ht => ⟨n, ht⟩
  | false =>
    refine Triple.ite (fun h => by cases h) fun _ => ?_
    refine Triple.bind ((hset 0).pre fun t ht => by simpa using ht) fun _ => ?_
    refine (iput_pending hs dp ip).bind fun _ => ?_
    refine Triple.bind (iput_linked_spec (leftAlone_entryStable hs.owns) dp fun t ht => ?_) fun _ =>
      Triple.pure fun t ht => ht
    rw [ht.root hs]
    exact hs.root_linked

/-- What `kcreate` leaves of a swap file. -/
theorem createSwap_cases (hs : Consistent s) (p : Fin nproc) (pid : Nat) (room : Bool) :
    Triple (Good [] m (LeftAlone s)) (create p (swapPath pid) .file room) fun r t =>
      r.elim (Good [] m (LeftAlone s) t) fun ip => ∃ n, Good [(ip, n)] m (Made s pid) t ∨
        Good [(ip, n)] m (fun t => LeftAlone s t ∧ HasName (swapName pid) n s.root) t := by
  have hE := leftAlone_entryStable hs.owns
  have hlinked : ∀ t, LeftAlone s t → (t.dinode rootIno).nlink ≠ 0 := by
    intro t ht
    rw [ht.root hs]
    exact hs.root_linked
  refine (namex_root_spec hE (fun t ht => ?_) p (swapName pid)).bind fun r => ?_
  · rw [ht.root hs]
    exact hs.linked.root
  refine Triple.exists fun dp => Triple.fact (fun t ht => ht.1) ?_
  rintro rfl
  refine Triple.bind ((ilock_spec hE dp).pre fun t ht => ht.2) fun _ => ?_
  refine (dirlookup_dir_spec hE List.mem_cons_self (swapName pid)).bind fun r => ?_
  cases r with
  | some ip =>
    refine Triple.exists fun n => ?_
    let found : Files → Prop := fun t => LeftAlone s t ∧ HasName (swapName pid) n s.root
    have hF : EntryStable found := ⟨fun howns ht hcase => ⟨hE.entry howns ht.1 hcase, ht.2⟩⟩
    refine Triple.bind (Q := fun _ => Good [(ip, n)] m found) ?_ fun _ => ?_
    · refine (iput_linked_spec hF dp fun t ht => hlinked t ht.1).pre fun t ht => ?_
      have hroot := ht.2.1.root hs
      refine Good.swap ⟨ht.1, ht.2.1, ?_⟩
      have hname := ht.2.2.2
      rw [hroot] at hname
      exact hname
    refine (ilock_spec hF ip).bind fun _ => Triple.get fun t ht => ?_
    refine Triple.ite (fun _ => Triple.pure fun t' ht' => ⟨n, .inr (ht' ▸ ht)⟩) fun _ => ?_
    refine Triple.bind ((iput_linked_spec (l := []) (m := m) hF ip fun t ht => ?_).pre
      fun t' ht' => ht' ▸ ht) fun _ => Triple.pure fun t ht => ⟨ht.1, ht.2.1⟩
    obtain ⟨htype, hnlink⟩ := hs.named_linked ht.2
    rw [(ht.1.2 n).1 htype]
    exact hnlink
  | none =>
    refine Triple.fact (c := NoName (swapName pid) s.root) (fun t ht => ?_) fun hno => ?_
    · have hname := ht.2.2.2
      rw [ht.2.1.root hs] at hname
      exact hname
    refine Triple.bind (Q := fun r t => r.elim (Good [(dp, rootIno)] m (LeftAlone s) t) fun ip =>
      ∃ n, Good [(ip, n), (dp, rootIno)] m (Pending s n) t) ?_ fun r => ?_
    · refine Triple.get fun t ht => ?_
      split
      · rename_i n hfind
        have hfound := List.find?_some hfind
        simp only [Bool.and_eq_true, beq_iff_eq] at hfound
        have hpending : Pending s n t :=
          ⟨ht.2.1.1, (ht.2.1.2 n).allocated hfound.2, fun j _ => ht.2.1.2 j⟩
        refine Triple.bind (Q := fun _ => Good [(dp, rootIno)] m (Pending s n)) ?_ fun _ =>
          (iget_spec (pending_entryStable hs.owns n) n).bind fun ip =>
            Triple.pure fun t ht => ⟨n, ht⟩
        refine Triple.modify fun t' ht' => ?_
        subst ht'
        exact ⟨ht.1.congr rfl rfl rfl rfl, hpending.setDinode _⟩
      · exact Triple.pure fun t' ht' => ht' ▸ ⟨ht.1, ht.2.1⟩
    · cases r with
      | none =>
        exact (iput_linked_spec hE dp hlinked).bind fun _ => Triple.pure fun t ht => ht
      | some ip =>
        refine Triple.exists fun n => (createAt_pending hs hno dp ip room).post fun r t ht => ?_
        cases r with
        | none => exact ht
        | some jp =>
          obtain ⟨k, hk⟩ := ht
          exact ⟨k, .inl hk⟩

/-! ## `swapfile_create` -/

/-- Everything is as it was. -/
structure Unchanged (s t : Files) : Prop where
  inodes : ∀ n, SameInode s t n
  refs : ∀ ip, (t.itable ip).ref = (s.itable ip).ref
  files : t.ftable = s.ftable

/-- An entry of the file table is free, or the swap file is there already. -/
def RoomForSwap (s : Files) (p : Fin nproc) : Prop :=
  (∃ f, (s.ftable f).ref = 0) ∨ ∃ n, HasName (swapName (s.proc p).pid) n s.root

/-- What `swapfile_create` of a process without a swap file does. -/
structure Outcome (s : Files) (p : Fin nproc) (t : Files) : Prop where
  proc : ∃ v, t.proc = Function.update s.proc p { s.proc p with swapfile := v }
  only : OnlyNew s (swapName (s.proc p).pid) t
  fails : RoomForSwap s p → (t.proc p).swapfile = none → Unchanged s t

theorem LeftAlone.only (h : LeftAlone s t) (hs : Consistent s) (name : Name) :
    OnlyNew s name t := by
  intro x hx
  rw [Files.root, h.root hs] at hx
  exact .inl hx

theorem Since.same_proc (h : Since s t) {p : Fin nproc} (hnone : (s.proc p).swapfile = none) :
    ∃ v, t.proc = Function.update s.proc p { s.proc p with swapfile := v } := by
  refine ⟨none, ?_⟩
  rw [h.proc]
  conv_lhs => rw [← Function.update_eq_self p s.proc]
  congr 1
  rw [← hnone]

theorem LeftAlone.outcome (h : LeftAlone s t) (hs : Consistent s) (ht : Owns [] [] t)
    {p : Fin nproc} (hnone : (s.proc p).swapfile = none) : Outcome s p t := by
  refine ⟨h.1.same_proc hnone, h.only hs _, fun _ _ => ⟨h.2, fun ip => ?_, h.1.ftable⟩⟩
  rw [h.1.ref hs.owns ht]
  rfl

theorem Since.endTx (h : Since s t) (b : Bool) : Since s { t with tx := b } :=
  ⟨h.proc, h.ftable, h.lost, h.inum⟩

/-- Freeing an inode adds no name. -/
theorem onlyNew_refStable (s : Files) (name : Name) (g : Fin nproc → FileProc) :
    RefStable fun t => t.proc = g ∧ OnlyNew s name t where
  entry _ ht _ := ht
  free {l m t ip n} howns ht hone hzero := by
    refine ⟨ht.1, fun x hx => ?_⟩
    change x ∈ (Function.update t.dinode (t.itable ip).inum _ rootIno).entries at hx
    by_cases hroot : rootIno = (t.itable ip).inum
    · rw [hroot, Function.update_self] at hx
      cases hx
    · rw [Function.update_of_ne hroot] at hx
      exact ht.2 x hx

/-- The file was there: its reference is given back. -/
theorem giveUp_found (hs : Consistent s) {p : Fin nproc} (hnone : (s.proc p).swapfile = none)
    (ip : InodePtr) :
    Triple (Good [(ip, n)] [] fun t => LeftAlone s t ∧ HasName (swapName (s.proc p).pid) n s.root)
      (do iput ip; endTx) fun _ => Outcome s p := by
  have hE : EntryStable fun t => LeftAlone s t ∧ HasName (swapName (s.proc p).pid) n s.root :=
    ⟨fun howns ht hcase => ⟨(leftAlone_entryStable hs.owns).entry howns ht.1 hcase, ht.2⟩⟩
  refine Triple.bind (iput_linked_spec hE ip fun t ht => ?_) fun _ => Triple.modify fun t ht => ?_
  · obtain ⟨htype, hnlink⟩ := hs.named_linked ht.2
    rw [(ht.1.2 n).1 htype]
    exact hnlink
  · exact LeftAlone.outcome ⟨ht.2.1.1.endTx false, ht.2.1.2⟩ hs (ht.1.congr rfl rfl rfl rfl) hnone

/-- There is a new file, but no entry of the file table for it. -/
theorem giveUp_full {p : Fin nproc} (hnone : (s.proc p).swapfile = none) (hfull : ¬ RoomForSwap s p)
    (ip : InodePtr) :
    Triple (Good [(ip, n)] [] fun t => t.proc = s.proc ∧ OnlyNew s (swapName (s.proc p).pid) t)
      (do iput ip; endTx) fun _ => Outcome s p := by
  refine Triple.bind (iput_spec (onlyNew_refStable s _ _) ip n) fun _ =>
    Triple.modify fun t ht => ?_
  refine ⟨⟨none, ?_⟩, ht.2.2, fun hroom => absurd hroom hfull⟩
  rw [show ({ t with tx := false } : Files).proc = t.proc from rfl, ht.2.1, ← hnone,
    Function.update_eq_self]

/-- What is known when `filealloc` has been called. -/
theorem filealloc_swap (hs : Consistent s) (p : Fin nproc) (ip : InodePtr) :
    Triple (fun t => ∃ n, Good [(ip, n)] [] (Made s (s.proc p).pid) t ∨ Good [(ip, n)] []
      (fun t => LeftAlone s t ∧ HasName (swapName (s.proc p).pid) n s.root) t) filealloc
      fun r t => (t.proc = s.proc ∧ OnlyNew s (swapName (s.proc p).pid) t) ∧ (r = none → ∃ n,
        Good [(ip, n)] [] (fun t => LeftAlone s t ∧ HasName (swapName (s.proc p).pid) n s.root) t ∨
          Owns [(ip, n)] [] t ∧ ¬ RoomForSwap s p) := by
  rintro t ⟨n, ht⟩ r t' he
  have honly : t.proc = s.proc ∧ OnlyNew s (swapName (s.proc p).pid) t := by
    rcases ht with hmade | hfound
    · exact ⟨hmade.2.since.proc, hmade.2.only⟩
    · exact ⟨hfound.2.1.1.proc, hfound.2.1.only hs _⟩
  unfold filealloc at he
  split at he
  · cases he
    exact ⟨honly, fun h => by cases h⟩
  · rename_i hfull
    cases he
    refine ⟨honly, fun _ => ⟨n, ?_⟩⟩
    rcases ht with hmade | hfound
    · refine .inr ⟨hmade.1, ?_⟩
      rintro (⟨f, hf⟩ | ⟨k, e, he, -⟩)
      · have hno := Fin.find?_eq_none_iff.mp hfull f
        rw [hmade.2.since.ftable] at hno
        simp [hf] at hno
      · rw [show s.root.find? (fun e => e.1 == swapName (s.proc p).pid) =
          none from hmade.2.wasNot] at he
        cases he
    · exact .inl hfound

theorem swapfileOpen_outcome (hs : Consistent s) (p : Fin nproc)
    (hnone : (s.proc p).swapfile = none) (room : Bool) :
    Triple (fun t => t = s) (swapfileOpen p room) fun _ => Outcome s p := by
  refine Triple.get fun t ht => ?_
  subst ht
  rw [hnone]
  refine Triple.bind (Q := fun _ => Good [] [] (LeftAlone t)) ?_ fun _ => ?_
  · refine Triple.modify fun t' ht' => ?_
    subst ht'
    exact ⟨hs.owns.congr rfl rfl rfl rfl, ⟨rfl, rfl, rfl, fun _ _ => rfl⟩,
      fun n => ⟨fun _ => rfl, fun h => h⟩⟩
  refine (createSwap_cases hs p (t.proc p).pid room).bind fun r => ?_
  cases r with
  | none =>
    exact Triple.modify fun t' ht' => LeftAlone.outcome ⟨ht'.2.1.endTx false, ht'.2.2⟩ hs
      (ht'.1.congr rfl rfl rfl rfl) hnone
  | some ip =>
    refine (filealloc_swap hs p ip).bind fun r => ?_
    cases r with
    | none =>
      intro t' ht' u t'' he
      obtain ⟨n, hfound | hfull⟩ := ht'.2 rfl
      · exact giveUp_found hs hnone ip t' hfound u t'' he
      · exact giveUp_full hnone hfull.2 ip t' ⟨hfull.1, ht'.1⟩ u t'' he
    | some f =>
      refine Triple.bind (Q := fun _ t' => t'.proc = t.proc ∧
        OnlyNew t (swapName (t.proc p).pid) t') (Triple.modify fun t' ht' => ht'.1) fun _ => ?_
      refine Triple.bind (Q := fun _ t' => t'.proc = Function.update t.proc p
        { t.proc p with swapfile := some f } ∧ OnlyNew t (swapName (t.proc p).pid) t') ?_
        fun _ => ?_
      · refine Triple.modify fun t' ht' => ⟨?_, ht'.2⟩
        rw [Files.setProc, ht'.1]
      · refine Triple.modify fun t' ht' => ⟨⟨some f, ht'.1⟩, ht'.2, fun _ hswap => ?_⟩
        rw [show ({ t' with tx := false } : Files).proc p = t'.proc p from rfl, ht'.1,
          Function.update_self] at hswap
        cases hswap

end

end Xv6Paging
