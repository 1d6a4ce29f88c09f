import Xv6Paging.Kernel.Files

/-!
# Whose reference is it

Every reference to an entry of the inode table or of the file table has an owner: a
process, an open file, or the program that is running (`Owns`). What a program owns is
part of its specification: `iget` and `idup` add a reference to what the program owns,
`iput` takes one from it, and storing a pointer in a process or a file gives it away.
The specifications carry a second assertion that the program leaves alone; what it has
to put up with is `EntryStable`, `RefStable` and `FileStable`. The last of them holds of
an assertion that does not depend on reference counts, descriptors and directories, and
that survives the end of an inode or a file nobody else has.
-/

namespace Xv6Paging

open Lib

/-! ## Owners -/

/-- How often a process points to an inode. -/
def procInodes (ip : InodePtr) (e : FileProc) : Nat :=
  points e.cwd ip + points e.execIp ip + points e.held ip

/-- The inode of a file. -/
def FileKind.ip : FileKind → Option InodePtr
  | .inode ip | .device ip => some ip
  | _ => Option.none

/-- How often a file points to an inode. -/
def fileInodes (ip : InodePtr) (e : FileEntry) : Nat := points e.kind.ip ip

/-- How often a process points to a file. -/
def procFiles (f : FilePtr) (e : FileProc) : Nat :=
  total (fun v => points v f) e.ofile + points e.swapfile f

/-- A process that points to nothing. -/
structure FileProc.Bare (e : FileProc) : Prop where
  ofile : ∀ fd, e.ofile fd = none
  cwd : e.cwd = none
  execIp : e.execIp = none
  swapfile : e.swapfile = none
  held : e.held = none

/-- A process that has exited still has its executable. -/
structure FileProc.Stripped (e : FileProc) : Prop where
  ofile : ∀ fd, e.ofile fd = none
  cwd : e.cwd = none
  swapfile : e.swapfile = none

/-- Every reference has an owner. Those in `l` and `m` belong to the running program; what it
owns of the inode table it also knows the number of. -/
structure Owns (l : List (InodePtr × Nat)) (m : List FilePtr) (s : Files) : Prop where
  inodes : ∀ ip, (s.itable ip).ref = total (procInodes ip) s.proc +
    total (fileInodes ip) s.ftable + s.lost ip + (l.map Prod.fst).count ip
  known : ∀ x ∈ l, (s.itable x.1).inum = x.2
  files : ∀ f, (s.ftable f).ref = total (procFiles f) s.proc + m.count f
  closed : ∀ f, (s.ftable f).ref = 0 → (s.ftable f).kind = .none
  unused : ∀ p, (s.proc p).state = .unused → (s.proc p).Bare
  zombie : ∀ p, (s.proc p).state = .zombie → (s.proc p).Stripped
  stuck : ∀ p, (s.proc p).held ≠ none → (s.proc p).state = .runnable ∧ (s.proc p).stage = .stuck
  unique : ∀ ip jp, 0 < (s.itable ip).ref → 0 < (s.itable jp).ref →
    (s.itable ip).inum = (s.itable jp).inum → ip = jp

variable {s : Files} {p : Fin nproc} {I K : Files → Prop} {ip : InodePtr} {e : FileProc}
  {f : FilePtr} {c : FileProc → Prop} {fd : Fin nofile}

section

variable {l l' : List (InodePtr × Nat)} {m m' : List FilePtr} {s s' : Files}

/-- What the program owns is in use. -/
theorem Owns.ref_pos {x : InodePtr × Nat} (h : Owns l m s) (hx : x ∈ l) :
    0 < (s.itable x.1).ref := by
  have hc := h.inodes x.1
  have hpos : 0 < (l.map Prod.fst).count x.1 :=
    List.count_pos_iff.mpr (List.mem_map_of_mem hx)
  omega

/-- So is what a process points to. -/
theorem Owns.ref_pos_of_proc (h : Owns l m s) (hp : 0 < procInodes ip (s.proc p)) :
    0 < (s.itable ip).ref := by
  have hc := h.inodes ip
  have hle := le_total (w := procInodes ip) s.proc p
  omega

theorem Owns.perm (h : Owns l m s) (hl : l.Perm l') (hm : m.Perm m') : Owns l' m' s :=
  { h with
    inodes := fun ip => by rw [← (hl.map Prod.fst).count_eq ip]; exact h.inodes ip
    known := fun x hx => h.known x (hl.mem_iff.mpr hx)
    files := fun f => by rw [← hm.count_eq f]; exact h.files f }

/-- Only the tables matter. -/
theorem Owns.congr (h : Owns l m s) (hi : s'.itable = s.itable) (hf : s'.ftable = s.ftable)
    (hp : s'.proc = s.proc) (hl : s'.lost = s.lost) : Owns l m s' := by
  obtain ⟨h1, h2, h3, h4, h5, h6, h7, h8⟩ := h
  constructor
  · rwa [hi, hf, hp, hl]
  · rwa [hi]
  · rwa [hf, hp]
  · rwa [hf]
  · rwa [hp]
  · rwa [hp]
  · rwa [hp]
  · rwa [hi]

/-- An entry of the inode table changes with what the program owns. -/
theorem Owns.setInode {e : InodeEntry} (h : Owns l m s)
    (href : e.ref + (l.map Prod.fst).count ip = (s.itable ip).ref + (l'.map Prod.fst).count ip)
    (hl : ∀ jp, jp ≠ ip → (l'.map Prod.fst).count jp = (l.map Prod.fst).count jp)
    (hknown : ∀ x ∈ l', x.1 = ip ∧ e.inum = x.2 ∨ x.1 ≠ ip ∧ x ∈ l)
    (hinum : ∀ jp, jp ≠ ip → 0 < e.ref → 0 < (s.itable jp).ref → (s.itable jp).inum ≠ e.inum) :
    Owns l' m (s.setInode ip e) := by
  have hat : (s.setInode ip e).itable ip = e := Function.update_self ..
  have hne : ∀ jp, jp ≠ ip → (s.setInode ip e).itable jp = s.itable jp :=
    fun jp hj => Function.update_of_ne hj ..
  refine ⟨fun jp => ?_, fun x hx => ?_, h.files, h.closed, h.unused, h.zombie, h.stuck,
    fun a b ha hb hab => ?_⟩
  · by_cases hj : jp = ip
    · subst hj
      rw [hat]
      have hold := h.inodes jp
      change e.ref = total (procInodes jp) s.proc + total (fileInodes jp) s.ftable + s.lost jp +
        (l'.map Prod.fst).count jp
      omega
    · rw [hne jp hj, hl jp hj]
      exact h.inodes jp
  · rcases hknown x hx with ⟨hx1, hx2⟩ | ⟨hx1, hx2⟩
    · rw [hx1, hat]
      exact hx2
    · rw [hne _ hx1]
      exact h.known x hx2
  · by_cases ha' : a = ip <;> by_cases hb' : b = ip
    · rw [ha', hb']
    · subst ha'
      rw [hat] at ha hab
      rw [hne b hb'] at hb hab
      exact absurd hab.symm (hinum b hb' ha hb)
    · subst hb'
      rw [hat] at hb hab
      rw [hne a ha'] at ha hab
      exact absurd hab (hinum a ha' hb ha)
    · rw [hne a ha'] at ha hab
      rw [hne b hb'] at hb hab
      exact h.unique a b ha hb hab

/-- Its inode stays the same. -/
theorem Owns.keepInode {e : InodeEntry} (h : Owns l m s) (hpos : 0 < (s.itable ip).ref)
    (hinum : e.inum = (s.itable ip).inum)
    (href : e.ref + (l.map Prod.fst).count ip = (s.itable ip).ref + (l'.map Prod.fst).count ip)
    (hl : ∀ jp, jp ≠ ip → (l'.map Prod.fst).count jp = (l.map Prod.fst).count jp)
    (hsub : ∀ x ∈ l', x ∈ l ∨ x = (ip, (s.itable ip).inum)) : Owns l' m (s.setInode ip e) := by
  refine h.setInode href hl (fun x hx => ?_) fun jp hj _ hposj he => ?_
  · by_cases hx1 : x.1 = ip
    · refine Or.inl ⟨hx1, hinum.trans ?_⟩
      rcases hsub x hx with hx2 | hx2
      · rw [← hx1]
        exact h.known x hx2
      · rw [hx2]
    · refine Or.inr ⟨hx1, (hsub x hx).resolve_right fun hx2 => hx1 ?_⟩
      rw [hx2]
  · exact hj (h.unique jp ip hposj hpos (he.trans hinum))

/-- An entry of the file table changes with what the program owns. -/
theorem Owns.setFile {e : FileEntry} (h : Owns l m s)
    (href : e.ref + m.count f = (s.ftable f).ref + m'.count f)
    (hm : ∀ g, g ≠ f → m'.count g = m.count g)
    (hkind : ∀ ip, fileInodes ip e + (l'.map Prod.fst).count ip =
      fileInodes ip (s.ftable f) + (l.map Prod.fst).count ip)
    (hknown : ∀ x ∈ l', (s.itable x.1).inum = x.2) (hclosed : e.ref = 0 → e.kind = .none) :
    Owns l' m' (s.setFile f e) := by
  have hat : (s.setFile f e).ftable f = e := Function.update_self ..
  have hne : ∀ g, g ≠ f → (s.setFile f e).ftable g = s.ftable g :=
    fun g hg => Function.update_of_ne hg ..
  refine ⟨fun ip => ?_, hknown, fun g => ?_, fun g hg => ?_, h.unused, h.zombie, h.stuck, h.unique⟩
  · have hold := h.inodes ip
    have htotal := total_update (w := fileInodes ip) s.ftable f e
    have hip := hkind ip
    change (s.itable ip).ref = total (procInodes ip) s.proc +
      total (fileInodes ip) (Function.update s.ftable f e) + s.lost ip + (l'.map Prod.fst).count ip
    omega
  · by_cases hg : g = f
    · subst hg
      rw [hat]
      have hold := h.files g
      change e.ref = total (procFiles g) s.proc + m'.count g
      omega
    · rw [hne g hg, hm g hg]
      exact h.files g
  · by_cases hgf : g = f
    · subst hgf
      rw [hat] at hg ⊢
      exact hclosed hg
    · rw [hne g hgf] at hg ⊢
      exact h.closed g hg

/-- The entry of a process changes with what the program owns and has lost. -/
theorem Owns.setProc {r : InodePtr → Nat} (h : Owns l m s)
    (hinodes : ∀ ip, procInodes ip e + r ip + (l'.map Prod.fst).count ip =
      procInodes ip (s.proc p) + s.lost ip + (l.map Prod.fst).count ip)
    (hfiles : ∀ f, procFiles f e + m'.count f = procFiles f (s.proc p) + m.count f)
    (hknown : ∀ x ∈ l', (s.itable x.1).inum = x.2) (hunused : e.state = .unused → e.Bare)
    (hzombie : e.state = .zombie → e.Stripped)
    (hstuck : e.held ≠ none → e.state = .runnable ∧ e.stage = .stuck) :
    Owns l' m' { s.setProc p e with lost := r } := by
  have hcases : ∀ q, ({ s.setProc p e with lost := r }).proc q = if q = p then e else s.proc q := by
    intro q
    exact Function.update_apply ..
  refine ⟨fun ip => ?_, hknown, fun f => ?_, h.closed, fun q hq => ?_, fun q hq => ?_,
    fun q hq => ?_, h.unique⟩
  · have hold := h.inodes ip
    have htotal := total_update (w := procInodes ip) s.proc p e
    have hip := hinodes ip
    change (s.itable ip).ref = total (procInodes ip) (Function.update s.proc p e) +
      total (fileInodes ip) s.ftable + r ip + (l'.map Prod.fst).count ip
    omega
  · have hold := h.files f
    have htotal := total_update (w := procFiles f) s.proc p e
    have hf := hfiles f
    change (s.ftable f).ref = total (procFiles f) (Function.update s.proc p e) + m'.count f
    omega
  · rw [hcases q] at hq ⊢
    by_cases hqp : q = p
    · rw [if_pos hqp] at hq ⊢
      exact hunused hq
    · rw [if_neg hqp] at hq ⊢
      exact h.unused q hq
  · rw [hcases q] at hq ⊢
    by_cases hqp : q = p
    · rw [if_pos hqp] at hq ⊢
      exact hzombie hq
    · rw [if_neg hqp] at hq ⊢
      exact h.zombie q hq
  · rw [hcases q] at hq ⊢
    by_cases hqp : q = p
    · rw [if_pos hqp] at hq ⊢
      exact hstuck hq
    · rw [if_neg hqp] at hq ⊢
      exact h.stuck q hq

end

/-! ## The inode table -/

/-- What does not depend on the reference counts: it is kept when an entry of the inode table
changes and still stands for the same inode, or did not stand for any. -/
structure EntryStable (I : Files → Prop) : Prop where
  entry : ∀ {l : List (InodePtr × Nat)} {m : List FilePtr} {s : Files} {ip : InodePtr}
    {e : InodeEntry}, Owns l m s → I s → (s.itable ip).ref = 0 ∨ e.inum = (s.itable ip).inum →
      I (s.setInode ip e)

/-- It is also kept when the program gives up the last reference to an inode without links. -/
structure RefStable (I : Files → Prop) : Prop extends EntryStable I where
  free : ∀ {l : List (InodePtr × Nat)} {m : List FilePtr} {s : Files} {ip : InodePtr} {n : Nat},
    Owns ((ip, n) :: l) m s → I s → (s.itable ip).ref = 1 → (s.disk ip).nlink = 0 →
      I (freeInode s ip)

/-- What does not depend on the disk. -/
def DiskFree (I : Files → Prop) : Prop := ∀ s n d, I s → I (s.setDinode n d)

/-- The references are accounted for, and something else holds. -/
def Good (l : List (InodePtr × Nat)) (m : List FilePtr) (I : Files → Prop) (s : Files) : Prop :=
  Owns l m s ∧ I s

/-- One reference more, if there is one. -/
def GoodWith (r : Option InodePtr) (l : List (InodePtr × Nat)) (m : List FilePtr)
    (I : Files → Prop) (s : Files) : Prop :=
  match r with
  | some ip => ∃ n, Good ((ip, n) :: l) m I s
  | none => Good l m I s

section

variable {l l' : List (InodePtr × Nat)} {m m' : List FilePtr} {I : Files → Prop}

theorem Good.perm (h : Good l m I s) (hl : l.Perm l') (hm : m.Perm m') :
    Good l' m' I s :=
  ⟨h.1.perm hl hm, h.2⟩

theorem Good.swap {x y : InodePtr × Nat} (h : Good (x :: y :: l) m I s) :
    Good (y :: x :: l) m I s :=
  h.perm (.swap ..) (.refl _)

/-- A reference the program takes on counts like a pointer to the entry. -/
theorem count_cons_points {α : Type} [DecidableEq α] (a b : α) (l : List α) :
    (a :: l).count b = points (some a) b + l.count b := by
  by_cases h : b = a
  · subst h
    rw [List.count_cons_self, points_self, Nat.add_comm]
  · rw [List.count_cons_of_ne (Ne.symm h), points_ne (by simpa using Ne.symm h), Nat.zero_add]

theorem count_cons_ne {α : Type} [DecidableEq α] {a b : α} {l : List α} (h : b ≠ a) :
    (a :: l).count b = l.count b := List.count_cons_of_ne h.symm

/-- One more reference to an entry that is in use. -/
theorem Good.incr (hI : EntryStable I) (h : Good l m I s) (hpos : 0 < (s.itable ip).ref) :
    Good ((ip, (s.itable ip).inum) :: l) m I
      (s.setInode ip { s.itable ip with ref := (s.itable ip).ref + 1 }) := by
  refine ⟨h.1.keepInode hpos rfl ?_ (fun jp hj => count_cons_ne hj) ?_,
    hI.entry h.1 h.2 (Or.inr rfl)⟩
  · rw [List.map_cons, List.count_cons_self]
    dsimp only
    omega
  · intro x hx
    exact (List.mem_cons.mp hx).symm

theorem iget_spec (hI : EntryStable I) (inum : Nat) : Triple (Good l m I) (iget inum)
    fun ip => Good ((ip, inum) :: l) m I := by
  intro s hs ip s' he
  unfold iget at he
  split at he
  · rename_i jp hfind
    cases he
    have hjp := (Fin.find?_eq_some_iff.mp hfind).1
    simp only [Bool.and_eq_true, decide_eq_true_eq, beq_iff_eq] at hjp
    rw [← hjp.2]
    exact hs.incr hI hjp.1
  · rename_i hnone
    split at he
    · rename_i jp hfind
      cases he
      have hjp : (s.itable ip).ref = 0 := by simpa using (Fin.find?_eq_some_iff.mp hfind).1
      refine ⟨hs.1.setInode ?_ (fun kp hk => count_cons_ne hk) ?_ ?_,
        hI.entry hs.1 hs.2 (Or.inl hjp)⟩
      · rw [hjp, List.map_cons, List.count_cons_self]
        dsimp only
        omega
      · intro x hx
        rcases List.mem_cons.mp hx with rfl | hmem
        · exact Or.inl ⟨rfl, rfl⟩
        · refine Or.inr ⟨fun hxip => ?_, hmem⟩
          have hpos := hs.1.ref_pos hmem
          rw [hxip] at hpos
          omega
      · -- no entry in use stands for this inode
        intro kp _ _ hpos he
        have hno := Fin.find?_eq_none_iff.mp hnone kp
        simp [hpos, he] at hno
    · cases he

theorem idup_spec (hI : EntryStable I) (ip : InodePtr) (n : Nat) :
    Triple (fun s => Good l m I s ∧ 0 < (s.itable ip).ref ∧ (s.itable ip).inum = n) (idup ip)
      fun jp s => jp = ip ∧ Good ((ip, n) :: l) m I s := by
  rintro s ⟨hs, hpos, rfl⟩ jp s' he
  cases he
  exact ⟨rfl, hs.incr hI hpos⟩

theorem ilock_spec (hI : EntryStable I) (ip : InodePtr) :
    Triple (Good l m I) (ilock ip) fun _ => Good l m I := by
  intro s hs u s' he
  unfold ilock at he
  split at he
  · cases he
  · rename_i hpos
    split at he
    · cases he
      exact hs
    · split at he
      · cases he
      · cases he
        exact ⟨hs.1.keepInode (by omega) rfl rfl (fun _ _ => rfl) fun _ hx => Or.inl hx,
          hI.entry hs.1 hs.2 (Or.inr rfl)⟩

theorem Owns.freeInode (h : Owns l m s) (hpos : 0 < (s.itable ip).ref) :
    Owns l m (freeInode s ip) := by
  have h' : Owns l m (({ s with drops := s.tx :: s.drops }).setDisk ip
      { s.disk ip with type := .free, entries := [] }) := h.congr rfl rfl rfl rfl
  exact h'.keepInode hpos rfl rfl (fun _ _ => rfl) fun _ hx => Or.inl hx

/-- `iput` in general: `I'` says what may be done with the inode. -/
theorem iput_cases_spec {I' : Files → Prop} (hI : EntryStable I) (ip : InodePtr) (n : Nat)
    (hfree : ∀ s, Good ((ip, n) :: l) m I' s → s.lastRef ip = true → I (freeInode s ip))
    (hkeep : ∀ s, I' s → s.lastRef ip = false → I s) :
    Triple (Good ((ip, n) :: l) m I') (iput ip) fun _ => Good l m I := by
  intro s hs u s' he
  unfold iput at he
  -- first the inode may go, then the reference
  obtain ⟨t, ht⟩ : ∃ t, t = if s.lastRef ip then freeInode s ip else s := ⟨_, rfl⟩
  have hgood : Good ((ip, n) :: l) m I t := by
    rw [ht]
    split
    · rename_i hlast
      exact ⟨hs.1.freeInode (hs.1.ref_pos List.mem_cons_self), hfree s hs hlast⟩
    · rename_i hlast
      exact ⟨hs.1, hkeep s hs.2 (by simpa using hlast)⟩
  rw [← ht] at he
  cases he
  have hpos := hgood.1.ref_pos List.mem_cons_self
  dsimp only at hpos
  refine ⟨hgood.1.keepInode hpos rfl ?_ (fun jp hj => (count_cons_ne hj).symm)
    (fun x hx => Or.inl (List.mem_cons_of_mem _ hx)), hI.entry hgood.1 hgood.2 (Or.inr rfl)⟩
  rw [List.map_cons, List.count_cons_self]
  dsimp only
  omega

theorem iput_spec (hI : RefStable I) (ip : InodePtr) (n : Nat) :
    Triple (Good ((ip, n) :: l) m I) (iput ip) fun _ => Good l m I := by
  refine iput_cases_spec hI.toEntryStable ip n (fun s hs hlast => ?_) fun s hs _ => hs
  simp only [Files.lastRef, Bool.and_eq_true, beq_iff_eq] at hlast
  exact hI.free hs.1 hs.2 hlast.1.1 hlast.2

/-- Nothing but the disk, the transaction or the records changes. -/
theorem modify_spec {I' : Files → Prop} {f : Files → Files}
    (htables : ∀ s, (f s).itable = s.itable ∧ (f s).ftable = s.ftable ∧ (f s).proc = s.proc ∧
      (f s).lost = s.lost) (hI : ∀ s, Good l m I s → I' (f s)) :
    Triple (Good l m I) (modify f) fun _ => Good l m I' :=
  Triple.modify fun s hs => by
    obtain ⟨hi, hf, hp, hl⟩ := htables s
    exact ⟨hs.1.congr hi hf hp hl, hI s hs⟩

/-! ## Directories and paths -/

theorem dirlookup_spec (hI : RefStable I) (dp : InodePtr) (name : Name) :
    Triple (Good l m I) (dirlookup dp name) fun r => GoodWith r l m I := by
  refine Triple.get fun s hs => Triple.ite (fun _ => Triple.failure) fun _ => ?_
  split
  · rename_i e _
    exact ((iget_spec hI.toEntryStable e.2).pre fun t ht => ht ▸ hs).bind fun ip =>
      Triple.pure fun t ht => ⟨_, ht⟩
  · exact Triple.pure fun t ht => ht ▸ hs

theorem namexLoop_spec (hI : RefStable I) (parent : Bool) :
    ∀ (elems : List Name) (ip : InodePtr) (n : Nat),
      Triple (Good ((ip, n) :: l) m I) (namexLoop parent elems ip)
        fun r => GoodWith (r.map Prod.fst) l m I := by
  intro elems
  induction elems with
  | nil =>
    intro ip n
    refine Triple.ite (fun _ => ?_) fun _ => Triple.pure fun s hs => ⟨n, hs⟩
    exact (iput_spec hI ip n).bind fun _ => Triple.pure fun s hs => hs
  | cons name rest ih =>
    intro ip n
    refine (ilock_spec hI.toEntryStable ip).bind fun _ => Triple.get fun s hs =>
      Triple.ite (fun _ => ?_) fun _ =>
      Triple.ite (fun _ => ?_) fun _ => ?_
    · exact ((iput_spec hI ip n).pre fun t ht => ht ▸ hs).bind fun _ => Triple.pure fun s hs => hs
    · exact Triple.pure fun t ht => ⟨n, ht ▸ hs⟩
    · refine Triple.bind ((dirlookup_spec hI ip name).pre fun t ht => ht ▸ hs) fun r => ?_
      cases r with
      | none => exact (iput_spec hI ip n).bind fun _ => Triple.pure fun s hs => hs
      | some next =>
        refine Triple.exists fun k => ?_
        refine Triple.bind (Q := fun _ => Good ((next, k) :: l) m I) ?_ fun _ => ih next k
        exact (iput_spec hI ip n).pre fun t ht => ht.swap

theorem namex_spec (hI : RefStable I) (p : Fin nproc) (path : FsPath) (parent : Bool) :
    Triple (Good l m I) (namex p path parent) fun r => GoodWith (r.map Prod.fst) l m I := by
  refine Triple.get fun s hs => Triple.ite (fun _ => ?_) fun _ => ?_
  · refine Triple.bind ((iget_spec hI.toEntryStable _).pre fun t ht => ht ▸ hs) fun ip => ?_
    exact namexLoop_spec hI parent path.elems ip _
  · split
    · rename_i cwd hcwd
      have hpos : 0 < (s.itable cwd).ref := by
        refine hs.1.ref_pos_of_proc (p := p) ?_
        rw [procInodes, hcwd, points_self]
        omega
      refine Triple.bind ((idup_spec (l := l) (m := m) hI.toEntryStable cwd (s.itable cwd).inum).pre
        fun t ht => ?_) fun ip => ?_
      · subst ht
        exact ⟨hs, hpos, rfl⟩
      · rintro t ⟨rfl, ht⟩
        exact namexLoop_spec hI parent path.elems ip _ t ht
    · exact Triple.failure

/-! ## New inodes -/

theorem dirlink_spec (hI : RefStable I) (hD : DiskFree I) (dp : InodePtr) (name : Name)
    (inum : Nat) (room : Bool) :
    Triple (Good l m I) (dirlink dp name inum room) fun _ => Good l m I := by
  refine (dirlookup_spec hI dp name).bind fun r => ?_
  cases r with
  | some ip =>
    refine Triple.exists fun n => ?_
    exact (iput_spec hI ip n).bind fun _ => Triple.pure fun s hs => hs
  | none =>
    refine Triple.ite (fun _ => ?_) fun _ => Triple.pure fun s hs => hs
    refine Triple.bind (modify_spec (fun _ => ⟨rfl, rfl, rfl, rfl⟩) fun s hs => ?_) fun _ =>
      Triple.pure fun s hs => hs
    exact hD s _ _ hs.2

theorem setNlink_spec (hD : DiskFree I) (ip : InodePtr) (f : Int → Int) :
    Triple (Good l m I) (setNlink ip f) fun _ => Good l m I :=
  modify_spec (fun _ => ⟨rfl, rfl, rfl, rfl⟩) fun s hs => hD s _ _ hs.2

theorem countDotDot_spec (hD : DiskFree I) (type : InodeType) (dp : InodePtr) (f : Int → Int) :
    Triple (Good l m I) (countDotDot type dp f) fun _ => Good l m I :=
  Triple.ite (fun _ => setNlink_spec hD dp f) fun _ => Triple.pure fun _ hs => hs

theorem ialloc_spec (hI : RefStable I) (hD : DiskFree I) (type : InodeType) :
    Triple (Good l m I) (ialloc type) fun r => GoodWith r l m I := by
  refine Triple.get fun s hs => ?_
  split
  · rename_i n hfind
    refine Triple.bind (Q := fun _ => Good l m I) ?_ fun _ => ?_
    · refine Triple.modify fun t ht => ?_
      subst ht
      exact ⟨hs.1.congr rfl rfl rfl rfl, hD _ _ _ hs.2⟩
    · exact (iget_spec hI.toEntryStable n).bind fun ip => Triple.pure fun t ht => ⟨n, ht⟩
  · exact Triple.pure fun t ht => ht ▸ hs

theorem linkDots_spec (hI : RefStable I) (hD : DiskFree I) (type : InodeType) (ip dp : InodePtr)
    (room : Bool) : Triple (Good l m I) (linkDots type ip dp room) fun _ => Good l m I := by
  have hlink := dirlink_spec (l := l) (m := m) hI hD
  refine Triple.ite (fun _ => ?_) fun _ => Triple.pure fun s hs => hs
  refine Triple.get fun s hs => ?_
  refine Triple.bind ((hlink ip dot _ room).pre fun t (ht : t = s) => ht ▸ hs) fun one => ?_
  exact Triple.ite (fun _ => hlink ip dotDot _ room) fun _ => Triple.pure fun s hs => hs

theorem linkName_spec (hI : RefStable I) (hD : DiskFree I) (dots : Bool) (dp ip : InodePtr)
    (name : Name) (room : Bool) :
    Triple (Good l m I) (linkName dots dp ip name room) fun _ => Good l m I := by
  refine Triple.ite (fun _ => Triple.get fun s hs => ?_) fun _ => Triple.pure fun t ht => ht
  exact (dirlink_spec hI hD dp name _ room).pre fun t ht => ht ▸ hs

theorem createAt_spec (hI : RefStable I) (hD : DiskFree I) (type : InodeType) (dp ip : InodePtr)
    (name : Name) (room : Bool) (n k : Nat) :
    Triple (Good ((ip, n) :: (dp, k) :: l) m I) (createAt type dp ip name room)
      fun r => GoodWith r l m I := by
  refine (ilock_spec hI.toEntryStable ip).bind fun _ => (setNlink_spec hD ip _).bind fun _ => ?_
  refine (linkDots_spec hI hD type ip dp room).bind fun dots => ?_
  refine (linkName_spec hI hD dots dp ip name room).bind fun linked => ?_
  refine Triple.ite (fun _ => (countDotDot_spec hD type dp _).bind fun _ => ?_) fun _ => ?_
  · refine Triple.bind (Q := fun _ => Good ((ip, n) :: l) m I) ?_ fun _ =>
      Triple.pure fun s hs => ⟨n, hs⟩
    exact (iput_spec hI dp k).pre fun s hs => hs.swap
  · refine (setNlink_spec hD ip _).bind fun _ => (iput_spec hI ip n).bind fun _ => ?_
    exact (iput_spec hI dp k).bind fun _ => Triple.pure fun s hs => hs

theorem create_spec (hI : RefStable I) (hD : DiskFree I) (p : Fin nproc) (path : FsPath)
    (type : InodeType) (room : Bool) :
    Triple (Good l m I) (create p path type room) fun r => GoodWith r l m I := by
  refine (namex_spec hI p path true).bind fun r => ?_
  rcases r with _ | ⟨dp, name⟩
  · exact Triple.pure fun s hs => hs
  refine Triple.exists fun k => (ilock_spec hI.toEntryStable dp).bind fun _ => ?_
  refine (dirlookup_spec hI dp name).bind fun r => ?_
  cases r with
  | some ip =>
    refine Triple.exists fun n => ?_
    refine Triple.bind (Q := fun _ => Good ((ip, n) :: l) m I) ?_ fun _ => ?_
    · exact (iput_spec hI dp k).pre fun s hs => hs.swap
    · refine (ilock_spec hI.toEntryStable ip).bind fun _ => Triple.get fun s hs => ?_
      refine Triple.ite (fun _ => Triple.pure fun t ht => ⟨n, ht ▸ hs⟩) fun _ => ?_
      exact ((iput_spec hI ip n).pre fun t ht => ht ▸ hs).bind fun _ =>
        Triple.pure fun t ht => ht
  | none =>
    refine (ialloc_spec hI hD type).bind fun r => ?_
    cases r with
    | none => exact (iput_spec hI dp k).bind fun _ => Triple.pure fun s hs => hs
    | some ip => exact Triple.exists fun n => createAt_spec hI hD type dp ip name room n k

/-- New files keep `I`. -/
def Creates (I : Files → Prop) : Prop :=
  ∀ (l : List (InodePtr × Nat)) (m : List FilePtr) (p : Fin nproc) (path : FsPath)
    (type : InodeType) (room : Bool), type ≠ .free →
    Triple (Good l m I) (create p path type room) fun r => GoodWith r l m I

theorem DiskFree.creates (hD : DiskFree I) (hI : RefStable I) : Creates I :=
  fun _ _ p path type room _ => create_spec hI hD p path type room

theorem GoodWith.and {r : Option InodePtr} (h : GoodWith r l m I s) (hK : GoodWith r l m K s) :
    GoodWith r l m (fun s => I s ∧ K s) s := by
  cases r with
  | none => exact ⟨h.1, h.2, hK.2⟩
  | some ip =>
    obtain ⟨n, h⟩ := h
    obtain ⟨_, hK⟩ := hK
    exact ⟨n, h.1, h.2, hK.2⟩

/-- They have nothing to do with what does not depend on the disk. -/
theorem Creates.and (h : Creates I) (hK : RefStable K) (hD : DiskFree K) :
    Creates fun s => I s ∧ K s := by
  intro l m p path type room htype
  refine ((h l m p path type room htype).and (create_spec hK hD p path type room)).conseq
    (fun s hs => ⟨⟨hs.1, hs.2.1⟩, hs.1, hs.2.2⟩) fun r s hs => hs.1.and hs.2

end

/-! ## The file table -/

/-- What does not depend on the reference counts of files either, nor on descriptors and
working directories: it is kept when the program closes the last reference to a file, and
when it opens one that is new. -/
structure FileStable (I : Files → Prop) : Prop where
  ref : ∀ s f n, I s → I (s.setFile f { s.ftable f with ref := n })
  close : ∀ {l : List (InodePtr × Nat)} {m : List FilePtr} {s : Files} {f : FilePtr},
    Owns l (f :: m) s → (s.ftable f).ref = 1 → I s → I (s.setFile f { ref := 0, kind := .none })
  kind : ∀ s f k, I s → (s.ftable f).kind.ip = none → I (s.setFile f { s.ftable f with kind := k })
  fd : ∀ s p fd v, I s → I (s.setProc p ((s.proc p).setFd fd v))
  cwd : ∀ s p v, I s → I (s.setProc p { s.proc p with cwd := v })

/-- What holds outside of transactions, and what inside. -/
structure TxStable (I J : Files → Prop) : Prop where
  ref : RefStable J
  out : FileStable I
  inside : FileStable J
  enter : ∀ s, I s → J { s with tx := true }
  leave : ∀ s, J s → I { s with tx := false }

section

variable {l l' : List (InodePtr × Nat)} {m m' : List FilePtr} {I J : Files → Prop}

theorem beginTx_spec (hT : TxStable I J) : Triple (Good l m I) beginTx fun _ => Good l m J :=
  modify_spec (fun _ => ⟨rfl, rfl, rfl, rfl⟩) fun s hs => hT.enter s hs.2

theorem endTx_spec (hT : TxStable I J) : Triple (Good l m J) endTx fun _ => Good l m I :=
  modify_spec (fun _ => ⟨rfl, rfl, rfl, rfl⟩) fun s hs => hT.leave s hs.2

/-- What kind of file each is. -/
def Files.kinds (s : Files) (f : FilePtr) : FileKind := (s.ftable f).kind

theorem kinds_ref (s : Files) (f : FilePtr) (n : Nat) :
    (s.setFile f { s.ftable f with ref := n }).kinds = s.kinds := by
  funext g
  by_cases hg : g = f
  · subst hg
    rw [Files.kinds, show (s.setFile g { s.ftable g with ref := n }).ftable g =
      { s.ftable g with ref := n } from Function.update_self ..]
    rfl
  · rw [Files.kinds, show (s.setFile f { s.ftable f with ref := n }).ftable g = s.ftable g from
      Function.update_of_ne hg ..]
    rfl

/-- A new file is not open yet. -/
theorem filealloc_spec (hI : FileStable I) {K : (FilePtr → FileKind) → Prop} :
    Triple (fun s => Good l m I s ∧ K s.kinds) filealloc fun r s =>
      match r with
      | some f => (Good l (f :: m) I s ∧ K s.kinds) ∧ s.kinds f = .none
      | none => Good l m I s ∧ K s.kinds := by
  rintro s ⟨hs, hk⟩ r s' he
  unfold filealloc at he
  split at he
  · rename_i f hfind
    cases he
    have hzero : (s.ftable f).ref = 0 := by simpa using (Fin.find?_eq_some_iff.mp hfind).1
    refine ⟨⟨⟨hs.1.setFile ?_ (fun g hg => count_cons_ne hg) (fun _ => rfl) hs.1.known ?_,
      hI.ref s f 1 hs.2⟩, ?_⟩, ?_⟩
    · rw [List.count_cons_self]
      dsimp only
      omega
    · intro h
      cases h
    · rw [kinds_ref]
      exact hk
    · rw [kinds_ref]
      exact hs.1.closed f hzero
  · cases he
    exact ⟨hs, hk⟩

theorem filedup_spec (hI : FileStable I) (f : FilePtr) :
    Triple (Good l m I) (filedup f) fun _ => Good l (f :: m) I := by
  intro s hs u s' he
  unfold filedup at he
  split at he
  · cases he
  · rename_i hpos
    cases he
    refine ⟨hs.1.setFile ?_ (fun g hg => count_cons_ne hg) (fun _ => rfl) hs.1.known ?_,
      hI.ref s f _ hs.2⟩
    · rw [List.count_cons_self]
      dsimp only
      omega
    · intro h
      cases h

/-- The last reference to a file leaves the program with the file's inode. -/
theorem filedrop_spec (hI : FileStable I) (f : FilePtr) :
    Triple (Good l (f :: m) I) (filedrop f) fun kind => GoodWith kind.ip l m I := by
  intro s hs kind s' he
  unfold filedrop at he
  split at he
  · cases he
  · rename_i hpos
    split at he
    · rename_i hmore
      cases he
      refine ⟨hs.1.setFile ?_ (fun g hg => (count_cons_ne hg).symm) (fun _ => rfl) hs.1.known ?_,
        hI.ref s f _ hs.2⟩
      · rw [List.count_cons_self]
        dsimp only
        omega
      · intro h
        dsimp only at h
        omega
    · rename_i hlast
      cases he
      have hone : (s.ftable f).ref = 1 := by omega
      have hkept := hI.close hs.1 hone hs.2
      have href : ({ ref := 0, kind := .none } : FileEntry).ref + (f :: m).count f =
          (s.ftable f).ref + m.count f := by
        rw [List.count_cons_self]
        dsimp only
        omega
      have hm : ∀ g, g ≠ f → m.count g = (f :: m).count g := fun g hg => (count_cons_ne hg).symm
      unfold GoodWith
      cases hip : (s.ftable f).kind.ip with
      | none =>
        refine ⟨hs.1.setFile href hm (fun ip => ?_) hs.1.known fun _ => rfl, hkept⟩
        rw [fileInodes, fileInodes, hip]
        rfl
      | some ip =>
        refine ⟨(s.itable ip).inum, hs.1.setFile href hm (fun jp => ?_) ?_ fun _ => rfl, hkept⟩
        · -- the pointer of the file becomes one of the program
          rw [fileInodes, fileInodes, hip, List.map_cons, count_cons_points]
          exact Nat.zero_add _
        · intro x hx
          rcases List.mem_cons.mp hx with rfl | hx
          · rfl
          · exact hs.1.known x hx

theorem fileclose_spec (hT : TxStable I J) (f : FilePtr) :
    Triple (Good l (f :: m) I) (fileclose f) fun _ => Good l m I := by
  refine (filedrop_spec hT.out f).bind fun kind => ?_
  have hput : ∀ ip, Triple (GoodWith (some ip) l m I) (do beginTx; iput ip; endTx)
      fun _ => Good l m I := by
    intro ip
    refine Triple.exists fun n => ?_
    exact (beginTx_spec hT).bind fun _ => (iput_spec hT.ref ip n).bind fun _ => endTx_spec hT
  cases kind with
  | none => exact Triple.pure fun s hs => hs
  | pipe => exact Triple.pure fun s hs => hs
  | inode ip => exact hput ip
  | device ip => exact hput ip

/-- A file that was not opened is closed without a transaction. -/
theorem fileclose_none_spec (hI : FileStable I) (f : FilePtr) :
    Triple (fun s => Good l (f :: m) I s ∧ (s.ftable f).kind.ip = none) (fileclose f)
      fun _ => Good l m I := by
  refine Triple.bind (Q := fun kind s => Good l m I s ∧ kind.ip = none) ?_ fun kind => ?_
  · intro s hs kind s' he
    have hgood := filedrop_spec hI f s hs.1 kind s' he
    have hnone : kind.ip = none := by
      unfold filedrop at he
      split at he
      · cases he
      · split at he
        · cases he
          rfl
        · cases he
          exact hs.2
    dsimp only at hgood
    rw [hnone] at hgood
    exact ⟨hgood, hnone⟩
  · cases kind with
    | none => exact Triple.pure fun s hs => hs.1
    | pipe => exact Triple.pure fun s hs => hs.1
    | inode ip =>
      rintro s ⟨_, hs⟩
      cases hs
    | device ip =>
      rintro s ⟨_, hs⟩
      cases hs

theorem Owns.file_pos (h : Owns l m s) (hf : f ∈ m) :
    0 < (s.ftable f).ref := by
  have hc := h.files f
  have hpos : 0 < m.count f := List.count_pos_iff.mpr hf
  omega

/-- The program's reference becomes the file's. -/
theorem setKind_spec (hI : FileStable I) (f : FilePtr) {kind : FileKind} (ip : InodePtr) (n : Nat)
    (hkind : kind.ip = some ip) :
    Triple (fun s => Good ((ip, n) :: l) m I s ∧ (s.kinds f).ip = none ∧ 0 < (s.ftable f).ref)
      (setKind f kind) fun _ => Good l m I := by
  refine Triple.modify fun s ⟨hs, hnone, hpos⟩ => ⟨hs.1.setFile rfl (fun _ _ => rfl) ?_ ?_ ?_,
    hI.kind s f kind hs.2 hnone⟩
  · intro jp
    rw [fileInodes, fileInodes, hkind, show (s.ftable f).kind.ip = none from hnone, List.map_cons,
      count_cons_points]
    exact (Nat.zero_add _).symm
  · exact fun x hx => hs.1.known x (List.mem_cons_of_mem _ hx)
  · intro h
    dsimp only at h
    omega

/-- A file becomes an end of a pipe. -/
theorem setKind_pipe_spec (hI : FileStable I) {g : FilePtr} (hf : f ∈ m) :
    Triple (fun s => Good l m I s ∧ (s.kinds f).ip = none ∧ (s.kinds g).ip = none)
      (setKind f .pipe) fun _ s => Good l m I s ∧ (s.kinds g).ip = none := by
  refine Triple.modify fun s ⟨hs, hnone, hg⟩ =>
    ⟨⟨hs.1.setFile rfl (fun _ _ => rfl) ?_ hs.1.known ?_, hI.kind s f .pipe hs.2 hnone⟩, ?_⟩
  · intro jp
    rw [fileInodes, fileInodes, show (s.ftable f).kind.ip = none from hnone]
    rfl
  · intro h
    have hpos := hs.1.file_pos hf
    dsimp only at h
    omega
  · by_cases hgf : g = f
    · subst hgf
      rw [Files.kinds, show (s.setFile g { s.ftable g with kind := .pipe }).ftable g =
        { s.ftable g with kind := .pipe } from Function.update_self ..]
      rfl
    · rw [Files.kinds, show (s.setFile f { s.ftable f with kind := .pipe }).ftable g =
        s.ftable g from Function.update_of_ne hgf ..]
      exact hg

end

/-! ## Processes -/

/-- The process is there, and has not exited. -/
def Present (p : Fin nproc) (s : Files) : Prop :=
  (s.proc p).state ≠ .unused ∧ (s.proc p).state ≠ .zombie

theorem EntryStable.and (hI : EntryStable I) (hK : EntryStable K) :
    EntryStable fun s => I s ∧ K s where
  entry h hs hcase := ⟨hI.entry h hs.1 hcase, hK.entry h hs.2 hcase⟩

theorem RefStable.and (hI : RefStable I) (hK : RefStable K) :
    RefStable fun s => I s ∧ K s where
  toEntryStable := hI.toEntryStable.and hK.toEntryStable
  free h hs hone hzero := ⟨hI.free h hs.1 hone hzero, hK.free h hs.2 hone hzero⟩

theorem FileStable.and (hI : FileStable I) (hK : FileStable K) :
    FileStable fun s => I s ∧ K s where
  ref s f n hs := ⟨hI.ref s f n hs.1, hK.ref s f n hs.2⟩
  close h hone hs := ⟨hI.close h hone hs.1, hK.close h hone hs.2⟩
  kind s f k hs hnone := ⟨hI.kind s f k hs.1 hnone, hK.kind s f k hs.2 hnone⟩
  fd s p fd v hs := ⟨hI.fd s p fd v hs.1, hK.fd s p fd v hs.2⟩
  cwd s p v hs := ⟨hI.cwd s p v hs.1, hK.cwd s p v hs.2⟩

@[simp] theorem setProc_proc :
    (s.setProc p e).proc p = e := Function.update_self ..

theorem setProc_proc_ne {q : Fin nproc} (h : q ≠ p) :
    (s.setProc p e).proc q = s.proc q := Function.update_of_ne h ..

theorem setProc_setProc {e' : FileProc} :
    (s.setProc p e).setProc p e' = s.setProc p e' := by
  simp only [Files.setProc, Function.update_idem]

/-- What is known of a process, apart from its descriptors and its directory. -/
structure Steady (c : FileProc → Prop) : Prop where
  fd : ∀ e fd v, c e → c (FileProc.setFd e fd v)
  cwd : ∀ e v, c e → c { e with cwd := v }

theorem Steady.refStable (p : Fin nproc) : RefStable fun s => c (s.proc p) where
  entry _ hs _ := hs
  free _ hs _ _ := hs

theorem Steady.setProc {q : Fin nproc} (hs : c (s.proc q)) (he : c (s.proc p) → c e) :
    c ((s.setProc p e).proc q) := by
  by_cases hq : q = p
  · subst hq
    rw [setProc_proc]
    exact he hs
  · rw [setProc_proc_ne hq]
    exact hs

theorem Steady.fileStable (hc : Steady c) (p : Fin nproc) :
    FileStable fun s => c (s.proc p) where
  ref _ _ _ hs := hs
  close _ _ hs := hs
  kind _ _ _ hs _ := hs
  fd _ _ fd v hs := Steady.setProc hs (hc.fd _ fd v)
  cwd _ _ v hs := Steady.setProc hs (hc.cwd _ v)

theorem Steady.txStable (hc : Steady c) (p : Fin nproc) :
    TxStable (fun s => c (s.proc p)) fun s => c (s.proc p) where
  ref := Steady.refStable p
  out := hc.fileStable p
  inside := hc.fileStable p
  enter _ hs := hs
  leave _ hs := hs

theorem TxStable.steady {J : Files → Prop} (h : TxStable I J) (hc : Steady c) (p : Fin nproc) :
    TxStable (fun s => I s ∧ c (s.proc p)) fun s => J s ∧ c (s.proc p) where
  ref := h.ref.and (Steady.refStable p)
  out := h.out.and (hc.fileStable p)
  inside := h.inside.and (hc.fileStable p)
  enter s hs := ⟨h.enter s hs.1, hs.2⟩
  leave s hs := ⟨h.leave s hs.1, hs.2⟩

theorem Creates.steady (h : Creates I) (p : Fin nproc) :
    Creates fun s => I s ∧ c (s.proc p) :=
  h.and (Steady.refStable p) fun _ _ _ hs => hs

section

variable {l l' : List (InodePtr × Nat)} {m m' : List FilePtr} {I J : Files → Prop}

theorem procFiles_setFd (f : FilePtr) (e : FileProc) (fd : Fin nofile) (v : Option FilePtr) :
    procFiles f (e.setFd fd v) + points (e.ofile fd) f = procFiles f e + points v f := by
  have htotal := total_update (w := fun v => points v f) e.ofile fd v
  unfold procFiles FileProc.setFd
  dsimp only
  omega

/-- The pointers of a process change with what the program owns. -/
theorem Owns.setPointers (h : Owns l m s)
    (hinodes : ∀ ip, procInodes ip e + (l'.map Prod.fst).count ip =
      procInodes ip (s.proc p) + (l.map Prod.fst).count ip)
    (hfiles : ∀ f, procFiles f e + m'.count f = procFiles f (s.proc p) + m.count f)
    (hknown : ∀ x ∈ l', (s.itable x.1).inum = x.2) (hstate : e.state ≠ .unused ∧ e.state ≠ .zombie)
    (hstuck : e.held ≠ none → e.state = .runnable ∧ e.stage = .stuck) :
    Owns l' m' (s.setProc p e) :=
  h.setProc (r := s.lost) (fun ip => by have hip := hinodes ip; omega) hfiles hknown
    (fun hu => absurd hu hstate.1) (fun hz => absurd hz hstate.2) hstuck

theorem Owns.setFd {v : Option FilePtr} (h : Owns l m s) (hp : Present p s)
    (hm : ∀ f, points v f + m'.count f = points ((s.proc p).ofile fd) f + m.count f) :
    Owns l m' (s.setProc p ((s.proc p).setFd fd v)) := by
  refine h.setPointers (fun _ => rfl) (fun f => ?_) h.known hp (h.stuck p)
  have hfd := procFiles_setFd f (s.proc p) fd v
  have hf := hm f
  omega

/-- `p->ofile[fd] = f` takes the file from the program. -/
theorem Good.storeFd (hI : FileStable I) (hs : Good l (f :: m) I s) (hp : Present p s)
    (hfd : (s.proc p).ofile fd = none) :
    Good l m I (s.setProc p ((s.proc p).setFd fd (some f))) := by
  refine ⟨hs.1.setFd hp fun g => ?_, hI.fd s p fd _ hs.2⟩
  rw [hfd, count_cons_points, points_none, Nat.zero_add]

theorem fdalloc_spec (p : Fin nproc) (hI : FileStable I) (hp : ∀ s, I s → Present p s) (f : FilePtr)
    {R : Fin nofile → Files → Prop} (hK : ∀ s fd, K s → (s.proc p).ofile fd = none →
      R fd (s.setProc p ((s.proc p).setFd fd (some f)))) :
    Triple (fun s => Good l (f :: m) I s ∧ K s) (fdalloc p f) fun r s =>
      match r with
      | some fd => (Good l m I s ∧ R fd s) ∧ (s.proc p).ofile fd = some f
      | none => Good l (f :: m) I s ∧ K s := by
  rintro s ⟨hs, hk⟩ r s' he
  unfold fdalloc at he
  split at he
  · rename_i fd hfind
    cases he
    have hfree : (s.proc p).ofile fd = none := by simpa using (Fin.find?_eq_some_iff.mp hfind).1
    refine ⟨⟨hs.storeFd hI (hp s hs.2) hfree, hK s fd hk hfree⟩, ?_⟩
    rw [setProc_proc]
    exact Function.update_self ..
  · cases he
    exact ⟨hs, hk⟩

/-- `p->ofile[fd] = 0` leaves the program with the file. -/
theorem Good.clearFd (hI : FileStable I) (hs : Good l m I s) (hp : Present p s)
    (hfd : (s.proc p).ofile fd = some f) :
    Good l (f :: m) I (s.setProc p ((s.proc p).setFd fd none)) := by
  refine ⟨hs.1.setFd hp fun g => ?_, hI.fd s p fd none hs.2⟩
  rw [hfd, count_cons_points, points_none, Nat.zero_add]

/-- `p->cwd = v`. -/
theorem Good.setCwd (hI : FileStable I) {v : Option InodePtr} (hs : Good l m I s) (hp : Present p s)
    (hl : ∀ ip, points v ip + (l'.map Prod.fst).count ip =
      points (s.proc p).cwd ip + (l.map Prod.fst).count ip)
    (hknown : ∀ x ∈ l', (s.itable x.1).inum = x.2) :
    Good l' m I (s.setProc p { s.proc p with cwd := v }) := by
  refine ⟨hs.1.setPointers (fun ip => ?_) (fun _ => rfl) hknown hp (hs.1.stuck p),
    hI.cwd s p v hs.2⟩
  have hip := hl ip
  unfold procInodes
  dsimp only
  omega

end

/-! A program that has nothing to do with processes may run before or after a pointer to what it
releases is cleared. -/

/-- The program neither reads nor writes the processes. -/
def ProcFree {α : Type} (prog : FileM α) : Prop :=
  ∀ s g, prog { s with proc := g } = (prog s).map fun x => (x.1, { x.2 with proc := g })

namespace ProcFree

variable {α β : Type}

theorem bind {prog : FileM α} {f : α → FileM β} (h : ProcFree prog) (hf : ∀ a, ProcFree (f a)) :
    ProcFree (prog >>= f) := by
  intro s g
  change ((prog { s with proc := g }).bind fun x => f x.1 x.2) =
    ((prog s).bind fun x => f x.1 x.2).map _
  rw [h s g]
  cases prog s with
  | none => rfl
  | some x => exact hf x.1 x.2 g

theorem pure (a : α) : ProcFree (Pure.pure a : FileM α) := fun _ _ => rfl

theorem iput (ip : InodePtr) : ProcFree (Xv6Paging.iput ip) := by
  intro s g
  unfold Xv6Paging.iput
  have hlast : ({ s with proc := g } : Files).lastRef ip = s.lastRef ip := rfl
  rw [hlast]
  cases s.lastRef ip <;> rfl

theorem beginTx : ProcFree Xv6Paging.beginTx := fun _ _ => rfl

theorem endTx : ProcFree Xv6Paging.endTx := fun _ _ => rfl

theorem filedrop (f : FilePtr) : ProcFree (Xv6Paging.filedrop f) := by
  intro s g
  unfold Xv6Paging.filedrop
  dsimp only
  split
  · rfl
  · split <;> rfl

theorem fileclose (f : FilePtr) : ProcFree (Xv6Paging.fileclose f) := by
  refine (filedrop f).bind fun kind => ?_
  have hput : ∀ ip, ProcFree (do Xv6Paging.beginTx; Xv6Paging.iput ip; Xv6Paging.endTx) :=
    fun ip => beginTx.bind fun _ => (iput ip).bind fun _ => endTx
  cases kind with
  | none => exact pure _
  | pipe => exact pure _
  | inode ip => exact hput ip
  | device ip => exact hput ip

/-- The processes are as before. -/
theorem proc_eq {prog : FileM α} (h : ProcFree prog) {s' : Files} {a : α}
    (he : prog s = some (a, s')) : s'.proc = s.proc := by
  have hself := h s s.proc
  rw [he] at hself
  have heq := (Prod.mk.inj (Option.some.inj hself)).2
  rw [heq]

/-- What it does, it does for any processes. -/
theorem triple {prog : FileM α} (h : ProcFree prog) {P : Files → Prop} {Q : α → Files → Prop}
    (ht : Triple P prog Q) {s' : Files} {a : α} {g : Fin nproc → FileProc}
    (hs : P { s with proc := g }) (he : prog s = some (a, s')) : Q a { s' with proc := g } := by
  refine ht _ hs a _ ?_
  rw [h s g, he]
  rfl

end ProcFree

section

variable {l : List (InodePtr × Nat)} {m : List FilePtr} {I J : Files → Prop} {s s' : Files}
  {p : Fin nproc} {prog : FileM Unit}

/-- The program gives back the working directory, and the pointer to it is cleared after that. -/
theorem ProcFree.putCwd (hprog : ProcFree prog) (hI : FileStable I)
    (ht : ∀ n, Triple (Good ((ip, n) :: l) m I) prog fun _ => Good l m J) (hs : Good l m I s)
    (hp : Present p s) (hcwd : (s.proc p).cwd = some ip) {u : Unit} (he : prog s = some (u, s')) :
    Good l m J (s'.setProc p { s'.proc p with cwd := none }) := by
  have hclear : Good ((ip, (s.itable ip).inum) :: l) m I
      (s.setProc p { s.proc p with cwd := none }) := by
    refine hs.setCwd hI hp (fun jp => ?_) fun x hx => ?_
    · rw [hcwd, List.map_cons, count_cons_points, points_none, Nat.zero_add]
    · rcases List.mem_cons.mp hx with rfl | hx
      · rfl
      · exact hs.1.known x hx
  have hend := hprog.triple (ht _) hclear he
  rw [← hprog.proc_eq he] at hend
  exact hend

/-- The program closes a file, and the descriptor is cleared after that. -/
theorem ProcFree.putFd (hprog : ProcFree prog) (hI : FileStable I)
    (ht : Triple (Good l (f :: m) I) prog fun _ => Good l m J) (hs : Good l m I s)
    (hp : Present p s) (hfd : (s.proc p).ofile fd = some f) {u : Unit}
    (he : prog s = some (u, s')) : Good l m J (s'.setProc p ((s'.proc p).setFd fd none)) := by
  have hend := hprog.triple ht (hs.clearFd hI hp hfd) he
  rw [← hprog.proc_eq he] at hend
  exact hend

end

end Xv6Paging
