import Xv6Paging.Proof.InodeRefs

/-!
# Names of swap files

A swap file is found by its name in the root directory, and the name has the last five
digits of the pid. `Private` says that the swap file of each process is the inode its
name leads to, that the inode has no other name there, and that no other process has it.
Reference counts, descriptors and directories do not matter to it, and an inode that goes
with its last reference was nobody's swap file; so it is an assertion that the programs
of `FileRefs` leave alone.
-/

namespace Xv6Paging

open Lib

variable {n : Nat} {p : Fin nproc} {f : FilePtr} {e : FileProc} {d : Dinode}

/-! ## Names -/

/-- The name has the last five digits of the pid. -/
theorem swapName_inj {a b : Nat} (h : swapName a = swapName b) : a % 100000 = b % 100000 := by
  have hdigit : ∀ i j : Nat, UInt8.ofNat (48 + i % 10) = UInt8.ofNat (48 + j % 10) →
      i % 10 = j % 10 := by
    intro i j hij
    have hnat := congrArg UInt8.toNat hij
    simp only [UInt8.toNat_ofNat'] at hnat
    omega
  simp only [swapName, List.map_cons, List.map_nil, List.append_cancel_left_eq, List.cons.injEq,
    and_true, Nat.div_one] at h
  have h₄ := hdigit _ _ h.1
  have h₃ := hdigit _ _ h.2.1
  have h₂ := hdigit _ _ h.2.2.1
  have h₁ := hdigit _ _ h.2.2.2.1
  have h₀ := hdigit _ _ h.2.2.2.2
  omega

/-- The root directory. -/
def Files.root (s : Files) : List (Name × Nat) := (s.dinode rootIno).entries

/-- The inode of a process's swap file. -/
def Files.swapInum (s : Files) (p : Fin nproc) : Option Nat :=
  (s.proc p).swapfile.bind fun f => (s.ftable f).kind.ip.map fun ip => (s.itable ip).inum

/-- A name is in a directory, and for this inode. -/
def HasName (name : Name) (n : Nat) (r : List (Name × Nat)) : Prop :=
  ∃ e, r.find? (fun e => e.1 == name) = some e ∧ e.2 = n

/-- A root directory in which the inodes are allocated and a name of a swap file is the only one
its inode has there. -/
structure RootOk (s : Files) : Prop where
  dir : (s.dinode rootIno).type = .dir
  nlink : 1 ≤ (s.dinode rootIno).nlink
  alloc : ∀ e ∈ s.root, (s.dinode e.2).type ≠ .free
  linked : ∀ e ∈ s.root, 1 ≤ (s.dinode e.2).nlink
  notRoot : ∀ e ∈ s.root, ∀ k, e.1 = swapName k → e.2 ≠ rootIno
  single : ∀ e ∈ s.root, ∀ k, e.1 = swapName k → s.root.countP (fun x => x.2 == e.2) = 1

/-- What holds of the inode `n` of the swap file that the process `p` has while its entry is `e`: it
has the name that goes with the pid until the process has unlinked it, and then it has none; and
nobody else has it. -/
structure SwapOk (s : Files) (p : Fin nproc) (e : FileProc) (n : Nat) : Prop where
  used : (s.dinode n).type ≠ .free
  named : e.stage ≠ .unlinked → HasName (swapName e.pid) n s.root
  gone : e.stage = .unlinked → ∀ x ∈ s.root, x.2 ≠ n
  apart : ∀ q, q ≠ p → s.swapInum q ≠ some n

/-- Swap files are private, and the pids differ in their last digits. -/
structure Private (s : Files) : Prop extends RootOk s where
  pids : ∀ p q, p ≠ q → Present p s → Present q s → (s.proc p).pid % 100000 ≠
    (s.proc q).pid % 100000
  files : ∀ p f, (s.proc p).swapfile = some f →
    ∃ ip, (s.ftable f).kind = .inode ip ∧ SwapOk s p (s.proc p) (s.itable ip).inum

/-! ## What leaves it alone -/

section

variable {l : List (InodePtr × Nat)} {m : List FilePtr} {s s' : Files}

theorem swapInum_eq_some : s.swapInum p = some n ↔
    ∃ f ip, (s.proc p).swapfile = some f ∧ (s.ftable f).kind.ip = some ip ∧
      (s.itable ip).inum = n := by
  unfold Files.swapInum
  constructor
  · intro h
    obtain ⟨f, hf, h⟩ := Option.bind_eq_some_iff.mp h
    obtain ⟨ip, hip, h⟩ := Option.map_eq_some_iff.mp h
    exact ⟨f, ip, hf, hip, h⟩
  · rintro ⟨f, ip, hf, hip, h⟩
    rw [hf, Option.bind_some, hip, Option.map_some, h]

theorem Private.swapOk (h : Private s) (hn : s.swapInum p = some n) :
    SwapOk s p (s.proc p) n := by
  obtain ⟨f, ip, hf, hip, rfl⟩ := swapInum_eq_some.mp hn
  obtain ⟨jp, hkind, hok⟩ := h.files p f hf
  rw [hkind] at hip
  cases hip
  exact hok

/-- The entry of the inode table that a file has is not the program's alone. -/
theorem Owns.swap_ref {ip : InodePtr} (h : Owns l m s) (hip : (s.ftable f).kind.ip = some ip) :
    (l.map Prod.fst).count ip < (s.itable ip).ref := by
  have hc := h.inodes ip
  have hle := le_total (w := fileInodes ip) s.ftable f
  rw [fileInodes, hip, points_self] at hle
  omega

/-- Who has a swap file is there. -/
theorem Owns.swap_present {q : Fin nproc} (h : Owns l m s) (hq : (s.proc q).swapfile ≠ none) :
    Present q s :=
  ⟨fun hu => hq (h.unused q hu).swapfile, fun hz => hq (h.zombie q hz).swapfile⟩

theorem RootOk.congr (h : RootOk s) (hd : s'.dinode = s.dinode) : RootOk s' := by
  have hroot : s'.root = s.root := by rw [Files.root, Files.root, hd]
  constructor
  · rw [hd]; exact h.dir
  · rw [hd]; exact h.nlink
  · rw [hd, hroot]; exact h.alloc
  · rw [hd, hroot]; exact h.linked
  · rw [hroot]; exact h.notRoot
  · rw [hroot]; exact h.single

theorem SwapOk.congr (h : SwapOk s p e n) (hd : s'.dinode = s.dinode)
    (hswap : ∀ q, q ≠ p → s'.swapInum q = s.swapInum q) :
    SwapOk s' p e n := by
  have hroot : s'.root = s.root := by rw [Files.root, Files.root, hd]
  refine ⟨?_, ?_, ?_, fun q hq => ?_⟩
  · rw [hd]; exact h.used
  · rw [hroot]; exact h.named
  · rw [hroot]; exact h.gone
  · rw [hswap q hq]
    exact h.apart q hq

/-- The processes and the disk are the same, and so are the inodes of the swap files. -/
theorem Private.congr (h : Private s) (hd : s'.dinode = s.dinode) (hp : s'.proc = s.proc)
    (hkind : ∀ p f, (s.proc p).swapfile = some f → (s'.ftable f).kind = (s.ftable f).kind)
    (hinum : ∀ p f ip, (s.proc p).swapfile = some f → (s.ftable f).kind = .inode ip →
      (s'.itable ip).inum = (s.itable ip).inum) : Private s' := by
  have hswap : ∀ q, s'.swapInum q = s.swapInum q := by
    intro q
    unfold Files.swapInum
    rw [hp]
    cases hf : (s.proc q).swapfile with
    | none => rfl
    | some f =>
      obtain ⟨ip, hip, _⟩ := h.files q f hf
      rw [Option.bind_some, Option.bind_some, hkind q f hf, hip]
      exact congrArg some (hinum q f ip hf hip)
  refine ⟨h.toRootOk.congr hd, ?_, fun p f hf => ?_⟩
  · unfold Present
    rw [hp]
    exact h.pids
  · rw [hp] at hf ⊢
    obtain ⟨ip, hip, hok⟩ := h.files p f hf
    refine ⟨ip, (hkind p f hf).trans hip, ?_⟩
    rw [hinum p f ip hf hip]
    exact hok.congr hd fun q _ => hswap q

/-- The inode of a file stays the same. -/
theorem fileInum_setInode {ip : InodePtr} {e : InodeEntry} (h : Owns l m s)
    (hcase : (s.itable ip).ref = 0 ∨ e.inum = (s.itable ip).inum) {jp : InodePtr}
    (hf : (s.ftable f).kind.ip = some jp) :
    ((s.setInode ip e).itable jp).inum = (s.itable jp).inum := by
  have hpos := h.swap_ref hf
  by_cases hj : jp = ip
  · subst hj
    rw [show (s.setInode jp e).itable jp = e from Function.update_self ..,
      hcase.resolve_left (by omega)]
  · rw [show (s.setInode ip e).itable jp = s.itable jp from Function.update_of_ne hj ..]

theorem private_entryStable : EntryStable Private where
  entry howns hs hcase :=
    hs.congr rfl rfl (fun _ _ _ => rfl) fun _ _ _ _ hkind =>
      fileInum_setInode howns hcase (congrArg FileKind.ip hkind)

/-- An inode without links is not in the root directory. -/
theorem RootOk.not_linked (h : RootOk s) (hn : (s.dinode n).nlink = 0) :
    n ≠ rootIno ∧ ∀ e ∈ s.root, e.2 ≠ n := by
  refine ⟨?_, ?_⟩
  · rintro rfl
    have := h.nlink
    omega
  · rintro e he rfl
    have := h.linked e he
    omega

@[simp] theorem setDinode_self (s : Files) (n : Nat) (d : Dinode) :
    (s.setDinode n d).dinode n = d :=
  Function.update_self ..

theorem setDinode_ne (s : Files) {k : Nat} (d : Dinode) (h : k ≠ n) :
    (s.setDinode n d).dinode k = s.dinode k := Function.update_of_ne h ..

theorem setDinode_root {s : Files} (h : n ≠ rootIno) :
    (s.setDinode n d).root = s.root := by
  rw [Files.root, setDinode_ne s d h.symm, Files.root]

/-- Inodes that are not in the root directory may be changed. -/
theorem RootOk.setDinode (h : RootOk s) (hn : n ≠ rootIno) (hroot : ∀ e ∈ s.root, e.2 ≠ n) :
    RootOk (s.setDinode n d) := by
  have hdir := setDinode_ne s d hn.symm
  have heq : (s.setDinode n d).root = s.root := setDinode_root hn
  have hentry : ∀ e ∈ s.root, (s.setDinode n d).dinode e.2 = s.dinode e.2 :=
    fun e he => setDinode_ne s d (hroot e he)
  constructor
  · rw [hdir]; exact h.dir
  · rw [hdir]; exact h.nlink
  · rw [heq]
    intro e he
    rw [hentry e he]
    exact h.alloc e he
  · rw [heq]
    intro e he
    rw [hentry e he]
    exact h.linked e he
  · rw [heq]; exact h.notRoot
  · rw [heq]; exact h.single

theorem Private.setDinode (h : Private s) (hn : n ≠ rootIno) (hroot : ∀ e ∈ s.root, e.2 ≠ n)
    (hswap : ∀ p, s.swapInum p ≠ some n) :
    Private (s.setDinode n d) := by
  have heq : (s.setDinode n d).root = s.root := setDinode_root hn
  refine ⟨h.toRootOk.setDinode hn hroot, h.pids, fun p f hf => ?_⟩
  obtain ⟨ip, hip, hok⟩ := h.files p f hf
  have hne : (s.itable ip).inum ≠ n := by
    intro hinum
    exact hswap p (swapInum_eq_some.mpr ⟨f, ip, hf, by rw [hip]; rfl, hinum⟩)
  refine ⟨ip, hip, ?_, ?_, ?_, hok.apart⟩
  · rw [show ((s.setDinode n d).itable ip).inum = (s.itable ip).inum from rfl, setDinode_ne s d hne]
    exact hok.used
  · rw [heq]
    exact hok.named
  · rw [heq]
    exact hok.gone

theorem private_refStable : RefStable Private where
  toEntryStable := private_entryStable
  free {l m s ip n} howns hs hone hzero := by
    obtain ⟨hn, hroot⟩ := hs.toRootOk.not_linked hzero
    -- the last reference is the program's, so that no swap file has the inode
    have hswap : ∀ p, s.swapInum p ≠ some (s.itable ip).inum := by
      intro p hp
      obtain ⟨f, jp, _, hjp, hinum⟩ := swapInum_eq_some.mp hp
      have href := howns.swap_ref hjp
      have hji : jp = ip := howns.unique jp ip (by omega) (by omega) hinum
      subst hji
      rw [List.map_cons, List.count_cons_self] at href
      omega
    have hpriv : Private ({ s with drops := s.tx :: s.drops }) :=
      hs.congr rfl rfl (fun _ _ _ => rfl) fun _ _ _ _ _ => rfl
    have hfreed := hpriv.setDinode (d := { s.disk ip with type := .free, entries := [] }) hn hroot
      hswap
    refine private_entryStable.entry (l := (ip, n) :: l) (m := m) ?_ hfreed (Or.inr rfl)
    exact howns.congr rfl rfl rfl rfl

theorem Private.setFile (h : Private s) {e : FileEntry}
    (hf : (∃ p, (s.proc p).swapfile = some f) → e.kind = (s.ftable f).kind) :
    Private (s.setFile f e) := by
  refine h.congr rfl rfl (fun p g hg => ?_) fun _ _ _ _ _ => rfl
  by_cases hgf : g = f
  · subst hgf
    rw [show (s.setFile g e).ftable g = e from Function.update_self ..]
    exact hf ⟨p, hg⟩
  · rw [show (s.setFile f e).ftable g = s.ftable g from Function.update_of_ne hgf ..]

/-- The entry of a process changes; what has to be shown is about that process. -/
theorem Private.setProc (h : Private s)
    (hpid : e.state ≠ .unused ∧ e.state ≠ .zombie → ∀ q, q ≠ p → Present q s →
      e.pid % 100000 ≠ (s.proc q).pid % 100000) (hfile : ∀ f, e.swapfile = some f →
      ∃ ip, (s.ftable f).kind = .inode ip ∧ SwapOk s p e (s.itable ip).inum) :
    Private (s.setProc p e) := by
  have hpresent : ∀ q, q ≠ p → Present q (s.setProc p e) → Present q s := by
    intro q hq hpres
    rw [Present, setProc_proc_ne hq] at hpres
    exact hpres
  have hat : Present p (s.setProc p e) → e.state ≠ .unused ∧ e.state ≠ .zombie := by
    intro hpres
    rw [Present, setProc_proc] at hpres
    exact hpres
  have hswap : ∀ q, q ≠ p → (s.setProc p e).swapInum q = s.swapInum q := by
    intro q hq
    unfold Files.swapInum
    rw [setProc_proc_ne hq]
    rfl
  refine ⟨h.toRootOk.congr rfl, fun q r hqr hq hr => ?_, fun q f hf => ?_⟩
  · by_cases hqp : q = p
    · subst hqp
      rw [setProc_proc, setProc_proc_ne hqr.symm]
      exact hpid (hat hq) r hqr.symm (hpresent r hqr.symm hr)
    · by_cases hrp : r = p
      · subst hrp
        rw [setProc_proc, setProc_proc_ne hqp]
        exact (hpid (hat hr) q hqp (hpresent q hqp hq)).symm
      · rw [setProc_proc_ne hqp, setProc_proc_ne hrp]
        exact h.pids q r hqr (hpresent q hqp hq) (hpresent r hrp hr)
  · by_cases hqp : q = p
    · subst hqp
      rw [setProc_proc] at hf ⊢
      obtain ⟨ip, hip, hok⟩ := hfile f hf
      exact ⟨ip, hip, hok.congr rfl hswap⟩
    · rw [setProc_proc_ne hqp] at hf ⊢
      obtain ⟨ip, hip, hok⟩ := h.files q f hf
      refine ⟨ip, hip, hok.used, hok.named, hok.gone, fun r hr => ?_⟩
      by_cases hrp : r = p
      · -- the other way round for `p`
        subst hrp
        intro hn
        obtain ⟨g, jp, hg, hjp, hinum⟩ := swapInum_eq_some.mp hn
        rw [setProc_proc] at hg
        obtain ⟨kp, hkp, hokr⟩ := hfile g hg
        rw [show ((s.setProc r e).ftable g).kind = .inode kp from hkp] at hjp
        cases hjp
        refine hokr.apart q hqp (swapInum_eq_some.mpr ⟨f, ip, hf, by rw [hip]; rfl, ?_⟩)
        exact hinum.symm
      · rw [hswap r hrp]
        exact hok.apart r hr

/-- The entry of a process changes in what is not about its swap file. -/
theorem Private.keepProc (h : Private s) (hswap : e.swapfile = (s.proc p).swapfile)
    (hpid : e.pid = (s.proc p).pid)
    (hstage : e.swapfile ≠ none → (e.stage = .unlinked ↔ (s.proc p).stage = .unlinked))
    (hstate : (e.state ≠ .unused ∧ e.state ≠ .zombie) → Present p s) : Private (s.setProc p e) := by
  refine h.setProc (fun hpres q hq hpq => ?_) fun f hf => ?_
  · rw [hpid]
    exact h.pids p q hq.symm (hstate hpres) hpq
  · obtain ⟨ip, hip, hok⟩ := h.files p f (hswap ▸ hf)
    have hiff := hstage (by rw [hf]; simp)
    refine ⟨ip, hip, hok.used, fun hst => ?_, fun hst => hok.gone (hiff.mp hst), hok.apart⟩
    rw [hpid]
    exact hok.named fun h => hst (hiff.mpr h)

theorem private_fileStable : FileStable Private where
  ref _ _ _ hs := hs.setFile fun _ => rfl
  close {l m s f} howns hone hs := by
    refine hs.setFile fun ⟨p, hf⟩ => ?_
    have hc := howns.files f
    have hle := le_total (w := procFiles f) s.proc p
    rw [procFiles, hf, points_self] at hle
    rw [List.count_cons_self] at hc
    omega
  kind s f k hs hnone := by
    refine hs.setFile fun ⟨p, hf⟩ => ?_
    obtain ⟨ip, hip, _⟩ := hs.files p f hf
    rw [hip] at hnone
    cases hnone
  fd _ _ _ _ hs := hs.keepProc rfl rfl (fun _ => Iff.rfl) fun h => h
  cwd _ _ _ hs := hs.keepProc rfl rfl (fun _ => Iff.rfl) fun h => h

theorem private_txStable : TxStable Private Private where
  ref := private_refStable
  out := private_fileStable
  inside := private_fileStable
  enter _ hs := hs.congr rfl rfl (fun _ _ _ => rfl) fun _ _ _ _ _ => rfl
  leave _ hs := hs.congr rfl rfl (fun _ _ _ => rfl) fun _ _ _ _ _ => rfl

end

end Xv6Paging
