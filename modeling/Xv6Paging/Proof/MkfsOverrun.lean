import Xv6Paging.Proof.MkfsAgrees

/-!
# `mkfs` without inodes left

`mkfs` counts inodes up and does not look at `NINODES`. The inodes past the last inode block are
written into the blocks that follow: the bitmap, which is written again at the end, and then the
blocks of the first files. If the indirect block of the first file is among these, its entries are
then the words of an inode.
-/

namespace Xv6Paging.Mkfs

open Lib Fs

/-- Thirteen blocks, so that there is an indirect block. -/
def bigFile : Arg :=
  { path := ascii "big"
    noNul := by decide
    reads := some (List.replicate 13 (List.replicate 1024 1)) }

/-- A file without contents. -/
def emptyFile : Arg := { path := ascii "empty", noNul := by decide, reads := some [] }

/-- The big file, and then inode after inode. -/
structure Overrun (ind : Nat) (m : Image) : Prop where
  nsect : m.nsect = 2000
  super : m.blocks 1 = sbBlock
  big : (getDinode (m.blocks 33) 2).ind = ind
  low : 47 ≤ ind
  high : ind < 62
  freeblock : 62 ≤ m.freeblock ∧ m.freeblock ≤ 59 + m.freeinode
  freeinode : 3 ≤ m.freeinode
  root : (getDinode (m.blocks 33) 1).size = 16 * m.freeinode
  addrs : ∀ a : Fin 13, (getDinode (m.blocks 33) 1).addrs a = 0 ∨
    47 ≤ (getDinode (m.blocks 33) 1).addrs a ∧ (getDinode (m.blocks 33) 1).addrs a < m.freeblock ∧
      (getDinode (m.blocks 33) 1).addrs a ≠ ind
  /-- The first inode in the indirect block has been written. -/
  hit : (ind - 33) * 16 < m.freeinode → word (m.blocks ind) 0 = tFile

section

variable {ind : Nat} {m : Image}

theorem rsect_ok (h : m.nsect = 2000) {b : Nat} (hb : b < 2000) : rsect m b = .ok (m.blocks b) :=
  if_pos (by omega)

theorem iblock_root : sb.iblock 1 = 33 := by decide

theorem winode_ok (h : m.nsect = 2000) {i : Nat} (hi : i < 700) (ip : Fs.Dinode) :
    winode m i ip = .ok (put m i ip) := by
  have hlt : sb.iblock i < 2000 := show i / 16 + 33 < 2000 by omega
  rw [winode, rsect_ok h hlt]
  rfl

/-- `ialloc`, wherever the inode goes. -/
theorem Overrun.ialloc_spec (h : Overrun ind m) (hi : m.freeinode < 700) :
    ∃ m', ialloc m tFile = .ok (m.freeinode, m') ∧ m'.freeinode = m.freeinode + 1 ∧
      m'.freeblock = m.freeblock ∧ m'.nsect = 2000 ∧ m'.blocks 1 = sbBlock ∧
      (∀ j, j < 3 → getDinode (m'.blocks 33) j = getDinode (m.blocks 33) j) ∧
      ((ind - 33) * 16 < m'.freeinode → word (m'.blocks ind) 0 = tFile) := by
  have hstart := h.freeinode
  have hlow := h.low
  obtain ⟨ip, hip⟩ : ∃ ip : Fs.Dinode, ip = ⟨tFile, 0, 0, 1, 0, fun _ => 0⟩ := ⟨_, rfl⟩
  have hblock : ∀ b, b ≠ m.freeinode / 16 + 33 →
      (put { m with freeinode := m.freeinode + 1 } m.freeinode ip).blocks b = m.blocks b :=
    fun b hb => Function.update_of_ne hb _ _
  have hself : (put { m with freeinode := m.freeinode + 1 } m.freeinode ip).blocks
    (m.freeinode / 16 + 33) =
      putDinode (m.blocks (m.freeinode / 16 + 33)) (m.freeinode % 16) ip := Function.update_self ..
  refine ⟨put { m with freeinode := m.freeinode + 1 } m.freeinode ip, ?_, rfl, rfl, ?_, ?_,
    fun j hj => ?_, fun hhit => ?_⟩
  · have hwinode := winode_ok (m := { m with freeinode := m.freeinode + 1 }) h.nsect hi ip
    rw [ialloc, ← hip, hwinode]
    rfl
  · show max m.nsect (m.freeinode / 16 + 33 + 1) = 2000
    rw [h.nsect]
    omega
  · rw [hblock 1 (by omega), h.super]
  · by_cases hb : 33 = m.freeinode / 16 + 33
    · rw [hb, hself]
      exact getDinode_putDinode_ne _ _ (by omega) (by omega)
    · rw [hblock 33 hb]
  · have hhit : (ind - 33) * 16 < m.freeinode + 1 := hhit
    by_cases hb : ind = m.freeinode / 16 + 33
    · rw [hb, hself]
      by_cases hfirst : m.freeinode % 16 = 0
      · have hfits : ip.Fits := by
          rw [hip]
          exact ⟨by decide, by decide, by decide, by decide, by decide, fun _ => Nat.two_pow_pos 32⟩
        have hword :=
          word_putDinode_self (m.blocks (m.freeinode / 16 + 33)) (j := 0) (w := 0) (by decide)
            (by decide) hfits
        rw [hfirst]
        refine hword.trans ?_
        rw [hip]
        rfl
      · have hword :=
          word_putDinode_ne (m.blocks (m.freeinode / 16 + 33)) (j := m.freeinode % 16) (w := 0) ip
            (show 0 < 16 by decide) (by decide) (fun heq => hfirst heq.symm)
        refine hword.trans ?_
        rw [← hb]
        exact h.hit (by omega)
    · rw [hblock ind hb]
      exact h.hit (by omega)

/-- What `newAddr` does for the root directory. -/
theorem newAddr_root {din : Fs.Dinode} (a : Fin 13) (hfree : 62 ≤ m.freeblock) (hind : ind < 62)
    (haddrs : ∀ a, din.addrs a = 0 ∨ 47 ≤ din.addrs a ∧ din.addrs a < m.freeblock ∧
      din.addrs a ≠ ind) :
    ∃ n x, newAddr m din a = ({ m with freeblock := n },
      { din with addrs := Function.update din.addrs a x }) ∧ m.freeblock ≤ n ∧ n ≤ m.freeblock + 1 ∧
      47 ≤ x ∧ x < n ∧ x ≠ ind := by
  by_cases hzero : din.addrs a = 0
  · refine ⟨m.freeblock + 1, m.freeblock, if_pos hzero, ?_⟩
    omega
  · obtain ⟨hlow, hhigh, hne⟩ := (haddrs a).resolve_left hzero
    refine ⟨m.freeblock, din.addrs a, ?_, ?_⟩
    · rw [newAddr, if_neg hzero, Function.update_eq_self]
    · omega

/-- An entry of the root directory: it goes into one block, which is not the indirect block. -/
theorem iappend_entry {din : Fs.Dinode} (hn : m.nsect = 2000) (hfree : 62 ≤ m.freeblock)
    (hroom : m.freeblock < 1000) (hind : ind < 62) {k : Nat} (hk : k < 700)
    (hroot : getDinode (m.blocks 33) 1 = din) (hsize : din.size = 16 * k)
    (haddrs : ∀ a, din.addrs a = 0 ∨ 47 ≤ din.addrs a ∧ din.addrs a < m.freeblock ∧
      din.addrs a ≠ ind)
    {p : List UInt8} (hp : p.length = 16) :
    ∃ n x a buf, 47 ≤ x ∧ x < n ∧ x ≠ ind ∧ m.freeblock ≤ n ∧ n ≤ m.freeblock + 1 ∧
      iappend m Fs.rootIno p = .ok (put (wsect { m with freeblock := n } x buf) 1
        { din with size := 16 * k + 16, addrs := Function.update din.addrs a x }) := by
  have hblock : 16 * k / 1024 < 12 := by omega
  obtain ⟨a, ha⟩ : ∃ a : Fin 13, a = Fin.castSucc ⟨16 * k / 1024, hblock⟩ := ⟨_, rfl⟩
  obtain ⟨n, x, hnew, hle, hn1, hlow, hhigh, hne⟩ := newAddr_root a hfree hind haddrs
  have hone : min p.length ((16 * k / 1024 + 1) * 1024 - 16 * k) = 16 := by omega
  have hnil : p.drop 16 = [] := List.drop_eq_nil_of_le (Nat.le_of_eq hp)
  have hpne : p ≠ [] := List.ne_nil_of_length_pos (by omega)
  have hread : rinode m Fs.rootIno = .ok din := by
    rw [rinode, show sb.iblock Fs.rootIno = 33 from iblock_root, rsect_ok hn (by decide), ← hroot]
    rfl
  have hfor : blockFor m din (16 * k / 1024) =
      .ok (x, { m with freeblock := n }, { din with addrs := Function.update din.addrs a x }) := by
    rw [blockFor, dif_pos hblock, ← ha, hnew]
    simp only [Function.update_self]
  have hx : rsect { m with freeblock := n } x = .ok (m.blocks x) := rsect_ok hn (by omega)
  obtain ⟨buf, hbuf⟩ : ∃ buf, buf = Block.write (m.blocks x) (16 * k - 16 * k / 1024 * 1024)
      (p.take 16) :=
    ⟨_, rfl⟩
  have hloop : iappendLoop 16 m din (16 * k) p = .ok (wsect { m with freeblock := n } x buf,
      { din with addrs := Function.update din.addrs a x }, 16 * k + 16) := by
    rw [iappendLoop, if_neg hpne, if_neg (by omega), hfor]
    simp only [bind, Except.bind, hx, hone, hnil, ← hbuf]
    rw [iappendLoop, if_pos rfl]
  have hw : (wsect { m with freeblock := n } x buf).nsect = 2000 := by
    show max m.nsect (x + 1) = 2000
    omega
  refine ⟨n, x, a, buf, hlow, hhigh, hne, hle, hn1, ?_⟩
  rw [iappend, hread]
  simp only [bind, Except.bind, hp, hsize, hloop]
  exact winode_ok hw (by decide) _

/-- One more file. -/
theorem Overrun.addFile_spec (h : Overrun ind m) (hi : m.freeinode < 699) :
    ∃ m', addFile m emptyFile = .ok m' ∧ Overrun ind m' ∧ m'.freeinode = m.freeinode + 1 := by
  have hstart := h.freeinode
  have hfree := h.freeblock
  have hlow := h.low
  have hhigh := h.high
  obtain ⟨m₁, hcall₁, hinode₁, hblock₁, hn₁, hsb₁, hkept₁, hhit₁⟩ := h.ialloc_spec (by omega)
  have hname : emptyFile.name.length ≤ 14 := by decide
  have hlen : (dirent m.freeinode emptyFile.name).length = 16 := by
    rw [dirent_eq]
    exact Dirent.bytes_length (pad_length hname)
  have hroot₁ : getDinode (m₁.blocks 33) 1 = getDinode (m.blocks 33) 1 := hkept₁ 1 (by decide)
  obtain ⟨n, x, a, buf, hx, hxn, hxind, hle, hn, hcall₂⟩ :=
    iappend_entry hn₁ (by omega) (by omega) hhigh (show m.freeinode < 700 by omega) hroot₁ h.root
      (by rw [hblock₁]; exact h.addrs) hlen
  obtain ⟨ip, hip⟩ : ∃ ip : Fs.Dinode, ip = { getDinode (m.blocks 33) 1 with
    size := 16 * m.freeinode + 16
    addrs := Function.update (getDinode (m.blocks 33) 1).addrs a x } := ⟨_, rfl⟩
  rw [← hip] at hcall₂
  generalize hm' : put (wsect { m₁ with freeblock := n } x buf) 1 ip = m' at hcall₂
  have hblocks : ∀ b, b ≠ 33 → b ≠ x → m'.blocks b = m₁.blocks b := by
    intro b hb hbx
    rw [← hm']
    exact (Function.update_of_ne hb _ _).trans (Function.update_of_ne hbx _ _)
  have hinodes : m'.blocks 33 = putDinode (m₁.blocks 33) 1 ip := by
    rw [← hm']
    show Function.update (Function.update m₁.blocks x buf) 33
      (putDinode (Function.update m₁.blocks x buf 33) 1 ip) 33 = _
    rw [Function.update_self, Function.update_of_ne (by omega : 33 ≠ x)]
  have hold := getDinode_fits (m.blocks 33) 1
  have hfits : ip.Fits := by
    rw [hip]
    refine ⟨hold.type, hold.major, hold.minor, hold.nlink, ?_, fun c => ?_⟩
    · show 16 * m.freeinode + 16 < 2 ^ 32
      omega
    · show Function.update (getDinode (m.blocks 33) 1).addrs a x c < 2 ^ 32
      by_cases hc : c = a
      · rw [hc, Function.update_self]
        omega
      · rw [Function.update_of_ne hc]
        exact hold.addrs c
  have hself : getDinode (m'.blocks 33) 1 = ip := by
    rw [hinodes]
    exact getDinode_putDinode _ (by decide) hfits
  have hother : getDinode (m'.blocks 33) 2 = getDinode (m.blocks 33) 2 := by
    rw [hinodes, getDinode_putDinode_ne _ _ (by decide) (by decide)]
    exact hkept₁ 2 (by decide)
  have hm'n : m'.nsect = 2000 := by
    rw [← hm']
    show max (max m₁.nsect (x + 1)) (33 + 1) = 2000
    omega
  have hm'i : m'.freeinode = m₁.freeinode := by rw [← hm']; rfl
  have hm'b : m'.freeblock = n := by rw [← hm']; rfl
  refine ⟨m', ?_, ⟨hm'n, ?_, by rw [hother, h.big], hlow, hhigh, by omega, by omega, ?_,
    fun c => ?_, ?_⟩, by omega⟩
  · rw [addFile, if_neg (by decide : 47 ∉ emptyFile.shortname)]
    show (if 14 < emptyFile.name.length then _ else _) = _
    rw [if_neg (by omega), hcall₁]
    show (iappend m₁ Fs.rootIno (dirent m.freeinode emptyFile.name) >>= _) = _
    rw [hcall₂]
    rfl
  · rw [hblocks 1 (by decide) (by omega), hsb₁]
  · rw [hself, hip]
    show 16 * m.freeinode + 16 = 16 * m'.freeinode
    omega
  · rw [hself, hip, hm'b]
    show Function.update (getDinode (m.blocks 33) 1).addrs a x c = 0 ∨
      47 ≤ Function.update (getDinode (m.blocks 33) 1).addrs a x c ∧
        Function.update (getDinode (m.blocks 33) 1).addrs a x c < n ∧
          Function.update (getDinode (m.blocks 33) 1).addrs a x c ≠ ind
    by_cases hc : c = a
    · rw [hc, Function.update_self]
      exact .inr ⟨hx, hxn, hxind⟩
    · rw [Function.update_of_ne hc]
      exact (h.addrs c).imp_right fun hold => ⟨hold.1, by omega, hold.2.2⟩
  · rw [hm'i, hblocks ind (by omega) (Ne.symm hxind)]
    exact hhit₁

theorem Overrun.addFiles (n : Nat) : ∀ {m : Image}, Overrun ind m → m.freeinode + n < 700 →
    ∃ m', (List.replicate n emptyFile).foldlM addFile m = .ok m' ∧ Overrun ind m' ∧
      m'.freeinode = m.freeinode + n := by
  induction n with
  | zero => exact fun {m} h _ => ⟨m, rfl, h, rfl⟩
  | succ n ih =>
    intro m h hi
    obtain ⟨m₁, hcall₁, h₁, hinode₁⟩ := h.addFile_spec (by omega)
    obtain ⟨m', hcall, h', hinode⟩ := ih h₁ (by omega)
    refine ⟨m', ?_, h', by omega⟩
    rw [List.replicate_succ, List.foldlM_cons, hcall₁]
    exact hcall

/-- With the big file alone all is well. -/
theorem overrun_big {m₀ : Image} (h : Added [] m₀) (hfree : m₀.freeblock = nmeta + blocksOf 32) :
    ∃ m ind, addFile m₀ bigFile = .ok m ∧ Overrun ind m ∧ m.freeinode = 3 := by
  have hlen : bigFile.bytes.length = 13312 := by
    show (List.replicate 13 (List.replicate 1024 (1 : UInt8))).flatten.length = 13312
    rw [List.length_flatten, List.map_replicate, List.sum_replicate, List.length_replicate]
    rfl
  have hfree : m₀.freeblock = 48 := hfree
  rcases Mkfs.addFile_spec h (by decide) bigFile with ⟨-, m, hcall, hadded, hblock⟩ | ⟨hno, -⟩
  · have hden := hadded.denotes
    have hblock : m.freeblock + 1 = m₀.freeblock + 1 + 14 := by
      rw [hlen] at hblock
      exact hblock
    have hfile := hden.file 2 (tFile, bigFile.bytes) rfl
    have hroot := hden.file 1 _ (show filesOf ([] ++ [bigFile]) 1 = some _ from rfl)
    have hup := hden.upto 2
    rw [hfile.size, hlen] at hup
    have hind : (m.inode 2).ind ≠ 0 := hup.ind.mpr (by decide)
    have hindmem := hden.drawn.owned.mem (i := 2) (s := .indirect) hind
    have hlow : 47 ≤ (m.inode 2).ind := hindmem.1
    have hhigh : (m.inode 2).ind < m.freeblock := hindmem.2
    have hi1 : m.inode 1 = getDinode (m.blocks 33) 1 := if_pos (by decide)
    have hi2 : m.inode 2 = getDinode (m.blocks 33) 2 := if_pos (by decide)
    have hinode : m.freeinode = 3 := hadded.freeinode
    refine ⟨m, (m.inode 2).ind, hcall, ⟨hden.drawn.nsect, hden.super, by rw [hi2],
      hlow, by omega, by omega, by omega, ?_, fun a => ?_, fun hhit => by omega⟩, hinode⟩
    · rw [← hi1, hroot.size, root_length hadded.names, hinode]
      rfl
    · rw [← hi1]
      by_cases hzero : (m.inode 1).addrs a = 0
      · exact .inl hzero
      · rw [← slot_addrSlot m.blocks] at hzero ⊢
        have hmem := hden.drawn.owned.mem (i := 1) hzero
        refine .inr ⟨hmem.1, hmem.2, fun heq => ?_⟩
        have := (hden.drawn.owned.inj (i := 1) (j := 2) (t := .indirect) hzero heq).1
        exact absurd this (by decide)
  · refine absurd ⟨by decide, by decide, by decide, by omega, ?_⟩ hno
    rw [hlen, hfree]
    decide

/-- **An entry of the indirect block is the type of an inode.** -/
theorem main_overruns : ∃ m d, main (bigFile :: List.replicate 460 emptyFile) = .ok m ∧
    mount m.blocks = .ok d ∧ d.sb = sb ∧ (d.inodes 2).slot d.data (.entry 0) = tFile := by
  obtain ⟨m₀, hadded, hfree, hmain⟩ := main_eq (bigFile :: List.replicate 460 emptyFile)
  obtain ⟨m₁, ind, hcall₁, h₁, hinode₁⟩ := overrun_big hadded hfree
  obtain ⟨m₂, hcall₂, h₂, hinode₂⟩ := h₁.addFiles 460 (by omega)
  have hlow := h₂.low
  have hhigh := h₂.high
  have hfree := h₂.freeblock
  have hhit := h₂.hit (by omega)
  obtain ⟨ip, hip⟩ : ∃ ip : Fs.Dinode, ip = { getDinode (m₂.blocks 33) 1 with
    size := ((getDinode (m₂.blocks 33) 1).size / 1024 + 1) * 1024 } := ⟨_, rfl⟩
  have hfinish : finish m₂ Fs.rootIno = balloc (put m₂ 1 ip) (put m₂ 1 ip).freeblock := by
    rw [finish, rinode, show sb.iblock Fs.rootIno = 33 from iblock_root,
      rsect_ok h₂.nsect (by decide)]
    show (winode m₂ 1 _ >>= _) = _
    rw [winode_ok h₂.nsect (by decide), hip]
    rfl
  obtain ⟨bits, hbits⟩ : ∃ bits, balloc (put m₂ 1 ip) (put m₂ 1 ip).freeblock =
      .ok (wsect (put m₂ 1 ip) 46 bits) := by
    refine ⟨_, if_neg ?_⟩
    show ¬ 8192 ≤ m₂.freeblock
    omega
  have hblocks : ∀ b, b ≠ 33 → b ≠ 46 → (wsect (put m₂ 1 ip) 46 bits).blocks b = m₂.blocks b :=
    fun b h33 h46 => (Function.update_of_ne h46 _ _).trans (Function.update_of_ne h33 _ _)
  have hinodes : (wsect (put m₂ 1 ip) 46 bits).blocks 33 = putDinode (m₂.blocks 33) 1 ip := by
    show Function.update (Function.update m₂.blocks 33 (putDinode (m₂.blocks 33) 1 ip)) 46
      bits 33 = _
    rw [Function.update_of_ne (by decide), Function.update_self]
  have hsb : readsb (wsect (put m₂ 1 ip) 46 bits).blocks = sb :=
    readsb_eq ((hblocks 1 (by decide) (by decide)).trans h₂.super)
  have hbig : getDinode ((wsect (put m₂ 1 ip) 46 bits).blocks 33) 2 =
      getDinode (m₂.blocks 33) 2 := by
    rw [hinodes]
    exact getDinode_putDinode_ne _ _ (by decide) (by decide)
  refine ⟨wsect (put m₂ 1 ip) 46 bits,
    { sb := sb, data := (wsect (put m₂ 1 ip) 46 bits).blocks, logged := [] }, ?_, ?_, rfl, ?_⟩
  · rw [hmain, List.foldlM_cons, hcall₁]
    show ((List.replicate 460 emptyFile).foldlM addFile m₁).bind _ = _
    rw [hcall₂]
    exact hfinish.trans hbits
  · rw [mount, hsb, if_neg (by decide)]
  · show (getDinode ((wsect (put m₂ 1 ip) 46 bits).blocks 33) 2).slot _ (.entry 0) = tFile
    rw [hbig, Fs.Dinode.slot, h₂.big, if_neg (by omega)]
    show word ((wsect (put m₂ 1 ip) 46 bits).blocks ind) 0 = tFile
    rw [hblocks ind (by omega) (by omega)]
    exact hhit

end

end Xv6Paging.Mkfs
