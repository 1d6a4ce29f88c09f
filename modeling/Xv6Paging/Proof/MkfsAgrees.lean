import Xv6Paging.Proof.MkfsImage

/-!
# The kernel reads what `mkfs` wrote

`mkfs` starts from blocks of zeros, adds the root directory and one file after the other, and in the
end rounds the size of the root directory up to whole blocks and writes the bitmap. The rounding can
leave the directory with a block that is not there, if its entries fill the blocks before; the
kernel's `dirlookup` does not get that far for a name it finds.
-/

namespace Xv6Paging.Mkfs

open Lib Fs

/-! ## The beginning -/

/-- `fsSize` blocks of zeros. -/
def blank (n : Nat) : Image :=
  { blocks := fun _ => zeroBlock, nsect := n, freeinode := 1, freeblock := nmeta }

theorem blank_eq (n : Nat) :
    (List.range n).foldl (fun m i => wsect m i zeroBlock) (blank 0) = blank n := by
  induction n with
  | zero => rfl
  | succ n ih =>
    have hsect : max n (n + 1) = n + 1 := by omega
    rw [List.range_succ, List.foldl_append, ih]
    show Image.mk (Function.update (fun _ => zeroBlock) n zeroBlock) (max n (n + 1)) 1 nmeta =
      blank (n + 1)
    rw [hsect, Function.update_eq_self_iff.mpr rfl]
    rfl

theorem getDinode_zeroBlock (j : Nat) : getDinode zeroBlock j = noInode := by
  have hword : ∀ w, word zeroBlock w = 0 := fun w => word_zero w
  unfold getDinode noInode
  simp only [hword]

/-- The image with the superblock and nothing else. -/
theorem denotes_blank : Denotes (wsect (blank fsSize) 1 sbBlock) fun _ => none := by
  have hblocks : ∀ b, b ≠ 1 → (wsect (blank fsSize) 1 sbBlock).blocks b = zeroBlock :=
    fun b hb => Function.update_of_ne hb _ _
  have hinode : ∀ i, (wsect (blank fsSize) 1 sbBlock).inode i = noInode := by
    intro i
    unfold Image.inode
    split
    · rename_i hi
      have := iblock_lt hi
      rw [hblocks _ (by omega)]
      exact getDinode_zeroBlock _
    · rfl
  have hslot : ∀ (data : Blocks) s, noInode.slot data s = 0 := fun data => slot_no_addrs data rfl
  refine ⟨⟨rfl, ⟨?_, ?_⟩, fun b hb => hblocks b ?_, by decide, by decide⟩, fun i => ?_, ?_,
    fun _ _ h => ?_, fun i _ => hinode i, fun _ _ => rfl⟩
  · intro p q hp
    rw [hinode, hslot] at hp
    exact absurd rfl hp
  · intro p hp
    rw [hinode, hslot] at hp
    exact absurd rfl hp
  · have hb : 47 ≤ b := hb
    omega
  · rw [hinode]
    exact upto_no_addrs _ rfl
  · show Function.update (blank fsSize).blocks 1 sbBlock 1 = sbBlock
    exact Function.update_self ..
  · cases h

/-- The image with an empty root directory. -/
theorem main_eq (args : List Arg) : ∃ m, Added [] m ∧ m.freeblock = nmeta + blocksOf 32 ∧
    main args = (args.foldlM addFile m).bind fun m => finish m Fs.rootIno := by
  have hblank : (List.range fsSize).foldl (fun m i => wsect m i zeroBlock)
      { blocks := fun _ => zeroBlock, nsect := 0, freeinode := 1, freeblock := nmeta } =
      blank fsSize :=
    blank_eq fsSize
  obtain ⟨m₁, hcall₁, hden₁, hblock₁, hinode₁⟩ := denotes_blank.ialloc_spec (by decide)
    (by decide : tDir < 65536)
  have hfree : (wsect (blank fsSize) 1 sbBlock).freeinode = 1 := rfl
  have hblock : (wsect (blank fsSize) 1 sbBlock).freeblock = 47 := rfl
  rw [hfree] at hcall₁ hden₁ hinode₁
  rw [hblock] at hblock₁
  have hlen : ∀ n : Nat, ∀ s : List UInt8, s.length ≤ 14 → (dirent n s).length = 16 := by
    intro n s hs
    rw [dirent_eq]
    exact Dirent.bytes_length (pad_length hs)
  have hdot := hlen Fs.rootIno (ascii ".") (by decide)
  have hdotdot := hlen Fs.rootIno (ascii "..") (by decide)
  have hb16 : blocksOf 16 = 1 := by decide
  have hb32 : blocksOf 32 = 1 := by decide
  have hb0 : blocksOf 0 = 0 := by decide
  obtain ⟨-, m₂, hcall₂, hgrown₂⟩ := (hden₁.iappend_spec (i := 1) (by decide) (by omega)
    (Function.update_self ..) (dirent Fs.rootIno (ascii "."))).resolve_right fun hno => hno.1 ⟨by
      rw [hdot]
      decide, by
      rw [hdot, List.length_nil, Nat.zero_add, hb16, hb0]
      show m₁.freeblock + 1 ≤ 2000 + 0
      omega⟩
  have hblock₂ := hgrown₂.freeblock
  rw [List.length_nil, hdot, Nat.zero_add, hb16, hb0] at hblock₂
  obtain ⟨-, m₃, hcall₃, hgrown₃⟩ := (hgrown₂.denotes.iappend_spec (i := 1) (by decide)
    (by rw [hgrown₂.freeinode, hinode₁]; omega) (Function.update_self ..)
    (dirent Fs.rootIno (ascii ".."))).resolve_right fun hno => hno.1 ⟨by
      rw [List.nil_append, hdot, hdotdot]
      decide, by
      rw [List.nil_append, hdot, hdotdot, hb16, hb32]
      show m₂.freeblock + 1 ≤ 2000 + 1
      omega⟩
  have hblock₃ := hgrown₃.freeblock
  rw [List.nil_append, hdot, hdotdot, hb16, hb32] at hblock₃
  refine ⟨m₃, ⟨?_, ?_, fun a ha => absurd ha List.not_mem_nil⟩, ?_, ?_⟩
  · have hden := hgrown₃.denotes
    rw [Function.update_idem, Function.update_idem] at hden
    refine Eq.mp (congrArg (Denotes m₃) (funext fun i => ?_)) hden
    by_cases h1 : i = 1
    · rw [h1, Function.update_self, dirent_eq, dirent_eq]
      rfl
    · rw [Function.update_of_ne h1, filesOf, if_neg h1]
      split <;> rfl
  · rw [hgrown₃.freeinode, hgrown₂.freeinode, hinode₁]
    rfl
  · rw [hb32]
    show m₃.freeblock = 47 + 1
    omega
  · rw [main, hblank]
    dsimp only
    rw [hcall₁]
    show (iappend m₁ 1 _ >>= _) = _
    rw [hcall₂]
    show (iappend m₂ 1 _ >>= _) = _
    rw [hcall₃]
    rfl

/-! ## The end -/

theorem readsb_eq {data : Blocks} (h : data 1 = sbBlock) : readsb data = sb := by
  have hsb : readsb (fun _ => sbBlock) = sb := by decide +kernel
  rw [← hsb]
  unfold readsb
  rw [h]

/-- `balloc` sets the bits below `used`. -/
theorem bit_range (n j : Nat) (hn : n ≤ 8192) :
    bit ((List.range n).foldl setBit zeroBlock) j = decide (j < n) := by
  induction n with
  | zero =>
    rw [List.range_zero, List.foldl_nil]
    exact bit_zero j
  | succ n ih =>
    rw [List.range_succ, List.foldl_append, List.foldl_cons, List.foldl_nil,
      bit_setBit _ _ (by omega), ih (by omega), ← Bool.decide_or]
    exact decide_eq_decide.mpr (by omega)

/-- What the kernel finds on the image of these arguments. -/
structure Mounted (args : List Arg) (d : Fs.Disk) : Prop where
  sb : d.sb = Mkfs.sb
  logged : d.logged = []
  sound : Sound d d.inodes
  files : ∀ i f, 1 < i → filesOf args i = some f →
    IsFile d.data (d.inodes i) f ∧ Upto d.data (d.inodes i) f.2.length
  free : ∀ i, filesOf args i = none → d.inodes i = noInode
  type : (d.inodes 1).type = tDir
  nlink : (d.inodes 1).nlink = 1
  /-- The end of the last block, or of a block that is not there. -/
  size : (d.inodes 1).size = (16 * (args.length + 2) / 1024 + 1) * 1024
  upto : Upto d.data (d.inodes 1) (16 * (args.length + 2))
  byte : ∀ x, (d.inodes 1).byte d.data x = (((rootEntries args).flatMap Dirent.bytes)[x]?).getD 0

theorem laid_sb : sb.Laid := by
  refine ⟨fun i hi => ?_, by decide⟩
  have hi : i < 200 := hi
  show i / 16 + 33 < 46
  omega

/-- The inode of the root directory in the end. -/
def rounded (m : Image) : Fs.Dinode :=
  { m.inode 1 with size := ((m.inode 1).size / 1024 + 1) * 1024 }

/-- What `finish` leaves. -/
def finished (m : Image) : Image :=
  wsect (put m 1 (rounded m)) 46 ((List.range m.freeblock).foldl setBit zeroBlock)

/-- The disk the kernel gets. -/
def diskOf (m : Image) : Fs.Disk := { sb := sb, data := (finished m).blocks, logged := [] }

section

variable {args : List Arg} {m : Image}

theorem finished_ne (m : Image) {b : Nat} (hb : b ≠ 46) :
    (finished m).blocks b = (put m 1 (rounded m)).blocks b := Function.update_of_ne hb _ _

theorem finish_eq (h : Drawn m m.inode) : finish m Fs.rootIno = .ok (finished m) := by
  have hroom : m.freeblock ≤ 2000 := h.room
  rw [finish, rinode_eq h.nsect (by decide)]
  show (winode m 1 (rounded m) >>= _) = _
  rw [winode_eq h.nsect (by decide)]
  show (if 8192 ≤ m.freeblock then _ else _) = _
  rw [if_neg (by omega)]
  rfl

theorem mount_finished (h : m.blocks 1 = sbBlock) : mount (finished m).blocks = .ok (diskOf m) := by
  have hsuper : (finished m).blocks 1 = sbBlock := by
    rw [finished_ne m (by decide), put_ne (by decide) (.inl (by decide)), h]
  rw [mount, readsb_eq hsuper, if_neg (by decide), diskOf]

theorem inodes_diskOf (hsize : (m.inode 1).size < 2 ^ 31) :
    (diskOf m).inodes = Function.update m.inode 1 (rounded m) := by
  have hold := inode_fits m 1
  have hfits : (rounded m).Fits := by
    refine ⟨hold.type, hold.major, hold.minor, hold.nlink, ?_, hold.addrs⟩
    show ((m.inode 1).size / 1024 + 1) * 1024 < 2 ^ 32
    omega
  rw [← inode_put (by decide) hfits]
  funext i
  show (if i < nInodes then getDinode ((finished m).blocks (sb.iblock i)) (i % 16) else noInode) = _
  unfold Image.inode
  split
  · rename_i hi
    have := iblock_lt hi
    rw [finished_ne m (by omega)]
  · rfl

/-- The blocks of files are neither inode blocks nor the bitmap. -/
theorem framed_diskOf (h : Drawn m m.inode) (hsize : (m.inode 1).size < 2 ^ 31) :
    (∀ i s, ((diskOf m).inodes i).slot (diskOf m).data s = (m.inode i).slot m.blocks s) ∧
      ∀ i x, ((diskOf m).inodes i).byte (diskOf m).data x = (m.inode i).byte m.blocks x := by
  obtain ⟨hdrawn, hslot, hbyte⟩ := h.put_spec (show 1 < nInodes by decide)
    (show (rounded m).addrs = (m.inode 1).addrs from rfl)
  have hframe : Framed (put m 1 (rounded m)).blocks (diskOf m).data (Function.update m.inode 1
      (rounded m)) := by
    refine framed fun i s hs => finished_ne m ?_
    have hle : 47 ≤ (Function.update m.inode 1 (rounded m) i).slot (put m 1 (rounded m)).blocks s :=
      (hdrawn.owned.mem hs).1
    omega
  rw [inodes_diskOf hsize]
  exact ⟨fun i s => (hframe.slot i s).trans (hslot i s),
    fun i x => (hframe.byte i x).trans (hbyte i x)⟩

theorem inUse_diskOf (h : Drawn m m.inode) {b : Nat} (hb : b < m.freeblock) :
    (diskOf m).inUse b = true := by
  have hroom : m.freeblock ≤ 2000 := h.room
  have hblock : sb.bblock b = 46 := by
    show b / 8192 + 46 = 46
    omega
  have hbitmap : (finished m).blocks 46 = (List.range m.freeblock).foldl setBit zeroBlock := by
    show Function.update (put m 1 (rounded m)).blocks 46 _ 46 = _
    exact Function.update_self ..
  show bit ((finished m).blocks (sb.bblock b)) (b % 8192) = true
  rw [hblock, hbitmap, bit_range _ _ (by omega)]
  exact decide_eq_true (by omega)

theorem sound_diskOf (h : Drawn m m.inode) (hsize : (m.inode 1).size < 2 ^ 31) :
    Sound (diskOf m) (diskOf m).inodes := by
  have hstart : 47 ≤ m.freeblock := h.start
  have hroom : m.freeblock ≤ 2000 := h.room
  have hdata : (diskOf m).sb.dataStart = 47 := (by decide : sb.dataStart = 47)
  refine ⟨laid_sb, ?_, fun b hb _ => inUse_diskOf h ?_⟩
  · refine Lib.Owns.mono (h.owned.of_slot (framed_diskOf h hsize).1) fun _ _ hp =>
      ⟨⟨?_, ?_⟩, inUse_diskOf h hp.2⟩
    · rw [hdata]
      exact hp.1
    · exact Nat.lt_of_lt_of_le hp.2 hroom
  · rw [hdata] at hb
    omega

theorem finish_spec (h : Added args m) (hlen : args.length + 2 ≤ nInodes) :
    ∃ m' d, finish m Fs.rootIno = .ok m' ∧ mount m'.blocks = .ok d ∧ Mounted args d := by
  have hdrawn := h.denotes.drawn
  have hroot := h.denotes.file 1 _ rfl
  have hsize : (m.inode 1).size = 16 * (args.length + 2) := hroot.size.trans (root_length h.names)
  have hlen : args.length + 2 ≤ 200 := hlen
  have hsmall : (m.inode 1).size < 2 ^ 31 := by omega
  have hinodes := inodes_diskOf hsmall
  obtain ⟨hslot, hbyte⟩ := framed_diskOf hdrawn hsmall
  have hself : (diskOf m).inodes 1 = rounded m := by rw [hinodes, Function.update_self]
  refine ⟨finished m, diskOf m, finish_eq hdrawn, mount_finished h.denotes.super, rfl, rfl,
    sound_diskOf hdrawn hsmall, fun i f hi hf => ⟨?_, ?_⟩, fun i hi => ?_, ?_, ?_, ?_, ?_,
    fun x => ?_⟩
  · have hfile := h.denotes.file i f hf
    have hsame : (diskOf m).inodes i = m.inode i := by
      rw [hinodes, Function.update_of_ne (by omega)]
    exact ⟨hsame ▸ hfile.type, hsame ▸ hfile.nlink, hsame ▸ hfile.size, hfile.small,
      fun x => (hbyte i x).trans (hfile.byte x)⟩
  · have hup := h.denotes.upto i
    rw [(h.denotes.file i f hf).size] at hup
    exact hup.congr (hslot i)
  · have hne : i ≠ 1 := by
      rintro rfl
      cases hi
    rw [hinodes, Function.update_of_ne hne]
    exact h.denotes.free i hi
  · rw [hself]
    exact hroot.type
  · rw [hself]
    exact hroot.nlink
  · rw [hself, rounded, hsize]
  · have hup := h.denotes.upto 1
    rw [hsize] at hup
    exact hup.congr (hslot 1)
  · rw [hbyte]
    exact hroot.byte x

end

/-- An image `mkfs` got to the end of. -/
theorem main_ok {args : List Arg} {m : Image} (hlen : args.length + 1 < nInodes)
    (hok : main args = .ok m) :
    ∃ d, mount m.blocks = .ok d ∧ Mounted args d ∧ ∀ a ∈ args, a.name.length ≤ 14 := by
  obtain ⟨m₀, hadded, -, hmain⟩ := main_eq args
  rw [hmain] at hok
  cases hfiles : args.foldlM addFile m₀ with
  | error e =>
    rw [hfiles] at hok
    cases hok
  | ok m₁ =>
    rw [hfiles] at hok
    have hadded₁ :=
      addFiles_ok args hadded (by rw [List.length_nil, Nat.zero_add]; exact hlen) hfiles
    obtain ⟨m', d, hfinish, hmount, hmounted⟩ := finish_spec hadded₁ hlen
    have heq : finish m₁ Fs.rootIno = .ok m := hok
    rw [hfinish] at heq
    cases heq
    exact ⟨d, hmount, hmounted, hadded₁.names⟩

/-! ## Looking names up -/

theorem flatMap_bytes_getElem {entries : List Dirent} (h : ∀ e ∈ entries, e.name.length = 14)
    {j : Nat} {e : Dirent} (he : entries[j]? = some e) {i : Nat} (hi : i < 16) :
    (entries.flatMap Dirent.bytes)[16 * j + i]? = e.bytes[i]? := by
  induction entries generalizing j with
  | nil => cases he
  | cons e' entries ih =>
    have hlen : e'.bytes.length = 16 := Dirent.bytes_length (h e' List.mem_cons_self)
    rw [List.flatMap_cons]
    cases j with
    | zero =>
      cases he
      rw [Nat.mul_zero, Nat.zero_add, List.getElem?_append_left (by omega)]
    | succ j =>
      rw [List.getElem?_append_right (by omega), hlen,
        show 16 * (j + 1) + i - 16 = 16 * j + i by omega]
      exact ih (fun e he => h e (List.mem_cons_of_mem _ he)) he

section

variable {args : List Arg} {d : Fs.Disk}

theorem Mounted.entry (h : Mounted args d) (hnames : ∀ a ∈ args, a.name.length ≤ 14) {j : Nat}
    {e : Dirent} (he : (rootEntries args)[j]? = some e) (hinum : e.inum < 65536) :
    (d.inodes 1).entry d.data j = e := by
  have hall := rootEntries_names hnames
  have hlen : e.bytes.length = 16 := Dirent.bytes_length (hall e (List.mem_of_getElem? he))
  have hbytes : (d.inodes 1).bytes d.data (16 * j) 16 = e.bytes := by
    refine List.ext_getElem? fun i => ?_
    by_cases hi : i < 16
    · have hsome : e.bytes[i]? = some (e.bytes.get ⟨i, by omega⟩) :=
        List.getElem?_eq_getElem (by omega)
      rw [Fs.Dinode.bytes, List.getElem?_map, List.getElem?_range hi, Option.map_some, h.byte,
        flatMap_bytes_getElem hall he hi, hsome]
      rfl
    · rw [List.getElem?_eq_none (by rw [bytes_length]; omega), List.getElem?_eq_none (by omega)]
  rw [Fs.Dinode.entry, hbytes, Dirent.ofBytes_bytes hinum]

theorem Arg.name_noNul (a : Arg) : 0 ∉ a.name := by
  have hshort : 0 ∉ a.shortname := by
    unfold Arg.shortname
    split
    · exact fun h => a.noNul (List.mem_of_mem_drop h)
    · exact a.noNul
  unfold Arg.name
  split
  · exact fun h => hshort (List.mem_of_mem_drop h)
  · exact hshort

theorem takeWhile_noNul {s : List UInt8} (h : 0 ∉ s) : s.takeWhile (· ≠ 0) = s :=
  List.takeWhile_eq_self_iff.mpr fun _ hx => decide_eq_true fun h0 => h (h0 ▸ hx)

theorem nameKey_of_noNul {s : List UInt8} (h : 0 ∉ s) (hlen : s.length ≤ 14) : nameKey s = s := by
  rw [nameKey, takeWhile_noNul h, List.take_of_length_le hlen]

theorem nameKey_pad {s : List UInt8} (h : 0 ∉ s) (hlen : s.length ≤ 14) : nameKey (pad s) = s := by
  have hzeros : (List.replicate (14 - s.length) (0 : UInt8)).takeWhile (· ≠ 0) = [] := by
    cases 14 - s.length with
    | zero => rfl
    | succ n => rfl
  have hmem : ∀ x ∈ s, decide (x ≠ 0) = true := fun _ hx => decide_eq_true fun h0 => h (h0 ▸ hx)
  rw [nameKey, pad, List.takeWhile_append_of_pos hmem, hzeros, List.append_nil,
    List.take_of_length_le hlen]

/-- An entry is found by its name, and by no other. -/
theorem Mounted.matches_iff (h : Mounted args d) (hnames : ∀ a ∈ args, a.name.length ≤ 14)
    {j n : Nat} {s name : List UInt8} (he : (rootEntries args)[j]? = some ⟨n, pad s⟩)
    (hn : n < 65536) (h0 : n ≠ 0) (hs : 0 ∉ s) (hslen : s.length ≤ 14) (hname : 0 ∉ name)
    (hnamelen : name.length ≤ 14) : (d.inodes 1).matches d.data name j = true ↔ name = s := by
  rw [Fs.matches_iff, h.entry hnames he hn, nameKey_of_noNul hname hnamelen, nameKey_pad hs hslen]
  exact and_iff_right h0

theorem rootEntries_arg {k : Nat} {a : Arg} (ha : args[k]? = some a) :
    (rootEntries args)[k + 2]? = some ⟨k + 2, pad a.name⟩ := by
  rw [rootEntries, List.getElem?_cons_succ, List.getElem?_cons_succ, List.getElem?_mapIdx, ha]
  rfl

/-- The root directory has the blocks of its entries, and no more need be there. -/
theorem Mounted.dirlookup (h : Mounted args d) (hlen : args.length + 2 ≤ nInodes) {j : Nat}
    (hj : j < args.length + 2) {name : List UInt8}
    (hmatch : (d.inodes 1).matches d.data name j = true)
    (hfirst : ∀ k, k < j → (d.inodes 1).matches d.data name k = false) :
    Fs.dirlookup d (d.inodes 1) name =
      .ok (some (((d.inodes 1).entry d.data j).inum, 16 * j), d.inodes 1, d) := by
  have hlen : args.length + 2 ≤ 200 := hlen
  have hsize := h.size
  refine dirlookup_first h.type (by omega) (by omega) (fun k hk => ?_) hmatch hfirst
  exact (h.upto.block (16 * k / 1024) (by omega)).mpr (by omega)

end

/-! ## The two agree -/

/-- What `mkfs` can be given: files that it can open, with names that fit an entry and differ, and
not too many or too large. -/
structure Fits (args : List Arg) : Prop where
  opened : ∀ a ∈ args, a.reads.isSome = true
  slash : ∀ a ∈ args, 47 ∉ a.shortname
  names : ∀ a ∈ args, a.name.length ≤ 14
  distinct : (args.map Arg.name).Nodup
  sizes : ∀ a ∈ args, a.bytes.length ≤ 268 * 1024
  inodes : args.length + 1 < nInodes
  blocks : nmeta + blocksOf (16 * (args.length + 2)) +
    (args.map fun a => blocksOf a.bytes.length).sum < fsSize

/-- On the image, each name is found in the root directory, for an inode that reads as the file
does. -/
def Reads (args : List Arg) (d : Fs.Disk) : Prop :=
  ∀ a ∈ args, ∃ inum off ip,
    Fs.dirlookup d (d.dinode Fs.rootIno) a.name = .ok (some (inum, off), d.dinode Fs.rootIno, d) ∧
      Fs.ilock d inum = .ok ip ∧ ip.size = a.bytes.length ∧
      ∀ off n, off + n < 2 ^ 32 → Fs.readi d ip off n = .ok ((a.bytes.drop off).take n, ip, d)

/-- `mkfs` writes an image, the kernel takes it, reads the files, and finds every block in one place
and in use. -/
def Agree (args : List Arg) : Prop :=
  ∃ m d, main args = .ok m ∧ mount m.blocks = .ok d ∧ Reads args d ∧ Sound d d.inodes

section

variable {args : List Arg} {d : Fs.Disk}

theorem inodes_eq (h : Mounted args d) {i : Nat} (hi : i < nInodes) : d.inodes i = d.dinode i := by
  refine if_pos ?_
  rw [h.sb]
  exact hi

theorem whole_of_upto {data : Blocks} {ip : Fs.Dinode} {n : Nat} (h : Upto data ip n)
    (hsize : ip.size = n) (hn : n ≤ 268 * 1024) : Whole data ip :=
  fun x hx => (h.block (x / 1024) (by omega)).mpr (by omega)

/-- A file reads as its bytes. -/
theorem readi_file {ip : Fs.Dinode} {f : Nat × List UInt8} (h : IsFile d.data ip f)
    (hup : Upto d.data ip f.2.length) {off n : Nat} (hn : off + n < 2 ^ 32) :
    Fs.readi d ip off n = .ok ((f.2.drop off).take n, ip, d) := by
  have hsize := h.size
  rw [readi_present (whole_of_upto hup hsize h.small) off (by omega)]
  congr 2
  refine List.ext_getElem? fun k => ?_
  have hread : ip.readable off n = min n (f.2.length - off) := by
    by_cases hoff : off ≤ ip.size
    · rw [readable_eq hoff hn]
      omega
    · rw [Fs.Dinode.readable, if_pos (.inl (by omega))]
      omega
  rw [hread]
  by_cases hk : k < min n (f.2.length - off)
  · have hlt : off + k < f.2.length := by omega
    rw [Fs.Dinode.bytes, List.getElem?_map, List.getElem?_range hk, Option.map_some, h.byte,
      List.getElem?_take_of_lt (by omega), List.getElem?_drop, List.getElem?_eq_getElem hlt]
    rfl
  · rw [List.getElem?_eq_none (by rw [bytes_length]; omega),
      List.getElem?_eq_none (by rw [List.length_take, List.length_drop]; omega)]

theorem Fits.main_returns (h : Fits args) : ∃ m, main args = .ok m := by
  obtain ⟨m₀, hadded, hblock, hmain⟩ := main_eq args
  have hroom := h.blocks
  obtain ⟨m₁, hm₁⟩ :=
    addFiles_returns args hadded (by rw [List.length_nil, Nat.zero_add]; exact h.inodes)
      (fun a ha => ⟨h.slash a ha, h.opened a ha, h.names a ha, h.sizes a ha⟩) (by
      rw [hblock, List.length_nil, Nat.zero_add]
      show nmeta + blocksOf 32 + _ + _ ≤ fsSize + blocksOf 32
      omega)
  have hadded₁ :=
    addFiles_ok args hadded (by rw [List.length_nil, Nat.zero_add]; exact h.inodes) hm₁
  obtain ⟨m', d, hfinish, -⟩ := finish_spec hadded₁ h.inodes
  refine ⟨m', ?_⟩
  rw [hmain, hm₁]
  exact hfinish

/-- The entry of an argument is the first for its name. -/
theorem Mounted.finds (h : Mounted args d) (hfits : Fits args) {k : Nat} {a : Arg}
    (ha : args[k]? = some a) (hdots : a.name ≠ ascii "." ∧ a.name ≠ ascii "..") :
    Fs.dirlookup d (d.inodes 1) a.name = .ok (some (k + 2, 16 * (k + 2)), d.inodes 1, d) := by
  have hmem := List.mem_of_getElem? ha
  have hk : k < args.length := (List.getElem?_eq_some_iff.mp ha).1
  have hlen : args.length + 1 < 200 := hfits.inodes
  have hname := a.name_noNul
  have hentry := rootEntries_arg ha
  have hmatch : (d.inodes 1).matches d.data a.name (k + 2) = true :=
    (h.matches_iff hfits.names hentry (by omega) (by omega) hname (hfits.names a hmem) hname
      (hfits.names a hmem)).mpr rfl
  have hfound := h.dirlookup hfits.inodes (j := k + 2) (by omega) hmatch ?_
  · rw [hfound, h.entry hfits.names hentry (show k + 2 < 65536 by omega)]
  -- neither the dots nor an argument before it
  intro k' hk'
  refine Bool.eq_false_iff.mpr fun hno => ?_
  have hother : ∀ n s, (rootEntries args)[k']? = some ⟨n, pad s⟩ → n < 65536 → n ≠ 0 → 0 ∉ s →
    s.length ≤ 14 → a.name = s :=
    fun n s he hn h0 hs hslen =>
      (h.matches_iff hfits.names he hn h0 hs hslen hname (hfits.names a hmem)).mp hno
  by_cases h0 : k' = 0
  · subst h0
    exact hdots.1 (hother 1 _ rfl (by decide) (by decide) (by decide) (by decide))
  by_cases h1 : k' = 1
  · subst h1
    exact hdots.2 (hother 1 _ rfl (by decide) (by decide) (by decide) (by decide))
  obtain ⟨k', rfl⟩ := Nat.exists_eq_add_of_le' (show 2 ≤ k' by omega)
  have hlt : k' < args.length := by omega
  have ha' : args[k']? = some (args.get ⟨k', hlt⟩) := List.getElem?_eq_getElem hlt
  have hsame := hother _ _ (rootEntries_arg ha') (by omega) (by omega) (Arg.name_noNul _)
    (hfits.names _ (List.get_mem ..))
  have hmap : ∀ {n : Nat} {b : Arg}, args[n]? = some b → (args.map Arg.name)[n]? = some b.name := by
    intro n b hb
    rw [List.getElem?_map, hb]
    rfl
  have hidx := (List.getElem?_inj (by rw [List.length_map]; exact hk) hfits.distinct).mp
    ((hmap ha).trans (hsame ▸ (hmap ha').symm))
  omega

end

/--
**`mkfs` and the kernel agree on the format**: on the image of any files whose names differ from
each other and from `"."` and `".."`, the kernel finds each name and reads the bytes of its file,
and no block is in two places or free.
-/
theorem mkfs_and_kernel_agree (args : List Arg) (h : Fits args)
    (hdots : ∀ a ∈ args, a.name ≠ ascii "." ∧ a.name ≠ ascii "..") : Agree args := by
  obtain ⟨m, hm⟩ := h.main_returns
  obtain ⟨d, hmount, hmounted, -⟩ := main_ok h.inodes hm
  refine ⟨m, d, hm, hmount, fun a ha => ?_, hmounted.sound⟩
  obtain ⟨k, hk⟩ := List.getElem?_of_mem ha
  have hlt : k < args.length := (List.getElem?_eq_some_iff.mp hk).1
  have hlen : args.length + 1 < 200 := h.inodes
  have hfile : filesOf args (k + 2) = some (tFile, a.bytes) := by
    rw [filesOf, if_neg (by omega), if_neg (by omega), Nat.add_sub_cancel, hk]
    rfl
  obtain ⟨hisFile, hup⟩ := hmounted.files (k + 2) _ (by omega) hfile
  have hinode := inodes_eq hmounted (i := k + 2) (show k + 2 < 200 by omega)
  have hfound := hmounted.finds h hk (hdots a ha)
  rw [inodes_eq hmounted (i := 1) (by decide)] at hfound
  rw [hinode] at hisFile hup
  refine ⟨k + 2, 16 * (k + 2), d.dinode (k + 2), hfound, ?_, hisFile.size, fun off n hn => ?_⟩
  · refine if_neg ?_
    rw [hisFile.type]
    exact (by decide : tFile ≠ 0)
  · exact readi_file hisFile hup hn

/-- A program of three bytes. -/
def catFile : Arg :=
  { path := ascii "user/_cat", noNul := by decide, reads := some [[127, 69, 76]] }

theorem mkfs_and_kernel_agree_cat : Agree [catFile] :=
  mkfs_and_kernel_agree [catFile]
    ⟨by decide, by decide, by decide, by decide, by decide, by decide, by decide⟩ (by decide)

/-- A file that would be called `"."`. -/
def dotFile : Arg := { path := ascii "_.", noNul := by decide, reads := some [[7]] }

/-- The kernel finds the root directory instead. -/
theorem file_named_dot_is_not_found : ¬ ∀ args, Fits args → Agree args := by
  intro hall
  have hfits : Fits [dotFile] :=
    ⟨by decide, by decide, by decide, by decide, by decide, by decide, by decide⟩
  obtain ⟨m, d, hm, hmount, hreads, -⟩ := hall [dotFile] hfits
  obtain ⟨d', hmount', hmounted, -⟩ := main_ok hfits.inodes hm
  rw [hmount] at hmount'
  cases hmount'
  obtain ⟨inum, off, ip, hfound, hlock, hsize, -⟩ := hreads dotFile List.mem_cons_self
  have hentry : (rootEntries [dotFile])[0]? = some ⟨1, pad (ascii ".")⟩ := rfl
  have hmatch : (d.inodes 1).matches d.data dotFile.name 0 = true :=
    (hmounted.matches_iff hfits.names hentry (by decide) (by decide) (by decide) (by decide)
      (by decide) (by decide)).mpr (by decide)
  have hdot := hmounted.dirlookup (by decide) (j := 0) (by decide) hmatch fun k hk =>
    absurd hk (Nat.not_lt_zero k)
  rw [hmounted.entry hfits.names hentry (by decide),
    inodes_eq hmounted (i := 1) (by decide)] at hdot
  rw [hdot] at hfound
  cases hfound
  have hroot : d.dinode 1 = ip := by
    have hlock' : (if (d.dinode 1).type = 0 then _ else Except.ok (d.dinode 1)) = Except.ok ip :=
      hlock
    rw [if_neg (by rw [← inodes_eq hmounted (i := 1) (by decide), hmounted.type]; decide)] at hlock'
    exact Except.ok.inj hlock'
  have hrootsize := hmounted.size
  rw [inodes_eq hmounted (i := 1) (by decide), hroot, hsize] at hrootsize
  exact absurd hrootsize (by decide)

end Xv6Paging.Mkfs
