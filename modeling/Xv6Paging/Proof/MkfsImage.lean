import Xv6Paging.Proof.MkfsBlocks

/-!
# The image `mkfs` builds

Seen from above, `mkfs` works on a table of files: `ialloc` adds an empty one and `iappend` makes
one longer. An image denotes such a table if each inode has the type and the bytes of its file,
exactly the blocks these take, and zeros behind them.
-/

namespace Xv6Paging.Mkfs

open Lib Fs

/-- The inodes in an image. -/
def Image.inode (m : Image) (i : Nat) : Fs.Dinode :=
  if i < nInodes then getDinode (m.blocks (sb.iblock i)) (i % 16) else noInode

/-- Type and bytes of the inodes that are in use. -/
abbrev Contents : Type := Nat → Option (Nat × List UInt8)

/-- An inode of this type and with these bytes. -/
structure IsFile (data : Blocks) (ip : Fs.Dinode) (f : Nat × List UInt8) : Prop where
  type : ip.type = f.1
  nlink : ip.nlink = 1
  size : ip.size = f.2.length
  small : f.2.length ≤ 268 * 1024
  byte : ∀ x, ip.byte data x = (f.2[x]?).getD 0

/-- The inodes, the blocks and the counters of an image are those of the files `F`. -/
structure Denotes (m : Image) (F : Contents) : Prop where
  drawn : Drawn m m.inode
  upto : ∀ i, Upto m.blocks (m.inode i) (m.inode i).size
  super : m.blocks 1 = sbBlock
  file : ∀ i f, F i = some f → IsFile m.blocks (m.inode i) f
  free : ∀ i, F i = none → m.inode i = noInode
  next : ∀ i, m.freeinode ≤ i → F i = none

section

variable {m m' : Image} {J : Nat → Fs.Dinode} {F : Contents} {i : Nat} {ip : Fs.Dinode}

/-! ## Writing an inode -/

/-- What `winode` leaves. -/
def put (m : Image) (i : Nat) (ip : Fs.Dinode) : Image :=
  wsect m (sb.iblock i) (putDinode (m.blocks (sb.iblock i)) (i % 16) ip)

theorem iblock_lt (h : i < nInodes) : 33 ≤ sb.iblock i ∧ sb.iblock i < 46 := by
  have h : i < 200 := h
  show 33 ≤ i / 16 + 33 ∧ i / 16 + 33 < 46
  omega

theorem rsect_inode (hn : m.nsect = fsSize) (hi : i < nInodes) :
    rsect m (sb.iblock i) = .ok (m.blocks (sb.iblock i)) := by
  refine if_pos ?_
  have := iblock_lt hi
  have hn : m.nsect = 2000 := hn
  omega

theorem winode_eq (hn : m.nsect = fsSize) (hi : i < nInodes) :
    winode m i ip = .ok (put m i ip) := by
  rw [winode, rsect_inode hn hi]
  rfl

theorem rinode_eq (hn : m.nsect = fsSize) (hi : i < nInodes) : rinode m i = .ok (m.inode i) := by
  rw [rinode, rsect_inode hn hi, Image.inode, if_pos hi]
  rfl

theorem put_ne (hi : i < nInodes) {b : Nat} (hb : b < 33 ∨ 46 ≤ b) :
    (put m i ip).blocks b = m.blocks b := by
  have := iblock_lt hi
  exact Function.update_of_ne (by omega) _ _

theorem inode_put (hi : i < nInodes) (hf : ip.Fits) :
    (put m i ip).inode = Function.update m.inode i ip := by
  funext j
  by_cases hj : j = i
  · subst hj
    rw [Function.update_self, Image.inode, if_pos hi,
      show (put m j ip).blocks (sb.iblock j) = putDinode (m.blocks (sb.iblock j)) (j % 16) ip from
        Function.update_self ..]
    exact getDinode_putDinode _ (Nat.mod_lt _ (by decide)) hf
  · rw [Function.update_of_ne hj, Image.inode, Image.inode]
    by_cases hjn : j < nInodes
    · rw [if_pos hjn, if_pos hjn]
      by_cases hblock : sb.iblock j = sb.iblock i
      · have hne : j % 16 ≠ i % 16 := by
          unfold Superblock.iblock at hblock
          omega
        rw [hblock, show (put m i ip).blocks (sb.iblock i) = putDinode (m.blocks (sb.iblock i))
          (i % 16) ip from Function.update_self ..]
        exact getDinode_putDinode_ne _ _ (Nat.mod_lt _ (by decide)) hne
      · rw [show (put m i ip).blocks (sb.iblock j) = m.blocks (sb.iblock j) from
          Function.update_of_ne hblock _ _]
    · rw [if_neg hjn, if_neg hjn]

/-- The blocks of the files are not where the inodes are. -/
theorem Drawn.framed_put (h : Drawn m J) (hi : i < nInodes) (ip : Fs.Dinode) :
    Framed m.blocks (put m i ip).blocks J := by
  refine framed fun j s hs => put_ne hi ?_
  have hle : 47 ≤ (J j).slot m.blocks s := (h.owned.mem hs).1
  omega

/-- An inode with the addresses it had. -/
theorem Drawn.put_spec (h : Drawn m J) (hi : i < nInodes) (haddrs : ip.addrs = (J i).addrs) :
    Drawn (put m i ip) (Function.update J i ip) ∧
      (∀ j s, (Function.update J i ip j).slot (put m i ip).blocks s = (J j).slot m.blocks s) ∧
      ∀ j x, (Function.update J i ip j).byte (put m i ip).blocks x = (J j).byte m.blocks x := by
  have hframe := h.framed_put hi ip
  have hsame : ∀ j, (Function.update J i ip j).addrs = (J j).addrs := by
    intro j
    by_cases hj : j = i
    · rw [hj, Function.update_self, haddrs]
    · rw [Function.update_of_ne hj]
  have hslot : ∀ j s, (Function.update J i ip j).slot (put m i ip).blocks s =
      (J j).slot m.blocks s := by
    intro j s
    rw [slot_of_addrs (hsame j), hframe.slot]
  have hstart : 47 ≤ m.freeblock := h.start
  refine ⟨⟨?_, h.owned.of_slot hslot, fun b hb => ?_, h.start, h.room⟩, hslot, fun j x => ?_⟩
  · have hlt := iblock_lt hi
    have hn : m.nsect = 2000 := h.nsect
    show max m.nsect (sb.iblock i + 1) = 2000
    omega
  · have hb : m.freeblock ≤ b := hb
    rw [put_ne hi (.inr (by omega))]
    exact h.fresh b hb
  · rw [← hframe.byte, Fs.Dinode.byte, Fs.Dinode.byte, block_of_addrs (hsame j)]

theorem Drawn.addrs_lt (h : Drawn m J) (a : Fin 13) : (J i).addrs a < 2000 := by
  by_cases ha : (J i).addrs a = 0
  · omega
  · rw [← slot_addrSlot m.blocks] at ha ⊢
    exact h.lt_fsSize ha

theorem inode_fits (m : Image) (i : Nat) : (m.inode i).Fits := by
  unfold Image.inode
  split
  · exact getDinode_fits _ _
  · exact ⟨by decide, by decide, by decide, by decide, by decide, fun _ => (by decide : 0 < 2 ^ 32)⟩

theorem Upto.congr {data data' : Blocks} {ip ip' : Fs.Dinode} {off : Nat} (h : Upto data ip off)
    (hslot : ∀ s, ip'.slot data' s = ip.slot data s) : Upto data' ip' off := by
  refine ⟨fun bn hbn => ?_, ?_⟩
  · obtain ⟨t, ht⟩ := dataSlot_some hbn
    rw [block_eq ht, hslot, ← block_eq ht]
    exact h.block bn hbn
  · have hind : ip'.ind = ip.ind := hslot .indirect
    rw [hind]
    exact h.ind

theorem IsFile.congr {data data' : Blocks} {ip : Fs.Dinode} {f : Nat × List UInt8}
    (h : IsFile data ip f) (hbyte : ∀ x, ip.byte data' x = ip.byte data x) : IsFile data' ip f :=
  ⟨h.type, h.nlink, h.size, h.small, fun x => (hbyte x).trans (h.byte x)⟩

/-- The inode of a file goes back to the disk. -/
theorem denotes_put {f : Nat × List UInt8} (h : Drawn m J) (hi : i < nInodes) (hfits : ip.Fits)
    (haddrs : ip.addrs = (J i).addrs) (hsuper : m.blocks 1 = sbBlock)
    (hothers : ∀ j, j ≠ i → J j = m.inode j ∧ Upto m.blocks (J j) (J j).size)
    (hup : Upto m.blocks ip ip.size) (hfile : IsFile m.blocks ip f)
    (hfiles : ∀ j g, j ≠ i → F j = some g → IsFile m.blocks (J j) g)
    (hfree : ∀ j, j ≠ i → F j = none → J j = noInode)
    (hnext : ∀ j, m.freeinode ≤ j → j ≠ i ∧ F j = none) :
    Denotes (put m i ip) (Function.update F i (some f)) := by
  obtain ⟨hdrawn, hslot, hbyte⟩ := h.put_spec hi haddrs
  have hframe := h.framed_put hi ip
  have hput : (put m i ip).inode = Function.update J i ip := by
    rw [inode_put hi hfits]
    funext j
    by_cases hj : j = i
    · rw [hj, Function.update_self, Function.update_self]
    · rw [Function.update_of_ne hj, Function.update_of_ne hj, (hothers j hj).1]
  have hself : Function.update J i ip i = ip := Function.update_self ..
  have hslot_ip : ∀ s, ip.slot (put m i ip).blocks s = ip.slot m.blocks s := by
    intro s
    rw [slot_of_addrs haddrs m.blocks, ← hslot i, hself]
  have hbyte_ip : ∀ x, ip.byte (put m i ip).blocks x = ip.byte m.blocks x := by
    intro x
    have hold : ip.byte m.blocks x = (J i).byte m.blocks x := by
      rw [Fs.Dinode.byte, Fs.Dinode.byte, block_of_addrs haddrs]
    rw [hold, ← hbyte i, hself]
  refine ⟨hput ▸ hdrawn, fun j => ?_, ?_, fun j g hg => ?_, fun j hg => ?_, fun j hj => ?_⟩
  · rw [hput]
    by_cases hj : j = i
    · rw [hj, hself]
      exact hup.congr hslot_ip
    · rw [Function.update_of_ne hj]
      exact (hothers j hj).2.congr (hframe.slot j)
  · rw [put_ne hi (.inl (by decide)), hsuper]
  · rw [hput]
    by_cases hj : j = i
    · rw [hj, Function.update_self] at hg
      rw [hj, hself, ← Option.some.inj hg]
      exact hfile.congr hbyte_ip
    · rw [Function.update_of_ne hj] at hg ⊢
      exact (hfiles j g hj hg).congr (hframe.byte j)
  · rw [hput]
    by_cases hj : j = i
    · rw [hj, Function.update_self] at hg
      cases hg
    · rw [Function.update_of_ne hj] at hg ⊢
      exact hfree j hj hg
  · obtain ⟨hne, hnone⟩ := hnext j hj
    rw [Function.update_of_ne hne, hnone]

/-! ## `ialloc` -/

theorem upto_no_addrs (data : Blocks) {ip : Fs.Dinode} (h : ip.addrs = fun _ => 0) :
    Upto data ip 0 := by
  have hslot := slot_no_addrs data h
  refine ⟨fun bn hbn => ?_, ?_⟩
  · obtain ⟨t, ht⟩ := dataSlot_some hbn
    rw [block_eq ht, hslot]
    omega
  · have hind : ip.ind = 0 := hslot .indirect
    rw [hind]
    omega

theorem Denotes.ialloc_spec (h : Denotes m F) (hi : m.freeinode < nInodes) {type : Nat}
    (ht : type < 65536) : ∃ m', ialloc m type = .ok (m.freeinode, m') ∧
      Denotes m' (Function.update F m.freeinode (some (type, []))) ∧
      m'.freeblock = m.freeblock ∧ m'.freeinode = m.freeinode + 1 := by
  have hfree := h.free _ (h.next _ (Nat.le_refl _))
  obtain ⟨ip, hip⟩ : ∃ ip : Fs.Dinode, ip = ⟨type, 0, 0, 1, 0, fun _ => 0⟩ := ⟨_, rfl⟩
  have haddrs : ip.addrs = fun _ => 0 := by rw [hip]
  have hfits : ip.Fits := by
    rw [hip]
    exact ⟨ht, (by decide : 0 < 65536), (by decide : 0 < 65536), (by decide : 1 < 65536),
      (by decide : 0 < 2 ^ 32), fun _ => (by decide : 0 < 2 ^ 32)⟩
  -- counting up changes nothing on the disk
  obtain ⟨m₁, hm₁⟩ : ∃ m₁ : Image, m₁ = { m with freeinode := m.freeinode + 1 } := ⟨_, rfl⟩
  have hblocks : m₁.blocks = m.blocks := by rw [hm₁]
  have hinode : m₁.inode = m.inode := by
    funext j
    rw [Image.inode, Image.inode, hblocks]
  have hdrawn : Drawn m₁ m.inode := by
    rw [hm₁]
    exact ⟨h.drawn.nsect, h.drawn.owned, h.drawn.fresh, h.drawn.start, h.drawn.room⟩
  refine ⟨put m₁ m.freeinode ip, ?_, denotes_put hdrawn hi hfits (by rw [hfree, haddrs]; rfl)
    (hblocks ▸ h.super) (fun j _ => ?_) ?_ ?_ (fun j g _ hg => ?_) (fun j _ hg => h.free j hg)
    (fun j hj => ?_), ?_, ?_⟩
  · rw [ialloc, ← hm₁, ← hip, winode_eq hdrawn.nsect hi]
    rfl
  · rw [hinode, hblocks]
    exact ⟨rfl, h.upto j⟩
  · rw [hip]
    exact upto_no_addrs _ rfl
  · have hzero : ∀ x, ip.byte m₁.blocks x = 0 := by
      intro x
      have hup := upto_no_addrs m₁.blocks haddrs
      rw [Fs.Dinode.byte, byteIn]
      split
      · rfl
      · rename_i hb
        have := (hup.block _ (block_lt hb)).mp hb
        omega
    refine ⟨?_, ?_, ?_, Nat.zero_le _, fun x => ?_⟩
    · rw [hip]
    · rw [hip]
    · rw [hip]
      rfl
    · rw [hzero]
      rfl
  · rw [hblocks]
    exact h.file j g hg
  · rw [hm₁] at hj
    have hj : m.freeinode + 1 ≤ j := hj
    exact ⟨by omega, h.next j (by omega)⟩
  · rw [hm₁]
    rfl
  · rw [hm₁]
    rfl

/-! ## `iappend` -/

/-- Inode `i` has the bytes `p` more. -/
structure Grown (m : Image) (F : Contents) (i type : Nat) (c p : List UInt8) (m' : Image) :
    Prop where
  denotes : Denotes m' (Function.update F i (some (type, c ++ p)))
  freeblock : m'.freeblock + blocksOf c.length = m.freeblock + blocksOf (c.length + p.length)
  freeinode : m'.freeinode = m.freeinode

theorem Denotes.iappend_spec {type : Nat} {c : List UInt8} (h : Denotes m F) (hi : i < nInodes)
    (hlt : i < m.freeinode) (hF : F i = some (type, c)) (p : List UInt8) :
    (Room m c.length p.length ∧ ∃ m', iappend m i p = .ok m' ∧ Grown m F i type c p m') ∨
      ¬ Room m c.length p.length ∧ ∃ e, iappend m i p = .error e := by
  have hfile := h.file i _ hF
  have hsize : (m.inode i).size = c.length := hfile.size
  have hup := h.upto i
  rw [hsize] at hup
  have hcall : iappend m i p = (iappendLoop p.length m (m.inode i) c.length p).bind fun r =>
      winode r.1 i { r.2.1 with size := r.2.2 } := by
    rw [iappend, rinode_eq h.drawn.nsect hi, ← hsize]
    rfl
  rw [hcall]
  rcases iappendLoop_spec p.length (Nat.le_refl _) h.drawn hup hfile.small with
    ⟨hroom, m₁, din, hloop, happ⟩ | ⟨hno, e, he⟩
  · refine .inl ⟨hroom, put m₁ i { din with size := c.length + p.length }, ?_, ?_, happ.freeblock,
      happ.freeinode⟩
    · rw [hloop]
      exact winode_eq happ.drawn.nsect hi
    · have hself : Function.update m.inode i din i = din := Function.update_self ..
      have hfields := happ.fields
      rw [hself] at hfields
      have hold := inode_fits m i
      have hroom' := hroom.1
      refine denotes_put happ.drawn hi ?_ (by rw [hself]) ?_ (fun j hj => ?_) ?_ ?_
        (fun j g hj hg => ?_) (fun j hj hg => ?_) (fun j hj => ?_)
      · refine ⟨?_, ?_, ?_, ?_, ?_, fun a => ?_⟩
        · rw [hfields]
          exact hold.type
        · rw [hfields]
          exact hold.major
        · rw [hfields]
          exact hold.minor
        · rw [hfields]
          exact hold.nlink
        · show c.length + p.length < 2 ^ 32
          omega
        · have := happ.drawn.addrs_lt (i := i) a
          rw [hself] at this
          show din.addrs a < 2 ^ 32
          omega
      · rw [happ.low 1 (by decide), h.super]
      · have hinode : m₁.inode j = m.inode j := by
          unfold Image.inode
          split
          · rename_i hjn
            have := iblock_lt hjn
            rw [happ.low _ (show sb.iblock j < 47 by omega)]
          · rfl
        rw [Function.update_of_ne hj, hinode]
        exact ⟨rfl, (h.upto j).congr (happ.slot j hj)⟩
      · have hupto := happ.upto
        rw [hself] at hupto
        exact hupto.congr (slot_of_addrs rfl _)
      · refine ⟨?_, ?_, ?_, ?_, fun x => ?_⟩
        · show din.type = _
          rw [hfields]
          exact hfile.type
        · show din.nlink = _
          rw [hfields]
          exact hfile.nlink
        · exact (List.length_append).symm
        · rw [List.length_append]
          exact hroom'
        · have hbyte := happ.byte i x
          rw [hself] at hbyte
          have hsame : ({ din with size := c.length + p.length } : Fs.Dinode).byte m₁.blocks x =
              din.byte m₁.blocks x := rfl
          rw [hsame, hbyte, hfile.byte]
          by_cases hx : c.length ≤ x
          · rw [if_pos ⟨rfl, hx⟩, List.getElem?_append_right hx, List.getElem?_eq_none hx]
            rfl
          · rw [if_neg fun he => hx he.2, List.getElem?_append_left (by omega)]
      · rw [Function.update_of_ne hj]
        refine (h.file j g hg).congr fun x => ?_
        have hbyte := happ.byte j x
        rw [Function.update_of_ne hj, if_neg fun he => hj he.1] at hbyte
        exact hbyte
      · rw [Function.update_of_ne hj]
        exact h.free j hg
      · rw [happ.freeinode] at hj
        exact ⟨by omega, h.next j hj⟩
  · refine .inr ⟨hno, e, ?_⟩
    rw [he]
    rfl

/-- One buffer after the other. -/
theorem Denotes.iappends_spec {type : Nat} : ∀ (reads : List (List UInt8)) {m : Image}
    {F : Contents} {c : List UInt8}, Denotes m F → i < nInodes → i < m.freeinode →
    F i = some (type, c) →
    (Room m c.length reads.flatten.length ∧
      ∃ m', reads.foldlM (fun m buf => iappend m i buf) m = .ok m' ∧
        Grown m F i type c reads.flatten m') ∨
      ¬ Room m c.length reads.flatten.length ∧
        ∃ e, reads.foldlM (fun m buf => iappend m i buf) m = .error e := by
  intro reads
  induction reads with
  | nil =>
    intro m F c h hi hlt hF
    have hsmall := (h.file i _ hF).small
    refine .inl ⟨.nil h.drawn hsmall, m, rfl, ?_, rfl, rfl⟩
    rw [List.flatten_nil, List.append_nil, ← hF, Function.update_eq_self]
    exact h
  | cons buf reads ih =>
    intro m F c h hi hlt hF
    rw [List.foldlM_cons, List.flatten_cons, List.length_append]
    rcases h.iappend_spec hi hlt hF buf with ⟨hroom, m₁, hcall, hgrown⟩ | ⟨hno, e, he⟩
    · have hrest := ih hgrown.denotes hi (hgrown.freeinode ▸ hlt) (Function.update_self ..)
      rw [List.length_append, ← room_add_iff hgrown.freeblock] at hrest
      rw [hcall]
      rcases hrest with ⟨hfits, m', hcall', hgrown'⟩ | hfails
      · refine .inl ⟨hfits, m', hcall', ?_, ?_, hgrown'.freeinode.trans hgrown.freeinode⟩
        · have hden := hgrown'.denotes
          rwa [Function.update_idem, List.append_assoc] at hden
        · have h1 := hgrown.freeblock
          have h2 := hgrown'.freeblock
          rw [List.length_append] at h2
          rw [List.length_append, ← Nat.add_assoc]
          omega
      · exact .inr hfails
    · refine .inr ⟨fun hfits => hno hfits.first, e, ?_⟩
      rw [he]
      rfl

end

/-! ## The arguments -/

/-- What the file of an argument has in it. -/
def Arg.bytes (a : Arg) : List UInt8 := (a.reads.getD []).flatten

/-- A name as it stands in an entry. -/
def pad (name : List UInt8) : List UInt8 := name ++ List.replicate (14 - name.length) 0

theorem dirent_eq (inum : Nat) (name : List UInt8) :
    dirent inum name = Dirent.bytes ⟨inum, pad name⟩ := by
  rw [dirent, List.append_assoc]
  rfl

theorem pad_length {name : List UInt8} (h : name.length ≤ 14) : (pad name).length = 14 := by
  rw [pad, List.length_append, List.length_replicate]
  omega

/-- The entries of the root directory. -/
def rootEntries (args : List Arg) : List Dirent :=
  ⟨Fs.rootIno, pad (ascii ".")⟩ :: ⟨Fs.rootIno, pad (ascii "..")⟩ :: args.mapIdx fun k a =>
    ⟨k + 2, pad a.name⟩

/-- The files of an image: the root directory, and then the arguments. -/
def filesOf (args : List Arg) : Contents := fun i =>
  if i = 0 then none
  else if i = 1 then some (tDir, (rootEntries args).flatMap Dirent.bytes)
  else (args[i - 2]?).map fun a => (tFile, a.bytes)

theorem rootEntries_append (args : List Arg) (a : Arg) :
    rootEntries (args ++ [a]) = rootEntries args ++ [⟨args.length + 2, pad a.name⟩] := by
  simp only [rootEntries, List.mapIdx_append, List.mapIdx_singleton, List.cons_append, Nat.zero_add]

/-- A file more, and an entry more for it. -/
theorem filesOf_append (args : List Arg) (a : Arg) :
    filesOf (args ++ [a]) = Function.update (Function.update (filesOf args) (args.length + 2)
      (some (tFile, a.bytes))) 1
      (some (tDir, (rootEntries args).flatMap Dirent.bytes ++
        dirent (args.length + 2) a.name)) := by
  funext i
  unfold filesOf
  by_cases h1 : i = 1
  · rw [h1, Function.update_self, rootEntries_append, List.flatMap_append, dirent_eq]
    simp
  · rw [Function.update_of_ne h1]
    by_cases h0 : i = 0
    · rw [h0, Function.update_of_ne (by omega), if_pos rfl, if_pos rfl]
    · rw [if_neg h0, if_neg h1]
      by_cases hi : i = args.length + 2
      · rw [hi, Function.update_self]
        simp
      · rw [Function.update_of_ne hi, if_neg h0, if_neg h1]
        by_cases hlt : i - 2 < args.length
        · rw [List.getElem?_append_left hlt]
        · rw [List.getElem?_eq_none (by rw [List.length_append, List.length_singleton]; omega),
            List.getElem?_eq_none (by omega)]

theorem entries_length {entries : List Dirent} (h : ∀ e ∈ entries, e.name.length = 14) :
    (entries.flatMap Dirent.bytes).length = 16 * entries.length := by
  induction entries with
  | nil => rfl
  | cons e entries ih =>
    rw [List.flatMap_cons, List.length_append, Dirent.bytes_length (h e List.mem_cons_self),
      ih fun e he => h e (List.mem_cons_of_mem _ he), List.length_cons]
    omega

/-- The root directory and the files of these arguments are in the image. -/
structure Added (args : List Arg) (m : Image) : Prop where
  denotes : Denotes m (filesOf args)
  freeinode : m.freeinode = args.length + 2
  names : ∀ a ∈ args, a.name.length ≤ 14

theorem rootEntries_names {args : List Arg} (h : ∀ a ∈ args, a.name.length ≤ 14) :
    ∀ e ∈ rootEntries args, e.name.length = 14 := by
  intro e he
  rcases List.mem_cons.mp he with rfl | he
  · rfl
  rcases List.mem_cons.mp he with rfl | he
  · rfl
  obtain ⟨k, hk, rfl⟩ := List.mem_mapIdx.mp he
  exact pad_length (h _ (List.getElem_mem hk))

theorem root_length {args : List Arg} (h : ∀ a ∈ args, a.name.length ≤ 14) :
    ((rootEntries args).flatMap Dirent.bytes).length = 16 * (args.length + 2) := by
  rw [entries_length (rootEntries_names h)]
  simp [rootEntries]

/-- What `mkfs` asks of an argument, the `n`-th. -/
structure Addable (m : Image) (n : Nat) (a : Arg) : Prop where
  slash : 47 ∉ a.shortname
  opened : a.reads.isSome = true
  name : a.name.length ≤ 14
  size : a.bytes.length ≤ 268 * 1024
  blocks : m.freeblock + blocksOf (16 * (n + 3)) + blocksOf a.bytes.length ≤
    fsSize + blocksOf (16 * (n + 2))

section

variable {m m' : Image} {args done : List Arg} {a : Arg}

theorem addFile_spec (h : Added done m) (hi : done.length + 2 < nInodes) (a : Arg) :
    (Addable m done.length a ∧ ∃ m', addFile m a = .ok m' ∧ Added (done ++ [a]) m' ∧
      m'.freeblock + blocksOf (16 * (done.length + 2)) =
        m.freeblock + blocksOf (16 * (done.length + 3)) + blocksOf a.bytes.length) ∨
      ¬ Addable m done.length a ∧ ∃ e, addFile m a = .error e := by
  unfold addFile
  by_cases hslash : 47 ∈ a.shortname
  · exact .inr ⟨fun hok => hok.slash hslash, .assertion, if_pos hslash⟩
  rw [if_neg hslash]
  cases hreads : a.reads with
  | none =>
    refine .inr ⟨fun hok => ?_, _, rfl⟩
    have := hok.opened
    rw [hreads] at this
    cases this
  | some reads =>
    have hbytes : a.bytes = reads.flatten := by rw [Arg.bytes, hreads, Option.getD_some]
    dsimp only
    by_cases hname : 14 < a.name.length
    · exact .inr ⟨fun hok => absurd hok.name (Nat.not_le_of_lt hname), .assertion, if_pos hname⟩
    rw [if_neg hname]
    have hfree := h.freeinode
    obtain ⟨m₁, hcall₁, hden₁, hblock₁, hinode₁⟩ := h.denotes.ialloc_spec (by rw [hfree]; exact hi)
      (by decide : tFile < 65536)
    rw [hcall₁]
    rw [hfree] at hden₁ hinode₁ ⊢
    have hdirent : (dirent (done.length + 2) a.name).length = 16 := by
      rw [dirent_eq]
      exact Dirent.bytes_length (pad_length (Nat.le_of_not_lt hname))
    have hroot := root_length h.names
    have hF₁ : Function.update (filesOf done) (done.length + 2) (some (tFile, [])) 1 =
        some (tDir, (rootEntries done).flatMap Dirent.bytes) := by
      rw [Function.update_of_ne (by omega)]
      rfl
    have hi' : done.length + 2 < 200 := hi
    have hnext : 16 * (done.length + 2) + 16 = 16 * (done.length + 3) := by omega
    -- the entry, and then the file
    have happend := hden₁.iappend_spec (i := 1) (by decide) (by rw [hinode₁]; omega) hF₁
      (dirent (done.length + 2) a.name)
    rw [hroot, hdirent] at happend
    rcases happend with ⟨hroom₂, m₂, hcall₂, hgrown₂⟩ | ⟨hno, e, he⟩
    · have hF₂ : Function.update
          (Function.update (filesOf done) (done.length + 2) (some (tFile, []))) 1
          (some (tDir, (rootEntries done).flatMap Dirent.bytes ++ dirent (done.length + 2) a.name))
          (done.length + 2) = some (tFile, []) := by
        rw [Function.update_of_ne (by omega), Function.update_self]
      have hblock₂ := hgrown₂.freeblock
      rw [hroot, hdirent, hblock₁, hnext] at hblock₂
      have hfile := hgrown₂.denotes.iappends_spec reads (i := done.length + 2) hi
        (by rw [hgrown₂.freeinode, hinode₁]; omega) hF₂
      rw [← hbytes] at hfile
      show (_ ∧ ∃ m', (iappend m₁ Fs.rootIno _ >>= _) = _ ∧ _) ∨ _ ∧
        ∃ e, (iappend m₁ Fs.rootIno _ >>= _) = _
      rw [hcall₂]
      have hzero : blocksOf 0 = 0 := by decide
      rcases hfile with ⟨hroom₃, m₃, hcall₃, hgrown₃⟩ | ⟨hno, e, he⟩
      · have hblock₃ := hgrown₃.freeblock
        have hfits := hroom₃.2
        rw [List.length_nil, Nat.zero_add, hzero] at hblock₃ hfits
        refine .inl
          ⟨⟨hslash, by rw [hreads]; rfl, by omega, by have := hroom₃.1; simpa using this, by omega⟩,
          m₃, hcall₃, ⟨?_, ?_, fun b hb => ?_⟩, by omega⟩
        · have hden := hgrown₃.denotes
          rw [Function.update_comm (show 1 ≠ done.length + 2 by omega), Function.update_idem,
            List.nil_append] at hden
          rw [filesOf_append]
          exact hden
        · rw [hgrown₃.freeinode, hgrown₂.freeinode, hinode₁, List.length_append]
          rfl
        · rcases List.mem_append.mp hb with hb | hb
          · exact h.names b hb
          · rw [List.mem_singleton.mp hb]
            omega
      · refine .inr ⟨fun hok => hno ⟨?_, ?_⟩, e, he⟩
        · have := hok.size
          simpa using this
        · have := hok.blocks
          rw [List.length_nil, Nat.zero_add, hzero]
          omega
    · refine .inr ⟨fun hok => hno ⟨by omega, ?_⟩, e, ?_⟩
      · have := hok.blocks
        rw [hblock₁, hnext]
        omega
      · show (iappend m₁ Fs.rootIno _ >>= _) = _
        rw [he]
        rfl

/-- Whatever `mkfs` accepted is in the image. -/
theorem addFiles_ok : ∀ (args : List Arg) {done : List Arg} {m m' : Image}, Added done m →
    done.length + args.length + 2 ≤ nInodes → args.foldlM addFile m = .ok m' →
    Added (done ++ args) m' := by
  intro args
  induction args with
  | nil =>
    intro done m m' h _ hok
    rw [List.append_nil]
    cases hok
    exact h
  | cons a args ih =>
    intro done m m' h hi hok
    rw [List.length_cons] at hi
    rw [List.foldlM_cons] at hok
    rcases addFile_spec h (by omega) a with ⟨-, m₁, hcall, hadded, -⟩ | ⟨-, e, he⟩
    · rw [hcall] at hok
      have := ih hadded (by rw [List.length_append, List.length_singleton]; omega) hok
      rwa [List.append_assoc] at this
    · rw [he] at hok
      cases hok

/-- `mkfs` accepts arguments that there is room for. -/
theorem addFiles_returns : ∀ (args : List Arg) {done : List Arg} {m : Image}, Added done m →
    done.length + args.length + 2 ≤ nInodes →
    (∀ a ∈ args, 47 ∉ a.shortname ∧ a.reads.isSome = true ∧ a.name.length ≤ 14 ∧
      a.bytes.length ≤ 268 * 1024) →
    m.freeblock + blocksOf (16 * (done.length + args.length + 2)) +
      (args.map fun a => blocksOf a.bytes.length).sum ≤ fsSize + blocksOf (16 * (done.length + 2)) →
    ∃ m', args.foldlM addFile m = .ok m' := by
  intro args
  induction args with
  | nil => exact fun _ _ _ _ => ⟨_, rfl⟩
  | cons a args ih =>
    intro done m h hi hargs hroom
    rw [List.length_cons] at hi
    rw [List.map_cons, List.sum_cons, List.length_cons] at hroom
    have hmono : blocksOf (16 * (done.length + 3)) ≤
        blocksOf (16 * (done.length + (args.length + 1) + 2)) :=
      blocksOf_mono (by omega)
    obtain ⟨hslash, hopen, hname, hsize⟩ := hargs a List.mem_cons_self
    rcases addFile_spec h (by omega) a with ⟨-, m₁, hcall, hadded, hblock⟩ | ⟨hno, -⟩
    · have hlen : (done ++ [a]).length = done.length + 1 := by
        rw [List.length_append, List.length_singleton]
      obtain ⟨m', hm'⟩ := ih hadded (by omega) (fun b hb => hargs b (List.mem_cons_of_mem _ hb)) (by
        rw [hlen,
          show done.length + 1 + args.length + 2 = done.length + (args.length + 1) + 2 by omega,
          show done.length + 1 + 2 = done.length + 3 by omega]
        omega)
      refine ⟨m', ?_⟩
      rw [List.foldlM_cons, hcall]
      exact hm'
    · exact absurd ⟨hslash, hopen, hname, hsize, by omega⟩ hno

end

end Xv6Paging.Mkfs
