import Xv6Paging.Kernel.Fs
import Xv6Paging.Lib.Owners

/-!
# The blocks of an inode

An inode refers to blocks from its twelve direct addresses, from the address of its indirect block
and from the entries of that block: its slots. A file system is sound if no block is in two slots.
What the file holds is read through the slots; a block that is not there yet reads as zeros, so
that adding a fresh block changes nothing a reader sees.

The inodes are a family `I`, without saying where they are kept: on the disk, in memory, or in a
local variable of `mkfs` while it appends to one of them.
-/

namespace Xv6Paging.Fs

open Lib

variable {i j x bn : Nat} {ip : Dinode} {data : Blocks}

/-! ## An inode on the disk -/

/-- The fields of an inode fit their places in the block. -/
structure Dinode.Fits (ip : Dinode) : Prop where
  type : ip.type < 65536
  major : ip.major < 65536
  minor : ip.minor < 65536
  nlink : ip.nlink < 65536
  size : ip.size < 2 ^ 32
  addrs : ∀ a, ip.addrs a < 2 ^ 32

theorem getDinode_fits (b : Block) (j : Nat) : (getDinode b j).Fits := by
  have h0 := word_lt b (16 * j)
  have h1 := word_lt b (16 * j + 1)
  refine ⟨?_, ?_, ?_, ?_, word_lt b _, fun a => word_lt b _⟩ <;>
    · simp only [getDinode]
      omega

theorem Dinode.Fits.word_lt (h : ip.Fits) (w : Nat) : ip.word w < 2 ^ 32 := by
  have h0 := h.type
  have h1 := h.major
  have h2 := h.minor
  have h3 := h.nlink
  unfold Dinode.word
  split
  · omega
  · split
    · omega
    · split
      · exact h.size
      · split
        · exact h.addrs _
        · decide

theorem byteAt_putDinode (b : Block) (j : Nat) (ip : Dinode) {k : Nat} (hk : k < 1024) :
    byteAt (putDinode b j ip) k =
      if k / 64 = j then ip.word (k % 64 / 4) / 256 ^ (k % 4) % 256 else byteAt b k := by
  rw [byteAt, dif_pos hk, putDinode]
  split
  · simp
  · rw [byteAt, dif_pos hk]

theorem word_putDinode_self (b : Block) {w : Nat} (hj : j < 16) (hw : w < 16) (hf : ip.Fits) :
    word (putDinode b j ip) (16 * j + w) = ip.word w := by
  refine word_of_digits (hf.word_lt w) fun k hk => ?_
  have hword : (4 * (16 * j + w) + k) % 64 / 4 = w := by omega
  have hbyte : (4 * (16 * j + w) + k) % 4 = k := by omega
  rw [byteAt_putDinode b j ip (by omega), if_pos (by omega), hword, hbyte]

theorem word_putDinode_ne (b : Block) {j' w : Nat} (ip : Dinode) (hj : j' < 16) (hw : w < 16)
    (hne : j' ≠ j) : word (putDinode b j ip) (16 * j' + w) = word b (16 * j' + w) := by
  refine word_congr fun k hk => ?_
  rw [byteAt_putDinode b j ip (by omega), if_neg (by omega)]

/-- An inode that was written is read back. -/
theorem getDinode_putDinode (b : Block) (hj : j < 16) (hf : ip.Fits) :
    getDinode (putDinode b j ip) j = ip := by
  have hword : ∀ w, w < 16 → word (putDinode b j ip) (16 * j + w) = ip.word w :=
    fun w hw => word_putDinode_self b hj hw hf
  have h0 := hword 0 (by decide)
  have haddr : ∀ a : Fin 13, word (putDinode b j ip) (16 * j + 3 + a) = ip.addrs a := by
    intro a
    have ha := a.isLt
    rw [Nat.add_assoc, hword (3 + a) (by omega), Dinode.word, if_neg (by omega), if_neg (by omega),
      if_neg (by omega), dif_pos (by omega)]
    congr 1
    exact Fin.ext (by simp)
  have ht := hf.type
  have hm := hf.major
  have hi := hf.minor
  have hl := hf.nlink
  rw [Nat.add_zero] at h0
  refine Dinode.ext ?_ ?_ ?_ ?_ (hword 2 (by decide)) (funext haddr)
  · simp only [getDinode, h0, Dinode.word, if_pos]
    omega
  · simp only [getDinode, h0, Dinode.word, if_pos]
    omega
  · simp only [getDinode, hword 1 (by decide), Dinode.word, Nat.one_ne_zero, if_false, if_pos]
    omega
  · simp only [getDinode, hword 1 (by decide), Dinode.word, Nat.one_ne_zero, if_false, if_pos]
    omega

theorem getDinode_putDinode_ne (b : Block) {j' : Nat} (ip : Dinode) (hj : j' < 16) (hne : j' ≠ j) :
    getDinode (putDinode b j ip) j' = getDinode b j' := by
  have hword : ∀ w, w < 16 → word (putDinode b j ip) (16 * j' + w) = word b (16 * j' + w) :=
    fun w hw => word_putDinode_ne b ip hj hw hne
  have h0 := hword 0 (by decide)
  have haddr : ∀ a : Fin 13,
      word (putDinode b j ip) (16 * j' + 3 + a) = word b (16 * j' + 3 + a) := by
    intro a
    have ha := a.isLt
    rw [Nat.add_assoc, hword (3 + a) (by omega)]
  rw [Nat.add_zero] at h0
  unfold getDinode
  rw [h0, hword 1 (by decide), hword 2 (by decide), funext haddr]

/-! ## Slots -/

/-- A place in an inode, or in its indirect block, for the number of a block. -/
inductive Slot where
  | direct (i : Fin 12)
  | indirect
  | entry (j : Fin 256)
  deriving DecidableEq, Fintype

variable {s : Slot}

/-- The number of the indirect block. -/
abbrev Dinode.ind (ip : Dinode) : Nat := ip.addrs (Fin.last 12)

/-- What is in a slot. -/
def Dinode.slot (data : Blocks) (ip : Dinode) : Slot → Nat
  | .direct i => ip.addrs i.castSucc
  | .indirect => ip.ind
  | .entry j => if ip.ind = 0 then 0 else Lib.word (data ip.ind) j

/-- The slot for block `bn` of a file. -/
def dataSlot (bn : Nat) : Option Slot :=
  if h : bn < 12 then some (.direct ⟨bn, h⟩)
  else if h : bn - 12 < 256 then some (.entry ⟨bn - 12, h⟩)
  else none

/-- The number of block `bn` of a file, 0 if there is none. -/
def Dinode.block (data : Blocks) (ip : Dinode) (bn : Nat) : Nat :=
  (dataSlot bn).elim 0 (ip.slot data)

/-- A byte of a block; block 0 stands for one that is not there. -/
def byteIn (data : Blocks) (b off : Nat) : UInt8 :=
  if b = 0 then 0 else data b ⟨off % 1024, Nat.mod_lt _ (by decide)⟩

/-- The byte at an offset of a file. -/
def Dinode.byte (data : Blocks) (ip : Dinode) (off : Nat) : UInt8 :=
  byteIn data (ip.block data (off / 1024)) off

theorem dataSlot_inj {a b : Nat} (ha : dataSlot a = some s) (hb : dataSlot b = some s) :
    a = b := by
  unfold dataSlot at ha hb
  grind

theorem dataSlot_ne_indirect (h : dataSlot bn = some s) : s ≠ .indirect := by
  unfold dataSlot at h
  grind

theorem dataSlot_some (h : bn < 268) : ∃ s, dataSlot bn = some s := by
  unfold dataSlot
  split
  · exact ⟨_, rfl⟩
  · rw [dif_pos (by omega)]
    exact ⟨_, rfl⟩

theorem block_eq (h : dataSlot bn = some s) (data : Blocks) (ip : Dinode) :
    ip.block data bn = ip.slot data s := by
  rw [Dinode.block, h]
  rfl

/-- The entries are read from the indirect block only. -/
theorem slot_congr {data' : Blocks} (h : ip.ind ≠ 0 → data' ip.ind = data ip.ind) (s : Slot) :
    ip.slot data' s = ip.slot data s := by
  cases s with
  | direct i => rfl
  | indirect => rfl
  | entry j =>
    simp only [Dinode.slot]
    split
    · rfl
    · rename_i hind
      rw [h hind]

/-- An inode without addresses has no blocks. -/
theorem slot_no_addrs (data : Blocks) (h : ip.addrs = fun _ => 0) (s : Slot) :
    ip.slot data s = 0 := by
  have hind : ip.ind = 0 := congrFun h _
  cases s with
  | direct i => exact congrFun h _
  | indirect => exact hind
  | entry j => exact if_pos hind

theorem byte_congr {data' : Blocks} {ip' : Dinode} {off : Nat}
    (hblock : ip'.block data' (off / 1024) = ip.block data (off / 1024))
    (hdata : ip.block data (off / 1024) ≠ 0 →
      data' (ip.block data (off / 1024)) = data (ip.block data (off / 1024))) :
    ip'.byte data' off = ip.byte data off := by
  rw [Dinode.byte, Dinode.byte, hblock, byteIn, byteIn]
  split
  · rfl
  · rename_i h
    rw [hdata h]

/-! ## Filling a slot -/

theorem addrs_setAddr (ip : Dinode) (a c : Fin 13) (x : Nat) :
    (ip.setAddr a x).addrs c = if c = a then x else ip.addrs c := Function.update_apply ..

/-- The slot of address `a`. -/
def addrSlot (a : Fin 13) : Slot := Fin.lastCases .indirect .direct a

theorem slot_addrSlot (data : Blocks) (ip : Dinode) (a : Fin 13) :
    ip.slot data (addrSlot a) = ip.addrs a := by
  cases a using Fin.lastCases with
  | last => simp only [addrSlot, Fin.lastCases_last, Dinode.slot]
  | cast i => simp only [addrSlot, Fin.lastCases_castSucc, Dinode.slot]

/-- A new block is full of zeros: as an indirect block, it has no entries. -/
theorem slot_setAddr {a : Fin 13} (hempty : ip.addrs a = 0) (hzero : data x = zeroBlock)
    (s : Slot) : (ip.setAddr a x).slot data s = if s = addrSlot a then x else ip.slot data s := by
  cases a using Fin.lastCases with
  | last =>
    have hcast : ∀ i : Fin 12, i.castSucc ≠ Fin.last 12 := fun i => (Fin.castSucc_lt_last i).ne
    rw [addrSlot, Fin.lastCases_last]
    cases s with
    | direct c => simp only [Dinode.slot, addrs_setAddr, if_neg (hcast c), reduceCtorEq, if_false]
    | indirect => simp only [Dinode.slot, Dinode.ind, addrs_setAddr, if_pos]
    | entry j =>
      have hword : word (data x) j = 0 := by
        rw [hzero]
        exact word_zero _
      simp only [Dinode.slot, Dinode.ind, hempty, addrs_setAddr, if_pos, hword, ite_self,
        reduceCtorEq, if_false]
  | cast i =>
    have hlast : Fin.last 12 ≠ i.castSucc := (Fin.castSucc_lt_last i).ne'
    rw [addrSlot, Fin.lastCases_castSucc]
    cases s with
    | direct c => simp only [Dinode.slot, addrs_setAddr, Fin.castSucc_inj, Slot.direct.injEq]
    | indirect =>
      simp only [Dinode.slot, Dinode.ind, addrs_setAddr, if_neg hlast,
        reduceCtorEq, if_false]
    | entry j =>
      simp only [Dinode.slot, Dinode.ind, addrs_setAddr, if_neg hlast,
        reduceCtorEq, if_false]

theorem slot_setEntry (j : Fin 256) (hind : ip.ind ≠ 0) (hx : x < 2 ^ 32) (s : Slot) :
    ip.slot (Function.update data ip.ind (setWord (data ip.ind) j x)) s =
      if s = .entry j then x else ip.slot data s := by
  cases s with
  | direct c => simp only [Dinode.slot, reduceCtorEq, if_false]
  | indirect => simp only [Dinode.slot, reduceCtorEq, if_false]
  | entry c =>
    have hc := c.isLt
    simp only [Dinode.slot, if_neg hind, Function.update_self, Slot.entry.injEq]
    split
    · rename_i h
      rw [h]
      exact word_setWord_self _ (by omega) hx
    · rename_i h
      exact word_setWord_ne _ _ fun he => h (Fin.ext he)

/-! ## A file system -/

/-- No block is in two slots, and the blocks in slots satisfy `P`. -/
def Owned (P : Nat → Prop) (data : Blocks) (I : Nat → Dinode) : Prop :=
  Lib.Owns (fun p : Nat × Slot => (I p.1).slot data p.2) P

section

variable {P : Nat → Prop} {data data' : Blocks} {I I' : Nat → Dinode}

theorem Owned.inj (h : Owned P data I) {t : Slot} (hs : (I i).slot data s ≠ 0)
    (heq : (I i).slot data s = (I j).slot data t) : i = j ∧ s = t := by
  have hp := Lib.Owns.inj h (a := (i, s)) (b := (j, t)) hs heq
  exact ⟨congrArg Prod.fst hp, congrArg Prod.snd hp⟩

theorem Owned.mem (h : Owned P data I) (hs : (I i).slot data s ≠ 0) :
    P ((I i).slot data s) := Lib.Owns.mem h (a := (i, s)) hs

/-- The indirect block of an inode is not a data block of any. -/
theorem Owned.block_ne_ind (h : Owned P data I) (hb : (I i).block data bn ≠ 0) :
    (I j).ind ≠ (I i).block data bn := by
  intro heq
  cases hs : dataSlot bn with
  | none =>
    rw [Dinode.block, hs] at hb
    exact hb rfl
  | some s =>
    rw [block_eq hs] at hb heq
    obtain ⟨-, hslot⟩ := h.inj hb (heq.symm.trans rfl : _ = (I j).slot data .indirect)
    exact dataSlot_ne_indirect hs hslot

/-- What happens to other blocks is of no concern. -/
structure Framed (data data' : Blocks) (I : Nat → Dinode) : Prop where
  slot : ∀ i s, (I i).slot data' s = (I i).slot data s
  byte : ∀ i off, (I i).byte data' off = (I i).byte data off

theorem framed (h : ∀ i s, (I i).slot data s ≠ 0 → data' ((I i).slot data s) =
      data ((I i).slot data s)) :
    Framed data data' I := by
  have hslot : ∀ i s, (I i).slot data' s = (I i).slot data s :=
    fun i => slot_congr fun hind => h i .indirect hind
  refine ⟨hslot, fun i off => ?_⟩
  cases hs : dataSlot (off / 1024) with
  | none => rw [Dinode.byte, Dinode.byte, Dinode.block, Dinode.block, hs]; rfl
  | some s =>
    refine byte_congr (by rw [block_eq hs, block_eq hs, hslot]) fun hb => ?_
    rw [block_eq hs] at hb ⊢
    exact h i s hb

theorem Owned.of_slot (h : Owned P data I)
    (hslot : ∀ i s, (I' i).slot data' s = (I i).slot data s) : Owned P data' I' :=
  Lib.Owns.drop h fun p => Or.inr (hslot p.1 p.2)

/-- Slot `s` of inode `i` gets the fresh block `x`, and no reader can tell. -/
structure Filled (data data' : Blocks) (I I' : Nat → Dinode) (i : Nat) (s : Slot) (x : Nat) :
    Prop where
  slot : ∀ j t, (I' j).slot data' t = if j = i ∧ t = s then x else (I j).slot data t
  byte : ∀ j off, (I' j).byte data' off = (I j).byte data off

theorem Filled.owned (hf : Filled data data' I I' i s x) (h : Owned P data I)
    (hfree : ∀ j t, (I j).slot data t ≠ x) (hx : P x) : Owned P data' I' := by
  refine Lib.Owns.take h (a := (i, s)) (fun p => hfree p.1 p.2) hx fun p => ?_
  rw [hf.slot]
  by_cases hp : p = (i, s)
  · rw [if_pos hp, if_pos ⟨congrArg Prod.fst hp, congrArg Prod.snd hp⟩]
  · rw [if_neg hp, if_neg fun he => hp (Prod.ext he.1 he.2)]

/-- Filling an empty slot with a block of zeros, the data blocks being left alone. -/
theorem filled_of_slot (hempty : (I i).slot data s = 0) (hzero : data' x = zeroBlock)
    (hslot : ∀ j t, (I' j).slot data' t = if j = i ∧ t = s then x else (I j).slot data t)
    (hdata : ∀ j bn, (I j).block data bn ≠ 0 → data' ((I j).block data bn) =
      data ((I j).block data bn)) :
    Filled data data' I I' i s x := by
  refine ⟨hslot, fun j off => ?_⟩
  cases hs : dataSlot (off / 1024) with
  | none => rw [Dinode.byte, Dinode.byte, Dinode.block, Dinode.block, hs]; rfl
  | some t =>
    by_cases hthis : j = i ∧ t = s
    · -- zeros before, zeros now
      obtain ⟨rfl, rfl⟩ := hthis
      rw [Dinode.byte, Dinode.byte, block_eq hs, block_eq hs, hslot, if_pos ⟨rfl, rfl⟩,
        hempty, byteIn, byteIn, if_pos rfl]
      split
      · rfl
      · rw [hzero]
        rfl
    · refine byte_congr ?_ (hdata j _)
      rw [block_eq hs, block_eq hs, hslot, if_neg hthis]

theorem filled_addr {a : Fin 13} (hempty : (I i).addrs a = 0) (hzero : data x = zeroBlock) :
    Filled data data I (Function.update I i ((I i).setAddr a x)) i (addrSlot a) x := by
  refine filled_of_slot ((slot_addrSlot _ _ _).trans hempty) hzero (fun j t => ?_) fun _ _ _ => rfl
  by_cases hj : j = i
  · subst hj
    rw [Function.update_self, slot_setAddr hempty hzero]
    simp only [true_and]
  · rw [Function.update_of_ne hj, if_neg fun he => hj he.1]

theorem Owned.filled_entry (h : Owned P data I) {j : Fin 256} (hind : (I i).ind ≠ 0)
    (hempty : word (data (I i).ind) j = 0) (hx : x < 2 ^ 32) (hne : x ≠ (I i).ind)
    (hzero : data x = zeroBlock) :
    Filled data (Function.update data (I i).ind (setWord (data (I i).ind) j x)) I I i
      (.entry j) x := by
  refine filled_of_slot (by rw [Dinode.slot, if_neg hind, hempty])
    (by rw [Function.update_of_ne hne, hzero]) ?_ ?_
  · intro k t
    by_cases hk : k = i
    · subst hk
      rw [slot_setEntry j hind hx]
      simp only [true_and]
    · rw [if_neg fun he => hk he.1]
      refine slot_congr (fun hk0 => Function.update_of_ne (fun heq => hk ?_) _ _) t
      exact (h.inj (s := .indirect) (t := .indirect) hk0 heq).1
  · intro k bn hb
    exact Function.update_of_ne (h.block_ne_ind hb).symm _ _

/-! ## Writing a data block -/

theorem Owned.store (h : Owned P data I) (blk : Block) (hb : (I i).block data bn ≠ 0) :
    (∀ j s, (I j).slot (Function.update data ((I i).block data bn) blk) s = (I j).slot data s) ∧
      ∀ j off, (I j).byte (Function.update data ((I i).block data bn) blk) off =
        if j = i ∧ off / 1024 = bn then blk ⟨off % 1024, Nat.mod_lt _ (by decide)⟩
        else (I j).byte data off := by
  have hslot : ∀ j s, (I j).slot (Function.update data ((I i).block data bn) blk) s =
      (I j).slot data s :=
    fun j => slot_congr fun _ => Function.update_of_ne (h.block_ne_ind hb) _ _
  have hblock : ∀ j c, (I j).block (Function.update data ((I i).block data bn) blk) c =
      (I j).block data c := by
    intro j c
    unfold Dinode.block
    cases dataSlot c with
    | none => rfl
    | some s => exact hslot j s
  refine ⟨hslot, fun j off => ?_⟩
  by_cases hthis : j = i ∧ off / 1024 = bn
  · obtain ⟨rfl, rfl⟩ := hthis
    rw [if_pos ⟨rfl, rfl⟩, Dinode.byte, hblock, byteIn, if_neg hb, Function.update_self]
  · rw [if_neg hthis]
    refine byte_congr (hblock j _) fun hother => Function.update_of_ne (fun heq => hthis ?_) _ _
    cases hs : dataSlot (off / 1024) with
    | none => rw [Dinode.block, hs] at hother; exact absurd rfl hother
    | some s =>
      cases ht : dataSlot bn with
      | none => rw [Dinode.block, ht] at hb; exact absurd rfl hb
      | some t =>
        rw [block_eq hs] at hother heq
        rw [block_eq ht] at heq
        obtain ⟨hij, rfl⟩ := h.inj hother heq
        exact ⟨hij, dataSlot_inj hs ht⟩

end

end Xv6Paging.Fs
