import Xv6Paging.Host.Mkfs
import Xv6Paging.Proof.Directories

/-!
# What `iappend` writes

`mkfs` has no bitmap while it works: it hands out blocks by counting `freeblock` up. The blocks from
there on are zeros and in no slot, so that a block it puts into a slot is fresh, as one from the
kernel's `balloc` is. A file has exactly the blocks its size asks for, and this says how far the
counter moves.

`iappend` keeps the inode it works on in a local variable. The inodes are therefore a family `J`,
which is on the disk except for that one.
-/

namespace Xv6Paging.Mkfs

open Lib Fs

variable {a b n₁ off : Nat} {din : Fs.Dinode} {p : List UInt8}

/-- The blocks a file of this size takes, with its indirect block. -/
def blocksOf (size : Nat) : Nat := (size + 1023) / 1024 + if 12 * 1024 < size then 1 else 0

theorem blocksOf_mono (h : a ≤ b) : blocksOf a ≤ blocksOf b := by
  unfold blocksOf
  split <;> split <;> omega

/-- Bytes that fit the last block. -/
theorem blocksOf_same {top : Nat} (hoff : off % 1024 ≠ 0) (hlt : off < top)
    (htop : top ≤ (off / 1024 + 1) * 1024) : blocksOf top = blocksOf off := by
  unfold blocksOf
  split <;> split <;> omega

/-- Bytes that start a new block. -/
theorem blocksOf_new {top : Nat} (hoff : off % 1024 = 0) (hlt : off < top)
    (htop : top ≤ (off / 1024 + 1) * 1024) :
    blocksOf top = blocksOf off + if off = 12 * 1024 then 2 else 1 := by
  unfold blocksOf
  split <;> split <;> split <;> omega

/-- An inode has the blocks for bytes up to `off`, and no others. -/
structure Upto (data : Blocks) (ip : Fs.Dinode) (off : Nat) : Prop where
  block : ∀ bn, bn < 268 → (ip.block data bn ≠ 0 ↔ 1024 * bn < off)
  ind : ip.ind ≠ 0 ↔ 12 * 1024 < off

/-- What `mkfs` knows of its blocks. -/
structure Drawn (m : Image) (J : Nat → Fs.Dinode) : Prop where
  nsect : m.nsect = fsSize
  owned : Owned (fun b => nmeta ≤ b ∧ b < m.freeblock) m.blocks J
  fresh : ∀ b, m.freeblock ≤ b → m.blocks b = zeroBlock
  start : nmeta ≤ m.freeblock
  room : m.freeblock ≤ fsSize

/-- The empty slots in `T` of inode `i` got new blocks, `n` of them, and no reader can tell. -/
structure Takes (T : Fs.Slot → Prop) (n i : Nat) (m : Image) (J : Nat → Fs.Dinode) (m' : Image)
    (J' : Nat → Fs.Dinode) : Prop where
  drawn : Drawn m' J'
  others : ∀ j, j ≠ i → J' j = J j
  fields : J' i = { J i with addrs := (J' i).addrs }
  kept : ∀ j t, (J j).slot m.blocks t ≠ 0 → (J' j).slot m'.blocks t = (J j).slot m.blocks t
  slot : ∀ j t, (J' j).slot m'.blocks t ≠ 0 ↔ (J j).slot m.blocks t ≠ 0 ∨ j = i ∧ T t
  byte : ∀ j x, (J' j).byte m'.blocks x = (J j).byte m.blocks x
  low : ∀ b, b < nmeta → m'.blocks b = m.blocks b
  freeblock : m'.freeblock = m.freeblock + n
  freeinode : m'.freeinode = m.freeinode

section

variable {T U : Fs.Slot → Prop} {m m' m'' : Image} {J J' J'' : Nat → Fs.Dinode}
  {i n k off top : Nat} {s : Fs.Slot}

theorem Takes.refl (h : Drawn m J) (hT : ∀ t, T t → (J i).slot m.blocks t ≠ 0) :
    Takes T 0 i m J m J where
  drawn := h
  others := fun _ _ => rfl
  fields := rfl
  kept := fun _ _ _ => rfl
  slot := fun _ t => ⟨.inl, fun ht => ht.elim id fun hthis => hthis.1 ▸ hT t hthis.2⟩
  byte := fun _ _ => rfl
  low := fun _ _ => rfl
  freeblock := rfl
  freeinode := rfl

theorem Takes.trans (h : Takes T n i m J m' J') (h' : Takes U k i m' J' m'' J'') :
    Takes (fun t => T t ∨ U t) (n + k) i m J m'' J'' where
  drawn := h'.drawn
  others := fun j hj => (h'.others j hj).trans (h.others j hj)
  fields := by rw [h'.fields, h.fields]
  kept := fun j t ht => (h'.kept j t ((h.slot j t).mpr (.inl ht))).trans (h.kept j t ht)
  slot := fun j t => by
    rw [h'.slot, h.slot]
    tauto
  byte := fun j x => (h'.byte j x).trans (h.byte j x)
  low := fun b hb => (h'.low b hb).trans (h.low b hb)
  freeblock := by rw [h'.freeblock, h.freeblock, Nat.add_assoc]
  freeinode := h'.freeinode.trans h.freeinode

theorem Takes.congr (h : Takes T n i m J m' J') (hTU : ∀ t, T t ↔ U t) : Takes U n i m J m' J' :=
  funext (fun t => propext (hTU t)) ▸ h

theorem Drawn.lt_fsSize (h : Drawn m J) (hs : (J i).slot m.blocks s ≠ 0) :
    (J i).slot m.blocks s < fsSize :=
  Nat.lt_of_lt_of_le (h.owned.mem hs).2 h.room

theorem Drawn.rsect_slot (h : Drawn m J) (hs : (J i).slot m.blocks s ≠ 0) :
    rsect m ((J i).slot m.blocks s) = .ok (m.blocks ((J i).slot m.blocks s)) :=
  if_pos (h.nsect ▸ h.lt_fsSize hs)

/-- The next block goes into a slot. -/
theorem Drawn.fill (h : Drawn m J) (hroom : m.freeblock < fsSize) (hnsect : m'.nsect = m.nsect)
    (hfree : m'.freeblock = m.freeblock + 1) (hinode : m'.freeinode = m.freeinode)
    (hfill : Filled m.blocks m'.blocks J J' i s m.freeblock) (hempty : (J i).slot m.blocks s = 0)
    (hblocks : ∀ b, b < nmeta ∨ m.freeblock < b → m'.blocks b = m.blocks b)
    (hothers : ∀ j, j ≠ i → J' j = J j) (hfields : J' i = { J i with addrs := (J' i).addrs }) :
    Takes (· = s) 1 i m J m' J' := by
  have hstart : 47 ≤ m.freeblock := h.start
  refine ⟨⟨hnsect.trans h.nsect, ?_, fun b hb => ?_, ?_, ?_⟩, hothers, hfields, ?_, ?_, hfill.byte,
    fun b hb => hblocks b (.inl hb), hfree, hinode⟩
  · rw [hfree]
    refine hfill.owned (Lib.Owns.mono h.owned fun _ _ hb => ⟨hb.1, Nat.lt_succ_of_lt hb.2⟩)
      (fun j t heq => ?_) ⟨h.start, Nat.lt_succ_self _⟩
    have hmem := h.owned.mem (i := j) (s := t) (by omega)
    exact absurd hmem.2 (heq ▸ Nat.lt_irrefl _)
  · rw [hblocks b (.inr (by omega))]
    exact h.fresh b (by omega)
  · rw [hfree]
    exact Nat.le_succ_of_le h.start
  · rw [hfree]
    exact hroom
  · intro j t ht
    rw [hfill.slot, if_neg]
    rintro ⟨rfl, rfl⟩
    exact ht hempty
  · intro j t
    rw [hfill.slot]
    by_cases hthis : j = i ∧ t = s
    · rw [if_pos hthis]
      exact ⟨fun _ => .inr hthis, fun _ => by omega⟩
    · rw [if_neg hthis]
      exact ⟨.inl, fun ht => ht.resolve_right hthis⟩

/-! ## The block of an offset -/

theorem newAddr_old {a : Fin 13} (h : Drawn m J) (ha : (J i).addrs a ≠ 0) :
    newAddr m (J i) a = (m, J i) ∧
    Takes (· = addrSlot a) 0 i m J m (Function.update J i (J i)) := by
  refine ⟨if_neg ha, ?_⟩
  rw [Function.update_eq_self]
  refine .refl h fun t ht => ?_
  rw [ht, slot_addrSlot]
  exact ha

theorem newAddr_new {a : Fin 13} (h : Drawn m J) (ha : (J i).addrs a = 0)
    (hroom : m.freeblock < fsSize) :
    Takes (· = addrSlot a) 1 i m J { m with freeblock := m.freeblock + 1 }
      (Function.update J i ((J i).setAddr a m.freeblock)) := by
  refine h.fill hroom rfl rfl rfl (filled_addr ha (h.fresh _ (Nat.le_refl _)))
    ((slot_addrSlot _ _ _).trans ha) (fun _ _ => rfl) (fun j hj => Function.update_of_ne hj _ _) ?_
  rw [Function.update_self]
  rfl

/-- `din.addrs[a]` once it is set. -/
theorem newAddr_spec {a : Fin 13} (h : Drawn m J)
    (hroom : (J i).addrs a = 0 → m.freeblock < fsSize) :
    ∃ m₁ din, newAddr m (J i) a = (m₁, din) ∧ din.addrs a ≠ 0 ∧
      Takes (· = addrSlot a) (if (J i).addrs a = 0 then 1 else 0) i m J m₁
        (Function.update J i din) := by
  by_cases ha : (J i).addrs a = 0
  · have hstart : 47 ≤ m.freeblock := h.start
    refine ⟨_, _, if_pos ha, ?_, ?_⟩
    · rw [addrs_setAddr, if_pos rfl]
      omega
    · rw [if_pos ha]
      exact newAddr_new h ha (hroom ha)
  · obtain ⟨hcall, htakes⟩ := newAddr_old h ha
    rw [if_neg ha]
    exact ⟨m, J i, hcall, ha, htakes⟩

theorem blockFor_direct {fbn : Nat} (h : fbn < 12) {m₁ : Image} {din₁ : Fs.Dinode}
    (hcall : newAddr m din ⟨fbn, Nat.lt_succ_of_lt h⟩ = (m₁, din₁)) :
    blockFor m din fbn = .ok (din₁.addrs ⟨fbn, Nat.lt_succ_of_lt h⟩, m₁, din₁) := by
  have hcast : newAddr m din (Fin.castSucc ⟨fbn, h⟩) = (m₁, din₁) := hcall
  rw [blockFor, dif_pos h, hcast]
  rfl

theorem blockFor_indirect {fbn : Nat} (h : ¬ fbn < 12) {m₁ : Image} {din₁ : Fs.Dinode}
    (hcall : newAddr m din (Fin.last 12) = (m₁, din₁)) :
    blockFor m din fbn = newEntry m₁ din₁ (fbn - 12) := by
  rw [blockFor, dif_neg h, hcall]

theorem newEntry_spec (h : Drawn m J) (hind : (J i).ind ≠ 0) (j : Fin 256)
    (hroom : (J i).slot m.blocks (.entry j) = 0 → m.freeblock < fsSize) :
    ∃ x m₁, newEntry m (J i) j = .ok (x, m₁, J i) ∧ (J i).slot m₁.blocks (.entry j) = x ∧
      Takes (· = .entry j) (if (J i).slot m.blocks (.entry j) = 0 then 1 else 0) i m J m₁ J := by
  have hslot : ∀ data : Blocks, (J i).slot data (.entry j) = word (data (J i).ind) j :=
    fun data => if_neg hind
  have hj := j.isLt
  have hread : rsect m (J i).ind = .ok (m.blocks (J i).ind) := h.rsect_slot (s := .indirect) hind
  have hindlt : (J i).ind < m.freeblock := (h.owned.mem (i := i) (s := .indirect) hind).2
  by_cases hempty : word (m.blocks (J i).ind) j = 0
  · have hfree := hroom ((hslot _).trans hempty)
    have hfree : m.freeblock < 2000 := hfree
    rw [if_pos ((hslot _).trans hempty)]
    refine ⟨word (setWord (m.blocks (J i).ind) j m.freeblock) j,
      wsect { m with freeblock := m.freeblock + 1 } (J i).ind
        (setWord (m.blocks (J i).ind) j m.freeblock), ?_, (hslot _).trans ?_, ?_⟩
    · rw [newEntry, hread]
      show (if word (m.blocks (J i).ind) j = 0 then _ else _) = _
      rw [if_pos hempty]
    · show word (Function.update m.blocks (J i).ind _ (J i).ind) j = _
      rw [Function.update_self]
    · refine h.fill hfree ?_ rfl rfl
        (h.owned.filled_entry hind hempty (by omega) (by omega) (h.fresh _ (Nat.le_refl _)))
        ((hslot _).trans hempty) (fun b hb => Function.update_of_ne ?_ _ _) (fun _ _ => rfl) rfl
      · have hn : m.nsect = 2000 := h.nsect
        show max m.nsect ((J i).ind + 1) = m.nsect
        omega
      · have hlow := (h.owned.mem (i := i) (s := .indirect) hind).1
        have hlow : nmeta ≤ (J i).ind := hlow
        omega
  · rw [if_neg ((hslot _).symm ▸ hempty)]
    refine ⟨_, m, ?_, hslot _, .refl h fun t ht => ?_⟩
    · rw [newEntry, hread]
      show (if word (m.blocks (J i).ind) j = 0 then _ else _) = _
      rw [if_neg hempty]
    · rw [ht, hslot]
      exact hempty

/-! ## `blockFor` -/

/-- The block of an offset is there unless the offset starts it. -/
theorem Upto.block_eq_zero (h : Upto m.blocks (J i) off) (hoff : off < 268 * 1024) :
    (J i).block m.blocks (off / 1024) = 0 ↔ off % 1024 = 0 := by
  have hblock := h.block (off / 1024) (by omega)
  constructor
  · intro h0
    by_contra hmod
    exact hblock.mpr (by omega) h0
  · intro hmod
    by_contra h0
    have := hblock.mp h0
    omega

theorem Upto.ind_eq_zero {data : Blocks} {ip : Fs.Dinode} (h : Upto data ip off) :
    ip.ind = 0 ↔ off ≤ 12 * 1024 := by
  have hind := h.ind
  constructor
  · intro h0
    by_contra hlt
    exact hind.mpr (by omega) h0
  · intro hle
    by_contra h0
    have := hind.mp h0
    omega

/-- The blocks for bytes up to `top`, in the block of `off`. -/
theorem Takes.upto (h : Takes (Touches (off / 1024)) n i m J m' J') (hup : Upto m.blocks (J i) off)
    (hlt : off < top) (htop : top ≤ (off / 1024 + 1) * 1024) : Upto m'.blocks (J' i) top := by
  have hslot := h.slot i
  constructor
  · intro bn hbn
    obtain ⟨t, ht⟩ := dataSlot_some hbn
    have hold := hup.block bn hbn
    have htouch : Touches (off / 1024) t ↔ bn = off / 1024 :=
      ⟨fun hto => hto.elim (fun hs => dataSlot_inj ht hs)
        fun hs => absurd hs.1 (dataSlot_ne_indirect ht), fun he => .inl (he ▸ ht)⟩
    rw [block_eq ht] at hold ⊢
    rw [hslot t, hold, htouch]
    omega
  · have hind : (J' i).ind ≠ 0 ↔ (J i).ind ≠ 0 ∨ i = i ∧ Touches (off / 1024) .indirect :=
      hslot .indirect
    have htouch : Touches (off / 1024) .indirect ↔ 12 ≤ off / 1024 :=
      ⟨fun hto => hto.elim (fun hs => absurd rfl (dataSlot_ne_indirect hs)) And.right,
        fun hle => .inr ⟨rfl, hle⟩⟩
    rw [hind, hup.ind, htouch]
    omega

theorem newEntry_full (h : Drawn m J) (hind : (J i).ind ≠ 0) (j : Fin 256)
    (hempty : (J i).slot m.blocks (.entry j) = 0) (hfull : m.freeblock = fsSize) :
    ∃ x m₁, newEntry m (J i) j = .ok (x, m₁, J i) ∧ fsSize ≤ x ∧ m₁.nsect = fsSize := by
  have hword : word (m.blocks (J i).ind) j = 0 := by
    rw [← hempty]
    exact (if_neg hind).symm
  have hj := j.isLt
  have hread : rsect m (J i).ind = .ok (m.blocks (J i).ind) := h.rsect_slot (s := .indirect) hind
  have hlt : (J i).ind < 2000 := h.lt_fsSize (s := .indirect) hind
  refine ⟨word (setWord (m.blocks (J i).ind) j m.freeblock) j,
    wsect { m with freeblock := m.freeblock + 1 } (J i).ind
    (setWord (m.blocks (J i).ind) j m.freeblock), ?_, ?_, ?_⟩
  · rw [newEntry, hread]
    show (if word (m.blocks (J i).ind) j = 0 then _ else _) = _
    rw [if_pos hword]
  · rw [hfull, word_setWord_self _ (by omega) (by decide)]
  · have hn : m.nsect = 2000 := h.nsect
    show max m.nsect ((J i).ind + 1) = 2000
    omega

/-- **The block for the next bytes**, which all go into it: old or new. -/
theorem blockFor_spec (h : Drawn m J) (hup : Upto m.blocks (J i) off) (hoff : off < 268 * 1024)
    (hlt : off < top) (htop : top ≤ (off / 1024 + 1) * 1024)
    (hroom : m.freeblock + blocksOf top ≤ fsSize + blocksOf off) :
    ∃ x m₁ din n, blockFor m (J i) (off / 1024) = .ok (x, m₁, din) ∧
      din.block m₁.blocks (off / 1024) = x ∧ blocksOf off + n = blocksOf top ∧
      Takes (Touches (off / 1024)) n i m J m₁ (Function.update J i din) := by
  have hzero := hup.block_eq_zero hoff
  have hmono := blocksOf_mono (Nat.le_of_lt hlt)
  by_cases hdirect : off / 1024 < 12
  · have hslot : dataSlot (off / 1024) = some (.direct ⟨off / 1024, hdirect⟩) := dif_pos hdirect
    have haddr : addrSlot ⟨off / 1024, Nat.lt_succ_of_lt hdirect⟩ = .direct ⟨off / 1024, hdirect⟩ :=
      Fin.lastCases_castSucc (n := 12) (i := ⟨off / 1024, hdirect⟩) ..
    rw [block_eq hslot] at hzero
    have hzero : (J i).addrs ⟨off / 1024, Nat.lt_succ_of_lt hdirect⟩ = 0 ↔ off % 1024 = 0 := hzero
    -- one block if there is none, and no more
    have hcount : blocksOf off +
        (if (J i).addrs ⟨off / 1024, Nat.lt_succ_of_lt hdirect⟩ = 0 then 1 else 0) =
        blocksOf top := by
      by_cases hmod : off % 1024 = 0
      · rw [if_pos (hzero.mpr hmod), blocksOf_new hmod hlt htop, if_neg (by omega)]
      · rw [if_neg fun h0 => hmod (hzero.mp h0), blocksOf_same hmod hlt htop]
        rfl
    obtain ⟨m₁, din, hcall, -, htakes⟩ := newAddr_spec h (i := i)
      (a := ⟨off / 1024, Nat.lt_succ_of_lt hdirect⟩) fun h0 => by
        rw [if_pos h0] at hcount
        omega
    refine ⟨_, m₁, din, _, blockFor_direct hdirect hcall, block_eq hslot _ _, hcount,
      htakes.congr fun t => ?_⟩
    rw [haddr, Touches, hslot, Option.some.injEq]
    exact ⟨fun ht => .inl ht.symm, fun ht => ht.elim Eq.symm fun hno => absurd hno.2 (by omega)⟩
  · have hentry : off / 1024 - 12 < 256 := by omega
    have hslot : dataSlot (off / 1024) = some (.entry ⟨off / 1024 - 12, hentry⟩) := by
      rw [dataSlot, dif_neg hdirect, dif_pos hentry]
    have hlast : addrSlot (Fin.last 12) = .indirect := Fin.lastCases_last
    have hind := hup.ind_eq_zero
    rw [block_eq hslot] at hzero
    -- the entry is empty if the indirect block is not there
    have hcount : blocksOf off + ((if (J i).ind = 0 then 1 else 0) +
        (if (J i).slot m.blocks (.entry ⟨off / 1024 - 12, hentry⟩) = 0 then 1 else 0)) =
        blocksOf top := by
      by_cases hmod : off % 1024 = 0
      · rw [if_pos (hzero.mpr hmod), blocksOf_new hmod hlt htop]
        by_cases hfirst : off = 12 * 1024
        · rw [if_pos (hind.mpr (by omega)), if_pos hfirst]
        · rw [if_neg fun h0 => hfirst (by have := hind.mp h0; omega), if_neg hfirst]
      · rw [if_neg fun h0 => hmod (hzero.mp h0), blocksOf_same hmod hlt htop,
          if_neg fun h0 => hmod (by have := hind.mp h0; omega)]
        rfl
    obtain ⟨m₁, din, hcall, hdin, htakes⟩ := newAddr_spec h (i := i) (a := Fin.last 12) fun h0 => by
      rw [if_pos (show (J i).ind = 0 from h0)] at hcount
      omega
    have hself : Function.update J i din i = din := Function.update_self ..
    have hsame : (Function.update J i din i).slot m₁.blocks (.entry ⟨off / 1024 - 12, hentry⟩) = 0 ↔
        (J i).slot m.blocks (.entry ⟨off / 1024 - 12, hentry⟩) = 0 := by
      have hiff := htakes.slot i (.entry ⟨off / 1024 - 12, hentry⟩)
      have hne : Fs.Slot.entry ⟨off / 1024 - 12, hentry⟩ ≠ .indirect := dataSlot_ne_indirect hslot
      rw [hlast] at hiff
      rw [← not_iff_not]
      exact hiff.trans ⟨fun ho => ho.resolve_right fun hno => hne hno.2, .inl⟩
    obtain ⟨x, m₂, hcall₂, hx, htakes₂⟩ :=
      newEntry_spec htakes.drawn (i := i) (by rw [hself]; exact hdin) ⟨off / 1024 - 12, hentry⟩
        fun h0 => by
        rw [if_pos (hsame.mp h0)] at hcount
        have hfree : m₁.freeblock = m.freeblock + if (J i).ind = 0 then 1 else 0 := htakes.freeblock
        omega
    rw [hself] at hcall₂ hx
    refine ⟨x, m₂, din, _, (blockFor_indirect hdirect hcall).trans hcall₂,
      (block_eq hslot _ _).trans hx, ?_, (htakes.trans htakes₂).congr fun t => ?_⟩
    · rw [← hcount, if_congr hsame rfl rfl]
    · rw [hlast, Touches, hslot, Option.some.injEq]
      exact ⟨fun ht => ht.elim (fun he => .inr ⟨he, by omega⟩) fun he => .inl he.symm,
        fun ht => ht.elim (fun he => .inr he.symm) fun he => .inl he.1⟩

/-- Without room for it, the block is past the end of the image. -/
theorem blockFor_full (h : Drawn m J) (hup : Upto m.blocks (J i) off) (hoff : off < 268 * 1024)
    (hlt : off < top) (htop : top ≤ (off / 1024 + 1) * 1024)
    (hfull : fsSize + blocksOf off < m.freeblock + blocksOf top) :
    (∃ e, blockFor m (J i) (off / 1024) = .error e) ∨
      ∃ x m₁ din, blockFor m (J i) (off / 1024) = .ok (x, m₁, din) ∧ fsSize ≤ x ∧
      m₁.nsect = fsSize := by
  have hzero := hup.block_eq_zero hoff
  have hfree : m.freeblock ≤ 2000 := h.room
  have hstart : 47 ≤ m.freeblock := h.start
  have hfull : 2000 + blocksOf off < m.freeblock + blocksOf top := hfull
  have hmod : off % 1024 = 0 := by
    by_contra hmod
    rw [blocksOf_same hmod hlt htop] at hfull
    omega
  rw [blocksOf_new hmod hlt htop] at hfull
  by_cases hdirect : off / 1024 < 12
  · have hslot : dataSlot (off / 1024) = some (.direct ⟨off / 1024, hdirect⟩) := dif_pos hdirect
    rw [block_eq hslot] at hzero
    have hempty : (J i).addrs ⟨off / 1024, Nat.lt_succ_of_lt hdirect⟩ = 0 := hzero.mpr hmod
    rw [if_neg (by omega)] at hfull
    refine .inr ⟨_, _, _, blockFor_direct hdirect (if_pos hempty), ?_, h.nsect⟩
    rw [addrs_setAddr, if_pos rfl]
    show 2000 ≤ m.freeblock
    omega
  · have hentry : off / 1024 - 12 < 256 := by omega
    have hslot : dataSlot (off / 1024) = some (.entry ⟨off / 1024 - 12, hentry⟩) := by
      rw [dataSlot, dif_neg hdirect, dif_pos hentry]
    have hind := hup.ind_eq_zero
    rw [block_eq hslot] at hzero
    have hempty := hzero.mpr hmod
    by_cases hnoind : (J i).ind = 0
    · rw [if_pos (by have := hind.mp hnoind; omega)] at hfull
      by_cases hnone : m.freeblock = 2000
      · -- not even the indirect block
        have hread : ¬ m.freeblock < m.nsect := by
          rw [h.nsect, hnone]
          exact Nat.lt_irrefl _
        refine .inl ⟨.die (ascii "read"), (blockFor_indirect hdirect (if_pos hnoind)).trans ?_⟩
        rw [newEntry, addrs_setAddr, if_pos rfl, rsect, if_neg hread]
        rfl
      · have htakes :=
          newAddr_new h (i := i) (a := Fin.last 12) hnoind (by show m.freeblock < 2000; omega)
        have hself : Function.update J i ((J i).setAddr (Fin.last 12) m.freeblock) i =
            (J i).setAddr (Fin.last 12) m.freeblock := Function.update_self ..
        have hne : Fs.Slot.entry ⟨off / 1024 - 12, hentry⟩ ≠ addrSlot (Fin.last 12) := by
          rw [show addrSlot (Fin.last 12) = .indirect from Fin.lastCases_last]
          exact dataSlot_ne_indirect hslot
        obtain ⟨x, m₁, hcall, hx, hn⟩ := newEntry_full htakes.drawn (i := i)
          (by rw [hself, Fs.Dinode.ind, addrs_setAddr, if_pos rfl]; omega) ⟨off / 1024 - 12, hentry⟩
          (by
            by_contra hno
            exact ((htakes.slot i _).mp hno).elim (fun ho => ho hempty) fun ho => hne ho.2)
          (by show m.freeblock + 1 = 2000; omega)
        rw [hself] at hcall
        exact .inr ⟨x, m₁, _, (blockFor_indirect hdirect (if_pos hnoind)).trans hcall, hx, hn⟩
    · rw [if_neg fun he => hnoind (hind.mpr (by omega))] at hfull
      obtain ⟨x, m₁, hcall, hx, hn⟩ := newEntry_full h hnoind ⟨off / 1024 - 12, hentry⟩ hempty
        (by show m.freeblock = 2000; omega)
      exact .inr ⟨x, m₁, _, (blockFor_indirect hdirect (if_neg hnoind)).trans hcall, hx, hn⟩

/-! ## The loop -/

/-- `bytes` were written at `off`, the end of what inode `i` has blocks for. -/
structure Appends (i off : Nat) (bytes : List UInt8) (m : Image) (J : Nat → Fs.Dinode) (m' : Image)
    (J' : Nat → Fs.Dinode) : Prop where
  drawn : Drawn m' J'
  others : ∀ j, j ≠ i → J' j = J j
  fields : J' i = { J i with addrs := (J' i).addrs }
  slot : ∀ j, j ≠ i → ∀ t, (J j).slot m'.blocks t = (J j).slot m.blocks t
  upto : Upto m'.blocks (J' i) (off + bytes.length)
  byte : ∀ j x, (J' j).byte m'.blocks x =
    if j = i ∧ off ≤ x then (bytes[x - off]?).getD ((J j).byte m.blocks x)
    else (J j).byte m.blocks x
  low : ∀ b, b < nmeta → m'.blocks b = m.blocks b
  freeblock : m'.freeblock + blocksOf off = m.freeblock + blocksOf (off + bytes.length)
  freeinode : m'.freeinode = m.freeinode

theorem Appends.refl (h : Drawn m J) (hup : Upto m.blocks (J i) off) :
    Appends i off [] m J m J where
  drawn := h
  others := fun _ _ => rfl
  fields := rfl
  slot := fun _ _ _ => rfl
  upto := hup
  byte := fun j x => by simp
  low := fun _ _ => rfl
  freeblock := rfl
  freeinode := rfl

theorem Appends.trans {a b : List UInt8} (h : Appends i off a m J m' J')
    (h' : Appends i (off + a.length) b m' J' m'' J'') : Appends i off (a ++ b) m J m'' J'' where
  drawn := h'.drawn
  others := fun j hj => (h'.others j hj).trans (h.others j hj)
  fields := by rw [h'.fields, h.fields]
  slot := fun j hj t => by
    have hnext := h'.slot j hj t
    rw [h.others j hj] at hnext
    exact hnext.trans (h.slot j hj t)
  upto := by
    rw [List.length_append, ← Nat.add_assoc]
    exact h'.upto
  byte := fun j x => by
    rw [h'.byte, h.byte]
    exact overwritten_append off x a b _
  low := fun c hc => (h'.low c hc).trans (h.low c hc)
  freeblock := by
    have h1 := h.freeblock
    have h2 := h'.freeblock
    rw [List.length_append, ← Nat.add_assoc]
    omega
  freeinode := h'.freeinode.trans h.freeinode

/-- One block of the loop, once it is there. -/
theorem Takes.store {bytes : List UInt8} (h : Takes (Touches (off / 1024)) n i m J m' J')
    (hup : Upto m.blocks (J i) off) (hbytes : bytes ≠ []) (hlen : bytes.length ≤ 1024 - off % 1024)
    (hoff : off < 268 * 1024) (hn : blocksOf off + n = blocksOf (off + bytes.length)) :
    Appends i off bytes m J (wsect m' ((J' i).block m'.blocks (off / 1024))
      (Block.write (m'.blocks ((J' i).block m'.blocks (off / 1024))) (off % 1024) bytes)) J' := by
  have hpos := List.length_pos_of_ne_nil hbytes
  have hup' := h.upto hup (show off < off + bytes.length by omega) (by omega)
  have hb : (J' i).block m'.blocks (off / 1024) ≠ 0 := (hup'.block _ (by omega)).mpr (by omega)
  obtain ⟨s, hs⟩ := dataSlot_some (block_lt hb)
  have hmem : nmeta ≤ (J' i).block m'.blocks (off / 1024) ∧
      (J' i).block m'.blocks (off / 1024) < m'.freeblock := by
    rw [block_eq hs] at hb ⊢
    exact h.drawn.owned.mem hb
  have hroom := h.drawn.room
  obtain ⟨hslot, hbyte⟩ := h.drawn.owned.store_chunk hb hlen rfl
  refine ⟨⟨?_, h.drawn.owned.of_slot hslot, fun b hfresh => ?_, h.drawn.start, hroom⟩,
    h.others, h.fields, fun j hj t => ?_, ⟨fun bn hbn => ?_, hup'.ind⟩, fun j x => ?_,
    fun b hb => ?_, ?_, h.freeinode⟩
  · have hsect := h.drawn.nsect
    show max m'.nsect _ = fsSize
    omega
  · have hfresh : m'.freeblock ≤ b := hfresh
    exact (Function.update_of_ne (by omega) _ _).trans (h.drawn.fresh b hfresh)
  · have hsame := hslot j t
    rw [h.others j hj] at hsame
    refine hsame.trans ?_
    by_cases ht : (J j).slot m.blocks t = 0
    · rw [ht]
      by_contra hno
      have hiff := h.slot j t
      rw [h.others j hj] at hiff
      exact (hiff.mp hno).elim (fun ho => ho ht) fun ho => hj ho.1
    · have hkept := h.kept j t ht
      rwa [h.others j hj] at hkept
  · obtain ⟨t, ht⟩ := dataSlot_some hbn
    have hold := hup'.block bn hbn
    rw [block_eq ht] at hold ⊢
    rw [← hold]
    exact not_congr (by rw [← hslot i t]; rfl)
  · rw [← h.byte]
    exact hbyte j x
  · exact (Function.update_of_ne (by omega) _ _).trans (h.low b hb)
  · show m'.freeblock + _ = _
    rw [h.freeblock]
    omega

/-- There is room for `n` bytes more at `off`: in the file, and in the image. -/
def Room (m : Image) (off n : Nat) : Prop :=
  off + n ≤ 268 * 1024 ∧ m.freeblock + blocksOf (off + n) ≤ fsSize + blocksOf off

theorem Room.nil (h : Drawn m J) (hoff : off ≤ 268 * 1024) : Room m off 0 :=
  ⟨hoff, Nat.add_le_add_right h.room _⟩

/-- Room for the first of the bytes. -/
theorem Room.first (h : Room m off (a + b)) : Room m off a := by
  have hmono : blocksOf (off + a) ≤ blocksOf (off + (a + b)) := blocksOf_mono (by omega)
  obtain ⟨hfile, himage⟩ := h
  exact ⟨by omega, by omega⟩

/-- Room for the others, once the first are written. -/
theorem room_add_iff (h : m'.freeblock + blocksOf off = m.freeblock + blocksOf (off + a)) :
    Room m off (a + b) ↔ Room m' (off + a) b := by
  unfold Room
  rw [Nat.add_assoc]
  exact and_congr_right fun _ => by omega

theorem iappendLoop_cons {fuel : Nat} {din' : Fs.Dinode} {x : Nat} (hp : p ≠ [])
    (hoff : off < 268 * 1024) (hn₁ : min p.length ((off / 1024 + 1) * 1024 - off) = n₁)
    (hcall : blockFor m din (off / 1024) = .ok (x, m', din')) :
    iappendLoop (fuel + 1) m din off p = (rsect m' x).bind fun buf =>
      iappendLoop fuel (wsect m' x (Block.write buf (off - off / 1024 * 1024) (p.take n₁))) din'
        (off + n₁) (p.drop n₁) := by
  subst hn₁
  rw [iappendLoop, if_neg hp, if_neg (by omega), hcall]
  rfl

/-- The bytes that go into the block of `off`. -/
theorem iappendLoop_step (fuel : Nat) (h : Drawn m J) (hup : Upto m.blocks (J i) off) (hp : p ≠ [])
    (hoff : off < 268 * 1024) (hn₁ : min p.length ((off / 1024 + 1) * 1024 - off) = n₁)
    (hroom : m.freeblock + blocksOf (off + n₁) ≤ fsSize + blocksOf off) :
    ∃ m' din, iappendLoop (fuel + 1) m (J i) off p =
      iappendLoop fuel m' din (off + n₁) (p.drop n₁) ∧
      Appends i off (p.take n₁) m J m' (Function.update J i din) := by
  have hpos := List.length_pos_of_ne_nil hp
  have htake : (p.take n₁).length = n₁ := by
    rw [List.length_take]
    omega
  have hofs : off - off / 1024 * 1024 = off % 1024 := by omega
  obtain ⟨x, m₁, din, n, hcall, hx, hn, htakes⟩ := blockFor_spec h hup hoff
    (show off < off + n₁ by omega) (by omega) hroom
  have hself : Function.update J i din i = din := Function.update_self ..
  have happ :=
    htakes.store hup (show p.take n₁ ≠ [] from List.ne_nil_of_length_pos (by omega)) (by omega) hoff
      (by rw [htake]; exact hn)
  have hup₁ := htakes.upto hup (show off < off + n₁ by omega) (by omega)
  have hb := (hup₁.block (off / 1024) (by omega)).mpr (by omega)
  rw [hself, hx] at happ hb
  have hread : rsect m₁ x = .ok (m₁.blocks x) := by
    obtain ⟨s, hs⟩ := dataSlot_some (show off / 1024 < 268 by omega)
    have hslot : (Function.update J i din i).slot m₁.blocks s = x := by
      rw [hself, ← block_eq hs, hx]
    rw [← hslot] at hb ⊢
    exact htakes.drawn.rsect_slot hb
  refine ⟨_, din, ?_, happ⟩
  rw [iappendLoop_cons hp hoff hn₁ hcall, hread]
  simp only [Except.bind, hofs]

theorem iappendLoop_stuck (fuel : Nat) (h : Drawn m J) (hup : Upto m.blocks (J i) off) (hp : p ≠ [])
    (hoff : off < 268 * 1024) (hn₁ : min p.length ((off / 1024 + 1) * 1024 - off) = n₁)
    (hfull : fsSize + blocksOf off < m.freeblock + blocksOf (off + n₁)) :
    ∃ e, iappendLoop (fuel + 1) m (J i) off p = .error e := by
  have hpos := List.length_pos_of_ne_nil hp
  rcases blockFor_full h hup hoff (show off < off + n₁ by omega) (by omega) hfull with
    ⟨e, he⟩ | ⟨x, m₁, din, hcall, hx, hsect⟩
  · refine ⟨e, ?_⟩
    rw [iappendLoop, if_neg hp, if_neg (by omega), he]
    rfl
  · refine ⟨.die (ascii "read"), ?_⟩
    rw [iappendLoop_cons hp hoff hn₁ hcall, rsect, if_neg (by omega)]
    rfl

/-- **The loop of `iappend`** writes its bytes if there is room for them, and stops otherwise. -/
theorem iappendLoop_spec : ∀ (fuel : Nat) {m : Image} {J : Nat → Fs.Dinode} {off : Nat}
    {p : List UInt8}, p.length ≤ fuel → Drawn m J → Upto m.blocks (J i) off → off ≤ 268 * 1024 →
    (Room m off p.length ∧ ∃ m' din, iappendLoop fuel m (J i) off p =
      .ok (m', din, off + p.length) ∧ Appends i off p m J m' (Function.update J i din)) ∨
    ¬ Room m off p.length ∧ ∃ e, iappendLoop fuel m (J i) off p = .error e := by
  intro fuel
  have hnone : ∀ {m : Image} {J : Nat → Fs.Dinode} {off : Nat}, Drawn m J →
      Upto m.blocks (J i) off → Appends i off [] m J m (Function.update J i (J i)) := by
    intro m J off h hup
    rw [Function.update_eq_self]
    exact .refl h hup
  induction fuel with
  | zero =>
    intro m J off p hfuel h hup hoff
    obtain rfl := List.eq_nil_of_length_eq_zero (Nat.le_zero.mp hfuel)
    exact .inl ⟨.nil h hoff, m, J i, rfl, hnone h hup⟩
  | succ fuel ih =>
    intro m J off p hfuel h hup hoff
    by_cases hp : p = []
    · subst hp
      exact .inl ⟨.nil h hoff, m, J i, rfl, hnone h hup⟩
    have hpos := List.length_pos_of_ne_nil hp
    by_cases hend : off = 268 * 1024
    · -- the assertion on `fbn`
      refine .inr ⟨fun hroom => ?_, .assertion, ?_⟩
      · have := hroom.1
        omega
      · rw [iappendLoop, if_neg hp, if_pos (by omega)]
    obtain ⟨n₁, hn₁⟩ : ∃ n₁, min p.length ((off / 1024 + 1) * 1024 - off) = n₁ := ⟨_, rfl⟩
    have htake : (p.take n₁).length = n₁ := by
      rw [List.length_take]
      omega
    have hdrop : (p.drop n₁).length = p.length - n₁ := List.length_drop
    have hsum : off + n₁ + (p.length - n₁) = off + p.length := by omega
    have hlen : n₁ + (p.length - n₁) = p.length := by omega
    by_cases hroom : m.freeblock + blocksOf (off + n₁) ≤ fsSize + blocksOf off
    · obtain ⟨m₁, din, hstep, happ⟩ := iappendLoop_step fuel h hup hp (by omega) hn₁ hroom
      have heq := happ.freeblock
      -- what is left goes on from the new end
      have hrest := ih (p := p.drop n₁) (by omega) happ.drawn happ.upto (by omega)
      rw [htake] at heq
      rw [htake, Function.update_self, hdrop, hsum, ← room_add_iff heq, hlen, ← hstep] at hrest
      rcases hrest with ⟨hfits, m', din', hloop, happ'⟩ | hfails
      · have hall := happ.trans (b := p.drop n₁) (by rw [htake]; exact happ')
        rw [List.take_append_drop, Function.update_idem] at hall
        exact .inl ⟨hfits, m', din', hloop, hall⟩
      · exact .inr hfails
    · refine .inr ⟨fun hfits => ?_, iappendLoop_stuck fuel h hup hp (by omega) hn₁ (by omega)⟩
      rw [← hlen] at hfits
      exact hroom hfits.first.2

end

end Xv6Paging.Mkfs
