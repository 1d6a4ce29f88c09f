import Xv6Paging.Kernel.Itable
import Xv6Paging.Proof.InodeOps

/-!
# The inode table and the disk

An inode is in two places once it is in hand: the copy in the table, which the kernel works on, and
the inode on the disk, which can lack blocks the copy has. `Inv s I` says that `I` is the family of
inodes that counts, the copy where there is one and the inode on the disk elsewhere, and that the
file system is sound for it. Each operation is shown to keep this for a new family.
-/

namespace Xv6Paging.Itable

open Lib

variable {i n off : Nat} {d d' : Fs.Disk} {I' : Nat → Fs.Dinode} {T : Fs.Slot → Prop}
  {ip : Fs.Dinode} {bytes : List UInt8}

/-! ## Programs -/

theorem bind_ok {α β : Type} {s s' : FsState} {m : FsM α} {f : α → FsM β} {r : α}
    (h : m s = .ok (r, s')) : (m >>= f) s = f r s' := by
  show (m s >>= _) = _
  rw [h]
  rfl

theorem bind_error {α β : Type} {s : FsState} {m : FsM α} {f : α → FsM β} {e : Panic}
    (h : m s = .error e) : (m >>= f) s = .error e := by
  show (m s >>= _) = _
  rw [h]
  rfl

/-! ## Copies and inodes -/

/-- The inode on the disk is the copy, but for blocks it does not have yet. -/
structure Behind (dip ip : Fs.Dinode) : Prop where
  fields : dip = { ip with addrs := dip.addrs }
  addrs : ∀ a, dip.addrs a = 0 ∨ dip.addrs a = ip.addrs a

theorem Behind.refl (ip : Fs.Dinode) : Behind ip ip := ⟨rfl, fun _ => .inr rfl⟩

theorem Behind.slot {dip : Fs.Dinode} (h : Behind dip ip) (data : Blocks) (t : Fs.Slot) :
    dip.slot data t = 0 ∨ dip.slot data t = ip.slot data t := by
  cases t with
  | direct c => exact h.addrs c.castSucc
  | indirect => exact h.addrs (Fin.last 12)
  | entry j =>
    simp only [Fs.Dinode.slot]
    rcases h.addrs (Fin.last 12) with hzero | heq
    · exact .inl (if_pos hzero)
    · right
      show (if dip.addrs (Fin.last 12) = 0 then 0 else word (data (dip.addrs (Fin.last 12))) j) = _
      rw [heq]

/-- The inode as the kernel has it. -/
def FsState.inode (s : FsState) (i : Nat) : Fs.Dinode :=
  match Fin.find? fun p => decide (s.inHand p) && (s.itable p).inum == i with
  | some p => (s.itable p).copy
  | none => s.disk.inodes i

/-- `I` are the inodes of this state, and the file system is sound for them. -/
structure Inv (s : FsState) (I : Nat → Fs.Dinode) : Prop where
  sound : Fs.Sound s.disk I
  fits : ∀ i, (I i).Fits
  size : ∀ i, (I i).size ≤ 268 * 1024
  unique : ∀ p q, 0 < (s.itable p).ref → 0 < (s.itable q).ref →
    (s.itable p).inum = (s.itable q).inum → p = q
  inum : ∀ p, 0 < (s.itable p).ref → (s.itable p).inum < s.disk.sb.ninodes
  copy : ∀ p, s.inHand p → I (s.itable p).inum = (s.itable p).copy
  disk : ∀ i, (∀ p, s.inHand p → (s.itable p).inum ≠ i) → I i = s.disk.inodes i
  behind : ∀ p, s.inHand p → Behind (s.disk.dinode (s.itable p).inum) (s.itable p).copy
  type : ∀ p, s.inHand p → (s.itable p).copy.type ≠ 0

section

variable {s : FsState} {I : Nat → Fs.Dinode} {p : InodePtr}

theorem inode_cases (s : FsState) (i : Nat) :
    (∃ p, s.inHand p ∧ (s.itable p).inum = i ∧ s.inode i = (s.itable p).copy) ∨
      (∀ p, s.inHand p → (s.itable p).inum ≠ i) ∧ s.inode i = s.disk.inodes i := by
  unfold FsState.inode
  cases hfind : Fin.find? fun p => decide (s.inHand p) && (s.itable p).inum == i with
  | some p =>
    have hp := (Fin.find?_eq_some_iff.mp hfind).1
    rw [Bool.and_eq_true, decide_eq_true_eq, beq_iff_eq] at hp
    exact .inl ⟨p, hp.1, hp.2, rfl⟩
  | none =>
    refine .inr ⟨fun p hp hi => ?_, rfl⟩
    have hno := Fin.find?_eq_none_iff.mp hfind p
    rw [decide_eq_true hp, hi, beq_self_eq_true] at hno
    cases hno

theorem Inv.inode_eq (h : Inv s I) : s.inode = I := by
  funext i
  rcases inode_cases s i with ⟨p, hp, rfl, heq⟩ | ⟨hidle, heq⟩
  · exact heq.trans (h.copy p hp).symm
  · exact heq.trans (h.disk i hidle).symm

theorem inodes_of_lt (hi : i < d.sb.ninodes) : d.inodes i = d.dinode i := if_pos hi

/-- The inodes on the disk are those of the kernel, or lack some of their blocks. -/
theorem Inv.inodes_behind (h : Inv s I) (i : Nat) : Behind (s.disk.inodes i) (I i) := by
  by_cases hp : ∃ p, s.inHand p ∧ (s.itable p).inum = i
  · obtain ⟨p, hp, rfl⟩ := hp
    rw [h.copy p hp, inodes_of_lt (h.inum p hp.1)]
    exact h.behind p hp
  · rw [h.disk i fun p hin hi => hp ⟨p, hin, hi⟩]
    exact .refl _

theorem inodes_fits (d : Fs.Disk) (i : Nat) : (d.inodes i).Fits := by
  unfold Fs.Disk.inodes
  split
  · exact Fs.getDinode_fits _ _
  · exact ⟨by decide, by decide, by decide, by decide, by decide, fun _ => Nat.two_pow_pos 32⟩

/-- With no inode in memory, those on the disk count. -/
theorem Inv.of_idle (hsound : Fs.Sound s.disk s.disk.inodes)
    (hsize : ∀ i, (s.disk.inodes i).size ≤ 268 * 1024) (href : ∀ p, (s.itable p).ref = 0) :
    Inv s s.disk.inodes := by
  have hidle : ∀ p, ¬ 0 < (s.itable p).ref := fun p hp => absurd hp (by rw [href p]; decide)
  exact ⟨hsound, inodes_fits s.disk, hsize, fun p _ hp => absurd hp (hidle p),
    fun p hp => absurd hp (hidle p), fun p hp => absurd hp.1 (hidle p), fun _ _ => rfl,
    fun p hp => absurd hp.1 (hidle p), fun p hp => absurd hp.1 (hidle p)⟩

theorem addrs_lt (h : Fs.Sound d I) (i : Nat) (a : Fin 13) : (I i).addrs a < 2 ^ 32 := by
  have hslot : ∀ t, (I i).slot d.data t < 2 ^ 32 := by
    intro t
    by_cases hzero : (I i).slot d.data t = 0
    · rw [hzero]
      decide
    · exact Nat.lt_of_lt_of_le (h.isData hzero).2 h.laid.size
  cases a using Fin.lastCases with
  | last => exact hslot .indirect
  | cast c => exact hslot (.direct c)

/-! ## A change to one inode in hand -/

section

variable (s p) (c : Fs.Dinode) (d : Fs.Disk) (q : InodePtr)

@[simp] theorem put_disk : (s.put p c d).disk = d := rfl

@[simp] theorem put_ref : ((s.put p c d).itable q).ref = (s.itable q).ref := by
  show (Function.update s.itable p _ q).ref = _
  by_cases h : q = p
  · rw [h, Function.update_self]
  · rw [Function.update_of_ne h]

@[simp] theorem put_inum : ((s.put p c d).itable q).inum = (s.itable q).inum := by
  show (Function.update s.itable p _ q).inum = _
  by_cases h : q = p
  · rw [h, Function.update_self]
  · rw [Function.update_of_ne h]

@[simp] theorem put_valid : ((s.put p c d).itable q).valid = (s.itable q).valid := by
  show (Function.update s.itable p _ q).valid = _
  by_cases h : q = p
  · rw [h, Function.update_self]
  · rw [Function.update_of_ne h]

@[simp] theorem put_inHand : (s.put p c d).inHand q ↔ s.inHand q := by
  unfold FsState.inHand
  rw [put_ref, put_valid]

theorem put_copy : ((s.put p c d).itable q).copy = if q = p then c else (s.itable q).copy := by
  show (Function.update s.itable p _ q).copy = _
  split
  · rename_i h
    rw [h, Function.update_self]
  · rename_i h
    rw [Function.update_of_ne h]

end

/-- The copy and the disk change for the one inode. -/
theorem Inv.put (h : Inv s I) (hp : s.inHand p) (hsb : d'.sb = s.disk.sb) (hsound : Fs.Sound d' I')
    (hself : I' (s.itable p).inum = ip) (hothers : ∀ j, j ≠ (s.itable p).inum → I' j = I j)
    (hdinode : ∀ j, j < s.disk.sb.ninodes → j ≠ (s.itable p).inum → d'.dinode j = s.disk.dinode j)
    (hfits : ip.Fits) (hsize : ip.size ≤ 268 * 1024)
    (hbehind : Behind (d'.dinode (s.itable p).inum) ip) (htype : ip.type ≠ 0) :
    Inv (s.put p ip d') I' := by
  have hother : ∀ q, s.inHand q → q ≠ p → (s.itable q).inum ≠ (s.itable p).inum :=
    fun q hq hne heq => hne (h.unique q p hq.1 hp.1 heq)
  refine ⟨hsound, fun i => ?_, fun i => ?_, fun q r => ?_, fun q => ?_, fun q hq => ?_,
    fun i hi => ?_, fun q hq => ?_, fun q hq => ?_⟩
  · by_cases hi : i = (s.itable p).inum
    · rw [hi, hself]
      exact hfits
    · rw [hothers i hi]
      exact h.fits i
  · by_cases hi : i = (s.itable p).inum
    · rw [hi, hself]
      exact hsize
    · rw [hothers i hi]
      exact h.size i
  · rw [put_ref, put_ref, put_inum, put_inum]
    exact h.unique q r
  · rw [put_ref, put_inum, put_disk, hsb]
    exact h.inum q
  · rw [put_inHand] at hq
    rw [put_inum, put_copy]
    split
    · rename_i heq
      rw [heq, hself]
    · rename_i hne
      rw [hothers _ (hother q hq hne), h.copy q hq]
  · have hne : i ≠ (s.itable p).inum := by
      have := hi p ((put_inHand ..).mpr hp)
      rw [put_inum] at this
      exact this.symm
    have hold := h.disk i fun q hq => by
      have := hi q ((put_inHand ..).mpr hq)
      rwa [put_inum] at this
    rw [hothers i hne, hold, put_disk, Fs.Disk.inodes, Fs.Disk.inodes, hsb]
    split
    · rename_i hlt
      rw [hdinode i hlt hne]
    · rfl
  · rw [put_inHand] at hq
    rw [put_inum, put_copy, put_disk]
    split
    · rename_i heq
      rw [heq]
      exact hbehind
    · rename_i hne
      rw [hdinode _ (h.inum q hq.1) (hother q hq hne)]
      exact h.behind q hq
  · rw [put_inHand] at hq
    rw [put_copy]
    split
    · exact htype
    · exact h.type q hq

/-- The inode is written to the disk as well. -/
theorem Inv.put_iupdate (h : Inv s I) (hp : s.inHand p) (hsb : d'.sb = s.disk.sb)
    (hsound : Fs.Sound d' I')
    (hslot : ∀ t, ip.slot d'.data t = 0 ∨ ip.slot d'.data t = (I' (s.itable p).inum).slot d'.data t)
    (hothers : ∀ j, j ≠ (s.itable p).inum → I' j = I j)
    (hdinode : ∀ j, j < s.disk.sb.ninodes → j ≠ (s.itable p).inum → d'.dinode j = s.disk.dinode j)
    (hfits : ip.Fits) (hsize : ip.size ≤ 268 * 1024) (htype : ip.type ≠ 0) :
    Inv (s.put p ip (Fs.iupdate d' (s.itable p).inum ip))
      (Function.update I' (s.itable p).inum ip) := by
  have hi : (s.itable p).inum < d'.sb.ninodes := hsb ▸ h.inum p hp.1
  refine h.put hp hsb (hsound.iupdate ip hi hslot) (Function.update_self ..) (fun j hj => ?_)
    (fun j hlt hj => ?_) hfits hsize ?_ htype
  · rw [Function.update_of_ne hj, hothers j hj]
  · rw [Fs.dinode_iupdate_ne d' hj, hdinode j hlt hj]
  · rw [Fs.dinode_iupdate_self d' _ hfits]
    exact .refl ip

end

/-! ## References -/

section

variable {s : FsState} {I : Nat → Fs.Dinode} {p : InodePtr}

theorem set_self (e : MemInode) : (s.set p e).itable p = e := Function.update_self ..

theorem set_ne (e : MemInode) {q : InodePtr} (h : q ≠ p) : (s.set p e).itable q = s.itable q :=
  Function.update_of_ne h ..

theorem set_inHand_ne (e : MemInode) {q : InodePtr} (h : q ≠ p) :
    (s.set p e).inHand q ↔ s.inHand q := by
  unfold FsState.inHand
  rw [set_ne e h]

theorem set_inHand_self (e : MemInode) : (s.set p e).inHand p ↔ 0 < e.ref ∧ e.valid = true := by
  unfold FsState.inHand
  rw [set_self]

/-- The number of references of an entry changes, between two positive ones. -/
theorem Inv.set_ref (h : Inv s I) (hp : 0 < (s.itable p).ref) (hn : 0 < n) :
    Inv (s.set p { s.itable p with ref := n }) I := by
  have hinum : ∀ q, ((s.set p { s.itable p with ref := n }).itable q).inum = (s.itable q).inum := by
    intro q
    by_cases hq : q = p
    · rw [hq, set_self]
    · rw [set_ne _ hq]
  have hcopy : ∀ q, ((s.set p { s.itable p with ref := n }).itable q).copy = (s.itable q).copy := by
    intro q
    by_cases hq : q = p
    · rw [hq, set_self]
    · rw [set_ne _ hq]
  have href : ∀ q, 0 < ((s.set p { s.itable p with ref := n }).itable q).ref ↔
      0 < (s.itable q).ref := by
    intro q
    by_cases hq : q = p
    · rw [hq, set_self]
      exact iff_of_true hn hp
    · rw [set_ne _ hq]
  have hhand : ∀ q, (s.set p { s.itable p with ref := n }).inHand q ↔ s.inHand q := by
    intro q
    by_cases hq : q = p
    · rw [hq, set_inHand_self]
      exact and_congr_left' (iff_of_true hn hp)
    · rw [set_inHand_ne _ hq]
  refine ⟨h.sound, h.fits, h.size, fun q r => ?_, fun q => ?_, fun q => ?_, fun i hi => ?_,
    fun q => ?_, fun q => ?_⟩
  · rw [href, href, hinum, hinum]
    exact h.unique q r
  · rw [href, hinum]
    exact h.inum q
  · rw [hhand, hinum, hcopy]
    exact h.copy q
  · refine h.disk i fun q hq => ?_
    rw [← hinum q]
    exact hi q ((hhand q).mpr hq)
  · rw [hhand, hinum, hcopy]
    exact h.behind q
  · rw [hhand, hcopy]
    exact h.type q

/-- An entry that is not in hand, and will not be, stands for another inode or for none. -/
theorem Inv.set_idle (h : Inv s I) (hp : ¬ s.inHand p) {e : MemInode}
    (he : ¬ (0 < e.ref ∧ e.valid = true)) (hinum : 0 < e.ref → e.inum < s.disk.sb.ninodes)
    (hnew : 0 < e.ref → ∀ q, q ≠ p → 0 < (s.itable q).ref → (s.itable q).inum ≠ e.inum) :
    Inv (s.set p e) I := by
  have hne : ∀ q, (s.set p e).inHand q → q ≠ p :=
    fun q hq heq => he ((set_inHand_self e).mp (heq ▸ hq))
  refine ⟨h.sound, h.fits, h.size, fun q r hq hr heq => ?_, fun q hq => ?_, fun q hq => ?_,
    fun i hi => ?_, fun q hq => ?_, fun q hq => ?_⟩
  · by_cases hqp : q = p
    · by_cases hrp : r = p
      · rw [hqp, hrp]
      · rw [hqp, set_self] at hq heq
        rw [set_ne e hrp] at hr heq
        exact absurd heq.symm (hnew hq r hrp hr)
    · rw [set_ne e hqp] at hq heq
      by_cases hrp : r = p
      · rw [hrp, set_self] at hr heq
        exact absurd heq (hnew hr q hqp hq)
      · rw [set_ne e hrp] at hr heq
        exact h.unique q r hq hr heq
  · by_cases hqp : q = p
    · rw [hqp, set_self] at hq ⊢
      exact hinum hq
    · rw [set_ne e hqp] at hq ⊢
      exact h.inum q hq
  · rw [set_ne e (hne q hq)]
    exact h.copy q ((set_inHand_ne e (hne q hq)).mp hq)
  · refine h.disk i fun q hq => ?_
    have hqp : q ≠ p := fun heq => hp (heq ▸ hq)
    rw [← set_ne e hqp]
    exact hi q ((set_inHand_ne e hqp).mpr hq)
  · rw [set_ne e (hne q hq)]
    exact h.behind q ((set_inHand_ne e (hne q hq)).mp hq)
  · rw [set_ne e (hne q hq)]
    exact h.type q ((set_inHand_ne e (hne q hq)).mp hq)

/-- The last reference to an entry goes, and the inode on the disk counts again. -/
theorem Inv.drop (h : Inv s I) (hp : 0 < (s.itable p).ref) {e : MemInode} (he : e.ref = 0) :
    Inv (s.set p e) (Function.update I (s.itable p).inum (s.disk.inodes (s.itable p).inum)) := by
  have hbehind := h.inodes_behind (s.itable p).inum
  have hfields : (s.disk.inodes (s.itable p).inum).size = (I (s.itable p).inum).size := by
    rw [hbehind.fields]
  have hne : ∀ q, (s.set p e).inHand q → q ≠ p := by
    intro q hq heq
    have := ((set_inHand_self e).mp (heq ▸ hq)).1
    omega
  have hother : ∀ q, s.inHand q → q ≠ p → (s.itable q).inum ≠ (s.itable p).inum :=
    fun q hq hqp heq => hqp (h.unique q p hq.1 hp heq)
  refine ⟨⟨h.sound.laid, Lib.Owns.drop h.sound.owned fun a => ?_, h.sound.used⟩, fun i => ?_,
    fun i => ?_, fun q r hq hr heq => ?_, fun q hq => ?_, fun q hq => ?_, fun i hi => ?_,
    fun q hq => ?_, fun q hq => ?_⟩
  · by_cases ha : a.1 = (s.itable p).inum
    · rw [ha, Function.update_self]
      exact hbehind.slot s.disk.data a.2
    · rw [Function.update_of_ne ha]
      exact .inr rfl
  · by_cases hi : i = (s.itable p).inum
    · rw [hi, Function.update_self, inodes_of_lt (h.inum p hp)]
      exact Fs.getDinode_fits _ _
    · rw [Function.update_of_ne hi]
      exact h.fits i
  · by_cases hi : i = (s.itable p).inum
    · rw [hi, Function.update_self, hfields]
      exact h.size _
    · rw [Function.update_of_ne hi]
      exact h.size i
  · have hqp : q ≠ p := by
      intro heq
      rw [heq, set_self, he] at hq
      exact absurd hq (by decide)
    have hrp : r ≠ p := by
      intro heq
      rw [heq, set_self, he] at hr
      exact absurd hr (by decide)
    rw [set_ne e hqp] at hq heq
    rw [set_ne e hrp] at hr heq
    exact h.unique q r hq hr heq
  · by_cases hqp : q = p
    · rw [hqp, set_self, he] at hq
      exact absurd hq (by decide)
    · rw [set_ne e hqp] at hq ⊢
      exact h.inum q hq
  · have hq' := (set_inHand_ne e (hne q hq)).mp hq
    rw [set_ne e (hne q hq), Function.update_of_ne (hother q hq' (hne q hq))]
    exact h.copy q hq'
  · by_cases hip : i = (s.itable p).inum
    · rw [hip, Function.update_self]
      rfl
    · rw [Function.update_of_ne hip]
      refine h.disk i fun q hq => ?_
      by_cases hqp : q = p
      · rw [hqp]
        exact fun heq => hip heq.symm
      · rw [← set_ne e hqp]
        exact hi q ((set_inHand_ne e hqp).mpr hq)
  · rw [set_ne e (hne q hq)]
    exact h.behind q ((set_inHand_ne e (hne q hq)).mp hq)
  · rw [set_ne e (hne q hq)]
    exact h.type q ((set_inHand_ne e (hne q hq)).mp hq)

theorem iget_cases (s : FsState) (inum : Nat) :
    (∃ p, 0 < (s.itable p).ref ∧ (s.itable p).inum = inum ∧
      iget inum s = .ok (p, s.set p { s.itable p with ref := (s.itable p).ref + 1 })) ∨
    (∃ p, (s.itable p).ref = 0 ∧ (∀ q, 0 < (s.itable q).ref → (s.itable q).inum ≠ inum) ∧
      iget inum s = .ok (p, s.set p { s.itable p with inum := inum, ref := 1, valid := false })) ∨
    iget inum s = .error .igetNoInodes := by
  unfold iget
  cases hfind : Fin.find? fun ip => decide (0 < (s.itable ip).ref) &&
    (s.itable ip).inum == inum with
  | some p =>
    have hp := (Fin.find?_eq_some_iff.mp hfind).1
    rw [Bool.and_eq_true, decide_eq_true_eq, beq_iff_eq] at hp
    exact .inl ⟨p, hp.1, hp.2, rfl⟩
  | none =>
    have hnone : ∀ q, 0 < (s.itable q).ref → (s.itable q).inum ≠ inum := by
      intro q hq heq
      have hno := Fin.find?_eq_none_iff.mp hfind q
      rw [decide_eq_true hq, heq, beq_self_eq_true] at hno
      cases hno
    cases hfree : Fin.find? fun ip => (s.itable ip).ref == 0 with
    | some p =>
      have hp := (Fin.find?_eq_some_iff.mp hfree).1
      exact .inr (.inl ⟨p, beq_iff_eq.mp hp, hnone, rfl⟩)
    | none => exact .inr (.inr rfl)

/-- One reference more to an entry; the others are as they were. -/
structure Refers (p : InodePtr) (s s' : FsState) : Prop where
  disk : s'.disk = s.disk
  table : ∀ q, q ≠ p → s'.itable q = s.itable q
  ref : (s'.itable p).ref = (s.itable p).ref + 1
  old : 0 < (s.itable p).ref → (s'.itable p).inum = (s.itable p).inum ∧
    (s'.itable p).valid = (s.itable p).valid

/-- **`iget`**: the disk and the inodes are the same. -/
theorem iget_spec (h : Inv s I) {inum : Nat} (hinum : inum < s.disk.sb.ninodes) :
    (∃ p s', iget inum s = .ok (p, s') ∧ Inv s' I ∧ (s'.itable p).inum = inum ∧ Refers p s s') ∨
    iget inum s = .error .igetNoInodes := by
  rcases iget_cases s inum with ⟨p, href, heq, hcall⟩ | ⟨p, href, hnone, hcall⟩ | herr
  · refine .inl ⟨p, _, hcall, h.set_ref href (Nat.succ_pos _), ?_, rfl, fun q hq => set_ne _ hq, ?_,
      fun _ => ?_⟩
    · rw [set_self]
      exact heq
    · rw [set_self]
    · rw [set_self]
      exact ⟨rfl, rfl⟩
  · have hidle : ¬ s.inHand p := fun hp => absurd hp.1 (by omega)
    refine .inl ⟨p, _, hcall, h.set_idle hidle (fun he => Bool.false_ne_true he.2) (fun _ => hinum)
      (fun _ q _ hq => hnone q hq), ?_, rfl, fun q hq => set_ne _ hq, ?_, fun hpos => ?_⟩
    · rw [set_self]
    · rw [set_self, href]
    · exact absurd hpos (by omega)
  · exact .inr herr

/-- A copy is read from the disk. -/
theorem Inv.set_copy (h : Inv s I) (hp : 0 < (s.itable p).ref) (hvalid : (s.itable p).valid = false)
    (htype : (s.disk.dinode (s.itable p).inum).type ≠ 0) :
    Inv (s.set p { s.itable p with copy := s.disk.dinode (s.itable p).inum, valid := true }) I := by
  have hlt := h.inum p hp
  have hinum : ∀ q, ((s.set p { s.itable p with
      copy := s.disk.dinode (s.itable p).inum, valid := true }).itable q).inum =
        (s.itable q).inum := by
    intro q
    by_cases hq : q = p
    · rw [hq, set_self]
    · rw [set_ne _ hq]
  have href : ∀ q, ((s.set p { s.itable p with
      copy := s.disk.dinode (s.itable p).inum, valid := true }).itable q).ref =
        (s.itable q).ref := by
    intro q
    by_cases hq : q = p
    · rw [hq, set_self]
    · rw [set_ne _ hq]
  -- it was not in hand, so the inode on the disk counted already
  have hdisk : I (s.itable p).inum = s.disk.dinode (s.itable p).inum := by
    rw [← inodes_of_lt hlt]
    refine h.disk _ fun q hq heq => ?_
    rw [h.unique q p hq.1 hp heq] at hq
    exact Bool.false_ne_true (hvalid.symm.trans hq.2)
  refine ⟨h.sound, h.fits, h.size, fun q r => ?_, fun q => ?_, fun q hq => ?_, fun i hi => ?_,
    fun q hq => ?_, fun q hq => ?_⟩
  · rw [href, href, hinum, hinum]
    exact h.unique q r
  · rw [href, hinum]
    exact h.inum q
  · by_cases hqp : q = p
    · rw [hqp, set_self]
      exact hdisk
    · rw [set_ne _ hqp]
      exact h.copy q ((set_inHand_ne _ hqp).mp hq)
  · refine h.disk i fun q hq => ?_
    rw [← hinum q]
    refine hi q ?_
    by_cases hqp : q = p
    · rw [hqp, set_inHand_self]
      exact ⟨hp, rfl⟩
    · exact (set_inHand_ne _ hqp).mpr hq
  · by_cases hqp : q = p
    · rw [hqp, set_self]
      exact .refl _
    · rw [set_ne _ hqp]
      exact h.behind q ((set_inHand_ne _ hqp).mp hq)
  · by_cases hqp : q = p
    · rw [hqp, set_self]
      exact htype
    · rw [set_ne _ hqp]
      exact h.type q ((set_inHand_ne _ hqp).mp hq)

theorem ilock_spec (h : Inv s I) (hp : 0 < (s.itable p).ref) :
    (∃ s', ilock p s = .ok ((), s') ∧ Inv s' I ∧ s'.disk = s.disk ∧ s'.inHand p ∧
      ∀ q, (s'.itable q).inum = (s.itable q).inum ∧ (s'.itable q).ref = (s.itable q).ref ∧
        ((s.itable q).valid = true → (s'.itable q).valid = true)) ∨
    ilock p s = .error (.fs .ilockNoType) := by
  have href : ¬ (s.itable p).ref < 1 := by omega
  cases hvalid : (s.itable p).valid with
  | true =>
    refine .inl ⟨s, ?_, h, rfl, ⟨hp, hvalid⟩, fun _ => ⟨rfl, rfl, id⟩⟩
    rw [ilock, if_neg href, if_pos hvalid]
  | false =>
    by_cases htype : (s.disk.dinode (s.itable p).inum).type = 0
    · right
      simp only [ilock, if_neg href, hvalid, Fs.ilock, if_pos htype]
      rfl
    · refine .inl ⟨_, ?_, h.set_copy hp hvalid htype, rfl, ?_, fun q => ?_⟩
      · simp only [ilock, if_neg href, hvalid, Fs.ilock, if_neg htype]
        rfl
      · rw [set_inHand_self]
        exact ⟨hp, rfl⟩
      · by_cases hq : q = p
        · rw [hq, set_self]
          exact ⟨rfl, rfl, fun _ => rfl⟩
        · rw [set_ne _ hq]
          exact ⟨rfl, rfl, id⟩

/-! ## Contents -/

/-- What the slots of all inodes hold. -/
def slots (d : Fs.Disk) (I : Nat → Fs.Dinode) (a : Nat × Fs.Slot) : Nat := (I a.1).slot d.data a.2

theorem Inv.fresh {s' : FsState} (h : Inv s' I')
    (hkept : ∀ j t, (I j).slot s.disk.data t ≠ 0 → (I' j).slot s'.disk.data t =
      (I j).slot s.disk.data t) :
    Fresh (slots s.disk I) (slots s'.disk I') :=
  Lib.Owns.fresh h.sound.owned fun a => hkept a.1 a.2

theorem stores_addrs (hst : Fs.Stores T i off bytes d I d' I') {a : Fin 13}
    (ha : (I i).addrs a ≠ 0) : (I' i).addrs a = (I i).addrs a := by
  cases a using Fin.lastCases with
  | last => exact hst.kept i .indirect ha
  | cast c => exact hst.kept i (.direct c) ha

/-- Blocks were added to an inode in hand. -/
theorem Inv.put_stores (h : Inv s I) (hp : s.inHand p)
    (hst : Fs.Stores T (s.itable p).inum off bytes s.disk I d' I') :
    Inv (s.put p (I' (s.itable p).inum) d') I' := by
  have hlt := h.inum p hp.1
  have hfields := hst.fields
  have hfits := h.fits (s.itable p).inum
  have hbehind := h.behind p hp
  rw [← h.copy p hp] at hbehind
  refine h.put hp hst.sb hst.sound rfl hst.others (fun j hj _ => hst.dinode h.sound.laid hj)
    ?_ ?_ ?_ ?_
  · rw [hfields]
    exact ⟨hfits.type, hfits.major, hfits.minor, hfits.nlink, hfits.size, addrs_lt hst.sound _⟩
  · rw [hfields]
    exact h.size _
  · rw [hst.dinode h.sound.laid hlt]
    refine ⟨hbehind.fields.trans (by rw [hfields]), fun a => ?_⟩
    rcases hbehind.addrs a with hzero | heq
    · exact .inl hzero
    · by_cases hzero : (I (s.itable p).inum).addrs a = 0
      · exact .inl (heq.trans hzero)
      · exact .inr (heq.trans (stores_addrs hst hzero).symm)
  · rw [hfields, h.copy p hp]
    exact h.type p hp

theorem readi_inv (h : Inv s I) (hp : s.inHand p) (off : Nat) (hn : n < 2 ^ 32)
    (hT : ∀ x, off ≤ x → x < off + (I (s.itable p).inum).readable off n →
      ∀ t, Fs.Touches (x / 1024) t → T t) :
    ∃ k d' I', readi p off n s = .ok ((I (s.itable p).inum).bytes s.disk.data off k,
        s.put p (I' (s.itable p).inum) d') ∧
      Inv (s.put p (I' (s.itable p).inum) d') I' ∧
        Fs.Stores T (s.itable p).inum off [] s.disk I d' I' := by
  obtain ⟨k, d', I', hcall, -, hst⟩ := Fs.readi_spec (T := T) h.sound (h.size _) hn hT
  refine ⟨k, d', I', ?_, h.put_stores hp hst, hst⟩
  rw [readi, ← h.copy p hp, hcall]

/-- Bytes were stored, and the inode written with its new size. -/
theorem Inv.put_closed (h : Inv s I) (hp : s.inHand p) {z : Nat} {d₀ : Fs.Disk}
    {I₀ : Nat → Fs.Dinode} (hst : Fs.Stores T (s.itable p).inum off bytes s.disk I d₀ I₀)
    (hip : ip = { I₀ (s.itable p).inum with size := z }) (hz : z ≤ 268 * 1024) :
    Inv (s.put p ip (Fs.iupdate d₀ (s.itable p).inum ip))
      (Function.update I₀ (s.itable p).inum ip) := by
  have hfields := hst.fields
  have hfits := h.fits (s.itable p).inum
  have haddrs : ip.addrs = (I₀ (s.itable p).inum).addrs := by rw [hip]
  refine h.put_iupdate hp hst.sb hst.sound (fun t => .inr (Fs.slot_of_addrs haddrs _ t)) hst.others
    (fun j hj _ => hst.dinode h.sound.laid hj) ?_ ?_ ?_
  · rw [hip, hfields]
    exact ⟨hfits.type, hfits.major, hfits.minor, hfits.nlink, by dsimp only; omega,
      addrs_lt hst.sound _⟩
  · rw [hip]
    exact hz
  · rw [hip, hfields, h.copy p hp]
    exact h.type p hp

/-- `writei`, which does nothing or stores bytes and writes the inode. -/
theorem writei_inv (h : Inv s I) (hp : s.inHand p) (off : Nat) (hn : n < 2 ^ 32) (src : Source n)
    (gone : Bool) (hT : ∀ x, off ≤ x → x < off + n → ∀ t, Fs.Touches (x / 1024) t → T t) :
    writei p off src gone s = .ok (none, s) ∨
    ∃ tot d₀ I₀ bytes t ip, writei p off src gone s =
        .ok (some tot, s.put p ip (Fs.iupdate d₀ (s.itable p).inum ip)) ∧
      Inv (s.put p ip (Fs.iupdate d₀ (s.itable p).inum ip))
        (Function.update I₀ (s.itable p).inum ip) ∧
      Fs.Stores T (s.itable p).inum off bytes s.disk I d₀ I₀ ∧ off ≤ (I (s.itable p).inum).size ∧
      t ≤ bytes.length ∧
      ip = { I₀ (s.itable p).inum with size := max (I₀ (s.itable p).inum).size (off + t) } := by
  by_cases hin : off ≤ (I (s.itable p).inum).size ∧ off + n ≤ 268 * 1024
  · have hlaw : Fs.Lawful src.copyin 0 n := fun _ a m _ hm => src.lawful a m (by omega)
    obtain ⟨w, hcall, hclose⟩ :=
      Fs.writei_closes (T := T) () h.sound (h.inum p hp.1) hin.1 hin.2 hlaw hT
    obtain ⟨d₀, I₀, bytes, t, hst, htb, ht, hip, hdisk⟩ := hclose gone
    have hsize : max (I₀ (s.itable p).inum).size (off + t) ≤ 268 * 1024 := by
      have := h.size (s.itable p).inum
      rw [hst.fields]
      dsimp only
      omega
    refine .inr ⟨w.tot, d₀, I₀, bytes, t, w.ip, ?_, h.put_closed hp hst hip hsize, hst,
      hin.1, htb, hip⟩
    simp only [writei, ← h.copy p hp, hcall, hdisk]
  · left
    simp only [writei, ← h.copy p hp, Fs.writei_none (h.size _) hn hin]

theorem itrunc_inv (h : Inv s I) (hp : s.inHand p) :
    ∃ s' I', itrunc p s = .ok ((), s') ∧ Inv s' I' ∧ Fs.Truncated (s.itable p).inum
      { I (s.itable p).inum with size := 0, addrs := fun _ => 0 } s.disk I s'.disk ∧
      I' = Function.update I (s.itable p).inum
        { I (s.itable p).inum with size := 0, addrs := fun _ => 0 } ∧
      s' = s.put p { I (s.itable p).inum with size := 0, addrs := fun _ => 0 } s'.disk := by
  obtain ⟨d', hcall, htr⟩ := Fs.itrunc_spec h.sound (h.inum p hp.1)
  have hfits := h.fits (s.itable p).inum
  have hclear : ({ I (s.itable p).inum with size := 0, addrs := fun _ => 0 } : Fs.Dinode).Fits :=
    ⟨hfits.type, hfits.major, hfits.minor, hfits.nlink, Nat.two_pow_pos 32,
      fun _ => Nat.two_pow_pos 32⟩
  refine ⟨s.put p _ d', _, ?_, h.put hp htr.sb htr.sound (Function.update_self ..) (fun j hj => ?_)
    htr.dinode hclear (Nat.zero_le _) ?_ ?_, htr, rfl, rfl⟩
  · rw [itrunc, ← h.copy p hp, hcall]
  · exact Function.update_of_ne hj ..
  · rw [htr.self hclear]
    exact .refl _
  · show (I (s.itable p).inum).type ≠ 0
    rw [h.copy p hp]
    exact h.type p hp

/-! ## `iupdate` -/

theorem Inv.copy_fits (h : Inv s I) (hp : s.inHand p) : (s.itable p).copy.Fits :=
  h.copy p hp ▸ h.fits (s.itable p).inum

theorem setCopy_eq (s : FsState) (p : InodePtr) (f : Fs.Dinode → Fs.Dinode) :
    setCopy p f s = .ok ((), s.put p (f (s.itable p).copy) s.disk) := rfl

theorem iupdate_put (s : FsState) (p : InodePtr) (c : Fs.Dinode) :
    iupdate p (s.put p c s.disk) = .ok ((), s.put p c (Fs.iupdate s.disk (s.itable p).inum c)) := by
  rw [iupdate, put_inum, put_copy, if_pos rfl]
  rfl

/-- A copy with the contents it had is written to the disk. -/
theorem Inv.iupdate_copy (h : Inv s I) (hp : s.inHand p) {c : Fs.Dinode}
    (haddrs : c.addrs = (I (s.itable p).inum).addrs) (hsize : c.size = (I (s.itable p).inum).size)
    (htype : c.type = (I (s.itable p).inum).type) (hfits : c.Fits) :
    Inv (s.put p c (Fs.iupdate s.disk (s.itable p).inum c))
      (Function.update I (s.itable p).inum c) :=
  h.put_iupdate hp rfl h.sound (fun t => .inr (Fs.slot_of_addrs haddrs _ t)) (fun _ _ => rfl)
    (fun _ _ _ => rfl) hfits (hsize ▸ h.size _) (htype ▸ h.copy p hp ▸ h.type p hp)

/-! ## Inodes that are not in hand -/

/-- An inode nobody has in hand is written to the disk. -/
theorem Inv.iupdate_idle (h : Inv s I) (hi : i < s.disk.sb.ninodes)
    (hidle : ∀ q, s.inHand q → (s.itable q).inum ≠ i) (ip : Fs.Dinode) (hip : ip.addrs = fun _ => 0)
    (hfits : ip.Fits) (hsize : ip.size ≤ 268 * 1024) :
    Inv { s with disk := Fs.iupdate s.disk i ip } (Function.update I i ip) := by
  have hslot : ∀ t, ip.slot s.disk.data t = 0 := Fs.slot_no_addrs s.disk.data hip
  refine ⟨h.sound.iupdate ip hi fun t => .inl (hslot t), fun j => ?_, fun j => ?_, h.unique, h.inum,
    fun q hq => ?_, fun j hj => ?_, fun q hq => ?_, h.type⟩
  · by_cases hj : j = i
    · rw [hj, Function.update_self]
      exact hfits
    · rw [Function.update_of_ne hj]
      exact h.fits j
  · by_cases hj : j = i
    · rw [hj, Function.update_self]
      exact hsize
    · rw [Function.update_of_ne hj]
      exact h.size j
  · rw [Function.update_of_ne (hidle q hq)]
    exact h.copy q hq
  · by_cases hji : j = i
    · rw [hji, Function.update_self]
      exact ((inodes_of_lt (d := Fs.iupdate s.disk i ip) hi).trans
        (Fs.dinode_iupdate_self s.disk i hfits)).symm
    · rw [Function.update_of_ne hji, h.disk j hj]
      show (if j < s.disk.sb.ninodes then _ else _) = if j < s.disk.sb.ninodes then _ else _
      rw [Fs.dinode_iupdate_ne s.disk hji]
  · show Behind ((Fs.iupdate s.disk i ip).dinode (s.itable q).inum) _
    rw [Fs.dinode_iupdate_ne s.disk (hidle q hq)]
    exact h.behind q hq

/-- **`ialloc`**: none is free, or the first that is free is written and referred to. -/
theorem ialloc_inv (h : Inv s I) {type : Nat} (htype : type < 65536) :
    ialloc type s = .ok (none, s) ∨
    (∃ n p s', ialloc type s = .ok (some p, s') ∧ n < s.disk.sb.ninodes ∧
      (∀ q, s.inHand q → (s.itable q).inum ≠ n) ∧
      Inv s' (Function.update I n ⟨type, 0, 0, 0, 0, fun _ => 0⟩) ∧ (s'.itable p).inum = n ∧
      Refers p { s with disk := Fs.iupdate s.disk n ⟨type, 0, 0, 0, 0, fun _ => 0⟩ } s') ∨
    ialloc type s = .error .igetNoInodes := by
  rcases Fs.ialloc_cases s.disk type with hnone | ⟨n, hn, hfree, hsome⟩
  · left
    rw [ialloc, hnone]
  · -- the inode on the disk is free, so nobody has it in hand
    have hidle : ∀ q, s.inHand q → (s.itable q).inum ≠ n := by
      intro q hq heq
      have hfields := congrArg Fs.Dinode.type (h.behind q hq).fields
      rw [heq, hfree] at hfields
      exact h.type q hq hfields.symm
    have hshort : 0 < 65536 := by decide
    have hinv := h.iupdate_idle hn hidle ⟨type, 0, 0, 0, 0, fun _ => 0⟩ rfl
      ⟨htype, hshort, hshort, hshort, Nat.two_pow_pos 32, fun _ => Nat.two_pow_pos 32⟩
      (Nat.zero_le _)
    rcases iget_spec hinv hn with ⟨p, s', hget, hinv', hinum, hrefers⟩ | herr
    · refine .inr (.inl ⟨n, p, s', ?_, hn, hidle, hinv', hinum, hrefers⟩)
      simp only [ialloc, hsome, hget]
      rfl
    · refine .inr (.inr ?_)
      simp only [ialloc, hsome, herr]
      rfl

/-! ## `iput` -/

theorem iput_last {s₁ : FsState} (h : s.lastRef p = true) (hfree : freeInode p s = .ok ((), s₁)) :
    iput p s = .ok ((), s₁.set p { s₁.itable p with ref := (s₁.itable p).ref - 1 }) := by
  simp only [iput, bind, StateT.bind, get, getThe, MonadStateOf.get, StateT.get, Except.bind, pure,
    Except.pure, h, if_true, hfree]
  rfl

theorem iput_other (h : s.lastRef p = false) :
    iput p s = .ok ((), s.set p { s.itable p with ref := (s.itable p).ref - 1 }) := by
  simp only [iput, bind, StateT.bind, get, getThe, MonadStateOf.get, StateT.get, Except.bind, pure,
    Except.pure, h]
  rfl

theorem freeInode_of_itrunc {c : Fs.Dinode} (h : itrunc p s = .ok ((), s.put p c d)) :
    freeInode p s = .ok ((), { s with
      disk := Fs.iupdate d (s.itable p).inum { c with type := 0 }
      itable := Function.update s.itable p
        { s.itable p with valid := false, copy := { c with type := 0 } } }) := by
  simp only [freeInode, bind, StateT.bind, h, Except.bind, setCopy, iupdate, modify, modifyGet,
    MonadStateOf.modifyGet, StateT.modifyGet, pure, Except.pure, FsState.put, FsState.set,
    Function.update_self, Function.update_idem]

/-- What `iput` leaves: an inode can be gone, or lose the blocks that are not on the disk. -/
structure Released (p : InodePtr) (s : FsState) (I : Nat → Fs.Dinode) (s' : FsState)
    (I' : Nat → Fs.Dinode) : Prop where
  sb : s'.disk.sb = s.disk.sb
  table : ∀ q, q ≠ p → s'.itable q = s.itable q
  ref : (s'.itable p).ref = (s.itable p).ref - 1
  shared : 2 ≤ (s.itable p).ref → s'.disk = s.disk ∧ I' = I ∧
    (s'.itable p).inum = (s.itable p).inum ∧ (s'.itable p).valid = (s.itable p).valid
  others : ∀ j, j ≠ (s.itable p).inum → I' j = I j
  byte : ∀ j, j ≠ (s.itable p).inum → ∀ x, (I j).byte s'.disk.data x = (I j).byte s.disk.data x
  slot : ∀ j, j ≠ (s.itable p).inum → ∀ t, (I j).slot s'.disk.data t = (I j).slot s.disk.data t
  dinode : ∀ j, j < s.disk.sb.ninodes → j ≠ (s.itable p).inum → s'.disk.dinode j = s.disk.dinode j
  self : s'.disk = s.disk ∧
      (I' (s.itable p).inum = I (s.itable p).inum ∨ I' (s.itable p).inum =
      s.disk.inodes (s.itable p).inum) ∨
    I' (s.itable p).inum = { I (s.itable p).inum with type := 0, size := 0, addrs := fun _ => 0 }
  logged : ∀ b ∈ s'.disk.logged, b ∈ s.disk.logged ∨ (∃ c, c < s.disk.sb.size ∧
    b = s.disk.sb.bblock c) ∨ b = s.disk.sb.iblock (s.itable p).inum

/-- Only the table changes. -/
theorem Released.of_table (hshared : 2 ≤ (s.itable p).ref → I' = I)
    (hothers : ∀ j, j ≠ (s.itable p).inum → I' j = I j)
    (hself : I' (s.itable p).inum = I (s.itable p).inum ∨
      I' (s.itable p).inum = s.disk.inodes (s.itable p).inum) :
    Released p s I (s.set p { s.itable p with ref := (s.itable p).ref - 1 }) I' where
  sb := rfl
  table := fun _ hq => set_ne _ hq
  ref := by rw [set_self]
  shared := fun h2 => ⟨rfl, hshared h2, by rw [set_self], by rw [set_self]⟩
  others := hothers
  byte := fun _ _ _ => rfl
  slot := fun _ _ _ => rfl
  dinode := fun _ _ _ => rfl
  self := .inl ⟨rfl, hself⟩
  logged := fun _ hb => .inl hb

/-- The last reference to an inode without links. -/
theorem iput_free (h : Inv s I) (hin : s.inHand p) (hlast : s.lastRef p = true) :
    ∃ s' I', iput p s = .ok ((), s') ∧ Inv s' I' ∧ Released p s I s' I' := by
  have hlt := h.inum p hin.1
  have hfits := h.fits (s.itable p).inum
  have hone : (s.itable p).ref = 1 := by
    unfold FsState.lastRef at hlast
    rw [Bool.and_eq_true, Bool.and_eq_true, beq_iff_eq] at hlast
    exact hlast.1.1
  obtain ⟨s₁, I₁, hcall, hinv₁, htr, rfl, hs₁⟩ := itrunc_inv h hin
  generalize s₁.disk = d₁ at htr hs₁
  generalize hc : Fs.Dinode.mk (I (s.itable p).inum).type (I (s.itable p).inum).major
    (I (s.itable p).inum).minor (I (s.itable p).inum).nlink 0 (fun _ => 0) = c at hinv₁ htr hs₁
  generalize hc₀ : ({ c with type := 0 } : Fs.Dinode) = c₀
  have hself : c₀ = { I (s.itable p).inum with type := 0, size := 0, addrs := fun _ => 0 } := by
    rw [← hc₀, ← hc]
  rw [hs₁] at hcall hinv₁
  have hput := iput_last hlast (freeInode_of_itrunc hcall)
  rw [hc₀] at hput
  -- the reference goes first, and then the inode nobody has in hand is written
  have hinv₂ := hinv₁.drop (p := p) (e := { s.itable p with ref := 0, valid := false, copy := c₀ })
    (by rw [put_ref]; exact hin.1) rfl
  have hidle : ∀ q,
      ((s.put p c d₁).set p { s.itable p with ref := 0, valid := false, copy := c₀ }).inHand q →
      (((s.put p c d₁).set p { s.itable p with
        ref := 0, valid := false, copy := c₀ }).itable q).inum ≠ (s.itable p).inum := by
    intro q hq
    have hqp : q ≠ p := fun heq => absurd ((set_inHand_self _).mp (heq ▸ hq)).1 (Nat.lt_irrefl 0)
    rw [set_inHand_ne _ hqp, put_inHand] at hq
    rw [set_ne _ hqp, put_inum]
    exact fun heq => hqp (h.unique q p hq.1 hin.1 heq)
  have hsb : d₁.sb = s.disk.sb := htr.sb
  have hlt₁ : (s.itable p).inum < d₁.sb.ninodes := hsb ▸ hlt
  have hfits₀ : c₀.Fits := by
    rw [hself]
    exact ⟨Nat.zero_lt_succ _, hfits.major, hfits.minor, hfits.nlink, Nat.two_pow_pos 32,
      fun _ => Nat.two_pow_pos 32⟩
  have hinv₃ :=
    hinv₂.iupdate_idle hlt₁ hidle c₀ (by rw [hself]) hfits₀ (by rw [hself]; exact Nat.zero_le _)
  rw [put_inum, Function.update_idem, Function.update_idem] at hinv₃
  have hframe := htr.sound.framed_iupdate hlt₁ c₀
  have hstate : ∀ s₂ : FsState, s₂ = _ → Inv s₂ (Function.update I (s.itable p).inum c₀) :=
    fun s₂ hs₂ => hs₂ ▸ hinv₃
  refine ⟨_, _, hput, hstate _ ?_, hsb, fun q hq => ?_, ?_, fun h2 => absurd h2 (by omega),
    fun j hj => ?_, fun j hj x => ?_, fun j hj t => ?_, fun j hjlt hj => ?_, .inr ?_,
    fun b hb => ?_⟩
  · simp only [FsState.set, FsState.put, Function.update_self, Function.update_idem, hone]
  · exact (set_ne _ hq).trans (Function.update_of_ne hq ..)
  · simp only [FsState.set, Function.update_self]
  · exact Function.update_of_ne hj ..
  · have := hframe.byte j x
    rw [Function.update_of_ne hj] at this
    exact this.trans (htr.byte j hj x)
  · have := hframe.slot j t
    rw [Function.update_of_ne hj] at this
    exact this.trans (htr.slot j hj t)
  · exact (Fs.dinode_iupdate_ne d₁ hj c₀).trans (htr.dinode j hjlt hj)
  · rw [Function.update_self, hself]
  · rcases Fs.mem_logWrite.mp hb with hb | hb
    · exact htr.logged b hb
    · exact .inr (.inr (hsb ▸ hb))

theorem iput_spec (h : Inv s I) (hp : 0 < (s.itable p).ref) :
    ∃ s' I', iput p s = .ok ((), s') ∧ Inv s' I' ∧ Released p s I s' I' := by
  cases hlast : s.lastRef p with
  | false =>
    by_cases hone : (s.itable p).ref = 1
    · refine ⟨_, _, iput_other hlast, h.drop hp (by rw [hone]),
        .of_table (fun h2 => absurd h2 (by omega)) (fun j hj => ?_) ?_⟩
      · exact Function.update_of_ne hj ..
      · exact .inr (Function.update_self ..)
    · exact ⟨_, I, iput_other hlast, h.set_ref hp (by omega),
        .of_table (fun _ => rfl) (fun _ _ => rfl) (.inl rfl)⟩
  | true =>
    refine iput_free h ⟨hp, ?_⟩ hlast
    unfold FsState.lastRef at hlast
    rw [Bool.and_eq_true, Bool.and_eq_true] at hlast
    exact hlast.1.2

end

end Xv6Paging.Itable
