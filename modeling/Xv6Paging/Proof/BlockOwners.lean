import Xv6Paging.Proof.InodeTable
import Xv6Paging.Proof.MkfsOverrun

/-!
# Every block has one owner

From an image `mkfs` built, through any operations on inodes, no block is in two slots, each block
in a slot is a data block, and its bit is set. So `bfree` never meets a block that is free already,
and what `balloc` hands out is nobody's.

The one way out is an image with more files than there are inodes, which `mkfs` builds without a
word.
-/

namespace Xv6Paging.Itable

open Lib

/-! ## One operation -/

section

variable {s s' : FsState} {I I' : Nat → Fs.Dinode} {p : InodePtr} {a : FsAct}

theorem Released.slots (h : Inv s I) (hr : Released p s I s' I') (a : Nat × Fs.Slot) :
    slots s'.disk I' a = 0 ∨ slots s'.disk I' a = slots s.disk I a := by
  unfold Itable.slots
  by_cases ha : a.1 = (s.itable p).inum
  · rw [ha]
    rcases hr.self with ⟨hdisk, hsame | hback⟩ | hgone
    · rw [hdisk, hsame]
      exact .inr rfl
    · rw [hdisk, hback]
      exact (h.inodes_behind _).slot s.disk.data a.2
    · rw [hgone]
      exact .inl (Fs.slot_no_addrs _ rfl a.2)
  · rw [hr.others _ ha, hr.slot _ ha]
    exact .inr rfl

theorem step_of_perform {r : Unit} (ha : a.Allowed s) (h : perform a s = .ok (r, s')) :
    step s a = some s' := by
  rw [step, if_pos ha, h]

/-- What an operation does: it keeps the inodes sound and takes blocks nobody had, or it panics,
though not over a block that is free. -/
inductive Performs (s : FsState) (I : Nat → Fs.Dinode) (r : Except Panic (Unit × FsState)) :
    Prop where
  | ok {s' : FsState} {I' : Nat → Fs.Dinode} : r = .ok ((), s') → Inv s' I' →
      Fresh (slots s.disk I) (slots s'.disk I') → Performs s I r
  | panic {e : Panic} : r = .error e → e ≠ .fs .freeingFreeBlock → Performs s I r

theorem performs (h : Inv s I) (ha : a.Allowed s) : Performs s I (perform a s) := by
  have hsame : Fresh (slots s.disk I) (slots s.disk I) := .of_drop fun _ => .inr rfl
  cases a with
  | iget inum =>
    rcases iget_spec h ha with ⟨p, s', hcall, hinv, -, hrefers⟩ | herr
    · exact .ok (bind_ok hcall) hinv (hrefers.disk ▸ hsame)
    · exact .panic (bind_error herr) (by decide)
  | ilock p =>
    rcases ilock_spec h ha with ⟨s', hcall, hinv, hdisk, -⟩ | herr
    · exact .ok hcall hinv (hdisk ▸ hsame)
    · exact .panic herr (by decide)
  | ialloc type =>
    rcases ialloc_inv h ha.2 with hnone | ⟨n, p, s', hcall, hn, -, hinv, -, hrefers⟩ | herr
    · exact .ok (bind_ok hnone) h hsame
    · refine .ok (bind_ok hcall) hinv (.of_drop fun a => ?_)
      unfold slots
      rw [hrefers.disk]
      by_cases ha : a.1 = n
      · rw [ha, Function.update_self]
        exact .inl (Fs.slot_no_addrs _ rfl a.2)
      · rw [Function.update_of_ne ha, (h.sound.framed_iupdate hn _).slot]
        exact .inr rfl
    · exact .panic (bind_error herr) (by decide)
  | readi p off n =>
    obtain ⟨k, d', I', hcall, hinv, hst⟩ := readi_inv (T := fun _ => True) h ha.1 off ha.2
      fun _ _ _ _ _ => trivial
    exact .ok (bind_ok hcall) hinv (hinv.fresh hst.kept)
  | writei p off n src gone =>
    rcases writei_inv (T := fun _ => True) h ha.1 off ha.2 src gone fun _ _ _ _ _ => trivial with
      hnone | ⟨tot, d₀, I₀, bytes, t, ip, hcall, hinv, hst, -, -, hip⟩
    · exact .ok (bind_ok hnone) h hsame
    · refine .ok (bind_ok hcall) hinv (hinv.fresh fun j u hu => ?_)
      have hlt : (s.itable p).inum < d₀.sb.ninodes := hst.sb ▸ h.inum p ha.1.1
      rw [put_disk, Fs.slot_closed hst.sound hlt (by rw [hip])]
      exact hst.kept j u hu
  | itrunc p =>
    obtain ⟨s', I', hcall, hinv, htr, hI', -⟩ := itrunc_inv h ha
    refine .ok hcall hinv (.of_drop fun a => ?_)
    unfold slots
    rw [hI']
    by_cases hi : a.1 = (s.itable p).inum
    · rw [hi, Function.update_self]
      exact .inl (Fs.slot_no_addrs _ rfl a.2)
    · rw [Function.update_of_ne hi, htr.slot _ hi]
      exact .inr rfl
  | iupdate p major minor nlink =>
    obtain ⟨hp, hmajor, hminor, hnlink⟩ := ha
    have hfits := h.copy_fits hp
    obtain ⟨c, hc⟩ : ∃ c : Fs.Dinode, c = { (s.itable p).copy with
      major := major, minor := minor, nlink := nlink } := ⟨_, rfl⟩
    have hcfits : c.Fits := by
      rw [hc]
      exact ⟨hfits.type, hmajor, hminor, hnlink, hfits.size, hfits.addrs⟩
    have hcopy := h.copy p hp
    have hinv :=
      h.iupdate_copy hp (by rw [hc, hcopy]) (by rw [hc, hcopy]) (by rw [hc, hcopy]) hcfits
    refine .ok ?_ hinv (.of_drop fun a => .inr ?_)
    · exact (bind_ok (setCopy_eq ..)).trans (hc ▸ iupdate_put ..)
    · exact Fs.slot_closed h.sound (h.inum p hp.1) (by rw [hc, hcopy]) a.1 a.2
  | iput p =>
    obtain ⟨s', I', hcall, hinv, hr⟩ := iput_spec h ha
    exact .ok hcall hinv (.of_drop (hr.slots h))
  | commit =>
    refine .ok rfl ⟨⟨h.sound.laid, h.sound.owned, h.sound.used⟩, h.fits, h.size, h.unique,
      h.inum, h.copy, h.disk, h.behind, h.type⟩ hsame

/-! ## Any number of them -/

/-- The kernel has mounted what `mkfs` built of these files, and no inode is in use. -/
def Built (args : List Mkfs.Arg) (s : FsState) : Prop :=
  ∃ m, Mkfs.main args = .ok m ∧ Fs.mount m.blocks = .ok s.disk ∧ ∀ p, (s.itable p).ref = 0

theorem mounted_size {args : List Mkfs.Arg} {d : Fs.Disk} (h : Mkfs.Mounted args d)
    (hargs : args.length + 1 < Mkfs.nInodes) (i : Nat) : (d.inodes i).size ≤ 268 * 1024 := by
  cases hf : Mkfs.filesOf args i with
  | none =>
    rw [h.free i hf]
    decide
  | some f =>
    by_cases hroot : i = 1
    · have hargs : args.length + 1 < 200 := hargs
      rw [hroot, h.size]
      omega
    · have hi : 1 < i := by
        by_contra hlt
        have hzero : i = 0 := by omega
        rw [hzero] at hf
        cases hf
      obtain ⟨hfile, -⟩ := h.files i f hi hf
      rw [hfile.size]
      exact hfile.small

theorem Built.inv {args : List Mkfs.Arg} (h : Built args s)
    (hargs : args.length + 1 < Mkfs.nInodes) : Inv s s.disk.inodes := by
  obtain ⟨m, hmain, hmount, href⟩ := h
  obtain ⟨d, hmount', hmounted, -⟩ := Mkfs.main_ok hargs hmain
  rw [hmount] at hmount'
  cases hmount'
  exact .of_idle hmounted.sound (mounted_size hmounted hargs) href

theorem reach_inv {args : List Mkfs.Arg} (hargs : args.length + 1 < Mkfs.nInodes)
    (h : Reach step (Built args) (fun _ _ => True) s) : ∃ I, Inv s I := by
  refine h.keeps (P := fun s => ∃ I, Inv s I) (fun s hs => ⟨_, hs.inv hargs⟩)
    fun s a s' hI _ hstep => ?_
  obtain ⟨I, hI⟩ := hI
  unfold step at hstep
  split at hstep
  · rename_i ha
    cases performs hI ha with
    | ok hcall hinv hfresh =>
      rw [hcall] at hstep
      cases hstep
      exact ⟨_, hinv⟩
    | panic herr _ =>
      rw [herr] at hstep
      cases hstep
  · cases hstep

/-- Blocks have one owner, in memory and on the disk, and neither `bfree` nor `balloc` is misled. -/
structure OneOwner (s : FsState) : Prop where
  unique : ∀ i j t u, (s.inode i).slot s.disk.data t ≠ 0 →
    (s.inode i).slot s.disk.data t = (s.inode j).slot s.disk.data u → i = j ∧ t = u
  used : ∀ i t, (s.inode i).slot s.disk.data t ≠ 0 →
    s.disk.sb.isData ((s.inode i).slot s.disk.data t) ∧
    s.disk.inUse ((s.inode i).slot s.disk.data t) = true
  /-- What an inode on the disk has is what the copy has in the same place. -/
  onDisk : ∀ i t, (s.disk.inodes i).slot s.disk.data t = 0 ∨
    (s.disk.inodes i).slot s.disk.data t = (s.inode i).slot s.disk.data t
  bfree : ∀ a : FsAct, a.Allowed s → perform a s ≠ .error (.fs .freeingFreeBlock)
  balloc : ∀ b d, Fs.balloc s.disk = (b, d) → b ≠ 0 →
    s.disk.inUse b = false ∧ ∀ i t, (s.inode i).slot s.disk.data t ≠ b
  /-- A block that an operation puts into a slot was in none before. -/
  fresh : ∀ a s', step s a = some s' → ∀ i t, (s'.inode i).slot s'.disk.data t ≠ 0 →
    (s'.inode i).slot s'.disk.data t = (s.inode i).slot s.disk.data t ∨
      ∀ j u, (s.inode j).slot s.disk.data u ≠ (s'.inode i).slot s'.disk.data t

theorem Inv.oneOwner (h : Inv s I) : OneOwner s := by
  have hI := h.inode_eq
  refine ⟨fun i j t u => ?_, fun i t => ?_, fun i t => ?_, fun a ha hpanic => ?_,
    fun b d hb h0 => ?_, fun a s' hstep i t ht => ?_⟩
  · rw [hI]
    exact h.sound.owned.inj
  · rw [hI]
    exact h.sound.owned.mem
  · rw [hI]
    exact (h.inodes_behind i).slot _ t
  · cases performs h ha with
    | ok hcall hinv hfresh =>
      rw [hcall] at hpanic
      cases hpanic
    | panic herr hne =>
      rw [herr] at hpanic
      exact hne (Except.error.inj hpanic)
  · rcases Fs.balloc_cases s.disk with ⟨hnone, -⟩ | ⟨x, hx, hfree, hsome⟩
    · rw [hnone] at hb
      exact absurd (Prod.mk.inj hb).1.symm h0
    · rw [hsome] at hb
      obtain ⟨rfl, -⟩ := Prod.mk.inj hb
      rw [hI]
      exact ⟨hfree, h.sound.free_ne_slot hfree h0⟩
  · unfold step at hstep
    split at hstep
    · rename_i ha
      cases performs h ha with
      | ok hcall hinv hfresh =>
        rw [hcall] at hstep
        cases hstep
        rw [hI, hinv.inode_eq] at *
        exact (hfresh (i, t) ht).imp_right fun hnew j u => hnew (j, u)
      | panic herr _ =>
        rw [herr] at hstep
        cases hstep
    · cases hstep

/-- **Disk blocks have one owner**, through every run on an image with an inode for each file. -/
theorem blocks_have_one_owner (args : List Mkfs.Arg) (hargs : args.length + 1 < Mkfs.nInodes)
    (h : Reach step (Built args) (fun _ _ => True) s) : OneOwner s := by
  obtain ⟨I, hI⟩ := reach_inv hargs h
  exact hI.oneOwner

/-- No inode is in memory. -/
def noInodes (d : Fs.Disk) : FsState := { disk := d, itable := fun _ => ⟨0, 0, false, Fs.noInode⟩ }

theorem needed_first_block (data : Blocks) (ip : Fs.Dinode) {n : Nat} (hn : n ≤ 1024) :
    (Fs.needed data ip 0 n).card ≤ 1 := by
  classical
  rw [← Finset.card_singleton (Fs.Slot.direct 0)]
  refine Finset.card_le_card fun t ht => ?_
  obtain ⟨-, x, -, hx, htouch⟩ := (Finset.mem_filter.mp ht).2
  rw [show x / 1024 = 0 by omega] at htouch
  rcases htouch with hdata | ⟨-, h12⟩
  · exact Finset.mem_singleton.mpr (Option.some.inj hdata).symm
  · exact absurd h12 (by decide)

/-- A write over the start of an empty file takes a block where one is free. -/
theorem writei_takes (h : Inv s I) (hp : s.inHand p) (hempty : (s.itable p).copy.size = 0)
    (hfree : (Fs.freeBlocks s.disk).Nonempty) {src : List UInt8}
    (hsrc : 0 < src.length ∧ src.length ≤ 1024) :
    ∃ s', step s (.writei p 0 src.length (.ofBytes src) false) = some s' ∧
      (s'.inode (s.itable p).inum).slot s'.disk.data (.direct 0) ≠ 0 := by
  obtain ⟨w, hw, -, hrep, htot⟩ := Fs.writei_memmove h.sound (h.inum p hp.1) (Nat.zero_le _) src
    (show 0 + src.length ≤ 268 * 1024 by omega)
  have htot := htot (Nat.le_trans (needed_first_block _ _ hsrc.2) hfree.card_pos)
  have hcall : writei p 0 (.ofBytes src) false s = .ok (some w.tot, s.put p w.ip w.d) := by
    rw [h.copy p hp] at hw
    simp only [writei, Source.ofBytes, hw]
    rfl
  have hlen : src.length < 2 ^ 32 := Nat.lt_of_le_of_lt hsrc.2 (by decide)
  have hstep :=
    step_of_perform (a := .writei p 0 src.length (.ofBytes src) false) ⟨hp, hlen⟩ (bind_ok hcall)
  -- the copy of the file has all its blocks, and there is at least one
  have hinode : (s.put p w.ip w.d).inode (s.itable p).inum = w.ip := by
    cases performs h (a := .writei p 0 src.length (.ofBytes src) false) ⟨hp, hlen⟩ with
    | ok hdone hinv hfresh =>
      cases hdone.symm.trans (bind_ok hcall)
      rw [hinv.inode_eq, ← put_inum (s := s) (p := p) (q := p),
        hinv.copy p ((put_inHand ..).mpr hp), put_copy, if_pos rfl]
    | panic herr _ => cases herr.symm.trans (bind_ok hcall)
  have hself : Function.update I (s.itable p).inum w.ip (s.itable p).inum = w.ip :=
    Function.update_self ..
  have hwhole := hrep.whole (s.itable p).inum fun x hx => by
    rw [h.copy p hp, hempty] at hx
    exact absurd hx (Nat.not_lt_zero x)
  have hfields := congrArg Fs.Dinode.size hrep.fields
  rw [hself] at hwhole hfields
  refine ⟨_, hstep, ?_⟩
  rw [hinode, put_disk, ← Fs.block_eq (show Fs.dataSlot 0 = some (.direct 0) from rfl)]
  refine hwhole 0 ?_
  change w.ip.size = max _ (0 + w.tot) at hfields
  omega

/-- Any inode in use can be brought into memory. -/
theorem noInodes_locks {d : Fs.Disk} {i : Nat} (hi : i < d.sb.ninodes)
    (htype : (d.dinode i).type ≠ 0) :
    ∃ s s', step (noInodes d) (.iget i) = some s ∧ step s (.ilock 0) = some s' ∧
      s'.itable 0 = ⟨i, 1, true, d.dinode i⟩ ∧ s'.disk = d := by
  have hone : ((noInodes d).set 0 ⟨i, 1, false, Fs.noInode⟩).itable 0 = ⟨i, 1, false, Fs.noInode⟩ :=
    set_self _
  have hread : Fs.ilock ((noInodes d).set 0 ⟨i, 1, false, Fs.noInode⟩).disk i = .ok (d.dinode i) :=
    if_neg htype
  have hget : iget i (noInodes d) = .ok (0, (noInodes d).set 0 ⟨i, 1, false, Fs.noInode⟩) := rfl
  have hdisk : (((noInodes d).set 0 ⟨i, 1, false, Fs.noInode⟩).set 0 ⟨i, 1, true,
      d.dinode i⟩).disk = d := rfl
  refine ⟨_, _, step_of_perform hi (bind_ok hget), step_of_perform (r := ()) ?_ ?_,
    set_self _, hdisk⟩
  · show 0 < (FsState.itable _ 0).ref
    rw [hone]
    exact Nat.one_pos
  · simp only [perform, ilock, hone, hread]
    rfl

/-- Truncating a file with a block frees it. -/
theorem itrunc_frees (h : Inv s I) (hp : s.inHand p) {t : Fs.Slot}
    (ht : (I (s.itable p).inum).slot s.disk.data t ≠ 0) :
    ∃ s' I', step s (.itrunc p) = some s' ∧ Inv s' I' ∧ s'.inHand p ∧
      (s'.itable p).inum = (s.itable p).inum ∧ (s'.itable p).copy.size = 0 ∧
      (I' (s.itable p).inum).addrs = (fun _ => 0) ∧ (Fs.freeBlocks s'.disk).Nonempty := by
  obtain ⟨s', I', hcall, hI', htr, hI'eq, hs'⟩ := itrunc_inv h hp
  have hfree : (Fs.freeBlocks s'.disk).Nonempty := by
    refine ⟨(I (s.itable p).inum).slot s.disk.data t, Fs.mem_freeBlocks.mpr ⟨?_, htr.freed _ ht⟩⟩
    rw [htr.sb]
    exact (h.sound.isData ht).2
  refine ⟨s', I', step_of_perform hp hcall, hI', ?_, ?_, ?_, ?_, hfree⟩
  · rw [hs']
    exact (put_inHand ..).mpr hp
  · rw [hs', put_inum]
  · rw [hs', put_copy, if_pos rfl]
  · rw [hI'eq, Function.update_self]

/-- One file: its block is freed, and when it is written to it gets one again. -/
theorem blocks_have_one_owner_cat : ∃ s₁ s₂ s₃,
    Reach step (Built [Mkfs.catFile]) (fun _ _ => True) s₁ ∧ step s₁ (.itrunc 0) = some s₂ ∧
      step s₂ (.writei 0 0 3 (.ofBytes [1, 2, 3]) false) = some s₃ ∧
      (s₁.inode 2).slot s₁.disk.data (.direct 0) ≠ 0 ∧
      (s₂.inode 2).slot s₂.disk.data (.direct 0) = 0 ∧
      (s₃.inode 2).slot s₃.disk.data (.direct 0) ≠ 0 ∧ OneOwner s₃ := by
  have hfits : Mkfs.Fits [Mkfs.catFile] :=
    ⟨by decide, by decide, by decide, by decide, by decide, by decide, by decide⟩
  obtain ⟨m, hmain⟩ := hfits.main_returns
  obtain ⟨d, hmount, hmounted, -⟩ := Mkfs.main_ok hfits.inodes hmain
  have hlt : 2 < d.sb.ninodes := by
    rw [hmounted.sb]
    decide
  obtain ⟨hfile, hup⟩ := hmounted.files 2 (Fs.tFile, Mkfs.catFile.bytes) (by decide) rfl
  rw [inodes_of_lt hlt] at hfile hup
  have hslot : (d.dinode 2).slot d.data (.direct 0) ≠ 0 := (hup.block 0 (by decide)).mpr (by decide)
  obtain ⟨s₀, s₁, hget, hlock, hentry, hdisk⟩ := noInodes_locks hlt (by rw [hfile.type]; decide)
  have hstart : Reach step (Built [Mkfs.catFile]) (fun _ _ => True) (noInodes d) :=
    .init ⟨m, hmain, hmount, fun _ => rfl⟩
  have hrun := (hstart.step trivial hget).step trivial hlock
  have hhand : s₁.inHand 0 := by
    unfold FsState.inHand
    rw [hentry]
    exact ⟨Nat.one_pos, rfl⟩
  obtain ⟨I, hI⟩ := reach_inv (by decide) hrun
  have hinum : (s₁.itable 0).inum = 2 := by rw [hentry]
  have hcopy : I 2 = d.dinode 2 := by
    rw [← hinum, hI.copy 0 hhand, hentry]
  have hslot' : (I 2).slot s₁.disk.data (.direct 0) ≠ 0 := by
    rw [hcopy, hdisk]
    exact hslot
  obtain ⟨s₂, I₂, htrunc, hI₂, hhand₂, hinum₂, hempty, haddrs, hfree⟩ :=
    itrunc_frees hI hhand (t := .direct 0) (by rw [hinum]; exact hslot')
  rw [hinum] at hinum₂ haddrs
  obtain ⟨s₃, hwrite, htaken⟩ := writei_takes hI₂ hhand₂ hempty hfree
    (show 0 < [1, 2, 3].length ∧ [1, 2, 3].length ≤ 1024 by decide)
  rw [hinum₂] at htaken
  refine ⟨s₁, s₂, s₃, hrun, htrunc, hwrite, ?_, ?_, htaken, ?_⟩
  · rw [hI.inode_eq]
    exact hslot'
  · rw [hI₂.inode_eq]
    exact Fs.slot_no_addrs _ haddrs _
  · exact blocks_have_one_owner [Mkfs.catFile] (by decide)
      ((hrun.step trivial htrunc).step trivial hwrite)

/-- The inodes of too many files are written over an indirect block. -/
theorem indirect_block_overwritten_by_mkfs :
    ¬ ∀ args s, Reach step (Built args) (fun _ _ => True) s → OneOwner s := by
  intro hall
  obtain ⟨m, d, hmain, hmount, hsb, hslot⟩ := Mkfs.main_overruns
  have howner := hall _ (noInodes d) (.init ⟨m, hmain, hmount, fun _ => rfl⟩)
  have hinode : (noInodes d).inode 2 = d.inodes 2 := by
    rcases inode_cases (noInodes d) 2 with ⟨p, hp, -⟩ | ⟨-, heq⟩
    · exact absurd hp.1 (Nat.lt_irrefl 0)
    · exact heq
  have hentry : ((noInodes d).inode 2).slot d.data (.entry 0) = Fs.tFile := by rw [hinode, hslot]
  obtain ⟨hdata, -⟩ := howner.used 2 (.entry 0) (by
    show ((noInodes d).inode 2).slot d.data (.entry 0) ≠ 0
    rw [hentry]
    decide)
  have hlow : d.sb.dataStart ≤ ((noInodes d).inode 2).slot d.data (.entry 0) := hdata.1
  rw [hentry, hsb] at hlow
  exact absurd hlow (by decide)

end

end Xv6Paging.Itable
