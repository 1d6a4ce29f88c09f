import Xv6Paging.Proof.InodeBytes

/-!
# Reading holes, freeing blocks, writing inodes

What is left of the operations on one inode in a sound file system: `readi` of a file that lacks
blocks below its size, which `bmap` then puts there; `itrunc`, which hands every block in a slot
back to the bitmap; `iupdate` and `ialloc`, which write an inode to the disk.
-/

namespace Xv6Paging.Fs

open Lib

variable {n x : Nat} {ip : Dinode} {xs : List Nat} {σ : Type}

section

variable {T : Slot → Prop} {d d' : Disk} {I I' : Nat → Dinode} {i off : Nat}

/-! ## `readi` -/

theorem bytes_congr {data data' : Blocks} {ip' : Dinode}
    (h : ∀ x, ip'.byte data' x = ip.byte data x) (off n : Nat) :
    ip'.bytes data' off n = ip.bytes data off n := by
  unfold Dinode.bytes
  exact List.map_congr_left fun k _ => h (off + k)

/-- Nothing was stored, so every byte is what it was. -/
theorem Stores.byte_nil (h : Stores T i off [] d I d' I') (j x : Nat) :
    (I' j).byte d'.data x = (I j).byte d.data x := by
  rw [h.byte]
  simp

theorem Stores.trans_nil {d'' : Disk} {I'' : Nat → Dinode} {off' : Nat}
    (h : Stores T i off [] d I d' I') (h' : Stores T i off' [] d' I' d'' I'') :
    Stores T i off [] d I d'' I'' := by
  have hmove : Stores T i off [] d' I' d'' I'' :=
    { h' with
      byte := fun j x => by
        rw [h'.byte_nil]
        simp
      there := fun x hx hlt => absurd hx (Nat.not_le_of_lt hlt) }
  exact h.append (a := []) hmove

theorem readiLoop_spec : ∀ (fuel : Nat) {d : Disk} {I : Nat → Dinode} {off n : Nat}
    (dst : List UInt8), Sound d I → n ≤ fuel → off + n ≤ 268 * 1024 →
    (∀ x, off ≤ x → x < off + n → ∀ t, Touches (x / 1024) t → T t) →
    ∃ k d' I', readiLoop fuel d (I i) off n dst =
      .ok (dst ++ (I i).bytes d.data off k, I' i, d') ∧ k ≤ n ∧ Stores T i off [] d I d' I' := by
  intro fuel
  induction fuel with
  | zero =>
    intro d I off n dst h hn _ _
    exact ⟨0, d, I, by rw [readiLoop, Dinode.bytes, List.range_zero, List.map_nil, List.append_nil],
      Nat.zero_le _, .refl h⟩
  | succ fuel ih =>
    intro d I off n dst h hn hend hT
    by_cases hzero : n = 0
    · refine ⟨0, d, I, ?_, Nat.zero_le _, .refl h⟩
      rw [readiLoop, if_pos hzero, Dinode.bytes, List.range_zero, List.map_nil, List.append_nil]
    obtain ⟨addr, ip₁, d₁, hbmap, hst, hblock, -⟩ := bmap_spec (T := T) (i := i) off h
      (show off / 1024 < 268 by omega) (hT off (Nat.le_refl off) (by omega))
    generalize hI₁ : Function.update I i ip₁ = I₁ at hst
    have hip : I₁ i = ip₁ := by
      rw [← hI₁]
      exact Function.update_self ..
    by_cases haddr : addr = 0
    · refine ⟨0, d₁, I₁, ?_, Nat.zero_le _, hst⟩
      subst haddr
      simp only [readiLoop, if_neg hzero, hbmap, bind, Except.bind, if_pos, hip]
      rw [Dinode.bytes, List.range_zero, List.map_nil, List.append_nil]
    · generalize hm : min n (1024 - off % 1024) = m
      have hb : ip₁.block d₁.data (off / 1024) ≠ 0 := hblock ▸ haddr
      have hread : Block.read (d₁.data addr) (off % 1024) m = (I i).bytes d.data off m := by
        rw [← hblock, read_block hb (by omega), ← hip]
        exact bytes_congr (hst.byte_nil i) off m
      obtain ⟨k, d₂, I₂, hrest, hk, hst₂⟩ := @ih d₁ I₁ (off + m) (n - m)
        (dst ++ (I i).bytes d.data off m) hst.sound (by omega) (by omega)
        (fun x hx hlt => hT x (by omega) (by omega))
      refine ⟨m + k, d₂, I₂, ?_, by omega, hst.trans_nil hst₂⟩
      rw [hip] at hrest
      simp only [readiLoop, if_neg hzero, hbmap, bind, Except.bind, if_neg haddr, hm, hread, hrest]
      rw [bytes_add, List.append_assoc, ← hip, bytes_congr (hst.byte_nil i)]

theorem readable_le_size (off : Nat) (hn : n < 2 ^ 32) (hsize : ip.size < 2 ^ 32) :
    ip.readable off n = 0 ∨ off + ip.readable off n ≤ ip.size := by
  unfold Dinode.readable toUint
  split
  · exact .inl rfl
  · rename_i hoff
    split
    · exact .inr (by omega)
    · exact .inr (by omega)

/-- **`readi`** of any file: it returns a first part of the bytes, and puts blocks where there were
none. -/
theorem readi_spec (h : Sound d I) (hsize : (I i).size ≤ 268 * 1024) (hn : n < 2 ^ 32)
    (hT : ∀ x, off ≤ x → x < off + (I i).readable off n → ∀ t, Touches (x / 1024) t → T t) :
    ∃ k d' I', readi d (I i) off n = .ok ((I i).bytes d.data off k, I' i, d') ∧
      k ≤ (I i).readable off n ∧ Stores T i off [] d I d' I' := by
  rcases readable_le_size off hn (by omega : (I i).size < 2 ^ 32) with h0 | hle
  · refine ⟨0, d, I, ?_, Nat.zero_le _, .refl h⟩
    rw [readi, h0, readiLoop, Dinode.bytes, List.range_zero, List.map_nil]
  · obtain ⟨k, d', I', hcall, hk, hst⟩ :=
      readiLoop_spec (T := T) (i := i) _ [] h (Nat.le_refl _) (by omega) hT
    exact ⟨k, d', I', hcall, hk, hst⟩

/-! ## `iupdate` and `ialloc` -/

/-- An inode goes to the disk, with the blocks it had or without some of them. -/
theorem Sound.iupdate (h : Sound d I) (ip : Dinode) (hi : i < d.sb.ninodes)
    (hslot : ∀ s, ip.slot d.data s = 0 ∨ ip.slot d.data s = (I i).slot d.data s) :
    Sound (iupdate d i ip) (Function.update I i ip) := by
  have hframe : Framed d.data (Fs.iupdate d i ip).data I := h.framed_iupdate hi ip
  have hbits : ∀ c, (Fs.iupdate d i ip).data (d.sb.bblock c) = d.data (d.sb.bblock c) := fun c =>
    Function.update_of_ne (h.laid.iblock_ne hi c).symm _ _
  have huse : ∀ c, (Fs.iupdate d i ip).inUse c = d.inUse c := fun c => by
    unfold Disk.inUse
    exact congrArg (fun b => bit b (c % 8192)) (hbits c)
  -- the new inode is read from the same indirect block
  have hip : ∀ s, ip.slot (Fs.iupdate d i ip).data s = ip.slot d.data s := by
    refine slot_congr fun hind => Function.update_of_ne (Nat.ne_of_gt ?_) _ _
    have hold := (hslot .indirect).resolve_left hind
    have hdata := h.isData (j := i) (s := .indirect) (hold ▸ hind)
    rw [← hold] at hdata
    exact Nat.lt_of_lt_of_le (h.laid.iblock_lt hi) hdata.1
  refine ⟨h.laid, ?_, fun b hb hsize => (huse b).trans (h.used b hb hsize)⟩
  refine Lib.Owns.mono (Lib.Owns.drop h.owned fun p => ?_) fun _ _ hp => ⟨hp.1, (huse _).trans hp.2⟩
  by_cases hp : p.1 = i
  · rw [hp, Function.update_self, hip]
    exact hslot p.2
  · rw [Function.update_of_ne hp, hframe.slot]
    exact .inr rfl

theorem ialloc_cases (d : Disk) (type : Nat) : Fs.ialloc d type = (none, d) ∨
    ∃ n, n < d.sb.ninodes ∧ (d.dinode n).type = 0 ∧
      Fs.ialloc d type = (some n, Fs.iupdate d n ⟨type, 0, 0, 0, 0, fun _ => 0⟩) := by
  unfold Fs.ialloc
  cases hfind : (List.range d.sb.ninodes).find? fun n =>
    decide (1 ≤ n) && (d.dinode n).type == 0 with
  | none => exact .inl rfl
  | some n =>
    have hmem := List.mem_range.mp (List.mem_of_find?_eq_some hfind)
    have hfree := List.find?_some hfind
    rw [Bool.and_eq_true, beq_iff_eq] at hfree
    exact .inr ⟨n, hmem, hfree.2, rfl⟩

/-! ## `bfree` -/

/-- The blocks in `xs` are free; nothing but the bitmap changed. -/
structure Frees (xs : List Nat) (d d' : Disk) : Prop where
  sb : d'.sb = d.sb
  data : ∀ b, (∀ x ∈ xs, b ≠ d.sb.bblock x) → d'.data b = d.data b
  inUse : ∀ b, d'.inUse b = (decide (b ∉ xs) && d.inUse b)
  logged : ∀ b ∈ d'.logged, b ∈ d.logged ∨ ∃ x ∈ xs, b = d.sb.bblock x

theorem Frees.refl (d : Disk) : Frees [] d d :=
  ⟨rfl, fun _ _ => rfl, fun b => by simp, fun _ hb => .inl hb⟩

theorem Frees.trans {d'' : Disk} {ys : List Nat} (h : Frees xs d d') (h' : Frees ys d' d'') :
    Frees (xs ++ ys) d d'' where
  sb := h'.sb.trans h.sb
  data := fun b hb => by
    rw [h'.data b fun x hx => by rw [h.sb]; exact hb x (List.mem_append_right _ hx),
      h.data b fun x hx => hb x (List.mem_append_left _ hx)]
  inUse := fun b => by
    rw [h'.inUse, h.inUse]
    simp only [List.mem_append, not_or, Bool.decide_and, Bool.and_assoc]
    rw [Bool.and_left_comm]
  logged := fun b hb => by
    rcases h'.logged b hb with hb | ⟨x, hx, rfl⟩
    · rcases h.logged b hb with hb | ⟨x, hx, rfl⟩
      · exact .inl hb
      · exact .inr ⟨x, List.mem_append_left _ hx, rfl⟩
    · rw [h.sb]
      exact .inr ⟨x, List.mem_append_right _ hx, rfl⟩

theorem bfree_spec (h : d.inUse x = true) : ∃ d', bfree d x = .ok d' ∧ Frees [x] d d' := by
  refine ⟨_, if_pos h, rfl, fun b hb => Function.update_of_ne (hb x List.mem_cons_self) _ _,
    fun b => ?_, fun b hb => ?_⟩
  · have hne : b ∉ [x] ↔ ¬ b = x := by rw [List.mem_singleton]
    unfold Disk.inUse
    show bit (Function.update d.data (d.sb.bblock x) (clearBit (d.data (d.sb.bblock x)) (x % 8192))
      (d.sb.bblock b)) (b % 8192) = _
    by_cases hblock : d.sb.bblock b = d.sb.bblock x
    · have hbit : x % 8192 = b % 8192 ↔ b = x := by
        unfold Superblock.bblock at hblock
        omega
      rw [hblock, Function.update_self, bit_clearBit, ← decide_not]
      congr 1
      exact decide_eq_decide.mpr (by rw [hne, hbit])
    · have hbx : b ≠ x := fun he => hblock (by rw [he])
      rw [Function.update_of_ne hblock, decide_eq_true (hne.mpr hbx), Bool.true_and]
  · exact (mem_logWrite.mp hb).imp_right fun he => ⟨x, List.mem_cons_self, he⟩

/-! ## `itrunc` -/

/-- The numbers of blocks among these. -/
abbrev present (xs : List Nat) : List Nat := xs.filter (· ≠ 0)

theorem present_cons_zero (h : x = 0) : present (x :: xs) = present xs :=
  List.filter_cons_of_neg (by simp [h])

theorem present_cons (h : x ≠ 0) : present (x :: xs) = x :: present xs :=
  List.filter_cons_of_pos (by simp [h])

theorem itruncDirect_spec : ∀ (as : List (Fin 13)) {d : Disk} {ip : Dinode}, as.Nodup →
    (present (as.map ip.addrs)).Nodup → (∀ x ∈ present (as.map ip.addrs), d.inUse x = true) →
    ∃ d', itruncDirect as d ip =
      .ok ({ ip with addrs := fun a => if a ∈ as then 0 else ip.addrs a }, d') ∧
      Frees (present (as.map ip.addrs)) d d' := by
  intro as
  induction as with
  | nil =>
    intro d ip _ _ _
    refine ⟨d, ?_, .refl d⟩
    simp only [itruncDirect, List.not_mem_nil, if_false]
  | cons a as ih =>
    intro d ip hnodup hvals huse
    obtain ⟨ha, hnodup⟩ := List.nodup_cons.mp hnodup
    rw [List.map_cons] at hvals huse ⊢
    by_cases hzero : ip.addrs a = 0
    · rw [present_cons_zero hzero] at hvals huse ⊢
      obtain ⟨d', hcall, hfrees⟩ := ih hnodup hvals huse
      refine ⟨d', ?_, hfrees⟩
      rw [itruncDirect, if_pos hzero, hcall]
      congr 3
      funext c
      by_cases hc : c = a
      · rw [hc, if_neg ha, if_pos List.mem_cons_self, hzero]
      · rw [if_congr (List.mem_cons.trans (or_iff_right hc)) rfl rfl]
    · rw [present_cons hzero] at hvals huse ⊢
      obtain ⟨hnot, hvals⟩ := List.nodup_cons.mp hvals
      obtain ⟨d₁, hfree, hfrees₁⟩ := bfree_spec (huse _ List.mem_cons_self)
      -- the other addresses are as they were
      have hsame : as.map (ip.setAddr a 0).addrs = as.map ip.addrs := by
        refine List.map_congr_left fun c hc => ?_
        rw [addrs_setAddr, if_neg fun he : c = a => ha (he ▸ hc)]
      have huse₁ : ∀ x ∈ present (as.map ip.addrs), d₁.inUse x = true := by
        intro x hx
        rw [hfrees₁.inUse, huse x (List.mem_cons_of_mem _ hx), Bool.and_true]
        exact decide_eq_true fun hmem => hnot (List.mem_singleton.mp hmem ▸ hx)
      obtain ⟨d', hcall, hfrees⟩ := @ih d₁ (ip.setAddr a 0) hnodup (by rw [hsame]; exact hvals)
        (by rw [hsame]; exact huse₁)
      rw [hsame] at hfrees
      refine ⟨d', ?_, hfrees₁.trans hfrees⟩
      rw [itruncDirect, if_neg hzero, hfree]
      show itruncDirect as d₁ (ip.setAddr a 0) = _
      rw [hcall]
      congr 3
      funext c
      rw [addrs_setAddr]
      by_cases hc : c = a
      · rw [hc, if_neg ha, if_pos rfl, if_pos List.mem_cons_self]
      · rw [if_neg hc, if_congr (List.mem_cons.trans (or_iff_right hc)) rfl rfl]

theorem itruncEntries_spec (ind : Nat) : ∀ (js : List Nat) {d : Disk},
    (present (js.map (word (d.data ind)))).Nodup →
    (∀ x ∈ present (js.map (word (d.data ind))), d.inUse x = true ∧ ind ≠ d.sb.bblock x) →
    ∃ d', itruncEntries ind js d = .ok d' ∧ Frees (present (js.map (word (d.data ind)))) d d' := by
  intro js
  induction js with
  | nil => exact fun _ _ => ⟨_, rfl, .refl _⟩
  | cons j js ih =>
    intro d hvals huse
    rw [List.map_cons] at hvals huse ⊢
    by_cases hzero : word (d.data ind) j = 0
    · rw [present_cons_zero hzero] at hvals huse ⊢
      obtain ⟨d', hcall, hfrees⟩ := ih hvals huse
      refine ⟨d', ?_, hfrees⟩
      rw [itruncEntries, if_pos hzero, hcall]
    · rw [present_cons hzero] at hvals huse ⊢
      obtain ⟨hnot, hvals⟩ := List.nodup_cons.mp hvals
      obtain ⟨hfirst, hne⟩ := huse _ List.mem_cons_self
      obtain ⟨d₁, hfree, hfrees₁⟩ := bfree_spec hfirst
      -- the indirect block is not a bitmap block
      have hind : d₁.data ind = d.data ind := hfrees₁.data ind fun x hx => by
        rw [List.mem_singleton.mp hx]
        exact hne
      have huse₁ : ∀ x ∈ present (js.map (word (d.data ind))), d₁.inUse x = true ∧
          ind ≠ d₁.sb.bblock x := by
        intro x hx
        obtain ⟨hu, hb⟩ := huse x (List.mem_cons_of_mem _ hx)
        rw [hfrees₁.inUse, hu, Bool.and_true, hfrees₁.sb]
        exact ⟨decide_eq_true fun hmem => hnot (List.mem_singleton.mp hmem ▸ hx), hb⟩
      obtain ⟨d', hcall, hfrees⟩ :=
        ih (d := d₁) (by rw [hind]; exact hvals) (by rw [hind]; exact huse₁)
      rw [hind] at hfrees
      refine ⟨d', ?_, hfrees₁.trans hfrees⟩
      rw [itruncEntries, if_neg hzero, hfree]
      exact hcall

/-- Numbers from different places differ. -/
theorem nodup_present {α : Type} {f : α → Nat} {as : List α} (has : as.Nodup)
    (hinj : ∀ a b, f a ≠ 0 → f a = f b → a = b) : (present (as.map f)).Nodup := by
  refine List.pairwise_filter.mpr (List.pairwise_map.mpr (has.imp fun {a b} hab => ?_))
  intro ha _ heq
  exact hab (hinj a b (by simpa using ha) heq)

/-- Different slots of an inode hold different blocks. -/
theorem Owned.nodup_slots {P : Nat → Prop} {data : Blocks} (h : Owned P data I) {ss : List Slot}
    (hss : ss.Nodup) : (present (ss.map ((I i).slot data))).Nodup :=
  nodup_present hss fun _ _ ha heq => (h.inj ha heq).2

/-- All blocks of inode `i` are free, and its inode on the disk is empty. -/
structure Truncated (i : Nat) (ip : Dinode) (d : Disk) (I : Nat → Dinode) (d' : Disk) : Prop where
  sb : d'.sb = d.sb
  sound : Sound d' (Function.update I i ip)
  byte : ∀ j, j ≠ i → ∀ x, (I j).byte d'.data x = (I j).byte d.data x
  slot : ∀ j, j ≠ i → ∀ s, (I j).slot d'.data s = (I j).slot d.data s
  dinode : ∀ j, j < d.sb.ninodes → j ≠ i → d'.dinode j = d.dinode j
  self : ip.Fits → d'.dinode i = ip
  freed : ∀ s, (I i).slot d.data s ≠ 0 → d'.inUse ((I i).slot d.data s) = false
  logged : ∀ b ∈ d'.logged, b ∈ d.logged ∨ (∃ c, c < d.sb.size ∧ b = d.sb.bblock c) ∨
    b = d.sb.iblock i

/-- Freeing the blocks of one inode. -/
theorem Frees.truncated (h : Sound d I) (hi : i < d.sb.ninodes) (hf : Frees xs d d')
    (hxs : ∀ x, x ∈ xs ↔ x ≠ 0 ∧ ∃ s, (I i).slot d.data s = x) (hip : ip.addrs = fun _ => 0) :
    Truncated i ip d I (iupdate d' i ip) := by
  have hmem : ∀ x ∈ xs, d.sb.isData x := by
    intro x hx
    obtain ⟨h0, s, rfl⟩ := (hxs x).mp hx
    exact h.isData h0
  have hbitmap : ∀ b, (∀ c, c < d.sb.size → b ≠ d.sb.bblock c) → d'.data b = d.data b :=
    fun b hb => hf.data b fun x hx => hb x (hmem x hx).2
  have hframe : Framed d.data d'.data I :=
    framed fun j s hs => hbitmap _ fun c hc => (h.isData hs).ne_bblock hc
  have hzero : ∀ (data : Blocks) s, ip.slot data s = 0 := fun data => slot_no_addrs data hip
  -- without inode i the blocks that are left are not among those freed
  have hsound : Sound d' (Function.update I i ip) := by
    refine ⟨hf.sb ▸ h.laid, ?_, fun b hb hsize => ?_⟩
    · rw [hf.sb]
      have hothers : Owned (fun b => d.sb.isData b ∧
          d.inUse b = true) d'.data (Function.update I i ip) := by
        refine Lib.Owns.drop h.owned fun p => ?_
        by_cases hp : p.1 = i
        · rw [hp, Function.update_self]
          exact .inl (hzero _ _)
        · rw [Function.update_of_ne hp, hframe.slot]
          exact .inr rfl
      refine Lib.Owns.mono hothers fun p hp hold => ⟨hold.1, ?_⟩
      have hpi : p.1 ≠ i := by
        intro he
        rw [he, Function.update_self, hzero] at hp
        exact hp rfl
      rw [Function.update_of_ne hpi, hframe.slot] at hp hold ⊢
      rw [hf.inUse, hold.2, Bool.and_true]
      refine decide_eq_true fun hin => ?_
      obtain ⟨-, s, hs⟩ := (hxs _).mp hin
      exact hpi (h.owned.inj hp hs.symm).1
    · rw [hf.sb] at hb hsize
      rw [hf.inUse, h.used b hb hsize, Bool.and_true]
      exact decide_eq_true fun hin => absurd (hmem b hin).1 (Nat.not_le_of_lt hb)
  have hi' : i < d'.sb.ninodes := hf.sb ▸ hi
  have hupdate := hsound.iupdate ip hi' fun s => .inl (hzero _ s)
  rw [Function.update_idem] at hupdate
  have hframe' : Framed d'.data (iupdate d' i ip).data (Function.update I i ip) :=
    hsound.framed_iupdate hi' ip
  refine ⟨hf.sb, hupdate, fun j hj x => ?_, fun j hj s => ?_, fun j hjn hj => ?_,
    dinode_iupdate_self d' i, fun s hs => ?_, fun b hb => ?_⟩
  · have := hframe'.byte j x
    rw [Function.update_of_ne hj] at this
    rw [this, hframe.byte]
  · have := hframe'.slot j s
    rw [Function.update_of_ne hj] at this
    rw [this, hframe.slot]
  · rw [dinode_iupdate_ne d' hj]
    unfold Disk.dinode
    rw [hf.sb, hbitmap _ fun c _ => h.laid.iblock_ne hjn c]
  · have hin := (hxs _).mpr ⟨hs, s, rfl⟩
    rw [inUse_congr (show (iupdate d' i ip).sb = d'.sb from rfl)
      (fun c _ => Function.update_of_ne (hsound.laid.iblock_ne hi' c).symm _ _)
      (hf.sb ▸ (hmem _ hin).2), hf.inUse]
    simp [hin]
  · rcases mem_logWrite.mp hb with hb | rfl
    · exact (hf.logged b hb).imp_right fun hx => by
        obtain ⟨x, hx, rfl⟩ := hx
        exact .inl ⟨x, (hmem x hx).2, rfl⟩
    · rw [hf.sb]
      exact .inr (.inr rfl)

/-- The slots in the order `itrunc` goes through them. -/
def slotOrder : List Slot :=
  (List.finRange 12).map .direct ++ ((List.finRange 256).map .entry ++ [.indirect])

theorem mem_slotOrder (s : Slot) : s ∈ slotOrder := by
  unfold slotOrder
  cases s with
  | direct c => exact List.mem_append_left _ (List.mem_map_of_mem (List.mem_finRange c))
  | indirect => exact List.mem_append_right _ (List.mem_append_right _ List.mem_cons_self)
  | entry j =>
    exact List.mem_append_right _
      (List.mem_append_left _ (List.mem_map_of_mem (List.mem_finRange j)))

theorem nodup_slotOrder : slotOrder.Nodup := by
  have hinj₁ : Function.Injective Slot.direct := fun _ _ h => Slot.direct.inj h
  have hinj₂ : Function.Injective Slot.entry := fun _ _ h => Slot.entry.inj h
  refine List.nodup_append.mpr ⟨(List.nodup_finRange 12).map hinj₁, List.nodup_append.mpr
    ⟨(List.nodup_finRange 256).map hinj₂, List.nodup_singleton _, fun a ha b hb heq => ?_⟩,
    fun a ha b hb heq => ?_⟩
  · obtain ⟨j, -, rfl⟩ := List.mem_map.mp ha
    rw [List.mem_singleton.mp hb] at heq
    cases heq
  · obtain ⟨c, -, rfl⟩ := List.mem_map.mp ha
    subst heq
    rcases List.mem_append.mp hb with hb | hb
    · obtain ⟨j, -, hj⟩ := List.mem_map.mp hb
      cases hj
    · cases List.mem_singleton.mp hb

/-- The blocks in the entries of an indirect block. -/
abbrev entryBlocks (data : Blocks) (ip : Dinode) : List Nat :=
  ((List.finRange 256).map Slot.entry).map (ip.slot data)

theorem entryBlocks_eq (data : Blocks) (h : ip.ind ≠ 0) :
    entryBlocks data ip = (List.range 256).map (word (data ip.ind)) := by
  have hslot : ∀ j, ip.slot data (.entry j) = word (data ip.ind) j := fun j => if_neg h
  rw [entryBlocks, ← List.map_coe_finRange_eq_range, List.map_map, List.map_map]
  exact List.map_congr_left fun j _ => hslot j

theorem itruncIndirect_spec (ip : Dinode)
    (hnodup : (present (entryBlocks d.data ip) ++ present [ip.ind]).Nodup)
    (huse : ∀ x ∈ present (entryBlocks d.data ip) ++ present [ip.ind], d.inUse x = true)
    (hind : ip.ind ≠ 0 → ∀ x ∈ present (entryBlocks d.data ip), ip.ind ≠ d.sb.bblock x) :
    ∃ d', itruncIndirect d ip = .ok (ip.setAddr (Fin.last 12) 0, d') ∧
      Frees (present (entryBlocks d.data ip) ++ present [ip.ind]) d d' := by
  by_cases hzero : ip.ind = 0
  · have hnone : present (entryBlocks d.data ip) = [] := by
      refine List.filter_eq_nil_iff.mpr fun x hx => ?_
      obtain ⟨s, hs, rfl⟩ := List.mem_map.mp hx
      obtain ⟨j, -, rfl⟩ := List.mem_map.mp hs
      rw [Dinode.slot, if_pos hzero]
      decide
    have hsame : ip.setAddr (Fin.last 12) 0 = ip := by
      rw [Dinode.setAddr, ← hzero, Function.update_eq_self]
    rw [itruncIndirect, if_pos hzero, hsame, hnone, present_cons_zero hzero]
    exact ⟨d, rfl, .refl d⟩
  · rw [present_cons hzero] at hnodup huse ⊢
    obtain ⟨hnd, -, hdisj⟩ := List.nodup_append.mp hnodup
    have heq := entryBlocks_eq d.data hzero
    rw [heq] at hnd huse hind hdisj ⊢
    obtain ⟨d₁, hcall₁, hfrees₁⟩ := itruncEntries_spec ip.ind (List.range 256) hnd fun x hx =>
      ⟨huse x (List.mem_append_left _ hx), hind hzero x hx⟩
    have hmem : ip.ind ∈ ip.ind :: present [] := List.mem_cons_self
    obtain ⟨d₂, hcall₂, hfrees₂⟩ := bfree_spec (d := d₁) (x := ip.ind) (by
      rw [hfrees₁.inUse, huse _ (List.mem_append_right _ hmem), Bool.and_true]
      exact decide_eq_true fun hin => hdisj _ hin _ hmem rfl)
    refine ⟨d₂, ?_, hfrees₁.trans hfrees₂⟩
    rw [itruncIndirect, if_neg hzero, hcall₁]
    show (bfree d₁ ip.ind >>= _) = _
    rw [hcall₂]
    rfl

/-- `itrunc` up to the inode. -/
theorem itrunc_frees (h : Sound d I) :
    ∃ d', Frees (present (slotOrder.map ((I i).slot d.data))) d d' ∧
    itrunc d i (I i) = .ok ({ I i with size := 0, addrs := fun _ => 0 },
      iupdate d' i { I i with size := 0, addrs := fun _ => 0 }) := by
  have hnodup := h.owned.nodup_slots (i := i) nodup_slotOrder
  have huse : ∀ x ∈ present (slotOrder.map ((I i).slot d.data)), d.sb.isData x ∧
      d.inUse x = true := by
    intro x hx
    obtain ⟨hx, h0⟩ := List.mem_filter.mp hx
    obtain ⟨s, -, rfl⟩ := List.mem_map.mp hx
    exact h.owned.mem (by simpa using h0)
  have hparts : present (slotOrder.map ((I i).slot d.data)) =
      present (((List.finRange 12).map Fin.castSucc).map (I i).addrs) ++
        (present (entryBlocks d.data (I i)) ++ present [(I i).ind]) := by
    have hdirect : ((List.finRange 12).map Slot.direct).map ((I i).slot d.data) =
        ((List.finRange 12).map Fin.castSucc).map (I i).addrs := by
      rw [List.map_map, List.map_map]
      exact List.map_congr_left fun _ _ => rfl
    unfold present slotOrder
    rw [List.map_append, List.map_append, List.filter_append, List.filter_append, hdirect]
    exact congrArg _ (congrArg _ rfl)
  rw [hparts] at hnodup huse ⊢
  obtain ⟨hnd₁, hnd₂, hdisj⟩ := List.nodup_append.mp hnodup
  have has : ((List.finRange 12).map Fin.castSucc).Nodup :=
    (List.nodup_finRange 12).map (Fin.castSucc_injective 12)
  obtain ⟨d₁, hcall₁, hfrees₁⟩ := itruncDirect_spec _ has hnd₁ fun x hx =>
    (huse x (List.mem_append_left _ hx)).2
  generalize hip₁ : Dinode.mk (I i).type (I i).major (I i).minor (I i).nlink (I i).size
    (fun a => if a ∈ (List.finRange 12).map Fin.castSucc then 0 else (I i).addrs a) = ip₁ at hcall₁
  have hlast : Fin.last 12 ∉ (List.finRange 12).map Fin.castSucc := by
    intro hmem
    obtain ⟨c, -, hc⟩ := List.mem_map.mp hmem
    exact (Fin.castSucc_lt_last c).ne hc
  have hind₁ : ip₁.ind = (I i).ind := by
    rw [← hip₁]
    show (if Fin.last 12 ∈ (List.finRange 12).map Fin.castSucc then 0 else (I i).addrs
      (Fin.last 12)) = _
    rw [if_neg hlast]
  -- the indirect block is where it was, and so is what is in it
  have hkept : (I i).ind ≠ 0 → d₁.data (I i).ind = d.data (I i).ind := by
    intro hind
    have hdata : d.sb.isData (I i).ind := h.isData (j := i) (s := .indirect) hind
    exact hfrees₁.data _ fun x hx => hdata.ne_bblock (huse x (List.mem_append_left _ hx)).1.2
  have hentries : entryBlocks d₁.data ip₁ = entryBlocks d.data (I i) := by
    unfold entryBlocks
    refine List.map_congr_left fun s hs => ?_
    obtain ⟨j, -, rfl⟩ := List.mem_map.mp hs
    by_cases hzero : (I i).ind = 0
    · rw [Dinode.slot, Dinode.slot, if_pos (hind₁.trans hzero), if_pos hzero]
    · rw [Dinode.slot, Dinode.slot, if_neg (hind₁ ▸ hzero), if_neg hzero, hind₁, hkept hzero]
  obtain ⟨d₂, hcall₂, hfrees₂⟩ := itruncIndirect_spec (d := d₁) ip₁
    (by rw [hentries, hind₁]; exact hnd₂)
    (fun x hx => by
      rw [hentries, hind₁] at hx
      rw [hfrees₁.inUse, (huse x (List.mem_append_right _ hx)).2, Bool.and_true]
      exact decide_eq_true fun hin => hdisj x hin x hx rfl)
    (fun hne x hx => by
      rw [hentries] at hx
      rw [hind₁] at hne ⊢
      rw [hfrees₁.sb]
      have hdata : d.sb.isData (I i).ind := h.isData (j := i) (s := .indirect) hne
      exact hdata.ne_bblock (huse x (List.mem_append_right _ (List.mem_append_left _ hx))).1.2)
  rw [hentries, hind₁] at hfrees₂
  refine ⟨d₂, hfrees₁.trans hfrees₂, ?_⟩
  have hclear : ({ ip₁.setAddr (Fin.last 12) 0 with size := 0 } : Dinode) =
      { I i with size := 0, addrs := fun _ => 0 } := by
    rw [← hip₁]
    refine Dinode.ext rfl rfl rfl rfl rfl (funext fun c => ?_)
    refine (addrs_setAddr _ _ _ _).trans ?_
    cases c using Fin.lastCases with
    | last => exact if_pos rfl
    | cast c =>
      rw [if_neg (Fin.castSucc_lt_last c).ne]
      exact if_pos (List.mem_map_of_mem (List.mem_finRange c))
  rw [itrunc, hcall₁]
  show (itruncIndirect d₁ ip₁ >>= _) = _
  rw [hcall₂]
  show Except.ok (({ ip₁.setAddr (Fin.last 12) 0 with size := 0 } : Dinode),
    iupdate d₂ i { ip₁.setAddr (Fin.last 12) 0 with size := 0 }) = _
  rw [hclear]

/-- **`itrunc`** frees the blocks of an inode, each of which is in use. -/
theorem itrunc_spec (h : Sound d I) (hi : i < d.sb.ninodes) :
    ∃ d', itrunc d i (I i) = .ok ({ I i with size := 0, addrs := fun _ => 0 }, d') ∧
      Truncated i { I i with size := 0, addrs := fun _ => 0 } d I d' := by
  obtain ⟨d₁, hfrees, hcall⟩ := itrunc_frees (i := i) h
  refine ⟨_, hcall, hfrees.truncated h hi (fun x => ?_) rfl⟩
  rw [List.mem_filter, List.mem_map, and_comm]
  refine and_congr (by simp) ⟨fun hs => ?_, fun hs => ?_⟩
  · obtain ⟨s, -, hs⟩ := hs
    exact ⟨s, hs⟩
  · obtain ⟨s, hs⟩ := hs
    exact ⟨s, mem_slotOrder s, hs⟩

/-! ## `writei` -/

theorem fetch_le {eitherCopyin : σ → Nat → Nat → Bool × List UInt8 × σ} : ∀ (fuel : Nat) (s : σ)
    (off : Nat) {src n : Nat}, Lawful eitherCopyin src n →
    (fetch eitherCopyin fuel s off src n).1.length ≤ n := by
  intro fuel
  induction fuel with
  | zero => exact fun _ _ _ _ _ => Nat.zero_le _
  | succ fuel ih =>
    intro s off src n hlaw
    by_cases hzero : n = 0
    · rw [fetch, if_pos hzero]
      exact Nat.zero_le _
    · generalize hm : min n (1024 - off % 1024) = m
      obtain ⟨-, hall⟩ := hlaw s src m (Nat.le_refl _) (by omega)
      cases hcopy : eitherCopyin s src m with
      | mk ok rest =>
        obtain ⟨bytes, s'⟩ := rest
        rw [hcopy] at hall
        cases ok with
        | false =>
          rw [fetch_part fuel hzero hm hcopy]
          exact Nat.zero_le _
        | true =>
          have hrest := ih s' (off + m) (hlaw.tail (m := m) (by omega))
          have hlen : bytes.length = m := hall rfl
          rw [fetch_whole fuel hzero hm hcopy, List.length_append, hlen]
          omega

/-- The blocks after the inode has been written, seen through the inodes after. -/
theorem slot_closed (h : Sound d I) (hi : i < d.sb.ninodes) (hip : ip.addrs = (I i).addrs) (j : Nat)
    (s : Slot) :
    (Function.update I i ip j).slot (iupdate d i ip).data s = (I j).slot d.data s := by
  have haddrs : (Function.update I i ip j).addrs = (I j).addrs := by
    by_cases hj : j = i
    · subst hj
      rw [Function.update_self, hip]
    · rw [Function.update_of_ne hj]
  rw [slot_of_addrs haddrs, (h.framed_iupdate hi ip).slot]

/-- **`writei`** within the bounds: stores of some bytes, and then the inode with its new size. With
the buffer it did not log dropped from the cache, fewer bytes were stored. -/
theorem writei_closes {eitherCopyin : σ → Nat → Nat → Bool × List UInt8 × σ} (s : σ) {src : Nat}
    (h : Sound d I) (hi : i < d.sb.ninodes) (hoff : off ≤ (I i).size) (hend : off + n ≤ 268 * 1024)
    (hlaw : Lawful eitherCopyin src n)
    (hT : ∀ x, off ≤ x → x < off + n → ∀ t, Touches (x / 1024) t → T t) :
    ∃ w, writei eitherCopyin d i (I i) s off src n = .ok (some w) ∧ ∀ gone : Bool, ∃ d₀ I₀ bytes t,
      Stores T i off bytes d I d₀ I₀ ∧ t ≤ bytes.length ∧ t ≤ n ∧
        w.ip = { I₀ i with size := max (I₀ i).size (off + t) } ∧
          (if gone = true then w.evicted else w.d) = iupdate d₀ i w.ip := by
  obtain ⟨w, I', hcall, hip, hends⟩ := writei_spec (T := T) (i := i) s h hoff hend hlaw hT
  refine ⟨_, hcall, fun gone => ?_⟩
  have hle := fetch_le n s off hlaw
  cases hends with
  | done hnone htot htorn hst =>
    refine ⟨w.d, I', _, _, hst, Nat.le_refl _, hle, close_ip hip htot, ?_⟩
    rw [Written.evicted, show (w.close i off).torn = none from htorn, ite_self]
    rfl
  | full hchunks hlt htot htorn hst hblock hfull =>
    refine ⟨w.d, I', _, _, hst, Nat.le_refl _, Nat.le_of_lt hlt, close_ip hip htot, ?_⟩
    rw [Written.evicted, show (w.close i off).torn = none from htorn, ite_self]
    rfl
  | torn hsome htot htorn hdata hst hold =>
    rename_i bytes b old
    by_cases hdrop : gone = true ∧ b ∉ (w.close i off).d.logged
    · have hb : b ≠ w.d.sb.iblock i := by
        rw [hst.sb]
        exact Nat.ne_of_gt (Nat.lt_of_lt_of_le (h.laid.iblock_lt hi) hdata.1)
      refine ⟨_, I', _, _, hold, Nat.le_refl _, hle, close_ip hip htot, ?_⟩
      rw [if_pos hdrop.1, evicted_close htorn hb hdrop.2]
    · refine ⟨w.d, I', _, _, hst, List.length_append ▸ Nat.le_add_right _ _, hle,
        close_ip hip htot, ?_⟩
      have hsame : (if gone = true then (w.close i off).evicted else (w.close i off).d) =
          (w.close i off).d := by
        split
        · rename_i hgone
          have hlog : b ∈ (w.close i off).d.logged := by
            by_contra hnot
            exact hdrop ⟨hgone, hnot⟩
          rw [Written.evicted, show (w.close i off).torn = some (b, old) from htorn]
          exact if_pos hlog
        · rfl
      rw [hsame]
      rfl

/-- What `writei` answers to an offset past the end, or a write past the largest file. -/
theorem writei_none {eitherCopyin : σ → Nat → Nat → Bool × List UInt8 × σ} {s : σ} {src : Nat}
    (hsize : ip.size ≤ 268 * 1024) (hn : n < 2 ^ 32)
    (hout : ¬ (off ≤ ip.size ∧ off + n ≤ 268 * 1024)) :
    writei eitherCopyin d i ip s off src n = .ok none := by
  rw [writei]
  split
  · rfl
  · rename_i hstart
    rw [if_pos]
    unfold toUint at hstart ⊢
    omega

end

end Xv6Paging.Fs
