import Xv6Paging.Proof.InodeBlocks

/-!
# Allocating blocks

`balloc` finds a block whose bit in the free bitmap is clear, and `bmap` puts it into an empty slot
of an inode. In a sound file system every block in a slot is a data block and has its bit set, so
that what `balloc` returns is in no slot: nobody who reads a file can tell that it was taken.
-/

namespace Xv6Paging.Fs

open Lib

variable {b c i j x bn : Nat} {d : Disk} {sb : Superblock}

/-! ## The layout of the disk -/

/-- The first block that is not boot block, superblock, log, inodes or bitmap. -/
def Superblock.dataStart (sb : Superblock) : Nat := sb.bmapstart + (sb.size + 8191) / 8192

/-- A block for the contents of files. -/
def Superblock.isData (sb : Superblock) (b : Nat) : Prop := sb.dataStart ≤ b ∧ b < sb.size

/-- The inodes come before the bitmap, and block numbers fit a word. -/
structure Superblock.Laid (sb : Superblock) : Prop where
  inodes : ∀ i, i < sb.ninodes → sb.iblock i < sb.bmapstart
  size : sb.size ≤ 2 ^ 32

theorem Superblock.isData.ne_zero (h : sb.isData b) : b ≠ 0 := by
  obtain ⟨hle, hlt⟩ := h
  unfold Superblock.dataStart at hle
  omega

theorem bblock_lt (sb : Superblock) (h : c < sb.size) : sb.bblock c < sb.dataStart := by
  unfold Superblock.bblock Superblock.dataStart
  omega

theorem Superblock.isData.ne_bblock (h : sb.isData b) (hc : c < sb.size) :
    b ≠ sb.bblock c := Nat.ne_of_gt (Nat.lt_of_lt_of_le (bblock_lt sb hc) h.1)

theorem Superblock.Laid.iblock_lt (h : sb.Laid) (hi : i < sb.ninodes) :
    sb.iblock i < sb.dataStart := Nat.lt_of_lt_of_le (h.inodes i hi) (Nat.le_add_right _ _)

theorem Superblock.Laid.iblock_ne (h : sb.Laid) (hi : i < sb.ninodes) (c : Nat) :
    sb.iblock i ≠ sb.bblock c :=
  Nat.ne_of_lt (Nat.lt_of_lt_of_le (h.inodes i hi) (Nat.le_add_left _ _))

theorem mem_logWrite {data : Block} :
    c ∈ (d.logWrite b data).logged ↔ c ∈ d.logged ∨ c = b := by
  show c ∈ (if b ∈ d.logged then d.logged else d.logged ++ [b]) ↔ _
  split
  · rename_i hb
    exact ⟨.inl, fun h => h.elim id fun heq => heq ▸ hb⟩
  · rw [List.mem_append, List.mem_singleton]

/-! ## `balloc` -/

/-- What `balloc` leaves when it takes block `x`. -/
def taken (d : Disk) (x : Nat) : Disk :=
  bzero (d.logWrite (d.sb.bblock x) (setBit (d.data (d.sb.bblock x)) (x % 8192))) x

theorem taken_zero (d : Disk) (x : Nat) : (taken d x).data x = zeroBlock := Function.update_self ..

theorem taken_ne (hx : c ≠ x) (hb : c ≠ d.sb.bblock x) :
    (taken d x).data c = d.data c :=
  (Function.update_of_ne hx _ _).trans (Function.update_of_ne hb _ _)

theorem inUse_taken (hx : d.sb.isData x) (hc : c < d.sb.size) :
    (taken d x).inUse c = (decide (c = x) || d.inUse c) := by
  have hxb : d.sb.bblock c ≠ x := (hx.ne_bblock hc).symm
  unfold Disk.inUse
  show bit ((taken d x).data (d.sb.bblock c)) _ = _
  by_cases hblock : d.sb.bblock c = d.sb.bblock x
  · have hdata : (taken d x).data (d.sb.bblock c) = setBit (d.data (d.sb.bblock x)) (x % 8192) := by
      rw [hblock] at hxb ⊢
      exact (Function.update_of_ne hxb _ _).trans (Function.update_self ..)
    have hbit : x % 8192 = c % 8192 ↔ c = x := by
      unfold Superblock.bblock at hblock
      omega
    rw [hdata, bit_setBit _ _ (by omega), hblock, decide_eq_decide.mpr hbit]
  · have hne : c ≠ x := fun h => hblock (by rw [h])
    rw [taken_ne hxb hblock, decide_eq_false hne, Bool.false_or]

theorem bit_of_add (d : Disk) {bi : Nat} (h : bi < 8192) :
    bit (d.data (d.sb.bblock (8192 * i))) bi = d.inUse (8192 * i + bi) := by
  have hblock : d.sb.bblock (8192 * i + bi) = d.sb.bblock (8192 * i) := by
    unfold Superblock.bblock
    omega
  have hmod : (8192 * i + bi) % 8192 = bi := by omega
  rw [Disk.inUse, hblock, hmod]

theorem freeFrom_some (h : freeFrom d (8192 * i) = some x) :
    x < d.sb.size ∧ d.inUse x = false := by
  obtain ⟨bi, hfind, rfl⟩ := Option.map_eq_some_iff.mp h
  have hmem := List.mem_range.mp (List.mem_of_find?_eq_some hfind)
  have hfree := List.find?_some hfind
  rw [bit_of_add d (by omega)] at hfree
  exact ⟨by omega, by simpa using hfree⟩

theorem freeFrom_none (h : freeFrom d (8192 * (x / 8192)) = none) (hx : x < d.sb.size) :
    d.inUse x = true := by
  have hfind := Option.map_eq_none_iff.mp h
  have hbit := List.find?_eq_none.mp hfind (x % 8192) (List.mem_range.mpr (by omega))
  rw [bit_of_add d (by omega), Nat.div_add_mod] at hbit
  simpa using hbit

/-- `balloc` takes a free block if there is one. -/
theorem balloc_cases (d : Disk) :
    (balloc d = (0, d) ∧ ∀ x, x < d.sb.size → d.inUse x = true) ∨
      ∃ x, x < d.sb.size ∧ d.inUse x = false ∧ balloc d = (x, taken d x) := by
  unfold balloc
  cases hfind : (List.range ((d.sb.size + 8192 - 1) / 8192)).findSome? fun i =>
    freeFrom d (8192 * i) with
  | none =>
    refine .inl ⟨rfl, fun x hx => freeFrom_none ?_ hx⟩
    exact List.findSome?_eq_none_iff.mp hfind (x / 8192) (List.mem_range.mpr (by omega))
  | some x =>
    obtain ⟨i, -, hi⟩ := List.exists_of_findSome?_eq_some hfind
    obtain ⟨hx, hfree⟩ := freeFrom_some hi
    exact .inr ⟨x, hx, hfree, rfl⟩

/-! ## A sound file system -/

/-- No block is in two slots; the blocks in slots are data blocks with their bit set; the bits of
the blocks before the data are set. -/
structure Sound (d : Disk) (I : Nat → Dinode) : Prop where
  laid : d.sb.Laid
  owned : Owned (fun b => d.sb.isData b ∧ d.inUse b = true) d.data I
  used : ∀ b, b < d.sb.dataStart → b < d.sb.size → d.inUse b = true

/-- The blocks `balloc` can still hand out. -/
def freeBlocks (d : Disk) : Finset Nat := (Finset.range d.sb.size).filter fun b => d.inUse b = false

theorem mem_freeBlocks : b ∈ freeBlocks d ↔ b < d.sb.size ∧ d.inUse b = false := by
  rw [freeBlocks, Finset.mem_filter, Finset.mem_range]

section

variable {d d' : Disk} {I I' : Nat → Dinode} {i x : Nat}

theorem inUse_congr (hsb : d'.sb = d.sb)
    (hbits : ∀ c, c < d.sb.size → d'.data (d.sb.bblock c) = d.data (d.sb.bblock c))
    (hb : b < d.sb.size) : d'.inUse b = d.inUse b := by
  rw [Disk.inUse, hsb, hbits b hb]
  rfl

theorem freeBlocks_congr (hsb : d'.sb = d.sb)
    (hbits : ∀ c, c < d.sb.size → d'.data (d.sb.bblock c) = d.data (d.sb.bblock c)) :
    freeBlocks d' = freeBlocks d := by
  refine Finset.ext fun b => ?_
  rw [mem_freeBlocks, mem_freeBlocks, hsb]
  exact and_congr_right fun hb => by rw [inUse_congr hsb hbits hb]

/-- Soundness is about the slots and the bitmap. -/
theorem Sound.congr (h : Sound d I) (hsb : d'.sb = d.sb)
    (hbits : ∀ c, c < d.sb.size → d'.data (d.sb.bblock c) = d.data (d.sb.bblock c))
    (hslot : ∀ j s, (I' j).slot d'.data s = (I j).slot d.data s) : Sound d' I' := by
  refine ⟨hsb ▸ h.laid, ?_, ?_⟩
  · rw [hsb]
    exact Lib.Owns.mono (h.owned.of_slot hslot) fun _ _ hp =>
      ⟨hp.1, (inUse_congr hsb hbits hp.1.2).trans hp.2⟩
  · intro b hb hsize
    rw [hsb] at hb hsize
    rw [inUse_congr hsb hbits hsize]
    exact h.used b hb hsize

theorem Sound.isData (h : Sound d I) {s : Slot} (hs : (I j).slot d.data s ≠ 0) :
    d.sb.isData ((I j).slot d.data s) := (h.owned.mem hs).1

theorem Sound.isData_block (h : Sound d I) (hb : (I j).block d.data bn ≠ 0) :
    d.sb.isData ((I j).block d.data bn) := by
  cases hs : dataSlot bn with
  | none =>
    rw [Dinode.block, hs] at hb
    exact absurd rfl hb
  | some s =>
    rw [block_eq hs] at hb ⊢
    exact h.isData hb

theorem Sound.free_isData (h : Sound d I) (hx : x < d.sb.size) (hfree : d.inUse x = false) :
    d.sb.isData x := by
  refine ⟨Nat.le_of_not_lt fun hlt => ?_, hx⟩
  rw [h.used x hlt hx] at hfree
  cases hfree

theorem Sound.free_ne_slot (h : Sound d I) (hfree : d.inUse x = false) (hx : x ≠ 0) (j : Nat)
    (s : Slot) : (I j).slot d.data s ≠ x := by
  intro heq
  have hused := (h.owned.mem (i := j) (s := s) (heq ▸ hx)).2
  rw [heq, hfree] at hused
  cases hused

/-- Taking a free block changes no slot and no byte of any file. -/
theorem Sound.framed_taken (h : Sound d I) (hx : x < d.sb.size) (hfree : d.inUse x = false) :
    Framed d.data (taken d x).data I := by
  refine framed fun j s hs => taken_ne ?_ ?_
  · exact h.free_ne_slot hfree (h.free_isData hx hfree).ne_zero j s
  · exact (h.isData hs).ne_bblock hx

theorem Sound.taken (h : Sound d I) (hx : x < d.sb.size) (hfree : d.inUse x = false) :
    Sound (taken d x) I := by
  have hdata := h.free_isData hx hfree
  have hkeep : ∀ b, b < d.sb.size → d.inUse b = true → (Fs.taken d x).inUse b = true := by
    intro b hb hu
    rw [inUse_taken hdata hb, hu, Bool.or_true]
  refine ⟨h.laid, ?_, fun b hb hsize => hkeep b hsize (h.used b hb hsize)⟩
  refine (Owned.of_slot (P := fun b => d.sb.isData b ∧ (Fs.taken d x).inUse b = true) ?_
    (h.framed_taken hx hfree).slot)
  exact Lib.Owns.mono h.owned fun _ _ hb => ⟨hb.1, hkeep _ hb.1.2 hb.2⟩

theorem freeBlocks_taken (h : Sound d I) (hx : x < d.sb.size) (hfree : d.inUse x = false) :
    freeBlocks d = insert x (freeBlocks (taken d x)) ∧ x ∉ freeBlocks (taken d x) := by
  have hdata := h.free_isData hx hfree
  refine ⟨Finset.ext fun b => ?_, fun hmem => ?_⟩
  · rw [Finset.mem_insert, mem_freeBlocks, mem_freeBlocks]
    show b < d.sb.size ∧ _ ↔ _ ∨ b < d.sb.size ∧ _
    by_cases hb : b < d.sb.size
    · rw [inUse_taken hdata hb]
      by_cases hbx : b = x
      · simp [hbx, hx, hfree]
      · simp [hb, hbx]
    · have hne : b ≠ x := fun h => hb (h ▸ hx)
      simp [hb, hne]
  · have := (mem_freeBlocks.mp hmem).2
    rw [inUse_taken hdata hx, decide_eq_true rfl] at this
    cases this

end

/-! ## What a store does -/

/-- The slots of an inode that were empty and no longer are. -/
def filledSlots (data data' : Blocks) (ip ip' : Dinode) : Finset Slot :=
  Finset.univ.filter fun s => ip.slot data s = 0 ∧ ip'.slot data' s ≠ 0

theorem mem_filledSlots {data data' : Blocks} {ip ip' : Dinode} {s : Slot} :
    s ∈ filledSlots data data' ip ip' ↔ ip.slot data s = 0 ∧ ip'.slot data' s ≠ 0 := by
  rw [filledSlots, Finset.mem_filter]
  exact and_iff_right (Finset.mem_univ s)

/--
`bytes` were stored at `off` of inode `i`. On the way empty slots of that inode, of those in `T`,
got a block; nothing else that belongs to a file changed, and no inode or log block. What was logged
is the bitmap and blocks in those slots.
-/
structure Stores (T : Slot → Prop) (i off : Nat) (bytes : List UInt8) (d : Disk) (I : Nat → Dinode)
    (d' : Disk) (I' : Nat → Dinode) : Prop where
  sb : d'.sb = d.sb
  sound : Sound d' I'
  others : ∀ j, j ≠ i → I' j = I j
  fields : I' i = { I i with addrs := (I' i).addrs }
  kept : ∀ j s, (I j).slot d.data s ≠ 0 → (I' j).slot d'.data s = (I j).slot d.data s
  filled : ∀ j s, (I j).slot d.data s = 0 → (I' j).slot d'.data s ≠ 0 → j = i ∧ T s
  card : (freeBlocks d).card = (freeBlocks d').card + (filledSlots d.data d'.data (I i) (I' i)).card
  inodes : ∀ b, b < d.sb.dataStart → (∀ c, c < d.sb.size → b ≠ d.sb.bblock c) → d'.data b = d.data b
  byte : ∀ j x, (I' j).byte d'.data x =
    if j = i ∧ off ≤ x then (bytes[x - off]?).getD ((I j).byte d.data x) else (I j).byte d.data x
  there : ∀ x, off ≤ x → x < off + bytes.length → (I' i).block d'.data (x / 1024) ≠ 0
  logged : ∀ b ∈ d'.logged, b ∈ d.logged ∨ (∃ c, c < d.sb.size ∧ b = d.sb.bblock c) ∨
    ∃ s, T s ∧ (I' i).slot d'.data s = b ∧ b ≠ 0

section

variable {T : Slot → Prop} {d d' d'' : Disk} {I I' I'' : Nat → Dinode} {i off x : Nat} {s : Slot}

theorem Stores.refl (h : Sound d I) : Stores T i off [] d I d I where
  sb := rfl
  sound := h
  others := fun _ _ => rfl
  fields := rfl
  kept := fun _ _ _ => rfl
  filled := fun _ _ h0 h1 => absurd h0 h1
  card := by
    have hnone : filledSlots d.data d.data (I i) (I i) = ∅ :=
      Finset.filter_eq_empty_iff.mpr fun _ _ h => h.2 h.1
    rw [hnone, Finset.card_empty, Nat.add_zero]
  inodes := fun _ _ _ => rfl
  byte := fun j x => by simp
  there := fun x hx hlt => absurd hx (Nat.not_le_of_lt hlt)
  logged := fun _ hb => .inl hb

/-- A block that is in a slot stays there. -/
theorem Stores.slot_ne_zero {bytes : List UInt8} (h : Stores T i off bytes d I d' I')
    (hs : (I j).slot d.data s ≠ 0) : (I' j).slot d'.data s ≠ 0 := by
  rw [h.kept j s hs]
  exact hs

theorem Stores.block_ne_zero {bytes : List UInt8} (h : Stores T i off bytes d I d' I')
    (hb : (I j).block d.data bn ≠ 0) : (I' j).block d'.data bn ≠ 0 := by
  cases hs : dataSlot bn with
  | none =>
    rw [Dinode.block, hs] at hb
    exact absurd rfl hb
  | some s =>
    rw [block_eq hs] at hb ⊢
    exact h.slot_ne_zero hb

theorem Stores.filledSlots_append {a b : List UInt8} {off' : Nat} (h : Stores T i off a d I d' I')
    (h' : Stores T i off' b d' I' d'' I'') :
    (filledSlots d.data d''.data (I i) (I'' i)).card =
      (filledSlots d.data d'.data (I i) (I' i)).card +
        (filledSlots d'.data d''.data (I' i) (I'' i)).card := by
  rw [← Finset.card_union_of_disjoint]
  · congr 1
    ext t
    rw [Finset.mem_union, mem_filledSlots, mem_filledSlots, mem_filledSlots]
    have hkept := h.slot_ne_zero (j := i) (s := t)
    have hkept' := h'.slot_ne_zero (j := i) (s := t)
    tauto
  · refine Finset.disjoint_left.mpr fun t ht ht' => ?_
    exact (mem_filledSlots.mp ht).2 (mem_filledSlots.mp ht').1

/-- Bytes written one after the other. -/
theorem overwritten_append {p : Prop} [Decidable p] (off x : Nat) (a b : List UInt8) (v : UInt8) :
    (if p ∧ off + a.length ≤ x then
      (b[x - (off + a.length)]?).getD (if p ∧ off ≤ x then (a[x - off]?).getD v else v)
      else if p ∧ off ≤ x then (a[x - off]?).getD v else v) =
      if p ∧ off ≤ x then ((a ++ b)[x - off]?).getD v else v := by
  by_cases hx : p ∧ off ≤ x
  · rw [if_pos hx, if_pos hx]
    by_cases hlow : x - off < a.length
    · have hbefore : ¬ off + a.length ≤ x := by omega
      rw [if_neg fun he => hbefore he.2, List.getElem?_append_left hlow]
    · have hafter : off + a.length ≤ x := by omega
      rw [if_pos ⟨hx.1, hafter⟩, List.getElem?_append_right (Nat.le_of_not_lt hlow),
        List.getElem?_eq_none (Nat.le_of_not_lt hlow), Nat.sub_sub]
      rfl
  · rw [if_neg hx, if_neg hx, if_neg fun he => hx ⟨he.1, by omega⟩]

theorem Stores.append {a b : List UInt8} (h : Stores T i off a d I d' I')
    (h' : Stores T i (off + a.length) b d' I' d'' I'') : Stores T i off (a ++ b) d I d'' I'' where
  sb := h'.sb.trans h.sb
  sound := h'.sound
  others := fun j hj => (h'.others j hj).trans (h.others j hj)
  fields := by rw [h'.fields, h.fields]
  kept := fun j s hs => (h'.kept j s (h.slot_ne_zero hs)).trans (h.kept j s hs)
  filled := fun j s h0 h2 => by
    by_cases h1 : (I' j).slot d'.data s = 0
    · exact h'.filled j s h1 h2
    · exact h.filled j s h0 h1
  card := by
    rw [h.filledSlots_append h', h.card, h'.card]
    omega
  inodes := fun c hc hb => by
    rw [← h.inodes c hc hb]
    refine h'.inodes c ?_ ?_
    · rw [h.sb]
      exact hc
    · rw [h.sb]
      exact hb
  byte := fun j x => by
    rw [h'.byte, h.byte]
    exact overwritten_append off x a b _
  there := fun x hx hlt => by
    rw [List.length_append] at hlt
    by_cases hlow : x < off + a.length
    · exact h'.block_ne_zero (h.there x hx hlow)
    · exact h'.there x (Nat.le_of_not_lt hlow) (by omega)
  logged := fun c hc => by
    rcases h'.logged c hc with hc | ⟨x, hx, rfl⟩ | hslot
    · rcases h.logged c hc with hc | hbit | ⟨s, hs, hat, hne⟩
      · exact .inl hc
      · exact .inr (.inl hbit)
      · subst hat
        exact .inr (.inr ⟨s, hs, h'.kept i s hne, hne⟩)
    · rw [h.sb] at hx ⊢
      exact .inr (.inl ⟨x, hx, rfl⟩)
    · exact .inr (.inr hslot)

/-! ## Filling a slot with a new block -/

/-- Block `x` is taken and put into slot `s`; beside it only data blocks changed. -/
theorem Sound.fill (h : Sound d I) (hx : x < d.sb.size) (hfree : d.inUse x = false)
    (hsb : d'.sb = d.sb) (hfill : Filled (Fs.taken d x).data d'.data I I' i s x)
    (hempty : (I i).slot d.data s = 0)
    (hlow : ∀ b, b < d.sb.dataStart → d'.data b = (Fs.taken d x).data b)
    (hlogged : ∀ b ∈ d'.logged, b ∈ (Fs.taken d x).logged ∨ ∃ t, T t ∧ (I' i).slot d'.data t = b ∧
      b ≠ 0) (hothers : ∀ j, j ≠ i → I' j = I j)
      (hfields : I' i = { I i with addrs := (I' i).addrs })
    (hT : T s) : Stores T i off [] d I d' I' := by
  have hframe := h.framed_taken hx hfree
  have hdata := h.free_isData hx hfree
  have hsound := h.taken hx hfree
  have hslot : ∀ j t, (I' j).slot d'.data t = if j = i ∧ t = s then x else (I j).slot d.data t := by
    intro j t
    rw [hfill.slot, hframe.slot]
  have hbits : ∀ c, c < d.sb.size → d'.data (d.sb.bblock c) = (Fs.taken d x).data (d.sb.bblock c) :=
    fun c hc => hlow _ (bblock_lt d.sb hc)
  have huse : ∀ b, b < d.sb.size → d'.inUse b = (Fs.taken d x).inUse b :=
    fun b hb => inUse_congr (d := Fs.taken d x) hsb hbits hb
  have hfreeBlocks : freeBlocks d' = freeBlocks (Fs.taken d x) :=
    freeBlocks_congr (d := Fs.taken d x) hsb hbits
  refine ⟨hsb, ⟨hsb ▸ h.laid, ?_, ?_⟩, hothers, hfields, ?_, ?_, ?_, ?_, ?_,
    fun y hy hlt => absurd hy (Nat.not_le_of_lt hlt), ?_⟩
  · have howned : Owned (fun b => d.sb.isData b ∧ (Fs.taken d x).inUse b = true) d'.data I' := by
      refine hfill.owned hsound.owned (fun j t => ?_) ⟨hdata, ?_⟩
      · rw [hframe.slot]
        exact h.free_ne_slot hfree hdata.ne_zero j t
      · rw [inUse_taken hdata hx, decide_eq_true rfl, Bool.true_or]
    rw [hsb]
    exact Lib.Owns.mono howned fun _ _ hb => ⟨hb.1, (huse _ hb.1.2).trans hb.2⟩
  · intro b hb hsize
    rw [hsb] at hb hsize
    rw [huse b hsize]
    exact hsound.used b hb hsize
  · intro j t ht
    rw [hslot, if_neg]
    rintro ⟨rfl, rfl⟩
    exact ht hempty
  · intro j t h0 h1
    rw [hslot] at h1
    by_cases hthis : j = i ∧ t = s
    · exact ⟨hthis.1, hthis.2 ▸ hT⟩
    · rw [if_neg hthis] at h1
      exact absurd h0 h1
  · have hone : filledSlots d.data d'.data (I i) (I' i) = {s} := by
      refine Finset.ext fun t => ?_
      rw [mem_filledSlots, Finset.mem_singleton, hslot]
      constructor
      · rintro ⟨h0, h1⟩
        by_contra hne
        rw [if_neg fun he => hne he.2] at h1
        exact h1 h0
      · rintro rfl
        rw [if_pos ⟨rfl, rfl⟩]
        exact ⟨hempty, hdata.ne_zero⟩
    obtain ⟨hins, hnot⟩ := freeBlocks_taken h hx hfree
    rw [hone, Finset.card_singleton, hfreeBlocks, hins, Finset.card_insert_of_notMem hnot]
  · intro b hb hbitmap
    rw [hlow b hb]
    exact taken_ne (Nat.ne_of_lt (Nat.lt_of_lt_of_le hb hdata.1)) (hbitmap x hx)
  · intro j y
    rw [hfill.byte, hframe.byte]
    simp
  · intro b hb
    rcases hlogged b hb with hb | hother
    · rcases mem_logWrite.mp hb with hb | rfl
      · rcases mem_logWrite.mp hb with hb | rfl
        · exact .inl hb
        · exact .inr (.inl ⟨x, hx, rfl⟩)
      · refine .inr (.inr ⟨s, hT, ?_, hdata.ne_zero⟩)
        rw [hslot, if_pos ⟨rfl, rfl⟩]
    · exact .inr (.inr hother)

/-- The slots `bmap` may fill for block `bn`. -/
def Touches (bn : Nat) (s : Slot) : Prop := dataSlot bn = some s ∨ s = .indirect ∧ 12 ≤ bn

variable (off) in
/-- The block of an address, old or new; 0 if the disk is full. -/
theorem bmapAddr_spec (h : Sound d I) (a : Fin 13) (hT : T (addrSlot a)) :
    ∃ addr ip' d', bmapAddr d (I i) a = (addr, ip', d') ∧
      Stores T i off [] d I d' (Function.update I i ip') ∧ ip'.addrs a = addr ∧
      (addr = 0 → (I i).addrs a = 0 ∧ ∀ b, b < d.sb.size → d'.inUse b = true) := by
  have hself : Function.update I i (I i) = I := Function.update_eq_self i I
  unfold bmapAddr
  by_cases hempty : (I i).addrs a = 0
  · rw [if_pos hempty]
    rcases balloc_cases d with ⟨hno, hfull⟩ | ⟨x, hx, hfree, hyes⟩
    · rw [hno]
      refine ⟨0, I i, d, rfl, ?_, hempty, fun _ => ⟨hempty, hfull⟩⟩
      rw [hself]
      exact .refl h
    · have hx0 := (h.free_isData hx hfree).ne_zero
      rw [hyes]
      refine ⟨x, (I i).setAddr a x, taken d x, if_neg hx0, ?_, ?_, fun h0 => absurd h0 hx0⟩
      · refine h.fill hx hfree rfl (filled_addr hempty (taken_zero d x))
          ((slot_addrSlot _ _ _).trans hempty) (fun _ _ => rfl) (fun _ hb => .inl hb)
          (fun j hj => Function.update_of_ne hj _ _) ?_ hT
        rw [Function.update_self]
        rfl
      · rw [addrs_setAddr, if_pos rfl]
  · rw [if_neg hempty]
    refine ⟨(I i).addrs a, I i, d, rfl, ?_, rfl, fun h0 => absurd h0 hempty⟩
    rw [hself]
    exact .refl h

variable (off) in
/-- The block of an entry of the indirect block. -/
theorem bmapEntry_spec (h : Sound d I) (hind : (I i).ind ≠ 0) (j : Fin 256) (hT : T (.entry j))
    (hTind : T .indirect) :
    ∃ addr d', bmapEntry d (I i).ind j = (addr, d') ∧ Stores T i off [] d I d' I ∧
      (I i).slot d'.data (.entry j) = addr ∧
      (addr = 0 → (I i).slot d.data (.entry j) = 0 ∧ ∀ b, b < d.sb.size → d'.inUse b = true) := by
  have hslot : ∀ data : Blocks, (I i).slot data (.entry j) = word (data (I i).ind) j :=
    fun data => if_neg hind
  unfold bmapEntry
  by_cases hempty : word (d.data (I i).ind) j = 0
  · rw [if_pos hempty]
    rcases balloc_cases d with ⟨hno, hfull⟩ | ⟨x, hx, hfree, hyes⟩
    · rw [hno]
      exact ⟨0, d, rfl, .refl h, (hslot _).trans hempty, fun _ => ⟨(hslot _).trans hempty, hfull⟩⟩
    · have hx0 := (h.free_isData hx hfree).ne_zero
      have hindx : (I i).ind ≠ x := h.free_ne_slot hfree hx0 i .indirect
      have hinddata : d.sb.isData (I i).ind := h.isData (j := i) (s := .indirect) hind
      have hind' : (taken d x).data (I i).ind = d.data (I i).ind :=
        taken_ne hindx (hinddata.ne_bblock hx)
      have hx32 : x < 2 ^ 32 := Nat.lt_of_lt_of_le hx h.laid.size
      rw [hyes]
      refine ⟨x, (taken d x).logWrite (I i).ind (setWord ((taken d x).data (I i).ind) j x),
        if_neg hx0, ?_, ?_, fun h0 => absurd h0 hx0⟩
      · refine h.fill hx hfree rfl ?_ ((hslot _).trans hempty) (fun b hb => ?_) (fun b hb => ?_)
          (fun _ _ => rfl)
          rfl hT
        · exact (h.taken hx hfree).owned.filled_entry hind (by rw [hind', hempty]) hx32 hindx.symm
            (taken_zero d x)
        · exact Function.update_of_ne (Nat.ne_of_lt (Nat.lt_of_lt_of_le hb hinddata.1)) _ _
        · rcases mem_logWrite.mp hb with hb | rfl
          · exact .inl hb
          · exact .inr ⟨.indirect, hTind, rfl, hind⟩
      · rw [show ((taken d x).logWrite (I i).ind (setWord ((taken d x).data (I i).ind) j x)).data =
            Function.update (taken d x).data (I i).ind
              (setWord ((taken d x).data (I i).ind) j x) from rfl,
          slot_setEntry j hind hx32, if_pos rfl]
  · rw [if_neg hempty]
    exact ⟨_, d, rfl, .refl h, hslot _, fun h0 => absurd h0 hempty⟩

variable (off) in
/-- **`bmap`** returns block `bn` of the file, which it puts there if need be; 0 only if the disk is
full. -/
theorem bmap_spec (h : Sound d I) (hbn : bn < 268) (hT : ∀ s, Touches bn s → T s) :
    ∃ addr ip' d', bmap d (I i) bn = .ok (addr, ip', d') ∧
      Stores T i off [] d I d' (Function.update I i ip') ∧ ip'.block d'.data bn = addr ∧
      (addr = 0 → (I i).block d.data bn = 0 ∧ ∀ b, b < d.sb.size → d'.inUse b = true) := by
  unfold bmap
  by_cases hdirect : bn < 12
  · have hslot : dataSlot bn = some (.direct ⟨bn, hdirect⟩) := dif_pos hdirect
    have haddr : addrSlot ⟨bn, Nat.lt_succ_of_lt hdirect⟩ = .direct ⟨bn, hdirect⟩ :=
      Fin.lastCases_castSucc (n := 12) (i := ⟨bn, hdirect⟩) ..
    rw [dif_pos hdirect]
    obtain ⟨addr, ip', d', hcall, hst, hat, hzero⟩ := bmapAddr_spec (T := T) (i := i) off h
      ⟨bn, Nat.lt_succ_of_lt hdirect⟩ (haddr ▸ hT _ (.inl hslot))
    rw [hcall]
    exact ⟨addr, ip', d', rfl, hst, (block_eq hslot _ _).trans hat,
      fun h0 => ⟨(block_eq hslot _ _).trans (hzero h0).1, (hzero h0).2⟩⟩
  · have hentry : bn - 12 < 256 := by omega
    have hslot : dataSlot bn = some (.entry ⟨bn - 12, hentry⟩) := by
      rw [dataSlot, dif_neg hdirect, dif_pos hentry]
    have hlast : addrSlot (Fin.last 12) = .indirect := Fin.lastCases_last
    rw [dif_neg hdirect, if_pos hentry]
    -- first the indirect block, then the entry in it
    obtain ⟨ind, ip₁, d₁, hcall, hst, hat, hzero⟩ := bmapAddr_spec (T := T) (i := i) off h
      (Fin.last 12) (hlast ▸ hT _ (.inr ⟨rfl, Nat.le_of_not_lt hdirect⟩))
    rw [hcall]
    by_cases hind : ind = 0
    · have hnone : ∀ (data : Blocks) (ip : Dinode), ip.ind = 0 → ip.block data bn = 0 := by
        intro data ip h0
        rw [block_eq hslot]
        exact if_pos h0
      refine ⟨0, ip₁, d₁, if_pos hind, hst, hnone _ _ (hat.trans hind), fun _ => ?_⟩
      exact ⟨hnone _ _ (hzero hind).1, (hzero hind).2⟩
    · have hself : Function.update I i ip₁ i = ip₁ := Function.update_self ..
      have hind₁ : (Function.update I i ip₁ i).ind = ind := by
        rw [hself]
        exact hat
      obtain ⟨addr, d₂, hcall₂, hst₂, hat₂, hzero₂⟩ := bmapEntry_spec (T := T) (i := i) off
        hst.sound (hind₁ ▸ hind) ⟨bn - 12, hentry⟩ (hT _ (.inl hslot))
        (hT _ (.inr ⟨rfl, Nat.le_of_not_lt hdirect⟩))
      rw [hind₁] at hcall₂
      refine ⟨addr, ip₁, d₂, ?_, hst.append (a := []) hst₂, ?_, fun h0 => ⟨?_, ?_⟩⟩
      · show (if ind = 0 then _ else _) = _
        rw [if_neg hind, hcall₂]
      · rw [hself] at hat₂
        exact (block_eq hslot _ _).trans hat₂
      · rw [block_eq hslot]
        by_contra hne
        have := hst.slot_ne_zero (j := i) hne
        exact this (hzero₂ h0).1
      · intro b hb
        exact (hzero₂ h0).2 b (by rw [hst.sb]; exact hb)

/-- A block that is there is returned, and nothing happens. -/
theorem bmap_present {ip : Dinode} (hb : ip.block d.data bn ≠ 0) :
    bmap d ip bn = .ok (ip.block d.data bn, ip, d) := by
  unfold bmap
  by_cases hdirect : bn < 12
  · have hslot : dataSlot bn = some (.direct ⟨bn, hdirect⟩) := dif_pos hdirect
    rw [block_eq hslot] at hb ⊢
    have haddr : ip.addrs ⟨bn, Nat.lt_succ_of_lt hdirect⟩ ≠ 0 := hb
    rw [dif_pos hdirect, bmapAddr, if_neg haddr]
    rfl
  · by_cases hentry : bn - 12 < 256
    · have hslot : dataSlot bn = some (.entry ⟨bn - 12, hentry⟩) := by
        rw [dataSlot, dif_neg hdirect, dif_pos hentry]
      rw [block_eq hslot] at hb ⊢
      have hind : ip.ind ≠ 0 := fun h0 => hb (if_pos h0)
      have hword : ip.slot d.data (.entry ⟨bn - 12, hentry⟩) = word (d.data ip.ind) (bn - 12) :=
        if_neg hind
      rw [hword] at hb ⊢
      rw [dif_neg hdirect, if_pos hentry, bmapAddr, if_neg hind]
      show (if ip.ind = 0 then _ else _) = _
      rw [if_neg hind, bmapEntry, if_neg hb]
    · rw [Dinode.block, dataSlot, dif_neg hdirect, dif_neg hentry] at hb
      exact absurd rfl hb

end

end Xv6Paging.Fs
