import Xv6Paging.Lib.Run
import Xv6Paging.Proof.BlockAlloc

/-!
# Reading and writing a file

`readi` and `writei` go through a file block by block. What `writei` gets from `either_copyin`, one
chunk per block, does not depend on the disk: `fetch` is the bytes of the chunks that were copied as
a whole, and the part of a chunk that was copied before `either_copyin` gave up. The loop stores
these bytes, unless the disk is full before that.
-/

namespace Xv6Paging.Fs

open Lib

/-- `n` bytes of a file. -/
def Dinode.bytes (data : Blocks) (ip : Dinode) (off n : Nat) : List UInt8 :=
  (List.range n).map fun i => ip.byte data (off + i)

/-- The blocks below the size of a file are there. -/
def Whole (data : Blocks) (ip : Dinode) : Prop := ∀ x, x < ip.size → ip.block data (x / 1024) ≠ 0

variable {m n off src addr : Nat} {ip ip' : Dinode} {bytes : List UInt8} {d : Disk} {data : Blocks}
  {σ : Type}

theorem bytes_length (data : Blocks) (ip : Dinode) (off n : Nat) :
    (ip.bytes data off n).length = n := by
  rw [Dinode.bytes, List.length_map, List.length_range]

theorem bytes_add (data : Blocks) (ip : Dinode) (off m n : Nat) :
    ip.bytes data off (m + n) = ip.bytes data off m ++ ip.bytes data (off + m) n := by
  unfold Dinode.bytes
  rw [List.range_add, List.map_append, List.map_map]
  congr 1
  refine List.map_congr_left fun j _ => ?_
  simp [Nat.add_assoc]

theorem block_lt {bn : Nat} (h : ip.block data bn ≠ 0) : bn < 268 := by
  by_contra hbn
  rw [Dinode.block, dataSlot, dif_neg (by omega), dif_neg (by omega)] at h
  exact h rfl

theorem Whole.size_le (h : Whole data ip) : ip.size ≤ 268 * 1024 := by
  by_contra hsize
  have := block_lt (h (ip.size - 1) (by omega))
  omega

/-! ## `readi` -/

theorem read_block (hb : ip.block d.data (off / 1024) ≠ 0) (hm : m ≤ 1024 - off % 1024) :
    Block.read (d.data (ip.block d.data (off / 1024))) (off % 1024) m = ip.bytes d.data off m := by
  unfold Block.read Dinode.bytes
  refine List.map_congr_left fun i hi => ?_
  have hi := List.mem_range.mp hi
  have hdiv : (off + i) / 1024 = off / 1024 := by omega
  have hmod : (off + i) % 1024 = off % 1024 + i := by omega
  rw [Dinode.byte, hdiv, byteIn, if_neg hb, byteAt, dif_pos (by omega), UInt8.ofNat_toNat]
  congr 1
  exact Fin.ext hmod.symm

theorem readiLoop_present : ∀ (fuel : Nat) {d : Disk} {ip : Dinode} {off n : Nat}
    (dst : List UInt8), n ≤ fuel → (∀ x, off ≤ x → x < off + n → ip.block d.data (x / 1024) ≠ 0) →
    readiLoop fuel d ip off n dst = .ok (dst ++ ip.bytes d.data off n, ip, d) := by
  intro fuel
  induction fuel with
  | zero =>
    intro d ip off n dst hn _
    rw [show n = 0 by omega, readiLoop, Dinode.bytes, List.range_zero, List.map_nil,
      List.append_nil]
  | succ fuel ih =>
    intro d ip off n dst hn hthere
    by_cases hzero : n = 0
    · rw [readiLoop, if_pos hzero, hzero, Dinode.bytes, List.range_zero, List.map_nil,
        List.append_nil]
    · have hb := hthere off (Nat.le_refl off) (by omega)
      generalize hm : min n (1024 - off % 1024) = m
      have hnext := @ih d ip (off + m) (n - m) (dst ++ ip.bytes d.data off m) (by omega)
        (fun x hx hlt => hthere x (by omega) (by omega))
      have hsplit : ip.bytes d.data off n = ip.bytes d.data off m ++
          ip.bytes d.data (off + m) (n - m) := by
        rw [← bytes_add]
        congr 1
        omega
      rw [hsplit, ← List.append_assoc, ← hnext, readiLoop, if_neg hzero, bmap_present hb]
      show (if _ then _ else _) = _
      rw [if_neg hb, hm, read_block hb (by omega)]

/-- **`readi`** of a file that has its blocks returns its bytes, and changes nothing. -/
theorem readi_present (h : Whole d.data ip) (off : Nat) (hn : n < 2 ^ 32) :
    readi d ip off n = .ok (ip.bytes d.data off (ip.readable off n), ip, d) := by
  refine readiLoop_present _ [] (Nat.le_refl _) fun x hx hlt => h x ?_
  have hsize := h.size_le
  unfold Dinode.readable at hlt
  split at hlt
  · omega
  · split at hlt
    · omega
    · rename_i hstart hend
      unfold toUint at hstart hend
      omega

theorem readable_eq (hoff : off ≤ ip.size) (hn : off + n < 2 ^ 32) :
    ip.readable off n = min (off + n) ip.size - off := by
  unfold Dinode.readable toUint
  rw [Nat.mod_eq_of_lt hn, if_neg (by omega)]
  split <;> omega

/-! ## What `writei` is given -/

section

variable {σ : Type}

/-- The chunks of a write, one for each block, as far as `either_copyin` copies them: the whole
ones, and what there is of the one it fails on. -/
def fetch (eitherCopyin : σ → Nat → Nat → Bool × List UInt8 × σ) :
    Nat → σ → Nat → Nat → Nat → List UInt8 × Option (List UInt8)
  | 0, _, _, _, _ => ([], none)
  | fuel + 1, s, off, src, n =>
    if n = 0 then ([], none)
    else
      let m := min n (1024 - off % 1024)
      match eitherCopyin s src m with
      | (true, bytes, s) =>
        let rest := fetch eitherCopyin fuel s (off + m) (src + m) (n - m)
        (bytes ++ rest.1, rest.2)
      | (false, bytes, _) => ([], some bytes)

theorem fetch_whole {eitherCopyin : σ → Nat → Nat → Bool × List UInt8 × σ} {s s' : σ} (fuel : Nat)
    (hn : n ≠ 0) (hm : min n (1024 - off % 1024) = m)
    (h : eitherCopyin s src m = (true, bytes, s')) : fetch eitherCopyin (fuel + 1) s off src n =
      (bytes ++ (fetch eitherCopyin fuel s' (off + m) (src + m) (n - m)).1,
        (fetch eitherCopyin fuel s' (off + m) (src + m) (n - m)).2) := by
  subst hm
  simp only [fetch, if_neg hn, h]

theorem fetch_part {eitherCopyin : σ → Nat → Nat → Bool × List UInt8 × σ} {s s' : σ} (fuel : Nat)
    (hn : n ≠ 0) (hm : min n (1024 - off % 1024) = m)
    (h : eitherCopyin s src m = (false, bytes, s')) :
    fetch eitherCopyin (fuel + 1) s off src n = ([], some bytes) := by
  subst hm
  simp only [fetch, if_neg hn, h]

/-- `either_copyin` copies what it was asked for if it returns 0, and never more. -/
def Lawful (eitherCopyin : σ → Nat → Nat → Bool × List UInt8 × σ) (src n : Nat) : Prop :=
  ∀ s a m, src ≤ a → a + m ≤ src + n → (eitherCopyin s a m).2.1.length ≤ m ∧
    ((eitherCopyin s a m).1 = true → (eitherCopyin s a m).2.1.length = m)

theorem Lawful.tail {eitherCopyin : σ → Nat → Nat → Bool × List UInt8 × σ}
    (h : Lawful eitherCopyin src n) (hm : m ≤ n) : Lawful eitherCopyin (src + m) (n - m) :=
  fun s a k ha hk => h s a k (by omega) (by omega)

/-- Before a chunk that is cut short there were fewer than `n` bytes. -/
theorem fetch_length {eitherCopyin : σ → Nat → Nat → Bool × List UInt8 × σ} : ∀ (fuel : Nat) (s : σ)
    (off : Nat) {src n : Nat} {bytes : List UInt8}, Lawful eitherCopyin src n →
    (fetch eitherCopyin fuel s off src n).2 = some bytes →
    (fetch eitherCopyin fuel s off src n).1.length < n := by
  intro fuel
  induction fuel with
  | zero =>
    intro s off src n bytes _ h
    cases h
  | succ fuel ih =>
    intro s off src n bytes hlaw h
    by_cases hzero : n = 0
    · rw [fetch, if_pos hzero] at h
      cases h
    · generalize hm : min n (1024 - off % 1024) = m
      obtain ⟨-, hall⟩ := hlaw s src m (Nat.le_refl src) (by omega)
      rcases hcopy : eitherCopyin s src m with ⟨ok, chunk, s'⟩
      rw [hcopy] at hall
      cases ok with
      | true =>
        rw [fetch_whole fuel hzero hm hcopy] at h ⊢
        have hrest := ih s' (off + m) (hlaw.tail (m := m) (by omega)) h
        rw [List.length_append, hall rfl]
        omega
      | false =>
        rw [fetch_part fuel hzero hm hcopy]
        exact Nat.pos_of_ne_zero hzero

end

/-! ## One chunk -/

section

variable {T : Slot → Prop} {d d' : Disk} {I I' : Nat → Dinode} {i off : Nat}

/-- A chunk in one of its blocks. -/
theorem Owned.store_chunk {P : Nat → Prop} (h : Owned P data I)
    (hb : (I i).block data (off / 1024) ≠ 0) (hlen : bytes.length ≤ 1024 - off % 1024)
    {data' : Blocks} (hdata : data' = Function.update data ((I i).block data (off / 1024))
      (Block.write (data ((I i).block data (off / 1024))) (off % 1024) bytes)) :
    (∀ j s, (I j).slot data' s = (I j).slot data s) ∧ ∀ j x, (I j).byte data' x =
      if j = i ∧ off ≤ x then (bytes[x - off]?).getD ((I j).byte data x)
      else (I j).byte data x := by
  obtain ⟨hslot, hbyte⟩ := h.store
    (Block.write (data ((I i).block data (off / 1024))) (off % 1024) bytes) hb
  rw [← hdata] at hslot hbyte
  refine ⟨hslot, fun j x => ?_⟩
  rw [hbyte]
  by_cases hthis : j = i ∧ x / 1024 = off / 1024
  · obtain ⟨rfl, hdiv⟩ := hthis
    have hold : (I j).byte data x =
        data ((I j).block data (off / 1024)) ⟨x % 1024, Nat.mod_lt _ (by decide)⟩ := by
      rw [Dinode.byte, hdiv, byteIn, if_neg hb]
    have hle : off % 1024 ≤ x % 1024 ↔ off ≤ x := by omega
    rw [if_pos ⟨rfl, hdiv⟩, hold, Block.write]
    by_cases hx : off ≤ x
    · have hsub : x % 1024 - off % 1024 = x - off := by omega
      rw [if_pos (hle.mpr hx), if_pos ⟨rfl, hx⟩, hsub]
    · rw [if_neg fun hc => hx (hle.mp hc), if_neg fun hc => hx hc.2]
  · rw [if_neg hthis]
    split
    · rename_i hx
      have hafter : bytes.length ≤ x - off := by
        have : x / 1024 ≠ off / 1024 := fun hc => hthis ⟨hx.1, hc⟩
        omega
      rw [List.getElem?_eq_none hafter]
      rfl
    · rfl

/-- The chunk goes into the buffer of its block, logged or not. -/
theorem Sound.store (h : Sound d I) (hb : (I i).block d.data (off / 1024) ≠ 0)
    (hlen : bytes.length ≤ 1024 - off % 1024) (hsb : d'.sb = d.sb)
    (hdata : d'.data = Function.update d.data ((I i).block d.data (off / 1024))
      (Block.write (d.data ((I i).block d.data (off / 1024))) (off % 1024) bytes))
    (hT : ∀ s, Touches (off / 1024) s → T s)
    (hlogged : ∀ b ∈ d'.logged, b ∈ d.logged ∨ b = (I i).block d.data (off / 1024)) :
    Stores T i off bytes d I d' I := by
  have hisData := h.isData_block hb
  obtain ⟨hslot, hbyte⟩ := h.owned.store_chunk hb hlen hdata
  have hlow : ∀ b, b < d.sb.dataStart → d'.data b = d.data b := by
    intro b hlt
    rw [hdata, Function.update_of_ne (Nat.ne_of_lt (Nat.lt_of_lt_of_le hlt hisData.1))]
  have hbits : ∀ c, c < d.sb.size → d'.data (d.sb.bblock c) = d.data (d.sb.bblock c) :=
    fun c hc => hlow _ (bblock_lt d.sb hc)
  refine ⟨hsb, h.congr hsb hbits hslot, fun _ _ => rfl, rfl, fun j s _ => hslot j s, ?_, ?_,
    fun b hlt _ => hlow b hlt, hbyte, ?_, ?_⟩
  · intro j s h0 h1
    rw [hslot] at h1
    exact absurd h0 h1
  · have hnone : filledSlots d.data d'.data (I i) (I i) = ∅ := by
      refine Finset.filter_eq_empty_iff.mpr fun s _ hs => ?_
      rw [hslot] at hs
      exact hs.2 hs.1
    rw [hnone, freeBlocks_congr hsb hbits, Finset.card_empty, Nat.add_zero]
  · intro x hx hlt
    have hdiv : x / 1024 = off / 1024 := by omega
    have hblock : (I i).block d'.data (off / 1024) = (I i).block d.data (off / 1024) := by
      obtain ⟨s, hs⟩ := dataSlot_some (block_lt hb)
      rw [block_eq hs, block_eq hs, hslot]
    rw [hdiv, hblock]
    exact hb
  · intro b hlog
    rcases hlogged b hlog with hlog | rfl
    · exact .inl hlog
    · obtain ⟨s, hs⟩ := dataSlot_some (block_lt hb)
      refine .inr (.inr ⟨s, hT s (.inl hs), ?_, hb⟩)
      rw [hslot, block_eq hs]

/-! ## The loop -/

variable {σ : Type} {eitherCopyin : σ → Nat → Nat → Bool × List UInt8 × σ}

/-- How the loop of `writei` ends: at the end, at a chunk that was not copied, or for want of a
block. -/
inductive Ends (T : Slot → Prop) (d : Disk) (I : Nat → Dinode) (i off n tot : Nat)
    (chunks : List UInt8 × Option (List UInt8)) (w : Written σ) (I' : Nat → Dinode) : Prop where
  | done : chunks.2 = none → w.tot = tot + chunks.1.length → w.torn = none →
      Stores T i off chunks.1 d I w.d I' → Ends T d I i off n tot chunks w I'
  | torn {bytes : List UInt8} {b : Nat} {old : Block} :
      chunks.2 = some bytes → w.tot = tot + chunks.1.length → w.torn = some (b, old) →
      d.sb.isData b → Stores T i off (chunks.1 ++ bytes) d I w.d I' →
      Stores T i off chunks.1 d I { w.d with data := Function.update w.d.data b old } I' →
      Ends T d I i off n tot chunks w I'
  | full {out rest : List UInt8} :
      chunks.1 = out ++ rest → out.length < n → w.tot = tot + out.length → w.torn = none →
      Stores T i off out d I w.d I' → (I' i).block w.d.data ((off + out.length) / 1024) = 0 →
      (∀ b, b < d.sb.size → w.d.inUse b = true) → Ends T d I i off n tot chunks w I'

/-- What comes after a chunk. -/
theorem Ends.cons {d₁ : Disk} {I₁ : Nat → Dinode} {tot : Nat}
    {chunks : List UInt8 × Option (List UInt8)} {w : Written σ}
    (hst : Stores T i off bytes d I d₁ I₁) (hlen : bytes.length = m) (hm : m ≤ n)
    (h : Ends T d₁ I₁ i (off + m) (n - m) (tot + m) chunks w I') :
    Ends T d I i off n tot (bytes ++ chunks.1, chunks.2) w I' := by
  subst hlen
  cases h with
  | done hnone htot htorn hst₁ =>
    refine .done hnone ?_ htorn (hst.append hst₁)
    rw [htot, List.length_append, Nat.add_assoc]
  | torn hsome htot htorn hdata hst₁ hold =>
    refine .torn hsome ?_ htorn (hst.sb ▸ hdata) ?_ (hst.append hold)
    · rw [htot, List.length_append, Nat.add_assoc]
    · rw [List.append_assoc]
      exact hst.append hst₁
  | full hchunks hlt htot htorn hst₁ hblock hfull =>
    rename_i out rest
    have hall : bytes ++ chunks.1 = (bytes ++ out) ++ rest := by rw [hchunks, List.append_assoc]
    refine .full hall ?_ ?_ htorn (hst.append hst₁) ?_ ?_
    · rw [List.length_append]
      omega
    · rw [htot, List.length_append, Nat.add_assoc]
    · rw [List.length_append, ← Nat.add_assoc]
      exact hblock
    · rw [← hst.sb]
      exact hfull

theorem writeiLoop_full {s : σ} (fuel tot : Nat) (hn : n ≠ 0)
    (hbmap : bmap d ip (off / 1024) = .ok (0, ip', d')) :
    writeiLoop eitherCopyin (fuel + 1) d ip s off src n tot =
      .ok { tot := tot, d := d', ip := ip', s := s, torn := none } := by
  simp only [writeiLoop, if_neg hn, hbmap]
  rfl

theorem writeiLoop_whole {s s' : σ} (fuel tot : Nat) (hn : n ≠ 0)
    (hbmap : bmap d ip (off / 1024) = .ok (addr, ip', d')) (ha : addr ≠ 0)
    (hm : min n (1024 - off % 1024) = m) (h : eitherCopyin s src m = (true, bytes, s')) :
    writeiLoop eitherCopyin (fuel + 1) d ip s off src n tot =
      writeiLoop eitherCopyin fuel
        (d'.logWrite addr (Block.write (d'.data addr) (off % 1024) bytes)) ip' s'
          (off + m) (src + m) (n - m) (tot + m) := by
  subst hm
  simp only [writeiLoop, if_neg hn, hbmap, bind, Except.bind, if_neg ha, h]

theorem writeiLoop_part {s s' : σ} (fuel tot : Nat) (hn : n ≠ 0)
    (hbmap : bmap d ip (off / 1024) = .ok (addr, ip', d')) (ha : addr ≠ 0)
    (hm : min n (1024 - off % 1024) = m) (h : eitherCopyin s src m = (false, bytes, s')) :
    writeiLoop eitherCopyin (fuel + 1) d ip s off src n tot =
      .ok { tot := tot
            d := { d' with
              data := Function.update d'.data addr (Block.write (d'.data addr) (off % 1024) bytes) }
            ip := ip', s := s', torn := some (addr, d'.data addr) } := by
  subst hm
  simp only [writeiLoop, if_neg hn, hbmap, bind, Except.bind, if_neg ha, h]

theorem writeiLoop_spec : ∀ (fuel : Nat) {d : Disk} {I : Nat → Dinode} {off : Nat} (s : σ)
    {src n : Nat} (tot : Nat), Sound d I → n ≤ fuel → off + n ≤ 268 * 1024 →
    Lawful eitherCopyin src n →
    (∀ x, off ≤ x → x < off + n → ∀ t, Touches (x / 1024) t → T t) →
    ∃ w I', writeiLoop eitherCopyin fuel d (I i) s off src n tot = .ok w ∧ I' i = w.ip ∧
      Ends T d I i off n tot (fetch eitherCopyin fuel s off src n) w I' := by
  intro fuel
  induction fuel with
  | zero =>
    intro d I off s src n tot hs hn _ _ _
    exact ⟨_, I, rfl, rfl, .done rfl rfl rfl (.refl hs)⟩
  | succ fuel ih =>
    intro d I off s src n tot hs hn hend hlaw hT
    by_cases hzero : n = 0
    · rw [writeiLoop, if_pos hzero, fetch, if_pos hzero]
      exact ⟨_, I, rfl, rfl, .done rfl rfl rfl (.refl hs)⟩
    · obtain ⟨addr, ip₁, d₁, hbmap, hst, hblock, hfull⟩ := bmap_spec (T := T) (i := i) off
        hs (show off / 1024 < 268 by omega) (hT off (Nat.le_refl off) (by omega))
      generalize hI₁ : Function.update I i ip₁ = I₁ at hst
      have hip : I₁ i = ip₁ := by
        rw [← hI₁]
        exact Function.update_self ..
      by_cases haddr : addr = 0
      · -- no block is left
        subst haddr
        refine ⟨_, I₁, writeiLoop_full fuel tot hzero hbmap, hip,
          .full (List.nil_append _).symm (Nat.pos_of_ne_zero hzero) rfl rfl hst ?_ (hfull rfl).2⟩
        rw [List.length_nil, Nat.add_zero, hip, hblock]
      · have hb : (I₁ i).block d₁.data (off / 1024) = addr := by rw [hip, hblock]
        have hb0 : (I₁ i).block d₁.data (off / 1024) ≠ 0 := hb ▸ haddr
        generalize hm : min n (1024 - off % 1024) = m
        obtain ⟨hshort, hall⟩ := hlaw s src m (Nat.le_refl src) (by omega)
        rcases hcopy : eitherCopyin s src m with ⟨ok, bytes, s₁⟩
        rw [hcopy] at hshort hall
        have hchunk : ∀ d₂ : Disk, d₂.sb = d₁.sb → d₂.data = Function.update d₁.data addr
            (Block.write (d₁.data addr) (off % 1024) bytes) →
            (∀ b ∈ d₂.logged, b ∈ d₁.logged ∨ b = addr) → Stores T i off bytes d₁ I₁ d₂ I₁ := by
          intro d₂ hsb hdata hlogged
          refine hst.sound.store hb0 (Nat.le_trans hshort (by omega)) hsb ?_
            (hT off (Nat.le_refl off) (by omega)) ?_
          · rw [hb]
            exact hdata
          · rw [hb]
            exact hlogged
        cases ok with
        | true =>
          have hnext :=
            hchunk (d₁.logWrite addr (Block.write (d₁.data addr) (off % 1024) bytes)) rfl rfl
              fun _ hlog => mem_logWrite.mp hlog
          obtain ⟨w, I', hw, hip', hends⟩ := @ih _ _ (off + m) s₁ (src + m) (n - m) (tot + m)
            hnext.sound (by omega) (by omega) (hlaw.tail (by omega))
            (fun x hx hlt => hT x (by omega) (by omega))
          rw [hip] at hw
          rw [writeiLoop_whole fuel tot hzero hbmap haddr hm hcopy, fetch_whole fuel hzero hm hcopy]
          exact ⟨w, I', hw, hip', Ends.cons (hst.append (a := []) hnext) (hall rfl)
            (by omega) hends⟩
        | false =>
          rw [writeiLoop_part fuel tot hzero hbmap haddr hm hcopy, fetch_part fuel hzero hm hcopy]
          refine ⟨_, I₁, rfl, hip, .torn rfl rfl rfl ?_
            (hst.append (a := []) (hchunk { d₁ with data := _ } rfl rfl
            fun _ hlog => .inl hlog)) ?_⟩
          · rw [← hst.sb, ← hb]
            exact hst.sound.isData_block hb0
          · -- the block on the disk is what it was
            have hback : Function.update (Function.update d₁.data addr
                (Block.write (d₁.data addr) (off % 1024) bytes)) addr (d₁.data addr) = d₁.data := by
              rw [Function.update_idem, Function.update_eq_self]
            simp only [hback]
            exact hst

/-! ## `writei` -/

/-- What `writei` does after its loop. -/
def Written.close (w : Written σ) (inum off : Nat) : Written σ :=
  { w with
    ip := { w.ip with size := max w.ip.size (off + w.tot) }
    d := iupdate w.d inum { w.ip with size := max w.ip.size (off + w.tot) } }

theorem writei_spec (s : σ) (h : Sound d I) (hoff : off ≤ (I i).size) (hend : off + n ≤ 268 * 1024)
    (hlaw : Lawful eitherCopyin src n)
    (hT : ∀ x, off ≤ x → x < off + n → ∀ t, Touches (x / 1024) t → T t) :
    ∃ w I', writei eitherCopyin d i (I i) s off src n = .ok (some (w.close i off)) ∧ I' i = w.ip ∧
      Ends T d I i off n 0 (fetch eitherCopyin n s off src n) w I' := by
  obtain ⟨w, I', hw, hip, hends⟩ :=
    writeiLoop_spec (T := T) (i := i) n s 0 h (Nat.le_refl n) hend hlaw hT
  refine ⟨w, I', ?_, hip, hends⟩
  have hwrap : toUint (off + n) = off + n := Nat.mod_eq_of_lt (by omega)
  rw [writei, hwrap, if_neg (by omega), if_neg (by omega), hw]
  rfl

theorem writei_some {eitherCopyin : σ → Nat → Nat → Bool × List UInt8 × σ} {s : σ} {w : Written σ}
    (hsize : ip.size ≤ 268 * 1024) (hn : n < 2 ^ 32)
    (hw : writei eitherCopyin d i ip s off src n = .ok (some w)) :
    off ≤ ip.size ∧ off + n ≤ 268 * 1024 := by
  unfold writei toUint at hw
  split at hw
  · cases hw
  · split at hw
    · cases hw
    · omega

section

variable {w : Written σ}

theorem close_ip {t : Nat} (hip : I' i = w.ip) (ht : w.tot = 0 + t) :
    (w.close i off).ip = { I' i with size := max (I' i).size (off + t) } := by
  rw [hip, ← Nat.zero_add t, ← ht]
  rfl

/-- The buffer is evicted before or after the inode is written: the blocks are the same. -/
theorem evicted_close {b : Nat} {old : Block} (htorn : w.torn = some (b, old))
    (hb : b ≠ w.d.sb.iblock i) (hlog : b ∉ (w.close i off).d.logged) :
    (w.close i off).evicted =
      iupdate { w.d with data := Function.update w.d.data b old } i (w.close i off).ip := by
  have hdata : Function.update (w.close i off).d.data b old =
      (iupdate { w.d with data := Function.update w.d.data b old } i (w.close i off).ip).data := by
    show Function.update (Function.update w.d.data (w.d.sb.iblock i) _) b old =
      Function.update (Function.update w.d.data b old) (w.d.sb.iblock i)
        (putDinode (Function.update w.d.data b old (w.d.sb.iblock i)) _ _)
    rw [Function.update_comm hb, Function.update_of_ne hb.symm]
    rfl
  rw [Written.evicted, show (w.close i off).torn = some (b, old) from htorn]
  show (if b ∈ (w.close i off).d.logged then _ else _ : Disk) = _
  rw [if_neg hlog, hdata]
  rfl

end

end

/-! ## Room in the log -/

/-- At most `n` calls of `log_write`, which do not panic if the log has room for as many blocks. -/
structure Logs (n : Nat) (d d' : Disk) : Prop where
  length : d'.logged.length ≤ d.logged.length + n
  fits : d.tooBig = false → d.logged.length + n ≤ logBlocks → d'.tooBig = false

theorem Logs.refl (n : Nat) (d : Disk) : Logs n d d := ⟨Nat.le_add_right _ _, fun h _ => h⟩

theorem Logs.trans {d₁ d₂ d₃ : Disk} (h : Logs m d₁ d₂) (h' : Logs n d₂ d₃) :
    Logs (m + n) d₁ d₃ := by
  have hlen := h.length
  have hlen' := h'.length
  exact ⟨by omega, fun hno hroom => h'.fits (h.fits hno (by omega)) (by omega)⟩

theorem Logs.mono {d' : Disk} (h : Logs m d d') (hle : m ≤ n) : Logs n d d' :=
  ⟨Nat.le_trans h.length (Nat.add_le_add_left hle _), fun hno hroom => h.fits hno (by omega)⟩

theorem logs_logWrite (d : Disk) (b : Nat) (data : Block) : Logs 1 d (d.logWrite b data) := by
  refine ⟨?_, fun hno hroom => ?_⟩
  · unfold Disk.logWrite
    dsimp only
    split <;> simp
  · have hlt : ¬ logBlocks ≤ d.logged.length := by omega
    simp [Disk.logWrite, hno, hlt]

theorem logs_balloc (d : Disk) : Logs 2 d (balloc d).2 := by
  unfold balloc
  split
  · exact .refl 2 d
  · exact (logs_logWrite ..).trans (logs_logWrite ..)

theorem logs_bmapAddr (d : Disk) (ip : Dinode) (a : Fin 13) : Logs 2 d (bmapAddr d ip a).2.2 := by
  have hnew := logs_balloc d
  unfold bmapAddr
  split
  · rcases hb : balloc d with ⟨addr, d₁⟩
    rw [hb] at hnew
    dsimp only at hnew ⊢
    split <;> exact hnew
  · exact .refl 2 d

theorem logs_bmapEntry (d : Disk) (ind bn : Nat) : Logs 3 d (bmapEntry d ind bn).2 := by
  have hnew := logs_balloc d
  unfold bmapEntry
  split
  · rcases hb : balloc d with ⟨addr, d₁⟩
    rw [hb] at hnew
    dsimp only at hnew ⊢
    split
    · exact hnew.mono (by decide)
    · exact hnew.trans (logs_logWrite ..)
  · exact .refl 3 d

theorem logs_bmap {d' : Disk} {bn : Nat} (h : bmap d ip bn = .ok (addr, ip', d')) :
    Logs 5 d d' := by
  unfold bmap at h
  split at h
  · have hd := logs_bmapAddr d ip ⟨bn, Nat.lt_succ_of_lt ‹_›⟩
    rw [Except.ok.inj h] at hd
    exact hd.mono (by decide)
  · split at h
    · have hind := logs_bmapAddr d ip (Fin.last 12)
      rcases bmapAddr d ip (Fin.last 12) with ⟨ind, ip₁, d₁⟩
      dsimp only at h hind
      split at h
      · cases h
        exact hind.mono (by decide)
      · cases h
        exact hind.trans (logs_bmapEntry ..)
    · cases h

/-- A round logs six blocks at most, and the bytes are in `r` blocks. -/
theorem logs_writeiLoop {eitherCopyin : σ → Nat → Nat → Bool × List UInt8 × σ} :
    ∀ (fuel : Nat) {d : Disk} {ip : Dinode} {s : σ} {off src n tot r : Nat} {w : Written σ},
    (n = 0 ∨ off % 1024 + n ≤ 1024 * r) →
    writeiLoop eitherCopyin fuel d ip s off src n tot = .ok w → Logs (6 * r) d w.d := by
  intro fuel
  induction fuel with
  | zero =>
    intro d ip s off src n tot r w _ h
    cases h
    exact .refl _ d
  | succ fuel ih =>
    intro d ip s off src n tot r w hr h
    rw [writeiLoop] at h
    split at h
    · cases h
      exact .refl _ d
    · rename_i hn
      obtain ⟨⟨addr, ip₁, d₁⟩, hbmap, h⟩ := bind_eq_ok.mp h
      have hd₁ := logs_bmap hbmap
      dsimp only at h
      split at h
      · cases h
        exact hd₁.mono (by omega)
      · split at h
        · -- the next block starts at offset 0, unless this was the last
          refine ((hd₁.trans (logs_logWrite ..)).trans (ih (r := r - 1) ?_ h)).mono (by omega)
          omega
        · cases h
          exact ⟨(hd₁.mono (show 5 ≤ 6 * r by omega)).length,
            (hd₁.mono (show 5 ≤ 6 * r by omega)).fits⟩

theorem logs_writei {eitherCopyin : σ → Nat → Nat → Bool × List UInt8 × σ} {inum r : Nat} {s : σ}
    {w : Written σ} (hr : off % 1024 + n ≤ 1024 * r)
    (h : writei eitherCopyin d inum ip s off src n = .ok (some w)) : Logs (6 * r + 1) d w.d := by
  unfold writei at h
  split at h
  · cases h
  · split at h
    · cases h
    · obtain ⟨w₀, hloop, h⟩ := bind_eq_ok.mp h
      cases h
      exact (logs_writeiLoop n (Or.inr hr) hloop).trans (logs_logWrite ..)

/-! ## What it comes to -/

/-- Exactly the bytes at `off` of inode `i` were replaced; the first `t` of them count for the
size. -/
structure Replaces (i off t : Nat) (bytes : List UInt8) (d : Disk) (I : Nat → Dinode) (d' : Disk)
    (I' : Nat → Dinode) : Prop where
  sb : d'.sb = d.sb
  sound : Sound d' I'
  others : ∀ j, j ≠ i → I' j = I j
  fields : I' i = { I i with
    size := max (I i).size (off + t)
    addrs := (I' i).addrs }
  byte : ∀ j x, (I' j).byte d'.data x =
    if j = i ∧ off ≤ x then (bytes[x - off]?).getD ((I j).byte d.data x) else (I j).byte d.data x
  whole : ∀ j, Whole d.data (I j) → Whole d'.data (I' j)
  dinode : ∀ j, j < d.sb.ninodes → j ≠ i → d'.dinode j = d.dinode j

section

variable {T : Slot → Prop} {d d' : Disk} {I I' : Nat → Dinode} {i off : Nat}

theorem slot_of_addrs (h : ip'.addrs = ip.addrs) (data : Blocks) (s : Slot) :
    ip'.slot data s = ip.slot data s := by
  unfold Dinode.slot Dinode.ind
  rw [h]

theorem block_of_addrs (h : ip'.addrs = ip.addrs) (data : Blocks) (bn : Nat) :
    ip'.block data bn = ip.block data bn := by
  unfold Dinode.block
  rw [funext (slot_of_addrs h data)]

/-- The inode block is no file's. -/
theorem Sound.framed_iupdate (h : Sound d I) (hi : i < d.sb.ninodes) (ip : Dinode) :
    Framed d.data (iupdate d i ip).data I := by
  refine framed fun j s hs => Function.update_of_ne (Nat.ne_of_gt ?_) _ _
  exact Nat.lt_of_lt_of_le (h.laid.iblock_lt hi) (h.isData hs).1

theorem dinode_iupdate_ne (d : Disk) {i j : Nat} (hne : j ≠ i) (ip : Dinode) :
    (iupdate d i ip).dinode j = d.dinode j := by
  unfold Disk.dinode
  show getDinode ((iupdate d i ip).data (d.sb.iblock j)) _ = _
  by_cases hblock : d.sb.iblock j = d.sb.iblock i
  · have hslot : j % 16 ≠ i % 16 := by
      unfold Superblock.iblock at hblock
      omega
    rw [hblock, show (iupdate d i ip).data (d.sb.iblock i) =
      putDinode (d.data (d.sb.iblock i)) (i % 16) ip from Function.update_self ..]
    exact getDinode_putDinode_ne _ _ (Nat.mod_lt _ (by decide)) hslot
  · rw [show (iupdate d i ip).data (d.sb.iblock j) = d.data (d.sb.iblock j) from
      Function.update_of_ne hblock _ _]

theorem dinode_iupdate_self (d : Disk) (i : Nat) (hf : ip.Fits) :
    (iupdate d i ip).dinode i = ip := by
  unfold Disk.dinode
  show getDinode ((iupdate d i ip).data (d.sb.iblock i)) _ = _
  rw [show (iupdate d i ip).data (d.sb.iblock i) =
    putDinode (d.data (d.sb.iblock i)) (i % 16) ip from Function.update_self ..]
  exact getDinode_putDinode _ (Nat.mod_lt _ (by decide)) hf

/-- Inodes other than `i` are where they were on the disk. -/
theorem Stores.dinode (h : Stores T i off bytes d I d' I') (hlaid : d.sb.Laid) {j : Nat}
    (hj : j < d.sb.ninodes) : d'.dinode j = d.dinode j := by
  unfold Disk.dinode
  rw [h.sb, h.inodes _ (hlaid.iblock_lt hj) fun c _ => hlaid.iblock_ne hj c]

/-- The stores of the loop, and then the size and the inode on the disk. -/
theorem Stores.close {t : Nat} (h : Stores T i off bytes d I d' I') (hlaid : d.sb.Laid)
    (hi : i < d.sb.ninodes) (hoff : off ≤ (I i).size) (ht : t ≤ bytes.length)
    (hip : ip = { I' i with size := max (I' i).size (off + t) }) :
    Replaces i off t bytes d I (iupdate d' i ip) (Function.update I' i ip) := by
  have hi' : i < d'.sb.ninodes := by
    rw [h.sb]
    exact hi
  have hframe := h.sound.framed_iupdate hi' ip
  have haddrs : ∀ j, (Function.update I' i ip j).addrs = (I' j).addrs := by
    intro j
    by_cases hj : j = i
    · subst hj
      rw [Function.update_self, hip]
    · rw [Function.update_of_ne hj]
  have hslot : ∀ j s, (Function.update I' i ip j).slot (iupdate d' i ip).data s =
      (I' j).slot d'.data s := by
    intro j s
    rw [slot_of_addrs (haddrs j), hframe.slot]
  have hblock : ∀ j bn, (Function.update I' i ip j).block (iupdate d' i ip).data bn =
      (I' j).block d'.data bn := by
    intro j bn
    rw [block_of_addrs (haddrs j)]
    unfold Dinode.block
    rw [funext (hframe.slot j)]
  have hbyte : ∀ j x, (Function.update I' i ip j).byte (iupdate d' i ip).data x =
      (I' j).byte d'.data x := by
    intro j x
    rw [← hframe.byte, Dinode.byte, Dinode.byte, block_of_addrs (haddrs j)]
  have hself : Function.update I' i ip i = ip := Function.update_self ..
  refine ⟨h.sb, h.sound.congr rfl ?_ hslot, ?_, ?_,
    fun j x => (hbyte j x).trans (h.byte j x), ?_, ?_⟩
  · intro c hc
    refine Function.update_of_ne ?_ _ _
    rw [h.sb] at hc ⊢
    exact (hlaid.iblock_ne hi c).symm
  · intro j hj
    rw [Function.update_of_ne hj]
    exact h.others j hj
  · rw [hself, hip, h.fields]
  · intro j hwhole x hx
    rw [hblock]
    by_cases hold : x < (I j).size
    · exact h.block_ne_zero (hwhole x hold)
    · -- past the old size, it is one of the bytes stored
      by_cases hj : j = i
      · subst hj
        rw [hself, hip, h.fields] at hx
        exact h.there x (by dsimp only at hx; omega) (by dsimp only at hx; omega)
      · rw [Function.update_of_ne hj, h.others j hj] at hx
        exact absurd hx hold
  · intro j hj hne
    rw [dinode_iupdate_ne d' hne, h.dinode hlaid hj]

/-! ## From a kernel buffer -/

theorem lawful_memmove {src : List UInt8} {a : Nat} (h : a + n ≤ src.length) :
    Lawful (memmove src) a n := by
  intro s b m hb hm
  have hlen : (memmove src s b m).2.1.length = m := by
    show ((src.drop b).take m).length = m
    rw [List.length_take, List.length_drop]
    omega
  exact ⟨Nat.le_of_eq hlen, fun _ => hlen⟩

theorem fetch_memmove (src : List UInt8) : ∀ (fuel off a n : Nat), n ≤ fuel →
    fetch (memmove src) fuel () off a n = ((src.drop a).take n, none) := by
  intro fuel
  induction fuel with
  | zero =>
    intro off a n hn
    rw [show n = 0 by omega, List.take_zero]
    rfl
  | succ fuel ih =>
    intro off a n hn
    by_cases hzero : n = 0
    · rw [fetch, if_pos hzero, hzero, List.take_zero]
    · generalize hm : min n (1024 - off % 1024) = m
      rw [fetch_whole fuel hzero hm (show memmove src () a m =
        (true, (src.drop a).take m, ()) from rfl), ih _ _ _ (by omega)]
      have hsplit : (src.drop a).take n = (src.drop a).take m ++
          (src.drop (a + m)).take (n - m) := by
        have hn : n = m + (n - m) := by omega
        nth_rewrite 1 [hn]
        rw [List.take_add, List.drop_drop]
      rw [hsplit]

open scoped Classical in
/-- The slots that have to be filled before `n` bytes can be written at `off`. -/
noncomputable def needed (data : Blocks) (ip : Dinode) (off n : Nat) : Finset Slot :=
  Finset.univ.filter fun s =>
    ip.slot data s = 0 ∧ ∃ x, off ≤ x ∧ x < off + n ∧ Touches (x / 1024) s

/-- Where the blocks are there, no slot is needed. -/
theorem needed_eq_empty (h : ∀ x, off ≤ x → x < off + n → ip.block data (x / 1024) ≠ 0) :
    needed data ip off n = ∅ := by
  classical
  refine Finset.filter_eq_empty_iff.mpr fun s _ hs => ?_
  obtain ⟨hzero, x, hx, hlt, htouch⟩ := hs
  have hblock := h x hx hlt
  obtain ⟨t, ht⟩ := dataSlot_some (block_lt hblock)
  rw [block_eq ht] at hblock
  rcases htouch with hdata | ⟨hind, h12⟩
  · rw [ht] at hdata
    obtain rfl := Option.some.inj hdata
    exact hblock hzero
  · -- an entry is there only if the indirect block is
    rw [dataSlot, dif_neg (Nat.not_lt_of_le h12)] at ht
    split at ht
    · obtain rfl := Option.some.inj ht
      rw [hind] at hzero
      exact hblock (if_pos hzero)
    · cases ht

/-- If a block is missing when the disk is full, there were too few blocks to begin with. -/
theorem Stores.card_lt_needed {out : List UInt8}
    (h : Stores (fun s => ∃ x, off ≤ x ∧ x < off + n ∧ Touches (x / 1024) s) i off out d I d' I')
    (hlt : out.length < n) (hend : off + n ≤ 268 * 1024)
    (hblock : (I' i).block d'.data ((off + out.length) / 1024) = 0)
    (hfull : ∀ b, b < d.sb.size → d'.inUse b = true) :
    (freeBlocks d).card < (needed d.data (I i) off n).card := by
  classical
  have hnofree : freeBlocks d' = ∅ := by
    refine Finset.eq_empty_of_forall_notMem fun b hb => ?_
    obtain ⟨hsize, hfree⟩ := mem_freeBlocks.mp hb
    rw [hfull b (h.sb ▸ hsize)] at hfree
    cases hfree
  rw [h.card, hnofree, Finset.card_empty, Nat.zero_add]
  obtain ⟨s, hs⟩ := dataSlot_some (show (off + out.length) / 1024 < 268 by omega)
  rw [block_eq hs] at hblock
  have hold : (I i).slot d.data s = 0 := by
    by_contra hne
    exact h.slot_ne_zero hne hblock
  refine Finset.card_lt_card (Finset.ssubset_iff_subset_ne.mpr ⟨fun t ht => ?_, fun heq => ?_⟩)
  · obtain ⟨h0, h1⟩ := mem_filledSlots.mp ht
    exact Finset.mem_filter.mpr ⟨Finset.mem_univ t, h0, (h.filled i t h0 h1).2⟩
  · -- the slot of the missing block is needed, and is still empty
    have hmem : s ∈ needed d.data (I i) off n :=
      Finset.mem_filter.mpr ⟨Finset.mem_univ s, hold, off + out.length, by omega, by omega, .inl hs⟩
    rw [← heq] at hmem
    exact (mem_filledSlots.mp hmem).2 hblock

/-- **`writei`** from a kernel buffer. -/
theorem writei_memmove (h : Sound d I) (hi : i < d.sb.ninodes) (hoff : off ≤ (I i).size)
    (src : List UInt8) (hend : off + src.length ≤ 268 * 1024) :
    ∃ w, writei (memmove src) d i (I i) () off 0 src.length = .ok (some w) ∧ w.tot ≤ src.length ∧
      Replaces i off w.tot (src.take w.tot) d I w.d (Function.update I i w.ip) ∧
      ((needed d.data (I i) off src.length).card ≤ (freeBlocks d).card → w.tot = src.length) := by
  obtain ⟨w, I', hw, hip, hends⟩ := writei_spec
    (T := fun s => ∃ x, off ≤ x ∧ x < off + src.length ∧ Touches (x / 1024) s) () h hoff hend
    (lawful_memmove (Nat.le_of_eq (Nat.zero_add _))) (fun x hx hlt t ht => ⟨x, hx, hlt, ht⟩)
  rw [fetch_memmove src _ _ _ _ (Nat.le_refl _), List.drop_zero, List.take_length] at hends
  have hclose : ∀ out : List UInt8, w.tot = out.length → src.take w.tot = out →
      Stores (fun s => ∃ x, off ≤ x ∧ x < off + src.length ∧ Touches (x / 1024) s) i off out
        d I w.d I' →
      Replaces i off w.tot (src.take w.tot) d I (w.close i off).d
        (Function.update I i (w.close i off).ip) := by
    intro out htot hout hst
    have hself : Function.update I i (w.close i off).ip =
        Function.update I' i (w.close i off).ip := by
      funext j
      by_cases hj : j = i
      · rw [hj, Function.update_self, Function.update_self]
      · rw [Function.update_of_ne hj, Function.update_of_ne hj, hst.others j hj]
    rw [hself, hout]
    refine hst.close h.laid hi hoff (Nat.le_of_eq htot) ?_
    rw [hip]
  cases hends with
  | done _ htot _ hst =>
    rw [Nat.zero_add] at htot
    refine ⟨_, hw, Nat.le_of_eq htot, hclose src htot ?_ hst, fun _ => htot⟩
    rw [htot, List.take_length]
  | torn hsome _ _ _ _ _ => cases hsome
  | full hchunks hlt htot htorn hst hblock hfull =>
    rename_i out rest
    rw [Nat.zero_add] at htot
    refine ⟨_, hw, ?_, hclose out htot ?_ hst, fun henough => ?_⟩
    · show w.tot ≤ _
      omega
    · rw [htot, show src = out ++ rest from hchunks, List.take_left]
    · exact absurd henough (Nat.not_le_of_lt (hst.card_lt_needed hlt hend hblock hfull))

/--
**Inodes are byte arrays.** In a sound file system whose files have their blocks, a write from a
kernel buffer that returns has replaced the bytes it says it wrote and nothing else, whatever inode
they belong to, and has written all of them if there are enough free blocks. It returns if the log
has room for six blocks for every block of the file it writes to, and one more. A read returns the
bytes that are there.
-/
theorem inodes_are_byte_arrays (d : Disk) (I : Nat → Dinode) (i : Nat) (h : Sound d I)
    (hwhole : ∀ j, Whole d.data (I j)) (hi : i < d.sb.ninodes) :
    (∀ (off : Nat) (src : List UInt8), off ≤ (I i).size → off + src.length ≤ 268 * 1024 →
      ∃ w, writei (memmove src) d i (I i) () off 0 src.length = .ok (some w) ∧
        (w.d.tooBig = false → w.tot ≤ src.length ∧
          (∀ x, w.ip.byte w.d.data x =
            if off ≤ x ∧ x < off + w.tot then src.getD (x - off) 0 else (I i).byte d.data x) ∧
          w.ip.size = max (I i).size (off + w.tot) ∧
          (∀ j, j ≠ i → ∀ x, (I j).byte w.d.data x = (I j).byte d.data x) ∧
          (∀ j, j < d.sb.ninodes → j ≠ i → w.d.dinode j = d.dinode j) ∧
          ((needed d.data (I i) off src.length).card ≤ (freeBlocks d).card → w.tot = src.length) ∧
          Sound w.d (Function.update I i w.ip) ∧ ∀ j, Whole w.d.data (Function.update I i w.ip j)) ∧
        ∀ r, off % 1024 + src.length ≤ 1024 * r → d.tooBig = false →
          d.logged.length + (6 * r + 1) ≤ logBlocks → w.d.tooBig = false) ∧
    ∀ off n, off ≤ (I i).size → off + n < 2 ^ 32 →
      readi d (I i) off n = .ok ((I i).bytes d.data off (min (off + n) (I i).size - off),
        I i, d) := by
  refine ⟨fun off src hoff hend => ?_, fun off n hoff hn => ?_⟩
  · obtain ⟨w, hw, htot, hrep, henough⟩ := writei_memmove h hi hoff src hend
    have hlen : (src.take w.tot).length = w.tot := by
      rw [List.length_take]
      omega
    have hself : Function.update I i w.ip i = w.ip := Function.update_self ..
    refine ⟨w, hw, fun _ => ⟨htot, fun x => ?_, ?_, fun j hj x => ?_, hrep.dinode, henough,
      hrep.sound, fun j => hrep.whole j (hwhole j)⟩, fun r hr => (logs_writei hr hw).fits⟩
    · have hx := hrep.byte i x
      rw [hself] at hx
      rw [hx]
      by_cases hin : off ≤ x ∧ x < off + w.tot
      · have hlt : x - off < w.tot := by omega
        rw [if_pos ⟨rfl, hin.1⟩, if_pos hin, List.getElem?_take_of_lt hlt,
          List.getD_eq_getElem?_getD, List.getElem?_eq_getElem (by omega)]
        rfl
      · rw [if_neg hin]
        split
        · rename_i hge
          rw [List.getElem?_eq_none (by rw [hlen]; omega)]
          rfl
        · rfl
    · have hf := congrArg Dinode.size hrep.fields
      rw [hself] at hf
      exact hf
    · have hx := hrep.byte j x
      rw [hrep.others j hj, if_neg fun hc => hj hc.1] at hx
      exact hx
  · rw [readi_present (hwhole i) off (by omega), readable_eq hoff hn]

end

/-! ## A small file system -/

/-- A hundred blocks, of which the first four are not for data. -/
def smallSb : Superblock where
  magic := fsMagic
  size := 100
  nblocks := 96
  ninodes := 16
  nlog := 0
  logstart := 2
  inodestart := 2
  bmapstart := 3

/-- The first data block is in use. -/
def smallDisk (block : Block) : Disk where
  sb := smallSb
  data := fun b k => if b = 3 ∧ k.val = 0 then 31 else if b = 4 then block k else 0
  logged := []

def noInode : Dinode :=
  { type := 0, major := 0, minor := 0, nlink := 0, size := 0, addrs := fun _ => 0 }

/-- The inodes on a disk. -/
def Disk.inodes (d : Disk) (i : Nat) : Dinode := if i < d.sb.ninodes then d.dinode i else noInode

/-- One inode, with that block. -/
def smallInodes (type size i : Nat) : Dinode :=
  if i = 1 then
    { type := type, major := 0, minor := 0, nlink := 1, size := size
      addrs := fun a => if a = 0 then 4 else 0 }
  else noInode

theorem smallInodes_slot (type size : Nat) (data : Blocks) (i : Nat) (s : Slot) :
    (smallInodes type size i).slot data s = if i = 1 ∧ s = .direct 0 then 4 else 0 := by
  unfold smallInodes
  by_cases hi : i = 1
  · rw [if_pos hi]
    cases s with
    | direct c =>
      have hzero : c.castSucc = 0 ↔ c = 0 := Fin.castSucc_eq_zero_iff
      simp [Dinode.slot, hi, hzero]
    | indirect => simp [Dinode.slot, Dinode.ind]
    | entry j => simp [Dinode.slot, Dinode.ind]
  · rw [if_neg hi, if_neg fun h => hi h.1]
    cases s with
    | direct c => rfl
    | indirect => rfl
    | entry j => rfl

theorem small_inUse (block : Block) {b : Nat} (h : b < 5) : (smallDisk block).inUse b = true := by
  have hbits : ∀ b : Fin 5, bit (fun k : Fin 1024 => if k.val = 0 then (31 : UInt8) else 0) b =
      true := by
    decide +kernel
  have hblock : b / 8192 + 3 = 3 := by omega
  have hmod : b % 8192 = b := by omega
  rw [Disk.inUse, hmod, ← hbits ⟨b, h⟩]
  show bit (fun k : Fin 1024 => if b / 8192 + 3 = 3 ∧ k.val = 0 then (31 : UInt8)
    else if b / 8192 + 3 = 4 then block k else 0) b = _
  simp [hblock]

theorem small_sound (block : Block) (type size : Nat) :
    Sound (smallDisk block) (smallInodes type size) := by
  have hstart : smallSb.dataStart = 4 := by decide
  refine ⟨⟨fun i hi => ?_, (by decide : smallSb.size ≤ 2 ^ 32)⟩, ⟨?_, ?_⟩, fun b hb _ => ?_⟩
  · have : i < 16 := hi
    show i / 16 + 2 < 3
    omega
  · rintro ⟨i, s⟩ ⟨j, t⟩ hs heq
    simp only [smallInodes_slot] at hs heq
    by_cases hi : i = 1 ∧ s = .direct 0
    · by_cases hj : j = 1 ∧ t = .direct 0
      · rw [hi.1, hi.2, hj.1, hj.2]
      · rw [if_pos hi, if_neg hj] at heq
        cases heq
    · rw [if_neg hi] at hs
      exact absurd rfl hs
  · rintro ⟨i, s⟩ hs
    simp only [smallInodes_slot] at hs ⊢
    by_cases hi : i = 1 ∧ s = .direct 0
    · rw [if_pos hi]
      exact ⟨⟨Nat.le_of_eq hstart, (by decide : 4 < smallSb.size)⟩, small_inUse block (by decide)⟩
    · rw [if_neg hi] at hs
      exact absurd rfl hs
  · have hlow : b < smallSb.dataStart := hb
    exact small_inUse block (by omega)

theorem small_whole (block : Block) {size : Nat} (type : Nat) (hsize : size ≤ 1024) (i : Nat) :
    Whole (smallDisk block).data (smallInodes type size i) := by
  intro x hx
  by_cases hi : i = 1
  · subst hi
    have hxs : x < size := hx
    rw [show x / 1024 = 0 by omega, block_eq (show dataSlot 0 = some (.direct 0) from rfl),
      smallInodes_slot]
    decide
  · rw [smallInodes, if_neg hi] at hx
    exact absurd hx (Nat.not_lt_zero x)

/-- Three bytes over the first ones of a file, in a transaction that has written nothing yet. -/
theorem inodes_are_byte_arrays_small :
    ∃ w, writei (memmove [1, 2, 3]) (smallDisk fun _ => 9) 1 (smallInodes tFile 8 1) () 0 0 3 =
      .ok (some w) ∧ w.d.tooBig = false ∧ w.tot = 3 ∧ w.ip.size = 8 ∧ w.ip.byte w.d.data 1 = 2 := by
  have hwhole := small_whole (fun _ => 9) tFile (show 8 ≤ 1024 by decide)
  obtain ⟨w, hw, hdone, hroom⟩ :=
    (inodes_are_byte_arrays (smallDisk fun _ => 9) (smallInodes tFile 8) 1 (small_sound _ _ _)
      hwhole (by decide)).1 0 [1, 2, 3] (by decide) (by decide)
  have hno := hroom 1 (by decide) rfl (by decide)
  obtain ⟨_, hbyte, hsize, _, _, hall, _⟩ := hdone hno
  have htot : w.tot = 3 := hall <| by
    rw [needed_eq_empty fun x _ hx => hwhole 1 x (Nat.lt_trans hx (by decide))]
    exact Nat.zero_le _
  refine ⟨w, hw, hno, htot, by rw [hsize, htot]; rfl, ?_⟩
  rw [hbyte, htot]
  rfl

end Xv6Paging.Fs
