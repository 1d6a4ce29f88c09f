import Xv6Paging.Proof.InodeBytes
import Xv6Paging.Proof.CopyExact

/-!
# Writes from user memory that fail

`writei` copies each chunk straight into the buffer of its block. If `copyin` fails in the middle of
the chunk the loop ends, the buffer is released without `log_write`, and the bytes that were copied
are not among those `writei` says it wrote; they are seen all the same, as long as the buffer stays
in the cache or if it is in the log already.
-/

namespace Xv6Paging.Fs

open Lib Xv6Paging.Proof

/-! ## `copyin` -/

/-- A call of `copyin` returns, with all bytes or with fewer. -/
theorem copyinLoop_returns : ∀ (fuel : Nat) (k : Kernel) (va len : Nat)
    (dst : List UInt8), len ≤ fuel →
    ∃ ok bytes k', copyinLoop fuel k va len dst = .ok (ok, dst ++ bytes, k') ∧ bytes.length ≤ len ∧
      (ok = true → bytes.length = len) := by
  intro fuel
  induction fuel with
  | zero =>
    intro k va len dst hlen
    refine ⟨true, [], k, ?_, Nat.zero_le _, fun _ => by rw [List.length_nil]; omega⟩
    rw [copyinLoop, List.append_nil, decide_eq_true (by omega)]
  | succ fuel ih =>
    intro k va len dst hlen
    by_cases hzero : len = 0
    · refine ⟨true, [], k, ?_, Nat.zero_le _, fun _ => hzero.symm⟩
      rw [copyinLoop, if_pos hzero, List.append_nil]
    · obtain ⟨r, k₁, hf, -⟩ := userFrame_returns k va
      cases r with
      | none =>
        refine ⟨false, [], k₁, ?_, Nat.zero_le _, fun h => by cases h⟩
        simp only [copyinLoop, if_neg hzero, hf, List.append_nil]
        rfl
      | some f =>
        generalize hn : min (4096 - (va - pgRoundDown va)) len = n
        obtain ⟨-, hle, hpos, -⟩ := round_end hn.symm
        have hn0 := hpos (Nat.pos_of_ne_zero hzero)
        obtain ⟨ok, bytes, k', hrest, hshort, hall⟩ := ih k₁ (pgRoundDown va + 4096) (len - n)
          (dst ++ (k₁.kmem.ram f).read (va - pgRoundDown va) n) (by omega)
        have hread : ((k₁.kmem.ram f).read (va - pgRoundDown va) n).length = n := by
          rw [Page.read, List.length_map, List.length_range]
        refine ⟨ok, (k₁.kmem.ram f).read (va - pgRoundDown va) n ++ bytes, k', ?_, ?_, fun h => ?_⟩
        · rw [← List.append_assoc, ← hrest]
          simp only [copyinLoop, if_neg hzero, hf, hn]
          rfl
        · rw [List.length_append, hread]
          omega
        · rw [List.length_append, hread, hall h]
          omega

theorem lawful_copyinUser (src n : Nat) : Lawful copyinUser src n := by
  intro k a m _ _
  obtain ⟨ok, bytes, k', hcall, hshort, hall⟩ := copyinLoop_returns m k a m [] (Nat.le_refl m)
  have hcopy : copyinUser k a m = (ok, bytes, k') := by
    rw [copyinUser, show copyin k a m = .ok (ok, bytes, k') from hcall]
  rw [hcopy]
  exact ⟨hshort, hall⟩

/-! ## What a reader sees -/

/-- A reader sees the same byte at `x` of a file as before. -/
def SameRead (d : Disk) (ip : Dinode) (d' : Disk) (ip' : Dinode) (x : Nat) : Prop :=
  (readi d' ip' x 1).map Prod.fst = (readi d ip x 1).map Prod.fst

theorem readi_one {d : Disk} {ip : Dinode} (h : Whole d.data ip) {x : Nat} (hx : x < ip.size) :
    (readi d ip x 1).map Prod.fst = .ok [ip.byte d.data x] := by
  have hsize := h.size_le
  rw [readi_present h x (by decide), readable_eq (Nat.le_of_lt hx) (by omega),
    show min (x + 1) ip.size - x = 1 by omega]
  rfl

theorem sameRead_iff {d d' : Disk} {ip ip' : Dinode} (h : Whole d.data ip)
    (h' : Whole d'.data ip') {x : Nat} (hx : x < ip.size) (hsize : ip.size ≤ ip'.size) :
    SameRead d ip d' ip' x ↔ ip'.byte d'.data x = ip.byte d.data x := by
  rw [SameRead, readi_one h hx, readi_one h' (Nat.lt_of_lt_of_le hx hsize)]
  constructor
  · intro heq
    exact (List.cons.inj (Except.ok.inj heq)).1
  · intro heq
    rw [heq]

/-- A write of `n` bytes at `off` that stops early leaves the rest of the file as it was, with the
buffer in the cache and without it. -/
def LeavesRest {σ : Type} (d : Disk) (ip : Dinode) (off n : Nat) (w : Written σ) : Prop :=
  w.tot < n → ∀ x, x < ip.size → x < off ∨ off + w.tot ≤ x →
    SameRead d ip w.d w.ip x ∧ SameRead d ip w.evicted w.ip x

/-- What is copied of the first chunk that is not copied as a whole, and lies below the size of the
file, is what the file has there. -/
def TearsNothing (d : Disk) (ip : Dinode) (off : Nat) (chunks : List UInt8 × Option (List UInt8)) :
    Prop :=
  ∀ bytes, chunks.2 = some bytes → ∀ j b, bytes[j]? = some b → off + chunks.1.length + j < ip.size →
    ip.byte d.data (off + chunks.1.length + j) = b

/-! ## When the rest is left alone -/

section

variable {T : Slot → Prop} {d : Disk} {I I' : Nat → Dinode} {i off : Nat}

/-- Reading after the loop has stored `bytes`, of which `t` count. -/
theorem Stores.sameRead_iff {d₁ d₂ : Disk} {bytes : List UInt8} {t x : Nat} {ip : Dinode}
    (h : Stores T i off bytes d I d₁ I') (hlaid : d.sb.Laid) (hi : i < d.sb.ninodes)
    (hwhole : Whole d.data (I i)) (hoff : off ≤ (I i).size) (ht : t ≤ bytes.length)
    (hip : ip = { I' i with size := max (I' i).size (off + t) })
    (hdata : d₂.data = (iupdate d₁ i ip).data) (hx : x < (I i).size) :
    SameRead d (I i) d₂ ip x ↔ (off ≤ x → ∀ b, bytes[x - off]? = some b →
      (I i).byte d.data x = b) := by
  have hrep := h.close hlaid hi hoff ht hip
  have hself : Function.update I' i ip i = ip := Function.update_self ..
  have hwhole' := hrep.whole i hwhole
  have hbyte := hrep.byte i x
  have hsize := congrArg Dinode.size hrep.fields
  rw [hself, ← hdata] at hwhole' hbyte
  rw [hself] at hsize
  rw [Fs.sameRead_iff hwhole hwhole' hx (by rw [hsize]; exact Nat.le_max_left ..), hbyte]
  by_cases hin : off ≤ x
  · rw [if_pos ⟨rfl, hin⟩]
    cases hat : bytes[x - off]? with
    | none => simp
    | some c =>
      constructor
      · intro heq _ b hb
        rw [← heq]
        exact Option.some.inj hb
      · intro hold
        exact (hold hin c rfl).symm
  · rw [if_neg fun hc => hin hc.2]
    exact iff_of_true rfl fun hc => absurd hc hin

variable {σ : Type} {w : Written σ} {n : Nat}

/-- If all bytes that were stored are counted, the rest is as it was. -/
theorem Stores.leavesRest {out : List UInt8} (h : Stores T i off out d I w.d I') (hip : I' i = w.ip)
    (hlaid : d.sb.Laid) (hi : i < d.sb.ninodes) (hwhole : Whole d.data (I i))
    (hoff : off ≤ (I i).size) (htot : w.tot = 0 + out.length) (htorn : w.torn = none) :
    LeavesRest d (I i) off n (w.close i off) := by
  have hev : (w.close i off).evicted = (w.close i off).d := by
    rw [Written.evicted, show (w.close i off).torn = none from htorn]
  intro _ x hx hxo
  have hread : SameRead d (I i) (w.close i off).d (w.close i off).ip x := by
    refine (h.sameRead_iff hlaid hi hwhole hoff (Nat.le_refl _) (close_ip hip htot) rfl hx).mpr ?_
    intro hge b hb
    rw [show (w.close i off).tot = w.tot from rfl, htot] at hxo
    rw [List.getElem?_eq_none (by omega)] at hb
    cases hb
  exact ⟨hread, hev ▸ hread⟩

theorem Ends.leavesRest_iff {chunks : List UInt8 × Option (List UInt8)}
    (h : Ends T d I i off n 0 chunks w I') (hip : I' i = w.ip) (hlaid : d.sb.Laid)
    (hi : i < d.sb.ninodes) (hwhole : Whole d.data (I i)) (hoff : off ≤ (I i).size)
    (hpart : ∀ bytes, chunks.2 = some bytes → chunks.1.length < n) :
    LeavesRest d (I i) off n (w.close i off) ↔ TearsNothing d (I i) off chunks := by
  cases h with
  | done hnone htot htorn hst =>
    refine iff_of_true (hst.leavesRest hip hlaid hi hwhole hoff htot htorn) fun bytes hb => ?_
    rw [hnone] at hb
    cases hb
  | full hchunks hlt htot htorn hst hblock hfull =>
    rename_i out rest
    -- the block that is missing is past the end of the file
    have hend : (I i).size ≤ off + out.length := by
      by_contra hin
      exact hst.block_ne_zero (hwhole _ (Nat.lt_of_not_le hin)) hblock
    refine iff_of_true (hst.leavesRest hip hlaid hi hwhole hoff htot htorn)
      fun bytes _ j b _ hj => ?_
    rw [hchunks, List.length_append] at hj
    omega
  | torn hsome htot htorn hdata hst hold =>
    rename_i bytes b old
    have hcached : ∀ {x : Nat}, x < (I i).size → _ := fun {x} hx =>
      hst.sameRead_iff hlaid hi hwhole hoff (x := x) (List.length_append ▸ Nat.le_add_right _ _)
        (close_ip hip htot) rfl hx
    constructor
    · intro hrest bytes' hb j c hc hj
      rw [hsome] at hb
      obtain rfl := Option.some.inj hb
      have htotlt : (w.close i off).tot < n := by
        rw [show (w.close i off).tot = w.tot from rfl, htot, Nat.zero_add]
        exact hpart _ hsome
      have hread := (hrest htotlt (off + chunks.1.length + j) hj (.inr (by
        rw [show (w.close i off).tot = w.tot from rfl, htot]
        omega))).1
      refine (hcached hj).mp hread (by omega) c ?_
      rw [List.getElem?_append_right (by omega), ← hc]
      congr 1
      omega
    · intro htears _ x hx hxo
      rw [show (w.close i off).tot = w.tot from rfl, htot, Nat.zero_add] at hxo
      have hread : SameRead d (I i) (w.close i off).d (w.close i off).ip x := by
        refine (hcached hx).mpr fun hge c hc => ?_
        have hpast : chunks.1.length ≤ x - off := by omega
        rw [List.getElem?_append_right hpast] at hc
        have hat : off + chunks.1.length + (x - off - chunks.1.length) = x := by omega
        have := htears bytes hsome _ c hc (by rw [hat]; exact hx)
        rwa [hat] at this
      refine ⟨hread, ?_⟩
      by_cases hlog : b ∈ (w.close i off).d.logged
      · have hev : (w.close i off).evicted = (w.close i off).d := by
          rw [Written.evicted, show (w.close i off).torn = some (b, old) from htorn]
          exact if_pos hlog
        rw [hev]
        exact hread
      · have hb : b ≠ w.d.sb.iblock i := by
          rw [show w.d.sb = d.sb from hst.sb]
          exact Nat.ne_of_gt (Nat.lt_of_lt_of_le (hlaid.iblock_lt hi) hdata.1)
        refine (hold.sameRead_iff hlaid hi hwhole hoff (Nat.le_refl _) (close_ip hip htot)
          (congrArg Disk.data (evicted_close htorn hb hlog)) hx).mpr fun hge c hc => ?_
        rw [List.getElem?_eq_none (by omega)] at hc
        cases hc

theorem writei_leavesRest_iff {eitherCopyin : σ → Nat → Nat → Bool × List UInt8 × σ} {s : σ}
    {src : Nat} (h : Sound d I) (hwhole : Whole d.data (I i)) (hi : i < d.sb.ninodes)
    (hlaw : Lawful eitherCopyin src n) (hn : n < 2 ^ 32)
    (hw : writei eitherCopyin d i (I i) s off src n = .ok (some w)) :
    LeavesRest d (I i) off n w ↔ TearsNothing d (I i) off (fetch eitherCopyin n s off src n) := by
  obtain ⟨hoff, hend⟩ := writei_some hwhole.size_le hn hw
  obtain ⟨w₁, I', hw₁, hip, hends⟩ := writei_spec (T := fun _ => True) (i := i) s h hoff hend hlaw
    (fun _ _ _ _ _ => trivial)
  rw [hw] at hw₁
  obtain rfl := Option.some.inj (Except.ok.inj hw₁)
  exact hends.leavesRest_iff hip h.laid hi hwhole hoff fun bytes hb => fetch_length n s off hlaw hb

variable (i off n) in
theorem writei_returns {eitherCopyin : σ → Nat → Nat → Bool × List UInt8 × σ} (s : σ) {src : Nat}
    (h : Sound d I) (hlaw : Lawful eitherCopyin src n) (hoff : off ≤ (I i).size)
    (hend : off + n ≤ 268 * 1024) :
    ∃ w, writei eitherCopyin d i (I i) s off src n = .ok (some w) := by
  obtain ⟨w, -, hw, -⟩ := writei_spec (T := fun _ => True) (i := i) s h hoff hend hlaw
    (fun _ _ _ _ _ => trivial)
  exact ⟨_, hw⟩

end

/--
**A write from user memory that stops early leaves the rest of the file alone exactly if it tears
nothing.** `copyin` copies a chunk page by page. Where it fails at the second page of a chunk, what
it copied from the first is in the buffer, although `writei` does not count it.
-/
theorem writei_leaves_rest_iff (d : Disk) (I : Nat → Dinode) (i : Nat) (k : Kernel)
    (off src n : Nat) (w : Written Kernel) (h : Sound d I) (hwhole : Whole d.data (I i))
    (hi : i < d.sb.ninodes) (hn : n < 2 ^ 32)
    (hw : writei copyinUser d i (I i) k off src n = .ok (some w)) :
    LeavesRest d (I i) off n w ↔ TearsNothing d (I i) off (fetch copyinUser n k off src n) :=
  writei_leavesRest_iff h hwhole hi (lawful_copyinUser src n) hn hw

/-- A process with its first page, and no more. -/
def firstPage : Kernel :=
  ⟨bootKmem [], bootDisk, freshProc 1 4 ⟨1, fun i => if i.val = 0 then some ⟨2, fun j =>
    if j.val = 0 then some ⟨3, fun n =>
      if n.val = 0 then ⟨true, permURW, 7⟩ else Pte.zero⟩ else none⟩ else none⟩, 2⟩

/-- Nothing is copied from the second page, and nothing is torn. -/
theorem writei_leaves_rest_second_page :
    ∃ w, writei copyinUser (smallDisk fun _ => 9) 1 (smallInodes tFile 8 1) firstPage 0 4096 8 =
      .ok (some w) ∧ LeavesRest (smallDisk fun _ => 9) (smallInodes tFile 8 1) 0 8 w := by
  have hsound := small_sound (fun _ => 9) tFile 8
  have hwhole := small_whole (fun _ => 9) tFile (show 8 ≤ 1024 by decide) 1
  obtain ⟨w, hw⟩ :=
    writei_returns 1 0 8 firstPage hsound (lawful_copyinUser 4096 8) (by decide) (by decide)
  refine ⟨w, hw, (writei_leaves_rest_iff _ _ 1 firstPage 0 4096 8 w hsound hwhole (by decide)
    (by decide) hw).mpr ?_⟩
  have hfetch : fetch copyinUser 8 firstPage 0 4096 8 = ([], some []) := by decide +kernel
  rw [hfetch]
  intro bytes hb j b hj
  obtain rfl := Option.some.inj hb
  cases hj

/-- Eight bytes from four bytes before the end of the first page: the file gets the first four of
them, and `writei` returns 0. -/
theorem writei_can_tear :
    ¬ ∀ (d : Disk) (I : Nat → Dinode) (i : Nat) (k : Kernel) (off src n : Nat) (w : Written Kernel),
      Sound d I → Whole d.data (I i) → i < d.sb.ninodes → n < 2 ^ 32 →
      writei copyinUser d i (I i) k off src n = .ok (some w) → LeavesRest d (I i) off n w := by
  intro hall
  have hsound := small_sound (fun _ => 9) tFile 8
  have hwhole := small_whole (fun _ => 9) tFile (show 8 ≤ 1024 by decide) 1
  obtain ⟨w, hw⟩ :=
    writei_returns 1 0 8 firstPage hsound (lawful_copyinUser 4092 8) (by decide) (by decide)
  have hrest := hall _ _ 1 _ _ _ _ w hsound hwhole (by decide) (by decide) hw
  have htears := (writei_leavesRest_iff hsound hwhole (by decide) (lawful_copyinUser 4092 8)
    (by decide) hw).mp hrest
  have hfetch : fetch copyinUser 8 firstPage 0 4092 8 = ([], some [0, 0, 0, 0]) := by decide +kernel
  rw [hfetch] at htears
  exact absurd (htears _ rfl 0 0 rfl (by decide)) (by decide)

end Xv6Paging.Fs
