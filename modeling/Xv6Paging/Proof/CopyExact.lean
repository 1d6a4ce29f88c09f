import Xv6Paging.Proof.Books
import Xv6Paging.Proof.PageTable
import Xv6Paging.Proof.Contents
import Xv6Paging.Proof.SwapSteps

/-!
# `copyin` and `copyout`, byte by byte

Nothing is assumed of the kernel here, not even that its state can be reached: the two loops
are compared with the bytes of the range for any page table. Where every page of the range is
mapped for the user, `vmfault` is never called. Where a page of the range lies at or above
`MAXVA` the loop does not get past it, whatever `vmfault` did on the way, and `vmfault` does not
panic below `MAXVA`.
-/

namespace Xv6Paging.Proof

open Xv6Paging Lib

variable {k k' : Kernel} {va : Nat}

/-! ## `vmfault` returns -/

/-- Clearing an entry makes no other valid. -/
theorem pte_set_zero {pt : PageTable} (a : Nat) (h : (pt.pte va).v = false) :
    ((pt.set a Pte.zero).pte va).v = false := by
  cases ht : pt.table0 a with
  | none =>
    rw [set_of_table0_none ht]
    exact h
  | some t0 =>
    unfold PageTable.pte at h ⊢
    rw [table0_set ht]
    by_cases hway : px 2 va = px 2 a ∧ px 1 va = px 1 a
    · rw [table0_way pt hway, ht] at h
      rw [if_pos hway]
      dsimp only at h ⊢
      by_cases h0 : px 0 va = px 0 a
      · rw [h0, Function.update_self]
        rfl
      · rw [Function.update_of_ne h0]
        exact h
    · rw [if_neg hway]
      exact h

theorem tryKalloc_unmapped {r : Option Nat} (h : tryKallocOrReplace k = (r, k'))
    (hv : (k.p.pagetable.pte va).v = false) :
    (k'.p.pagetable.pte va).v = false := by
  rcases (tryKalloc_vacates h).pagetable with hpt | ⟨a, hpt⟩
  · rw [hpt]
    exact hv
  · rw [hpt]
    exact pte_set_zero a hv

theorem walkAlloc_pte {km km' : Kmem} {pt pt' : PageTable} {a : Nat} {ok : Bool}
    (h : walkAlloc km pt a = (ok, km', pt')) (va : Nat) : pt'.pte va = pt.pte va := by
  have hlevel2 : ∀ {ok : Bool} {km' : Kmem} {pt' : PageTable}, walkLevel2 km pt a = (ok, km', pt') →
      pt'.pte va = pt.pte va := by
    intro ok km' pt' h
    unfold walkLevel2 at h
    split at h
    · cases h; rfl
    · rename_i hnone
      split at h
      · cases h; rfl
      · cases h
        exact pte_hang1 hnone _ va
  have hlevel1 : ∀ {km₁ : Kmem} {pt₁ : PageTable}, walkLevel1 km₁ pt₁ a = (ok, km', pt') →
      pt'.pte va = pt₁.pte va := by
    intro km₁ pt₁ h
    unfold walkLevel1 at h
    split at h
    · cases h; rfl
    · rename_i t1 h1
      split at h
      · cases h; rfl
      · rename_i h0
        split at h
        · cases h; rfl
        · cases h
          exact pte_hang0 h1 h0 _ va
  unfold walkAlloc at h
  split at h
  · rename_i hw
    cases h
    exact hlevel2 hw
  · rename_i hw
    exact (hlevel1 h).trans (hlevel2 hw)

/-- `mappages` of a page that is not mapped does not panic. -/
theorem mapUser_returns (f : Nat) (perm : Perm) (hal : va % 4096 = 0) (hmax : va < maxVA)
    (hv : (k.p.pagetable.pte va).v = false) :
    ∃ r, mapUser k va f perm = .ok r := by
  unfold mapUser
  rw [mappages_page hal hmax]
  rcases hw : walkAlloc k.kmem k.p.pagetable va with ⟨_ | _, km, pt⟩
  · exact ⟨_, rfl⟩
  · dsimp only
    rw [walkAlloc_pte hw, hv, if_neg (by simp)]
    exact ⟨_, rfl⟩

theorem vmfault_returns (hal : va % 4096 = 0) (hmax : va < maxVA) :
    ∃ r, vmfault k va = .ok r := by
  have hfinish : ∀ {k : Kernel} {f : Nat} {mem : Page} {perm : Perm},
      (k.p.pagetable.pte va).v = false → ∃ r, finishVmfault k va f mem perm = .ok r := by
    intro k f mem perm hv
    obtain ⟨r, hr⟩ :=
      mapUser_returns (k := { k with kmem := k.kmem.setRam f mem }) f perm hal hmax hv
    unfold finishVmfault
    rw [hr]
    exact ⟨_, rfl⟩
  unfold vmfault
  dsimp only
  rw [pgRoundDown_eq_of_mod hal]
  split
  · exact ⟨_, rfl⟩
  · rw [if_neg (Nat.not_le.mpr hmax)]
    split
    · exact ⟨_, rfl⟩
    · rename_i hmapped
      have hv : (k.p.pagetable.pte va).v = false := by simpa [ismapped] using hmapped
      split
      · split
        · exact ⟨_, rfl⟩
        · rename_i hk
          split
          · exact ⟨_, rfl⟩
          · exact hfinish (tryKalloc_unmapped hk hv)
      · split
        · split
          · exact ⟨_, rfl⟩
          · rename_i hk
            exact hfinish (tryKalloc_unmapped hk hv)
        · exact ⟨_, rfl⟩

/-! ## Ranges -/

/-- Every byte of the range is on a page mapped for the user. -/
def MappedIn (k : Kernel) (va len : Nat) : Prop :=
  ∀ i, i < len → (k.pte (va + i)).v = true ∧ (k.pte (va + i)).perm.u = true

/-- And the pages may be written to. -/
def WritableIn (k : Kernel) (va len : Nat) : Prop :=
  MappedIn k va len ∧ ∀ i, i < len → (k.pte (va + i)).perm.w = true

/-- Different pages of the range, where they are mapped, are in different frames. -/
def FramesApart (k : Kernel) (va len : Nat) : Prop :=
  ∀ i j, i < len → j < len → (k.pte (va + i)).v = true → (k.pte (va + j)).v = true →
    (k.pte (va + i)).frame = (k.pte (va + j)).frame → (va + i) / 4096 = (va + j) / 4096

/-- The bytes of a range. -/
def bytesIn (k : Kernel) (va len : Nat) : List UInt8 :=
  (List.range len).map fun i => k.byte (va + i)

theorem bytesIn_add (k : Kernel) (va a b : Nat) :
    bytesIn k va (a + b) = bytesIn k va a ++ bytesIn k (va + a) b := by
  unfold bytesIn
  rw [List.range_add, List.map_append, List.map_map]
  congr 1
  refine List.map_congr_left fun i _ => ?_
  simp [Nat.add_assoc]

theorem pte_valid (h : (k.pte va).v = true) :
    va < maxVA ∧ k.pte va = k.p.pagetable.pte va := by
  unfold Kernel.pte at h ⊢
  split at h
  · rename_i hmax
    exact ⟨hmax, if_pos hmax⟩
  · cases h

/-- The page of an address that is mapped for the user is found. -/
theorem userFrame_mapped (hv : (k.pte va).v = true) (hu : (k.pte va).perm.u = true) :
    userFrame k (pgRoundDown va) = .ok (some (k.pte va).frame, k) := by
  obtain ⟨hmax, hpte⟩ := pte_valid hv
  have hle := pgRoundDown_le va
  have hpage : k.p.pagetable.pte (pgRoundDown va) = k.pte va := by
    rw [hpte]
    exact pte_congr _ (pgRoundDown_div va)
  unfold userFrame walkaddr
  rw [if_neg (by omega), if_neg (by omega), hpage]
  dsimp only
  rw [if_pos ⟨hv, hu⟩]

theorem userFrame_returns (k : Kernel) (va : Nat) :
    ∃ r k', userFrame k (pgRoundDown va) = .ok (r, k') ∧ (maxVA ≤ pgRoundDown va → r = none) := by
  unfold userFrame
  split
  · exact ⟨none, k, rfl, fun _ => rfl⟩
  · rename_i hmax
    split
    · exact ⟨_, k, rfl, fun h => absurd h hmax⟩
    · obtain ⟨⟨r, k'⟩, hf⟩ := vmfault_returns (k := k) (pgRoundDown_mod va) (Nat.lt_of_not_le hmax)
      exact ⟨r, k', hf, fun h => absurd h hmax⟩

/-- The last address of the range a round of the loops works on. -/
theorem round_end {len n : Nat} (hn : n = min (4096 - (va - pgRoundDown va)) len) :
    (n < len → va + n = pgRoundDown va + 4096) ∧ n ≤ len ∧ (0 < len → 0 < n) ∧
      ∀ i, i < n → (va + i) / 4096 = va / 4096 := by
  unfold pgRoundDown at hn ⊢
  refine ⟨by omega, by omega, by omega, fun i hi => by omega⟩

/-! ## `copyin` -/

theorem read_eq_bytesIn {n : Nat} (hn : ∀ i, i < n → (va + i) / 4096 = va / 4096)
    (hv : (k.pte va).v = true) :
    (k.kmem.ram (k.pte va).frame).read (va - pgRoundDown va) n = bytesIn k va n := by
  obtain ⟨hmax, hpte⟩ := pte_valid hv
  have htop : maxVA % 4096 = 0 := by decide
  refine List.map_congr_left fun i hi => ?_
  have hpage := hn i (List.mem_range.mp hi)
  have hsame : k.pte (va + i) = k.pte va := by
    rw [Kernel.pte, if_pos (by omega), hpte]
    exact pte_congr _ hpage
  have hoff : pgOff (va - pgRoundDown va + i) = pgOff (va + i) := by
    refine Fin.ext ?_
    unfold pgOff pgRoundDown
    dsimp only
    omega
  rw [Kernel.byte, hsame, hoff]

theorem copyinLoop_mapped : ∀ (fuel : Nat) {k : Kernel} {va len : Nat} (dst : List UInt8),
    len ≤ fuel →
    MappedIn k va len → copyinLoop fuel k va len dst = .ok (true, dst ++ bytesIn k va len, k) := by
  intro fuel
  induction fuel with
  | zero =>
    intro k va len dst hlen _
    have hzero : len = 0 := by omega
    subst hzero
    simp [copyinLoop, bytesIn]
  | succ fuel ih =>
    intro k va len dst hlen hmapped
    by_cases hzero : len = 0
    · subst hzero
      simp [copyinLoop, bytesIn]
    · obtain ⟨hv, hu⟩ := hmapped 0 (by omega)
      rw [Nat.add_zero] at hv hu
      rw [copyinLoop, if_neg hzero]
      dsimp only
      rw [userFrame_mapped hv hu, ok_bind]
      dsimp only
      generalize hn : min (4096 - (va - pgRoundDown va)) len = n
      obtain ⟨hnext, hle, hpos, hpage⟩ := round_end hn.symm
      rw [read_eq_bytesIn hpage hv]
      have hsplit : bytesIn k va len = bytesIn k va n ++ bytesIn k (va + n) (len - n) := by
        rw [← bytesIn_add]
        congr 1
        omega
      by_cases hlast : n < len
      · rw [← hnext hlast, ih _ (by omega) fun i hi => ?_, List.append_assoc, ← hsplit]
        rw [Nat.add_assoc]
        exact hmapped (n + i) (by omega)
      · have hdone : len - n = 0 := by omega
        rw [hdone, ih _ (Nat.zero_le _) fun i hi => absurd hi (Nat.not_lt_zero i), hsplit, hdone]
        simp [bytesIn]

/-- The loop of `copyin` does not get past `MAXVA`. -/
theorem copyinLoop_high : ∀ (fuel : Nat) {k : Kernel} {va len i : Nat} (dst : List UInt8),
    len ≤ fuel →
    i < len → maxVA ≤ va + i → ∃ dst' k', copyinLoop fuel k va len dst = .ok (false, dst', k') := by
  intro fuel
  induction fuel with
  | zero =>
    intro k va len i dst hlen hi _
    omega
  | succ fuel ih =>
    intro k va len i dst hlen hi hhigh
    rw [copyinLoop, if_neg (by omega)]
    dsimp only
    obtain ⟨r, k', hf, hnone⟩ := userFrame_returns k va
    rw [hf, ok_bind]
    cases r with
    | none => exact ⟨_, _, rfl⟩
    | some f =>
      dsimp only
      have hlow : pgRoundDown va < maxVA := by
        by_contra hge
        cases hnone (Nat.le_of_not_lt hge)
      have htop : maxVA % 4096 = 0 := by decide
      have hal := pgRoundDown_mod va
      generalize hn : min (4096 - (va - pgRoundDown va)) len = n
      obtain ⟨hnext, hle, hpos, hpage⟩ := round_end hn.symm
      have hbehind : n ≤ i := by
        by_contra hlt
        have hin := hpage i (by omega)
        unfold pgRoundDown at hlow
        omega
      refine ih _ (by omega) (show i - n < len - n by omega) ?_
      have := hnext (by omega)
      omega

/-! ## `copyout` -/

/-- The bytes of `src` are at `va`, and no other byte of memory has changed. -/
structure StoredExactly (k k' : Kernel) (va : Nat) (src : List UInt8) : Prop where
  same : k' = { k with kmem := { k.kmem with ram := k'.kmem.ram } }
  data : ∀ i, i < src.length → src[i]? = some (k'.byte (va + i))
  rest : ∀ f o, (∀ i, i < src.length → ¬ ((k.pte (va + i)).frame = f ∧ pgOff (va + i) = o)) →
    k'.kmem.ram f o = k.kmem.ram f o

theorem StoredExactly.pte {src : List UInt8} (h : StoredExactly k k' va src) (a : Nat) :
    k'.pte a = k.pte a := by
  rw [h.same]
  rfl

theorem StoredExactly.nil (k : Kernel) (va : Nat) : StoredExactly k k va [] :=
  ⟨rfl, fun i hi => absurd hi (Nat.not_lt_zero i), fun _ _ _ => rfl⟩

/-- Two stores one after the other, the second into other frames. -/
theorem StoredExactly.append {k₁ k₂ : Kernel} {a b : List UInt8} (h : StoredExactly k k₁ va a)
    (h' : StoredExactly k₁ k₂ (va + a.length) b) (hapart : ∀ i j, i < a.length → j < b.length →
      (k.pte (va + a.length + j)).frame ≠ (k.pte (va + i)).frame) :
    StoredExactly k k₂ va (a ++ b) := by
  refine ⟨?_, fun i hi => ?_, fun f o hout => ?_⟩
  · rw [h'.same, h.same]
  · by_cases hia : i < a.length
    · have hkept : k₂.byte (va + i) = k₁.byte (va + i) := by
        unfold Kernel.byte
        rw [h'.pte]
        refine h'.rest _ _ fun j hj hboth => hapart i j hia hj ?_
        rw [h.pte, h.pte] at hboth
        exact hboth.1
      rw [List.getElem?_append_left hia, h.data i hia, hkept]
    · rw [List.length_append] at hi
      rw [List.getElem?_append_right (by omega), h'.data _ (by omega)]
      congr 2
      omega
  · rw [List.length_append] at hout
    rw [h'.rest f o fun j hj => ?_, h.rest f o fun i hi => hout i (by omega)]
    rw [h.pte, Nat.add_assoc]
    exact hout (a.length + j) (by omega)

theorem copyoutFrame_mapped (hv : (k.pte va).v = true) (hu : (k.pte va).perm.u = true)
    (hw : (k.pte va).perm.w = true) :
    copyoutFrame k (pgRoundDown va) = .ok (some (k.pte va).frame, k) := by
  obtain ⟨hmax, hpte⟩ := pte_valid hv
  have hpage : k.p.pagetable.pte (pgRoundDown va) = k.pte va := by
    rw [hpte]
    exact pte_congr _ (pgRoundDown_div va)
  unfold copyoutFrame
  rw [userFrame_mapped hv hu, ok_bind]
  dsimp only
  rw [hpage, if_pos hw]

/-- One round stores its part. -/
theorem stored_round (bytes : List UInt8) (hv : (k.pte va).v = true)
    (hn : ∀ i, i < bytes.length → (va + i) / 4096 = va / 4096) :
    StoredExactly k (storeInto k (k.pte va).frame (va - pgRoundDown va) bytes) va bytes := by
  obtain ⟨hmax, hpte⟩ := pte_valid hv
  have htop : maxVA % 4096 = 0 := by decide
  have hsame : ∀ i, i < bytes.length → k.pte (va + i) = k.pte va := by
    intro i hi
    have hpage := hn i hi
    rw [Kernel.pte, if_pos (by omega), hpte]
    exact pte_congr _ hpage
  refine ⟨rfl, fun i hi => ?_, fun f o hout => ?_⟩
  · have hpage := hn i hi
    show bytes[i]? = some ((k.kmem.setRam _ _).ram (k.pte (va + i)).frame (pgOff (va + i)))
    rw [hsame i hi, setRam_self]
    unfold Page.write pgOff pgRoundDown
    dsimp only
    rw [if_pos (by omega), List.getD_eq_getElem?_getD,
      show (va + i) % 4096 - (va - va / 4096 * 4096) = i by omega, List.getElem?_eq_getElem hi]
    rfl
  · show (k.kmem.setRam _ _).ram f o = k.kmem.ram f o
    by_cases hf : f = (k.pte va).frame
    · subst hf
      rw [setRam_self]
      unfold Page.write pgRoundDown
      rw [if_neg fun hin => ?_]
      -- the offset would be that of a byte of the range
      have hpage := hn (o.val - (va - va / 4096 * 4096)) (by omega)
      refine hout (o.val - (va - va / 4096 * 4096)) (by omega) ⟨by rw [hsame _ (by omega)], ?_⟩
      refine Fin.ext ?_
      unfold pgOff
      dsimp only
      omega
    · rw [setRam_ne _ _ hf]

theorem copyoutLoop_mapped : ∀ (fuel : Nat) {k : Kernel} {va : Nat} {src : List UInt8},
    src.length ≤ fuel → WritableIn k va src.length → FramesApart k va src.length →
    ∃ k', copyoutLoop copyoutFrame storeInto fuel k va src = .ok (true, k') ∧
      StoredExactly k k' va src := by
  intro fuel
  induction fuel with
  | zero =>
    intro k va src hlen _ _
    have hnil : src = [] := List.eq_nil_of_length_eq_zero (by omega)
    subst hnil
    exact ⟨k, rfl, StoredExactly.nil k va⟩
  | succ fuel ih =>
    intro k va src hlen hwritable hapart
    by_cases hnil : src = []
    · subst hnil
      exact ⟨k, rfl, StoredExactly.nil k va⟩
    · have hsrc : 0 < src.length := List.length_pos_iff.mpr hnil
      obtain ⟨hv, hu⟩ := hwritable.1 0 hsrc
      have hw := hwritable.2 0 hsrc
      rw [Nat.add_zero] at hv hu hw
      rw [copyoutLoop, if_neg (by simpa using hnil)]
      dsimp only
      rw [copyoutFrame_mapped hv hu hw, ok_bind]
      dsimp only
      generalize hn : min (4096 - (va - pgRoundDown va)) src.length = n
      obtain ⟨hnext, hle, hpos, hpage⟩ := round_end hn.symm
      have htake : (src.take n).length = n := by
        rw [List.length_take]
        omega
      have hdrop : (src.drop n).length = src.length - n := List.length_drop
      have hround := stored_round (src.take n) hv (by rw [htake]; exact hpage)
      generalize storeInto k (k.pte va).frame (va - pgRoundDown va) (src.take n) = k₁ at hround ⊢
      by_cases hlast : n < src.length
      · have hmore : WritableIn k₁ (va + n) (src.drop n).length := by
          refine ⟨fun i hi => ?_, fun i hi => ?_⟩
          · rw [hround.pte, Nat.add_assoc]
            exact hwritable.1 (n + i) (by omega)
          · rw [hround.pte, Nat.add_assoc]
            exact hwritable.2 (n + i) (by omega)
        obtain ⟨k', hloop, hrest⟩ := ih (by omega) hmore (fun i j hi hj hvi hvj hframe => by
          rw [hround.pte, Nat.add_assoc] at hvi hvj
          rw [hround.pte, hround.pte, Nat.add_assoc, Nat.add_assoc] at hframe
          rw [Nat.add_assoc, Nat.add_assoc]
          exact hapart _ _ (by omega) (by omega) hvi hvj hframe)
        refine ⟨k', by rw [← hnext hlast]; exact hloop, ?_⟩
        rw [← List.take_append_drop n src]
        refine hround.append (by rw [htake]; exact hrest) fun i j hi hj hframe => ?_
        rw [htake] at hi hframe
        rw [Nat.add_assoc] at hframe
        -- a later page is in another frame
        have hpages := hapart _ _ (by omega) (by omega) (hwritable.1 _ (by omega)).1
          (hwritable.1 _ (by omega)).1 hframe
        have hi' := hpage i hi
        have hend := hnext hlast
        have hal := pgRoundDown_mod va
        unfold pgRoundDown at hend hal
        omega
      · have hall : src.take n = src := List.take_of_length_le (by omega)
        have hnone : src.drop n = [] := List.drop_eq_nil_of_le (by omega)
        rw [hall] at hround
        refine ⟨k₁, ?_, hround⟩
        rw [hnone]
        cases fuel with
        | zero => rfl
        | succ fuel => rfl

theorem copyoutFrame_returns (k : Kernel) (va : Nat) :
    ∃ r k', copyoutFrame k (pgRoundDown va) = .ok (r, k') ∧
    (maxVA ≤ pgRoundDown va → r = none) := by
  obtain ⟨r, k', hf, hnone⟩ := userFrame_returns k va
  unfold copyoutFrame
  rw [hf, ok_bind]
  cases r with
  | none => exact ⟨none, k', rfl, fun _ => rfl⟩
  | some f =>
    refine ⟨_, k', rfl, fun hhigh => ?_⟩
    cases hnone hhigh

theorem copyoutLoop_high {store : Kernel → Nat → Nat → List UInt8 → Kernel} :
    ∀ (fuel : Nat) {k : Kernel} {va i : Nat} {src : List UInt8}, src.length ≤ fuel →
    i < src.length →
      maxVA ≤ va + i → ∃ k', copyoutLoop copyoutFrame store fuel k va src = .ok (false, k') := by
  intro fuel
  induction fuel with
  | zero =>
    intro k va i src hlen hi _
    omega
  | succ fuel ih =>
    intro k va i src hlen hi hhigh
    have hnil : src ≠ [] := List.length_pos_iff.mp (by omega)
    rw [copyoutLoop, if_neg (by simpa using hnil)]
    dsimp only
    obtain ⟨r, k', hf, hnone⟩ := copyoutFrame_returns k va
    rw [hf, ok_bind]
    cases r with
    | none => exact ⟨_, rfl⟩
    | some f =>
      dsimp only
      have hlow : pgRoundDown va < maxVA := by
        by_contra hge
        cases hnone (Nat.le_of_not_lt hge)
      have htop : maxVA % 4096 = 0 := by decide
      have hal := pgRoundDown_mod va
      generalize hn : min (4096 - (va - pgRoundDown va)) src.length = n
      obtain ⟨hnext, hle, hpos, hpage⟩ := round_end hn.symm
      have hbehind : n ≤ i := by
        by_contra hlt
        have hin := hpage i (by omega)
        unfold pgRoundDown at hlow
        omega
      have hdrop : (src.drop n).length = src.length - n := List.length_drop
      refine ih (by omega) (show i - n < (src.drop n).length by omega) ?_
      have := hnext (by omega)
      omega

/-! ## Both -/

/-- What is asked of the two on a range; `C` is a condition on `copyout`. -/
structure CopiesExactly (C : Prop) (k : Kernel) (va : Nat) (src : List UInt8) : Prop where
  copyin : MappedIn k va src.length →
    copyin k va src.length = .ok (true, bytesIn k va src.length, k)
  copyout : C → WritableIn k va src.length → ∃ k', copyout k va src = .ok (true, k') ∧
    StoredExactly k k' va src ∧ Xv6Paging.copyin k' va src.length = .ok (true, src, k')
  high : (∃ i, i < src.length ∧ maxVA ≤ va + i) →
    (∃ dst k', Xv6Paging.copyin k va src.length = .ok (false, dst, k')) ∧
      ∃ k', Xv6Paging.copyout k va src = .ok (false, k')

theorem StoredExactly.bytesIn {src : List UInt8} (h : StoredExactly k k' va src) :
    bytesIn k' va src.length = src := by
  refine List.ext_getElem? fun i => ?_
  unfold Proof.bytesIn
  rw [List.getElem?_map]
  by_cases hi : i < src.length
  · rw [List.getElem?_range hi, h.data i hi]
    rfl
  · rw [List.getElem?_eq_none (by simpa using hi), List.getElem?_eq_none (Nat.le_of_not_lt hi)]
    rfl

/--
**`copyin` and `copyout` move exactly the bytes asked for**; `copyout`, provided that no two pages
of the range are the same frame.
-/
theorem copies_exactly (k : Kernel) (va : Nat) (src : List UInt8) :
    CopiesExactly (FramesApart k va src.length) k va src := by
  have hin : ∀ {k : Kernel}, MappedIn k va src.length →
      copyin k va src.length = .ok (true, bytesIn k va src.length, k) := by
    intro k hmapped
    exact copyinLoop_mapped src.length [] (Nat.le_refl _) hmapped
  refine ⟨hin, fun hapart hwritable => ?_, ?_⟩
  · obtain ⟨k', hout, hstored⟩ := copyoutLoop_mapped src.length (Nat.le_refl _) hwritable hapart
    have hback := hin (k := k') fun i hi => by
      rw [hstored.pte]
      exact hwritable.1 i hi
    rw [hstored.bytesIn] at hback
    exact ⟨k', hout, hstored, hback⟩
  · rintro ⟨i, hi, hhigh⟩
    exact ⟨copyinLoop_high src.length [] (Nat.le_refl _) hi hhigh,
      copyoutLoop_high src.length (Nat.le_refl _) hi hhigh⟩

/-- In every state of the system, no two pages of a range of the user are the same frame. -/
theorem reachable_framesApart (h : Reachable k) {len : Nat} (hmapped : MappedIn k va len) :
    FramesApart k va len := by
  obtain ⟨S, hok⟩ := reachable_spaceInv h
  have hlow : ∀ i, i < len → va + i < trapframeVA := by
    intro i hi
    obtain ⟨hv, hu⟩ := hmapped i hi
    obtain ⟨hmax, hpte⟩ := pte_valid hv
    by_contra hge
    rw [hpte, (hok.top (va + i) (Nat.le_of_not_lt hge) hmax).2.1] at hu
    cases hu
  intro i j hi hj hvi hvj hframe
  obtain ⟨_, hpi⟩ := pte_valid hvi
  obtain ⟨_, hpj⟩ := pte_valid hvj
  rw [hpi] at hvi hframe
  rw [hpj] at hvj hframe
  by_contra hne
  exact frames_ne hok (hlow i hi) (hlow j hj) hvi hvj hne hframe

/-- Two pages of the heap, and a range across the boundary between them. -/
theorem copies_exactly_across_pages :
    ∃ k k', Reachable k ∧ WritableIn k 16383 2 ∧ copyout k 16383 [1, 2] = .ok (true, k') ∧
      StoredExactly k k' 16383 [1, 2] ∧ copyin k' 16383 2 = .ok (true, [1, 2], k') := by
  have hrun : (after (fun _ _ => true) [] [.exec [47] onePage [[65]], .sbrk 8192 1]).map (fun k =>
      ((k.pte 16383).permits .write, (k.pte 16384).permits .write)) = some (true, true) := by
    decide +kernel
  obtain ⟨k, hk, hat⟩ := Option.map_eq_some_iff.mp hrun
  have hreach : Reachable k := after_reachable (fun _ _ _ => trivial) hk
  simp only [Prod.mk.injEq, Pte.permits, Bool.and_eq_true] at hat
  obtain ⟨⟨hvu₀, hw₀⟩, ⟨hvu₁, hw₁⟩⟩ := hat
  have hwritable : WritableIn k 16383 2 := by
    refine ⟨fun i hi => ?_, fun i hi => ?_⟩
    · interval_cases i
      · exact hvu₀
      · exact hvu₁
    · interval_cases i
      · exact hw₀
      · exact hw₁
  obtain ⟨k', hout, hstored, hback⟩ :=
    (copies_exactly k 16383 [1, 2]).copyout (reachable_framesApart hreach hwritable.1) hwritable
  exact ⟨k, k', hreach, hwritable, hout, hstored, hback⟩

/-- A page table with the same frame at the first two pages. -/
def aliased : PageTable :=
  ⟨1, fun i => if i.val = 0 then some ⟨2, fun j => if j.val = 0 then some ⟨3, fun n =>
    if n.val < 2 then ⟨true, permURW, 7⟩ else Pte.zero⟩ else none⟩ else none⟩

/-- The page comes back with what was stored into it last. -/
theorem copyout_can_overwrite :
    ¬ ∀ (k : Kernel) (va : Nat) (src : List UInt8), CopiesExactly True k va src := by
  intro hall
  let k : Kernel := ⟨bootKmem [], bootDisk, freshProc 1 4 aliased, 2⟩
  let src : List UInt8 := List.replicate 4096 1 ++ [2]
  have hpte : ∀ va, va < 8192 → k.pte va = ⟨true, permURW, 7⟩ := by
    intro va hva
    have h2 : px 2 va = 0 := Fin.ext (by simp only [px]; omega)
    have h1 : px 1 va = 0 := Fin.ext (by simp only [px]; omega)
    have h0 : (px 0 va).val < 2 := by simp only [px]; omega
    rw [Kernel.pte, if_pos (Nat.lt_of_lt_of_le hva (by decide))]
    show aliased.pte va = _
    unfold PageTable.pte PageTable.table0 aliased
    rw [h2, h1]
    exact if_pos h0
  have hfill : (List.replicate 4096 (1 : UInt8)).length = 4096 := List.length_replicate
  have hlen : src.length = 4097 := by
    rw [List.length_append, hfill]
    rfl
  have hwritable : WritableIn k 0 src.length := by
    refine ⟨fun i hi => ?_, fun i hi => ?_⟩
    · rw [hpte _ (by omega)]
      exact ⟨rfl, rfl⟩
    · rw [hpte _ (by omega)]
      rfl
  obtain ⟨k', _, hstored, _⟩ := (hall k 0 src).copyout trivial hwritable
  have hfirst := hstored.data 0 (by omega)
  have hlast := hstored.data 4096 (by omega)
  have hsame : k'.byte (0 + 4096) = k'.byte (0 + 0) := by
    unfold Kernel.byte
    rw [hstored.pte, hstored.pte, hpte _ (by omega), hpte _ (by omega)]
    rfl
  rw [hsame, ← hfirst] at hlast
  have htwo : src[4096]? = some 2 := by
    rw [List.getElem?_append_right hfill.le, hfill]
    rfl
  have hone : src[0]? = some 1 := by
    rw [List.getElem?_append_left (by omega), List.getElem?_replicate]
    rfl
  rw [htwo, hone] at hlast
  cases hlast

end Xv6Paging.Proof
