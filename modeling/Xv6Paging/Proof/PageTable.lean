import Xv6Paging.Lib.Ledger
import Xv6Paging.Kernel.PageTable

/-!
# What a page table maps, and which frames it holds

Two readings of the tree. `PageTable.pte` is the flat map from pages to leaf
entries, and the first half of this file says how each function of `vm.c` changes
it. `PageTable.frameAt` is the map from the slots of the tree to the frames they
hold, and with it the tree becomes a `Ledger`: no frame is in two slots, and none
is on the free list.

The two leaf entries at the top of the address space point at frames the table
does not own, the trampoline and the trapframe. They are no slots.
-/

namespace Xv6Paging.Proof

open Xv6Paging Lib

variable {pt : PageTable} {a b va : Nat}

/-! ## The flat map -/

theorem table0_way (pt : PageTable) (h : px 2 a = px 2 b ∧ px 1 a = px 1 b) :
    pt.table0 a = pt.table0 b := by
  unfold PageTable.table0
  rw [h.1, h.2]

theorem table0_congr (pt : PageTable) (h : a / 4096 = b / 4096) :
    pt.table0 a = pt.table0 b :=
  table0_way pt ⟨px_congr 2 h, px_congr 1 h⟩

theorem pte_congr (pt : PageTable) (h : a / 4096 = b / 4096) : pt.pte a = pt.pte b := by
  unfold PageTable.pte
  rw [table0_congr pt h, px_congr 0 h]

theorem set_eq {t1 : Table1} {t0 : Table0} (h1 : pt.next (px 2 va) = some t1)
    (h0 : t1.next (px 1 va) = some t0) (e : Pte) :
    pt.set va e = { pt with next := Function.update pt.next (px 2 va) (some
      { t1 with next := Function.update t1.next (px 1 va) (some
        { t0 with pte := Function.update t0.pte (px 0 va) e }) }) } := by
  unfold PageTable.set
  rw [h1]
  dsimp only
  rw [h0]

/-- Writing an entry changes one level-0 page, the one on the way to it. -/
theorem table0_set {t0 : Table0} (h : pt.table0 va = some t0) (e : Pte) (va' : Nat) :
    (pt.set va e).table0 va' =
      if px 2 va' = px 2 va ∧ px 1 va' = px 1 va then
        some { t0 with pte := Function.update t0.pte (px 0 va) e }
      else pt.table0 va' := by
  obtain ⟨t1, h1, h0⟩ := Option.bind_eq_some_iff.mp h
  rw [set_eq h1 h0]
  unfold PageTable.table0
  dsimp only
  by_cases e2 : px 2 va' = px 2 va
  · by_cases e1 : px 1 va' = px 1 va
    · rw [if_pos ⟨e2, e1⟩, e2, e1]
      simp
    · rw [if_neg (fun c => e1 c.2), e2, h1]
      simp [e1]
  · rw [if_neg (fun c => e2 c.1)]
    simp [e2]

/-- **One entry changes and no other.** -/
theorem pte_set {va' : Nat} (e : Pte) (hp : (pt.table0 va).isSome) (hva : va < maxVA)
    (hva' : va' < 2 * maxVA) :
    (pt.set va e).pte va' = if va' / 4096 = va / 4096 then e else pt.pte va' := by
  obtain ⟨t0, h⟩ := Option.isSome_iff_exists.mp hp
  unfold PageTable.pte
  rw [table0_set h]
  by_cases hpage : va' / 4096 = va / 4096
  · rw [if_pos ⟨px_congr 2 hpage, px_congr 1 hpage⟩, if_pos hpage, px_congr 0 hpage]
    simp
  · rw [if_neg hpage]
    by_cases hway : px 2 va' = px 2 va ∧ px 1 va' = px 1 va
    · -- the same level-0 page, so the last index is what tells them apart
      have e0 : px 0 va' ≠ px 0 va := fun e0 => hpage (px_inj hva' (by omega) hway.1 hway.2 e0)
      rw [if_pos hway, table0_way pt hway, h]
      simp [e0]
    · rw [if_neg hway]

theorem set_of_table0_none (h : pt.table0 va = none) (e : Pte) :
    pt.set va e = pt := by
  unfold PageTable.set
  split
  · rfl
  · rename_i t1 h1
    have h0 : t1.next (px 1 va) = none := by simpa [PageTable.table0, h1] using h
    rw [h0]

theorem set_table0 (pt : PageTable) (va : Nat) (e : Pte) (va' : Nat) :
    ((pt.set va e).table0 va').isSome = (pt.table0 va').isSome := by
  cases h : pt.table0 va with
  | none => rw [set_of_table0_none h]
  | some t0 =>
    rw [table0_set h]
    split
    · rename_i hway
      rw [table0_way pt hway, h]
      rfl
    · rfl

/-! ## The frames a table holds -/

end Xv6Paging.Proof

namespace Xv6Paging

/-- The places of a tree that hold a frame: table pages, and user leaf entries. -/
inductive Slot where
  | root
  | dir (i : Fin 512)
  | table (i j : Fin 512)
  | page (n : Nat)
  deriving DecidableEq

/-- The frame in each slot. -/
def PageTable.frameAt (pt : PageTable) : Slot → Option Nat
  | .root => some pt.frame
  | .dir i => (pt.next i).map (·.frame)
  | .table i j => ((pt.next i).bind (·.next j)).map (·.frame)
  | .page n =>
    if n * 4096 < trapframeVA ∧ (pt.pte (n * 4096)).v = true then some (pt.pte (n * 4096)).frame
    else none

end Xv6Paging

namespace Xv6Paging.Proof

open Xv6Paging Lib

variable {a b f va : Nat} {pt pt' : PageTable} {km km' : Kmem} {S U : Set Nat} {perm : Perm}
  {ok : Bool}

theorem frameAt_page (hva : va < trapframeVA) :
    pt.frameAt (.page (va / 4096)) =
      if (pt.pte va).v = true then some (pt.pte va).frame else none := by
  have hbase : va / 4096 * 4096 < trapframeVA := by omega
  have hpage : pt.pte (va / 4096 * 4096) = pt.pte va := pte_congr pt (by omega)
  simp [PageTable.frameAt, hpage, hbase]

theorem frameAt_set_dir (pt : PageTable) (va : Nat) (e : Pte) (i : Fin 512) :
    (pt.set va e).frameAt (.dir i) = pt.frameAt (.dir i) := by
  unfold PageTable.set
  split
  · rfl
  · rename_i t1 h1
    split
    · rfl
    · by_cases hi : i = px 2 va
      · subst hi; simp [PageTable.frameAt, h1]
      · simp [PageTable.frameAt, hi]

theorem frameAt_set_table (pt : PageTable) (va : Nat) (e : Pte) (i j : Fin 512) :
    (pt.set va e).frameAt (.table i j) = pt.frameAt (.table i j) := by
  unfold PageTable.set
  split
  · rfl
  · rename_i t1 h1
    split
    · rfl
    · rename_i t0 h0
      by_cases hi : i = px 2 va
      · subst hi
        by_cases hj : j = px 1 va
        · subst hj; simp [PageTable.frameAt, h1, h0]
        · simp [PageTable.frameAt, h1, hj]
      · simp [PageTable.frameAt, hi]

theorem set_frame (pt : PageTable) (va : Nat) (e : Pte) : (pt.set va e).frame = pt.frame := by
  unfold PageTable.set
  split
  · rfl
  · split <;> rfl

/-- Writing a user entry changes one slot. -/
theorem frameAt_set (e : Pte) (hp : (pt.table0 va).isSome) (hva : va < trapframeVA) :
    (pt.set va e).frameAt =
      Function.update pt.frameAt (.page (va / 4096)) (if e.v =
        true then some e.frame else none) := by
  have hmax : va < maxVA := by rw [trapframeVA_eq] at hva; rw [maxVA_eq]; omega
  funext s
  cases s with
  | root => simp [PageTable.frameAt, set_frame]
  | dir i => simp [frameAt_set_dir]
  | table i j => simp [frameAt_set_table]
  | page n =>
    by_cases hn : n = va / 4096
    · subst hn
      rw [Function.update_self, frameAt_page hva, pte_set e hp hmax (by omega), if_pos rfl]
    · rw [Function.update_of_ne (by simpa using hn)]
      by_cases hlow : n * 4096 < trapframeVA
      · have hn' : n * 4096 < 2 * maxVA := by rw [trapframeVA_eq] at hlow; rw [maxVA_eq]; omega
        have hpage : ¬ n * 4096 / 4096 = va / 4096 := by omega
        simp only [PageTable.frameAt, pte_set e hp hmax hn', if_neg hpage]
      · simp [PageTable.frameAt, hlow]

/-- Writing one of the two top entries changes no slot. -/
theorem frameAt_set_top (e : Pte) (hp : (pt.table0 va).isSome) (htop : trapframeVA ≤ va)
    (hva : va < maxVA) : (pt.set va e).frameAt = pt.frameAt := by
  funext s
  cases s with
  | root => simp [PageTable.frameAt, set_frame]
  | dir i => exact frameAt_set_dir pt va e i
  | table i j => exact frameAt_set_table pt va e i j
  | page n =>
    by_cases hlow : n * 4096 < trapframeVA
    · have hn : n * 4096 < 2 * maxVA := by rw [trapframeVA_eq] at hlow; rw [maxVA_eq]; omega
      have hpage : ¬ n * 4096 / 4096 = va / 4096 := by rw [trapframeVA_eq] at hlow htop; omega
      simp only [PageTable.frameAt, pte_set e hp hva hn, if_neg hpage]
    · simp [PageTable.frameAt, hlow]

/-- **Every frame is accounted for**: free, in one slot of the tree, or in `S`. -/
structure VmInv (U S : Set Nat) (km : Kmem) (pt : PageTable) : Prop where
  ok : km.Ok
  ledger : Ledger U km.Free pt.frameAt S

/-! ## Steps that only allocate -/

/-- What holds of the allocator after a step that frees nothing. -/
structure Keeps (km km' : Kmem) : Prop where
  ram : ∀ g, ¬ km.Free g → km'.ram g = km.ram g
  held : ∀ g, ¬ km.Free g → ¬ km'.Free g
  others : km'.others = km.others
  calls : km.calls ≤ km'.calls

theorem Keeps.refl (km : Kmem) : Keeps km km := ⟨fun _ _ => rfl, fun _ h => h, rfl, Nat.le_refl _⟩

theorem Keeps.trans {a b c : Kmem} (h : Keeps a b) (h' : Keeps b c) : Keeps a c :=
  ⟨fun g hg => (h'.ram g (h.held g hg)).trans (h.ram g hg),
    fun g hg => h'.held g (h.held g hg), h'.others.trans h.others, Nat.le_trans h.calls h'.calls⟩

theorem Keeps.of_idles (h : km.Idles km') : Keeps km km' :=
  ⟨fun g _ => congrFun h.ram g, fun g hg hx => hg ((h.free g).mp hx), h.others, h.calls⟩

/-- Taking a frame and filling it disturbs nothing that was held. -/
theorem Keeps.of_takes (h : km.Takes km' f) (pg : Page) :
    Keeps km (km'.setRam f pg) := by
  refine ⟨fun g hg => ?_, fun g hg hx => hg ((h.rest g).mp hx).1, h.others, h.calls⟩
  have hne : g ≠ f := fun he => hg (he ▸ h.free)
  rw [setRam_ne _ _ hne, h.ram g hne]

theorem VmInv.idle (h : VmInv U S km pt) (hk : km.Idles km') : VmInv U S km' pt :=
  ⟨hk.ok h.ok, h.ledger.congr_free hk.free⟩

/-- A frame taken from the list and hung into an empty slot of the tree. -/
theorem VmInv.hang {s : Slot} (h : VmInv U S km pt) (hk : km.Takes km' f) (pg : Page)
    (hs : pt.frameAt s = none) (hpt : pt'.frameAt = Function.update pt.frameAt s (some f)) :
    VmInv U S (km'.setRam f pg) pt' := by
  refine ⟨ok_setRam hk.ok f pg, ?_⟩
  rw [hpt]
  have hled := (h.ledger.take hk.free hk.rest).graft (Set.mem_insert f S) hs
  exact (hled.congr_free fun g => Iff.rfl).restore fun hf => h.ledger.out f hf hk.free

/-- What an allocating walk did, whether or not it got to the leaf. -/
structure Walked (U S : Set Nat) (km : Kmem) (pt : PageTable) (km' : Kmem) (pt' : PageTable) :
    Prop where
  inv : VmInv U S km' pt'
  keeps : Keeps km km'
  pte : ∀ va, pt'.pte va = pt.pte va

theorem Walked.trans {a b c : Kmem} {p q r : PageTable} (h : Walked U S a p b q)
    (h' : Walked U S b q c r) : Walked U S a p c r :=
  ⟨h'.inv, h.keeps.trans h'.keeps, fun va => (h'.pte va).trans (h.pte va)⟩

/-- A fresh level-1 page maps nothing. -/
theorem pte_hang1 {i : Fin 512} (h : pt.next i = none) (f va : Nat) :
    ({ pt with next := Function.update pt.next i (some (Table1.empty f)) } : PageTable).pte va
      = pt.pte va := by
  unfold PageTable.pte PageTable.table0
  dsimp only
  by_cases hi : px 2 va = i
  · subst hi; simp [h, Table1.empty]
  · simp [hi]

/-- A fresh level-0 page maps nothing. -/
theorem pte_hang0 {i j : Fin 512} {t1 : Table1} (h1 : pt.next i = some t1) (h0 : t1.next j = none)
    (f va : Nat) :
    ({ pt with next := Function.update pt.next i (some
        { t1 with next := Function.update t1.next j (some (Table0.empty f)) }) } : PageTable).pte va
      = pt.pte va := by
  unfold PageTable.pte PageTable.table0
  dsimp only
  by_cases hi : px 2 va = i
  · subst hi
    by_cases hj : px 1 va = j
    · subst hj; simp [h1, h0, Table0.empty]
    · simp [h1, hj]
  · simp [hi]

theorem walkLevel2_spec (hinv : VmInv U S km pt) (h : walkLevel2 km pt va = (ok, km', pt')) :
    Walked U S km pt km' pt' ∧ (ok = true → (pt'.next (px 2 va)).isSome) := by
  unfold walkLevel2 at h
  split at h
  · rename_i t1 h1
    cases h
    exact ⟨⟨hinv, Keeps.refl _, fun _ => rfl⟩, fun _ => by simp [h1]⟩
  · rename_i hnone
    split at h
    · rename_i km1 hk
      cases h
      have hidle := kalloc_none hk
      exact ⟨⟨hinv.idle hidle, Keeps.of_idles hidle, fun _ => rfl⟩, fun hf => by simp at hf⟩
    · rename_i f km1 hk
      cases h
      have htake := kalloc_some hinv.ok hk
      have hslot : pt.frameAt (.dir (px 2 va)) = none := by simp [PageTable.frameAt, hnone]
      refine ⟨⟨hinv.hang htake _ hslot ?_, Keeps.of_takes htake _, pte_hang1 hnone f⟩,
        fun _ => by simp⟩
      funext s
      cases s with
      | root => simp [PageTable.frameAt]
      | dir i =>
        by_cases hi : i = px 2 va
        · subst hi; simp [PageTable.frameAt, Table1.empty]
        · simp [PageTable.frameAt, hi]
      | table i j =>
        by_cases hi : i = px 2 va
        · subst hi; simp [PageTable.frameAt, Table1.empty, hnone]
        · simp [PageTable.frameAt, hi]
      | page n => simp [PageTable.frameAt, pte_hang1 hnone]

theorem walkLevel1_spec (hinv : VmInv U S km pt) (h : walkLevel1 km pt va = (ok, km', pt')) :
    Walked U S km pt km' pt' ∧ (ok = true → (pt'.table0 va).isSome) := by
  unfold walkLevel1 at h
  split at h
  · cases h
    exact ⟨⟨hinv, Keeps.refl _, fun _ => rfl⟩, fun hf => by simp at hf⟩
  · rename_i t1 h1
    split at h
    · rename_i t0 h0
      cases h
      exact ⟨⟨hinv, Keeps.refl _, fun _ => rfl⟩, fun _ => by simp [PageTable.table0, h1, h0]⟩
    · rename_i hnone
      split at h
      · rename_i km1 hk
        cases h
        have hidle := kalloc_none hk
        exact ⟨⟨hinv.idle hidle, Keeps.of_idles hidle, fun _ => rfl⟩, fun hf => by simp at hf⟩
      · rename_i f km1 hk
        cases h
        have htake := kalloc_some hinv.ok hk
        have hslot : pt.frameAt (.table (px 2 va) (px 1 va)) = none := by
          simp [PageTable.frameAt, h1, hnone]
        refine ⟨⟨hinv.hang htake _ hslot ?_, Keeps.of_takes htake _, pte_hang0 h1 hnone f⟩,
          fun _ => by simp [PageTable.table0]⟩
        funext s
        cases s with
        | root => simp [PageTable.frameAt]
        | dir i =>
          by_cases hi : i = px 2 va
          · subst hi; simp [PageTable.frameAt, h1]
          · simp [PageTable.frameAt, hi]
        | table i j =>
          by_cases hi : i = px 2 va
          · subst hi
            by_cases hj : j = px 1 va
            · subst hj; simp [PageTable.frameAt, Table0.empty]
            · simp [PageTable.frameAt, h1, hj]
          · simp [PageTable.frameAt, hi]
        | page n => simp [PageTable.frameAt, pte_hang0 h1 hnone]

/-- **An allocating walk maps nothing and loses nothing**, even when it fails half way. -/
theorem walkAlloc_spec (hinv : VmInv U S km pt) (h : walkAlloc km pt va = (ok, km', pt')) :
    Walked U S km pt km' pt' ∧ (ok = true → (pt'.table0 va).isSome) := by
  unfold walkAlloc at h
  split at h
  · rename_i km1 pt1 h2
    cases h
    exact ⟨(walkLevel2_spec hinv h2).1, fun hf => by simp at hf⟩
  · rename_i km1 pt1 h2
    have hw := (walkLevel2_spec hinv h2).1
    have hw' := walkLevel1_spec hw.inv h
    exact ⟨hw.trans hw'.1, hw'.2⟩

/-! ## `mappages` on one page -/

/-- One page of `mappages` is a walk and one write. -/
theorem mappages_page (hal : va % 4096 = 0) (hva : va < maxVA) :
    mappages km pt va 4096 f perm =
      match walkAlloc km pt va with
      | (false, km, pt) => .ok (false, km, pt)
      | (true, km, pt) =>
        if (pt.pte va).v then .error (.panic .remap)
        else .ok (true, km, pt.set va ⟨true, perm, f⟩) := by
  have hlt : ¬ maxVA ≤ va := by omega
  rcases hw : walkAlloc km pt va with ⟨_ | _, km1, pt1⟩ <;>
    simp [mappages, hal, mappagesLoop, hlt, hw]

/-- What mapping frame `f` at `va` did to the flat map. -/
def Maps (pt pt' : PageTable) (va : Nat) (e : Pte) : Prop :=
  ∀ va', va' < 2 * maxVA → pt'.pte va' = if va' / 4096 = va / 4096 then e else pt.pte va'

/-- `mappages` panics on a page only when it is mapped already. -/
theorem mappages_ok (f : Nat) (perm : Perm) (hinv : VmInv U S km pt) (hal : va % 4096 = 0)
    (hva : va < maxVA) (hfree : (pt.pte va).v = false) :
    ∃ ok km' pt', mappages km pt va 4096 f perm = .ok (ok, km', pt') := by
  rw [mappages_page hal hva]
  rcases hw : walkAlloc km pt va with ⟨_ | _, km1, pt1⟩
  · exact ⟨_, _, _, rfl⟩
  · have hpte := (walkAlloc_spec hinv hw).1.pte va
    simp [hpte, hfree]

/-- A failed `mappages` leaves table pages behind and nothing else. -/
theorem mappages_false (hinv : VmInv U S km pt) (hal : va % 4096 = 0) (hva : va < maxVA)
    (h : mappages km pt va 4096 f perm = .ok (false, km', pt')) : Walked U S km pt km' pt' := by
  rw [mappages_page hal hva] at h
  rcases hw : walkAlloc km pt va with ⟨_ | _, km1, pt1⟩
  · rw [hw] at h
    cases h
    exact (walkAlloc_spec hinv hw).1
  · rw [hw] at h
    dsimp only at h
    split at h <;> simp at h

/-- The walk behind a successful `mappages`, and the entry it then wrote. -/
theorem mappages_true (hinv : VmInv U S km pt) (hal : va % 4096 = 0) (hva : va < maxVA)
    (h : mappages km pt va 4096 f perm = .ok (true, km', pt')) :
    ∃ pt1, Walked U S km pt km' pt1 ∧ (pt1.table0 va).isSome ∧ (pt.pte va).v = false ∧
      pt' = pt1.set va ⟨true, perm, f⟩ ∧ Maps pt pt' va ⟨true, perm, f⟩ := by
  rw [mappages_page hal hva] at h
  rcases hw : walkAlloc km pt va with ⟨_ | _, km1, pt1⟩
  · rw [hw] at h
    simp at h
  · rw [hw] at h
    dsimp only at h
    obtain ⟨hwalk, hsome⟩ := walkAlloc_spec hinv hw
    split at h
    · simp at h
    · rename_i hv
      cases h
      refine ⟨pt1, hwalk, hsome rfl, by simpa [hwalk.pte va] using hv, rfl, fun va' hva' => ?_⟩
      rw [pte_set _ (hsome rfl) hva hva', hwalk.pte va']

/-- **Mapping a user page** moves its frame from outside into the tree. -/
theorem mappages_user (hinv : VmInv U S km pt) (hf : f ∈ S) (hal : va % 4096 = 0)
    (hva : va < trapframeVA) (h : mappages km pt va 4096 f perm = .ok (true, km', pt')) :
    VmInv U (S \ {f}) km' pt' ∧ Keeps km km' ∧ (pt.pte va).v = false ∧
      Maps pt pt' va ⟨true, perm, f⟩ := by
  have hmax : va < maxVA := by rw [trapframeVA_eq] at hva; rw [maxVA_eq]; omega
  obtain ⟨pt1, hwalk, hsome, hfree, rfl, hmaps⟩ := mappages_true hinv hal hmax h
  refine ⟨⟨hwalk.inv.ok, ?_⟩, hwalk.keeps, hfree, hmaps⟩
  have hslot : pt1.frameAt (.page (va / 4096)) = none := by
    rw [frameAt_page hva, hwalk.pte va, hfree, if_neg (by simp)]
  rw [frameAt_set _ hsome hva, if_pos rfl]
  exact hwalk.inv.ledger.graft hf hslot

/-- Mapping the trampoline or the trapframe: the table does not own what they point at. -/
theorem mappages_top (hinv : VmInv U S km pt) (hal : va % 4096 = 0) (htop : trapframeVA ≤ va)
    (hva : va < maxVA) (h : mappages km pt va 4096 f perm = .ok (true, km', pt')) :
    VmInv U S km' pt' ∧ Keeps km km' ∧ (pt.pte va).v = false ∧ Maps pt pt' va ⟨true, perm, f⟩ := by
  obtain ⟨pt1, hwalk, hsome, hfree, rfl, hmaps⟩ := mappages_true hinv hal hva h
  refine ⟨⟨hwalk.inv.ok, ?_⟩, hwalk.keeps, hfree, hmaps⟩
  rw [frameAt_set_top _ hsome htop hva]
  exact hwalk.inv.ledger

end Xv6Paging.Proof
