import Xv6Paging.Proof.UserMemory

/-!
# Whole page tables

Making a table, copying one, and taking one apart. Where two tables are about,
the frames of the one count as held outside the other: `VmInv.held` and
`Held.tree` go back and forth between a table that is looked at and one that is
only somebody's property.
-/

namespace Xv6Paging.Proof

open Xv6Paging Lib

variable {tf : Nat}
variable {S U : Set Nat} {km km' km₀ : Kmem} {pt : PageTable} {D : Slot → Bool}

/-- No table is looked at: what is not free is in `S`. -/
structure Held (U S : Set Nat) (km : Kmem) : Prop where
  ok : km.Ok
  ledger : Ledger U km.Free (fun _ : Slot => none) S

/-- The frames a table holds. -/
def frames (pt : PageTable) : Set Nat := {f | ∃ s, pt.frameAt s = some f}

/-- No frame sits in two slots of the table, and none of them is in `S`. -/
structure Apart (S : Set Nat) (pt : PageTable) : Prop where
  inj : ∀ s t f, pt.frameAt s = some f → pt.frameAt t = some f → s = t
  out : ∀ s f, pt.frameAt s = some f → f ∉ S

theorem VmInv.apart (h : VmInv U S km pt) :
    Apart S pt :=
  ⟨h.ledger.inj, fun s f hs => (h.ledger.held s f hs).2⟩

theorem VmInv.held (h : VmInv U S km pt) :
    Held U (S ∪ frames pt) km := by
  refine ⟨h.ok, fun s f hs => by simp at hs, ?_, fun s t f hs => by simp at hs, fun f hU => ?_⟩
  · rintro f (hf | ⟨s, hs⟩)
    · exact h.ledger.out f hf
    · exact (h.ledger.held s f hs).1
  · rcases h.ledger.all f hU with hx | hx | hx
    · exact Or.inl hx
    · exact Or.inr (Or.inl (Or.inl hx))
    · exact Or.inr (Or.inl (Or.inr hx))

theorem Held.tree (h : Held U (S ∪ frames pt) km) (hpt : Apart S pt) : VmInv U S km pt := by
  refine ⟨h.ok, fun s f hs => ⟨h.ledger.out f (Or.inr ⟨s, hs⟩), hpt.out s f hs⟩,
    fun f hf => h.ledger.out f (Or.inl hf), hpt.inj, fun f hU => ?_⟩
  rcases h.ledger.all f hU with hx | (hx | hx) | ⟨s, hs⟩
  · exact Or.inl hx
  · exact Or.inr (Or.inl hx)
  · exact Or.inr (Or.inr hx)
  · simp at hs

/-- A second table seen from the first one's side. -/
theorem VmInv.swapSides {old : PageTable} (h : VmInv U (S ∪ frames old) km pt)
    (hold : Apart S old) : VmInv U (S ∪ frames pt) km old :=
  ⟨h.ok, h.ledger.mirror hold.inj hold.out⟩

/-! ## Taking a table apart -/

/-- The slots of a table that `D` does not list yet. -/
def left (pt : PageTable) (D : Slot → Bool) (s : Slot) : Option Nat :=
  if D s then none else pt.frameAt s

/-- Part of a table has been freed: the slots in `D`. -/
structure Freeing (U S : Set Nat) (pt : PageTable) (km₀ : Kmem) (D : Slot → Bool) (km : Kmem) :
    Prop where
  ok : km.Ok
  ledger : Ledger U km.Free (left pt D) S
  frees : Frees km₀ km

theorem Freeing.free {s : Slot} {f : Nat} (h : Freeing U S pt km₀ D km) (hD : D s = false)
    (hs : pt.frameAt s = some f) :
    Freeing U S pt km₀ (fun t => D t || decide (t = s)) (kfree km f) := by
  have hleft : left pt D s = some f := by rw [left, hD, if_neg (by simp)]; exact hs
  have hrel := h.ledger.release hleft (kfree_free km f)
  have heq : Function.update (left pt D) s none = left pt fun t => D t || decide (t = s) := by
    funext t
    by_cases hts : t = s
    · subst hts; simp [left]
    · simp [left, hts]
  rw [heq] at hrel
  exact ⟨kfree_ok h.ok (h.ledger.held s f hleft).1, hrel, h.frees.trans (Frees.of_kfree km f)⟩

/-- Slots that hold nothing may be listed as freed. -/
theorem Freeing.congr {D' : Slot → Bool} (h : Freeing U S pt km₀ D km)
    (hD : ∀ s, left pt D' s = left pt D s) :
    Freeing U S pt km₀ D' km := by
  have heq : left pt D' = left pt D := funext hD
  exact ⟨h.ok, by rw [heq]; exact h.ledger, h.frees⟩

/--
Freeing a table part by part. Each round frees the slots of one part, the parts do
not meet, and `Leaf` is what a round finds out about its part.
-/
theorem Freeing.fold {β : Type} {step : Kmem → β → Except Halt Kmem} (part : β → Slot → Bool)
    (Leaf : β → Prop)
    (hstep : ∀ b D km km', Freeing U S pt km₀ D km → (∀ s, part b s = true → D s = false) →
      step km b = .ok km' → Leaf b ∧ Freeing U S pt km₀ (fun s => D s || part b s) km')
    (hpart : ∀ b c s, part b s = true → part c s = true → b = c) :
    ∀ (bs : List β) {D : Slot → Bool} {km km' : Kmem}, bs.Nodup →
      (∀ b ∈ bs, ∀ s, part b s = true → D s = false) → Freeing U S pt km₀ D km →
      bs.foldlM step km = .ok km' →
      (∀ b ∈ bs, Leaf b) ∧ Freeing U S pt km₀ (fun s => D s || bs.any fun b => part b s) km' := by
  intro bs
  induction bs with
  | nil =>
    intro D km km' _ _ hF h
    cases h
    exact ⟨by simp, by simpa using hF⟩
  | cons b bs ih =>
    intro D km km' hnd hD hF h
    rw [List.nodup_cons] at hnd
    rw [List.foldlM_cons] at h
    obtain ⟨km₁, hone, hrest⟩ := bind_eq_ok.mp h
    obtain ⟨hleaf, hF₁⟩ := hstep b D km km₁ hF (hD b List.mem_cons_self) hone
    have hfresh : ∀ c ∈ bs, ∀ s, part c s = true → (D s || part b s) = false := by
      intro c hc s hs
      have hb : part b s = false := by
        by_contra hb
        exact hnd.1 (hpart b c s (by simpa using hb) hs ▸ hc)
      rw [hD c (List.mem_cons_of_mem b hc) s hs, hb]
      rfl
    obtain ⟨hleaves, hF₂⟩ := ih hnd.2 hfresh hF₁ hrest
    refine ⟨fun c hc => ?_, ?_⟩
    · rcases List.mem_cons.mp hc with rfl | hc
      · exact hleaf
      · exact hleaves c hc
    · simpa [Bool.or_assoc] using hF₂

theorem freewalk0_ok {t : Table0} (h : freewalk0 km t = .ok km') :
    (∀ i, (t.pte i).v = false) ∧ km' = kfree km t.frame := by
  unfold freewalk0 at h
  split at h
  · simp at h
  · rename_i hnone
    rw [Fin.find?_eq_none_iff] at hnone
    exact ⟨fun i => by simpa using hnone i, (Except.ok.inj h).symm⟩

/-- The slots below one level-1 page, and that page. -/
def below1 (i : Fin 512) : Slot → Bool
  | .dir i' => decide (i' = i)
  | .table i' _ => decide (i' = i)
  | _ => false

theorem freewalk1_ok {i : Fin 512} {t1 : Table1} (h1 : pt.next i = some t1)
    (hF : Freeing U S pt km₀ D km) (hD : ∀ s, below1 i s = true → D s = false)
    (h : freewalk1 km t1 = .ok km') :
    (∀ j t0, t1.next j = some t0 → ∀ l, (t0.pte l).v = false) ∧
      Freeing U S pt km₀ (fun s => D s || below1 i s) km' := by
  unfold freewalk1 at h
  obtain ⟨km₁, hfold, hrest⟩ := bind_eq_ok.mp h
  obtain rfl := Except.ok.inj hrest
  obtain ⟨hleaf, hF₁⟩ := Freeing.fold (U := U) (S := S)
    (fun j s => decide (s = .table i j))
    (fun j => ∀ t0, t1.next j = some t0 → ∀ l, (t0.pte l).v = false)
    (fun j D km km' hF hDj hone => by
      have hDj' : D (.table i j) = false := hDj _ (by simp)
      cases h0 : t1.next j with
      | none =>
        rw [h0] at hone
        cases hone
        refine ⟨fun t0 ht0 => by simp at ht0, hF.congr fun s => ?_⟩
        by_cases hs : s = .table i j
        · subst hs; simp [left, PageTable.frameAt, h1, h0]
        · simp [left, hs]
      | some t0 =>
        rw [h0] at hone
        obtain ⟨hv, rfl⟩ := freewalk0_ok hone
        refine ⟨fun t0' ht0' => ?_, hF.free hDj' (by simp [PageTable.frameAt, h1, h0])⟩
        cases ht0'
        exact hv)
    (fun j j' s hs hs' => by
      simp only [decide_eq_true_eq] at hs hs'
      rw [hs] at hs'
      cases hs'
      rfl)
    (List.finRange 512) (List.nodup_finRange 512)
    (fun j _ s hs => hD s (by simp only [decide_eq_true_eq] at hs; subst hs; simp [below1]))
    hF hfold
  refine ⟨fun j t0 ht0 => hleaf j (List.mem_finRange j) t0 ht0, ?_⟩
  have hdir : pt.frameAt (.dir i) = some t1.frame := by simp [PageTable.frameAt, h1]
  have hDdir : (D (.dir i) || (List.finRange 512).any fun j => decide (Slot.dir i = .table i j))
      = false := by simp [hD (.dir i) (by simp [below1])]
  refine (hF₁.free hDdir hdir).congr fun s => ?_
  have hpart : ((List.finRange 512).any (fun j => decide (s = .table i j)) ||
      decide (s = .dir i)) = below1 i s := by
    rw [Bool.eq_iff_iff]
    cases s with
    | root => simp [below1]
    | dir i' => simp [below1]
    | table i' j => simp [below1]
    | page n => simp [below1]
  simp only [left, Bool.or_assoc, hpart]

/-- **`freewalk`**, if it does not panic, has found no leaf and has given back every page. -/
theorem freewalk_ok (hinv : VmInv U S km pt) (h : freewalk km pt = .ok km') :
    (∀ va, (pt.pte va).v = false) ∧ Held U S km' ∧ Frees km km' := by
  unfold freewalk at h
  obtain ⟨km₁, hfold, hrest⟩ := bind_eq_ok.mp h
  obtain rfl := Except.ok.inj hrest
  have hF : Freeing U S pt km (fun _ => false) km :=
    ⟨hinv.ok, hinv.ledger, Frees.refl km⟩
  obtain ⟨hleaf, hF₁⟩ := Freeing.fold below1
    (fun i => ∀ t1, pt.next i = some t1 → ∀ j t0, t1.next j = some t0 → ∀ l, (t0.pte l).v = false)
    (fun i D km km' hF hDi hone => by
      cases h1 : pt.next i with
      | none =>
        rw [h1] at hone
        cases hone
        refine ⟨fun t1 ht1 => by simp at ht1, hF.congr fun s => ?_⟩
        have hs : below1 i s = true → pt.frameAt s = none := by
          intro hb
          cases s with
          | root => simp [below1] at hb
          | dir i' =>
            simp only [below1, decide_eq_true_eq] at hb
            subst hb; simp [PageTable.frameAt, h1]
          | table i' j =>
            simp only [below1, decide_eq_true_eq] at hb
            subst hb; simp [PageTable.frameAt, h1]
          | page n => simp [below1] at hb
        by_cases hb : below1 i s = true
        · simp [left, hb, hs hb]
        · simp [left, hb]
      | some t1 =>
        rw [h1] at hone
        obtain ⟨hv, hF'⟩ := freewalk1_ok h1 hF hDi hone
        exact ⟨fun t1' ht1' => by cases ht1'; exact hv, hF'⟩)
    (fun i i' s hs hs' => by
      cases s with
      | root => simp [below1] at hs
      | dir _ => simp only [below1, decide_eq_true_eq] at hs hs'; rw [← hs, hs']
      | table _ _ => simp only [below1, decide_eq_true_eq] at hs hs'; rw [← hs, hs']
      | page _ => simp [below1] at hs)
    (List.finRange 512) (List.nodup_finRange 512) (fun _ _ _ _ => rfl) hF hfold
  have hnone : ∀ va, (pt.pte va).v = false := by
    intro va
    unfold PageTable.pte PageTable.table0
    cases h1 : pt.next (px 2 va) with
    | none => rfl
    | some t1 =>
      cases h0 : t1.next (px 1 va) with
      | none => simp [h0, Pte.zero]
      | some t0 =>
        simpa [h0] using hleaf (px 2 va) (List.mem_finRange _) t1 h1 (px 1 va) t0 h0 (px 0 va)
  have hroot : (false || (List.finRange 512).any fun i => below1 i .root) = false := by
    simp [below1]
  have hF₂ := hF₁.free hroot (show pt.frameAt .root = some pt.frame from rfl)
  refine ⟨hnone, ⟨hF₂.ok, ?_⟩, hF₂.frees⟩
  have hgone : left pt (fun t => (false || (List.finRange 512).any fun i => below1 i t) ||
      decide (t = .root)) = fun _ => none := by
    funext s
    cases s with
    | root => simp [left]
    | dir i => simp [left, below1]
    | table i j => simp [left, below1]
    | page n => simp [left, PageTable.frameAt, hnone]
  rw [← hgone]
  exact hF₂.ledger

/-- An address that walks through the three given indices. -/
theorem px_of_indices (i j l : Fin 512) :
    ∃ va, va < 2 * maxVA ∧ px 2 va = i ∧ px 1 va = j ∧ px 0 va = l := by
  refine ⟨i.val * 2 ^ 30 + j.val * 2 ^ 21 + l.val * 2 ^ 12, ?_, ?_, ?_, ?_⟩
  · rw [maxVA_eq]; omega
  · refine Fin.ext ?_
    simp only [px]
    omega
  · refine Fin.ext ?_
    simp only [px]
    omega
  · refine Fin.ext ?_
    simp only [px]
    omega

/-- **Without a leaf in the table `freewalk` does not panic.** -/
theorem freewalk_total (km : Kmem) (hnone : ∀ va, va < 2 * maxVA → (pt.pte va).v = false) :
    ∃ km', freewalk km pt = .ok km' := by
  have hleaf : ∀ i t1, pt.next i = some t1 → ∀ j t0, t1.next j = some t0 →
      ∀ l, (t0.pte l).v = false := by
    intro i t1 h1 j t0 h0 l
    obtain ⟨va, hva, rfl, rfl, rfl⟩ := px_of_indices i j l
    have hv := hnone va hva
    rw [PageTable.pte, PageTable.table0, h1, Option.bind_some, h0] at hv
    exact hv
  have h0 : ∀ (t0 : Table0), (∀ l, (t0.pte l).v = false) → ∀ km,
      freewalk0 km t0 = .ok (kfree km t0.frame) := by
    intro t0 hl km
    unfold freewalk0
    split
    · rename_i i hfind
      rw [Fin.find?_eq_some_iff] at hfind
      simp [hl i] at hfind
    · rfl
  have h1 : ∀ i t1, pt.next i = some t1 → ∀ km, ∃ km', freewalk1 km t1 = .ok km' := by
    intro i t1 ht1 km
    unfold freewalk1
    refine bind_total (foldlM_total _ fun j _ km => ?_) fun km => ⟨_, rfl⟩
    cases hj : t1.next j with
    | none => exact ⟨km, rfl⟩
    | some t0 => exact ⟨_, h0 t0 (hleaf i t1 ht1 j t0 hj) km⟩
  unfold freewalk
  refine bind_total (foldlM_total _ fun i _ km => ?_) fun km => ⟨_, rfl⟩
  cases hi : pt.next i with
  | none => exact ⟨km, rfl⟩
  | some t1 => exact h1 i t1 hi km

theorem lt_maxVA {va : Nat} (h : va < trapframeVA) : va < maxVA := by
  rw [trapframeVA_eq] at h
  rw [maxVA_eq]
  omega

/-- `uvmunmap` over any range it gets through, once the two top entries are gone. -/
theorem uvmunmapLoop_ok :
    ∀ (n : Nat) {km km' : Kmem} {pt pt' : PageTable} {a : Nat}, VmInv U S km pt → a % 4096 = 0 →
    (∀ va, trapframeVA ≤ va → va < maxVA → (pt.pte va).v = false) →
    uvmunmapLoop true n km pt a = .ok (km', pt') →
    Unmaps U S a (a + n * 4096) km pt km' pt' ∧ (n = 0 ∨ a + n * 4096 ≤ maxVA) := by
  intro n
  induction n with
  | zero =>
    intro km km' pt pt' a hinv _ _ h
    cases h
    exact ⟨by simpa using Unmaps.refl hinv a, Or.inl rfl⟩
  | succ n ih =>
    intro km km' pt pt' a hinv hal htop h
    have hend : a + 4096 + n * 4096 = a + (n + 1) * 4096 := by omega
    rw [uvmunmapLoop] at h
    split at h
    · simp at h
    · rename_i hmax
      have hpg : a + 4096 ≤ maxVA := by rw [maxVA_eq] at hmax ⊢; omega
      dsimp only at h
      split at h
      · rename_i hv
        have hlt : a < trapframeVA := by
          by_contra hge
          rw [htop a (Nat.le_of_not_lt hge) (Nat.lt_of_not_le hmax)] at hv
          simp at hv
        have hpage := unmaps_page hinv hal hlt hv
        obtain ⟨hrest, hn⟩ := ih hpage.inv (by omega) (fun va h1 h2 => by
          rw [hpage.rest va (by omega) (by rw [trapframeVA_eq] at hlt h1; omega)]
          exact htop va h1 h2) h
        rw [hend] at hrest
        refine ⟨hpage.append hrest (by omega) (by omega) ?_, Or.inr ?_⟩ <;> omega
      · rename_i hv
        have hpage : Unmaps U S a (a + 4096) km pt km pt := by
          refine ⟨hinv, Frees.refl km, fun va h1 h2 => ?_, fun _ _ _ => rfl⟩
          rw [pte_congr pt (show va / 4096 = a / 4096 by omega)]
          simpa using hv
        obtain ⟨hrest, hn⟩ := ih hinv (by omega) htop h
        rw [hend] at hrest
        refine ⟨hpage.append hrest (by omega) (by omega) ?_, Or.inr ?_⟩ <;> omega

/-- Unmapping one of the two top pages frees nothing. -/
theorem uvmunmap_top {va : Nat} (hinv : VmInv U S km pt) (hal : va % 4096 = 0)
    (htop : trapframeVA ≤ va) (hva : va < maxVA) (hv : (pt.pte va).v = true) :
    ∃ pt', uvmunmap km pt va 1 false = .ok (km, pt') ∧ VmInv U S km pt' ∧
      Maps pt pt' va Pte.zero := by
  have hsome := table0_of_valid hv
  refine ⟨pt.set va Pte.zero, ?_, ⟨hinv.ok, ?_⟩, fun va' hva' => pte_set _ hsome hva hva'⟩
  · simp [uvmunmap, uvmunmapLoop, hal, Nat.not_le.mpr hva, hv]
  · rw [frameAt_set_top _ hsome htop hva]
    exact hinv.ledger

/-- The two steps before `uvmfree`: the top entries go, the rest stays. -/
theorem unmap_top_pages (hinv : VmInv U S km pt) (htop : TopMapped tf pt) :
    ∃ pt₁ pt₂, uvmunmap km pt trampolineVA 1 false = .ok (km, pt₁) ∧
      uvmunmap km pt₁ trapframeVA 1 false = .ok (km, pt₂) ∧ VmInv U S km pt₂ ∧
      (∀ va, trapframeVA ≤ va → va < maxVA → (pt₂.pte va).v = false) ∧
      (∀ va, va < 2 * maxVA → va < trapframeVA ∨ maxVA ≤ va → pt₂.pte va = pt.pte va) := by
  have hp : trampolineVA = trapframeVA + 4096 ∧ maxVA = trapframeVA + 8192 ∧
      trapframeVA % 4096 = 0 := by decide
  obtain ⟨htr, hmx, hal⟩ := hp
  obtain ⟨pt₁, hrun₁, hinv₁, hmaps₁⟩ := uvmunmap_top hinv (by omega) (by omega)
    (by omega) (htop trampolineVA (by omega) (by omega)).1
  have hv : (pt₁.pte trapframeVA).v = true := by
    rw [hmaps₁ _ (by omega), if_neg (by omega)]
    exact (htop _ (Nat.le_refl _) (by omega)).1
  obtain ⟨pt₂, hrun₂, hinv₂, hmaps₂⟩ := uvmunmap_top hinv₁ hal (Nat.le_refl _) (by omega) hv
  refine ⟨pt₁, pt₂, hrun₁, hrun₂, hinv₂, fun va h1 h2 => ?_, fun va h1 h2 => ?_⟩
  · rw [hmaps₂ va (by omega)]
    split
    · rfl
    · rw [hmaps₁ va (by omega), if_pos (by omega)]
      rfl
  · rw [hmaps₂ va h1, if_neg (by omega), hmaps₁ va h1, if_neg (by omega)]

/-- **`proc_freepagetable`** gives back every frame of the table, and nothing else. -/
theorem procFreepagetable_ok {sz : Nat} (hinv : VmInv U S km pt) (htop : TopMapped tf pt)
    (h : procFreepagetable km pt sz = .ok km') :
    Held U S km' ∧ Frees km km' := by
  obtain ⟨pt₁, pt₂, hrun₁, hrun₂, hinv₂, hgone, _⟩ := unmap_top_pages hinv htop
  rw [procFreepagetable, hrun₁, ok_bind] at h
  dsimp only at h
  rw [hrun₂, ok_bind] at h
  dsimp only [uvmfree] at h
  split at h
  · obtain ⟨⟨km₁, pt₃⟩, hun, hrest⟩ := bind_eq_ok.mp h
    rw [uvmunmap, if_neg (by simp)] at hun
    obtain ⟨hu, _⟩ := uvmunmapLoop_ok _ hinv₂ (by simp) hgone hun
    obtain ⟨_, hheld, hfrees⟩ := freewalk_ok hu.inv hrest
    exact ⟨hheld, hu.frees.trans hfrees⟩
  · rw [ok_bind] at h
    obtain ⟨_, hheld, hfrees⟩ := freewalk_ok hinv₂ h
    exact ⟨hheld, hfrees⟩

/-- `uvmunmap` panics only where it walks past `MAXVA`. -/
theorem uvmunmapLoop_total (doFree : Bool) : ∀ (n : Nat) (km : Kmem) (pt : PageTable) {a : Nat},
    a % 4096 = 0 → (n = 0 ∨ a + n * 4096 ≤ maxVA) →
    ∃ r, uvmunmapLoop doFree n km pt a = .ok r := by
  intro n
  induction n with
  | zero => intro km pt a _ _; exact ⟨_, rfl⟩
  | succ n ih =>
    intro km pt a hal hle
    rw [uvmunmapLoop, if_neg (by omega)]
    dsimp only
    split
    · exact ih _ _ (by omega) (Or.inr (by omega))
    · exact ih _ _ (by omega) (Or.inr (by omega))

/--
**When `proc_freepagetable` panics.** It gets through exactly if the range it unmaps
ends at or below `MAXVA` and has every user page of the table in it.
-/
theorem procFreepagetable_iff {sz : Nat} (hinv : VmInv U S km pt) (htop : TopMapped tf pt)
    (hhigh : ∀ va, maxVA ≤ va → va < 2 * maxVA → (pt.pte va).v = false) :
    (∃ km', procFreepagetable km pt sz = .ok km') ↔
      pgRoundUp sz ≤ maxVA ∧ ∀ va, va < trapframeVA → (pt.pte va).v = true → va < pgRoundUp sz := by
  obtain ⟨pt₁, pt₂, hrun₁, hrun₂, hinv₂, hgone, hrest⟩ := unmap_top_pages hinv htop
  have hend : pgRoundUp sz / 4096 * 4096 = pgRoundUp sz := by
    have := pgRoundUp_mod sz
    omega
  have hmx : maxVA = trapframeVA + 8192 := by decide
  rw [procFreepagetable, hrun₁, ok_bind]
  dsimp only
  rw [hrun₂, ok_bind]
  dsimp only [uvmfree]
  -- what is left of the table once the range below `sz` is gone
  have hleft : ∀ {km₁ : Kmem} {pt₃ : PageTable}, VmInv U S km₁ pt₃ →
      (∀ va, va < pgRoundUp sz → (pt₃.pte va).v = false) →
      (∀ va, va < 2 * maxVA → pgRoundUp sz ≤ va → pt₃.pte va = pt₂.pte va) →
      ((∃ km', freewalk km₁ pt₃ = .ok km') ↔
        ∀ va, va < trapframeVA → (pt.pte va).v = true → va < pgRoundUp sz) := by
    intro km₁ pt₃ hinv₃ hlow hsame
    constructor
    · intro hok va hva hv
      obtain ⟨km', hwalk⟩ := hok
      by_contra hge
      have hnone := (freewalk_ok hinv₃ hwalk).1 va
      rw [hsame va (by omega) (Nat.le_of_not_lt hge), hrest va (by omega) (Or.inl hva), hv] at hnone
      cases hnone
    · intro hbelow
      refine freewalk_total km₁ fun va hva => ?_
      by_cases hin : va < pgRoundUp sz
      · exact hlow va hin
      · rw [hsame va hva (Nat.le_of_not_lt hin)]
        by_cases huser : va < trapframeVA
        · rw [hrest va hva (Or.inl huser)]
          by_contra hv
          exact hin (hbelow va huser (by simpa using hv))
        · by_cases hmax : va < maxVA
          · exact hgone va (Nat.le_of_not_lt huser) hmax
          · rw [hrest va hva (Or.inr (Nat.le_of_not_lt hmax))]
            exact hhigh va (Nat.le_of_not_lt hmax) hva
  split
  · rw [uvmunmap, if_neg (by simp)]
    constructor
    · intro hok
      obtain ⟨km', hall⟩ := hok
      obtain ⟨⟨km₁, pt₃⟩, hun, hwalk⟩ := bind_eq_ok.mp hall
      obtain ⟨hu, hmax⟩ := uvmunmapLoop_ok _ hinv₂ (by simp) hgone hun
      rw [Nat.zero_add, hend] at hu
      refine ⟨by omega, (hleft hu.inv (fun va hva => hu.gone va (Nat.zero_le _) hva)
        fun va hva hge => hu.rest va hva (Or.inr hge)).mp ⟨km', hwalk⟩⟩
    · intro hcond
      obtain ⟨hmax, hbelow⟩ := hcond
      obtain ⟨⟨km₁, pt₃⟩, hun⟩ := uvmunmapLoop_total true (pgRoundUp sz / 4096) km pt₂ (a := 0)
        (by simp) (Or.inr (by omega))
      obtain ⟨hu, _⟩ := uvmunmapLoop_ok _ hinv₂ (by simp) hgone hun
      rw [Nat.zero_add, hend] at hu
      rw [hun, ok_bind]
      exact (hleft hu.inv (fun va hva => hu.gone va (Nat.zero_le _) hva)
        fun va hva hge => hu.rest va hva (Or.inr hge)).mpr hbelow
  · rename_i hz
    have hzero : pgRoundUp sz = 0 := by
      have : sz = 0 := by omega
      subst this
      decide
    rw [ok_bind, hleft hinv₂ (fun va hva => by omega) fun _ _ _ => rfl, hzero]
    exact ⟨fun h => ⟨Nat.zero_le _, h⟩, fun h => h.2⟩

end Xv6Paging.Proof
