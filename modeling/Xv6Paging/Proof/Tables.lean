import Xv6Paging.Proof.Trees

/-!
# Making, copying and growing tables

`proc_pagetable`, `uvmcopy`, `uvmalloc` and `uvmclear`. Each either does what it is
for, or gives back every frame it took on the way.
-/

namespace Xv6Paging.Proof

open Xv6Paging Lib

variable {tf : Nat}
variable {a b c km km' : Kmem} {S U : Set Nat} {f va : Nat} {pt old : PageTable}

/-! ## Making a table -/

/-- Frames were taken and given back; what was held throughout kept its bytes. -/
structure Undone (km km' : Kmem) : Prop where
  ram : ∀ g, ¬ km.Free g → ¬ km'.Free g → km'.ram g = km.ram g
  others : km'.others = km.others
  calls : km.calls ≤ km'.calls

theorem Undone.of_idles (h : km.Idles km') : Undone km km' :=
  ⟨fun g _ _ => congrFun h.ram g, h.others, h.calls⟩

theorem Keeps.undo (h : Keeps a b) (h' : Frees b c) : Undone a c :=
  ⟨fun g hg hg' => (h'.ram g hg').trans (h.ram g hg), h'.others.trans h.others,
    h'.calls ▸ h.calls⟩

theorem Keeps.andUndone (h : Keeps a b) (h' : Undone b c) : Undone a c :=
  ⟨fun g hg hg' => (h'.ram g (h.held g hg) hg').trans (h.ram g hg), h'.others.trans h.others,
    Nat.le_trans h.calls h'.calls⟩

theorem Undone.andFrees (h : Undone a b) (h' : Frees b c) : Undone a c :=
  ⟨fun g hg hg' => (h'.ram g hg').trans (h.ram g hg fun hb => hg' (h'.free g hb)),
    h'.others.trans h.others, h'.calls ▸ h.calls⟩

/-- A table with nothing in it but the two top pages. -/
structure Bare (tf : Nat) (pt : PageTable) : Prop where
  top : TopMapped tf pt
  user : ∀ va, va < trapframeVA → (pt.pte va).v = false
  high : ∀ va, maxVA ≤ va → va < 2 * maxVA → (pt.pte va).v = false

theorem pte_empty (f va : Nat) : (PageTable.empty f).pte va = Pte.zero := by
  simp [PageTable.pte, PageTable.table0, PageTable.empty]

theorem frameAt_empty (f : Nat) (s : Slot) :
    (PageTable.empty f).frameAt s = if s = .root then some f else none := by
  cases s with
  | root => rfl
  | dir i => rfl
  | table i j => rfl
  | page n => simp [PageTable.frameAt, pte_empty, Pte.zero]

theorem Held.take (h : Held U S km) (hk : km.Takes km' f) : Held U (insert f S) km' :=
  ⟨hk.ok, h.ledger.take hk.free hk.rest⟩

theorem Held.fill (h : Held U S km) (f : Nat) (pg : Page) :
    Held U S (km.setRam f pg) :=
  ⟨ok_setRam h.ok f pg, h.ledger.congr_free fun _ => Iff.rfl⟩

theorem Held.giveBack (h : Held U (insert f S) km) (hf : f ∉ S) : Held U S (kfree km f) := by
  have hout := h.ledger.out f (Set.mem_insert f S)
  have hgive := h.ledger.give (Set.mem_insert f S) (kfree_free km f)
  rw [Set.insert_sdiff_self_of_notMem hf] at hgive
  exact ⟨kfree_ok h.ok hout, hgive⟩

theorem Keeps.of_kalloc (h : km.Takes km' f) : Keeps km km' :=
  ⟨fun g hg => h.ram g fun he => hg (he ▸ h.free), fun g hg hx => hg ((h.rest g).mp hx).1, h.others,
    h.calls⟩

theorem Held.idle (h : Held U S km) (hk : km.Idles km') :
    Held U S km' :=
  ⟨hk.ok h.ok, h.ledger.congr_free hk.free⟩

/-- Everything that is not free belongs to somebody else. -/
theorem held_all (hok : km.Ok) : Held Set.univ {f | ¬ km.Free f} km := by
  refine ⟨hok, (fun s f hs => by cases hs), fun f hf => hf, (fun s t f hs => by cases hs),
    fun f _ => ?_⟩
  by_cases hf : km.Free f
  · exact Or.inl hf
  · exact Or.inr (Or.inl hf)

/-- If afterwards the same frames are held, the same frames are free. -/
theorem Held.free_iff (h : Held Set.univ {f | ¬ km.Free f} km') (f : Nat) :
    km'.Free f ↔ km.Free f := by
  constructor
  · intro hf
    by_contra hn
    exact h.ledger.out f hn hf
  · intro hf
    rcases h.ledger.all f trivial with h' | h' | ⟨s, hs⟩
    · exact h'
    · exact absurd hf h'
    · cases hs

/-- A zeroed root page is a table. -/
theorem uvmcreate_some (h : Held U S km) (hc : uvmcreate km = (some pt, km')) :
    VmInv U S km' pt ∧ Keeps km km' ∧ ∀ va, (pt.pte va).v = false := by
  unfold uvmcreate at hc
  rcases hk : kalloc km with ⟨_ | f, km₁⟩
  · rw [hk] at hc
    cases hc
  · have htake := kalloc_some h.ok hk
    rw [hk] at hc
    cases hc
    refine ⟨?_, Keeps.of_takes htake zeroPage, fun va => by rw [pte_empty]; rfl⟩
    have hfS : f ∉ S := fun hf => h.ledger.out f hf htake.free
    have hframes : frames (PageTable.empty f) = {f} := by
      ext g
      simp only [frames, frameAt_empty, Set.mem_ofPred_eq, Set.mem_singleton_iff]
      constructor
      · rintro ⟨s, hs⟩
        split at hs
        · exact (Option.some.inj hs).symm
        · simp at hs
      · rintro rfl
        exact ⟨.root, if_pos rfl⟩
    refine Held.tree ?_ ⟨fun s t g hs ht => ?_, fun s g hs => ?_⟩
    · rw [hframes, Set.union_singleton]
      exact (h.take htake).fill f zeroPage
    · rw [frameAt_empty] at hs ht
      split at hs
      · split at ht
        · rename_i h1 h2
          exact h1.trans h2.symm
        · simp at ht
      · simp at hs
    · have hg : g ∈ frames (PageTable.empty f) := ⟨s, hs⟩
      rw [hframes] at hg
      rw [show g = f from hg]
      exact hfS

theorem uvmcreate_none (hc : uvmcreate km = (none, km')) : km.Idles km' := by
  unfold uvmcreate at hc
  rcases hk : kalloc km with ⟨_ | f, km₁⟩
  · rw [hk] at hc
    cases hc
    exact kalloc_none hk
  · rw [hk] at hc
    cases hc

theorem uvmfree_zero (km : Kmem) (pt : PageTable) : uvmfree km pt 0 = freewalk km pt := by
  simp [uvmfree]

/-- **`proc_pagetable`** makes a bare table, or leaves nothing behind. -/
theorem procPagetable_ok {tf : Nat} {r : Option PageTable} (hheld : Held U S km)
    (h : procPagetable km tf = .ok (r, km')) :
    (r = none → Held U S km' ∧ Undone km km') ∧
      ∀ pt, r = some pt → VmInv U S km' pt ∧ Bare tf pt ∧ Keeps km km' := by
  have hp : trampolineVA = trapframeVA + 4096 ∧ maxVA = trapframeVA + 8192 ∧
      trapframeVA % 4096 = 0 := by decide
  obtain ⟨htr, hmx, hal⟩ := hp
  unfold procPagetable at h
  rcases hc : uvmcreate km with ⟨_ | pt₀, km₀⟩
  · have hidle := uvmcreate_none hc
    rw [hc] at h
    cases h
    exact ⟨fun _ => ⟨hheld.idle hidle, Undone.of_idles hidle⟩, fun pt hpt => by simp at hpt⟩
  · obtain ⟨hinv₀, hkeeps₀, hnone₀⟩ := uvmcreate_some hheld hc
    rw [hc] at h
    obtain ⟨⟨ok₁, km₁, pt₁⟩, hm₁, h⟩ := bind_eq_ok.mp h
    cases ok₁ with
    | false =>
      have hw := mappages_false hinv₀ (by omega) (by omega) hm₁
      obtain ⟨km₂, hfree, h⟩ := bind_eq_ok.mp h
      cases h
      rw [uvmfree_zero] at hfree
      obtain ⟨_, hheld', hfrees⟩ := freewalk_ok hw.inv hfree
      exact ⟨fun _ => ⟨hheld', (hkeeps₀.trans hw.keeps).undo hfrees⟩, fun pt hpt => by simp at hpt⟩
    | true =>
      obtain ⟨hinv₁, hkeeps₁, _, hmaps₁⟩ := mappages_top hinv₀ (by omega) (by omega) (by omega) hm₁
      obtain ⟨⟨ok₂, km₂, pt₂⟩, hm₂, h⟩ := bind_eq_ok.mp h
      cases ok₂ with
      | false =>
        have hw := mappages_false hinv₁ hal (by omega) hm₂
        have hv : (pt₂.pte trampolineVA).v = true := by
          rw [hw.pte, hmaps₁ _ (by omega), if_pos rfl]
        obtain ⟨pt₃, hun, hinv₃, _⟩ :=
          uvmunmap_top hw.inv (by omega) (by omega) (by omega) hv
        obtain ⟨⟨km₄, pt₄⟩, hun', h⟩ := bind_eq_ok.mp h
        rw [hun] at hun'
        cases hun'
        obtain ⟨km₅, hfree, h⟩ := bind_eq_ok.mp h
        cases h
        rw [uvmfree_zero] at hfree
        obtain ⟨_, hheld', hfrees⟩ := freewalk_ok hinv₃ hfree
        exact ⟨fun _ => ⟨hheld', ((hkeeps₀.trans hkeeps₁).trans hw.keeps).undo hfrees⟩,
          fun pt hpt => by simp at hpt⟩
      | true =>
        obtain ⟨hinv₂, hkeeps₂, _, hmaps₂⟩ := mappages_top hinv₁ hal (Nat.le_refl _) (by omega) hm₂
        cases h
        refine ⟨fun hr => by simp at hr, fun pt hpt => ?_⟩
        cases hpt
        have hpte : ∀ va, va < 2 * maxVA → ¬ va / 4096 = trapframeVA / 4096 →
            ¬ va / 4096 = trampolineVA / 4096 → (pt₂.pte va).v = false := by
          intro va hva h1 h2
          rw [hmaps₂ va hva, if_neg h1, hmaps₁ va hva, if_neg h2]
          exact hnone₀ va
        refine ⟨hinv₂, ⟨fun va h1 h2 => ?_, fun va hva => ?_, fun va h1 h2 => ?_⟩,
          (hkeeps₀.trans hkeeps₁).trans hkeeps₂⟩
        · rw [hmaps₂ va (by omega)]
          split
          · exact ⟨rfl, rfl, (if_pos (by omega)).symm⟩
          · rw [hmaps₁ va (by omega), if_pos (by omega)]
            exact ⟨rfl, rfl, (if_neg (by omega)).symm⟩
        · exact hpte va (by omega) (by omega) (by omega)
        · exact hpte va h2 (by omega) (by omega)

/-! ## Copying a table -/

/-- The pages of `old` in `[lo, hi)` have been copied into frames of their own. -/
structure Copied (U S : Set Nat) (old : PageTable) (lo hi : Nat) (km : Kmem) (new : PageTable)
    (km' : Kmem) (new' : PageTable) : Prop where
  inv : VmInv U S km' new'
  keeps : Keeps km km'
  copy : ∀ va, lo ≤ va → va < hi → (old.pte va).v = true →
    ∃ f, new'.pte va = ⟨true, (old.pte va).perm, f⟩ ∧ km'.ram f = km.ram (old.pte va).frame
  skip : ∀ va, lo ≤ va → va < hi → (old.pte va).v = false → new'.pte va = new.pte va
  rest : ∀ va, va < 2 * maxVA → (va < lo ∨ hi ≤ va) → new'.pte va = new.pte va
  taken : ∀ va, lo ≤ va → va < hi → (old.pte va).v = true → km.Free (new'.pte va).frame

theorem Copied.append {lo mid hi : Nat} {p q r : PageTable} (h : Copied U S old lo mid a p b q)
    (h' : Copied U S old mid hi b q c r) (hlo : lo ≤ mid) (hhi : mid ≤ hi) (htop : hi ≤ trapframeVA)
    (hold : ∀ va, va < trapframeVA → (old.pte va).v = true → ¬ a.Free (old.pte va).frame) :
    Copied U S old lo hi a p c r := by
  have hmax : ∀ va, va < hi → va < 2 * maxVA := fun va hva => by
    rw [trapframeVA_eq] at htop
    rw [maxVA_eq]
    omega
  refine ⟨h'.inv, h.keeps.trans h'.keeps, fun va h1 h2 hv => ?_, fun va h1 h2 hv => ?_,
    fun va hva hout => ?_, fun va h1 h2 hv => ?_⟩
  · rcases Nat.lt_or_ge va mid with hm | hm
    · obtain ⟨f, hpte, hram⟩ := h.copy va h1 hm hv
      have hslot : q.frameAt (.page (va / 4096)) = some f := by
        rw [frameAt_page (by omega), hpte]; rfl
      refine ⟨f, by rw [h'.rest va (hmax va h2) (Or.inl hm), hpte], ?_⟩
      rw [h'.keeps.ram f (h.inv.ledger.held _ _ hslot).1, hram]
    · obtain ⟨f, hpte, hram⟩ := h'.copy va hm h2 hv
      exact ⟨f, hpte, by rw [hram, h.keeps.ram _ (hold va (by omega) hv)]⟩
  · rcases Nat.lt_or_ge va mid with hm | hm
    · rw [h'.rest va (hmax va h2) (Or.inl hm), h.skip va h1 hm hv]
    · rw [h'.skip va hm h2 hv, h.rest va (hmax va h2) (Or.inr hm)]
  · rw [h'.rest va hva (by omega), h.rest va hva (by omega)]
  · rcases Nat.lt_or_ge va mid with hm | hm
    · rw [h'.rest va (hmax va h2) (Or.inl hm)]
      exact h.taken va h1 hm hv
    · by_contra hheld
      exact h.keeps.held _ hheld (h'.taken va hm h2 hv)

/-- One round: a frame, a copy of the bytes, a mapping. -/
theorem copied_page {new new' : PageTable} {km1 : Kmem} {i : Nat} (hinv : VmInv U S km new)
    (hal : i % 4096 = 0) (hi : i < trapframeVA) (hv : (old.pte i).v = true)
    (hold : ¬ km.Free (old.pte i).frame) (hk : kalloc km = (some f, km1))
    (hm : mappages (km1.setRam f (km1.ram (old.pte i).frame)) new i 4096 f (old.pte i).perm =
      .ok (true, km', new')) : Copied U S old i (i + 4096) km new km' new' := by
  have htake := kalloc_some hinv.ok hk
  have hne : (old.pte i).frame ≠ f := fun he => hold (he ▸ htake.free)
  rw [htake.ram _ hne] at hm
  have hf : f ∉ S := fun hS => hinv.ledger.out f hS htake.free
  have hout := hinv.takeOut htake (km.ram (old.pte i).frame)
  obtain ⟨hinv', hkeeps, _, hmaps⟩ := mappages_user hout (Set.mem_insert f S) hal hi hm
  have hheld := hout.ledger.out f (Set.mem_insert f S)
  have hsame : ∀ va, i ≤ va → va < i + 4096 → old.pte va = old.pte i := fun va h1 h2 =>
    pte_congr old (by omega)
  refine ⟨⟨hinv'.ok, hinv'.ledger.restore hf⟩, (Keeps.of_takes htake _).trans hkeeps,
    fun va h1 h2 _ => ⟨f, ?_, ?_⟩, fun va h1 h2 hv' => ?_, fun va hva hout => ?_,
    fun va h1 h2 _ => ?_⟩
  · have hva : va < 2 * maxVA := by rw [trapframeVA_eq] at hi; rw [maxVA_eq]; omega
    rw [hmaps va hva, if_pos (by omega), hsame va h1 h2]
  · rw [hkeeps.ram f hheld, setRam_self, hsame va h1 h2]
  · rw [hsame va h1 h2, hv] at hv'
    simp at hv'
  · rw [hmaps va hva, if_neg (by omega)]
  · have hva : va < 2 * maxVA := by rw [trapframeVA_eq] at hi; rw [maxVA_eq]; omega
    rw [hmaps va hva, if_pos (by omega)]
    exact htake.free

/-- What is left of a copy that failed. -/
structure CopyFailed (U S : Set Nat) (km : Kmem) (new : PageTable) (km' : Kmem)
    (new' : PageTable) : Prop where
  inv : VmInv U S km' new'
  undone : Undone km km'
  top : ∀ va, trapframeVA ≤ va → va < 2 * maxVA → new'.pte va = new.pte va

/-- Nothing is mapped below `j` any more, and nothing has changed above. -/
structure Cleared (j : Nat) (new new' : PageTable) : Prop where
  gone : ∀ va, va < j → (new'.pte va).v = false
  rest : ∀ va, j ≤ va → va < 2 * maxVA → new'.pte va = new.pte va

theorem copyFailed_of_unmap {km1 : Kmem} {new new1 new' : PageTable} {i : Nat}
    (hinv : VmInv U S km1 new1) (hundone : Undone km km1) (hpte : ∀ va, new1.pte va = new.pte va)
    (hal : i % 4096 = 0) (hi : i ≤ trapframeVA)
    (h : uvmunmap km1 new1 0 (i / 4096) true = .ok (km', new')) :
    CopyFailed U S km new km' new' ∧ Cleared i new new' := by
  have hend : 0 + i / 4096 * 4096 = i := by omega
  obtain ⟨km₂, new₂, hrun, hun⟩ := uvmunmap_spec (n := i / 4096) (a := 0) hinv rfl (by omega)
  rw [hrun] at h
  cases h
  rw [hend] at hun
  have hrest : ∀ va, i ≤ va → va < 2 * maxVA → new'.pte va = new.pte va := fun va h1 h2 => by
    rw [hun.rest va h2 (Or.inr h1), hpte]
  exact ⟨⟨hun.inv, hundone.andFrees hun.frees, fun va h1 h2 => hrest va (Nat.le_trans hi h1) h2⟩,
    fun va hva => hun.gone va (Nat.zero_le va) hva, hrest⟩

/-- **`uvmcopy`** copies every mapped page of the range, or leaves nothing behind. -/
theorem uvmcopyLoop_ok :
    ∀ (n : Nat) {km km' : Kmem} {new new' : PageTable} {i : Nat} {ok : Bool}, VmInv U S km new →
    (∀ va, va < trapframeVA → (old.pte va).v = true → ¬ km.Free (old.pte va).frame) →
    i % 4096 = 0 → i + n * 4096 ≤ trapframeVA →
    uvmcopyLoop old n km new i = .ok (ok, km', new') →
    (ok = true → Copied U S old i (i + n * 4096) km new km' new') ∧
      (ok = false → CopyFailed U S km new km' new' ∧
        ∃ j, i ≤ j ∧ j ≤ i + n * 4096 ∧ Cleared j new new') := by
  intro n
  induction n with
  | zero =>
    intro km km' new new' i ok hinv _ _ _ h
    cases h
    exact ⟨fun _ => ⟨hinv, Keeps.refl km, fun va h1 h2 => by omega, fun _ _ _ _ => rfl,
      fun _ _ _ => rfl, fun va h1 h2 => by omega⟩, fun hf => by simp at hf⟩
  | succ n ih =>
    intro km km' new new' i ok hinv hold hal hn h
    have hlt : i < trapframeVA := by omega
    have hend : i + 4096 + n * 4096 = i + (n + 1) * 4096 := by omega
    have hskip : ∀ va, i ≤ va → va < i + 4096 → old.pte va = old.pte i := fun va h1 h2 =>
      pte_congr old (by omega)
    rw [uvmcopyLoop, if_neg (Nat.not_le.mpr (lt_maxVA hlt))] at h
    dsimp only at h
    split at h
    · rename_i hv
      rcases hk : kalloc km with ⟨_ | f, km1⟩
      · have hidle := kalloc_none hk
        rw [hk] at h
        obtain ⟨⟨km₂, new₂⟩, hrun, hrest⟩ := bind_eq_ok.mp h
        cases hrest
        obtain ⟨hfailed, hcleared⟩ := copyFailed_of_unmap (hinv.idle hidle)
          (Undone.of_idles hidle) (fun _ => rfl) hal (Nat.le_of_lt hlt) hrun
        exact ⟨fun hf => by simp at hf, fun _ =>
          ⟨hfailed, i, Nat.le_refl i, Nat.le_add_right _ _, hcleared⟩⟩
      · have htake := kalloc_some hinv.ok hk
        rw [hk] at h
        obtain ⟨⟨got, km₂, new₂⟩, hm, hrest⟩ := bind_eq_ok.mp h
        cases got with
        | true =>
          have hpage := copied_page hinv hal hlt hv (hold i hlt hv) hk hm
          obtain ⟨hcopy, hfail⟩ := ih hpage.inv
            (fun va hva hv' => hpage.keeps.held _ (hold va hva hv')) (by omega) (by omega) hrest
          rw [hend] at hcopy hfail
          refine ⟨fun hok => hpage.append (hcopy hok) (by omega) (by omega) hn hold, fun hok => ?_⟩
          obtain ⟨hf, j, hij, hjn, hcl⟩ := hfail hok
          refine ⟨⟨hf.inv, hpage.keeps.andUndone hf.undone, fun va h1 h2 => ?_⟩, j, by omega, hjn,
            hcl.gone, fun va h1 h2 => ?_⟩
          · have hpg : i + 4096 ≤ va := by omega
            rw [hf.top va h1 h2, hpage.rest va h2 (Or.inr hpg)]
          · rw [hcl.rest va h1 h2, hpage.rest va h2 (Or.inr (Nat.le_trans hij h1))]
        | false =>
          have hout := hinv.takeOut htake (km1.ram (old.pte i).frame)
          have hw := mappages_false hout hal (lt_maxVA hlt) hm
          have hf : f ∉ S := fun hS => hinv.ledger.out f hS htake.free
          obtain ⟨⟨km₃, new₃⟩, hrun, hfin⟩ := bind_eq_ok.mp hrest
          cases hfin
          obtain ⟨hfailed, hcleared⟩ := copyFailed_of_unmap (hw.inv.giveBack hf)
            (((Keeps.of_takes htake _).trans hw.keeps).undo (Frees.of_kfree km₂ f)) hw.pte hal
            (Nat.le_of_lt hlt) hrun
          exact ⟨fun hf => by simp at hf, fun _ =>
            ⟨hfailed, i, Nat.le_refl i, Nat.le_add_right _ _, hcleared⟩⟩
    · rename_i hv
      obtain ⟨hcopy, hfail⟩ := ih hinv hold (by omega) (by omega) h
      rw [hend] at hcopy hfail
      refine ⟨fun hok => ?_, fun hok => ?_⟩
      · have hpage : Copied U S old i (i + 4096) km new km new :=
          ⟨hinv, Keeps.refl km, fun va h1 h2 hv' => absurd (hskip va h1 h2 ▸ hv') hv,
            fun _ _ _ _ => rfl, fun _ _ _ => rfl,
            fun va h1 h2 hv' => absurd (hskip va h1 h2 ▸ hv') hv⟩
        exact hpage.append (hcopy hok) (by omega) (by omega) hn hold
      · obtain ⟨hf, j, hij, hjn, hcl⟩ := hfail hok
        exact ⟨hf, j, by omega, hjn, hcl⟩

/-! ## Permissions -/

/-- Changing permissions moves no frame. -/
theorem frameAt_setPerm (pt : PageTable) (hva : va < maxVA) (perm : Perm) :
    (pt.set va { pt.pte va with perm := perm }).frameAt = pt.frameAt := by
  cases hsome : pt.table0 va with
  | none => rw [set_of_table0_none hsome]
  | some t0 =>
    have hs : (pt.table0 va).isSome := by rw [hsome]; rfl
    by_cases hlow : va < trapframeVA
    · rw [frameAt_set _ hs hlow, ← frameAt_page hlow]
      exact Function.update_eq_self _ _
    · exact frameAt_set_top _ hs (Nat.le_of_not_lt hlow) hva

theorem VmInv.setPerm (h : VmInv U S km pt) (hva : va < maxVA) (perm : Perm) :
    VmInv U S km (pt.set va { pt.pte va with perm := perm }) := by
  refine ⟨h.ok, ?_⟩
  rw [frameAt_setPerm pt hva]
  exact h.ledger

theorem uvmclear_ok {pt' : PageTable} (h : uvmclear pt va = .ok pt') :
    va < maxVA ∧ (pt.table0 va).isSome = true ∧
      pt' = pt.set va { pt.pte va with perm := { (pt.pte va).perm with u := false } } := by
  unfold uvmclear at h
  split at h
  · simp at h
  · rename_i hmax
    split at h
    · simp at h
    · rename_i t0 ht0
      exact ⟨Nat.lt_of_not_le hmax, by rw [ht0]; rfl, (Except.ok.inj h).symm⟩

/-! ## Growing -/

/-- **What `uvmalloc` can have done.** -/
theorem uvmalloc_cases {pt' : PageTable} {oldsz newsz sz : Nat} (hinv : VmInv U S km pt)
    (htop : TopMapped tf pt) (h : uvmalloc km pt oldsz newsz = .ok (sz, km', pt')) :
    (newsz < oldsz ∧ sz = oldsz ∧ km' = km ∧ pt' = pt) ∨
    (∃ hi, oldsz ≤ newsz ∧ sz = newsz ∧ hi % 4096 = 0 ∧ newsz ≤ hi ∧
      hi < max newsz (pgRoundUp oldsz) + 4096 ∧
      (hi = pgRoundUp oldsz ∨ hi ≤ trapframeVA) ∧ pgRoundUp oldsz ≤ hi ∧
      Grown U S (pgRoundUp oldsz) hi km pt km' pt') ∨
    (∃ hi, oldsz ≤ newsz ∧ sz = 0 ∧ (hi ≤ trapframeVA ∨ hi = pgRoundUp oldsz) ∧
      Withdrawn U S (pgRoundUp oldsz) hi km pt km' pt') := by
  unfold uvmalloc at h
  split at h
  · rename_i hlt
    cases h
    exact Or.inl ⟨hlt, rfl, rfl, rfl⟩
  · rename_i hle
    obtain ⟨base, hbase⟩ : ∃ base, pgRoundUp oldsz = base := ⟨_, rfl⟩
    have hal : base % 4096 = 0 := hbase ▸ pgRoundUp_mod oldsz
    rw [hbase]
    dsimp only at h
    rw [hbase] at h
    obtain ⟨⟨ok, km₁, pt₁⟩, hloop, hrest⟩ := bind_eq_ok.mp h
    obtain ⟨hgrow, hwd⟩ := uvmallocLoop_ok hal _ hinv (Or.inl ⟨_, htop⟩) hal (Nat.le_refl base)
      (Or.inr rfl) hloop
    cases ok with
    | true =>
      cases hrest
      obtain ⟨hhi, _, hg⟩ := hgrow rfl
      refine Or.inr (Or.inl ⟨_, Nat.le_of_not_lt hle, rfl, ?_, ?_, ?_, ?_, ?_, hg⟩) <;> omega
    | false =>
      cases hrest
      obtain ⟨hi, _, _, hhi, hw⟩ := hwd rfl
      exact Or.inr (Or.inr ⟨hi, Nat.le_of_not_lt hle, rfl, hhi, hw⟩)

end Xv6Paging.Proof
