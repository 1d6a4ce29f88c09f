import Xv6Paging.Lib.Run
import Xv6Paging.Proof.PageTable

/-!
# Giving user memory back, and getting more of it

`uvmunmap` over a range of user pages clears that range, returns its frames to
the list and touches nothing else. `uvmdealloc`, the error paths of `uvmalloc` and
`uvmcopy`, and the freeing of a whole table all come down to it.
-/

namespace Xv6Paging.Proof

open Xv6Paging Lib

variable {S U : Set Nat} {a f hi lo mid base : Nat} {b c km km' km1 : Kmem} {pt pt' : PageTable}

/-- What holds of the allocator after a step that takes no frame. -/
structure Frees (km km' : Kmem) : Prop where
  ram : ∀ g, ¬ km'.Free g → km'.ram g = km.ram g
  free : ∀ g, km.Free g → km'.Free g
  others : km'.others = km.others
  calls : km'.calls = km.calls

theorem Frees.refl (km : Kmem) : Frees km km := ⟨fun _ _ => rfl, fun _ h => h, rfl, rfl⟩

theorem Frees.trans {a : Kmem} (h : Frees a b) (h' : Frees b c) : Frees a c :=
  ⟨fun g hg => (h'.ram g hg).trans (h.ram g fun hx => hg (h'.free g hx)),
    fun g hg => h'.free g (h.free g hg), h'.others.trans h.others, h'.calls.trans h.calls⟩

theorem Frees.of_kfree (km : Kmem) (f : Nat) : Frees km (kfree km f) := by
  refine ⟨fun g hg => kfree_ram km ?_, fun g hg => (kfree_free km f g).mpr (Or.inl hg), rfl, rfl⟩
  rintro rfl
  exact hg ((kfree_free km g g).mpr (Or.inr rfl))

/-- The pages of `[lo, hi)` are gone and the others are as they were. -/
structure Unmaps (U S : Set Nat) (lo hi : Nat) (km : Kmem) (pt : PageTable) (km' : Kmem)
    (pt' : PageTable) : Prop where
  inv : VmInv U S km' pt'
  frees : Frees km km'
  gone : ∀ va, lo ≤ va → va < hi → (pt'.pte va).v = false
  rest : ∀ va, va < 2 * maxVA → (va < lo ∨ hi ≤ va) → pt'.pte va = pt.pte va

theorem table0_of_valid {va : Nat} (h : (pt.pte va).v = true) :
    (pt.table0 va).isSome := by
  unfold PageTable.pte at h
  split at h
  · simp [Pte.zero] at h
  · rename_i t0 h0
    simp [h0]

/-- Clearing one valid user entry and freeing its frame. -/
theorem unmaps_page (hinv : VmInv U S km pt) (hal : a % 4096 = 0) (ha : a < trapframeVA)
    (hv : (pt.pte a).v = true) :
    Unmaps U S a (a + 4096) km pt (kfree km (pt.pte a).frame) (pt.set a Pte.zero) := by
  have hmax : a < maxVA := by rw [trapframeVA_eq] at ha; rw [maxVA_eq]; omega
  have hsome := table0_of_valid hv
  have hslot : pt.frameAt (.page (a / 4096)) = some (pt.pte a).frame := by
    rw [frameAt_page ha, if_pos hv]
  have hheld := (hinv.ledger.held _ _ hslot).1
  refine ⟨⟨kfree_ok hinv.ok hheld, ?_⟩, Frees.of_kfree _ _, fun va h1 h2 => ?_, fun va hva h => ?_⟩
  · rw [frameAt_set _ hsome ha, if_neg (by simp [Pte.zero])]
    exact hinv.ledger.release hslot (kfree_free km _)
  · have hva : va < 2 * maxVA := by rw [trapframeVA_eq] at ha; rw [maxVA_eq]; omega
    rw [pte_set _ hsome hmax hva, if_pos (by omega)]
    rfl
  · rw [pte_set _ hsome hmax hva, if_neg (by omega)]

theorem Unmaps.append {a : Kmem} {p q r : PageTable} (h : Unmaps U S lo mid a p b q)
    (h' : Unmaps U S mid hi b q c r) (hlo : lo ≤ mid) (hhi : mid ≤ hi) (htop : hi ≤ maxVA) :
    Unmaps U S lo hi a p c r := by
  refine ⟨h'.inv, h.frees.trans h'.frees, fun va h1 h2 => ?_, fun va hva hout => ?_⟩
  · rcases Nat.lt_or_ge va mid with hm | hm
    · rw [h'.rest va (by omega) (Or.inl hm)]
      exact h.gone va h1 hm
    · exact h'.gone va hm h2
  · rw [h'.rest va hva (by omega), h.rest va hva (by omega)]

/-- **Unmapping a range of user pages never panics** and does just that. -/
theorem uvmunmapLoop_spec : ∀ (n : Nat) {km : Kmem} {pt : PageTable} {a : Nat},
    VmInv U S km pt → a % 4096 = 0 → a + n * 4096 ≤ trapframeVA →
    ∃ km' pt', uvmunmapLoop true n km pt a = .ok (km', pt') ∧
      Unmaps U S a (a + n * 4096) km pt km' pt' := by
  intro n
  induction n with
  | zero =>
    intro km pt a hinv _ _
    exact ⟨km, pt, rfl, hinv, Frees.refl km, fun va h1 h2 => by omega, fun _ _ _ => rfl⟩
  | succ n ih =>
    intro km pt a hinv hal hn
    have hlt : a < trapframeVA := by omega
    have hmax : ¬ maxVA ≤ a := by rw [trapframeVA_eq] at hlt; rw [maxVA_eq]; omega
    have htop : a + (n + 1) * 4096 ≤ maxVA := by rw [trapframeVA_eq] at hn; rw [maxVA_eq]; omega
    have hend : a + 4096 + n * 4096 = a + (n + 1) * 4096 := by omega
    rw [uvmunmapLoop, if_neg hmax]
    dsimp only
    by_cases hv : (pt.pte a).v = true
    · have hpage := unmaps_page hinv hal hlt hv
      obtain ⟨km', pt', hrun, hrest⟩ := ih hpage.inv (a := a + 4096) (by omega) (by omega)
      rw [hend] at hrest
      exact ⟨km', pt', by simpa [hv] using hrun, hpage.append hrest (by omega) (by omega) htop⟩
    · -- nothing is mapped here, so the page counts as cleared already
      obtain ⟨km', pt', hrun, hrest⟩ := ih hinv (a := a + 4096) (by omega) (by omega)
      rw [hend] at hrest
      have hpage : Unmaps U S a (a + 4096) km pt km pt := by
        refine ⟨hinv, Frees.refl km, fun va h1 h2 => ?_, fun _ _ _ => rfl⟩
        rw [pte_congr pt (show va / 4096 = a / 4096 by omega)]
        simpa using hv
      exact ⟨km', pt', by simpa [hv] using hrun, hpage.append hrest (by omega) (by omega) htop⟩

theorem uvmunmap_spec {n : Nat} (hinv : VmInv U S km pt) (hal : a % 4096 = 0)
    (hn : a + n * 4096 ≤ trapframeVA) :
    ∃ km' pt', uvmunmap km pt a n true = .ok (km', pt') ∧
      Unmaps U S a (a + n * 4096) km pt km' pt' := by
  unfold uvmunmap
  rw [if_neg (by omega)]
  exact uvmunmapLoop_spec n hinv hal hn

theorem Unmaps.refl (hinv : VmInv U S km pt) (a : Nat) :
    Unmaps U S a a km pt km pt :=
  ⟨hinv, Frees.refl km, fun va h1 h2 => by omega, fun _ _ _ => rfl⟩

theorem pgRoundUp_le_trapframe (h : a ≤ trapframeVA) : pgRoundUp a ≤ trapframeVA := by
  rw [pgRoundUp_eq h]
  rw [trapframeVA_eq] at *
  omega

theorem pgRoundUp_mono {b : Nat} (h : a ≤ b) (hb : b ≤ trapframeVA) :
    pgRoundUp a ≤ pgRoundUp b := by
  rw [pgRoundUp_eq hb, pgRoundUp_eq (Nat.le_trans h hb)]
  omega

/-- **Shrinking** unmaps the pages between the two sizes, whichever branch it takes. -/
theorem uvmdealloc_spec {oldsz : Nat} (newsz : Nat) (hinv : VmInv U S km pt)
    (hold : oldsz ≤ trapframeVA) :
    ∃ km' pt', uvmdealloc km pt oldsz newsz = .ok (min oldsz newsz, km', pt') ∧
      Unmaps U S (pgRoundUp (min oldsz newsz)) (pgRoundUp oldsz) km pt km' pt' := by
  unfold uvmdealloc
  by_cases hle : oldsz ≤ newsz
  · rw [if_pos hle, Nat.min_eq_left hle]
    exact ⟨km, pt, rfl, Unmaps.refl hinv _⟩
  · have hlt : newsz ≤ oldsz := by omega
    have hround := pgRoundUp_mono hlt hold
    have htop := pgRoundUp_le_trapframe hold
    have hmod := pgRoundUp_mod newsz
    have hmod' := pgRoundUp_mod oldsz
    rw [if_neg hle, Nat.min_eq_right hlt]
    by_cases hcross : pgRoundUp newsz < pgRoundUp oldsz
    · have hend : pgRoundUp newsz + (pgRoundUp oldsz - pgRoundUp newsz) / 4096 * 4096
          = pgRoundUp oldsz := by omega
      obtain ⟨km', pt', hrun, hun⟩ := uvmunmap_spec hinv hmod (by rw [hend]; exact htop)
      rw [hend] at hun
      rw [if_pos hcross]
      refine ⟨km', pt', ?_, hun⟩
      dsimp only
      rw [hrun]
      rfl
    · -- both sizes end in the same page
      have heq : pgRoundUp newsz = pgRoundUp oldsz := by omega
      rw [if_neg hcross, heq]
      exact ⟨km, pt, rfl, Unmaps.refl hinv _⟩

/-! ## Growing -/

/-- A frame taken from the list and not yet mapped. -/
theorem VmInv.takeOut (h : VmInv U S km pt) (hk : km.Takes km' f) (pg : Page) :
    VmInv U (insert f S) (km'.setRam f pg) pt :=
  ⟨ok_setRam hk.ok f pg, (h.ledger.take hk.free hk.rest).congr_free fun _ => Iff.rfl⟩

/-- A frame held outside goes back to the list. -/
theorem VmInv.giveBack (h : VmInv U (insert f S) km pt) (hf : f ∉ S) :
    VmInv U S (kfree km f) pt := by
  refine ⟨kfree_ok h.ok (h.ledger.out f (Set.mem_insert f S)), ?_⟩
  exact (h.ledger.give (Set.mem_insert f S) (kfree_free km f)).restore hf

/-- The pages of `[lo, hi)` are there and zero, the others are as they were. -/
structure Grown (U S : Set Nat) (lo hi : Nat) (km : Kmem) (pt : PageTable) (km' : Kmem)
    (pt' : PageTable) : Prop where
  inv : VmInv U S km' pt'
  keeps : Keeps km km'
  fresh : ∀ va, lo ≤ va → va < hi → ∃ f, pt'.pte va = ⟨true, permURW, f⟩ ∧ km'.ram f = zeroPage
  rest : ∀ va, va < 2 * maxVA → (va < lo ∨ hi ≤ va) → pt'.pte va = pt.pte va
  taken : ∀ va, lo ≤ va → va < hi → km.Free (pt'.pte va).frame

/-- An attempt to grow from `lo` to `hi` came to nothing: no page of the range is left. -/
structure Withdrawn (U S : Set Nat) (lo hi : Nat) (km : Kmem) (pt : PageTable) (km' : Kmem)
    (pt' : PageTable) : Prop where
  inv : VmInv U S km' pt'
  ram : ∀ g, ¬ km.Free g → ¬ km'.Free g → km'.ram g = km.ram g
  others : km'.others = km.others
  calls : km.calls ≤ km'.calls
  gone : ∀ va, lo ≤ va → va < hi → (pt'.pte va).v = false
  rest : ∀ va, va < 2 * maxVA → (va < lo ∨ hi ≤ va) → pt'.pte va = pt.pte va

/-- One page of `uvmalloc`: a frame, zeroed and mapped. -/
theorem grown_page (hinv : VmInv U S km pt) (hal : a % 4096 = 0) (ha : a < trapframeVA)
    (hk : kalloc km = (some f, km1))
    (hm : mappages (km1.setRam f zeroPage) pt a 4096 f permURW = .ok (true, km', pt')) :
    Grown U S a (a + 4096) km pt km' pt' := by
  have htake := kalloc_some hinv.ok hk
  have hf : f ∉ S := fun hS => hinv.ledger.out f hS htake.free
  have hout := hinv.takeOut htake zeroPage
  obtain ⟨hinv', hkeeps, _, hmaps⟩ := mappages_user hout (Set.mem_insert f S) hal ha hm
  have hheld : ¬ (km1.setRam f zeroPage).Free f := hout.ledger.out f (Set.mem_insert f S)
  refine ⟨⟨hinv'.ok, hinv'.ledger.restore hf⟩, (Keeps.of_takes htake zeroPage).trans hkeeps,
    fun va h1 h2 => ⟨f, ?_, ?_⟩, fun va hva hout => ?_, fun va h1 h2 => ?_⟩
  · have hva : va < 2 * maxVA := by rw [trapframeVA_eq] at ha; rw [maxVA_eq]; omega
    rw [hmaps va hva, if_pos (by omega)]
  · rw [hkeeps.ram f hheld, setRam_self]
  · rw [hmaps va hva, if_neg (by omega)]
  · have hva : va < 2 * maxVA := by rw [trapframeVA_eq] at ha; rw [maxVA_eq]; omega
    rw [hmaps va hva, if_pos (by omega)]
    exact htake.free

theorem Grown.append {a : Kmem} {p q r : PageTable} (h : Grown U S lo mid a p b q)
    (h' : Grown U S mid hi b q c r) (hlo : lo ≤ mid) (hhi : mid ≤ hi) (htop : mid ≤ trapframeVA) :
    Grown U S lo hi a p c r := by
  have hmax : ∀ va, va < mid → va < 2 * maxVA := fun va hva => by
    rw [trapframeVA_eq] at htop
    rw [maxVA_eq]
    omega
  refine ⟨h'.inv, h.keeps.trans h'.keeps, fun va h1 h2 => ?_, fun va hva hout => ?_,
    fun va h1 h2 => ?_⟩
  · rcases Nat.lt_or_ge va mid with hm | hm
    · obtain ⟨f, hpte, hram⟩ := h.fresh va h1 hm
      have hslot : q.frameAt (.page (va / 4096)) = some f := by
        rw [frameAt_page (by omega), hpte]; rfl
      refine ⟨f, by rw [h'.rest va (hmax va hm) (Or.inl hm), hpte], ?_⟩
      rw [h'.keeps.ram f (h.inv.ledger.held _ _ hslot).1, hram]
    · exact h'.fresh va hm h2
  · rw [h'.rest va hva (by omega), h.rest va hva (by omega)]
  · rcases Nat.lt_or_ge va mid with hm | hm
    · rw [h'.rest va (hmax va hm) (Or.inl hm)]
      exact h.taken va h1 hm
    · by_contra hheld
      exact h.keeps.held _ hheld (h'.taken va hm h2)

theorem pgRoundUp_aligned (hal : a % 4096 = 0) (ha : a ≤ trapframeVA) :
    pgRoundUp a = a := by
  rw [pgRoundUp_eq ha]
  omega

/-- The trampoline and the trapframe `tf` are mapped at the top, and not for the user. -/
def TopMapped (tf : Nat) (pt : PageTable) : Prop :=
  ∀ va, trapframeVA ≤ va → va < maxVA → (pt.pte va).v = true ∧ (pt.pte va).perm.u = false ∧
    (pt.pte va).frame = if va < trampolineVA then tf else trampolineFrame

variable {tf : Nat}

theorem Grown.top (h : Grown U S lo hi km pt km' pt') (htop : TopMapped tf pt)
    (hhi : hi ≤ trapframeVA) :
    TopMapped tf pt' := by
  intro va h1 h2
  rw [h.rest va (by omega) (Or.inr (Nat.le_trans hhi h1))]
  exact htop va h1 h2

/-- What `mappages` can map lies below the two top pages. -/
theorem mappages_low {va : Nat} {perm : Perm} (hinv : VmInv U S km pt) (htop : TopMapped tf pt)
    (hal : va % 4096 = 0) (h : mappages km pt va 4096 f perm = .ok (true, km', pt')) :
    va < trapframeVA := by
  by_contra hge
  have hge' : trapframeVA ≤ va := Nat.le_of_not_lt hge
  by_cases hmax : va < maxVA
  · obtain ⟨_, _, _, hfree, _⟩ := mappages_true hinv hal hmax h
    rw [(htop va hge' hmax).1] at hfree
    simp at hfree
  · simp [mappages, mappagesLoop, hal, Nat.le_of_not_lt hmax] at h

/-- What `uvmalloc` leaves behind when it gives up before page `a`. -/
theorem withdrawn_of_dealloc {pt1 : PageTable} {n : Nat} (hinv : VmInv U S km1 pt1)
    (hram : ∀ g, ¬ km.Free g → km1.ram g = km.ram g) (hothers : km1.others = km.others)
    (hcalls : km.calls ≤ km1.calls) (hpte : ∀ va, pt1.pte va = pt.pte va) (hbase : base % 4096 = 0)
    (hal : a % 4096 = 0) (hle : base ≤ a) (ha : a ≤ trapframeVA ∨ a = base)
    (h : uvmdealloc km1 pt1 a base = .ok (n, km', pt')) : Withdrawn U S base a km pt km' pt' := by
  by_cases htop : a ≤ trapframeVA
  · obtain ⟨km₂, pt₂, hrun, hun⟩ := uvmdealloc_spec base hinv htop
    rw [hrun] at h
    cases h
    rw [Nat.min_eq_right hle] at hun
    rw [pgRoundUp_aligned hbase (Nat.le_trans hle htop), pgRoundUp_aligned hal htop] at hun
    refine ⟨hun.inv, fun g hg hg' => ?_, hun.frees.others.trans hothers, ?_, hun.gone,
      fun va hva hout => ?_⟩
    · rw [hun.frees.ram g hg', hram g hg]
    · rw [hun.frees.calls]; exact hcalls
    · rw [hun.rest va hva hout, hpte]
  · -- nothing was mapped yet
    obtain rfl := ha.resolve_left htop
    rw [uvmdealloc, if_pos (Nat.le_refl a)] at h
    cases h
    exact ⟨hinv, fun g hg _ => hram g hg, hothers, hcalls, fun va h1 h2 => by omega,
      fun va _ _ => hpte va⟩

/-- A page gained and then the rest withdrawn: nothing is left of either. -/
theorem Withdrawn.after {pt1 : PageTable} (h : Grown U S a mid km pt km1 pt1)
    (h' : Withdrawn U S base hi km1 pt1 km' pt') (hle : base ≤ a) (hhi : mid ≤ hi) :
    Withdrawn U S base hi km pt km' pt' :=
  ⟨h'.inv, fun g hg hg' => (h'.ram g (h.keeps.held g hg) hg').trans (h.keeps.ram g hg),
    h'.others.trans h.keeps.others, Nat.le_trans h.keeps.calls h'.calls, h'.gone,
    fun va hva hout => (h'.rest va hva hout).trans (h.rest va hva (by omega))⟩

/--
**`uvmalloc` grows or leaves no trace.** If it succeeds, the pages it added were not
mapped before and lie below the trapframe.
-/
theorem uvmallocLoop_ok (hbase : base % 4096 = 0) :
    ∀ (n : Nat) {km km' : Kmem} {pt pt' : PageTable} {a : Nat} {ok : Bool}, VmInv U S km pt →
    ((∃ tf, TopMapped tf pt) ∨ a + n * 4096 ≤ trapframeVA) → a % 4096 = 0 → base ≤ a →
    (a ≤ trapframeVA ∨ a = base) → uvmallocLoop permURW base n km pt a = .ok (ok, km', pt') →
    (ok = true → (n = 0 ∨ a + n * 4096 ≤ trapframeVA) ∧
      (∀ va, a ≤ va → va < a + n * 4096 → (pt.pte va).v = false) ∧
      Grown U S a (a + n * 4096) km pt km' pt') ∧
    (ok = false → ∃ hi, a ≤ hi ∧ hi ≤ a + n * 4096 ∧ (hi ≤ trapframeVA ∨ hi = base) ∧
      Withdrawn U S base hi km pt km' pt') := by
  intro n
  induction n with
  | zero =>
    intro km km' pt pt' a ok hinv _ _ _ _ h
    cases h
    refine ⟨fun _ => ⟨Or.inl rfl, fun va h1 h2 => by omega, hinv, Keeps.refl _,
      fun va h1 h2 => by omega, fun _ _ _ => rfl, fun va h1 h2 => by omega⟩,
      fun hf => by simp at hf⟩
  | succ n ih =>
    intro km km' pt pt' a ok hinv htop hal hle ha h
    have hend : a + 4096 + n * 4096 = a + (n + 1) * 4096 := by omega
    rw [uvmallocLoop] at h
    rcases hk : kalloc km with ⟨_ | f, km1⟩
    · -- no frame
      have hidle := kalloc_none hk
      rw [hk] at h
      obtain ⟨⟨m, km₂, pt₂⟩, hrun, hrest⟩ := bind_eq_ok.mp h
      cases hrest
      have hwd := withdrawn_of_dealloc (hinv.idle hidle) (fun g _ => congrFun hidle.ram g)
        hidle.others hidle.calls (fun _ => rfl) hbase hal hle ha hrun
      exact ⟨fun hf => by simp at hf, fun _ => ⟨a, Nat.le_refl a, Nat.le_add_right _ _, ha, hwd⟩⟩
    · have htake := kalloc_some hinv.ok hk
      have hout := hinv.takeOut htake zeroPage
      rw [hk] at h
      obtain ⟨⟨got, km2, pt2⟩, hm, hrest⟩ := bind_eq_ok.mp h
      cases got with
      | true =>
        have hlt : a < trapframeVA := by
          rcases htop with ⟨tf, htop⟩ | hbound
          · exact mappages_low hout htop hal hm
          · omega
        have hlow : a + 4096 ≤ trapframeVA := by rw [trapframeVA_eq] at hlt ⊢; omega
        obtain ⟨_, _, hfree, _⟩ := mappages_user hout (Set.mem_insert f S) hal hlt hm
        have hpage := grown_page hinv hal hlt hk hm
        have htop' : (∃ tf, TopMapped tf pt2) ∨ a + 4096 + n * 4096 ≤ trapframeVA :=
          htop.imp (fun ⟨tf, htop⟩ => ⟨tf, hpage.top htop hlow⟩) fun hbound => by omega
        obtain ⟨hgrow, hwd⟩ := ih hpage.inv htop' (by omega) (by omega) (Or.inl hlow) hrest
        rw [hend] at hgrow hwd
        refine ⟨fun hok => ?_, fun hok => ?_⟩
        · obtain ⟨hhi, hun, hg⟩ := hgrow hok
          refine ⟨Or.inr (by omega), fun va h1 h2 => ?_,
            hpage.append hg (by omega) (by omega) hlow⟩
          by_cases hva : va < a + 4096
          · rw [pte_congr pt (show va / 4096 = a / 4096 by omega)]
            exact hfree
          · have hmax : va < 2 * maxVA := by
              rw [trapframeVA_eq] at hhi hlow; rw [maxVA_eq]; omega
            rw [← hpage.rest va hmax (Or.inr (by omega))]
            exact hun va (by omega) h2
        · obtain ⟨hi, hle', hend', htop', hw⟩ := hwd hok
          exact ⟨hi, by omega, hend', htop', Withdrawn.after hpage hw hle hle'⟩
      | false =>
        -- a frame, but no table page to map it with: the frame goes back first
        have hmax : a < maxVA := by
          by_contra hge
          simp [mappages, mappagesLoop, hal, Nat.le_of_not_lt hge] at hm
        have hw := mappages_false hout hal hmax hm
        have hf : f ∉ S := fun hS => hinv.ledger.out f hS htake.free
        have hall := (Keeps.of_takes htake zeroPage).trans hw.keeps
        have hram : ∀ g, ¬ km.Free g → (kfree km2 f).ram g = km.ram g := by
          intro g hg
          have hne : g ≠ f := fun he => hg (he ▸ htake.free)
          rw [kfree_ram km2 hne, hall.ram g hg]
        obtain ⟨⟨m, km₃, pt₃⟩, hrun, hfin⟩ := bind_eq_ok.mp hrest
        cases hfin
        have hwd := withdrawn_of_dealloc (hw.inv.giveBack hf) hram hall.others hall.calls hw.pte
          hbase hal hle ha hrun
        exact ⟨fun hf => by simp at hf, fun _ => ⟨a, Nat.le_refl a, Nat.le_add_right _ _, ha, hwd⟩⟩

/-- Over pages that are not mapped `uvmalloc` never panics. -/
theorem uvmallocLoop_total :
    ∀ (n : Nat) {km : Kmem} {pt : PageTable} {a : Nat}, VmInv U S km pt → a % 4096 = 0 →
    a + n * 4096 ≤ trapframeVA →
    (∀ va, a ≤ va → va < a + n * 4096 → (pt.pte va).v = false) →
    ∃ r, uvmallocLoop permURW base n km pt a = .ok r := by
  intro n
  induction n with
  | zero =>
    intro km pt a _ _ _ _
    exact ⟨_, rfl⟩
  | succ n ih =>
    intro km pt a hinv hal hn hfree
    have hlt : a < trapframeVA := by omega
    have hmax : a < maxVA := by rw [trapframeVA_eq] at hlt; rw [maxVA_eq]; omega
    have dealloc : ∀ {km1 : Kmem} {pt1 : PageTable}, VmInv U S km1 pt1 →
        ∃ r, uvmdealloc km1 pt1 a base = .ok r := fun hinv1 =>
      let ⟨_, _, h, _⟩ := uvmdealloc_spec base hinv1 (Nat.le_of_lt hlt)
      ⟨_, h⟩
    rw [uvmallocLoop]
    rcases hk : kalloc km with ⟨_ | f, km1⟩
    · obtain ⟨r, hr⟩ := dealloc (hinv.idle (kalloc_none hk))
      exact ⟨(false, r.2), by simp [hr]⟩
    · have htake := kalloc_some hinv.ok hk
      have hout := hinv.takeOut htake zeroPage
      obtain ⟨ok, km2, pt2, hm⟩ := mappages_ok f permURW hout hal hmax
        (hfree a (by omega) (by omega))
      cases ok with
      | true =>
        have hpage := grown_page hinv hal hlt hk hm
        obtain ⟨r, hr⟩ := ih hpage.inv (a := a + 4096) (by omega) (by omega) (by
          intro va h1 h2
          have hva : va < 2 * maxVA := by rw [trapframeVA_eq] at hn; rw [maxVA_eq]; omega
          rw [hpage.rest va hva (Or.inr h1)]
          exact hfree va (by omega) (by omega))
        exact ⟨r, by simp [hm, hr]⟩
      | false =>
        have hw := mappages_false hout hal hmax hm
        obtain ⟨r, hr⟩ := dealloc
          (hw.inv.giveBack fun hS => hinv.ledger.out f hS htake.free)
        exact ⟨(false, r.2), by simp [hm, hr]⟩

end Xv6Paging.Proof
