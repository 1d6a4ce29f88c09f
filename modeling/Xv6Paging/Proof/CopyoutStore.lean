import Xv6Paging.Proof.FaultProgress

/-!
# `copyout` and user stores

Both write to user memory, and both bring in the page they need: a store through
`usertrap`, `copyout` through `vmfault`. The two do not decide by the same rules.
`usertrap` looks at the address, `vmfault` at the page; `usertrap` knows of the swap
file and `vmfault` does not; and a page of the data that has only been read so far is
mapped read-only, which `usertrap` changes and `copyout` takes for a page of the text.
-/

namespace Xv6Paging.Proof

open Xv6Paging Lib

variable {f n va dst va0 : Nat} {k k' : Kernel} {b : UInt8}

/-! ## Stores -/

/-- A user store of one byte that goes through, after the faults it takes. -/
inductive Stores (va : Nat) (b : UInt8) : Kernel → Kernel → Prop where
  | stored {k k' : Kernel} : step k (.access .write va b) = .ok (.stored, k') → Stores va b k k'
  | faulted {k k₁ k' : Kernel} : step k (.access .write va b) = .ok (.fault, k₁) →
      Stores va b k₁ k' → Stores va b k k'

/-- Where a user store goes through. -/
inductive Storable (k : Kernel) (va : Nat) : Prop where
  | granted : (k.pte va).permits .write = true → Storable k va
  /-- A page of the executable that is not text. -/
  | data : ExecPage k.p va → k.p.textRange (pgRoundDown va) = false →
      ((k.pte va).v = true ∧ (k.pte va).perm.u = true ∨
        (k.pte va).v = false ∧ SliceThere k.p (pgRoundDown va)) → Storable k va
  /-- A page of the heap or the stack, or one that can be swapped in. -/
  | anon : AnonPage k.p va → (k.pte va).v = false → pgRoundDown va < maxVA →
      (wasSwapped k.p.memstat (toUint (pgRoundDown va)) = true →
        ∃ s, (k.p.swapTable s).used = true ∧ (k.p.swapTable s).va = pgRoundDown va) → Storable k va

theorem step_access (acc : Access) (va : Nat) (b : UInt8) (halive : k.p.killed = false) :
    step k (.access acc va b) = access k acc va b := by
  unfold step
  rw [if_neg (by rw [halive]; simp), act]

theorem step_store (b : UInt8) (halive : k.p.killed = false)
    (hperm : (k.pte va).permits .write = true) :
    step k (.access .write va b) = .ok (.stored, k.storeByte va b) := by
  rw [step_access _ _ _ halive, access, if_pos hperm]

theorem step_store_fault (b : UInt8) (halive : k.p.killed = false)
    (hno : (k.pte va).permits .write = false) (ht : usertrapPageFault k va .write = .ok k') :
    step k (.access .write va b) = .ok (.fault, k') := by
  rw [step_access _ _ _ halive, access, if_neg (by rw [hno]; simp), ht]
  rfl

/-- What a step of a store can have been. -/
theorem step_store_cases {o : Out} (h : step k (.access .write va b) = .ok (o, k')) :
    k.p.killed = false ∧ ((k.pte va).permits .write = true ∧ o = .stored ∨
      (k.pte va).permits .write = false ∧ o = .fault ∧ usertrapPageFault k va .write = .ok k') := by
  cases hdead : k.p.killed with
  | true =>
    rw [step_killed hdead] at h
    cases h
  | false =>
    refine ⟨rfl, ?_⟩
    rw [step_access _ _ _ hdead, access] at h
    split at h
    · rename_i hperm
      cases h
      exact Or.inl ⟨hperm, rfl⟩
    · rename_i hno
      obtain ⟨k₁, ht, hrest⟩ := bind_eq_ok.mp h
      cases hrest
      exact Or.inr ⟨by simpa using hno, rfl, ht⟩

theorem Stores.alive (h : Stores va b k k') :
    k.p.killed = false := by
  cases h with
  | stored hs => exact (step_store_cases hs).1
  | faulted hs _ => exact (step_store_cases hs).1

/-- A store that goes through is permitted in the end. -/
theorem Stores.resolved {k₀ : Kernel} (h : Stores va b k k') (hr : Retries va .write k₀ k) :
    ∃ k₁, Retries va .write k₀ k₁ ∧ Resolved k₁ va .write := by
  induction h with
  | stored hs =>
    rcases (step_store_cases hs).2 with ⟨hperm, _⟩ | ⟨_, ho, _⟩
    · exact ⟨_, hr, Or.inr hperm⟩
    · cases ho
  | faulted hs _ ih =>
    rcases (step_store_cases hs).2 with ⟨_, ho⟩ | ⟨_, _, ht⟩
    · cases ho
    · exact ih (hr.again ht)

section

variable {C : Prop} {U S : Set Nat}

/-- **A store goes through only where it is storable.** -/
theorem Stores.storable (h : Stores va b k k') (hok : SpaceOk False ∅ S k.kmem k.p)
    (hp : kallocs 3 k.kmem = true) : Storable k va := by
  have hgoes := h.resolved .none
  have halive := h.alive
  cases h with
  | stored hs =>
    rcases (step_store_cases hs).2 with ⟨hperm, _⟩ | ⟨_, ho, _⟩
    · exact .granted hperm
    · cases ho
  | @faulted k k₁ k' hs hrest =>
    rcases (step_store_cases hs).2 with ⟨_, ho⟩ | ⟨hno, _, ht⟩
    · cases ho
    · have hlives : ¬ k₁.p.killed = true := by
        rw [hrest.alive]
        simp
      rcases usertrap_kinds ht with hdead | hexec | ⟨hanon, hacc⟩
      · exact absurd hdead hlives
      · by_cases hwt : Access.write = .write ∧ k.p.textRange (pgRoundDown va) = true
        · exact absurd (hexec.writesText hwt ht) hlives
        · have hdata : k.p.textRange (pgRoundDown va) = false := by simpa using hwt
          by_cases hvu : (k.pte va).v = true ∧ (k.pte va).perm.u = true
          · exact .data hexec hdata (Or.inl hvu)
          · by_cases hslice : SliceThere k.p (pgRoundDown va)
            · cases hv : (k.pte va).v with
              | false => exact .data hexec hdata (Or.inr ⟨hv, hslice⟩)
              | true =>
                -- mapped a second time: a panic
                have hu : (k.pte va).perm.u = false := by simpa [hv] using hvu
                rw [kernelPte_eq _ (lt_maxVA (hexec.low hok))] at hv hu
                obtain ⟨msg, hpanic⟩ := remap_panics hp hexec hwt hv hu hslice
                rw [ht] at hpanic
                cases hpanic
            · exact absurd (hexec.unreadable hok hwt hvu hslice ht) hlives
      · obtain ⟨hmax, _⟩ := hanon.handled hacc ht
        cases hv : (k.pte va).v with
        | true =>
          obtain ⟨k₂, hr, hres⟩ := hgoes
          exact absurd hres ((Stuck.ignored halive hacc hanon hv hno).retries ⟨S, hok⟩ hp hr)
        | false =>
          refine .anon hanon hv hmax fun hsw => ?_
          by_contra hlost
          rw [kernelPte_eq _ hmax] at hv
          exact hlives (LooksSwapped.lost ⟨hanon.guard, hsw⟩ hok.mem hv hlost ht)

/-- A page of the heap or the stack, or one of the swap file, is brought in, and nobody dies. -/
theorem AnonPage.brought (h : AnonPage k.p va) (hok : SpaceOk C U S k.kmem k.p)
    (hslots : SlotsInFile k.p) (hp : kallocs 3 k.kmem = true) (hv : (k.pte va).v = false)
    (hslot : wasSwapped k.p.memstat (toUint (pgRoundDown va)) = true →
      ∃ s, (k.p.swapTable s).used = true ∧ (k.p.swapTable s).va = pgRoundDown va)
    (ht : usertrapPageFault k va .write = .ok k') : k'.p.killed = k.p.killed := by
  have hal := pgRoundDown_mod va
  have h₀ : SpaceOk C U S k.countFault.kmem k.countFault.p := hok.same ⟨rfl, rfl⟩ hok.mem
  obtain ⟨hmax, hf⟩ := h.handled (by decide) ht
  rw [kernelPte_eq _ hmax] at hv
  have hv' : (k.countFault.p.pagetable.pte (pgRoundDown va)).v = false := hv
  have hg : k.countFault.p.inGuard (pgRoundDown va) = false :=
    (inGuard_pgRoundDown k.p va).trans h.guard
  rw [faultAnon, if_neg (by decide), hv', if_pos (by rfl), hg, if_neg (by simp)] at hf
  obtain ⟨r, k₂, hi, hk'⟩ := installAnon_cases hf
  have hfill : ∀ km f, ((Fill.page { k.countFault with kmem := km } (pgRoundDown va) f
      (if wasSwapped k.p.memstat (toUint (pgRoundDown va)) then .slot else .zero)).1).isSome =
      true := by
    intro km f
    cases hsw : wasSwapped k.p.memstat (toUint (pgRoundDown va)) with
    | false =>
      rw [if_neg (by simp)]
      rfl
    | true =>
      obtain ⟨s, hused, hsva⟩ := hslot hsw
      obtain ⟨t, ht⟩ := slotOf_used hused hsva
      rw [if_pos rfl]
      exact hslots.fills hal ht km f
  obtain ⟨hsome, _⟩ := hi.available hp h₀ hal hmax hfill
  obtain ⟨f, hf⟩ := Option.isSome_iff_exists.mp hsome
  subst hf
  rw [hk', settle_some, hi.killed (fun p => recordAnon_killed p _ _) h₀.mem]
  rfl

/-- A page of the data that is mapped for the user takes one more fault. -/
theorem stores_data (b : UInt8) (hok : SpaceOk C U S k.kmem k.p) (halive : k.p.killed = false)
    (hexec : ExecPage k.p va) (hdata : k.p.textRange (pgRoundDown va) = false)
    (hv : (k.pte va).v = true) (hu : (k.pte va).perm.u = true) : ∃ k', Stores va b k k' := by
  cases hperm : (k.pte va).permits .write with
  | true => exact ⟨_, .stored (step_store b halive hperm)⟩
  | false =>
    have hwt : ¬ (Access.write = .write ∧ k.p.textRange (pgRoundDown va) = true) := by
      rw [hdata]
      simp
    obtain ⟨k₁, ht⟩ := usertrap_returns .write hok
      (fun hlooks => absurd hlooks.2 (by rw [hexec.swapped]; simp))
      (fun _ _ _ hno => by
        rw [kernelPte_eq _ (lt_maxVA (hexec.low hok)), hno] at hu
        cases hu)
    have ha := hexec.adjusts hwt hv hu ht
    have hgranted : (k₁.pte va).permits .write = true := by
      rw [ha.pte]
      exact granted_permits hv hu fun hacc => by cases hacc
    exact ⟨_, .faulted (step_store_fault b halive hperm ht)
      (.stored (step_store b (ha.killed.trans halive) hgranted))⟩

/-- **And there it does**, given the frames. -/
theorem Storable.stores (h : Storable k va) (b : UInt8) (hok : SpaceOk False ∅ S k.kmem k.p)
    (hslots : SlotsInFile k.p) (hp : kallocs 3 k.kmem = true) (halive : k.p.killed = false) :
    ∃ k', Stores va b k k' := by
  cases h with
  | granted hperm => exact ⟨_, .stored (step_store b halive hperm)⟩
  | data hexec hdata hthere =>
    rcases hthere with ⟨hv, hu⟩ | ⟨hv, hslice⟩
    · exact stores_data b hok halive hexec hdata hv hu
    · have hwt : ¬ (Access.write = .write ∧ k.p.textRange (pgRoundDown va) = true) := by
        rw [hdata]
        simp
      have hno : (k.pte va).permits .write = false := by simp [Pte.permits, hv]
      obtain ⟨k₁, ht⟩ := usertrap_returns .write hok
        (fun hlooks => absurd hlooks.2 (by rw [hexec.swapped]; simp))
        (fun _ _ hno _ => by
          rw [kernelPte_eq _ (lt_maxVA (hexec.low hok)), hno] at hv
          cases hv)
      have hl := hexec.loads hok hp hwt hv hslice ht
      have hok₁ : SpaceOk False ∅ S k₁.kmem k₁.p := usertrap_spaceOk hok (fun hC => hC.elim) ht
      obtain ⟨f, hpte⟩ := hl.pte
      rw [hdata] at hpte
      -- mapped read-only: the second fault grants the write
      obtain ⟨k', hs⟩ := stores_data b hok₁ (hl.killed.trans halive) hl.page
        ((textRange_of_image hl.image _).trans hdata) (by rw [hpte]) (by rw [hpte]; rfl)
      exact ⟨k', .faulted (step_store_fault b halive hno ht) hs⟩
  | anon hanon hv hmax hslot =>
    have hno : (k.pte va).permits .write = false := by simp [Pte.permits, hv]
    obtain ⟨k₁, ht⟩ := usertrap_returns .write hok (fun _ => hmax)
      (fun _ _ hmapped _ => by
        rw [kernelPte_eq _ hmax, hmapped] at hv
        cases hv)
    have hlives : k₁.p.killed = false := (hanon.brought hok hslots hp hv hslot ht).trans halive
    have hperm : (k₁.pte va).permits .write = true := by
      rcases hanon.installs hok (by decide) hv ht with hdead | hperm
      · rw [hlives] at hdead
        cases hdead
      · exact hperm
    exact ⟨_, .faulted (step_store_fault b halive hno ht) (.stored (step_store b hlives hperm))⟩

end

/-! ## One page of `copyout` -/

/-- A page that is not there and that `vmfault` maps for writing. -/
structure Served (p : Proc) (va0 : Nat) : Prop where
  brk : va0 < p.sz
  text : p.textRange va0 = false
  data : p.dataRange va0 = true → SliceThere p va0

/-- A page that `copyout` writes to. -/
def Copyable (k : Kernel) (va0 : Nat) : Prop :=
  (k.pte va0).permits .write = true ∨
    (k.pte va0).v = false ∧ k.p.inGuard va0 = false ∧ Served k.p va0

section

variable {C : Prop} {U S : Set Nat}

theorem Copyable.low (h : Copyable k va0) (hok : SpaceOk C U S k.kmem k.p) :
    va0 < trapframeVA := by
  rcases h with hperm | ⟨_, _, hserved⟩
  · obtain ⟨hv, hu⟩ := permits_valid hperm
    unfold Kernel.pte at hv hu
    split at hv
    · rename_i hmax
      rw [if_pos hmax] at hu
      -- the two pages at the top are not the user's
      by_contra hge
      rw [(hok.top va0 (Nat.le_of_not_lt hge) hmax).2.1] at hu
      cases hu
    · cases hv
  · exact Nat.lt_of_lt_of_le hserved.brk hok.brk

/-- Page `va0` has been found or brought in, in frame `f`, with `n` frames to spare. -/
structure Ready (C : Prop) (U S : Set Nat) (k k' : Kernel) (va0 f n : Nat) : Prop where
  ok : SpaceOk C U S k'.kmem k'.p
  left : kallocs n k'.kmem = true
  image : k'.p.image = k.p.image
  mapped : (k'.p.pagetable.pte va0).v = true
  frame : (k'.p.pagetable.pte va0).frame = f
  rest : ∀ va, va < trapframeVA → va / 4096 ≠ va0 / 4096 ∨ (k.p.pagetable.pte va).v = true →
    SameAt va k k'

theorem kallocs_le {m : Nat} (hle : m ≤ n) {km : Kmem} (h : kallocs n km = true) :
    kallocs m km = true := by
  induction hle with
  | refl => exact h
  | step _ ih => exact ih (kallocs_pred _ h)

theorem copyoutFrame_found (hok : SpaceOk C U S k.kmem k.p) (hp : kallocs (n + 3) k.kmem = true)
    (hlow : va0 < trapframeVA) (hperm : (k.pte va0).permits .write = true) :
    ∃ f k', copyoutFrame k va0 = .ok (some f, k') ∧ Ready C U S k k' va0 f n := by
  have hmax := lt_maxVA hlow
  rw [Kernel.pte, if_pos hmax] at hperm
  simp only [Pte.permits, Bool.and_eq_true] at hperm
  have hwalk : walkaddr k.p.pagetable va0 = some (k.p.pagetable.pte va0).frame := by
    unfold walkaddr
    rw [if_neg (Nat.not_le.mpr hmax)]
    simp [hperm.1]
  refine ⟨_, k, ?_, hok, kallocs_le (Nat.le_add_right n 3) hp, rfl, hperm.1.1, rfl,
    fun va _ _ => SameAt.refl va k⟩
  unfold copyoutFrame userFrame
  rw [if_neg (Nat.not_le.mpr hmax), hwalk]
  dsimp only
  rw [ok_bind]
  dsimp only
  rw [if_pos hperm.2]

/-- What `vmfault` puts in a page that is not there. -/
theorem vmWants_served (hv : (k.p.pagetable.pte va0).v = false) (hg : k.p.inGuard va0 = false)
    (h : Served k.p va0) :
    ∃ src, vmWants k va0 = some src ∧
      ∀ km f, ((src.page { k with kmem := km } va0 f).1).isSome = true := by
  have htext : k.p.inText va0 = false := by simp [Proc.inText, h.text]
  have hbrk : k.p.underBrk va0 = true := by simp [Proc.underBrk, h.brk]
  unfold vmWants
  rw [hg, hv, htext, hbrk, if_neg (by simp)]
  cases hdata : k.p.inData va0 with
  | true =>
    refine ⟨.slice, by simp, fun km f => ?_⟩
    have hrange : k.p.dataRange va0 = true := by
      simp only [Proc.inData, Bool.and_eq_true] at hdata
      exact hdata.2
    have hsome := (slicePage_iff _ _).mpr (h.data hrange)
    exact Option.isSome_iff_ne_none.mpr hsome
  | false => exact ⟨.zero, by simp, fun km f => rfl⟩

theorem copyoutFrame_fresh (hok : SpaceOk C U S k.kmem k.p) (hp : kallocs (n + 3) k.kmem = true)
    (hal : va0 % 4096 = 0) (hlow : va0 < trapframeVA) (hv : (k.pte va0).v = false)
    (hg : k.p.inGuard va0 = false) (hserved : Served k.p va0) :
    ∃ f k', copyoutFrame k va0 = .ok (some f, k') ∧ Ready C U S k k' va0 f n := by
  have hmax := lt_maxVA hlow
  rw [Kernel.pte, if_pos hmax] at hv
  have hpage := pgRoundDown_eq_of_mod hal
  have hwalk : walkaddr k.p.pagetable va0 = none := by
    unfold walkaddr
    rw [if_neg (Nat.not_le.mpr hmax)]
    simp [hv]
  obtain ⟨⟨r, k'⟩, hf⟩ := vmfault_total hok hlow
  have huser : userFrame k va0 = .ok (r, k') := by
    unfold userFrame
    rw [if_neg (Nat.not_le.mpr hmax), hwalk]
    exact hf
  obtain ⟨src, hwants, hfill⟩ := vmWants_served hv hg hserved
  rcases vmfault_cases hf with ⟨hno, _⟩ | ⟨src', _, hsrc, hi⟩
  · rw [hpage, hwants] at hno
    cases hno
  · rw [hpage] at hsrc hi
    rw [hwants] at hsrc
    cases hsrc
    obtain ⟨hsome, hleft, _⟩ := hi.available hp hok hal hmax hfill
    obtain ⟨f, hr⟩ := Option.isSome_iff_exists.mp hsome
    subst hr
    obtain ⟨g, km, hk, _, _⟩ := tryKalloc_available hp
    have hkeeps : ∀ va, va < trapframeVA → va / 4096 ≠ va0 / 4096 ∨
        (k.p.pagetable.pte va).v = true → SameAt va k k' := by
      intro va hva hother
      have hne : va / 4096 ≠ va0 / 4096 := by
        rcases hother with hne | hvalid
        · exact hne
        · intro heq
          rw [pte_congr _ heq, hv] at hvalid
          cases hvalid
      refine (hi.contents recording_none hok hal hmax hva).1 hne fun hev => ?_
      have hnone := hev.1
      rw [hk] at hnone
      cases hnone
    obtain ⟨_, _, _, _, _, hshown⟩ := (hi.contents recording_none hok hal hmax hlow).2 f rfl
    obtain ⟨hpte, _⟩ := hshown rfl
    have hperm : vmPerm k.p va0 = permURW := by
      have htext : k.p.inText va0 = false := by simp [Proc.inText, hserved.text]
      unfold vmPerm
      rw [htext]
      rfl
    refine ⟨f, k', ?_, userFrame_spaceOk hok huser, hleft, hi.image recording_none hok.mem, ?_, ?_,
      hkeeps⟩
    · unfold copyoutFrame
      rw [huser, ok_bind]
      dsimp only
      rw [hpte, hperm]
      rfl
    · rw [hpte]
    · rw [hpte]

/-- **A page that can be written to** is found or brought in. -/
theorem Copyable.ready (h : Copyable k va0) (hok : SpaceOk C U S k.kmem k.p)
    (hp : kallocs (n + 3) k.kmem = true) (hal : va0 % 4096 = 0) :
    ∃ f k', copyoutFrame k va0 = .ok (some f, k') ∧ Ready C U S k k' va0 f n := by
  have hlow := h.low hok
  rcases h with hperm | ⟨hv, hg, hserved⟩
  · exact copyoutFrame_found hok hp hlow hperm
  · exact copyoutFrame_fresh hok hp hal hlow hv hg hserved

/-- What `vmfault` mapped writable was there to be served. -/
theorem served_of_installs {src : Fill} (hok : SpaceOk C U S k.kmem k.p)
    (hwants : vmWants k va0 = some src)
    (hi : Installs src (fun _ => vmPerm k.p va0) (fun p => p) k va0 (some f) k')
    (hw : (vmPerm k.p va0).w = true) : k.p.inGuard va0 = false ∧ Served k.p va0 := by
  have htext : k.p.inText va0 = false := by
    cases ht : k.p.inText va0 with
    | false => rfl
    | true =>
      rw [vmPerm, if_pos ht] at hw
      cases hw
  unfold vmWants at hwants
  rw [htext] at hwants
  split at hwants
  · cases hwants
  · rename_i hgv
    have hg : k.p.inGuard va0 = false := by
      cases hg : k.p.inGuard va0 with
      | false => rfl
      | true => exact absurd (Or.inl hg) hgv
    refine ⟨hg, ?_⟩
    split at hwants
    · rename_i hseg
      have hdata : k.p.inData va0 = true := by simpa using hseg
      have hbrk : k.p.underBrk va0 = true := by
        simp only [Proc.inData, Bool.and_eq_true] at hdata
        exact hdata.1
      cases hwants
      refine ⟨by simpa [Proc.underBrk] using hbrk, by simpa [Proc.inText, hbrk] using htext,
        fun _ => ?_⟩
      -- the page was filled, so the file had it
      cases hi with
      | @mapped k₁ k₂ f pg p hroom hp hmap =>
        have hpage : k₁.p.slicePage va0 = some pg := congrArg Prod.fst hp
        rw [slicePage_of_image (tryKalloc_room hok.mem hroom).image] at hpage
        exact (slicePage_iff _ _).mp (by rw [hpage]; simp)
    · rename_i hseg
      split at hwants
      · rename_i hbrk
        refine ⟨by simpa [Proc.underBrk] using hbrk, by simpa [Proc.inText, hbrk] using htext, ?_⟩
        intro hrange
        have hdata : k.p.inData va0 = true := by simp [Proc.inData, hbrk, hrange]
        exact absurd (Or.inr hdata) hseg
      · cases hwants

/-- **Any other page** makes `copyout` return -1. -/
theorem copyoutFrame_refuses (hok : SpaceOk C U S k.kmem k.p) (hal : va0 % 4096 = 0)
    (hno : ¬ Copyable k va0) :
    ∃ k', copyoutFrame k va0 = .ok (none, k') := by
  have refused : ∀ (r : Option Nat) (k' : Kernel), userFrame k va0 = .ok (r, k') →
      (r = none ∨ (k'.p.pagetable.pte va0).perm.w = false) →
      ∃ k', copyoutFrame k va0 = .ok (none, k') := by
    intro r k' hu hr
    unfold copyoutFrame
    rw [hu, ok_bind]
    cases r with
    | none => exact ⟨k', rfl⟩
    | some f =>
      dsimp only
      rw [if_neg (by rw [hr.resolve_left (by simp)]; simp)]
      exact ⟨k', rfl⟩
  by_cases hmax : va0 < maxVA
  · have hpte : k.pte va0 = k.p.pagetable.pte va0 := by rw [Kernel.pte, if_pos hmax]
    unfold Copyable at hno
    rw [hpte] at hno
    by_cases hvu : (k.p.pagetable.pte va0).v = true ∧ (k.p.pagetable.pte va0).perm.u = true
    · have hw : (k.p.pagetable.pte va0).perm.w = false := by
        cases hw : (k.p.pagetable.pte va0).perm.w with
        | false => rfl
        | true => exact absurd (Or.inl (by simp [Pte.permits, hvu, hw])) hno
      have hwalk : walkaddr k.p.pagetable va0 = some (k.p.pagetable.pte va0).frame := by
        rw [walkaddr, if_neg (Nat.not_le.mpr hmax)]
        exact if_pos hvu
      refine refused (some (k.p.pagetable.pte va0).frame) k ?_ (Or.inr hw)
      rw [userFrame, if_neg (Nat.not_le.mpr hmax), hwalk]
    · have hwalk : walkaddr k.p.pagetable va0 = none := by
        rw [walkaddr, if_neg (Nat.not_le.mpr hmax)]
        exact if_neg hvu
      have huser : userFrame k va0 = vmfault k va0 := by
        rw [userFrame, if_neg (Nat.not_le.mpr hmax), hwalk]
      rw [huser] at refused
      have hpage := pgRoundDown_eq_of_mod hal
      cases hv : (k.p.pagetable.pte va0).v with
      | true =>
        -- mapped for somebody else
        refine refused none k ?_ (Or.inl rfl)
        unfold vmfault
        dsimp only
        rw [hpage]
        split
        · rfl
        · rw [if_neg (Nat.not_le.mpr hmax), ismapped, hv, if_pos rfl]
      | false =>
        have hlow := hok.unmapped_low hmax hv
        obtain ⟨⟨r, k'⟩, hf⟩ := vmfault_total hok hlow
        refine refused r k' hf ?_
        rcases vmfault_cases hf with ⟨_, hr, _⟩ | ⟨src, _, hwants, hi⟩
        · exact Or.inl hr
        · rw [hpage] at hwants hi
          cases r with
          | none => exact Or.inl rfl
          | some f =>
            right
            obtain ⟨_, _, _, _, _, hshown⟩ :=
              (hi.contents recording_none hok hal hmax hlow).2 f rfl
            rw [(hshown rfl).1]
            by_contra hw
            exact hno (Or.inr ⟨hv, served_of_installs hok hwants hi (by simpa using hw)⟩)
  · refine refused none k ?_ (Or.inl rfl)
    rw [userFrame, if_pos (Nat.le_of_not_lt hmax)]

/-! ## The loop of `copyout` -/

/-- The bytes are where they belong, and no other byte has changed. -/
structure Wrote (k k' : Kernel) (dst : Nat) (src : List UInt8) : Prop where
  data : ∀ i, i < src.length → src[i]? = some (k'.byte (dst + i))
  rest : ∀ va, va < trapframeVA → (k.pte va).v = true → va < dst ∨ dst + src.length ≤ va →
    k'.byte va = k.byte va

/-- How many pages `len` bytes from `dst` on touch. -/
def pagesIn (dst len : Nat) : Nat := (dst % 4096 + len + 4095) / 4096

theorem pagesIn_step (dst : Nat) {len : Nat} (hlen : 0 < len) :
    pagesIn (pgRoundDown dst + 4096) (len - min (4096 - (dst - pgRoundDown dst)) len) + 1 ≤
      pagesIn dst len := by
  unfold pagesIn pgRoundDown
  omega

theorem kernelPte_low (k : Kernel) (hlow : va < trapframeVA) :
    k.pte va = k.p.pagetable.pte va := by
  rw [Kernel.pte, if_pos (lt_maxVA hlow)]

/-- Another page can be written to as before. -/
theorem Ready.copyable_iff {b : Nat} (h : Ready C U S k k' va0 f n) (hok : SpaceOk C U S k.kmem k.p)
    (hne : b / 4096 ≠ va0 / 4096) : Copyable k' b ↔ Copyable k b := by
  by_cases hlow : b < trapframeVA
  · have hpte : k'.pte b = k.pte b := by
      rw [kernelPte_low _ hlow, kernelPte_low _ hlow]
      exact (h.rest b hlow (Or.inl hne)).pte
    have hserved : Served k'.p b ↔ Served k.p b := by
      have hthere : SliceThere k'.p b ↔ SliceThere k.p b := by
        rw [← slicePage_iff, ← slicePage_iff, slicePage_of_image h.image]
      constructor
      · rintro ⟨hbrk, htext, hdata⟩
        rw [sz_of_image h.image] at hbrk
        rw [textRange_of_image h.image] at htext
        rw [dataRange_of_image h.image, hthere] at hdata
        exact ⟨hbrk, htext, hdata⟩
      · rintro ⟨hbrk, htext, hdata⟩
        rw [← sz_of_image h.image] at hbrk
        rw [← textRange_of_image h.image] at htext
        rw [← dataRange_of_image h.image, ← hthere] at hdata
        exact ⟨hbrk, htext, hdata⟩
    unfold Copyable
    rw [hpte, inGuard_of_image h.image, hserved]
  · exact ⟨fun hc => absurd (hc.low h.ok) hlow, fun hc => absurd (hc.low hok) hlow⟩

theorem Ready.stored_same (h : Ready C U S k k' va0 f n) (ofs : Nat) (bytes : List UInt8)
    (hva : va < trapframeVA) (hpage : va / 4096 = va0 / 4096) :
    (storeInto k' f ofs bytes).byte va = Page.write (k'.kmem.ram f) ofs bytes (pgOff va) := by
  have hpte : (storeInto k' f ofs bytes).pte va = k'.p.pagetable.pte va0 := by
    rw [Kernel.pte, if_pos (lt_maxVA hva)]
    exact pte_congr _ hpage
  rw [Kernel.byte, hpte, h.frame]
  show (k'.kmem.setRam f _).ram f _ = _
  rw [setRam_self]

theorem Ready.stored_other (h : Ready C U S k k' va0 f n) (hlow : va0 < trapframeVA) (ofs : Nat)
    (bytes : List UInt8) (hva : va < trapframeVA) (hne : va / 4096 ≠ va0 / 4096)
    (hv : (k'.p.pagetable.pte va).v = true) :
    (storeInto k' f ofs bytes).byte va = k'.byte va := by
  have hframe : (k'.p.pagetable.pte va).frame ≠ f := by
    rw [← h.frame]
    exact frames_ne h.ok hva hlow hv h.mapped hne
  unfold Kernel.byte Kernel.pte
  rw [if_pos (lt_maxVA hva), if_pos (lt_maxVA hva)]
  show (k'.kmem.setRam f _).ram (k'.p.pagetable.pte va).frame _ = _
  rw [setRam_ne _ _ hframe]

/-- **What one round of the loop leaves**: its part of the bytes, and everything else. -/
theorem Ready.round (h : Ready C U S k k' va0 f n) (hlow : va0 < trapframeVA)
    (hpage : va0 = pgRoundDown dst) (bytes : List UInt8) (hfits : dst - va0 + bytes.length ≤ 4096) :
    Wrote k (storeInto k' f (dst - va0) bytes) dst bytes := by
  have hal : va0 % 4096 = 0 := by rw [hpage]; exact pgRoundDown_mod dst
  have hle : va0 ≤ dst := by rw [hpage]; exact pgRoundDown_le dst
  have htop : trapframeVA % 4096 = 0 := by decide
  constructor
  · intro i hi
    have hin : (dst + i) / 4096 = va0 / 4096 := by omega
    rw [h.stored_same _ _ (by omega) hin]
    unfold Page.write pgOff
    rw [if_pos (by dsimp only; omega), List.getD_eq_getElem?_getD,
      show (dst + i) % 4096 - (dst - va0) = i by omega, List.getElem?_eq_getElem hi]
    rfl
  · intro va hva hv hout
    rw [kernelPte_low _ hva] at hv
    have hsame := h.rest va hva (Or.inr hv)
    have hbyte : k'.byte va = k.byte va := hsame.byte hv (lt_maxVA hva)
    by_cases hin : va / 4096 = va0 / 4096
    · rw [h.stored_same _ _ hva hin]
      unfold Page.write
      rw [if_neg (by unfold pgOff; dsimp only; omega), ← hbyte]
      have hpte : k'.pte va = k'.p.pagetable.pte va0 := by
        rw [kernelPte_low _ hva]
        exact pte_congr _ hin
      rw [Kernel.byte, hpte, h.frame]
    · rw [h.stored_other hlow _ _ hva hin (by rw [hsame.pte]; exact hv)]
      exact hbyte

theorem storeInto_ok (h : SpaceOk C U S k.kmem k.p) (f ofs : Nat) (bytes : List UInt8) :
    SpaceOk C U S (storeInto k f ofs bytes).kmem (storeInto k f ofs bytes).p :=
  h.fill _ _

/-- The rounds of the loop write one after the other. -/
theorem Wrote.append {k₁ k₂ : Kernel} {dst' : Nat} {a b : List UInt8} (h : Wrote k k₁ dst a)
    (h' : Wrote k₁ k₂ dst' b) (hdst : b ≠ [] → dst' = dst + a.length) (hle : dst + a.length ≤ dst')
    (hlow : dst + a.length ≤ trapframeVA)
    (hmapped : ∀ va, va < trapframeVA → (k.pte va).v = true → (k₁.pte va).v = true)
    (hnew : ∀ i, i < a.length → (k₁.pte (dst + i)).v = true) : Wrote k k₂ dst (a ++ b) := by
  constructor
  · intro i hi
    by_cases hia : i < a.length
    · rw [List.getElem?_append_left hia, h.data i hia,
        h'.rest (dst + i) (by omega) (hnew i hia) (Or.inl (by omega))]
    · rw [List.length_append] at hi
      have hb : b ≠ [] := by
        intro hb
        rw [hb] at hi
        simp at hi
        omega
      rw [List.getElem?_append_right (by omega), h'.data _ (by omega), hdst hb,
        show dst + a.length + (i - a.length) = dst + i by omega]
  · intro va hva hv hout
    rw [List.length_append] at hout
    rw [h'.rest va hva (hmapped va hva hv) ?_, h.rest va hva hv (by omega)]
    by_cases hb : b = []
    · rw [hb]
      simp
      omega
    · rw [hdst hb]
      omega

/--
**The loop of `copyout`** gets through exactly when every page can be written to; then the
bytes are there, and nothing else has changed.
-/
theorem copyoutLoop_spec : ∀ (fuel : Nat) {k : Kernel} {dst : Nat} {src : List UInt8},
    SpaceOk C U S k.kmem k.p → src.length ≤ fuel →
    kallocs (3 * pagesIn dst src.length) k.kmem = true →
    ∃ ok k', copyoutLoop copyoutFrame storeInto fuel k dst src = .ok (ok, k') ∧
      (ok = true ↔ ∀ i, i < src.length → Copyable k (pgRoundDown (dst + i))) ∧
      (ok = true → Wrote k k' dst src) := by
  intro fuel
  induction fuel with
  | zero =>
    intro k dst src _ hlen _
    have hnil : src = [] := List.eq_nil_of_length_eq_zero (by omega)
    subst hnil
    exact ⟨true, k, rfl, by simp, fun _ => ⟨by simp, fun _ _ _ _ => rfl⟩⟩
  | succ fuel ih =>
    intro k dst src hok hlen hp
    by_cases hnil : src = []
    · subst hnil
      exact ⟨true, k, rfl, by simp, fun _ => ⟨by simp, fun _ _ _ _ => rfl⟩⟩
    · have hpos : 0 < src.length := List.length_pos_iff.mpr hnil
      have hal := pgRoundDown_mod dst
      have hoff := lt_pgRoundDown_add dst
      have hbelow := pgRoundDown_le dst
      rw [copyoutLoop, if_neg (by simpa using hnil)]
      dsimp only
      by_cases hc : Copyable k (pgRoundDown dst)
      · have hlow := hc.low hok
        have htop : trapframeVA % 4096 = 0 := by decide
        have hstep := pagesIn_step dst hpos
        obtain ⟨m, hm⟩ : ∃ m, pagesIn dst src.length = m + 1 :=
          ⟨pagesIn dst src.length - 1, by omega⟩
        rw [hm] at hp hstep
        have hframes : kallocs (3 * m + 3) k.kmem = true := hp
        obtain ⟨f, k₁, hf, hready⟩ := hc.ready hok hframes hal
        rw [hf, ok_bind]
        dsimp only
        generalize hn : min (4096 - (dst - pgRoundDown dst)) src.length = n at hstep ⊢
        have hlentake : (src.take n).length = n := by
          rw [List.length_take]
          omega
        have hw := hready.round hlow rfl (src.take n) (by omega)
        have hleft : kallocs (3 * pagesIn (pgRoundDown dst + 4096) (src.drop n).length)
            (storeInto k₁ f (dst - pgRoundDown dst) (src.take n)).kmem = true := by
          rw [List.length_drop]
          refine (kallocs_setRam _ _ _ _).trans (kallocs_le ?_ hready.left)
          omega
        obtain ⟨ok, k', hloop, hiff, hwrote⟩ := ih
          (storeInto_ok hready.ok f (dst - pgRoundDown dst) (src.take n))
          (by rw [List.length_drop]; omega) hleft
        have hnext : n < src.length → dst + n = pgRoundDown dst + 4096 := by omega
        have hsame : ∀ j, Copyable (storeInto k₁ f (dst - pgRoundDown dst) (src.take n))
            (pgRoundDown (pgRoundDown dst + 4096 + j)) ↔
            Copyable k (pgRoundDown (pgRoundDown dst + 4096 + j)) := by
          intro j
          refine hready.copyable_iff hok ?_
          unfold pgRoundDown
          omega
        refine ⟨ok, k', hloop, hiff.trans ⟨fun hrest i hi => ?_, fun hall j hj => ?_⟩,
          fun hok' => ?_⟩
        · by_cases hin : i < n
          · -- still on the first page
            have hpage : pgRoundDown (dst + i) = pgRoundDown dst := by
              unfold pgRoundDown at hn ⊢
              omega
            rw [hpage]
            exact hc
          · have hj := (hsame (i - n)).mp (hrest (i - n) (by rw [List.length_drop]; omega))
            rwa [← hnext (by omega), show dst + n + (i - n) = dst + i by omega] at hj
        · rw [List.length_drop] at hj
          refine (hsame j).mpr ?_
          rw [← hnext (by omega), Nat.add_assoc]
          exact hall (n + j) (by omega)
        · have happ := hw.append (hwrote hok') (fun hdrop => ?_) (by omega) (by omega)
            (fun va hva hv => ?_) (fun i hi => ?_)
          · rwa [List.take_append_drop] at happ
          · have hlt : n < src.length := by
              by_contra hge
              exact hdrop (List.drop_eq_nil_of_le (by omega))
            rw [hlentake, hnext hlt]
          · rw [kernelPte_low _ hva] at hv ⊢
            show (k₁.p.pagetable.pte va).v = true
            rw [(hready.rest va hva (Or.inr hv)).pte]
            exact hv
          · have hlt : dst + i < trapframeVA := by omega
            rw [kernelPte_low _ hlt]
            show (k₁.p.pagetable.pte (dst + i)).v = true
            rw [pte_congr _ (show (dst + i) / 4096 = pgRoundDown dst / 4096 by
              unfold pgRoundDown at *; omega)]
            exact hready.mapped
      · obtain ⟨k', hf⟩ := copyoutFrame_refuses hok hal hc
        rw [hf, ok_bind]
        refine ⟨false, k', rfl, ⟨(fun h => by cases h), fun hall => ?_⟩, (fun h => by cases h)⟩
        exact absurd (hall 0 hpos) hc

/-- **`copyout` returns 0** exactly when it can write to every page of the range. -/
theorem copyout_spec {src : List UInt8} (hok : SpaceOk C U S k.kmem k.p)
    (hp : kallocs (3 * pagesIn dst src.length) k.kmem = true) :
    ((∃ k', copyout k dst src = .ok (true, k')) ↔
      ∀ i, i < src.length → Copyable k (pgRoundDown (dst + i))) ∧
      ∀ k', copyout k dst src = .ok (true, k') → Wrote k k' dst src := by
  obtain ⟨ok, k₁, hloop, hiff, hwrote⟩ := copyoutLoop_spec src.length hok (Nat.le_refl _) hp
  have hcopy : copyout k dst src = .ok (ok, k₁) := hloop
  rw [hcopy, ← hiff]
  constructor
  · constructor
    · rintro ⟨k', hk'⟩
      cases hk'
      rfl
    · intro h
      rw [h]
      exact ⟨k₁, rfl⟩
  · intro k' hk'
    cases hk'
    exact hwrote rfl

end

/-! ## Where the two differ -/

/-- The ways in which `usertrap` and `vmfault` part company about an address. -/
inductive Parts (k : Kernel) (va : Nat) : Prop where
  /-- A page of the data that has not been written to: only a store is granted. -/
  | readOnly : ExecPage k.p va → k.p.textRange (pgRoundDown va) = false → (k.pte va).v = true →
      (k.pte va).perm.u = true → (k.pte va).perm.w = false → Parts k va
  /-- A page that looks swapped out: `vmfault` does not know, `usertrap` does not look further. -/
  | swapped : (k.pte va).v = false → pgRoundDown va < maxVA → LooksSwapped k.p va →
      ¬ ((∃ s, (k.p.swapTable s).used = true ∧ (k.p.swapTable s).va = pgRoundDown va) ↔
        Served k.p (pgRoundDown va)) → Parts k va
  /-- The rest of the page the break is in: only `copyout` goes there. -/
  | beyond : (k.pte va).v = false → k.p.inGuard va = false →
      wasSwapped k.p.memstat (toUint (pgRoundDown va)) = false → k.p.sz ≤ va →
      Served k.p (pgRoundDown va) → Parts k va
  /-- The rest of the last page of a segment: heap to a store, text or data to `copyout`. -/
  | tail : (k.pte va).v = false → AnonPage k.p va →
      wasSwapped k.p.memstat (toUint (pgRoundDown va)) = false → ¬ Served k.p (pgRoundDown va) →
      Parts k va
  /-- The page of a segment that begins inside it, in a file that has become too short. -/
  | unreadable : (k.pte va).v = false → ExecPage k.p va → ¬ SliceThere k.p (pgRoundDown va) →
      Served k.p (pgRoundDown va) → Parts k va

theorem kernelPte_page (k : Kernel) (va : Nat) : k.pte (pgRoundDown va) = k.pte va := by
  have hle := pgRoundDown_le va
  by_cases hmax : pgRoundDown va < maxVA
  · rw [kernelPte_eq _ hmax, Kernel.pte, if_pos hmax]
  · rw [Kernel.pte, Kernel.pte, if_neg hmax, if_neg (by omega)]

theorem copyable_mapped (hv : (k.pte va).v = true) :
    Copyable k (pgRoundDown va) ↔ (k.pte va).permits .write = true := by
  unfold Copyable
  rw [kernelPte_page, hv]
  simp

theorem copyable_unmapped (hv : (k.pte va).v = false) :
    Copyable k (pgRoundDown va) ↔ k.p.inGuard va = false ∧ Served k.p (pgRoundDown va) := by
  have hno : (k.pte va).permits .write = false := by simp [Pte.permits, hv]
  unfold Copyable
  rw [kernelPte_page, inGuard_pgRoundDown, hv, hno]
  simp

/-- A store to a page that is not there. -/
theorem storable_unmapped (hv : (k.pte va).v = false) :
    Storable k va ↔
      ExecPage k.p va ∧ k.p.textRange (pgRoundDown va) = false ∧ SliceThere k.p (pgRoundDown va) ∨
      AnonPage k.p va ∧ pgRoundDown va < maxVA ∧
        (wasSwapped k.p.memstat (toUint (pgRoundDown va)) = true →
          ∃ s, (k.p.swapTable s).used = true ∧ (k.p.swapTable s).va = pgRoundDown va) := by
  constructor
  · intro h
    cases h with
    | granted hperm =>
      rw [(permits_valid hperm).1] at hv
      cases hv
    | data hexec hdata hthere =>
      rcases hthere with ⟨hv', _⟩ | ⟨_, hslice⟩
      · rw [hv'] at hv
        cases hv
      · exact Or.inl ⟨hexec, hdata, hslice⟩
    | anon hanon _ hmax hslot => exact Or.inr ⟨hanon, hmax, hslot⟩
  · rintro (⟨hexec, hdata, hslice⟩ | ⟨hanon, hmax, hslot⟩)
    · exact .data hexec hdata (Or.inr ⟨hv, hslice⟩)
    · exact .anon hanon hv hmax hslot

theorem AnonPage.not_exec {p : Proc} (h : AnonPage p va) : ¬ ExecPage p va := by
  intro he
  rcases h.kind with hsw | ⟨_, htext, hdata⟩
  · rw [he.swapped] at hsw
    cases hsw
  · rcases he.segment with hs | hs
    · rw [htext] at hs
      cases hs
    · rw [hdata] at hs
      cases hs

theorem Parts.differ (h : Parts k va) (hsz : k.p.sz ≤ trapframeVA) :
    ¬ (Copyable k (pgRoundDown va) ↔ Storable k va) := by
  intro hiff
  cases h with
  | readOnly hexec hdata hv hu hw =>
    have hperm := (copyable_mapped hv).mp (hiff.mpr (.data hexec hdata (Or.inl ⟨hv, hu⟩)))
    simp only [Pte.permits, hw, Bool.and_false] at hperm
    cases hperm
  | swapped hv hmax hlooks hne =>
    rw [copyable_unmapped hv, storable_unmapped hv] at hiff
    refine hne ⟨fun hslot => ?_, fun hserved => ?_⟩
    · exact (hiff.mpr (Or.inr ⟨⟨hlooks.1, Or.inl hlooks.2⟩, hmax, fun _ => hslot⟩)).2
    · rcases hiff.mp ⟨hlooks.1, hserved⟩ with ⟨hexec, _⟩ | ⟨_, _, hslot⟩
      · have hns := hexec.swapped
        rw [hlooks.2] at hns
        cases hns
      · exact hslot hlooks.2
  | beyond hv hg hns hge hserved =>
    rw [copyable_unmapped hv, storable_unmapped hv] at hiff
    rcases hiff.mp ⟨hg, hserved⟩ with ⟨hexec, _⟩ | ⟨hanon, _⟩
    · exact absurd hexec.below (Nat.not_lt.mpr hge)
    · rcases hanon.kind with hsw | ⟨hlt, _⟩
      · rw [hns] at hsw
        cases hsw
      · exact absurd hlt (Nat.not_lt.mpr hge)
  | tail hv hanon hns hno =>
    rw [copyable_unmapped hv, storable_unmapped hv] at hiff
    have hlt : va < k.p.sz := by
      rcases hanon.kind with hsw | ⟨hlt, _⟩
      · rw [hns] at hsw
        cases hsw
      · exact hlt
    have hmax : pgRoundDown va < maxVA :=
      lt_maxVA (Nat.lt_of_le_of_lt (pgRoundDown_le va) (Nat.lt_of_lt_of_le hlt hsz))
    exact hno (hiff.mpr (Or.inr ⟨hanon, hmax, fun hsw => by rw [hns] at hsw; cases hsw⟩)).2
  | unreadable hv hexec hno hserved =>
    rw [copyable_unmapped hv, storable_unmapped hv] at hiff
    rcases hiff.mp ⟨hexec.guard, hserved⟩ with ⟨_, _, hslice⟩ | ⟨hanon, _⟩
    · exact hno hslice
    · exact hanon.not_exec hexec

/-- A page that is not there, of which the two handlers think alike. -/
theorem alike_unmapped (hsz : k.p.sz ≤ trapframeVA) (hno : ¬ Parts k va)
    (hv : (k.pte va).v = false) : Copyable k (pgRoundDown va) ↔ Storable k va := by
  have hle := pgRoundDown_le va
  have hmax : va < k.p.sz → pgRoundDown va < maxVA := fun hlt =>
    lt_maxVA (Nat.lt_of_le_of_lt hle (Nat.lt_of_lt_of_le hlt hsz))
  rw [copyable_unmapped hv, storable_unmapped hv]
  constructor
  · rintro ⟨hg, hserved⟩
    have hmax₀ : pgRoundDown va < maxVA := lt_maxVA (Nat.lt_of_lt_of_le hserved.brk hsz)
    cases hsw : wasSwapped k.p.memstat (toUint (pgRoundDown va)) with
    | true =>
      refine Or.inr ⟨⟨hg, Or.inl hsw⟩, hmax₀, fun _ => ?_⟩
      by_contra hlost
      exact hno (.swapped hv hmax₀ ⟨hg, hsw⟩ fun hiff => hlost (hiff.mpr hserved))
    | false =>
      have hlt : va < k.p.sz := by
        by_contra hge
        exact hno (.beyond hv hg hsw (Nat.le_of_not_lt hge) hserved)
      by_cases hseg : k.p.inText va = true ∨ k.p.inData va = true
      · have hexec : ExecPage k.p va := ⟨hg, hsw, hseg⟩
        refine Or.inl ⟨hexec, hserved.text, ?_⟩
        by_contra hslice
        exact hno (.unreadable hv hexec hslice hserved)
      · refine Or.inr ⟨⟨hg, Or.inr ⟨hlt, ?_⟩⟩, hmax hlt, fun h => by cases h⟩
        simpa using hseg
  · rintro (⟨hexec, hdata, hslice⟩ | ⟨hanon, hmax₀, hslot⟩)
    · exact ⟨hexec.guard, Nat.lt_of_le_of_lt hle hexec.below, hdata, fun _ => hslice⟩
    · refine ⟨hanon.guard, ?_⟩
      by_contra hunserved
      cases hsw : wasSwapped k.p.memstat (toUint (pgRoundDown va)) with
      | true =>
        exact hno (.swapped hv hmax₀ ⟨hanon.guard, hsw⟩ fun hiff => hunserved (hiff.mp (hslot hsw)))
      | false => exact hno (.tail hv hanon hsw hunserved)

/-- **These are all the differences.** -/
theorem alike_iff (va : Nat) (hsz : k.p.sz ≤ trapframeVA) :
    (Copyable k (pgRoundDown va) ↔ Storable k va) ↔ ¬ Parts k va := by
  constructor
  · intro hiff hparts
    exact hparts.differ hsz hiff
  · intro hno
    cases hv : (k.pte va).v with
    | false => exact alike_unmapped hsz hno hv
    | true =>
      rw [copyable_mapped hv]
      constructor
      · exact .granted
      · intro hs
        cases hs with
        | granted hperm => exact hperm
        | data hexec hdata hthere =>
          rcases hthere with ⟨_, hu⟩ | ⟨hv', _⟩
          · by_contra hperm
            have hw : (k.pte va).perm.w = false := by
              simpa [Pte.permits, hv, hu] using hperm
            exact hno (.readOnly hexec hdata hv hu hw)
          · rw [hv] at hv'
            cases hv'
        | anon _ hv' _ _ =>
          rw [hv] at hv'
          cases hv'

/-! ## The two side by side -/

/-- Whoever is not dead differs in one of these ways; a dead process stores nothing. -/
inductive Differs (k : Kernel) (va : Nat) : Prop where
  | dead : k.p.killed = true → Copyable k (pgRoundDown va) → Differs k va
  | alive : k.p.killed = false → Parts k va → Differs k va

/--
`copyout` returns 0 exactly if a user store of each byte would go through, and then the bytes
are there and no other byte that was mapped has changed.
-/
structure Agrees (k : Kernel) (dst : Nat) (src : List UInt8) : Prop where
  accepts : (∃ k', copyout k dst src = .ok (true, k')) ↔
    ∀ i b, src[i]? = some b → ∃ k', Stores (dst + i) b k k'
  writes : ∀ k', copyout k dst src = .ok (true, k') → Wrote k k' dst src

/-- One byte: what the two say about its address. -/
theorem copyable_stores_iff {S : Set Nat} (hok : SpaceOk False ∅ S k.kmem k.p)
    (hslots : SlotsInFile k.p) (hp : kallocs 3 k.kmem = true) (va : Nat) (b : UInt8) :
    (Copyable k (pgRoundDown va) ↔ ∃ k', Stores va b k k') ↔ ¬ Differs k va := by
  cases hdead : k.p.killed with
  | true =>
    have hnone : ¬ ∃ k', Stores va b k k' := by
      rintro ⟨k', hs⟩
      rw [hs.alive] at hdead
      cases hdead
    constructor
    · intro hiff hdiff
      cases hdiff with
      | dead _ hc => exact hnone (hiff.mp hc)
      | alive halive _ => rw [hdead] at halive; cases halive
    · intro hno
      exact ⟨fun hc => absurd (.dead hdead hc) hno, fun hs => absurd hs hnone⟩
  | false =>
    have hstores : (∃ k', Stores va b k k') ↔ Storable k va := by
      constructor
      · rintro ⟨k', hs⟩
        exact hs.storable hok hp
      · intro hs
        exact hs.stores b hok hslots hp hdead
    rw [hstores, alike_iff va hok.brk]
    constructor
    · intro hno hdiff
      cases hdiff with
      | dead hd _ => rw [hdead] at hd; cases hd
      | alive _ hparts => exact hno hparts
    · intro hno hparts
      exact hno (.alive hdead hparts)

theorem pagesIn_part {len a : Nat} (h : a + n ≤ len) : pagesIn (dst + a) n ≤ pagesIn dst len := by
  unfold pagesIn
  omega

/-- What is asked of a state to see how the two look at a page of the data. -/
def dataPage (k : Kernel) (va : Nat) : Bool × Bool × Bool × Bool × Bool :=
  (k.p.killed, k.p.inGuard va, wasSwapped k.p.memstat (toUint (pgRoundDown va)), k.p.inData va,
    k.p.textRange (pgRoundDown va))

end Xv6Paging.Proof
