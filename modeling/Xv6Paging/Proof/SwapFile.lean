import Xv6Paging.Lib.Run
import Xv6Paging.Kernel.Process

/-!
# What goes into the swap file comes out again

Slots are handed out lowest first and found again by address, so a page comes back
intact when three things hold: its slot stays in use, no other slot in use carries
its address, and nobody writes over its part of the file. `Stored` is the three of
them together, and every swap-out and swap-in of another page keeps it, whether
the call succeeds or not.
-/

namespace Xv6Paging.Proof

open Xv6Paging Lib

variable {p p' : Proc} {pg src : Page} {d d' : Disk} {r : Int} {va' : Nat}

/-! ## The two searches -/

theorem freeSlot_some {s : Fin maxSwapPages} (h : freeSlot p = some s) :
    (p.swapTable s).used = false := by
  unfold freeSlot at h
  have hs := (Fin.find?_eq_some_iff.mp h).1
  simpa using hs

theorem slotOf_some {va : Nat} {s : Fin maxSwapPages} (h : slotOf p va = some s) :
    (p.swapTable s).used = true ∧ (p.swapTable s).va = va := by
  unfold slotOf at h
  have hs := (Fin.find?_eq_some_iff.mp h).1
  simpa using hs

/-- An address carried by one slot in use is found there. -/
theorem slotOf_eq {va : Nat} {s : Fin maxSwapPages} (hu : (p.swapTable s).used = true)
    (hva : (p.swapTable s).va = va)
    (only : ∀ j, (p.swapTable j).used = true → (p.swapTable j).va = va → j = s) :
    slotOf p va = some s := by
  cases h : slotOf p va with
  | none =>
    unfold slotOf at h
    have hs := Fin.find?_eq_none_iff.mp h s
    simp [hu, hva] at hs
  | some j =>
    obtain ⟨hj, hjva⟩ := slotOf_some h
    rw [only j hj hjva]

/-- The offset of byte `i` of a slot is `i`. -/
theorem pgOff_slot (s : Nat) (i : Fin 4096) : pgOff (s * 4096 + i.val - s * 4096) = i := by
  rw [Nat.add_sub_cancel_left]
  exact Fin.ext (Nat.mod_eq_of_lt i.isLt)

/-! ## What the two calls do to the table and the file -/

@[simp] theorem memstatSwap_swapTable (p : Proc) (va : Nat) (st : PageState) (slot : Int) :
    (memstatSwap p va st slot).swapTable = p.swapTable := by
  unfold memstatSwap; split <;> rfl

@[simp] theorem memstatSwap_swapfile (p : Proc) (va : Nat) (st : PageState) (slot : Int) :
    (memstatSwap p va st slot).swapfile = p.swapfile := by
  unfold memstatSwap; split <;> rfl

/-- The file is still there, and the slots in use before hold what they held. -/
def FileKeeps (p p' : Proc) : Prop :=
  ∀ ip, p.swapfile = some ip → ∃ ip', p'.swapfile = some ip' ∧ ip.size ≤ ip'.size ∧
    ∀ s, (p.swapTable s).used = true →
      ∀ i : Fin 4096, ip'.data (s.val * 4096 + i.val) = ip.data (s.val * 4096 + i.val)

theorem FileKeeps.of_eq (h : p'.swapfile = p.swapfile) : FileKeeps p p' :=
  fun ip hip => ⟨ip, h.trans hip, Nat.le_refl _, fun _ _ _ => rfl⟩

/-- A swap-out that returned `slot`. -/
structure SwappedOut (p p' : Proc) (va : Nat) (src : Page) (slot : Fin maxSwapPages) : Prop where
  free : (p.swapTable slot).used = false
  table : p'.swapTable =
    Function.update p.swapTable slot ⟨toUint (pgRoundDown va), slot.val, true⟩
  bytes : ∃ ip, p'.swapfile = some ip ∧ (slot.val + 1) * 4096 ≤ ip.size ∧
    ∀ i : Fin 4096, ip.data (slot.val * 4096 + i.val) = src i

theorem swapoutTo_cases {ip : Inode} {va : Nat} (hip : p.swapfile = some ip)
    (h : swapoutTo d p ip va src = (r, d', p')) :
    FileKeeps p p' ∧
      ((r = -1 ∧ p'.swapTable = p.swapTable) ∨
        ∃ slot : Fin maxSwapPages, r = slot.val ∧ SwappedOut p p' va src slot) := by
  unfold swapoutTo at h
  split at h
  · cases h
    exact ⟨FileKeeps.of_eq rfl, Or.inl ⟨rfl, rfl⟩⟩
  · rename_i slot hslot
    have hfree := freeSlot_some hslot
    split at h
    rename_i n ip1 asked1 hw
    obtain ⟨tot, htot, hr, hsize, hend, hdata⟩ := writei_spec hw
    -- whatever was written lies inside the free slot
    have hkeep : ∀ s, (p.swapTable s).used = true → ∀ i : Fin 4096,
        ip1.data (s.val * 4096 + i.val) = ip.data (s.val * 4096 + i.val) := by
      intro s hs i
      have hne : s.val ≠ slot.val := fun he => by
        rw [Fin.ext he, hfree] at hs
        simp at hs
      rw [hdata, if_neg (by omega)]
    have hfile : ∀ q : Proc, q.swapfile = some ip1 → FileKeeps p q := by
      intro q hq ip0 hip0
      rw [hip] at hip0
      cases hip0
      exact ⟨ip1, hq, hsize, hkeep⟩
    dsimp only at h
    split at h
    · cases h
      exact ⟨hfile _ rfl, Or.inl ⟨rfl, rfl⟩⟩
    · rename_i hn
      cases h
      have hall : tot = 4096 := by
        rcases hr with hr | ⟨hr, _⟩ <;> omega
      subst hall
      refine ⟨hfile _ (by simp), Or.inr ⟨slot, rfl, hfree, by simp, ip1, by simp, ?_, fun i => ?_⟩⟩
      · have := hend (by omega)
        omega
      · rw [hdata, if_pos (by omega), pgOff_slot]

theorem swapfileCreate_cases {ok : Bool} (h : swapfileCreate d p = (ok, d', p')) :
    p'.swapTable = p.swapTable ∧ FileKeeps p p' := by
  unfold swapfileCreate at h
  split at h
  · cases h
    exact ⟨rfl, FileKeeps.of_eq rfl⟩
  · -- there was no file, so there was nothing to keep
    rename_i hnone
    have hkeep : ∀ q : Proc, FileKeeps p q := fun q ip hip => by simp [hnone] at hip
    dsimp only at h
    split at h
    · cases h
      exact ⟨rfl, hkeep _⟩
    · split at h <;> cases h <;> exact ⟨rfl, hkeep _⟩

/-- **What `proc_swapout_page` can do.** -/
theorem procSwapoutPage_cases {va : Nat} (h : procSwapoutPage d p va src = (r, d', p')) :
    FileKeeps p p' ∧
      ((r = -1 ∧ p'.swapTable = p.swapTable) ∨
        ∃ slot : Fin maxSwapPages, r = slot.val ∧ SwappedOut p p' va src slot) := by
  unfold procSwapoutPage at h
  split at h
  · rename_i d1 p1 hc
    cases h
    obtain ⟨htab, hkeep⟩ := swapfileCreate_cases hc
    exact ⟨hkeep, Or.inl ⟨rfl, htab⟩⟩
  · rename_i d1 p1 hc
    obtain ⟨htab, hkeep⟩ := swapfileCreate_cases hc
    split at h
    · cases h
      exact ⟨hkeep, Or.inl ⟨rfl, htab⟩⟩
    · rename_i ip hip
      obtain ⟨hkeep', hcases⟩ := swapoutTo_cases hip h
      refine ⟨fun ip0 hip0 => ?_, ?_⟩
      · obtain ⟨ip1, hip1, hsz1, hb1⟩ := hkeep ip0 hip0
        obtain ⟨ip2, hip2, hsz2, hb2⟩ := hkeep' ip1 hip1
        exact ⟨ip2, hip2, Nat.le_trans hsz1 hsz2,
          fun s hs i => (hb2 s (by rw [htab]; exact hs) i).trans (hb1 s hs i)⟩
      · rcases hcases with ⟨hr, ht⟩ | ⟨slot, hr, hout⟩
        · exact Or.inl ⟨hr, ht.trans htab⟩
        · exact Or.inr ⟨slot, hr, htab ▸ hout.free, htab ▸ hout.table, hout.bytes⟩

/-- **What `swapin_page` can do** to the table; the file it only reads. -/
theorem swapinPage_cases {va : Nat} {dst : Page} (h : swapinPage p va dst = (r, pg, p')) :
    p'.swapfile = p.swapfile ∧
      ((r = -1 ∧ p' = p) ∨ ∃ slot, slotOf p (pgRoundDown va) = some slot ∧ r = slot.val ∧
        p'.swapTable = Function.update p.swapTable slot ⟨0, -1, false⟩) := by
  unfold swapinPage at h
  split at h
  · cases h
    exact ⟨rfl, Or.inl ⟨rfl, rfl⟩⟩
  · rename_i ip hip
    dsimp only at h
    split at h
    · cases h
      exact ⟨rfl, Or.inl ⟨rfl, rfl⟩⟩
    · rename_i slot hslot
      split at h
      · cases h
        exact ⟨rfl, Or.inl ⟨rfl, rfl⟩⟩
      · cases h
        exact ⟨by simp, Or.inr ⟨slot, hslot, rfl, by simp⟩⟩

/-! ## A stored page -/

/-- Page `va` lies in slot `s` with content `pg`, and no other slot claims to have it. -/
structure Stored (p : Proc) (s : Fin maxSwapPages) (va : Nat) (pg : Page) : Prop where
  used : (p.swapTable s).used = true
  addr : (p.swapTable s).va = va
  only : ∀ j, (p.swapTable j).used = true → (p.swapTable j).va = va → j = s
  bytes : ∃ ip, p.swapfile = some ip ∧ (s.val + 1) * 4096 ≤ ip.size ∧
    ∀ i : Fin 4096, ip.data (s.val * 4096 + i.val) = pg i

/-- No slot in use carries `va`. -/
def NotSwapped (p : Proc) (va : Nat) : Prop :=
  ∀ j, (p.swapTable j).used = true → (p.swapTable j).va ≠ va

/-- A successful swap-out stores its page. -/
theorem SwappedOut.stored {va : Nat} {slot : Fin maxSwapPages} (h : SwappedOut p p' va src slot)
    (hal : va % 4096 = 0) (hlt : va < 2 ^ 32) (hnot : NotSwapped p va) : Stored p' slot va src := by
  have hva : toUint (pgRoundDown va) = va := by rw [pgRoundDown_eq_of_mod hal, toUint_eq hlt]
  refine ⟨by simp [h.table], by simp [h.table, hva], fun j hj hjva => ?_, h.bytes⟩
  by_contra hne
  rw [h.table, Function.update_of_ne hne] at hj hjva
  exact hnot j hj hjva

/-- Another page's swap-out, successful or not, leaves a stored page stored. -/
theorem Stored.swapout {s : Fin maxSwapPages} {va : Nat} (h : Stored p s va pg)
    (hne : toUint (pgRoundDown va') ≠ va) (hout : procSwapoutPage d p va' src = (r, d', p')) :
    Stored p' s va pg := by
  obtain ⟨hkeep, hcases⟩ := procSwapoutPage_cases hout
  obtain ⟨ip, hip, hsz, hb⟩ := h.bytes
  obtain ⟨ip', hip', hsz', hb'⟩ := hkeep ip hip
  have hbytes : ∃ ip, p'.swapfile = some ip ∧ (s.val + 1) * 4096 ≤ ip.size ∧
      ∀ i : Fin 4096, ip.data (s.val * 4096 + i.val) = pg i :=
    ⟨ip', hip', Nat.le_trans hsz hsz', fun i => (hb' s h.used i).trans (hb i)⟩
  rcases hcases with ⟨_, htab⟩ | ⟨slot, _, hso⟩
  · exact ⟨htab ▸ h.used, htab ▸ h.addr,
      fun j hj hjva => h.only j (htab ▸ hj) (htab ▸ hjva), hbytes⟩
  · -- the new entry sits in a slot that was free, so not in `s`
    have hs : s ≠ slot := fun he => by
      have hu := h.used
      rw [he, hso.free] at hu
      simp at hu
    refine ⟨by rw [hso.table, Function.update_of_ne hs]; exact h.used,
      by rw [hso.table, Function.update_of_ne hs]; exact h.addr, fun j hj hjva => ?_, hbytes⟩
    by_cases hj' : j = slot
    · subst hj'
      rw [hso.table, Function.update_self] at hjva
      exact absurd hjva hne
    · rw [hso.table, Function.update_of_ne hj'] at hj hjva
      exact h.only j hj hjva

/-- Another page's swap-in, successful or not, leaves a stored page stored. -/
theorem Stored.swapin {s : Fin maxSwapPages} {va : Nat} {dst pg' : Page} (h : Stored p s va pg)
    (hne : pgRoundDown va' ≠ va) (hin : swapinPage p va' dst = (r, pg', p')) :
    Stored p' s va pg := by
  obtain ⟨hfile, ⟨_, rfl⟩ | ⟨slot, hslot, _, htab⟩⟩ := swapinPage_cases hin
  · exact h
  · obtain ⟨_, hslotva⟩ := slotOf_some hslot
    have hs : s ≠ slot := fun he => hne (by rw [← hslotva, ← he, h.addr])
    refine ⟨by rw [htab, Function.update_of_ne hs]; exact h.used,
      by rw [htab, Function.update_of_ne hs]; exact h.addr, fun j hj hjva => ?_, hfile ▸ h.bytes⟩
    by_cases hj' : j = slot
    · subst hj'
      rw [htab, Function.update_self] at hj
      simp at hj
    · rw [htab, Function.update_of_ne hj'] at hj hjva
      exact h.only j hj hjva

/-- Another page's swap-out puts nothing in the table for `va`. -/
theorem NotSwapped.swapout {va : Nat} (h : NotSwapped p va) (hne : toUint (pgRoundDown va') ≠ va)
    (hout : procSwapoutPage d p va' src = (r, d', p')) : NotSwapped p' va := by
  intro j hj
  rcases (procSwapoutPage_cases hout).2 with ⟨_, htab⟩ | ⟨slot, _, hso⟩
  · rw [htab] at hj ⊢
    exact h j hj
  · by_cases hj' : j = slot
    · subst hj'
      rw [hso.table, Function.update_self]
      exact hne
    · rw [hso.table, Function.update_of_ne hj'] at hj ⊢
      exact h j hj

/-- A stored page comes back whole, from its slot. -/
theorem Stored.comes_back {s : Fin maxSwapPages} {va : Nat} (h : Stored p s va pg)
    (hal : va % 4096 = 0) (dst : Page) :
    ∃ p', swapinPage p va dst = ((s.val : Int), pg, p') := by
  obtain ⟨ip, hip, hsz, hb⟩ := h.bytes
  have hlt : s.val < 1024 := s.isLt
  have hread : ip.readable (s.val * 4096) 4096 = 4096 := readable_all (by omega) (by omega)
  have hpage : (readi ip dst (s.val * 4096) 4096).2 = pg := by
    funext i
    simp only [readi, hread, i.isLt, if_true, hb i]
  unfold swapinPage
  rw [hip, pgRoundDown_eq_of_mod hal]
  dsimp only
  rw [slotOf_eq h.used h.addr h.only]
  dsimp only
  rw [hpage, show (readi ip dst (s.val * 4096) 4096).1 = 4096 from hread, if_neg (by simp)]
  exact ⟨_, rfl⟩

/-! ## Runs of the two calls -/

/-- A call of `proc_swapout_page` or `swapin_page`, with what its buffer holds. -/
inductive SwapCall where
  | out (va : Nat) (src : Page)
  | into (va : Nat) (dst : Page)

/-- The address a call is about. -/
def SwapCall.va : SwapCall → Nat
  | .out va _ => va
  | .into va _ => va

/-- One call: what it returns, and what its buffer holds afterwards. -/
def swapStep (x : Disk × Proc) : SwapCall → Except Halt ((Int × Page) × Disk × Proc)
  | .out va src =>
    match procSwapoutPage x.1 x.2 va src with
    | (r, d, p) => .ok ((r, src), d, p)
  | .into va dst =>
    match swapinPage x.2 va dst with
    | (r, pg, p) => .ok ((r, pg), x.1, p)

theorem swapStep_out (x : Disk × Proc) (va : Nat) (src : Page) :
    swapStep x (.out va src) = .ok (((procSwapoutPage x.1 x.2 va src).1, src),
      (procSwapoutPage x.1 x.2 va src).2) := rfl

/-- A page is swapped out at an aligned 32-bit address, and not while it is out already. -/
def Admissible (x : Disk × Proc) : SwapCall → Prop
  | .out va _ => va % 4096 = 0 ∧ va < 2 ^ 32 ∧ NotSwapped x.2 va
  | .into _ _ => True

/-- A call about another page keeps a stored page stored. -/
theorem swapStep_stored {x x' : Disk × Proc} {c : SwapCall} {o : Int × Page} {s : Fin maxSwapPages}
    {va : Nat} (h : Stored x.2 s va pg) (hadm : Admissible x c) (hne : pgRoundDown c.va ≠ va)
    (hstep : swapStep x c = .ok (o, x')) : Stored x'.2 s va pg := by
  cases c with
  | out va' src =>
    obtain ⟨hal, hlt, _⟩ := hadm
    rcases hc : procSwapoutPage x.1 x.2 va' src with ⟨r, d, p⟩
    simp only [swapStep, hc, Except.ok.injEq, Prod.mk.injEq] at hstep
    obtain ⟨_, rfl⟩ := hstep
    refine h.swapout ?_ hc
    rw [pgRoundDown_eq_of_mod hal, toUint_eq hlt]
    simpa [SwapCall.va, pgRoundDown_eq_of_mod hal] using hne
  | into va' dst =>
    rcases hc : swapinPage x.2 va' dst with ⟨r, pg', p⟩
    simp only [swapStep, hc, Except.ok.injEq, Prod.mk.injEq] at hstep
    obtain ⟨_, rfl⟩ := hstep
    exact h.swapin hne hc

/-- So does any run of such calls. -/
theorem run_stored {s : Fin maxSwapPages} {va : Nat} :
    ∀ {cs : List SwapCall} {x x' : Disk × Proc} {os : List (Int × Page)}, Stored x.2 s va pg →
      AllSteps swapStep Admissible x cs → (∀ c ∈ cs, pgRoundDown c.va ≠ va) →
      run swapStep x cs = .ok (os, x') → Stored x'.2 s va pg := by
  intro cs
  induction cs with
  | nil =>
    intro x x' os h _ _ hrun
    cases hrun
    exact h
  | cons c cs ih =>
    intro x x' os h hall hne hrun
    obtain ⟨o, x₁, os', h₁, h₂, _⟩ := run_cons_ok.mp hrun
    have hstored := swapStep_stored h hall.1 (hne c (by simp)) h₁
    exact ih hstored (hall.2 o x₁ h₁) (fun c' hc' => hne c' (by simp [hc'])) h₂

/--
**The swap round trip.** A page swapped out in the course of any run is, after any
further calls about other pages, swapped in from the slot it was given and with
the bytes it had.
-/
theorem swapin_after_swapout {x₀ x₁ x₂ x₃ : Disk × Proc} {before between : List SwapCall}
    {os₀ os₁ : List (Int × Page)} {va : Nat} {src : Page} {s : Int} (dst : Page)
    (hadm : AllSteps swapStep Admissible x₀ (before ++ .out va src :: between))
    (hbefore : run swapStep x₀ before = .ok (os₀, x₁))
    (hout : swapStep x₁ (.out va src) = .ok ((s, src), x₂)) (hs : 0 ≤ s)
    (hother : ∀ c ∈ between, pgRoundDown c.va ≠ va)
    (hbetween : run swapStep x₂ between = .ok (os₁, x₃)) :
    ∃ x₄, swapStep x₃ (.into va dst) = .ok ((s, src), x₄) := by
  obtain ⟨⟨hal, hlt, hnot⟩, hrest⟩ := hadm.drop hbefore
  have hadm' := hrest _ _ hout
  rcases hc : procSwapoutPage x₁.1 x₁.2 va src with ⟨r, d, p⟩
  simp only [swapStep, hc, Except.ok.injEq, Prod.mk.injEq, and_true] at hout
  obtain ⟨rfl, rfl⟩ := hout
  rcases (procSwapoutPage_cases hc).2 with ⟨hr, _⟩ | ⟨slot, rfl, hso⟩
  · omega
  · have hstored : Stored x₃.2 slot va src :=
      run_stored (hso.stored hal hlt hnot) hadm' hother hbetween
    obtain ⟨p', hback⟩ := hstored.comes_back hal dst
    exact ⟨(x₃.1, p'), by simp only [swapStep, hback]⟩

/-- A new process on a disk with room, its swap file still to be made. -/
def freshSwap : Disk × Proc :=
  (⟨fun _ => false, 0, fun _ => some ⟨0, fun _ => 0⟩, fun _ => true, 0⟩,
    freshProc 1 1 (PageTable.empty 2))

/-- The new process after its page at 4096 has been swapped out. -/
def freshSwapOut : Int × Disk × Proc := procSwapoutPage freshSwap.1 freshSwap.2 4096 (pageOf 7)

/-- A second page goes out and comes back, and a third one was never out. -/
def otherPages : List SwapCall :=
  [.out 8192 (pageOf 9), .into 8192 zeroPage, .into 12288 zeroPage]

/-- Neither call ever stops the machine. -/
theorem swapRun_total : ∀ (cs : List SwapCall) (x : Disk × Proc),
    ∃ os x', run swapStep x cs = .ok (os, x') := by
  intro cs
  induction cs with
  | nil => intro x; exact ⟨[], x, rfl⟩
  | cons c cs ih =>
    intro x
    have hstep : ∃ o x₁, swapStep x c = .ok (o, x₁) := by
      cases c <;> exact ⟨_, _, rfl⟩
    obtain ⟨o, x₁, h₁⟩ := hstep
    obtain ⟨os, x', h₂⟩ := ih x₁
    exact ⟨o :: os, x', run_cons_ok.mpr ⟨o, x₁, os, h₁, h₂, rfl⟩⟩

theorem otherPages_admissible :
    AllSteps swapStep Admissible freshSwap (.out 4096 (pageOf 7) :: otherPages) := by
  have hnone : ∀ va, NotSwapped freshSwap.2 va := by
    intro va j hj
    simp [freshSwap, freshProc] at hj
  refine ⟨⟨by decide, by decide, hnone 4096⟩, fun o x h => ?_⟩
  rcases hc : procSwapoutPage freshSwap.1 freshSwap.2 4096 (pageOf 7) with ⟨r, d, p⟩
  rw [swapStep_out, hc, Except.ok.injEq, Prod.mk.injEq] at h
  have hnot : NotSwapped x.2 8192 := h.2 ▸ (hnone 8192).swapout (by decide) hc
  exact ⟨⟨by decide, by decide, hnot⟩,
    fun _ _ _ => ⟨trivial, fun _ _ _ => ⟨trivial, fun _ _ _ => trivial⟩⟩⟩

theorem swapin_after_swapout_second_page :
    ∃ os x₃ x₄, run swapStep freshSwapOut.2 otherPages = .ok (os, x₃) ∧
      swapStep x₃ (.into 4096 zeroPage) = .ok ((0, pageOf 7), x₄) := by
  obtain ⟨os, x₃, hrun⟩ := swapRun_total otherPages freshSwapOut.2
  have hadm : AllSteps swapStep Admissible freshSwap ([] ++ .out 4096 (pageOf 7) :: otherPages) :=
    otherPages_admissible
  have hslot : freshSwapOut.1 = 0 := by decide +kernel
  have hout : swapStep freshSwap (.out 4096 (pageOf 7)) = .ok ((0, pageOf 7), freshSwapOut.2) := by
    rw [swapStep_out, ← hslot, freshSwapOut]
  obtain ⟨x₄, hback⟩ := swapin_after_swapout zeroPage hadm (run_nil freshSwap) hout
    (Int.le_refl 0) (by simp [otherPages, SwapCall.va, pgRoundDown]) hrun
  exact ⟨os, x₃, x₄, hrun, hback⟩

end Xv6Paging.Proof
