import Xv6Paging.Proof.Memfull
import Xv6Paging.Proof.SwapFile

/-!
# How much fits into a swap file

The search takes the lowest free slot, so the slots below it are all in use and the
file reaches up to it: `writei` never finds a hole. But an inode has room for
`MAXFILE` blocks, and that is 67 pages. The other entries of the swap table can never
be used.
-/

namespace Xv6Paging.Proof

open Xv6Paging Lib

variable {p p' : Proc} {x x' : Disk × Proc} {d : Disk} {va : Nat} {ip : Inode} {src : Page}
  {r : Int}

/-! ## The file reaches up to the free slot -/

/-- The swap file holds every slot in use. -/
def SlotsInFile (p : Proc) : Prop :=
  ∀ s, (p.swapTable s).used = true → ∃ ip, p.swapfile = some ip ∧ (s.val + 1) * 4096 ≤ ip.size

theorem SlotsInFile.of_empty (h : ∀ s, (p.swapTable s).used = false) : SlotsInFile p := by
  intro s hs
  rw [h s] at hs
  cases hs

theorem SlotsInFile.keeps (h : SlotsInFile p) (hk : FileKeeps p p') {s : Fin maxSwapPages}
    (hs : (p.swapTable s).used = true) :
    ∃ ip, p'.swapfile = some ip ∧ (s.val + 1) * 4096 ≤ ip.size := by
  obtain ⟨ip, hip, hsize⟩ := h s hs
  obtain ⟨ip', hip', hle, _⟩ := hk ip hip
  exact ⟨ip', hip', Nat.le_trans hsize hle⟩

theorem SlotsInFile.swapout {d' : Disk} (h : SlotsInFile p)
    (hout : procSwapoutPage d p va src = (r, d', p')) : SlotsInFile p' := by
  obtain ⟨hk, ⟨_, htab⟩ | ⟨slot, _, hso⟩⟩ := procSwapoutPage_cases hout
  · intro s hs
    rw [htab] at hs
    exact h.keeps hk hs
  · intro s hs
    by_cases hslot : s = slot
    · obtain ⟨ip, hip, hsize, _⟩ := hso.bytes
      rw [hslot]
      exact ⟨ip, hip, hsize⟩
    · rw [hso.table, Function.update_of_ne hslot] at hs
      exact h.keeps hk hs

theorem SlotsInFile.swapin {dst pg : Page} (h : SlotsInFile p)
    (hin : swapinPage p va dst = (r, pg, p')) : SlotsInFile p' := by
  obtain ⟨hfile, ⟨_, hp⟩ | ⟨slot, _, _, htab⟩⟩ := swapinPage_cases hin
  · rw [hp]
    exact h
  · intro s hs
    by_cases hslot : s = slot
    · rw [htab, hslot, Function.update_self] at hs
      cases hs
    · rw [htab, Function.update_of_ne hslot] at hs
      rw [hfile]
      exact h s hs

theorem swapStep_slotsInFile {c : SwapCall} {o : Int × Page} (h : SlotsInFile x.2)
    (hstep : swapStep x c = .ok (o, x')) : SlotsInFile x'.2 := by
  cases c with
  | out va src =>
    rw [swapStep_out] at hstep
    cases hstep
    exact h.swapout rfl
  | into va dst =>
    rcases hin : swapinPage x.2 va dst with ⟨r, pg, p⟩
    rw [swapStep, hin] at hstep
    cases hstep
    exact h.swapin hin

/-- **Along every run of swap-outs and swap-ins** the file holds every slot in use. -/
theorem run_slotsInFile {cs : List SwapCall} {os : List (Int × Page)} (h : SlotsInFile x.2)
    (hrun : run swapStep x cs = .ok (os, x')) : SlotsInFile x'.2 :=
  run_invariant (P := fun y => SlotsInFile y.2)
    (fun _ _ _ _ hy _ hs => swapStep_slotsInFile hy hs) h (allSteps_true cs x) hrun

theorem swapoutTo_full :
    (swapoutTo d p ip va src).2.1.full = d.full := by
  unfold swapoutTo
  split
  · rfl
  · dsimp only
    split <;> rfl

theorem procSwapoutPage_full (d : Disk) (p : Proc) (va : Nat) (src : Page) :
    (procSwapoutPage d p va src).2.1.full = d.full := by
  unfold procSwapoutPage swapfileCreate
  grind [swapoutTo_full]

/-- **The disk answers as before** when a run is over. -/
theorem run_full {cs : List SwapCall} {os : List (Int × Page)}
    (hrun : run swapStep x cs = .ok (os, x')) : x'.1.full = x.1.full := by
  refine run_invariant (P := fun y => y.1.full = x.1.full) (fun y c o y' hy _ hs => ?_) rfl
    (allSteps_true cs x) hrun
  cases c with
  | out va src =>
    rw [swapStep_out] at hs
    cases hs
    exact (procSwapoutPage_full ..).trans hy
  | into va dst =>
    cases hs
    exact hy

/-- All slots below the first free one are in use. -/
theorem freeSlot_below {s t : Fin maxSwapPages} (h : freeSlot p = some s) (hlt : t < s) :
    (p.swapTable t).used = true := by
  unfold freeSlot at h
  have hmin := (Fin.find?_eq_some_iff.mp h).2 t hlt
  simpa using hmin

/-- The first free slot is no higher than any other. -/
theorem freeSlot_le {t : Fin maxSwapPages} (h : (p.swapTable t).used = false) :
    ∃ s, freeSlot p = some s ∧ s ≤ t := by
  cases hf : freeSlot p with
  | none =>
    unfold freeSlot at hf
    have hall := Fin.find?_eq_none_iff.mp hf t
    simp [h] at hall
  | some s =>
    refine ⟨s, rfl, ?_⟩
    by_contra hlt
    have hused := freeSlot_below hf (Nat.lt_of_not_le hlt)
    rw [h] at hused
    cases hused

/-- **The first range check of `writei` always passes.** -/
theorem SlotsInFile.reached {s : Fin maxSwapPages} (h : SlotsInFile p) (hip : p.swapfile = some ip)
    (hfree : freeSlot p = some s) : s.val * 4096 ≤ ip.size := by
  by_cases hzero : s.val = 0
  · omega
  · -- the slot right below is in use
    have hlt : (⟨s.val - 1, by omega⟩ : Fin maxSwapPages) < s := by
      show s.val - 1 < s.val
      omega
    obtain ⟨ip', hip', hsize⟩ := h _ (freeSlot_below hfree hlt)
    rw [hip] at hip'
    cases hip'
    have hpred : s.val - 1 + 1 = s.val := by omega
    rw [hpred] at hsize
    exact hsize

/-! ## The file can be full before the table is -/

/-- An entry of the swap table whose slot a file has room for is free. -/
def FreeInFile (p : Proc) : Prop :=
  ∃ s : Fin maxSwapPages, (p.swapTable s).used = false ∧ (s.val + 1) * 4096 ≤ maxFile * bSize

theorem SlotsInFile.swapout_iff (h : SlotsInFile p) (hip : p.swapfile = some ip)
    (hblocks : ∀ n, d.asked ≤ n → d.full n = false) (va : Nat) (src : Page) :
    0 ≤ (procSwapoutPage d p va src).1 ↔ FreeInFile p := by
  rcases hout : procSwapoutPage d p va src with ⟨r, d', p'⟩
  rw [procSwapoutPage_iff hout]
  constructor
  · rintro ⟨_, s, _, hfree, hfits⟩
    have hend := hfits.end_le
    exact ⟨s, freeSlot_some hfree, by omega⟩
  · rintro ⟨t, ht, hend⟩
    obtain ⟨s, hs, hle⟩ := freeSlot_le ht
    have hval : s.val ≤ t.val := hle
    refine ⟨ip, s, ?_, hs, h.reached hip hs, by omega, fun i _ => Or.inr (hblocks _ (by omega))⟩
    unfold swapTarget
    rw [hip]

/--
**When a page can be swapped out.** After any swap-outs and swap-ins by a process that
started with an empty swap table, as long as the disk has blocks: the slot found is
never beyond the end of the file, and the call succeeds exactly if an entry is free
that a file has room for.
-/
theorem swapout_succeeds_iff {cs : List SwapCall} {x x' : Disk × Proc} {os : List (Int × Page)}
    {ip : Inode} (hempty : ∀ s, (x.2.swapTable s).used = false)
    (hrun : run swapStep x cs = .ok (os, x')) (hip : x'.2.swapfile = some ip)
    (hblocks : ∀ n, x'.1.asked ≤ n → x'.1.full n = false) (va : Nat) (src : Page) :
    (0 ≤ (procSwapoutPage x'.1 x'.2 va src).1 ↔ FreeInFile x'.2) ∧
      ∀ s, freeSlot x'.2 = some s → s.val * 4096 ≤ ip.size := by
  have hslots := run_slotsInFile (SlotsInFile.of_empty hempty) hrun
  exact ⟨hslots.swapout_iff hip hblocks va src, fun s hs => hslots.reached hip hs⟩

/-- A process with an empty swap file, and a disk that never fills up. -/
def emptySwap : Disk × Proc :=
  (freshSwap.1, { freshSwap.2 with swapfile := some ⟨0, fun _ => 0⟩ })

/-- Two pages go out, the first comes back, and its slot is free for a third. -/
theorem swapout_succeeds_iff_slot_again : ∃ os x',
    run swapStep emptySwap [.out 4096 (pageOf 7), .out 8192 (pageOf 9), .into 4096 zeroPage] =
      .ok (os, x') ∧
      os.map Prod.fst = [0, 1, 0] ∧ 0 ≤ (procSwapoutPage x'.1 x'.2 12288 zeroPage).1 := by
  obtain ⟨os, x', hrun⟩ :=
    swapRun_total [.out 4096 (pageOf 7), .out 8192 (pageOf 9), .into 4096 zeroPage] emptySwap
  have heval : (run swapStep emptySwap
      [.out 4096 (pageOf 7), .out 8192 (pageOf 9), .into 4096 zeroPage]).toOption.map (fun y =>
        (y.1.map Prod.fst, (y.2.2.swapTable 0).used, y.2.2.swapfile.isSome)) =
      some ([0, 1, 0], false, true) := by
    decide +kernel
  rw [hrun] at heval
  change some (os.map Prod.fst, _, _) = _ at heval
  obtain ⟨hos, hslot, hfile⟩ : os.map Prod.fst = [0, 1, 0] ∧ (x'.2.swapTable 0).used = false ∧
      x'.2.swapfile.isSome = true := by
    simpa using heval
  obtain ⟨ip, hip⟩ := Option.isSome_iff_exists.mp hfile
  have hblocks : ∀ n, x'.1.asked ≤ n → x'.1.full n = false := fun n _ => by
    rw [run_full hrun]
    rfl
  refine ⟨os, x', hrun, hos, ?_⟩
  exact (swapout_succeeds_iff (fun _ => rfl) hrun hip hblocks 12288 zeroPage).1.mpr
    ⟨0, hslot, by decide⟩

/-- The slots in use are the first `n`. -/
structure Filled (n : Nat) (x : Disk × Proc) : Prop where
  file : ∃ ip, x.2.swapfile = some ip
  blocks : ∀ m, x.1.full m = false
  used : ∀ s, (x.2.swapTable s).used = true ↔ s.val < n
  slots : SlotsInFile x.2

/-- A successful swap-out takes the first free slot. -/
theorem procSwapoutPage_first {d' : Disk} (hip : p.swapfile = some ip)
    (h : procSwapoutPage d p va src = (r, d', p')) (hr : 0 ≤ r) :
    ∃ s, freeSlot p = some s ∧ r = s.val := by
  unfold procSwapoutPage swapfileCreate at h
  rw [hip] at h
  dsimp only at h
  rw [hip] at h
  dsimp only at h
  unfold swapoutTo at h
  rcases hf : freeSlot p with _ | s
  · rw [hf] at h
    cases h
    exact absurd hr (by decide)
  · rw [hf] at h
    dsimp only at h
    split at h
    · cases h
      exact absurd hr (by decide)
    · cases h
      exact ⟨s, rfl, rfl⟩

theorem Filled.swapout {n : Nat} (h : Filled n x) (hn : (n + 1) * 4096 ≤ maxFile * bSize) (va : Nat)
    (src : Page) :
    ∃ o x', swapStep x (.out va src) = .ok (o, x') ∧ Filled (n + 1) x' := by
  obtain ⟨ip, hip⟩ := h.file
  have hmax : maxFile * bSize < maxSwapPages * 4096 := by decide
  have hlt : n < maxSwapPages := by omega
  rcases hout : procSwapoutPage x.1 x.2 va src with ⟨r, d', p'⟩
  have hfree : (x.2.swapTable ⟨n, hlt⟩).used = false := by
    have hno : ¬ (x.2.swapTable ⟨n, hlt⟩).used = true :=
      fun hu => Nat.lt_irrefl n ((h.used _).mp hu)
    simpa using hno
  have hr : 0 ≤ r := by
    have hiff := h.slots.swapout_iff hip (fun m _ => h.blocks m) va src
    rw [hout] at hiff
    exact hiff.mpr ⟨⟨n, hlt⟩, hfree, hn⟩
  have hfull := procSwapoutPage_full x.1 x.2 va src
  rw [hout] at hfull
  obtain ⟨s, hs, hrs⟩ := procSwapoutPage_first hip hout hr
  -- the first free slot is number `n`
  have hsn : s.val = n := by
    obtain ⟨s', hs', hle⟩ := freeSlot_le hfree
    rw [hs] at hs'
    cases hs'
    have hval : s.val ≤ n := hle
    have hnot : ¬ s.val < n := fun hl => by
      have := (h.used s).mpr hl
      rw [freeSlot_some hs] at this
      cases this
    omega
  refine ⟨(r, src), (d', p'), by rw [swapStep, hout], ?_⟩
  obtain ⟨hk, ⟨hneg, _⟩ | ⟨slot, hslot, hso⟩⟩ := procSwapoutPage_cases hout
  · omega
  · have hsame : slot.val = n := by omega
    obtain ⟨ip', hip', _⟩ := hso.bytes
    refine ⟨⟨ip', hip'⟩, fun m => by rw [hfull]; exact h.blocks m, fun t => ?_,
      h.slots.swapout hout⟩
    show (p'.swapTable t).used = true ↔ t.val < n + 1
    rw [hso.table]
    by_cases ht : t = slot
    · rw [ht, Function.update_self]
      simp [hsame]
    · have hne : t.val ≠ slot.val := fun he => ht (Fin.ext he)
      rw [Function.update_of_ne ht, h.used]
      omega

theorem run_filled : ∀ (n : Nat) {m : Nat} {x : Disk × Proc}, Filled m x →
    (m + n) * 4096 ≤ maxFile * bSize →
    ∃ os x', run swapStep x (List.replicate n (.out 0 zeroPage)) = .ok (os, x') ∧
    Filled (m + n) x' := by
  intro n
  induction n with
  | zero => intro m x h _; exact ⟨[], x, rfl, h⟩
  | succ n ih =>
    intro m x h hn
    have hle : (m + 1) * 4096 ≤ (m + (n + 1)) * 4096 := Nat.mul_le_mul_right _ (by omega)
    have heq : m + 1 + n = m + (n + 1) := by omega
    obtain ⟨o, x₁, hstep, h₁⟩ := h.swapout (Nat.le_trans hle hn) 0 zeroPage
    obtain ⟨os, x', hrun, h'⟩ := ih h₁ (by rw [heq]; exact hn)
    refine ⟨o :: os, x', ?_, ?_⟩
    · rw [List.replicate_succ]
      exact run_cons_ok.mpr ⟨o, x₁, os, hstep, hrun, rfl⟩
    · rw [← heq]
      exact h'

/-- After 67 swap-outs the file is full, and 957 entries of the swap table are free. -/
theorem swapout_can_fail_with_free_slots : ¬ ∀ (cs : List SwapCall) (x x' : Disk × Proc) os ip,
    (∀ s, (x.2.swapTable s).used = false) → run swapStep x cs = .ok (os, x') →
    x'.2.swapfile = some ip → (∀ n, x'.1.asked ≤ n → x'.1.full n = false) →
    (∃ s, (x'.2.swapTable s).used = false) →
    ∀ va src, 0 ≤ (procSwapoutPage x'.1 x'.2 va src).1 := by
  intro hall
  have hstart : Filled 0 emptySwap :=
    ⟨⟨_, rfl⟩, fun _ => rfl, fun s => by simp [emptySwap, freshSwap, freshProc],
      .of_empty fun _ => rfl⟩
  have hmax : maxFile * bSize = 67 * 4096 := by decide
  obtain ⟨os, x', hrun, hfilled⟩ := run_filled 67 hstart (Nat.le_of_eq (by rw [hmax]))
  obtain ⟨ip, hip⟩ := hfilled.file
  have hunused : ∀ s : Fin maxSwapPages, 67 ≤ s.val → (x'.2.swapTable s).used = false := by
    intro s hs
    have hno : ¬ (x'.2.swapTable s).used = true := fun hu => by
      have := (hfilled.used s).mp hu
      omega
    simpa using hno
  have hok := hall _ emptySwap x' os ip (fun _ => rfl) hrun hip (fun m _ => hfilled.blocks m)
    ⟨⟨67, by decide⟩, hunused _ (Nat.le_refl _)⟩ 0 zeroPage
  obtain ⟨s, hs, hend⟩ :=
    (hfilled.slots.swapout_iff hip (fun m _ => hfilled.blocks m) 0 zeroPage).mp hok
  have hlt : s.val < 67 := by omega
  have := (hfilled.used s).mpr (by omega)
  rw [hs] at this
  cases this

end Xv6Paging.Proof
