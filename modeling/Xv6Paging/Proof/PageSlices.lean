import Xv6Paging.Proof.Loading

/-!
# The slice of the file a page holds

`usertrap` and `vmfault` build a page of a segment from the records of the process: they zero a
frame, compute in 32 and 64 bits which part of the file belongs to the page, and read it. If the
record lies inside the file, both end up with the right part, zeroes behind it, and no short read. A
page that is in the ranges of both segments is taken for a text page.
-/

namespace Xv6Paging.Proof

open Xv6Paging Lib

/-! ## The buffers -/

theorem installExec_buffer {k k₁ : Kernel} {va0 f : Nat} {mem : Page}
    (ht : tryKallocOrReplace k = (some f, k₁)) (hs : k₁.p.slicePage va0 = some mem) :
    installExec k va0 = mapExec k₁ va0 f mem := by
  unfold installExec
  rw [ht]
  dsimp only
  rw [hs]

theorem vmfault_buffer {k k₁ : Kernel} {va0 f : Nat} {mem : Page} (hal : va0 % 4096 = 0)
    (hguard : k.p.inGuard va0 = false) (hmax : va0 < maxVA)
    (hmapped : ismapped k.p.pagetable va0 = false)
    (hseg : (k.p.inText va0 || k.p.inData va0) = true) (ht : tryKallocOrReplace k = (some f, k₁))
    (hs : k₁.p.slicePage va0 = some mem) :
    vmfault k va0 = finishVmfault k₁ va0 f mem (if k.p.inText va0 then permURX else permURW) := by
  have hround : pgRoundDown va0 = va0 := by
    unfold pgRoundDown
    omega
  unfold vmfault
  rw [hround]
  simp only [hguard, hmapped, hseg, Bool.false_eq_true, if_false, if_true,
    if_neg (Nat.not_le.mpr hmax), ht, hs]

/-- The process has a segment of `file` on record that lies inside the file. -/
structure OnRecord (p : Proc) (text : Bool) (file : Inode) (start memsz off filesz : Nat) :
    Prop where
  execIp : p.execIp = some file
  record : procRecord p text = ⟨start, start + memsz, off, filesz⟩
  aligned : start % 4096 = 0
  fits : start + memsz < 2 ^ 64
  filesz_le : filesz ≤ memsz
  inside : off + filesz ≤ file.size
  small : off + filesz < 2 ^ 32

/-- What page `va0` of the segment is to hold. -/
def sliceOf (file : Inode) (start off filesz va0 : Nat) : Page := fun i =>
  if va0 - start + i.val < filesz then file.data (off + (va0 - start) + i.val) else 0

/-- Both loaders, whenever they get a frame for `va0`, go on to map it with `mem` in it. -/
structure LoadersBuild (k : Kernel) (va0 : Nat) (mem : Page) : Prop where
  /-- `usertrap`, on a page that is not mapped. -/
  usertrap : ∀ f k₁, tryKallocOrReplace k = (some f, k₁) → installExec k va0 = mapExec k₁ va0 f mem
  /-- `vmfault`, where it loads at all. -/
  vmfault : ∀ f k₁, tryKallocOrReplace k = (some f, k₁) → k.p.inGuard va0 = false → va0 < maxVA →
    ismapped k.p.pagetable va0 = false → k.p.underBrk va0 = true →
    vmfault k va0 = finishVmfault k₁ va0 f mem (if k.p.inText va0 then permURX else permURW)

/--
**The loaders build the right slice of the file** for every page of a segment that is on record, in
any state of the kernel: the page of a text segment, and that of a data segment if it is not in the
text range too.
-/
theorem page_loaders_build_slice {k : Kernel} {text : Bool} {file : Inode}
    {start memsz off filesz va0 : Nat} (h : OnRecord k.p text file start memsz off filesz)
    (hal : va0 % 4096 = 0) (hlo : start ≤ va0) (hhi : va0 < start + memsz)
    (htext : text = false → k.p.textRange va0 = false) :
    LoadersBuild k va0 (sliceOf file start off filesz va0) := by
  obtain ⟨hoff, hsz, hrange⟩ := slice_of_record h.record hlo hhi htext
  have hfits := h.fits
  obtain ⟨pg, hpage, hbytes⟩ :=
    slicePage_record h.execIp hoff hsz hlo (by omega) h.inside h.small
  have hpg : pg = sliceOf file start off filesz va0 := by
    funext i
    rw [hbytes, sliceOf, Nat.add_assoc]
  have hbuilt : ∀ f k₁, tryKallocOrReplace k = (some f, k₁) →
      k₁.p.slicePage va0 = some (sliceOf file start off filesz va0) := by
    intro f k₁ ht
    rw [slicePage_of_image (tryKalloc_vacates ht).image, hpage, hpg]
  refine ⟨fun f k₁ ht => installExec_buffer ht (hbuilt f k₁ ht),
    fun f k₁ ht hguard hmax hmapped hbrk => ?_⟩
  have hseg : (k.p.inText va0 || k.p.inData va0) = true := by
    rw [Proc.inText, Proc.inData, hbrk, Bool.true_and, Bool.true_and]
    exact hrange
  exact vmfault_buffer hal hguard hmax hmapped hseg ht (hbuilt f k₁ ht)

/-- The file of a process that has just called `exec`. -/
theorem exec_execIp {k k' : Kernel} {path : List UInt8} {file : Inode}
    {argv : List (List UInt8)} {r : Int} (h : Reachable k)
    (hs : step k (.exec path (some file) argv) = .ok (.ret r, k')) (hr : 0 ≤ r) :
    k'.p.execIp = some file := by
  obtain ⟨_, hspace⟩ := reachable_spaceInv h
  cases step_cases hs with
  | exec he => exact ((kexec_cases he).newImage hspace hr).choose_spec.execIp

theorem page_loaders_build_slice_one_page : ∃ k, Reachable k ∧
    OnRecord k.p false onePage 0 4096 120 4 ∧ (tryKallocOrReplace k).1.isSome ∧
      LoadersBuild k 0 (sliceOf onePage 0 120 4 0) := by
  have hrun : (after (fun _ _ => true) [] []).map (fun k => execThen
      (fun k' => (procRecord k'.p false, k'.p.textRange 0, (tryKallocOrReplace k').1.isSome))
      (step k (.exec [47] (some onePage) [[65]]))) =
      some (some (1, ⟨0, 4096, 120, 4⟩, false, true)) := by decide +kernel
  obtain ⟨k, hk, hfacts⟩ := Option.map_eq_some_iff.mp hrun
  obtain ⟨k', hs, hfacts⟩ := execThen_some hfacts
  simp only [Prod.mk.injEq] at hfacts
  have hreach : Reachable k := after_reachable (fun _ _ _ => trivial) hk
  have hrec : OnRecord k'.p false onePage 0 4096 120 4 :=
    ⟨exec_execIp hreach hs (by decide), hfacts.1,
      rfl, by decide, by decide, by decide +kernel, by decide⟩
  exact ⟨k', .step hreach trivial hs, hrec, hfacts.2.2,
    page_loaders_build_slice hrec rfl (by decide) (by decide) fun _ => hfacts.2.1⟩

/-- The first byte of a frame after a fault. -/
def firstByte (f : Nat) (out : Except Halt Kernel) : Option UInt8 :=
  out.toOption.map fun k => k.kmem.ram f 0

/-- A text and a data segment at the same address. -/
def textOverData : Inode :=
  fileOf (elfHeader 2 ++ loadHeader 5 176 0 2 2 ++ loadHeader 6 178 0 2 2 ++ [7, 8, 9, 10])

/-- The page is a text page, and has none of the bytes of the data segment. -/
theorem page_of_two_segments_is_text : ¬ ∀ k text file start memsz off filesz va0, Reachable k →
    OnRecord k.p text file start memsz off filesz → va0 % 4096 = 0 → start ≤ va0 →
    va0 < start + memsz →
    LoadersBuild k va0 (sliceOf file start off filesz va0) := by
  intro hall
  have hrun : (after (fun _ _ => true) [] []).map (fun k => execThen
      (fun k' => decide (procRecord k'.p false = ⟨0, 2, 178, 2⟩ ∧
        (tryKallocOrReplace k').1.map (fun f => (firstByte f (installExec k' 0),
          firstByte f (mapExec (tryKallocOrReplace k').2 0 f (sliceOf textOverData 0 178 2 0)))) =
          some (some 7, some 9)))
      (step k (.exec [47] (some textOverData) [[65]]))) = some (some (1, true)) := by decide +kernel
  obtain ⟨k, hk, hfacts⟩ := Option.map_eq_some_iff.mp hrun
  obtain ⟨k', hs, hfacts⟩ := execThen_some hfacts
  obtain ⟨hrecord, hload⟩ := of_decide_eq_true hfacts
  have hreach : Reachable k := after_reachable (fun _ _ _ => trivial) hk
  have hrec : OnRecord k'.p false textOverData 0 2 178 2 :=
    ⟨exec_execIp hreach hs (by decide), hrecord,
      rfl, by decide, by decide, by decide +kernel, by decide⟩
  have hbuild :=
    hall k' false textOverData 0 2 178 2 0 (.step hreach trivial hs) hrec rfl le_rfl (by decide)
  obtain ⟨f, hf, hbytes⟩ := Option.map_eq_some_iff.mp hload
  have ht : tryKallocOrReplace k' = (some f, (tryKallocOrReplace k').2) := Prod.ext hf rfl
  rw [hbuild.usertrap f _ ht] at hbytes
  obtain ⟨hseven, hnine⟩ := Prod.mk.inj hbytes
  rw [hnine] at hseven
  exact absurd hseven (by decide)

end Xv6Paging.Proof
