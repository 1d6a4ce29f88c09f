import Xv6Paging.Proof.Contents
import Xv6Paging.Proof.NewImage
import Xv6Paging.Proof.SwapSteps

/-!
# Lazy loading

The fault handlers load the pages of a segment from the records `kexec` made of the
program headers. With at most one segment of each kind the records say all there is
to say, and what a program first reads is what loading every segment at exec time
would have put there.
-/

namespace Xv6Paging.Proof

open Xv6Paging Lib

variable {x va fin off start filesz : Nat} {k k' : Kernel} {p q : Proc} {S U : Set Nat}
  {file : Inode} {ph : ProgHdr} {C : Prop}

/-! ## The first read -/

/-- The byte a completed load returned. -/
def loadedByte : Except Halt (Out × Kernel) → Option UInt8
  | .ok (.loaded b, _) => some b
  | _ => none

/-- The same, trying again after a fault. -/
def retried (va : Nat) : Except Halt (Out × Kernel) → Option UInt8
  | .ok (.loaded b, _) => some b
  | .ok (.fault, k) => loadedByte (step k (.access .read va 0))
  | _ => none

/-- What a load of `va` returns, once the fault it may take has been handled. -/
def loadByte (k : Kernel) (va : Nat) : Option UInt8 := retried va (step k (.access .read va 0))

theorem step_killed {op : Op} (h : k.p.killed = true) : step k op = .error .exited := by
  unfold step
  rw [if_pos h]

/-- A load from a readable page. -/
theorem step_load {f : Nat} {perm : Perm} (hlive : k.p.killed = false) (hva : va < maxVA)
    (hpte : k.p.pagetable.pte va = ⟨true, perm, f⟩) (hu : perm.u = true) (hr : perm.r = true) :
    step k (.access .read va 0) = .ok (.loaded (k.kmem.ram f (pgOff va)), k) := by
  have hleaf : k.pte va = ⟨true, perm, f⟩ := by rw [Kernel.pte, if_pos hva, hpte]
  have hbyte : k.byte va = k.kmem.ram f (pgOff va) := by rw [Kernel.byte, hleaf]
  unfold step
  rw [hlive]
  simp only [Bool.false_eq_true, if_false, act, access, hleaf, Pte.permits, hu, hr, Bool.and_self,
    if_true, hbyte]

/-- A load from a page that is not mapped. -/
theorem step_load_fault (hlive : k.p.killed = false) (hv : (k.p.pagetable.pte va).v = false)
    {out : Except Halt Kernel} (ht : usertrapPageFault k va .read = out) :
    step k (.access .read va 0) = out.map fun k' => (.fault, k') := by
  have hno : (k.pte va).permits .read = false := by
    unfold Kernel.pte
    split
    · simp [Pte.permits, hv]
    · rfl
  unfold step
  rw [hlive]
  simp only [Bool.false_eq_true, if_false, act, access, hno, ht]
  cases out <;> rfl

/-- A fault that loads a page from the executable. -/
theorem usertrap_slice {acc : Access} (hw : wants k va acc = some .slice)
    (ht : usertrapPageFault k va acc = .ok k') :
    ∃ r k₁, Installs .slice (fun p => if p.textRange (pgRoundDown va) then permURX else permUR)
      (recordExec (pgRoundDown va)) k.countFault (pgRoundDown va) r k₁ ∧ pgRoundDown va < maxVA ∧
      k' = settle r k₁ := by
  have hw' : wants k.countFault va acc = some .slice := (wants_countFault k va acc).trans hw
  cases usertrap_cases ht with
  | killed hno _ => simp [hno] at hw'
  | noted _ hno _ _ _ => simp [hno] at hw'
  | granted _ _ hno _ _ _ _ _ _ _ => simp [hno] at hw'
  | anon swapped _ _ _ hw₂ _ _ =>
    rw [hw'] at hw₂
    cases swapped <;> simp at hw₂
  | exec r k₁ hmax _ hi hk' => exact ⟨r, k₁, hi, hmax, hk'⟩

/--
**A first load from a page of the executable** returns a byte of the file, if it
returns; with memory to spare it does.
-/
theorem loadByte_slice {pg : Page} (h : SpaceOk C U S k.kmem k.p) (hlive : k.p.killed = false)
    (hva : va < trapframeVA) (hv : (k.p.pagetable.pte va).v = false)
    (hw : wants k va .read = some .slice) (hpage : k.p.slicePage (pgRoundDown va) = some pg) :
    (∀ b, loadByte k va = some b → b = pg (pgOff va)) ∧
      (k.kmem.Plentiful → loadByte k va = some (pg (pgOff va))) := by
  have hal := pgRoundDown_mod va
  have h₀ : SpaceOk C U S k.countFault.kmem k.countFault.p := h.same ⟨rfl, rfl⟩ h.mem
  have hpage₀ : k.p.pagetable.pte (pgRoundDown va) = k.p.pagetable.pte va :=
    pte_congr _ (pgRoundDown_div va)
  obtain ⟨k', ht⟩ := usertrap_total .read h hva fun _ => by rw [hpage₀]; exact hv
  obtain ⟨r, k₁, hi, hmax, hk'⟩ := usertrap_slice hw ht
  have hload : loadByte k va = loadedByte (step k' (.access .read va 0)) := by
    rw [loadByte, step_load_fault hlive hv ht]
    rfl
  rw [hload]
  cases r with
  | none =>
    have hdead : k'.p.killed = true := by rw [hk']; rfl
    rw [step_killed hdead]
    refine ⟨fun b hb => by simp [loadedByte] at hb, fun hp => ?_⟩
    obtain ⟨hsome, _⟩ := hi.available (kallocs_plentiful 3 h₀.vm.ok hp) h₀ hal hmax fun km f => by
      have hsl : (k.countFault.p.slicePage (pgRoundDown va)).isSome = true := by
        rw [show k.countFault.p.slicePage (pgRoundDown va) = k.p.slicePage (pgRoundDown va) from
          slicePage_of_image rfl _, hpage]
        rfl
      exact hsl
    simp at hsome
  | some f =>
    obtain ⟨k₂, pg', p, ht₂, hfill, hshown⟩ :=
      (hi.contents (recording_exec hal) h₀ hal hmax hva).2 f rfl
    have himage := (tryKalloc_room h₀.mem ht₂).image
    have hpg : pg' = pg := by
      have hsl : k₂.p.slicePage (pgRoundDown va) = some pg' := congrArg Prod.fst hfill
      rw [slicePage_of_image himage,
        show k.countFault.p.slicePage (pgRoundDown va) = k.p.slicePage (pgRoundDown va) from
          slicePage_of_image rfl _, hpage] at hsl
      exact (Option.some.inj hsl).symm
    have hstate : k' = k₁ := by rw [hk']; rfl
    have hlive₁ : k₁.p.killed = false :=
      (hi.killed (fun p => recordExec_killed p _) h₀.mem).trans hlive
    obtain ⟨hpte, hram⟩ := hshown (pgRoundDown_div va).symm
    have hgot := step_load hlive₁ (lt_maxVA hva) hpte (by split <;> rfl) (by split <;> rfl)
    rw [hstate, hgot, hram, hpg]
    exact ⟨fun b hb => (Option.some.inj hb).symm, fun _ => rfl⟩

/-- One byte through `copyin`, from a page that is not mapped. -/
theorem copyin_byte {out : Option Nat × Kernel} (hva : va < trapframeVA)
    (hv : (k.p.pagetable.pte (pgRoundDown va)).v = false)
    (hf : vmfault k (pgRoundDown va) = .ok out) :
    copyin k va 1 = .ok (out.1.isSome,
      (out.1.map fun f => out.2.kmem.ram f (pgOff va)).toList, out.2) := by
  have hle : pgRoundDown va < maxVA := lt_maxVA (Nat.lt_of_le_of_lt (pgRoundDown_le va) hva)
  have hwalk : walkaddr k.p.pagetable (pgRoundDown va) = none := by
    unfold walkaddr
    rw [if_neg (Nat.not_le.mpr hle)]
    simp [hv]
  have hframe : userFrame k (pgRoundDown va) = .ok out := by
    unfold userFrame
    rw [if_neg (Nat.not_le.mpr hle), hwalk]
    exact hf
  have hoff : pgOff (va - pgRoundDown va) = pgOff va := by
    unfold pgOff pgRoundDown
    apply Fin.ext
    show (va - va / 4096 * 4096) % 4096 = va % 4096
    omega
  have hlt := lt_pgRoundDown_add va
  obtain ⟨r, k'⟩ := out
  unfold copyin
  rw [copyinLoop, if_neg (by decide)]
  dsimp only
  rw [hframe, ok_bind]
  cases r with
  | none => rfl
  | some f =>
    dsimp only
    rw [show min (4096 - (va - pgRoundDown va)) 1 = 1 by omega, copyinLoop]
    simp [Page.read, hoff]

/-- **The same through `copyin`.** -/
theorem copyin_slice {pg : Page} (h : SpaceOk C U S k.kmem k.p) (hva : va < trapframeVA)
    (hv : (k.p.pagetable.pte va).v = false) (hw : vmWants k (pgRoundDown va) = some .slice)
    (hpage : k.p.slicePage (pgRoundDown va) = some pg) :
    (∀ bytes k', copyin k va 1 = .ok (true, bytes, k') → bytes = [pg (pgOff va)]) ∧
      (k.kmem.Plentiful → ∃ k', copyin k va 1 = .ok (true, [pg (pgOff va)], k')) := by
  have hal := pgRoundDown_mod va
  have hle : pgRoundDown va < trapframeVA := Nat.lt_of_le_of_lt (pgRoundDown_le va) hva
  have hv₀ : (k.p.pagetable.pte (pgRoundDown va)).v = false := by
    rw [pte_congr _ (pgRoundDown_div va)]
    exact hv
  obtain ⟨⟨r, k'⟩, hf⟩ := vmfault_total h hle
  have hi : Installs .slice (fun _ => vmPerm k.p (pgRoundDown va)) (fun p => p) k (pgRoundDown va)
      r k' := by
    have hcases := vmfault_cases hf
    rw [pgRoundDown_pgRoundDown, hw] at hcases
    rcases hcases with ⟨hno, _⟩ | ⟨src, _, hsrc, hi⟩
    · simp at hno
    · cases hsrc
      exact hi
  rw [copyin_byte hva hv₀ hf]
  cases r with
  | none =>
    refine ⟨fun bytes k₁ hc => by simp at hc, fun hp => ?_⟩
    obtain ⟨hsome, _⟩ := hi.available (kallocs_plentiful 3 h.vm.ok hp) h hal (lt_maxVA hle)
        fun km f => by
      show (k.p.slicePage (pgRoundDown va)).isSome = true
      rw [hpage]
      rfl
    simp at hsome
  | some f =>
    obtain ⟨k₂, pg', p, ht₂, hfill, hshown⟩ :=
      (hi.contents recording_none h hal (lt_maxVA hle) hva).2 f rfl
    have hpg : pg' = pg := by
      have hsl : k₂.p.slicePage (pgRoundDown va) = some pg' := congrArg Prod.fst hfill
      rw [slicePage_of_image (tryKalloc_room h.mem ht₂).image, hpage] at hsl
      exact (Option.some.inj hsl).symm
    obtain ⟨_, hram⟩ := hshown (pgRoundDown_div va).symm
    simp only [Option.isSome_some, Option.map_some, Option.toList_some, hram, hpg]
    refine ⟨fun bytes k₁ hc => ?_, fun _ => ⟨k', rfl⟩⟩
    simp only [Except.ok.injEq, Prod.mk.injEq, true_and] at hc
    exact hc.1.symm

/-! ## What the records give -/

/-- The byte loading every segment at exec time would have put at offset `i` of a segment. -/
def eagerByte (file : Inode) (ph : ProgHdr) (i : Nat) : UInt8 :=
  if i < ph.filesz then file.data (ph.off + i) else 0

theorem eagerByte_congr {ip : Inode}
    (h : ∀ j, j < ph.filesz → ip.data (ph.off + j) = file.data (ph.off + j)) (i : Nat) :
    eagerByte ip ph i = eagerByte file ph i := by
  unfold eagerByte
  split
  · exact h i ‹_›
  · rfl

/-- A page built from a record that lies inside the file. -/
theorem slicePage_record {va0 : Nat} (hip : p.execIp = some file)
    (hoff : p.sliceOff va0 = segOff start off va0)
    (hsz : p.sliceFilesz va0 = segFilesz start filesz va0) (hle : start ≤ va0) (hva : va0 < 2 ^ 64)
    (hin : off + filesz ≤ file.size) (hsmall : off + filesz < 2 ^ 32) :
    ∃ pg, p.slicePage va0 = some pg ∧ ∀ j : Fin 4096, pg j =
      if va0 - start + j.val < filesz then file.data (off + (va0 - start + j.val)) else 0 := by
  have hsub : sub64 va0 start = va0 - start := by unfold sub64; omega
  have hn : segFilesz start filesz va0 = min 4096 (filesz - (va0 - start)) := by
    unfold segFilesz
    rw [hsub]
    dsimp only
    split <;> split <;> omega
  unfold Proc.slicePage
  dsimp only
  rw [hip, hsz, hoff, hn]
  dsimp only
  by_cases hpos : 0 < min 4096 (filesz - (va0 - start))
  · rw [if_pos hpos]
    have hseg : segOff start off va0 = off + (va0 - start) := by
      unfold segOff
      rw [hsub]
      exact toUint_eq (by omega)
    have hread : file.readable (off + (va0 - start)) (min 4096 (filesz - (va0 - start))) =
        min 4096 (filesz - (va0 - start)) := readable_all (by omega) (by omega)
    rw [hseg]
    unfold readi
    dsimp only
    rw [hread]
    refine ⟨_, if_neg (by omega), fun j => ?_⟩
    have hj := j.isLt
    by_cases hjn : j.val < min 4096 (filesz - (va0 - start))
    · rw [if_pos hjn, if_pos (by omega)]
      congr 1
      omega
    · rw [if_neg hjn, if_neg (by omega)]
      rfl
  · rw [if_neg hpos]
    refine ⟨_, rfl, fun j => ?_⟩
    rw [if_neg (by omega)]
    rfl

/-- What `kexec` needs of a file to keep track of all of it. -/
structure OneOfEach (file : Inode) : Prop where
  /-- At most one text segment and at most one data segment. -/
  kinds : ∀ kind, ((segments file).filter fun ph => isText ph == kind).length ≤ 1
  /-- Rounding the end of the image up to a page does not wrap around. -/
  noWrap : ∀ ph ∈ segments file, ph.vaddr + ph.memsz + 4096 ≤ 2 ^ 64

/-- Two segments do not overlap. -/
def ApartFrom (a b : ProgHdr) : Prop :=
  a.vaddr + a.memsz ≤ b.vaddr ∨ b.vaddr + b.memsz ≤ a.vaddr

instance : Std.Symm ApartFrom := ⟨fun _ _ h => h.symm⟩

instance (a b : ProgHdr) : Decidable (ApartFrom a b) :=
  inferInstanceAs (Decidable (a.vaddr + a.memsz ≤ b.vaddr ∨ b.vaddr + b.memsz ≤ a.vaddr))

/-- The segments do not overlap, and the file has all their bytes. -/
structure WellFormed (file : Inode) : Prop where
  size : file.size < 2 ^ 32
  apart : (segments file).Pairwise ApartFrom
  inside : ∀ ph ∈ segments file, ph.off + ph.filesz ≤ file.size

theorem fold_sz_le {B : Nat} : ∀ {hs : List ProgHdr} {l : Layout}, l.sz ≤ B →
    (∀ ph ∈ hs, add64 ph.vaddr ph.memsz ≤ B) → (hs.foldl Layout.addSegment l).sz ≤ B := by
  intro hs
  induction hs with
  | nil => intro l hl _; exact hl
  | cons a hs ih =>
    intro l hl hall
    refine ih ?_ fun ph hph => hall ph (List.mem_cons_of_mem a hph)
    have ha := hall a List.mem_cons_self
    unfold Layout.addSegment
    dsimp only
    split <;> split <;> assumption

/-! ## A page that has not been touched -/

/-- Reading the byte at `va`, by the process or for it, gives `b`. -/
structure FirstReads (k : Kernel) (va : Nat) (b : UInt8) : Prop where
  load : ∀ c, loadByte k va = some c → c = b
  copy : ∀ bytes k', copyin k va 1 = .ok (true, bytes, k') → bytes = [b]
  /-- As long as there is memory the read goes through. -/
  total : k.kmem.Plentiful → loadByte k va = some b ∧ ∃ k', copyin k va 1 = .ok (true, [b], k')

/-- The records of a process say where the segment `ph` is. -/
structure Serves (ph : ProgHdr) (p : Proc) : Prop where
  record : procRecord p (isText ph) = ⟨ph.vaddr, ph.vaddr + ph.memsz, ph.off, ph.filesz⟩
  guard : ∀ x, x < ph.vaddr + ph.memsz → p.inGuard x = false
  /-- A data page is not taken for a text page. -/
  data : isText ph = false → ∀ x, ph.vaddr ≤ x → x < ph.vaddr + ph.memsz → p.textRange x = false

/-- A page of the process that neither memory nor the swap file has. -/
def Absent (p : Proc) (va : Nat) : Prop :=
  (p.pagetable.pte va).v = false ∧ wasSwapped p.memstat (toUint (pgRoundDown va)) = false

theorem procRecord_true (h : procRecord p true = ⟨start, fin, off, filesz⟩) :
    p.textStart = start ∧ p.textEnd = fin ∧ p.textOff = off ∧ p.textFilesz = filesz := by
  simpa [procRecord] using h

theorem procRecord_false (h : procRecord p false = ⟨start, fin, off, filesz⟩) :
    p.dataStart = start ∧ p.dataEnd = fin ∧ p.dataOff = off ∧ p.dataFilesz = filesz := by
  simpa [procRecord] using h

/-- A page in the range of a segment is filled from the record of the segment. -/
theorem slice_of_record {kind : Bool} (hrec : procRecord p kind = ⟨start, fin, off, filesz⟩)
    (hlo : start ≤ x) (hhi : x < fin) (hdata : kind = false → p.textRange x = false) :
    p.sliceOff x = segOff start off x ∧ p.sliceFilesz x = segFilesz start filesz x ∧
      (p.textRange x || p.dataRange x) = true := by
  cases kind with
  | true =>
    obtain ⟨h1, h2, h3, h4⟩ := procRecord_true hrec
    have ht : p.textRange x = true := by
      simp only [Proc.textRange, h1, h2, Bool.and_eq_true, decide_eq_true_eq]
      exact ⟨hlo, hhi⟩
    simp only [Proc.sliceOff, Proc.sliceFilesz, ht, if_true, h1, h3, h4, Bool.true_or, and_self]
  | false =>
    obtain ⟨h1, h2, h3, h4⟩ := procRecord_false hrec
    have ht : p.textRange x = false := hdata rfl
    have hd : p.dataRange x = true := by
      simp only [Proc.dataRange, h1, h2, Bool.and_eq_true, decide_eq_true_eq]
      exact ⟨hlo, hhi⟩
    simp only [Proc.sliceOff, Proc.sliceFilesz, ht, hd, h1, h3, h4, Bool.false_eq_true, if_false,
      Bool.or_true, and_self]

section

variable {ph : ProgHdr} {p : Proc} (h : Serves ph p)

include h

/-- Its pages are filled from the segment. -/
theorem Serves.slice (hlo : ph.vaddr ≤ x) (hhi : x < ph.vaddr + ph.memsz) :
    p.sliceOff x = segOff ph.vaddr ph.off x ∧ p.sliceFilesz x = segFilesz ph.vaddr ph.filesz x ∧
      (p.textRange x || p.dataRange x) = true :=
  slice_of_record h.record hlo hhi fun hkind => h.data hkind x hlo hhi

theorem Serves.inSegment (hlo : ph.vaddr ≤ x) (hhi : x < ph.vaddr + ph.memsz) (hbrk : x < p.sz) :
    (p.inText x || p.inData x) = true := by
  have hr := (h.slice hlo hhi).2.2
  simp only [Proc.inText, Proc.inData, Proc.underBrk, decide_eq_true hbrk, Bool.true_and]
  exact hr

end

/-- **A page of a segment on record is read as the file has it now**, if it is not there yet. -/
theorem Serves.firstReads {i : Nat} (h : Serves ph k.p) (hip : k.p.execIp = some file)
    (hs : SpaceOk C U S k.kmem k.p) (hlive : k.p.killed = false) (hal : ph.vaddr % 4096 = 0)
    (hin : ph.off + ph.filesz ≤ file.size) (hsize : file.size < 2 ^ 32) (hi : i < ph.memsz)
    (hbrk : ph.vaddr + i < k.p.sz) (habs : Absent k.p (ph.vaddr + i)) :
    FirstReads k (ph.vaddr + i) (eagerByte file ph i) := by
  obtain ⟨va, hva⟩ : ∃ va, va = ph.vaddr + i := ⟨_, rfl⟩
  rw [← hva] at hbrk habs ⊢
  obtain ⟨hv, hsw⟩ := habs
  have hle : pgRoundDown va ≤ va := pgRoundDown_le va
  have hlo : ph.vaddr ≤ pgRoundDown va := by unfold pgRoundDown; omega
  have hhi : pgRoundDown va < ph.vaddr + ph.memsz := by omega
  have hlow : va < trapframeVA := Nat.lt_of_lt_of_le hbrk hs.brk
  have hv₀ : (k.p.pagetable.pte (pgRoundDown va)).v = false := by
    rw [pte_congr _ (pgRoundDown_div va)]; exact hv
  obtain ⟨hoff, hsz, _⟩ := h.slice hlo hhi
  have h64 : pgRoundDown va < 2 ^ 64 := by
    have := trapframeVA_eq
    omega
  obtain ⟨pg, hpage, hbytes⟩ := slicePage_record hip hoff hsz hlo h64 hin (by omega)
  have hbyte : pg (pgOff va) = eagerByte file ph i := by
    have hpos : pgRoundDown va - ph.vaddr + (pgOff va).val = i := by
      have : (pgOff va).val = va % 4096 := rfl
      unfold pgRoundDown at hlo ⊢
      omega
    rw [hbytes, hpos, eagerByte]
  have hwalk : walkaddr k.p.pagetable (pgRoundDown va) = none := by
    rcases hw : walkaddr k.p.pagetable (pgRoundDown va) with _ | f
    · rfl
    · exact absurd (walkaddr_some hw).2.1 (by simp [hv₀])
  have hw : wants k va .read = some .slice := by
    have hc : k.p.cause va .read = some .exec := by
      simp only [Proc.cause, h.guard va (by omega), hsw, h.inSegment (by omega) (by omega) hbrk,
        Bool.false_eq_true, if_false, if_true]
    rw [wants, hc]
    exact wantsFor_exec (by simp) hwalk
  have hvm : vmWants k (pgRoundDown va) = some .slice := by
    have hseg := h.inSegment hlo hhi (by omega)
    rw [Bool.or_eq_true] at hseg
    simp only [vmWants, h.guard _ hhi, hv₀, Bool.false_eq_true, or_self, if_false, hseg, if_true]
  obtain ⟨hload, hloads⟩ := loadByte_slice hs hlive hlow hv hw hpage
  obtain ⟨hcopy, hcopies⟩ := copyin_slice hs hlow hv hvm hpage
  rw [hbyte] at hload hloads hcopy hcopies
  exact ⟨hload, hcopy, fun hp => ⟨hloads hp, hcopies hp⟩⟩

/-! ## The records of a new image -/

theorem argBytes_pos (argv : List (List UInt8)) : 0 < argBytes argv := by
  have : 0 < pushed ((argv.length + 1) * 8) := by unfold pushed; omega
  unfold argBytes
  omega

theorem accepted_facts (h : ph.accepted = true) :
    ph.filesz ≤ ph.memsz ∧ ph.vaddr ≤ add64 ph.vaddr ph.memsz ∧ ph.vaddr % 4096 = 0 := by
  simp only [ProgHdr.accepted, Bool.and_eq_true, decide_eq_true_eq, beq_iff_eq] at h
  omega

/-- **A new image has every segment on record**, if the file has at most one of each kind. -/
theorem NewImage.serves {argv : List (List UInt8)} {l : Layout} (h : NewImage file argv l k k')
    (hone : OneOfEach file) (hwf : WellFormed file) (hargs : argBytes argv < 4096)
    (hph : ph ∈ segments file) :
    Serves ph k'.p ∧ ph.vaddr + ph.memsz ≤ pgRoundUp l.sz := by
  have hfin : ∀ x ∈ segments file, add64 x.vaddr x.memsz = x.vaddr + x.memsz := fun x hx => by
    have := hone.noWrap x hx
    unfold add64
    omega
  have hrecord : ∀ x ∈ segments file, procRecord k'.p (isText x) =
      ⟨x.vaddr, x.vaddr + x.memsz, x.off, x.filesz⟩ := fun x hx => by
    have hin := hwf.inside x hx
    have hsz := hwf.size
    rw [h.record, h.layout, recordOf_fold_one hx rfl (hone.kinds _) (by cases isText x <;> rfl),
      hfin x hx, toUint_eq (by omega), toUint_eq (by omega)]
  have hsz : l.sz + 4096 ≤ 2 ^ 64 := by
    have : l.sz ≤ 2 ^ 64 - 4096 := by
      rw [h.layout]
      refine fold_sz_le (Nat.zero_le _) fun x hx => ?_
      have := hone.noWrap x hx
      rw [hfin x hx]
      omega
    omega
  have hend : ph.vaddr + ph.memsz ≤ pgRoundUp l.sz := by
    have hle := (fold_sz (l := Layout.empty)).2 ph hph
    rw [← h.layout, hfin ph hph] at hle
    unfold pgRoundUp add64
    omega
  refine ⟨⟨hrecord ph hph, fun x hx => ?_, fun hdata x hlo hhi => ?_⟩, hend⟩
  · have htop := h.stackTop
    have hpos := argBytes_pos argv
    have hmod := pgRoundUp_mod l.sz
    have hbound := h.bound
    have hguard : k'.p.stackGuard = pgRoundUp l.sz := by
      have hst : pgRoundUp k'.p.stackTop = pgRoundUp l.sz + 8192 := by
        have hsz' := h.sz
        have := trapframeVA_eq
        rw [pgRoundUp_eq (by omega)]
        omega
      rw [Proc.stackGuard, Proc.stackEnd, hst]
      rw [trapframeVA_eq] at hbound
      unfold sub64 userStack
      omega
    simp only [Proc.inGuard, hguard, Bool.and_eq_false_iff, decide_eq_false_iff_not]
    omega
  · by_cases htext : ∃ t ∈ segments file, isText t = true
    · obtain ⟨t, ht, hkind⟩ := htext
      have hrec := hrecord t ht
      rw [hkind] at hrec
      obtain ⟨h1, h2, _, _⟩ := procRecord_true hrec
      have hne : ph ≠ t := fun he => by rw [he, hkind] at hdata; simp at hdata
      have hap : ApartFrom ph t := hwf.apart.forall hph ht hne
      unfold ApartFrom at hap
      simp only [Proc.textRange, h1, h2, Bool.and_eq_false_iff, decide_eq_false_iff_not]
      omega
    · have hrec := h.record true
      rw [h.layout, recordOf_fold_none fun x hx he => htext ⟨x, hx, he⟩] at hrec
      have h2 : k'.p.textEnd = 0 := (procRecord_true hrec).2.1
      simp only [Proc.textRange, h2, Bool.and_eq_false_iff, decide_eq_false_iff_not]
      omega

/-! ## As long as the image lasts -/

/-- The image, but for what `sys_sbrk`, `kfork` and other processes change of it. -/
def program (p : Proc) : Image := { p.image with trapframe := 0, sz := 0, execIp := none }

theorem program_of_image (h : q.image = p.image) : program q = program p := by
  rw [program, program, h]

theorem Serves.of_program (hs : Serves ph p) (h : program q = program p) : Serves ph q := by
  have hrec : ∀ kind, procRecord q kind = procRecord p kind := fun kind => by
    cases kind with
    | true => exact congrArg (fun im : Image =>
      (⟨im.textStart, im.textEnd, im.textOff, im.textFilesz⟩ : Record)) h
    | false => exact congrArg (fun im : Image =>
      (⟨im.dataStart, im.dataEnd, im.dataOff, im.dataFilesz⟩ : Record)) h
  have htop : q.stackTop = p.stackTop := congrArg Image.stackTop h
  refine ⟨(hrec _).trans hs.record, fun x hx => ?_, fun hd x hlo hhi => ?_⟩
  · rw [← hs.guard x hx]
    unfold Proc.inGuard Proc.stackGuard Proc.stackBase Proc.stackEnd
    rw [htop]
  · rw [← hs.data hd x hlo hhi]
    exact congrArg (fun im : Image => decide (im.textStart ≤ x) && decide (x < im.textEnd)) h

theorem Brk.program (hb : Brk k k') : program k'.p = program k.p := by
  cases hb with
  | same hk' => rw [hk']
  | lazily sz _ _ hk' => rw [hk']; rfl
  | failed _ _ _ _ _ hk' => rw [hk']; rfl
  | grew _ _ _ _ _ _ _ hk' => rw [hk']; rfl
  | shrank _ _ _ _ _ hk' => rw [hk']; rfl

theorem Forks.program (hf : Forks k (some q) k') :
    program q = program k.p := by
  cases hf with
  | noSlot hnp _ | noProc _ _ hnp _ | undone _ _ _ _ _ _ _ _ hnp _ => cases hnp
  | made q₀ _ _ _ _ _ hnp _ => cases hnp; rfl

/-- A failed `kexec` leaves the process as it was. -/
theorem Execs.failed {path : List UInt8} {ip : Option Inode} {argv : List (List UInt8)} {r : Int}
    (he : Execs k path ip argv r k') (hr : r < 0) :
    k'.p = k.p := by
  cases he with
  | missing _ _ hk' => rw [hk']
  | starved _ _ _ _ _ _ _ _ _ _ hk' => rw [hk']
  | undone _ _ _ _ _ _ _ _ _ _ _ hk' => rw [hk']
  | done _ _ _ _ _ _ _ _ _ ustack _ _ _ _ _ _ _ _ _ _ hr' _ => omega

/-- No successful `kexec`. -/
def Stays (op : Op) (o : Out) : Prop :=
  ∀ path ip argv r, op = .exec path ip argv → o = .ret r → r < 0

/-- The states a process can get to in the image it has in `k`. -/
inductive InImage (k : Kernel) : Kernel → Prop where
  | refl : InImage k k
  | step {k₁ k₂ : Kernel} {op : Op} {o : Out} : InImage k k₁ → step k₁ op = .ok (o, k₂) →
      Stays op o → InImage k k₂

theorem Copies.program (hc : Copies k k') (hm : SpaceInv False k) :
    program k'.p = program k.p := by
  have hkept : SpaceInv False k' ∧ Xv6Paging.Proof.program k'.p = Xv6Paging.Proof.program k.p := by
    refine hc.keeps (P := fun q => SpaceInv False q ∧
      Xv6Paging.Proof.program q.p = Xv6Paging.Proof.program k.p) ?_ ?_ ⟨hm, rfl⟩
    · rintro k₁ va r k₂ ⟨⟨S, hs⟩, hp⟩ hu
      exact ⟨⟨S, userFrame_spaceOk hs hu⟩, (program_of_image (userFrame_image hu hs.mem)).trans hp⟩
    · rintro k₁ f ofs bytes ⟨⟨S, hs⟩, hp⟩
      exact ⟨⟨S, hs.fill _ _⟩, hp⟩
  exact hkept.2

/-- **A step that stays in the image** keeps what it has on record. -/
theorem step_program {op : Op} {o : Out} (hm : SpaceInv False k) (h : step k op = .ok (o, k'))
    (hstay : Stays op o) : program k'.p = program k.p := by
  cases step_cases h with
  | loaded => rfl
  | stored => rfl
  | fault ht =>
    obtain ⟨S, hs⟩ := hm
    exact program_of_image ((usertrap_cases ht).image hs.mem)
  | sbrk hb => exact (sysSbrk_cases hb).program
  | copyin hc | copyout hc | copyinstr hc => exact (hc.program hm)
  | exec he =>
    exact congrArg Xv6Paging.Proof.program ((kexec_cases he).failed (hstay _ _ _ _ rfl rfl))
  | parent hf _ => exact congrArg Xv6Paging.Proof.program (kfork_cases hf).parent
  | child hf => exact (kfork_cases hf).program
  | rewrite => rfl

theorem InImage.program (h : InImage k k') (hr : Reachable k) :
    Reachable k' ∧ program k'.p = program k.p := by
  induction h with
  | refl => exact ⟨hr, rfl⟩
  | step _ hs hstay ih =>
    obtain ⟨hr₁, hp⟩ := ih
    exact ⟨.step hr₁ trivial hs, (step_program (reachable_spaceInv hr₁) hs hstay).trans hp⟩

/-! ## Lazy loading is eager loading -/

/-- A byte of a segment that can still be loaded: under the break, and not there yet. -/
structure Unread (k k' : Kernel) (ip : Inode) (ph : ProgHdr) (i : Nat) : Prop where
  image : InImage k k'
  live : k'.p.killed = false
  /-- What the executable holds by now, which has all of the segment. -/
  file : k'.p.execIp = some ip
  size : ip.size < 2 ^ 32
  inside : ph.off + ph.filesz ≤ ip.size
  memsz : i < ph.memsz
  brk : ph.vaddr + i < k'.p.sz
  absent : Absent k'.p (ph.vaddr + i)

/-- Every byte of every segment of `file` first reads as if it had been loaded before. -/
structure LoadsLike (file : Inode) (k : Kernel) : Prop where
  first : ∀ ph ∈ segments file, ∀ i, i < ph.memsz →
    FirstReads k (ph.vaddr + i) (eagerByte file ph i)
  /-- Also later on, if nobody has changed the bytes of the segment in the file. -/
  later : ∀ k' ip, ∀ ph ∈ segments file, ∀ i, Unread k k' ip ph i →
    (∀ j, j < ph.filesz → ip.data (ph.off + j) = file.data (ph.off + j)) →
    FirstReads k' (ph.vaddr + i) (eagerByte file ph i)
  /-- A change shows: the byte is read as the file has it by then. -/
  changed : ∀ k' ip, ∀ ph ∈ segments file, ∀ i, Unread k k' ip ph i →
    FirstReads k' (ph.vaddr + i) (eagerByte ip ph i)

/-- The old image has no page of a segment of `file` in the swap file. -/
def NoneOut (file : Inode) (p : Proc) : Prop :=
  ∀ ph ∈ segments file, ∀ i, i < ph.memsz →
    wasSwapped p.memstat (toUint (pgRoundDown (ph.vaddr + i))) = false

/-- What an `exec` returned, and what `f` finds in the new image. -/
def execThen {β : Type} (f : Kernel → β) : Except Halt (Out × Kernel) → Option (Int × β)
  | .ok (.ret r, k) => some (r, f k)
  | _ => none

theorem execThen_some {β : Type} {f : Kernel → β} {out : Except Halt (Out × Kernel)}
    {r : Int} {b : β} (h : execThen f out = some (r, b)) :
    ∃ k, out = .ok (.ret r, k) ∧ f k = b := by
  unfold execThen at h
  split at h
  · rename_i r₁ k
    simp only [Option.some.injEq, Prod.mk.injEq] at h
    exact ⟨k, by rw [h.1], h.2⟩
  · simp at h

theorem wellFormed_of_segments {hs : List ProgHdr} (h : segments file = hs)
    (hsize : file.size < 2 ^ 32) (hap : hs.Pairwise ApartFrom)
    (hin : ∀ ph ∈ hs, ph.off + ph.filesz ≤ file.size) : WellFormed file :=
  ⟨hsize, h ▸ hap, h ▸ hin⟩

/-- Two data segments: the first has its start at 0, which the second takes for no start at all. -/
def twoData : Inode :=
  fileOf (elfHeader 2 ++ loadHeader 6 176 0 2 2 ++ loadHeader 6 178 4096 2 2 ++ [7, 8, 9, 10])

end Xv6Paging.Proof
