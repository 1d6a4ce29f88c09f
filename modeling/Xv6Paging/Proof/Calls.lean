import Xv6Paging.Proof.Faults
import Xv6Paging.Kernel.System

/-!
# What a system call can do

One lemma per call: the ways it can return, and the kernel it leaves in each. What
the page-table functions inside did is kept as an equation, so that each argument
can use the specification it needs.
-/

namespace Xv6Paging.Proof

open Xv6Paging Lib

variable {k k' : Kernel} {pt : PageTable} {r : Int} {km : Kmem}

/-! ## `sys_sbrk` -/

/-- Everything `sys_sbrk` can do. -/
inductive Brk (k k' : Kernel) : Prop where
  | same : k' = k → Brk k k'
  /-- A lazy call moves the break and nothing else. -/
  | lazily (sz : Nat) : k.p.sz ≤ sz → sz ≤ trapframeVA →
      k' = { k with p := { k.p with sz := sz } } → Brk k k'
  | failed (newsz : Nat) (km : Kmem) (pt : PageTable) : newsz ≤ trapframeVA →
      uvmalloc k.kmem k.p.pagetable k.p.sz newsz = .ok (0, km, pt) →
      k' = { k with kmem := km, p := { k.p with pagetable := pt } } → Brk k k'
  | grew (newsz sz : Nat) (km : Kmem) (pt : PageTable) : newsz ≤ trapframeVA → sz ≠ 0 →
      uvmalloc k.kmem k.p.pagetable k.p.sz newsz = .ok (sz, km, pt) →
      k' = { k with kmem := km, p := { k.p with pagetable := pt, sz := sz } } → Brk k k'
  | shrank (newsz sz : Nat) (km : Kmem) (pt : PageTable) :
      uvmdealloc k.kmem k.p.pagetable k.p.sz newsz = .ok (sz, km, pt) →
      k' = { k with kmem := km, p := { k.p with pagetable := pt, sz := sz } } → Brk k k'

theorem growproc_cases {n : Int} {ok : Bool} (h : growproc k n = .ok (ok, k')) :
    Brk k k' := by
  unfold growproc at h
  dsimp only at h
  split at h
  · split at h
    · cases h
      exact .same rfl
    · rename_i hle
      obtain ⟨⟨sz, km, pt⟩, hu, hrest⟩ := bind_eq_ok.mp h
      dsimp only at hrest
      split at hrest
      · rename_i hz
        rw [hz] at hu
        cases hrest
        exact .failed _ km pt (Nat.le_of_not_lt hle) hu rfl
      · rename_i hz
        cases hrest
        exact .grew _ sz km pt (Nat.le_of_not_lt hle) hz hu rfl
  · split at h
    · obtain ⟨⟨sz, km, pt⟩, hu, hrest⟩ := bind_eq_ok.mp h
      cases hrest
      exact .shrank _ sz km pt hu rfl
    · cases h
      exact .same rfl

theorem sysSbrk_cases {a b : Int} {r : Option Nat} (h : sysSbrk k a b = .ok (r, k')) :
    Brk k k' := by
  unfold sysSbrk at h
  dsimp only at h
  split at h
  · obtain ⟨⟨ok, k₁⟩, hg, hrest⟩ := bind_eq_ok.mp h
    cases hrest
    exact growproc_cases hg
  · split at h
    · cases h
      exact .same rfl
    · rename_i hle
      split at h
      · cases h
        exact .same rfl
      · rename_i htop
        cases h
        exact .lazily _ (Nat.le_of_not_lt hle) (Nat.le_of_not_lt htop) rfl

/-! ## `allocproc` and `kfork` -/

/-- Everything `allocproc` can do with an unused slot. -/
inductive Allocs (km : Kmem) (pid : Nat) : Option Proc → Kmem → Prop where
  | starved {km₁ : Kmem} : kalloc km = (none, km₁) → Allocs km pid none km₁
  | undone {tf : Nat} {km₁ km₂ : Kmem} : kalloc km = (some tf, km₁) →
      procPagetable km₁ tf = .ok (none, km₂) → Allocs km pid none (kfree km₂ tf)
  | made {tf : Nat} {km₁ km₂ : Kmem} {pt : PageTable} : kalloc km = (some tf, km₁) →
      procPagetable km₁ tf = .ok (some pt, km₂) → Allocs km pid (some (freshProc pid tf pt)) km₂

theorem allocproc_cases {km' : Kmem} {pid : Nat} {r : Option Proc}
    (h : allocproc km pid = .ok (r, km')) : Allocs km pid r km' := by
  unfold allocproc at h
  rcases hk : kalloc km with ⟨_ | tf, km₁⟩
  · rw [hk] at h
    cases h
    exact .starved hk
  · rw [hk] at h
    obtain ⟨⟨pt, km₂⟩, hp, hrest⟩ := bind_eq_ok.mp h
    cases pt with
    | none =>
      cases hrest
      exact .undone hk hp
    | some pt =>
      cases hrest
      exact .made hk hp

/-- Everything `kfork` can do; `np` is the child. -/
inductive Forks (k : Kernel) (np : Option Proc) (k' : Kernel) : Prop where
  | noSlot : np = none → k' = k → Forks k np k'
  | noProc (km : Kmem) : allocproc k.kmem k.nextpid = .ok (none, km) → np = none →
      k' = { k with kmem := km, nextpid := k.nextpid + 1 } → Forks k np k'
  | undone (q : Proc) (km km₁ km₂ : Kmem) (pt : PageTable) :
      allocproc k.kmem k.nextpid = .ok (some q, km) →
      uvmcopy km k.p.pagetable q.pagetable k.p.sz = .ok (false, km₁, pt) →
      procFreepagetable (kfree km₁ q.trapframe) pt q.sz = .ok km₂ → np = none →
      k' = { k with kmem := km₂, nextpid := k.nextpid + 1 } → Forks k np k'
  | made (q : Proc) (km km₁ : Kmem) (pt : PageTable) :
      allocproc k.kmem k.nextpid = .ok (some q, km) →
      uvmcopy km k.p.pagetable q.pagetable k.p.sz = .ok (true, km₁, pt) →
      np = some ({ q with pagetable := pt }.inherit k.p) →
      k' = { k with kmem := km₁, nextpid := k.nextpid + 1 } → Forks k np k'

/-- The parent is as it was. -/
theorem Forks.parent {np : Option Proc} (hf : Forks k np k') : k'.p = k.p := by
  cases hf with
  | noSlot _ hk' | noProc _ _ _ hk' | undone _ _ _ _ _ _ _ _ _ hk' | made _ _ _ _ _ _ _ hk' =>
    rw [hk']

theorem kfork_cases {slot : Bool} {np : Option Proc} (h : kfork k slot = .ok (np, k')) :
    Forks k np k' := by
  unfold kfork at h
  split at h
  · cases h
    exact .noSlot rfl rfl
  · obtain ⟨⟨r, km⟩, ha, hrest⟩ := bind_eq_ok.mp h
    dsimp only at hrest
    cases r with
    | none =>
      cases hrest
      exact .noProc km ha rfl rfl
    | some q =>
      obtain ⟨⟨ok, km₁, pt⟩, hu, hrest⟩ := bind_eq_ok.mp hrest
      dsimp only at hu hrest
      cases ok with
      | true =>
        rw [if_pos rfl] at hrest
        obtain ⟨rfl, rfl⟩ := Prod.mk.inj (Except.ok.inj hrest)
        exact .made q km km₁ pt ha hu rfl rfl
      | false =>
        rw [if_neg (by simp)] at hrest
        obtain ⟨km₂, hfree, hrest⟩ := bind_eq_ok.mp hrest
        obtain ⟨rfl, rfl⟩ := Prod.mk.inj (Except.ok.inj hrest)
        exact .undone q km km₁ km₂ pt ha hu hfree rfl rfl

/-! ## `kexec` -/

/-- Bytes were stored into writable pages of `pt`. -/
inductive Pushed (pt : PageTable) (km : Kmem) : Kmem → Prop where
  | refl : Pushed pt km km
  | store {km' : Kmem} {va0 f ofs : Nat} {bytes : List UInt8} : Pushed pt km km' →
      walkaddr pt va0 = some f → Pushed pt km (km'.store f ofs bytes)

theorem Pushed.trans {a b c : Kmem} (h : Pushed pt a b) (h' : Pushed pt b c) :
    Pushed pt a c := by
  induction h' with
  | refl => exact h
  | store _ hw ih => exact .store ih hw

theorem copyoutNew_pushed : ∀ (fuel : Nat) {km km' : Kmem} {va : Nat}
    {src : List UInt8} {ok : Bool},
    copyoutLoop (fun km va0 => .ok (if (pt.pte va0).perm.w then walkaddr pt va0 else none, km))
      Kmem.store fuel km va src = .ok (ok, km') → Pushed pt km km' := by
  intro fuel
  induction fuel with
  | zero =>
    intro km km' va src ok h
    cases h
    exact .refl
  | succ fuel ih =>
    intro km km' va src ok h
    rw [copyoutLoop] at h
    split at h
    · cases h
      exact .refl
    · rw [ok_bind] at h
      dsimp only at h
      split at h
      · cases h
        exact .refl
      · rename_i f hf
        have hw : walkaddr pt (pgRoundDown va) = some f := by
          split at hf
          · exact hf
          · simp at hf
        exact (Pushed.store .refl hw).trans (ih h)

theorem pushArgs_pushed {stackbase : Nat} : ∀ (argv : List (List UInt8))
    {km km' : Kmem} {sp : Nat} {ustack : List Nat} {r : Option (Nat × List Nat)},
    pushArgs pt stackbase argv km sp ustack = .ok (r, km') → Pushed pt km km' := by
  intro argv
  induction argv with
  | nil =>
    intro km km' sp ustack r h
    cases h
    exact .refl
  | cons arg argv ih =>
    intro km km' sp ustack r h
    rw [pushArgs] at h
    split at h
    · cases h
      exact .refl
    · dsimp only at h
      split at h
      · cases h
        exact .refl
      · obtain ⟨⟨ok, km₁⟩, hc, hrest⟩ := bind_eq_ok.mp h
        have hs := copyoutNew_pushed _ hc
        cases ok with
        | true => exact hs.trans (ih hrest)
        | false => cases hrest; exact hs

/-- The table `kexec` has made when it comes to the arguments. -/
structure Built (k : Kernel) (ip : Inode) (l : Layout) (km : Kmem) (pt : PageTable) (sz : Nat) :
    Prop where
  mk ::
  layout : readSegments ip (elfHdr (readi ip (fun _ : Fin 64 => 0) 0 64).2).phnum
    (toUint (elfHdr (readi ip (fun _ : Fin 64 => 0) 0 64).2).phoff) Layout.empty = (true, l)
  made : ∃ km₀ pt₀ pt₁, procPagetable k.kmem k.p.trapframe = .ok (some pt₀, km₀) ∧
    uvmalloc km₀ pt₀ (pgRoundUp l.sz) (add64 (pgRoundUp l.sz) ((userStack + 1) * 4096)) =
      .ok (sz, km, pt₁) ∧ sz ≠ 0 ∧ uvmclear pt₁ (sub64 sz ((userStack + 1) * 4096)) = .ok pt

/-- Everything `kexec` can do. -/
inductive Execs (k : Kernel) (path : List UInt8) (ip : Option Inode) (argv : List (List UInt8))
    (r : Int) (k' : Kernel) : Prop where
  | missing : ip = none → r = -1 → k' = k → Execs k path ip argv r k'
  /-- No memory for the stack. -/
  | starved (sz : Nat) (km₀ km₁ km₂ : Kmem) (pt₀ pt₁ : PageTable) :
      procPagetable k.kmem k.p.trapframe = .ok (some pt₀, km₀) →
      uvmalloc km₀ pt₀ sz (add64 sz ((userStack + 1) * 4096)) = .ok (0, km₁, pt₁) →
      procFreepagetable km₁ pt₁ sz = .ok km₂ → r = -1 → k' = { k with kmem := km₂ } →
      Execs k path ip argv r k'
  /-- No room for the arguments. -/
  | undone (file : Inode) (l : Layout) (km km₁ km₂ : Kmem) (pt : PageTable) (sz : Nat) :
      Built k file l km pt sz → Pushed pt km km₁ → procFreepagetable km₁ pt sz = .ok km₂ →
      r = -1 → k' = { k with kmem := km₂ } → Execs k path ip argv r k'
  | done (file : Inode) (l : Layout) (km km₁ km₂ km₃ : Kmem) (pt : PageTable)
      (sz sp₀ : Nat) (ustack : List Nat) (ok : Bool) (d : Disk) (p : Proc) :
      ip = some file → Built k file l km pt sz →
      pushArgs pt (sub64 sz (userStack * 4096)) argv km sz [] = .ok (some (sp₀, ustack), km₁) →
      sub64 sz (userStack * 4096) ≤ pushSp sp₀ ((ustack.length + 1) * 8) →
      copyoutNew km₁ pt (pushSp sp₀ ((ustack.length + 1) * 8))
      ((ustack.reverse ++ [0]).flatMap le64) = .ok (true, km₂) →
      procFreepagetable km₂ k.p.pagetable k.p.sz = .ok km₃ →
      swapfileCreate k.disk (k.p.commit l pt sz (pushSp sp₀ ((ustack.length + 1) * 8))
        (elfHdr (readi file (fun _ : Fin 64 => 0) 0 64).2).entry file path) = (ok, d, p) →
      r = ustack.length → k' = { k with kmem := km₃, disk := d, p := p } →
      Execs k path ip argv r k'

theorem execBad_cases {sz : Nat} {locked : Bool} (h : execBad k km pt sz locked = .ok (r, k')) :
    locked = false ∧ ∃ km', procFreepagetable km pt sz = .ok km' ∧ r = -1 ∧
      k' = { k with kmem := km' } := by
  obtain ⟨km₁, hf, hrest⟩ := bind_eq_ok.mp h
  cases locked with
  | true => simp at hrest
  | false =>
    cases hrest
    exact ⟨rfl, km₁, hf, rfl, rfl⟩

theorem execStack_cases {sz : Nat} {l : Layout} {file : Inode} {path : List UInt8}
    {argv : List (List UInt8)} (hb : Built k file l km pt sz)
    (h : execStack k km pt sz l (elfHdr (readi file (fun _ : Fin 64 => 0) 0 64).2).entry file path
      argv = .ok (r, k')) : Execs k path (some file) argv r k' := by
  obtain ⟨⟨args, km₁⟩, hargs, hrest⟩ := bind_eq_ok.mp h
  have hs₁ := pushArgs_pushed argv hargs
  have hbad : ∀ {km₂ : Kmem}, Pushed pt km km₂ → execBad k km₂ pt sz false = .ok (r, k') →
      Execs k path (some file) argv r k' := by
    intro km₂ hs he
    obtain ⟨_, km₃, hf, hr, hk'⟩ := execBad_cases he
    exact .undone file l km km₂ km₃ pt sz hb hs hf hr hk'
  dsimp only at hrest
  cases args with
  | none => exact hbad hs₁ hrest
  | some a =>
    obtain ⟨sp₀, ustack⟩ := a
    dsimp only at hrest
    split at hrest
    · exact hbad hs₁ hrest
    · rename_i hsp
      obtain ⟨⟨ok, km₂⟩, hc, hrest⟩ := bind_eq_ok.mp hrest
      dsimp only at hrest
      cases ok with
      | false => exact hbad (hs₁.trans (copyoutNew_pushed _ hc)) hrest
      | true =>
        rw [if_neg (by simp)] at hrest
        obtain ⟨km₃, hf, hrest⟩ := bind_eq_ok.mp hrest
        obtain ⟨c, hcommit⟩ : ∃ c, k.p.commit l pt sz (pushSp sp₀ ((ustack.length + 1) * 8))
          (elfHdr (readi file (fun _ : Fin 64 => 0) 0 64).2).entry file path = c := ⟨_, rfl⟩
        rcases hcr : swapfileCreate k.disk c with ⟨ok', d, p⟩
        rw [hcommit, hcr] at hrest
        obtain ⟨rfl, rfl⟩ := Prod.mk.inj (Except.ok.inj hrest)
        exact .done file l km km₁ km₂ km₃ pt sz sp₀ ustack ok' d p rfl hb hargs
          (Nat.le_of_not_lt hsp) hc hf (by rw [hcommit]; exact hcr) rfl rfl

theorem kexec_cases {path : List UInt8} {ip : Option Inode} {argv : List (List UInt8)}
    (h : kexec k path ip argv = .ok (r, k')) :
    Execs k path ip argv r k' := by
  cases ip with
  | none =>
    cases h
    exact .missing rfl rfl rfl
  | some file =>
    unfold kexec at h
    dsimp only at h
    split at h
    · simp at h
    · split at h
      · simp at h
      · obtain ⟨⟨pt, km₀⟩, hp, h⟩ := bind_eq_ok.mp h
        cases pt with
        | none => simp at h
        | some pt₀ =>
          dsimp only at h
          split at h
          · rename_i l hl
            have := (execBad_cases h).1
            simp at this
          · rename_i l hl
            obtain ⟨⟨sz, km, pt₁⟩, hu, h⟩ := bind_eq_ok.mp h
            dsimp only at h
            split at h
            · rename_i hz
              subst hz
              obtain ⟨_, km₂, hf, hr, hk'⟩ := execBad_cases h
              exact .starved _ km₀ km km₂ pt₀ pt₁ hp hu hf hr hk'
            · rename_i hz
              obtain ⟨pt, hclear, h⟩ := bind_eq_ok.mp h
              exact execStack_cases ⟨hl, km₀, pt₀, pt₁, hp, hu, hz, hclear⟩ h

end Xv6Paging.Proof
