import Xv6Paging.Proof.Loading

/-!
# The image `kexec` sets up

A successful `kexec` maps two pages right above the segments: the guard page and the
stack. It records where the stack is only as the final stack pointer, and `usertrap`
and `vmfault` round that up to find the end of the stack again. The stack pointer has
come down from the end of the stack by the bytes of the arguments, and rounding it up
gives the end back unless those bytes fill the page to its first byte.
-/

namespace Xv6Paging.Proof

open Xv6Paging Lib

variable {tf : Nat}

/-! ## What is mapped right after exec -/

/-- Below the trapframe exactly the guard page and the stack are mapped, on top of the image. -/
structure StackOnTop (p : Proc) : Prop where
  aligned : p.sz % 4096 = 0
  low : (userStack + 1) * 4096 ≤ p.sz
  bound : p.sz ≤ trapframeVA
  mapped : ∀ va, va < trapframeVA → ((p.pagetable.pte va).v = true ↔
    p.sz - (userStack + 1) * 4096 ≤ va ∧ va < p.sz)
  guard : ∀ va, p.sz - (userStack + 1) * 4096 ≤ va → va < p.sz - userStack * 4096 →
    (p.pagetable.pte va).perm.u = false
  stack : ∀ va, p.sz - userStack * 4096 ≤ va → va < p.sz →
    (p.pagetable.pte va).perm = permURW

theorem FreshTable.stackOnTop {U T : Set Nat} {km₀ km : Kmem} {pt : PageTable} {base : Nat}
    {p : Proc} (h : FreshTable tf U T km₀ km pt base) (hpt : p.pagetable = pt)
    (hsz : p.sz = base + 8192) : StackOnTop p := by
  have hal := h.aligned
  have hbound := h.bound
  rw [← hpt] at h
  refine ⟨?_, ?_, ?_, ?_, ?_, ?_⟩
  · omega
  · unfold userStack
    omega
  · omega
  · intro va hva
    unfold userStack
    constructor
    · intro hv
      by_contra hout
      rw [h.nothing va hva (by omega)] at hv
      cases hv
    · intro hin
      by_cases hg : va < base + 4096
      · obtain ⟨f, hf⟩ := h.guard va (by omega) hg
        rw [hf]
      · obtain ⟨f, hf, _⟩ := h.stack va (by omega) (by omega)
        rw [hf]
  · intro va hlo hhi
    unfold userStack at hlo hhi
    obtain ⟨f, hf⟩ := h.guard va (by omega) (by omega)
    rw [hf]
  · intro va hlo hhi
    unfold userStack at hlo
    obtain ⟨f, hf, _⟩ := h.stack va (by omega) (by omega)
    rw [hf]

/-- A `kexec` that returned a count of arguments has mapped the stack, and the arguments fit it. -/
theorem Execs.stackOnTop {C : Prop} {U S : Set Nat} {k k' : Kernel} {path : List UInt8}
    {ip : Option Inode} {argv : List (List UInt8)} {r : Int} (he : Execs k path ip argv r k')
    (h : SpaceOk C U S k.kmem k.p) (hr : 0 ≤ r) :
    StackOnTop k'.p ∧ k'.p.sz ≤ k'.p.stackTop + userStack * 4096 := by
  cases he with
  | missing _ hneg _ => omega
  | starved _ _ _ _ _ _ _ _ _ hneg _ => omega
  | undone _ _ _ _ _ _ _ _ _ _ hneg _ => omega
  | done file l km km₁ km₂ km₃ pt sz sp₀ ustack ok d p hip hb hargs hsp hcopy _ hcreate _ hk' =>
    obtain ⟨hsz, hfresh⟩ := hb.fresh h.held
    obtain ⟨swapfile, hp⟩ := swapfileCreate_eq hcreate
    have hbound := hfresh.bound
    have htf : trapframeVA < 2 ^ 40 := by decide
    have hstack : sub64 sz (userStack * 4096) = sz - 4096 := by
      rw [hsz]
      unfold sub64 userStack
      omega
    rw [hstack] at hsp
    rw [hk', hp]
    refine ⟨hfresh.stackOnTop rfl hsz, ?_⟩
    change sz ≤ pushSp sp₀ ((ustack.length + 1) * 8) + userStack * 4096
    unfold userStack
    omega

/-! ## The stack found again -/

/-- The ranges derived from `p->stack_top` are those of the stack and of the guard page. -/
structure StackFound (p : Proc) : Prop where
  stack : ∀ va, (p.stackBase ≤ va ∧ va < p.stackEnd) ↔ p.sz - userStack * 4096 ≤ va ∧ va < p.sz
  guard : ∀ va, p.inGuard va = true ↔
    p.sz - (userStack + 1) * 4096 ≤ va ∧ va < p.sz - userStack * 4096

/-- The derived ranges lie one page too low when the arguments fill the stack page. -/
theorem stackEnd_eq {p : Proc} {n : Nat} (h : StackOnTop p) (hn : p.stackTop + n = p.sz)
    (hpos : 0 < n) (hle : n ≤ 4096) : p.stackEnd = if n = 4096 then p.sz - 4096 else p.sz := by
  have hal := h.aligned
  have hlow := h.low
  have hbound := h.bound
  have htf : trapframeVA < 2 ^ 40 := by decide
  unfold userStack at hlow
  unfold Proc.stackEnd pgRoundUp add64
  split <;> omega

theorem stackFound_iff {p : Proc} {n : Nat} (h : StackOnTop p) (hn : p.stackTop + n = p.sz)
    (hpos : 0 < n) (hle : n ≤ 4096) : StackFound p ↔ n ≠ 4096 := by
  have hend := stackEnd_eq h hn hpos hle
  have hlow := h.low
  have hbound := h.bound
  have htf : trapframeVA < 2 ^ 40 := by decide
  unfold userStack at hlow
  constructor
  · intro hfound hfull
    rw [if_pos hfull] at hend
    have hlast := (hfound.stack (p.sz - 1)).mpr (by unfold userStack; omega)
    omega
  · intro hne
    rw [if_neg hne] at hend
    have hbase : p.stackBase = p.sz - 4096 := by
      unfold Proc.stackBase sub64 userStack
      rw [hend]
      omega
    have hguard : p.stackGuard = p.sz - 8192 := by
      unfold Proc.stackGuard sub64 userStack
      rw [hend]
      omega
    refine ⟨fun va => ?_, fun va => ?_⟩
    · rw [hbase, hend, userStack, Nat.one_mul]
    · rw [Proc.inGuard, hbase, hguard, Bool.and_eq_true, decide_eq_true_eq, decide_eq_true_eq,
        userStack, Nat.one_mul]

theorem Execs.stackFound {C : Prop} {U S : Set Nat} {k k' : Kernel} {path : List UInt8}
    {file : Inode} {argv : List (List UInt8)} {r : Int} (he : Execs k path (some file) argv r k')
    (h : SpaceOk C U S k.kmem k.p) (hr : 0 ≤ r) :
    StackOnTop k'.p ∧ (StackFound k'.p ↔ argBytes argv ≠ 4096) := by
  obtain ⟨htop, hfits⟩ := he.stackOnTop h hr
  obtain ⟨l, himage⟩ := he.newImage h hr
  have hsum := himage.stackTop
  have hpos := argBytes_pos argv
  unfold userStack at hfits
  exact ⟨htop, stackFound_iff htop hsum hpos (by omega)⟩

/--
**The recorded stack top locates the stack** of every successful `kexec` whose
arguments do not take up the stack page to its first byte.
-/
theorem stack_top_locates_stack {k k' : Kernel} {path : List UInt8} {file : Inode}
    {argv : List (List UInt8)} {r : Int} (h : Reachable k)
    (hs : step k (.exec path (some file) argv) = .ok (.ret r, k')) (hr : 0 ≤ r) :
    StackOnTop k'.p ∧ (StackFound k'.p ↔ argBytes argv ≠ 4096) := by
  obtain ⟨S, hok⟩ := reachable_spaceInv h
  cases step_cases hs with
  | exec hx => exact (kexec_cases hx).stackFound hok hr

/-- What a call of exec returned, if it did. -/
def execReturned : Except Halt (Out × Kernel) → Option Int
  | .ok (.ret r, _) => some r
  | _ => none

theorem execReturned_some {x : Except Halt (Out × Kernel)} {r : Int} (h : execReturned x = some r) :
    ∃ k', x = .ok (.ret r, k') := by
  unfold execReturned at h
  split at h
  · cases h
    exact ⟨_, rfl⟩
  · cases h

theorem stack_top_locates_stack_one_argument : ∃ k k' r, Reachable k ∧
    step k (.exec [47] onePage [[65]]) = .ok (.ret r, k') ∧ 0 ≤ r ∧ StackFound k'.p := by
  have hrun : (bootKernel []).map (fun k => execReturned (step k (.exec [47] onePage [[65]]))) =
      some (some 1) := by
    decide +kernel
  obtain ⟨k, hk, hret⟩ := Option.map_eq_some_iff.mp hrun
  obtain ⟨k', hs⟩ := execReturned_some hret
  have hreach : Reachable k := .boot (bootKernel_boot hk)
  exact ⟨k, k', 1, hreach, hs, by decide,
    (stack_top_locates_stack hreach hs (by decide)).2.mpr (by decide)⟩

/-- Thirty arguments of 112 bytes: with the array of pointers they take 4096 bytes. -/
def fullArgs : List (List UInt8) := List.replicate 30 (List.replicate 112 65)

/-- The stack pointer ends at the first byte of the stack page. -/
theorem stack_top_can_miss_stack : ¬ ∀ k k' path file argv r, Reachable k →
    step k (.exec path (some file) argv) = .ok (.ret r, k') → 0 ≤ r → StackFound k'.p := by
  intro hall
  have hrun : (bootKernel []).map (fun k => execReturned (step k (.exec [47] onePage fullArgs))) =
      some (some 30) := by
    decide +kernel
  obtain ⟨k, hk, hret⟩ := Option.map_eq_some_iff.mp hrun
  obtain ⟨k', hs⟩ := execReturned_some hret
  have hreach : Reachable k := .boot (bootKernel_boot hk)
  have hfound := hall k k' _ _ _ _ hreach hs (by decide)
  have hfull : argBytes fullArgs = 4096 := by decide +kernel
  obtain ⟨S, hok⟩ := reachable_spaceInv hreach
  cases step_cases hs with
  | exec hx => exact ((kexec_cases hx).stackFound hok (by decide)).2.mp hfound hfull

end Xv6Paging.Proof
