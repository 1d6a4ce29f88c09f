import Xv6Paging.Kernel.System

/-!
# Invariants of a process

What has to be shown of a property so that it holds in every state a process can
be in: that faults, stores, the break, `kexec` and `kfork` keep it. The copy
routines only ever look up a frame and store into it, so they need nothing of
their own.
-/

namespace Xv6Paging.Proof

open Xv6Paging Lib

variable {k k' : Kernel} {P : Kernel → Prop}

/-- A loop of look-ups and stores keeps what look-ups and stores keep. -/
theorem copyoutLoop_keeps {σ : Type} {P : σ → Prop}
    {find : σ → Nat → Except Halt (Option Nat × σ)} {store : σ → Nat → Nat → List UInt8 → σ}
    (hfind : ∀ s va r s', P s → find s va = .ok (r, s') → P s')
    (hstore : ∀ s f ofs bytes, P s → P (store s f ofs bytes)) :
    ∀ (fuel : Nat) {s s' : σ} {va : Nat} {src : List UInt8} {ok : Bool}, P s →
      copyoutLoop find store fuel s va src = .ok (ok, s') → P s' := by
  intro fuel
  induction fuel with
  | zero =>
    intro s s' va src ok hs h
    cases h
    exact hs
  | succ fuel ih =>
    intro s s' va src ok hs h
    rw [copyoutLoop] at h
    split at h
    · cases h
      exact hs
    · obtain ⟨⟨r, s₁⟩, hf, hrest⟩ := bind_eq_ok.mp h
      have hs₁ := hfind s _ r s₁ hs hf
      cases r with
      | none => cases hrest; exact hs₁
      | some f => exact ih (hstore s₁ f _ _ hs₁) hrest

section

variable {P : Kernel → Prop}

theorem copyout_keeps (hframe : ∀ k va r k', P k → userFrame k va = .ok (r, k') → P k')
    (hstore : ∀ k f ofs bytes, P k → P { k with kmem := k.kmem.store f ofs bytes }) {va : Nat}
    {src : List UInt8} {ok : Bool} (hk : P k) (h : copyout k va src = .ok (ok, k')) : P k' := by
  refine copyoutLoop_keeps (fun k va r k' hk hf => ?_) (fun k f ofs bytes hk => ?_) _ hk h
  · obtain ⟨⟨r₁, k₁⟩, hu, hrest⟩ := bind_eq_ok.mp hf
    have h₁ := hframe k va r₁ k₁ hk hu
    cases r₁ with
    | none => cases hrest; exact h₁
    | some f => cases hrest; exact h₁
  · exact hstore k f ofs bytes hk

theorem copyinLoop_keeps (hframe : ∀ k va r k', P k → userFrame k va = .ok (r, k') → P k') :
    ∀ (fuel : Nat) {k k' : Kernel} {va len : Nat} {dst bytes : List UInt8} {ok : Bool}, P k →
      copyinLoop fuel k va len dst = .ok (ok, bytes, k') → P k' := by
  intro fuel
  induction fuel with
  | zero =>
    intro k k' va len dst bytes ok hk h
    cases h
    exact hk
  | succ fuel ih =>
    intro k k' va len dst bytes ok hk h
    rw [copyinLoop] at h
    split at h
    · cases h
      exact hk
    · obtain ⟨⟨r, k₁⟩, hu, hrest⟩ := bind_eq_ok.mp h
      have h₁ := hframe k _ r k₁ hk hu
      cases r with
      | none => cases hrest; exact h₁
      | some f => exact ih h₁ hrest

theorem copyinstrLoop_keeps (hframe : ∀ k va r k', P k → userFrame k va = .ok (r, k') → P k') :
    ∀ (fuel : Nat) {k k' : Kernel} {va max : Nat} {dst bytes : List UInt8} {ok : Bool}, P k →
      copyinstrLoop fuel k va max dst = .ok (ok, bytes, k') → P k' := by
  intro fuel
  induction fuel with
  | zero =>
    intro k k' va max dst bytes ok hk h
    cases h
    exact hk
  | succ fuel ih =>
    intro k k' va max dst bytes ok hk h
    rw [copyinstrLoop] at h
    split at h
    · cases h
      exact hk
    · obtain ⟨⟨r, k₁⟩, hu, hrest⟩ := bind_eq_ok.mp h
      have h₁ := hframe k _ r k₁ hk hu
      cases r with
      | none => cases hrest; exact h₁
      | some f =>
        dsimp only at hrest
        split at hrest
        · cases hrest; exact h₁
        · exact ih h₁ hrest

end

/-- The states a copy routine passes through: frames are looked up, and bytes stored in them. -/
inductive Copies (k : Kernel) : Kernel → Prop where
  | refl : Copies k k
  | frame {k₁ k₂ : Kernel} {va : Nat} {r : Option Nat} : Copies k k₁ →
      userFrame k₁ va = .ok (r, k₂) → Copies k k₂
  | store {k₁ : Kernel} {f ofs : Nat} {bytes : List UInt8} : Copies k k₁ →
      Copies k { k₁ with kmem := k₁.kmem.store f ofs bytes }

theorem Copies.keeps (h : Copies k k')
    (hframe : ∀ k va r k', P k → userFrame k va = .ok (r, k') → P k')
    (hstore : ∀ k f ofs bytes, P k → P { k with kmem := k.kmem.store f ofs bytes }) (hk : P k) :
    P k' := by
  induction h with
  | refl => exact hk
  | frame _ hu ih => exact hframe _ _ _ _ ih hu
  | store _ ih => exact hstore _ _ _ _ ih

/-- What one input does to the kernel, and what is seen of it. -/
inductive Stepped (k : Kernel) : Op → Out → Kernel → Prop where
  | loaded {acc : Access} {va : Nat} {b c : UInt8} : Stepped k (.access acc va b) (.loaded c) k
  | stored {va : Nat} {b : UInt8} : Stepped k (.access .write va b) .stored (k.storeByte va b)
  | fault {acc : Access} {va : Nat} {b : UInt8} {k' : Kernel} :
      usertrapPageFault k va acc = .ok k' → Stepped k (.access acc va b) .fault k'
  | sbrk {n t : Int} {r : Option Nat} {k' : Kernel} : sysSbrk k n t = .ok (r, k') →
      Stepped k (.sbrk n t) (.ret (retOf r)) k'
  | copyin {va len : Nat} {o : Out} {k' : Kernel} : Copies k k' → Stepped k (.copyin va len) o k'
  | copyout {va : Nat} {src : List UInt8} {o : Out} {k' : Kernel} : Copies k k' →
      Stepped k (.copyout va src) o k'
  | copyinstr {va max : Nat} {o : Out} {k' : Kernel} : Copies k k' →
      Stepped k (.copyinstr va max) o k'
  | exec {path : List UInt8} {ip : Option Inode} {argv : List (List UInt8)} {r : Int}
    {k' : Kernel} :
      kexec k path ip argv = .ok (r, k') → Stepped k (.exec path ip argv) (.ret r) k'
  /-- `kfork`, where the parent goes on. -/
  | parent {slot asChild : Bool} {np : Option Proc} {r : Int} {k' : Kernel} :
      kfork k slot = .ok (np, k') → (asChild = true → r = -1) →
      Stepped k (.fork slot asChild) (.ret r) k'
  | child {slot : Bool} {q : Proc} {k' : Kernel} : kfork k slot = .ok (some q, k') →
      Stepped k (.fork slot true) (.ret 0) { k' with p := q }
  | rewrite {ip : Inode} : Stepped k (.rewrite ip) .silent (k.rewrite ip)

/-- **A step** does one of these things. -/
theorem step_cases {op : Op} {o : Out} (h : step k op = .ok (o, k')) :
    Stepped k op o k' := by
  unfold Xv6Paging.step at h
  split at h
  · simp at h
  · cases op with
    | access acc va b =>
      dsimp only [act, access] at h
      split at h
      · cases acc with
        | read => cases h; exact .loaded
        | exec => cases h; exact .loaded
        | write => cases h; exact .stored
      · obtain ⟨k₁, ht, hrest⟩ := bind_eq_ok.mp h
        cases hrest
        exact .fault ht
    | sbrk n t =>
      obtain ⟨⟨r, k₁⟩, hb, hrest⟩ := bind_eq_ok.mp h
      cases hrest
      exact .sbrk hb
    | copyin va len =>
      obtain ⟨⟨ok, bytes, k₁⟩, hc, hrest⟩ := bind_eq_ok.mp h
      cases hrest
      exact .copyin (copyinLoop_keeps (fun _ _ _ _ hk hu => hk.frame hu) len .refl hc)
    | copyout va src =>
      obtain ⟨⟨ok, k₁⟩, hc, hrest⟩ := bind_eq_ok.mp h
      cases hrest
      exact .copyout (copyout_keeps (fun _ _ _ _ hk hu => hk.frame hu) (fun _ _ _ _ hk => hk.store)
        .refl hc)
    | copyinstr va max =>
      obtain ⟨⟨ok, bytes, k₁⟩, hc, hrest⟩ := bind_eq_ok.mp h
      cases hrest
      exact .copyinstr (copyinstrLoop_keeps (fun _ _ _ _ hk hu => hk.frame hu) max .refl hc)
    | exec path ip argv =>
      obtain ⟨⟨r, k₁⟩, he, hrest⟩ := bind_eq_ok.mp h
      cases hrest
      exact .exec he
    | fork slot asChild =>
      obtain ⟨⟨np, k₁⟩, hf, hrest⟩ := bind_eq_ok.mp h
      cases np with
      | none => cases hrest; exact .parent hf fun _ => rfl
      | some q =>
        cases asChild with
        | false => cases hrest; exact .parent hf fun hno => by simp at hno
        | true => cases hrest; exact .child hf
    | rewrite ip => cases h; exact .rewrite

/-- What keeps `P` along every run whose steps meet `C`. -/
structure Kept (C : Kernel → Op → Prop) (P : Kernel → Prop) : Prop where
  boot : ∀ k, Boot k → P k
  trap : ∀ k va acc b k', P k → C k (.access acc va b) → usertrapPageFault k va acc = .ok k' → P k'
  byte : ∀ k va b, P k → P (k.storeByte va b)
  frame : ∀ k va r k', P k → userFrame k va = .ok (r, k') → P k'
  store : ∀ k f ofs bytes, P k → P { k with kmem := k.kmem.store f ofs bytes }
  sbrk : ∀ k n t r k', P k → sysSbrk k n t = .ok (r, k') → P k'
  exec : ∀ k path ip argv r k', P k → C k (.exec path ip argv) →
    kexec k path ip argv = .ok (r, k') → P k'
  fork : ∀ k slot np k', P k → kfork k slot = .ok (np, k') →
    P k' ∧ ∀ q, np = some q → P { k' with p := q }
  file : ∀ k ip, P k → P (k.rewrite ip)

/-- **The step rule.** -/
theorem Kept.step {C : Kernel → Op → Prop} (h : Kept C P) {op : Op} {o : Out} (hk : P k)
    (hC : C k op) (hs : step k op = .ok (o, k')) : P k' := by
  cases step_cases hs with
  | loaded => exact hk
  | stored => exact h.byte k _ _ hk
  | fault ht => exact h.trap k _ _ _ k' hk hC ht
  | sbrk hb => exact h.sbrk k _ _ _ k' hk hb
  | copyin hc => exact hc.keeps h.frame h.store hk
  | copyout hc => exact hc.keeps h.frame h.store hk
  | copyinstr hc => exact hc.keeps h.frame h.store hk
  | exec he => exact h.exec k _ _ _ _ k' hk hC he
  | parent hf _ => exact (h.fork k _ _ k' hk hf).1
  | child hf => exact (h.fork k _ _ _ hk hf).2 _ rfl
  | rewrite => exact h.file k _ hk

/-- **The invariant rule for processes.** -/
theorem Kept.reachable {C : Kernel → Op → Prop} (h : Kept C P) (hr : ReachableVia C k) : P k := by
  induction hr with
  | boot hb => exact h.boot _ hb
  | step _ hC hs ih => exact h.step ih hC hs

end Xv6Paging.Proof
