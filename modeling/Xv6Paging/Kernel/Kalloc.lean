import Xv6Paging.Kernel.Riscv

/-!
# The physical page allocator

`kalloc` pops `kmem.freelist`, `kfree` pushes. A frame is named by its number.

The process being followed is not alone: between two of its calls other
processes allocate and free. `Kmem.others` says, call by call, what they did, so
that a run of the process is a run against *every* such history. With nobody
else around (`Others.idle`) the functions below are `kalloc.c` to the letter:
`kalloc` fails exactly when the list is empty.
-/

namespace Xv6Paging

/-- What other processes did to the free list since this process last called `kalloc`. -/
inductive Others where
  /-- Nothing. -/
  | idle
  /-- They hold every free page at the moment of the call. -/
  | drained
  /-- They gave a page back, should the list have run empty. -/
  | returned
  deriving DecidableEq, Repr

/-- The allocator and the contents of physical memory. -/
structure Kmem where
  /-- The history of the other processes, by call number. -/
  others : Nat → Others
  /-- How often `kalloc` has been called. -/
  calls : Nat
  /-- `kmem.freelist`, most recently freed frame first. -/
  freelist : List Nat
  /-- Frames from here on have only ever been held by other processes. -/
  nextFrame : Nat
  /-- The bytes of each frame. -/
  ram : Nat → Page

variable {km km' : Kmem} {f : Nat}

/-- Overwrite one frame. -/
def Kmem.setRam (km : Kmem) (f : Nat) (pg : Page) : Kmem :=
  { km with ram := Function.update km.ram f pg }

/-- `kalloc`. -/
def kalloc (km : Kmem) : Option Nat × Kmem :=
  let km' := { km with calls := km.calls + 1 }
  match km.others km.calls, km.freelist with
  | .drained, _ => (none, km')
  | .idle, [] => (none, km')
  | .returned, [] =>
    (some km.nextFrame,
      { km'.setRam km.nextFrame (pageOf 5) with nextFrame := km.nextFrame + 1 })
  | .idle, r :: rest | .returned, r :: rest =>
    (some r, { km'.setRam r (pageOf 5) with freelist := rest })

/-- `kfree`. -/
def kfree (km : Kmem) (f : Nat) : Kmem :=
  { km.setRam f (pageOf 1) with freelist := f :: km.freelist }

/-! ## Which frames can be handed out -/

/-- A frame nobody followed here holds. -/
def Kmem.Free (km : Kmem) (f : Nat) : Prop := f ∈ km.freelist ∨ km.nextFrame ≤ f

/-- The free list names each frame once. -/
structure Kmem.Ok (km : Kmem) : Prop where
  nodup : km.freelist.Nodup
  bound : ∀ f ∈ km.freelist, f < km.nextFrame

/-- From now on `kalloc` never returns 0. -/
def Kmem.Plentiful (km : Kmem) : Prop := ∀ n, km.calls ≤ n → km.others n = .returned

@[simp] theorem setRam_freelist (km : Kmem) (f : Nat) (pg : Page) :
    (km.setRam f pg).freelist = km.freelist := rfl

@[simp] theorem setRam_nextFrame (km : Kmem) (f : Nat) (pg : Page) :
    (km.setRam f pg).nextFrame = km.nextFrame := rfl

@[simp] theorem setRam_others (km : Kmem) (f : Nat) (pg : Page) :
    (km.setRam f pg).others = km.others := rfl

@[simp] theorem setRam_calls (km : Kmem) (f : Nat) (pg : Page) :
    (km.setRam f pg).calls = km.calls := rfl

@[simp] theorem setRam_self (km : Kmem) (f : Nat) (pg : Page) : (km.setRam f pg).ram f = pg := by
  simp [Kmem.setRam]

theorem setRam_ne (km : Kmem) {g : Nat} (pg : Page) (h : g ≠ f) :
    (km.setRam f pg).ram g = km.ram g := by
  simp [Kmem.setRam, h]

@[simp] theorem free_setRam (km : Kmem) (f g : Nat) (pg : Page) :
    (km.setRam f pg).Free g ↔ km.Free g := Iff.rfl

theorem ok_setRam (h : km.Ok) (f : Nat) (pg : Page) : (km.setRam f pg).Ok :=
  ⟨h.nodup, h.bound⟩

/-- What a successful `kalloc` did: `f` left the free frames, and nothing else moved. -/
structure Kmem.Takes (km km' : Kmem) (f : Nat) : Prop where
  free : km.Free f
  ok : km'.Ok
  rest : ∀ g, km'.Free g ↔ km.Free g ∧ g ≠ f
  ram : ∀ g, g ≠ f → km'.ram g = km.ram g
  others : km'.others = km.others
  calls : km.calls ≤ km'.calls

/-- What a failed `kalloc` did: nothing but take note of the call. -/
structure Kmem.Idles (km km' : Kmem) : Prop where
  freelist : km'.freelist = km.freelist
  nextFrame : km'.nextFrame = km.nextFrame
  ram : km'.ram = km.ram
  others : km'.others = km.others
  calls : km.calls ≤ km'.calls

theorem kalloc_some (hok : km.Ok) (h : kalloc km = (some f, km')) :
    km.Takes km' f := by
  unfold kalloc at h
  dsimp only at h
  split at h
  · simp at h
  · simp at h
  · -- a page another process gave back
    rename_i _ hnil
    simp only [Prod.mk.injEq, Option.some.injEq] at h
    obtain ⟨rfl, rfl⟩ := h
    refine ⟨Or.inr (Nat.le_refl _), ⟨hok.nodup, ?_⟩, ?_, ?_, rfl, Nat.le_succ _⟩
    · intro g hg; exact Nat.lt_succ_of_lt (hok.bound g hg)
    · intro g
      simp only [Kmem.Free, Kmem.setRam, hnil, List.not_mem_nil, false_or]
      omega
    · intro g hg; exact setRam_ne _ _ hg
  all_goals
    rename_i r rest _ hcons
    simp only [Prod.mk.injEq, Option.some.injEq] at h
    obtain ⟨rfl, rfl⟩ := h
    have hnd : (r :: rest).Nodup := hcons ▸ hok.nodup
    have hb : ∀ g ∈ r :: rest, g < km.nextFrame := hcons ▸ hok.bound
    refine ⟨Or.inl (by rw [hcons]; simp), ⟨hnd.of_cons, fun g hg => hb g (by simp [hg])⟩,
      ?_, fun g hg => setRam_ne _ _ hg, rfl, Nat.le_succ _⟩
    intro g
    have hr : r ∉ rest := (List.nodup_cons.mp hnd).1
    have hrlt : r < km.nextFrame := hb r (by simp)
    simp only [Kmem.Free, Kmem.setRam, hcons, List.mem_cons]
    constructor
    · rintro (hg | hg)
      · exact ⟨Or.inl (Or.inr hg), fun he => hr (he ▸ hg)⟩
      · exact ⟨Or.inr hg, by omega⟩
    · rintro ⟨(hg | hg) | hg, hne⟩
      · exact absurd hg hne
      · exact Or.inl hg
      · exact Or.inr hg

theorem kalloc_none (h : kalloc km = (none, km')) : km.Idles km' := by
  unfold kalloc at h
  dsimp only at h
  split at h <;> simp only [Prod.mk.injEq, reduceCtorEq, false_and, true_and] at h
  all_goals subst h; exact ⟨rfl, rfl, rfl, rfl, Nat.le_succ _⟩

theorem kalloc_plentiful (h : km.Plentiful) : ∃ f km', kalloc km = (some f, km') := by
  unfold kalloc
  rw [h km.calls (Nat.le_refl _)]
  cases km.freelist with
  | nil => exact ⟨_, _, rfl⟩
  | cons r rest => exact ⟨_, _, rfl⟩

theorem Kmem.Plentiful.mono (h : km.Plentiful) (ho : km'.others = km.others)
    (hc : km.calls ≤ km'.calls) : km'.Plentiful := by
  intro n hn
  rw [ho]
  exact h n (Nat.le_trans hc hn)

theorem Kmem.Idles.free (h : km.Idles km') (g : Nat) : km'.Free g ↔ km.Free g := by
  unfold Kmem.Free; rw [h.freelist, h.nextFrame]

theorem Kmem.Idles.ok (h : km.Idles km') (hok : km.Ok) : km'.Ok := by
  refine ⟨h.freelist ▸ hok.nodup, ?_⟩
  rw [h.freelist, h.nextFrame]; exact hok.bound

theorem kfree_free (km : Kmem) (f g : Nat) : (kfree km f).Free g ↔ km.Free g ∨ g = f := by
  simp only [Kmem.Free, kfree, Kmem.setRam, List.mem_cons]
  tauto

theorem kfree_ok (hok : km.Ok) (hf : ¬ km.Free f) : (kfree km f).Ok := by
  unfold Kmem.Free at hf
  push Not at hf
  refine ⟨List.nodup_cons.mpr ⟨hf.1, hok.nodup⟩, ?_⟩
  intro g hg
  rcases List.mem_cons.mp hg with rfl | hg
  · exact hf.2
  · exact hok.bound g hg

theorem kfree_ram (km : Kmem) {g : Nat} (h : g ≠ f) : (kfree km f).ram g = km.ram g :=
  setRam_ne km _ h

@[simp] theorem kfree_others (km : Kmem) (f : Nat) : (kfree km f).others = km.others := rfl

@[simp] theorem kfree_calls (km : Kmem) (f : Nat) : (kfree km f).calls = km.calls := rfl

end Xv6Paging
