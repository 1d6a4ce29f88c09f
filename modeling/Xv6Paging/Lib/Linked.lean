import Mathlib

/-!
# Doubly linked rings

Nodes are linked through `next` and `prev`; `none` is the head of the ring, which
carries no element. `Path next prev x l y` says that from `x` the links lead through
the elements of `l`, in this order, to `y`, and back. A ring is a path from the head
to itself.
-/

namespace Xv6Paging.Lib

variable {α : Type}

/-- Links from one node to the next. -/
abbrev Links (α : Type) : Type := Option α → Option α

/-- The links lead from `x` through `l` to `y` and back. -/
def Path (next prev : Links α) : Option α → List α → Option α → Prop
  | x, [], y => next x = y ∧ prev y = x
  | x, a :: l, y => next x = some a ∧ prev (some a) = x ∧ Path next prev (some a) l y

/-- A ring of distinct elements. -/
structure Linked (next prev : Links α) (l : List α) : Prop where
  path : Path next prev none l none
  nodup : l.Nodup

section

variable {next prev : Links α}

theorem path_append {a : α} {l₂ : List α} {y : Option α} : ∀ {l₁ : List α} {x : Option α},
    Path next prev x (l₁ ++ a :: l₂) y ↔
      Path next prev x l₁ (some a) ∧ Path next prev (some a) l₂ y := by
  intro l₁
  induction l₁ with
  | nil => intro x; simp only [List.nil_append, Path, and_assoc]
  | cons b l₁ ih => intro x; simp only [List.cons_append, Path, ih, and_assoc]

/-- Back along the other links. -/
theorem Path.reverse : ∀ {l : List α} {x y : Option α}, Path next prev x l y →
    Path prev next y l.reverse x := by
  intro l
  induction l with
  | nil => intro x y h; exact ⟨h.2, h.1⟩
  | cons a l ih =>
    intro x y h
    rw [List.reverse_cons]
    exact path_append.mpr ⟨ih h.2.2, h.2.1, h.1⟩

/-- Only the links of the nodes on the path matter. -/
theorem Path.congr {next' prev' : Links α} : ∀ {l : List α} {x y : Option α},
    Path next prev x l y → (∀ z, z = x ∨ z ∈ l.map some → next' z = next z) →
      (∀ z, z = y ∨ z ∈ l.map some → prev' z = prev z) → Path next' prev' x l y := by
  intro l
  induction l with
  | nil =>
    intro x y h hn hp
    exact ⟨(hn x (Or.inl rfl)).trans h.1, (hp y (Or.inl rfl)).trans h.2⟩
  | cons a l ih =>
    intro x y h hn hp
    have ha : some a ∈ (a :: l).map some := List.mem_cons_self
    have hl : ∀ z, z ∈ l.map some → z ∈ (a :: l).map some := fun z hz => List.mem_cons_of_mem _ hz
    refine ⟨(hn x (Or.inl rfl)).trans h.1, (hp _ (Or.inr ha)).trans h.2.1, ih h.2.2 ?_ ?_⟩
    · rintro z (rfl | hz)
      · exact hn _ (Or.inr ha)
      · exact hn z (Or.inr (hl z hz))
    · rintro z (rfl | hz)
      · exact hp z (Or.inl rfl)
      · exact hp z (Or.inr (hl z hz))

/-- The two directions undo each other on the path. -/
theorem Path.inverse : ∀ {l : List α} {x y : Option α}, Path next prev x l y →
    (∀ z, z = x ∨ z ∈ l.map some → prev (next z) = z) := by
  intro l
  induction l with
  | nil =>
    rintro x y h z (rfl | hz)
    · rw [h.1]; exact h.2
    · simp at hz
  | cons a l ih =>
    rintro x y h z (rfl | hz)
    · rw [h.1]; exact h.2.1
    · rcases List.mem_cons.mp hz with rfl | hz
      · exact ih h.2.2 _ (Or.inl rfl)
      · exact ih h.2.2 z (Or.inr hz)

end

/-! ## Moving nodes -/

section

variable [DecidableEq α] {next prev : Links α}

/-- `b->next->prev = b->prev; b->prev->next = b->next`. -/
def unlink (next prev : Links α) (b : α) : Links α × Links α :=
  let prev := Function.update prev (next (some b)) (prev (some b))
  (Function.update next (prev (some b)) (next (some b)), prev)

/-- `b->next = head.next; b->prev = &head; head.next->prev = b; head.next = b`. -/
def pushFront (next prev : Links α) (b : α) : Links α × Links α :=
  let next := Function.update next (some b) (next none)
  let prev := Function.update prev (some b) none
  let prev := Function.update prev (next none) (some b)
  (Function.update next none (some b), prev)

theorem Linked.pushFront {l : List α} {b : α} (h : Linked next prev l) (hb : b ∉ l) :
    Linked (pushFront next prev b).1 (pushFront next prev b).2 (b :: l) := by
  refine ⟨?_, List.nodup_cons.mpr ⟨hb, h.nodup⟩⟩
  obtain ⟨hpath, hnd⟩ := h
  cases l with
  | nil => simp [Lib.pushFront, Path, hpath.1]
  | cons a l =>
    obtain ⟨hna, hpa, hrest⟩ := hpath
    have hba : b ≠ a := fun e => hb (e ▸ List.mem_cons_self)
    have hal := (List.nodup_cons.mp hnd).1
    have hnext : ∀ z, z ≠ none → z ≠ some b → (Lib.pushFront next prev b).1 z = next z := by
      intro z h0 h1
      simp [Lib.pushFront, h0, h1]
    have hprev : ∀ z, z ≠ some a → z ≠ some b → (Lib.pushFront next prev b).2 z = prev z := by
      intro z h0 h1
      simp [Lib.pushFront, hna, h0, h1]
    refine ⟨by simp [Lib.pushFront], by simp [Lib.pushFront, hna, hba],
      by simp [Lib.pushFront, hna], by simp [Lib.pushFront, hna], hrest.congr ?_ ?_⟩
    · rintro z (rfl | hz)
      · exact hnext _ (by simp) (by simpa using hba.symm)
      · obtain ⟨c, hc, rfl⟩ := List.mem_map.mp hz
        exact hnext _ (by simp) (by rintro ⟨⟩; exact hb (List.mem_cons_of_mem _ hc))
    · rintro z (rfl | hz)
      · exact hprev _ (by simp) (by simp)
      · obtain ⟨c, hc, rfl⟩ := List.mem_map.mp hz
        refine hprev _ ?_ ?_
        · rintro ⟨⟩; exact hal hc
        · rintro ⟨⟩; exact hb (List.mem_cons_of_mem _ hc)

omit [DecidableEq α] in
theorem Path.next_mem {l : List α} {x y : Option α} (h : Path next prev x l y) :
    next x = y ∨ ∃ a ∈ l, next x = some a := by
  cases l with
  | nil => exact Or.inl h.1
  | cons a l => exact Or.inr ⟨a, List.mem_cons_self, h.1⟩

omit [DecidableEq α] in
theorem Path.prev_mem {l : List α} {x y : Option α} (h : Path next prev x l y) :
    prev y = x ∨ ∃ a ∈ l, prev y = some a := by
  rcases h.reverse.next_mem with e | ⟨a, ha, e⟩
  · exact Or.inl e
  · exact Or.inr ⟨a, List.mem_reverse.mp ha, e⟩

/-- Linking the neighbours of `b` to each other leaves a path around it. -/
theorem Path.skip {b : α} {l₂ : List α} {y : Option α} (hback : Path next prev (some b) l₂ y)
    (hy : ∀ a ∈ l₂, y ≠ some a) (hnd : l₂.Nodup) : ∀ {l₁ : List α} {x : Option α},
    Path next prev x l₁ (some b) → (∀ a ∈ l₁ ++ l₂, x ≠ some a) → (∀ a ∈ l₁, y ≠ some a) →
      (l₁ ++ l₂).Nodup →
      Path (Function.update next (prev (some b)) (next (some b)))
        (Function.update prev (next (some b)) (prev (some b))) x (l₁ ++ l₂) y := by
  intro l₁
  induction l₁ with
  | nil =>
    intro x hx hxl _ _
    rw [hx.2]
    cases l₂ with
    | nil => simp [Path, hback.1]
    | cons c l₂ =>
      have hcl := (List.nodup_cons.mp hnd).1
      refine ⟨by simp [hback.1], by simp [hback.1], hback.2.2.congr ?_ ?_⟩
      · rintro z (rfl | hz)
        · exact Function.update_of_ne (hxl c (by simp)).symm _ _
        · obtain ⟨d, hd, rfl⟩ := List.mem_map.mp hz
          exact Function.update_of_ne (hxl d (by simp [hd])).symm _ _
      · rw [hback.1]
        rintro z (rfl | hz)
        · exact Function.update_of_ne (hy c List.mem_cons_self) _ _
        · obtain ⟨d, hd, rfl⟩ := List.mem_map.mp hz
          exact Function.update_of_ne (by rintro ⟨⟩; exact hcl hd) _ _
  | cons a l₁ ih =>
    intro x hx hxl hyl hnda
    obtain ⟨hna, hpa, hrest⟩ := hx
    obtain ⟨hal, hnd'⟩ := List.nodup_cons.mp (List.cons_append ▸ hnda)
    refine ⟨?_, ?_, ih hrest ?_ ?_ hnd'⟩
    · -- `x` is not the neighbour of `b`: that one is `a` or comes after it
      have hne : x ≠ prev (some b) := by
        rcases hrest.prev_mem with e | ⟨d, hd, e⟩
        · rw [e]; exact hxl a (by simp)
        · rw [e]; exact hxl d (by simp [hd])
      rw [Function.update_of_ne hne]
      exact hna
    · have hne : some a ≠ next (some b) := by
        rcases hback.next_mem with e | ⟨d, hd, e⟩
        · rw [e]; exact (hyl a List.mem_cons_self).symm
        · rw [e]; rintro ⟨⟩; exact hal (by simp [hd])
      rw [Function.update_of_ne hne]
      exact hpa
    · rintro d hd ⟨⟩
      exact hal hd
    · exact fun d hd => hyl d (List.mem_cons_of_mem _ hd)

theorem Linked.unlink {l₁ l₂ : List α} {b : α} (h : Linked next prev (l₁ ++ b :: l₂)) :
    Linked (unlink next prev b).1 (unlink next prev b).2 (l₁ ++ l₂) := by
  obtain ⟨hfront, hback⟩ := path_append.mp h.path
  have hnd : (l₁ ++ l₂).Nodup := (List.nodup_middle.mp h.nodup).of_cons
  have hprev : Function.update prev (next (some b)) (prev (some b)) (some b) = prev (some b) := by
    by_cases e : some b = next (some b)
    · rw [← e]; exact Function.update_self ..
    · exact Function.update_of_ne e _ _
  refine ⟨?_, hnd⟩
  simp only [Lib.unlink, hprev]
  exact hback.skip (by simp) (List.Nodup.of_append_right hnd) hfront (by simp) (by simp) hnd

/-- **Moving a node to the front of the ring.** -/
theorem Linked.moveFront {l : List α} {b : α} (h : Linked next prev l) (hb : b ∈ l) :
    ∃ l', l'.Perm l ∧
      Linked (Lib.pushFront (Lib.unlink next prev b).1 (Lib.unlink next prev b).2 b).1
        (Lib.pushFront (Lib.unlink next prev b).1 (Lib.unlink next prev b).2 b).2 l' := by
  obtain ⟨l₁, l₂, rfl⟩ := List.append_of_mem hb
  exact ⟨b :: (l₁ ++ l₂), List.perm_middle.symm,
    h.unlink.pushFront (List.nodup_cons.mp (List.nodup_middle.mp h.nodup)).1⟩

end

/-! ## Searching -/

/-- `for(b = from; b != &head; b = b->link) if(p) return b`, at most `fuel` rounds. -/
def seek (link : Links α) (p : α → Bool) : Nat → Option α → Option α
  | 0, _ => none
  | _ + 1, none => none
  | fuel + 1, some b => if p b then some b else seek link p fuel (link (some b))

theorem Path.seek {next prev : Links α} (p : α → Bool) : ∀ {l : List α} {x : Option α}
    {fuel : Nat}, Path next prev x l none → l.length < fuel →
      seek next p fuel (next x) = l.find? p := by
  intro l
  induction l with
  | nil =>
    intro x fuel h hf
    obtain ⟨n, rfl⟩ : ∃ n, fuel = n + 1 := ⟨fuel - 1, by simp at hf; omega⟩
    rw [h.1]
    rfl
  | cons a l ih =>
    intro x fuel h hf
    obtain ⟨n, rfl⟩ : ∃ n, fuel = n + 1 := ⟨fuel - 1, by simp at hf; omega⟩
    rw [h.1, List.find?_cons, Lib.seek, ih h.2.2 (by simpa using hf)]
    cases p a <;> rfl

end Xv6Paging.Lib
