import Mathlib

/-!
# Singly linked chains

`Leads next l t`: the nodes of `l` are linked one to the next, and the last one to `t`. A ring is a
chain that leads to its own first node.
-/

namespace Xv6Paging.Lib

variable {α : Type} {next : α → α} {l r : List α} {a t : α}

/-- The first node of a chain to `t`. -/
def headOr (l : List α) (t : α) : α := l.head?.getD t

/-- The links lead through `l` to `t`. -/
def Leads (next : α → α) : List α → α → Prop
  | [], _ => True
  | a :: l, t => next a = headOr l t ∧ Leads next l t

theorem headOr_append (l r : List α) (t : α) : headOr (l ++ r) t = headOr l (headOr r t) := by
  cases l with
  | nil => rfl
  | cons a l => rfl

theorem leads_append : Leads next (l ++ r) t ↔ Leads next l (headOr r t) ∧ Leads next r t := by
  induction l with
  | nil => simp [Leads]
  | cons a l ih => rw [List.cons_append, Leads, Leads, ih, headOr_append, and_assoc]

theorem leads_append_cons : Leads next (l ++ a :: r) t ↔
    Leads next l a ∧ next a = headOr r t ∧ Leads next r t := leads_append

/-- Only the links of the nodes matter. -/
theorem Leads.congr {next' : α → α} (h : Leads next l t) (hn : ∀ x ∈ l, next' x = next x) :
    Leads next' l t := by
  induction l with
  | nil => trivial
  | cons a l ih =>
    exact ⟨(hn a List.mem_cons_self).trans h.1, ih h.2 fun x hx => hn x (List.mem_cons_of_mem a hx)⟩

end Xv6Paging.Lib
