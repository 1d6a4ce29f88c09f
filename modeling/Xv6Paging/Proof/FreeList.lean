import Xv6Paging.Lib.Chain
import Xv6Paging.User.Umalloc

/-!
# The free list

What `malloc` and `free` keep: the free blocks are linked in address order in a ring that begins
with `base`, no two of them touch, and no block, free or live, overlaps another.
-/

namespace Xv6Paging.Umalloc

open Lib

/-- Where the header of a block is, and its size in headers. -/
abbrev Block : Type := Nat × Nat

/-- There is something between the two blocks. -/
abbrev Before (x y : Block) : Prop := x.1 + 16 * x.2 < y.1

/-- The blocks do not overlap. -/
abbrev Off (x y : Block) : Prop := x.1 + 16 * x.2 ≤ y.1 ∨ y.1 + 16 * y.2 ≤ x.1

/-- The block is not empty and comes from `sbrk`. -/
abbrev Inside (s : Heap) (x : Block) : Prop := 1 ≤ x.2 ∧ s.start ≤ x.1 ∧ x.1 + 16 * x.2 ≤ s.sz

/-- Where things are. -/
structure Layout (s : Heap) : Prop where
  base : 0 < s.base
  below : s.base + 16 ≤ s.start
  aligned : s.start % 4096 = 0
  grown : s.start ≤ s.sz
  top : s.sz ≤ trapframeVA
  room : s.sz ≤ s.start + physPages * 4096

/-- The live blocks `ls` and the ring `ns`. -/
structure Good (s : Heap) (ls ns : List Block) : Prop extends Layout s where
  head : ns.head? = some (s.base, 0)
  links : Leads (fun a => (s.mem a).ptr) (ns.map Prod.fst) s.base
  sizes : ∀ x ∈ ns, (s.mem x.1).size = x.2
  apart : ns.Pairwise Before
  inside : ∀ x ∈ ns, x = (s.base, 0) ∨ Inside s x
  freep : s.freep ∈ ns.map Prod.fst
  liveSizes : ∀ y ∈ ls, (s.mem y.1).size = y.2
  liveInside : ∀ y ∈ ls, Inside s y
  off : ls.Pairwise Off
  clear : ∀ x ∈ ns, ∀ y ∈ ls, Off x y

section

variable {s : Heap} {ls ns l r : List Block} {b p x y : Block}

/-! ## Memory -/

theorem Layout.mapped (h : Layout s) {a : Nat} (ha : a + 16 ≤ s.sz) : s.Mapped a := by
  have htop := h.top
  unfold Heap.Mapped
  rw [pgRoundUp_eq htop]
  omega

theorem Good.mapped (h : Good s ls ns) (hx : x ∈ ns) : s.Mapped x.1 := by
  have hbelow := h.below
  have hgrown := h.grown
  refine h.toLayout.mapped ?_
  rcases h.inside x hx with rfl | hin <;> omega

theorem load_run {a : Nat} (h : s.Mapped a) : load a s = some (s.mem a, s) := if_pos h

theorem bind_load {α : Type} {f : Header → HeapM α} {a : Nat} (h : s.Mapped a) :
    (load a >>= f) s = f (s.mem a) s := by
  change (load a s).bind _ = _
  rw [load_run h]
  rfl

theorem setPtr_run {a v : Nat} (h : s.Mapped a) :
    setPtr a v s = some ((), s.set a ⟨v, (s.mem a).size⟩) := if_pos h

theorem setSize_run {a v : Nat} (h : s.Mapped a) :
    setSize a v s = some ((), s.set a ⟨(s.mem a).ptr, v % 2 ^ 32⟩) := if_pos h

theorem bind_setPtr {α : Type} {f : Unit → HeapM α} {a v : Nat} (h : s.Mapped a) :
    (setPtr a v >>= f) s = f () (s.set a ⟨v, (s.mem a).size⟩) := by
  change (setPtr a v s).bind _ = _
  rw [setPtr_run h]
  rfl

theorem bind_setSize {α : Type} {f : Unit → HeapM α} {a v : Nat} (h : s.Mapped a) :
    (setSize a v >>= f) s = f () (s.set a ⟨(s.mem a).ptr, v % 2 ^ 32⟩) := by
  change (setSize a v s).bind _ = _
  rw [setSize_run h]
  rfl

@[simp] theorem set_self {a : Nat} {h : Header} : (s.set a h).mem a = h := Function.update_self ..

theorem set_ne {a c : Nat} {h : Header} (hne : c ≠ a) : (s.set a h).mem c = s.mem c :=
  Function.update_of_ne hne ..

theorem Layout.forward (h : Layout s) {a n : Nat} (hn : a + 16 * n ≤ s.sz) :
    forward a n = a + 16 * n := by
  have htop := h.top
  unfold trapframeVA trampolineVA maxVA at htop
  exact Nat.mod_eq_of_lt (by omega)

/-! ## Places in the list -/

/-- The addresses in the list go up. -/
theorem Good.sorted (h : Good s ls ns) : ns.Pairwise fun x y => x.1 < y.1 :=
  h.apart.imp fun {x y} (hxy : Before x y) => by omega

theorem Good.addr_ne (h : Good s ls ns) (hx : x ∈ ns) (hy : y ∈ ls) : x.1 ≠ y.1 := by
  have hoff := h.clear x hx y hy
  have hin := h.liveInside y hy
  have hbelow := h.below
  rcases h.inside x hx with rfl | hin'
  · have : s.base + 16 ≤ s.start := hbelow
    change s.base ≠ y.1
    omega
  · omega

theorem Good.cons (h : Good s ls ns) : ∃ tail, ns = (s.base, 0) :: tail := by
  have hhead := h.head
  cases ns with
  | nil => cases hhead
  | cons x ns => exact ⟨ns, by rw [Option.some.inj hhead]⟩

theorem Good.base_le (h : Good s ls ns) : ∀ x ∈ ns, s.base ≤ x.1 := by
  intro x hx
  have hbelow := h.below
  rcases h.inside x hx with rfl | hin
  · exact le_rfl
  · omega

/-- The ring begins with `base`. -/
theorem Good.front (h : Good s ls (l ++ p :: r)) : headOr (l.map Prod.fst) p.1 = s.base := by
  have hhead := h.head
  cases l with
  | nil =>
    rw [List.nil_append, List.head?_cons] at hhead
    rw [Option.some.inj hhead]
    rfl
  | cons x l =>
    rw [List.cons_append, List.head?_cons] at hhead
    rw [Option.some.inj hhead]
    rfl

/-- The node after which a block of address `a` belongs. -/
theorem exists_place {a : Nat} : ∀ {x : Block} {ns : List Block}, x.1 < a →
    (x :: ns).Pairwise (fun x y => x.1 < y.1) → (∀ y ∈ ns, y.1 ≠ a) →
    ∃ l p r, x :: ns = l ++ p :: r ∧ p.1 < a ∧ ∀ y ∈ r, a < y.1 := by
  intro x ns
  induction ns generalizing x with
  | nil => exact fun hx _ _ => ⟨[], x, [], rfl, hx, fun _ h => absurd h List.not_mem_nil⟩
  | cons y ns ih =>
    intro hx hsorted hne
    obtain ⟨-, htail⟩ := List.pairwise_cons.mp hsorted
    rcases Nat.lt_or_ge y.1 a with hlt | hge
    · obtain ⟨l, p, r, heq, hp, hr⟩ := ih hlt htail fun z hz => hne z (List.mem_cons_of_mem y hz)
      exact ⟨x :: l, p, r, by rw [heq]; rfl, hp, hr⟩
    · have hy := hne y List.mem_cons_self
      refine ⟨[], x, y :: ns, rfl, hx, fun z hz => ?_⟩
      rcases List.mem_cons.mp hz with rfl | hz
      · omega
      · have := List.rel_of_pairwise_cons htail hz
        omega

theorem Good.place (h : Good s (b :: ls) ns) :
    ∃ l p r, ns = l ++ p :: r ∧ p.1 < b.1 ∧ ∀ y ∈ r, b.1 < y.1 := by
  obtain ⟨tail, htail⟩ := h.cons
  have hin := h.liveInside b List.mem_cons_self
  have hbelow := h.below
  rw [htail]
  refine exists_place (x := (s.base, 0)) (by change s.base < b.1; omega) (htail ▸ h.sorted)
    fun y hy => ?_
  exact h.addr_ne (htail ▸ List.mem_cons_of_mem _ hy) List.mem_cons_self

/-! ## The walk of `free` -/

/-- A node after which the block does not belong. -/
def Passed (s : Heap) (a : Nat) (x : Nat) : Prop :=
  ¬ (x < a ∧ a < (s.mem x).ptr) ∧ ¬ ((s.mem x).ptr ≤ x ∧ (x < a ∨ a < (s.mem x).ptr))

theorem freeLoop_pass {a t : Nat} (fuel : Nat) :
    ∀ seg : List Nat, Leads (fun x => (s.mem x).ptr) seg t →
    (∀ x ∈ seg, s.Mapped x) → (∀ x ∈ seg, Passed s a x) →
    freeLoop a (fuel + seg.length) (headOr seg t) s = freeLoop a fuel t s := by
  intro seg
  induction seg with
  | nil => exact fun _ _ _ => rfl
  | cons x seg ih =>
    intro hleads hmapped hpassed
    obtain ⟨hnot, hnot'⟩ := hpassed x List.mem_cons_self
    rw [List.length_cons, ← Nat.add_assoc, show headOr (x :: seg) t = x from rfl]
    change (load x >>= _) s = _
    have hnext : (s.mem x).ptr = headOr seg t := hleads.1
    rw [bind_load (hmapped x List.mem_cons_self), if_neg hnot, if_neg hnot', hnext]
    exact ih hleads.2 (fun z hz => hmapped z (List.mem_cons_of_mem x hz))
      fun z hz => hpassed z (List.mem_cons_of_mem x hz)

theorem freeLoop_stop {a x : Nat} (fuel : Nat) (hmapped : s.Mapped x) (h : ¬ Passed s a x) :
    freeLoop a (fuel + 1) x s = some (x, s) := by
  change (load x >>= _) s = _
  rw [bind_load hmapped]
  by_cases hfirst : x < a ∧ a < (s.mem x).ptr
  · rw [if_pos hfirst]
    rfl
  · have hsecond : (s.mem x).ptr ≤ x ∧ (x < a ∨ a < (s.mem x).ptr) := by
      by_contra hno
      exact h ⟨hfirst, hno⟩
    rw [if_neg hfirst, if_pos hsecond]
    rfl

theorem headOr_map_lt {a t : Nat} (hr : ∀ y ∈ r, a < y.1) : headOr (r.map Prod.fst) t = t ∨
    a < headOr (r.map Prod.fst) t := by
  cases r with
  | nil => exact .inl rfl
  | cons y r => exact .inr (hr y List.mem_cons_self)

theorem Good.passed_before {a : Nat} (h : Good s ls (l ++ p :: r)) (hp : p.1 < a) :
    ∀ x ∈ l.map Prod.fst, Passed s a x := by
  intro x hx
  obtain ⟨u, hu, rfl⟩ := List.mem_map.mp hx
  obtain ⟨l₁, l₂, rfl⟩ := List.append_of_mem hu
  have hlinks := h.links
  simp only [List.append_assoc, List.cons_append, List.map_append, List.map_cons] at hlinks
  have hptr := (leads_append_cons.mp hlinks).2.1
  have hsorted := h.sorted
  rw [List.append_assoc] at hsorted
  obtain ⟨-, hu', -⟩ := List.pairwise_append.mp hsorted
  obtain ⟨hafter, hrest⟩ := List.pairwise_cons.mp hu'
  -- the next node is still before the block
  have hnext : (s.mem u.1).ptr ≤ p.1 ∧ u.1 < (s.mem u.1).ptr := by
    rw [hptr]
    cases l₂ with
    | nil => exact ⟨le_rfl, hafter p (by simp)⟩
    | cons v l₂ =>
      have hvp : v.1 < p.1 := List.rel_of_pairwise_cons hrest (by simp)
      exact ⟨hvp.le, hafter v (by simp)⟩
  unfold Passed
  omega

theorem Good.passed_after {a : Nat} (h : Good s ls (l ++ p :: r)) (hr : ∀ y ∈ r, a < y.1)
    (hbase : s.base < a) : ∀ x ∈ r.map Prod.fst, Passed s a x := by
  intro x hx
  obtain ⟨u, hu, rfl⟩ := List.mem_map.mp hx
  have hua := hr u hu
  obtain ⟨r₁, r₂, rfl⟩ := List.append_of_mem hu
  have hlinks := h.links
  rw [← List.cons_append, ← List.append_assoc, List.map_append, List.map_cons] at hlinks
  have hptr := (leads_append_cons.mp hlinks).2.1
  have hsorted := h.sorted
  rw [← List.cons_append, ← List.append_assoc] at hsorted
  obtain ⟨-, hu', -⟩ := List.pairwise_append.mp hsorted
  obtain ⟨hafter, -⟩ := List.pairwise_cons.mp hu'
  have hnext : (s.mem u.1).ptr = s.base ∨ u.1 < (s.mem u.1).ptr := by
    rw [hptr]
    exact headOr_map_lt hafter
  unfold Passed
  omega

theorem Good.stops {a : Nat} (h : Good s ls (l ++ p :: r)) (hp : p.1 < a) (hr : ∀ y ∈ r, a < y.1) :
    ¬ Passed s a p.1 := by
  have hlinks := h.links
  rw [List.map_append, List.map_cons] at hlinks
  have hptr := (leads_append_cons.mp hlinks).2.1
  have hle := h.base_le p (by simp)
  have hnext : (s.mem p.1).ptr = s.base ∨ a < (s.mem p.1).ptr := by
    rw [hptr]
    exact headOr_map_lt hr
  unfold Passed
  omega

/-- Wherever the walk starts, it gets to the place. -/
theorem Good.freeLoop_run {a : Nat} (h : Good s ls (l ++ p :: r)) (hp : p.1 < a)
    (hr : ∀ y ∈ r, a < y.1) : ∃ n, ∀ fuel, freeLoop a (fuel + n) s.freep s = some (p.1, s) := by
  have hlinks := h.links
  rw [List.map_append, List.map_cons] at hlinks
  obtain ⟨hbefore, -, hafter⟩ := leads_append_cons.mp hlinks
  have hmapl : ∀ x ∈ l.map Prod.fst, s.Mapped x := by
    intro x hx
    obtain ⟨u, hu, rfl⟩ := List.mem_map.mp hx
    exact h.mapped (List.mem_append_left _ hu)
  have hmapr : ∀ x ∈ r.map Prod.fst, s.Mapped x := by
    intro x hx
    obtain ⟨u, hu, rfl⟩ := List.mem_map.mp hx
    exact h.mapped (List.mem_append_right _ (List.mem_cons_of_mem _ hu))
  have hstop := fun fuel => freeLoop_stop fuel (h.mapped (x := p) (by simp)) (h.stops hp hr)
  -- from a node of `l`, and so from `base`
  have hfront : ∀ l₁ l₂, l.map Prod.fst = l₁ ++ l₂ → ∀ fuel,
      freeLoop a (fuel + 1 + l₂.length) (headOr l₂ p.1) s = some (p.1, s) := by
    intro l₁ l₂ heq fuel
    rw [heq] at hbefore hmapl
    have hpass := h.passed_before hp
    rw [heq] at hpass
    rw [freeLoop_pass (fuel + 1) l₂ (leads_append.mp hbefore).2 (fun x hx => hmapl x (by simp [hx]))
      fun x hx => hpass x (by simp [hx])]
    exact hstop fuel
  have hbaseRun : ∀ fuel, freeLoop a (fuel + 1 + l.length) s.base s = some (p.1, s) := by
    intro fuel
    have hrun := hfront [] (l.map Prod.fst) rfl fuel
    rw [List.length_map, h.front] at hrun
    exact hrun
  have hfreep := h.freep
  rw [List.map_append, List.map_cons, List.mem_append, List.mem_cons] at hfreep
  rcases hfreep with hl | hpe | hr'
  · obtain ⟨l₁, l₂, heq⟩ := List.append_of_mem hl
    exact ⟨1 + (s.freep :: l₂).length, fun fuel => by
      rw [← Nat.add_assoc]
      exact hfront l₁ (s.freep :: l₂) heq fuel⟩
  · exact ⟨1, fun fuel => hpe ▸ hstop fuel⟩
  · obtain ⟨r₁, r₂, heq⟩ := List.append_of_mem hr'
    rw [heq] at hafter hmapr
    have hpass := h.passed_after hr (Nat.lt_of_le_of_lt (h.base_le p (by simp)) hp)
    rw [heq] at hpass
    refine ⟨1 + l.length + (s.freep :: r₂).length, fun fuel => ?_⟩
    have hround :=
      freeLoop_pass (a := a) (fuel + 1 + l.length) (s.freep :: r₂) (leads_append.mp hafter).2
        (fun x hx => hmapr x (by simp [List.mem_cons.mp hx]))
      fun x hx => hpass x (by simp [List.mem_cons.mp hx])
    rw [← Nat.add_assoc, ← Nat.add_assoc]
    exact hround.trans (hbaseRun fuel)

/-! ## Changing a part of the ring -/

/-- The nodes `p :: o` become `q :: m`, from the same address on; the rest of the ring is as it
was. -/
theorem Good.replace {s' : Heap} {ls' o m : List Block} {q : Block}
    (h : Good s ls (l ++ (p :: o ++ r))) (hstatic : s'.base = s.base ∧ s'.start = s.start ∧
      s'.sz = s.sz) (hq : q.1 = p.1)
    (hbase : p = (s.base, 0) → q = p) (hmem : ∀ x ∈ l ++ r, s'.mem x.1 = s.mem x.1)
    (hlinks : Leads (fun a => (s'.mem a).ptr) ((q :: m).map Prod.fst)
      (headOr (r.map Prod.fst) s.base))
    (hsizes : ∀ x ∈ q :: m, (s'.mem x.1).size = x.2) (hapart : (q :: m).Pairwise Before)
    (hr : ∀ x ∈ q :: m, ∀ y ∈ r, Before x y) (hinside : ∀ x ∈ q :: m, x = (s.base, 0) ∨ Inside s x)
    (hfreep : s'.freep = p.1) (hlive : ∀ y ∈ ls', (s'.mem y.1).size = y.2 ∧ Inside s y)
    (hoff : ls'.Pairwise Off) (hclear : ∀ x ∈ l ++ (q :: m ++ r), ∀ y ∈ ls', Off x y) :
    Good s' ls' (l ++ (q :: m ++ r)) := by
  obtain ⟨hb, hst, hsz⟩ := hstatic
  obtain ⟨hapl, hapr, hcross⟩ := List.pairwise_append.mp h.apart
  have holdlinks := h.links
  rw [List.map_append, leads_append, List.map_append, leads_append] at holdlinks
  obtain ⟨hll, -, hlr⟩ := holdlinks
  have hinl : ∀ x, Inside s' x ↔ Inside s x := fun x => by rw [Inside, Inside, hst, hsz]
  refine ⟨⟨hb ▸ h.base, ?_, ?_, ?_, ?_, ?_⟩, ?_, ?_, ?_, ?_, ?_, ?_, fun y hy => (hlive y hy).1,
    fun y hy => (hinl y).mpr (hlive y hy).2, hoff, hclear⟩
  · rw [hb, hst]
    exact h.below
  · rw [hst]
    exact h.aligned
  · rw [hst, hsz]
    exact h.grown
  · rw [hsz]
    exact h.top
  · rw [hst, hsz]
    exact h.room
  · -- the first node is `base`
    have hhead := h.head
    rw [hb]
    cases l with
    | nil =>
      have hpb : p = (s.base, 0) := Option.some.inj hhead
      rw [← hpb, ← hbase hpb]
      rfl
    | cons x l => exact hhead
  · rw [List.map_append, leads_append, List.map_append, leads_append, hb]
    refine ⟨?_, hlinks, hlr.congr fun a ha => ?_⟩
    · have hfirst : headOr ((q :: m).map Prod.fst ++ r.map Prod.fst) s.base =
          headOr ((p :: o).map Prod.fst ++ r.map Prod.fst) s.base := hq
      rw [hfirst]
      refine hll.congr fun a ha => ?_
      obtain ⟨x, hx, rfl⟩ := List.mem_map.mp ha
      rw [hmem x (List.mem_append_left _ hx)]
    · obtain ⟨x, hx, rfl⟩ := List.mem_map.mp ha
      rw [hmem x (List.mem_append_right _ hx)]
  · intro x hx
    rcases List.mem_append.mp hx with hx | hx
    · rw [hmem x (List.mem_append_left _ hx)]
      exact h.sizes x (List.mem_append_left _ hx)
    · rcases List.mem_append.mp hx with hx | hx
      · exact hsizes x hx
      · rw [hmem x (List.mem_append_right _ hx)]
        exact h.sizes x (List.mem_append_right _ (List.mem_append_right _ hx))
  · refine List.pairwise_append.mpr ⟨hapl,
      List.pairwise_append.mpr ⟨hapart, (List.pairwise_append.mp hapr).2.1, hr⟩,
      fun x hx y hy => ?_⟩
    rcases List.mem_append.mp hy with hy | hy
    · have hxp := hcross x hx p (by simp)
      rcases List.mem_cons.mp hy with rfl | hy
      · omega
      · have hqy := List.rel_of_pairwise_cons hapart hy
        omega
    · exact hcross x hx y (by simp [hy])
  · intro x hx
    rw [hinl, hb]
    rcases List.mem_append.mp hx with hx | hx
    · exact h.inside x (List.mem_append_left _ hx)
    · rcases List.mem_append.mp hx with hx | hx
      · exact hinside x hx
      · exact h.inside x (List.mem_append_right _ (List.mem_append_right _ hx))
  · rw [hfreep, ← hq]
    simp

/-! ## `free` -/

/-- Sizes do not overflow. -/
theorem Layout.size_lt (h : Layout s) (hx : Inside s x) : x.2 < 2 ^ 32 := by
  have hroom := h.room
  unfold physPages at hroom
  omega

theorem set_set {a : Nat} {h h' : Header} : (s.set a h).set a h' = s.set a h' := by
  simp only [Heap.set, Function.update_idem]

theorem set_mapped {a c : Nat} {h : Header} : (s.set a h).Mapped c ↔ s.Mapped c := Iff.rfl

theorem Good.next (h : Good s ls (l ++ p :: r)) :
    (s.mem p.1).ptr = headOr (r.map Prod.fst) s.base := by
  have hlinks := h.links
  rw [List.map_append, List.map_cons] at hlinks
  exact (leads_append_cons.mp hlinks).2.1

/-- The block has joined the one after it or points to it; the nodes `r₁` come next. -/
structure NextJoined (s : Heap) (ls r : List Block) (b : Block) (m : Nat) (r₁ : List Block) :
    Prop where
  rest : ∃ r₀, r = r₀ ++ r₁
  grows : b.2 ≤ m
  before : ∀ y ∈ r₁, Before (b.1, m) y
  inside : Inside s (b.1, m)
  off : ∀ y ∈ ls, Off (b.1, m) y

theorem Good.joinNext_run (h : Good s (b :: ls) (l ++ p :: r)) (hp : p.1 < b.1)
    (hr : ∀ y ∈ r, b.1 < y.1) :
    ∃ m r₁, joinNext b.1 p.1 s = some ((), s.set b.1 ⟨headOr (r₁.map Prod.fst) s.base, m⟩) ∧
      NextJoined s ls r b m r₁ := by
  have hin := h.liveInside b List.mem_cons_self
  have hmapb : s.Mapped b.1 := h.toLayout.mapped (by omega)
  have hmapp : s.Mapped p.1 := h.mapped (by simp)
  have hsize := h.liveSizes b List.mem_cons_self
  have hoff := List.pairwise_cons.mp h.off
  have hbelow := h.below
  unfold joinNext
  rw [bind_load hmapb, bind_load hmapp, hsize, h.toLayout.forward hin.2.2, h.next]
  cases r with
  | nil =>
    rw [if_neg (by change ¬ _ = s.base; omega), setPtr_run hmapb, hsize]
    exact ⟨b.2, [], rfl, ⟨[], rfl⟩, le_rfl, fun _ hy => absurd hy List.not_mem_nil, hin, hoff.1⟩
  | cons y r =>
    have hclear := h.clear y (by simp) b List.mem_cons_self
    have hby := hr y List.mem_cons_self
    have hyin : Inside s y := by
      rcases h.inside y (by simp) with rfl | hyin
      · have : s.start ≤ b.1 := hin.2.1
        change b.1 < s.base at hby
        omega
      · exact hyin
    have hafter : ∀ z ∈ r, Before y z := by
      have hapart := h.apart
      rw [List.append_cons] at hapart
      exact fun z hz => List.rel_of_pairwise_cons (List.pairwise_append.mp hapart).2.1 hz
    rw [show headOr ((y :: r).map Prod.fst) s.base = y.1 from rfl]
    split
    · rename_i htouch
      have hnext : (s.mem y.1).ptr = headOr (r.map Prod.fst) s.base := by
        rw [List.append_cons] at h
        exact h.next
      have hsum : Inside s (b.1, b.2 + y.2) := by
        refine ⟨?_, hin.2.1, ?_⟩
        · change 1 ≤ b.2 + y.2
          omega
        · change b.1 + 16 * (b.2 + y.2) ≤ s.sz
          omega
      have hmod : (b.2 + y.2) % 2 ^ 32 = b.2 + y.2 := Nat.mod_eq_of_lt (h.toLayout.size_lt hsum)
      have hmapy : s.Mapped y.1 := h.mapped (by simp)
      have hpb : p.1 ≠ b.1 := by omega
      have hyb : y.1 ≠ b.1 := by omega
      refine ⟨b.2 + y.2, r, ?_, ⟨[y], rfl⟩, Nat.le_add_right .., fun z hz => ?_, hsum,
        fun z hz => ?_⟩
      · rw [bind_load hmapy, bind_setSize hmapb, bind_load (set_mapped.mpr hmapp),
          set_ne hpb, h.next]
        rw [show headOr ((y :: r).map Prod.fst) s.base = y.1 from rfl,
          bind_load (set_mapped.mpr hmapy), set_ne hyb, setPtr_run (set_mapped.mpr hmapb), set_set,
          set_self, h.sizes y (by simp), hmod, hnext]
      · have hyz := hafter z hz
        change b.1 + 16 * (b.2 + y.2) < z.1
        omega
      · have hbz := hoff.1 z hz
        have hyz := h.clear y (by simp) z (List.mem_cons_of_mem _ hz)
        have hzin := h.liveInside z (List.mem_cons_of_mem _ hz)
        change b.1 + 16 * (b.2 + y.2) ≤ z.1 ∨ z.1 + 16 * z.2 ≤ b.1
        omega
    · rename_i hapart
      rw [setPtr_run hmapb, hsize]
      refine ⟨b.2, y :: r, rfl, ⟨[], rfl⟩, le_rfl, fun z hz => ?_, hin, hoff.1⟩
      rcases List.mem_cons.mp hz with rfl | hz
      · change b.1 + 16 * b.2 < z.1
        omega
      · have hyz := hafter z hz
        change b.1 + 16 * b.2 < z.1
        omega

/-- `joinPrev`, from the memory as `joinNext` leaves it. -/
theorem joinPrev_run {t : Heap} {a m next : Nat} (hp : t.Mapped p.1) (ha : t.Mapped a)
    (hsize : (t.mem p.1).size = p.2) (hfwd : forward p.1 p.2 = p.1 + 16 * p.2) (hne : a ≠ p.1)
    (hb : t.mem a = ⟨next, m⟩) (hsum : p.2 + m < 2 ^ 32) :
    joinPrev a p.1 t = some ((), t.set p.1
      (if p.1 + 16 * p.2 = a then ⟨next, p.2 + m⟩ else ⟨a, p.2⟩)) := by
  unfold joinPrev
  rw [bind_load hp, hsize, hfwd]
  split
  · rw [bind_load ha, hb, bind_setSize hp, bind_load (set_mapped.mpr ha), set_ne hne, hb,
      setPtr_run (set_mapped.mpr hp), set_set, set_self, Nat.mod_eq_of_lt hsum]
  · rw [setPtr_run hp, hsize]

/-- The heap with the block `b` freed behind `p`: the headers of the two are new, the nodes `l` and
`r₁` and the live blocks are as they were. -/
structure Relinked (s t : Heap) (ls l r₁ : List Block) (p : Block) : Prop where
  static : t.base = s.base ∧ t.start = s.start ∧ t.sz = s.sz
  freep : t.freep = p.1
  mem : ∀ x ∈ l ++ r₁, t.mem x.1 = s.mem x.1
  live : ∀ y ∈ ls, (t.mem y.1).size = y.2 ∧ Inside s y

section

variable {t : Heap} {r₀ r₁ : List Block} {m : Nat} (h : Good s (b :: ls) (l ++ p :: (r₀ ++ r₁)))

include h

theorem Good.relinked (hstatic : t.base = s.base ∧ t.start = s.start ∧ t.sz = s.sz)
    (hfreep : t.freep = p.1) (hother : ∀ a, a ≠ p.1 → a ≠ b.1 → t.mem a = s.mem a) :
    Relinked s t ls l r₁ p := by
  refine ⟨hstatic, hfreep, fun x hx => hother x.1 ?_ (h.addr_ne ?_ List.mem_cons_self),
    fun y hy => ?_⟩
  · have hsorted := List.pairwise_append.mp h.sorted
    rcases List.mem_append.mp hx with hx | hx
    · exact Nat.ne_of_lt (hsorted.2.2 x hx p (by simp))
    · exact Nat.ne_of_gt (List.rel_of_pairwise_cons hsorted.2.1 (by simp [hx]))
  · rcases List.mem_append.mp hx with hx | hx <;> simp [hx]
  · have hin := h.liveInside b List.mem_cons_self
    have hyin := h.liveInside y (List.mem_cons_of_mem _ hy)
    have hby := (List.pairwise_cons.mp h.off).1 y hy
    refine ⟨?_, hyin⟩
    rw [hother y.1 (h.addr_ne (x := p) (by simp) (List.mem_cons_of_mem _ hy)).symm (by omega)]
    exact h.liveSizes y (List.mem_cons_of_mem _ hy)

theorem Good.off_rest (x : Block) (hx : x ∈ l ++ p :: r₁) (y : Block) (hy : y ∈ ls) : Off x y := by
  refine h.clear x ?_ y (List.mem_cons_of_mem _ hy)
  simp only [List.mem_append, List.mem_cons] at hx ⊢
  rcases hx with hx | rfl | hx
  · exact .inl hx
  · exact .inr (.inl rfl)
  · exact .inr (.inr (.inr hx))

/-- The block touches the one before it, which swallows it. -/
theorem Good.free_touching (hrel : Relinked s t ls l r₁ p)
    (hnext : NextJoined s ls (r₀ ++ r₁) b m r₁) (htouch : p.1 + 16 * p.2 = b.1)
    (hpmem : t.mem p.1 = ⟨headOr (r₁.map Prod.fst) s.base, p.2 + m⟩) :
    Good t ls (l ++ ((p.1, p.2 + m) :: [] ++ r₁)) := by
  have hin := h.liveInside b List.mem_cons_self
  have hmin : Inside s (b.1, m) := hnext.inside
  have hnotbase : p ≠ (s.base, 0) := by
    rintro rfl
    have := h.below
    change s.base + 16 * 0 = b.1 at htouch
    omega
  have hpin : Inside s p := (h.inside p (by simp)).resolve_left hnotbase
  refine h.replace hrel.static rfl (fun hbase => absurd hbase hnotbase) hrel.mem
    ⟨congrArg Header.ptr hpmem, trivial⟩ ?_ (List.pairwise_singleton ..) ?_ ?_ hrel.freep hrel.live
    (List.pairwise_cons.mp h.off).2 ?_
  · intro x hx
    obtain rfl := List.mem_singleton.mp hx
    exact congrArg Header.size hpmem
  · intro x hx y hy
    obtain rfl := List.mem_singleton.mp hx
    have := hnext.before y hy
    change p.1 + 16 * (p.2 + m) < y.1
    omega
  · intro x hx
    obtain rfl := List.mem_singleton.mp hx
    refine .inr ⟨?_, hpin.2.1, ?_⟩
    · change 1 ≤ p.2 + m
      omega
    · change p.1 + 16 * (p.2 + m) ≤ s.sz
      omega
  · intro x hx y hy
    rcases List.mem_append.mp hx with hx | hx
    · exact h.off_rest x (by simp [hx]) y hy
    · rcases List.mem_cons.mp hx with rfl | hx
      · -- both halves are off `y`, and `y` does not fit in between
        have h₁ := h.off_rest p (by simp) y hy
        have h₂ := hnext.off y hy
        have h₃ := (hrel.live y hy).2
        change p.1 + 16 * (p.2 + m) ≤ y.1 ∨ y.1 + 16 * y.2 ≤ p.1
        omega
      · exact h.off_rest x (by simp at hx; simp [hx]) y hy

/-- There is something in between, and the block becomes a node of its own. -/
theorem Good.free_apart (hrel : Relinked s t ls l r₁ p) (hnext : NextJoined s ls (r₀ ++ r₁) b m r₁)
    (hbefore : p.1 + 16 * p.2 < b.1) (hpmem : t.mem p.1 = ⟨b.1, p.2⟩)
    (hbmem : t.mem b.1 = ⟨headOr (r₁.map Prod.fst) s.base, m⟩) :
    Good t ls (l ++ (p :: [(b.1, m)] ++ r₁)) := by
  refine h.replace hrel.static rfl (fun _ => rfl) hrel.mem
    ⟨congrArg Header.ptr hpmem, congrArg Header.ptr hbmem, trivial⟩ ?_ ?_ ?_ ?_ hrel.freep hrel.live
    (List.pairwise_cons.mp h.off).2 ?_
  · intro x hx
    rcases List.mem_cons.mp hx with rfl | hx
    · exact congrArg Header.size hpmem
    · obtain rfl := List.mem_singleton.mp hx
      exact congrArg Header.size hbmem
  · refine List.pairwise_cons.mpr ⟨fun y hy => ?_, List.pairwise_singleton ..⟩
    obtain rfl := List.mem_singleton.mp hy
    exact hbefore
  · intro x hx y hy
    rcases List.mem_cons.mp hx with rfl | hx
    · exact List.rel_of_pairwise_cons (List.pairwise_append.mp h.apart).2.1 (by simp [hy])
    · obtain rfl := List.mem_singleton.mp hx
      exact hnext.before y hy
  · intro x hx
    rcases List.mem_cons.mp hx with rfl | hx
    · exact h.inside x (by simp)
    · obtain rfl := List.mem_singleton.mp hx
      exact .inr hnext.inside
  · intro x hx y hy
    simp only [List.mem_append, List.mem_cons, List.not_mem_nil, or_false] at hx
    rcases hx with hx | (rfl | rfl) | hx
    · exact h.off_rest x (by simp [hx]) y hy
    · exact h.off_rest x (by simp) y hy
    · exact hnext.off y hy
    · exact h.off_rest x (by simp [hx]) y hy

/-- What `joinPrev` does after `joinNext`. -/
theorem Good.joinPrev_joined (hnext : NextJoined s ls (r₀ ++ r₁) b m r₁) (hp : p.1 < b.1)
    (next : Nat) :
    joinPrev b.1 p.1 (s.set b.1 ⟨next, m⟩) = some ((), Heap.set (s.set b.1 ⟨next, m⟩) p.1
      (if p.1 + 16 * p.2 = b.1 then ⟨next, p.2 + m⟩ else ⟨b.1, p.2⟩)) := by
  have hin := h.liveInside b List.mem_cons_self
  have hclear := h.clear p (by simp) b List.mem_cons_self
  have hmin : Inside s (b.1, m) := hnext.inside
  have hbound : p.2 + m < 2 ^ 32 := by
    have hroom := h.room
    unfold physPages at hroom
    have := hmin.2.1
    have := hmin.2.2
    rcases h.inside p (by simp) with rfl | hpin
    · change 0 + m < 2 ^ 32
      omega
    · omega
  have hsizep : ((s.set b.1 ⟨next, m⟩).mem p.1).size = p.2 := by
    rw [set_ne (Nat.ne_of_lt hp)]
    exact h.sizes p (by simp)
  exact joinPrev_run (set_mapped.mpr (h.mapped (x := p) (by simp)))
    (set_mapped.mpr (h.toLayout.mapped (a := b.1) (by omega))) hsizep
    (h.toLayout.forward (by omega)) (Nat.ne_of_gt hp) set_self hbound

end

/-- **`free` keeps the list**, and puts a block in it that is as large as the one it is given. -/
theorem Good.free_run (h : Good s (b :: ls) ns) : ∃ n s' ns',
    (∀ fuel, free (fuel + n) (b.1 + 16) s = some ((), s')) ∧ Good s' ls ns' ∧
    (∃ x ∈ ns', b.2 ≤ x.2) ∧ s'.start = s.start ∧ s'.base = s.base := by
  obtain ⟨l, p, r, rfl, hp, hr⟩ := h.place
  obtain ⟨n, hwalk⟩ := h.freeLoop_run hp hr
  obtain ⟨m, r₁, hjoin, hnext⟩ := h.joinNext_run hp hr
  obtain ⟨r₀, rfl⟩ := hnext.rest
  have hprev := h.joinPrev_joined hnext hp (headOr (r₁.map Prod.fst) s.base)
  generalize hs' : (Heap.set (s.set b.1 ⟨headOr (r₁.map Prod.fst) s.base, m⟩) p.1
    (if p.1 + 16 * p.2 = b.1 then ⟨headOr (r₁.map Prod.fst) s.base, p.2 + m⟩ else ⟨b.1, p.2⟩)) = s'
    at hprev
  have hsub : sub64 (b.1 + 16) 16 = b.1 := by
    have hin := h.liveInside b List.mem_cons_self
    have htop := h.top
    unfold trapframeVA trampolineVA maxVA at htop
    unfold sub64
    omega
  have hrun : ∀ fuel, free (fuel + n) (b.1 + 16) s = some ((), { s' with freep := p.1 }) := by
    intro fuel
    unfold free
    rw [hsub]
    refine bind_run.mpr ⟨s, s, rfl, bind_run.mpr ⟨p.1, s, hwalk fuel, ?_⟩⟩
    refine bind_run.mpr ⟨(), _, hjoin, bind_run.mpr ⟨(), s', hprev, rfl⟩⟩
  have hstatic : s'.base = s.base ∧ s'.start = s.start ∧ s'.sz = s.sz := by
    rw [← hs']
    exact ⟨rfl, rfl, rfl⟩
  have hrel : Relinked s { s' with freep := p.1 } ls l r₁ p :=
    h.relinked hstatic rfl fun a hap hab => by
      change s'.mem a = s.mem a
      rw [← hs', set_ne hap, set_ne hab]
  have hgrows := hnext.grows
  by_cases htouch : p.1 + 16 * p.2 = b.1
  · have hpmem : s'.mem p.1 = ⟨headOr (r₁.map Prod.fst) s.base, p.2 + m⟩ := by
      rw [← hs', set_self, if_pos htouch]
    refine ⟨n, _, _, hrun, h.free_touching hrel hnext htouch hpmem, ⟨(p.1, p.2 + m), by simp, ?_⟩,
      hstatic.2.1, hstatic.1⟩
    change b.2 ≤ p.2 + m
    omega
  · have hclear := h.clear p (by simp) b List.mem_cons_self
    have hpmem : s'.mem p.1 = ⟨b.1, p.2⟩ := by
      rw [← hs', set_self, if_neg htouch]
    have hbmem : s'.mem b.1 = ⟨headOr (r₁.map Prod.fst) s.base, m⟩ := by
      rw [← hs', set_ne (Nat.ne_of_gt hp), set_self]
    exact ⟨n, _, _, hrun, h.free_apart hrel hnext (by omega) hpmem hbmem,
      ⟨(b.1, m), by simp, hgrows⟩, hstatic.2.1, hstatic.1⟩

end

end Xv6Paging.Umalloc
