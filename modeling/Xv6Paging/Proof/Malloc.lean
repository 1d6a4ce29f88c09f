import Xv6Paging.Lib.Run
import Xv6Paging.Proof.FreeList

/-!
# `malloc`

The search of `malloc` goes once around the list. Either it finds a block that is large enough, or
`morecore` puts one into the list and the next round finds it.
-/

namespace Xv6Paging.Umalloc

open Lib

/-! ## `sbrk` is what the kernel does -/

theorem uvmdealloc_size {km km' : Kmem} {pt pt' : PageTable} {oldsz newsz sz : Nat}
    (h : uvmdealloc km pt oldsz newsz = .ok (sz, km', pt')) :
    sz = if oldsz ≤ newsz then oldsz else newsz := by
  unfold uvmdealloc at h
  split at h
  · rename_i hle
    cases h
    exact (if_pos hle).symm
  · rename_i hlt
    rw [if_neg hlt]
    split at h
    · obtain ⟨⟨km₁, pt₁⟩, -, hrest⟩ := bind_eq_ok.mp h
      cases hrest
      rfl
    · cases h
      rfl

theorem uvmalloc_size {km km' : Kmem} {pt pt' : PageTable} {oldsz newsz sz : Nat}
    (hle : oldsz ≤ newsz) (h : uvmalloc km pt oldsz newsz = .ok (sz, km', pt')) :
    sz = newsz ∨ sz = 0 := by
  unfold uvmalloc at h
  rw [if_neg (Nat.not_lt.mpr hle)] at h
  obtain ⟨⟨ok, km₁, pt₁⟩, -, hrest⟩ := bind_eq_ok.mp h
  cases hrest
  cases ok with
  | false => exact .inr rfl
  | true => exact .inl rfl

/-- An eager `sys_sbrk` of the kernel is an `sbrk` here, as long as the process has no more pages
than there are. -/
theorem sbrk_of_sysSbrk {k k' : Kernel} {s : Heap} {n : Int} {r : Option Nat} (hlo : -2 ^ 31 ≤ n)
    (hhi : n < 2 ^ 31) (hsz : s.sz = k.p.sz) (htop : k.p.sz ≤ trapframeVA)
    (hrun : sysSbrk k n sbrkEager = .ok (r, k'))
    (hpages : r ≠ none → pgRoundUp k'.p.sz ≤ pgRoundUp s.start + physPages * 4096) :
    ∃ memory, sbrk n memory s = some (r, { s with sz := k'.p.sz }) := by
  have hsame : ({ s with sz := k.p.sz } : Heap) = s := by rw [← hsz]
  have hn : argint n = n := Int.bmod_eq_of_le (by omega) (by omega)
  unfold sysSbrk at hrun
  dsimp only at hrun
  rw [hn, if_pos (.inl rfl)] at hrun
  obtain ⟨⟨ok, k₁⟩, hgrow, hrest⟩ := bind_eq_ok.mp hrun
  cases hrest
  unfold growproc at hgrow
  dsimp only at hgrow
  unfold sbrk
  rw [hsz]
  split at hgrow
  · rename_i hpos
    simp only [if_pos hpos]
    split at hgrow
    · rename_i hover
      cases hgrow
      refine ⟨true, ?_⟩
      rw [if_pos hover, hsame]
      rfl
    · rename_i hfits
      simp only [if_neg hfits]
      obtain ⟨⟨sz, km, pt⟩, halloc, hrest⟩ := bind_eq_ok.mp hgrow
      have hle : k.p.sz < addInt64 k.p.sz n := by
        rw [trapframeVA_eq] at htop
        unfold addInt64
        omega
      dsimp only at hrest
      rcases uvmalloc_size hle.le halloc with rfl | rfl
      · rw [if_neg (by omega)] at hrest
        cases hrest
        refine ⟨true, ?_⟩
        rw [if_pos ⟨rfl, hpages (by simp)⟩]
        rfl
      · rw [if_pos rfl] at hrest
        cases hrest
        refine ⟨false, ?_⟩
        rw [if_neg (by simp), hsame]
        rfl
  · rename_i hpos
    simp only [if_neg hpos]
    split at hgrow
    · rename_i hneg
      obtain ⟨⟨sz, km, pt⟩, hdealloc, hrest⟩ := bind_eq_ok.mp hgrow
      have hsize := uvmdealloc_size hdealloc
      cases hrest
      refine ⟨true, ?_⟩
      rw [if_pos hneg]
      dsimp only
      rw [hsize]
      split
      · rw [hsame]
        rfl
      · rfl
    · rename_i hneg
      cases hgrow
      refine ⟨true, ?_⟩
      rw [if_neg hneg, hsame]
      rfl

section

variable {s : Heap} {ls ns l r : List Block} {p x y : Block} {n : Nat}

/-! ## Taking a block -/

/-- A block of `n` units has been taken from the list. -/
def Took (n : Nat) (ls : List Block) (res : Nat) (s' : Heap) : Prop :=
  16 ≤ res ∧ ∃ ns', Good s' ((res - 16, n) :: ls) ns'

theorem bind_setFreep {α : Type} {f : Unit → HeapM α} {a : Nat} :
    (setFreep a >>= f) s = f () { s with freep := a } := rfl

/-- A node between two parts of the list. -/
theorem Good.around (h : Good s ls (l ++ p :: x :: r)) :
    (∀ z ∈ l ++ [p], Before z x) ∧ ∀ z ∈ r, Before x z := by
  have hapart := h.apart
  rw [List.append_cons] at hapart
  obtain ⟨-, hx, hcross⟩ := List.pairwise_append.mp hapart
  exact ⟨fun z hz => hcross z hz x List.mem_cons_self, (List.pairwise_cons.mp hx).1⟩

theorem Good.large_inside (h : Good s ls ns) (hx : x ∈ ns) (hn : 1 ≤ x.2) : Inside s x := by
  rcases h.inside x hx with rfl | hin
  · cases hn
  · exact hin

/-- All of a block. -/
theorem Good.take_all (h : Good s ls (l ++ p :: x :: r)) (hn : 1 ≤ x.2) :
    ∃ s', takeBlock x.2 p.1 x.1 s = some (x.1 + 16, s') ∧ Good s' (x :: ls) (l ++ p :: r) ∧
      s'.start = s.start ∧ s'.base = s.base := by
  obtain ⟨hbefore, hafter⟩ := h.around
  have hin := h.large_inside (x := x) (by simp) hn
  have hpx := hbefore p (by simp)
  have hnext : (s.mem x.1).ptr = headOr (r.map Prod.fst) s.base := by
    rw [List.append_cons] at h
    exact h.next
  have hsizep := h.sizes p (by simp)
  have hother : ∀ a, a ≠ p.1 → (s.set p.1 ⟨headOr (r.map Prod.fst) s.base, p.2⟩).mem a = s.mem a :=
    fun a ha => set_ne ha
  refine ⟨{ s.set p.1 ⟨headOr (r.map Prod.fst) s.base, p.2⟩ with freep := p.1 }, ?_, ?_, rfl, rfl⟩
  · unfold takeBlock
    rw [bind_load (h.mapped (x := x) (by simp)), if_pos (h.sizes x (by simp)),
      bind_setPtr (h.mapped (x := p) (by simp)), bind_setFreep, h.toLayout.forward (by omega),
      hnext, hsizep]
    rfl
  · refine h.replace (o := [x]) (q := p) (m := []) ⟨rfl, rfl, rfl⟩ rfl (fun _ => rfl) ?_
      ⟨congrArg Header.ptr set_self, trivial⟩ ?_ (List.pairwise_singleton ..) ?_ ?_ rfl ?_ ?_ ?_
    · intro z hz
      refine hother z.1 ?_
      rcases List.mem_append.mp hz with hz | hz
      · exact Nat.ne_of_lt ((List.pairwise_append.mp h.sorted).2.2 z hz p List.mem_cons_self)
      · have := hafter z hz
        omega
    · intro z hz
      obtain rfl := List.mem_singleton.mp hz
      exact congrArg Header.size set_self
    · intro z hz y hy
      obtain rfl := List.mem_singleton.mp hz
      have := hafter y hy
      omega
    · intro z hz
      obtain rfl := List.mem_singleton.mp hz
      exact h.inside z (by simp)
    · intro y hy
      rcases List.mem_cons.mp hy with rfl | hy
      · refine ⟨?_, hin⟩
        change (Heap.mem (s.set _ _) _).size = _
        rw [hother y.1 (by omega)]
        exact h.sizes y (by simp)
      · refine ⟨?_, h.liveInside y hy⟩
        change (Heap.mem (s.set _ _) _).size = _
        rw [hother y.1 (h.addr_ne (x := p) (by simp) hy).symm]
        exact h.liveSizes y hy
    · exact List.pairwise_cons.mpr ⟨fun y hy => h.clear x (by simp) y hy, h.off⟩
    · intro z hz y hy
      have hzold : z ∈ l ++ p :: x :: r := by
        simp only [List.mem_append, List.mem_cons, List.not_mem_nil, or_false] at hz ⊢
        rcases hz with hz | rfl | hz
        · exact .inl hz
        · exact .inr (.inl rfl)
        · exact .inr (.inr (.inr hz))
      rcases List.mem_cons.mp hy with rfl | hy
      · simp only [List.mem_append, List.mem_cons, List.not_mem_nil, or_false] at hz
        rcases hz with hz | rfl | hz
        · exact .inl (hbefore z (by simp [hz])).le
        · exact .inl hpx.le
        · exact .inr (hafter z hz).le
      · exact h.clear z hzold y hy

/-- The end of a block. -/
theorem Good.take_part (h : Good s ls (l ++ p :: x :: r)) (hn : 1 ≤ n) (hlt : n < x.2) :
    ∃ s', takeBlock n p.1 x.1 s = some (x.1 + 16 * (x.2 - n) + 16, s') ∧
      Good s' ((x.1 + 16 * (x.2 - n), n) :: ls) (l ++ p :: (x.1, x.2 - n) :: r) ∧
      s'.start = s.start ∧ s'.base = s.base := by
  obtain ⟨hbefore, hafter⟩ := h.around
  have hin := h.large_inside (x := x) (by simp) (by omega)
  have hpx := hbefore p (by simp)
  have hsmall := h.toLayout.size_lt hin
  have hnext : (s.mem x.1).ptr = headOr (r.map Prod.fst) s.base := by
    rw [List.append_cons] at h
    exact h.next
  obtain ⟨a, ha⟩ : ∃ a, a = x.1 + 16 * (x.2 - n) := ⟨_, rfl⟩
  rw [← ha]
  have hother : ∀ c, c ≠ x.1 → c ≠ a →
      ((s.set x.1 ⟨(s.mem x.1).ptr, x.2 - n⟩).set a ⟨(s.mem a).ptr, n⟩).mem c = s.mem c :=
    fun c hcx hca => (set_ne hca).trans (set_ne hcx)
  have hxmem : ((s.set x.1 ⟨(s.mem x.1).ptr, x.2 - n⟩).set a ⟨(s.mem a).ptr, n⟩).mem x.1 =
      ⟨(s.mem x.1).ptr, x.2 - n⟩ :=
    (set_ne (by omega)).trans set_self
  refine ⟨{ (s.set x.1 ⟨(s.mem x.1).ptr, x.2 - n⟩).set a ⟨(s.mem a).ptr, n⟩ with freep := p.1 },
    ?_, ?_, rfl, rfl⟩
  · have hmapx := h.mapped (x := x) (by simp)
    have hmapa : s.Mapped a := h.toLayout.mapped (by omega)
    unfold takeBlock
    rw [bind_load hmapx, h.sizes x (by simp), if_neg (by omega), bind_setSize hmapx,
      h.toLayout.forward (by omega), ← ha, bind_setSize (set_mapped.mpr hmapa), bind_setFreep,
      h.toLayout.forward (by omega), set_ne (by omega), Nat.mod_eq_of_lt (by omega),
      Nat.mod_eq_of_lt (by omega)]
    rfl
  · refine h.replace (o := [x]) (q := p) (m := [(x.1, x.2 - n)]) ⟨rfl, rfl, rfl⟩ rfl
      (fun _ => rfl) ?_ ⟨?_, ?_, trivial⟩
      ?_ ?_ ?_ ?_ rfl ?_ ?_ ?_
    · intro z hz
      refine hother z.1 ?_ ?_ <;> rcases List.mem_append.mp hz with hz | hz
      · have := hbefore z (by simp [hz])
        omega
      · have := hafter z hz
        omega
      · have := hbefore z (by simp [hz])
        omega
      · have := hafter z hz
        omega
    · change (Heap.mem (Heap.set _ _ _) _).ptr = x.1
      rw [hother p.1 (by omega) (by omega)]
      exact h.next
    · exact (congrArg Header.ptr hxmem).trans hnext
    · intro z hz
      rcases List.mem_cons.mp hz with rfl | hz
      · change (Heap.mem (Heap.set _ _ _) _).size = _
        rw [hother z.1 (by omega) (by omega)]
        exact h.sizes z (by simp)
      · obtain rfl := List.mem_singleton.mp hz
        exact congrArg Header.size hxmem
    · refine List.pairwise_cons.mpr ⟨fun y hy => ?_, List.pairwise_singleton ..⟩
      obtain rfl := List.mem_singleton.mp hy
      exact hpx
    · intro z hz y hy
      have hxy := hafter y hy
      rcases List.mem_cons.mp hz with rfl | hz
      · omega
      · obtain rfl := List.mem_singleton.mp hz
        change x.1 + 16 * (x.2 - n) < y.1
        omega
    · intro z hz
      rcases List.mem_cons.mp hz with rfl | hz
      · exact h.inside z (by simp)
      · obtain rfl := List.mem_singleton.mp hz
        refine .inr ⟨?_, hin.2.1, ?_⟩
        · change 1 ≤ x.2 - n
          omega
        · change x.1 + 16 * (x.2 - n) ≤ s.sz
          omega
    · intro y hy
      rcases List.mem_cons.mp hy with rfl | hy
      · refine ⟨congrArg Header.size set_self, hn, ?_, ?_⟩
        · change s.start ≤ a
          omega
        · change a + 16 * n ≤ s.sz
          omega
      · have hyin := h.liveInside y hy
        have hxy := h.clear x (by simp) y hy
        refine ⟨?_, hyin⟩
        change (Heap.mem (Heap.set _ _ _) _).size = _
        rw [hother y.1 (by omega) (by omega)]
        exact h.liveSizes y hy
    · refine List.pairwise_cons.mpr ⟨fun y hy => ?_, h.off⟩
      have hyin := h.liveInside y hy
      have hxy := h.clear x (by simp) y hy
      change a + 16 * n ≤ y.1 ∨ y.1 + 16 * y.2 ≤ a
      omega
    · intro z hz y hy
      simp only [List.mem_append, List.mem_cons, List.not_mem_nil, or_false] at hz
      rcases hz with hz | (rfl | rfl) | hz
      · rcases List.mem_cons.mp hy with rfl | hy
        · have := hbefore z (by simp [hz])
          exact .inl (by change _ ≤ a; omega)
        · exact h.clear z (by simp [hz]) y hy
      · rcases List.mem_cons.mp hy with rfl | hy
        · exact .inl (by change _ ≤ a; omega)
        · exact h.clear z (by simp) y hy
      · rcases List.mem_cons.mp hy with rfl | hy
        · exact .inl ha.ge
        · have hyin := h.liveInside y hy
          have hxy := h.clear x (by simp) y hy
          change x.1 + 16 * (x.2 - n) ≤ y.1 ∨ y.1 + 16 * y.2 ≤ x.1
          omega
      · rcases List.mem_cons.mp hy with rfl | hy
        · have := hafter z hz
          exact .inr (by change a + 16 * n ≤ z.1; omega)
        · exact h.clear z (by simp [hz]) y hy

/-- A block that is large enough. -/
theorem Good.take_run (h : Good s ls (l ++ p :: x :: r)) (hn : 1 ≤ n) (hle : n ≤ x.2) :
    ∃ res s', takeBlock n p.1 x.1 s = some (res, s') ∧ Took n ls res s' ∧ s'.start = s.start ∧
      s'.base = s.base := by
  rcases Nat.eq_or_lt_of_le hle with rfl | hlt
  · obtain ⟨s', hrun, hgood, hstatic⟩ := h.take_all hn
    exact ⟨_, s', hrun, ⟨Nat.le_add_left .., _, by rwa [Nat.add_sub_cancel]⟩, hstatic⟩
  · obtain ⟨s', hrun, hgood, hstatic⟩ := h.take_part hn hlt
    exact ⟨_, s', hrun, ⟨Nat.le_add_left .., _, by rwa [Nat.add_sub_cancel]⟩, hstatic⟩

/-! ## The search -/

theorem mallocLoop_pass (memory : Bool) {t : Nat} : ∀ (seg : List Block) (prev : Nat),
    Leads (fun a => (s.mem a).ptr) (seg.map Prod.fst) t → (∀ x ∈ seg, s.Mapped x.1) →
    (∀ x ∈ seg, (s.mem x.1).size = x.2) → (∀ x ∈ seg, x.1 ≠ s.freep) →
    (∃ u x v, seg = u ++ x :: v ∧ n ≤ x.2 ∧ ∀ fuel,
      mallocLoop n memory (fuel + seg.length) prev (headOr (seg.map Prod.fst) t) s =
        takeBlock n ((u.map Prod.fst).getLast?.getD prev) x.1 s) ∨
    (∀ x ∈ seg, x.2 < n) ∧ ∀ fuel,
      mallocLoop n memory (fuel + seg.length) prev (headOr (seg.map Prod.fst) t) s =
        mallocLoop n memory fuel ((seg.map Prod.fst).getLast?.getD prev) t s := by
  intro seg
  induction seg with
  | nil => exact fun _ _ _ _ _ => .inr ⟨fun _ h => absurd h List.not_mem_nil, fun _ => rfl⟩
  | cons x seg ih =>
    intro prev hleads hmapped hsizes hfreep
    have hptr : (s.mem x.1).ptr = headOr (seg.map Prod.fst) t := hleads.1
    have hunfold : ∀ fuel,
        mallocLoop n memory (fuel + (x :: seg).length) prev (headOr ((x :: seg).map Prod.fst) t) s =
        if n ≤ x.2 then takeBlock n prev x.1 s
        else mallocLoop n memory (fuel + seg.length) x.1 (headOr (seg.map Prod.fst) t) s := by
      intro fuel
      rw [List.length_cons, ← Nat.add_assoc, show headOr ((x :: seg).map Prod.fst) t = x.1 from rfl]
      change (load x.1 >>= _) s = _
      rw [bind_load (hmapped x List.mem_cons_self), hsizes x List.mem_cons_self]
      split
      · rfl
      · change (if x.1 = s.freep then _ else
          mallocLoop n memory (fuel + seg.length) x.1 (s.mem x.1).ptr) s = _
        rw [if_neg (hfreep x List.mem_cons_self), hptr]
    rcases Nat.lt_or_ge x.2 n with hlt | hge
    · have hlast : ∀ u : List Block, (u.map Prod.fst).getLast?.getD x.1 =
          ((x :: u).map Prod.fst).getLast?.getD prev := by
        intro u
        rw [List.map_cons, List.getLast?_cons]
        rfl
      rcases ih x.1 hleads.2 (fun z hz => hmapped z (List.mem_cons_of_mem x hz))
        (fun z hz => hsizes z (List.mem_cons_of_mem x hz))
        (fun z hz => hfreep z (List.mem_cons_of_mem x hz)) with ⟨u, y, v, rfl, hy,
          hrun⟩ | ⟨hall, hrun⟩
      · refine .inl ⟨x :: u, y, v, rfl, hy, fun fuel => ?_⟩
        rw [hunfold, if_neg (by omega), hrun, hlast]
      · refine .inr ⟨fun z hz => ?_, fun fuel => ?_⟩
        · rcases List.mem_cons.mp hz with rfl | hz
          · exact hlt
          · exact hall z hz
        · rw [hunfold, if_neg (by omega), hrun, hlast]
    · refine .inl ⟨[], x, seg, rfl, hge, fun fuel => ?_⟩
      rw [hunfold, if_pos hge]
      rfl

/-- What the loop does when it is back at `freep`. -/
def askForMore (n : Nat) (memory : Bool) (fuel : Nat) : HeapM Nat := do
  let p ← morecore fuel n memory
  if p = 0 then pure 0
  else do
    let h ← load p
    mallocLoop n memory fuel p h.ptr

/-- The node before `x`. -/
theorem before_of_getLast (q : Block) (u : List Block) : ∃ l p, q :: u = l ++ [p] ∧
    (u.map Prod.fst).getLast?.getD q.1 = p.1 := by
  rcases List.eq_nil_or_concat u with rfl | ⟨u, p, rfl⟩
  · exact ⟨[], q, rfl, rfl⟩
  · refine ⟨q :: u, p, by rw [List.concat_eq_append]; rfl, ?_⟩
    rw [List.concat_eq_append, List.map_append, List.map_singleton, List.getLast?_concat]
    rfl

/-- **One round of the search**: it finds a block or is back where it began. -/
theorem Good.circle (h : Good s ls ns) (hn : 1 ≤ n) (memory : Bool) : ∃ k,
    (∃ l p x r, ns = l ++ p :: x :: r ∧ n ≤ x.2 ∧
      ∀ fuel, mallocLoop n memory (fuel + k) s.freep (s.mem s.freep).ptr s =
        takeBlock n p.1 x.1 s) ∨
    (∀ x ∈ ns, x.2 < n) ∧
      ∀ fuel, mallocLoop n memory (fuel + k) s.freep (s.mem s.freep).ptr s =
        askForMore n memory fuel s := by
  obtain ⟨q, hq, hfreep⟩ := List.mem_map.mp h.freep
  obtain ⟨l, r, rfl⟩ := List.append_of_mem hq
  have hlinks := h.links
  rw [List.map_append, List.map_cons] at hlinks
  obtain ⟨hleft, hnext, hright⟩ := leads_append_cons.mp hlinks
  have hsorted := List.pairwise_append.mp h.sorted
  have hnel : ∀ x ∈ l, x.1 ≠ s.freep := by
    intro x hx
    rw [← hfreep]
    exact Nat.ne_of_lt (hsorted.2.2 x hx q List.mem_cons_self)
  have hner : ∀ x ∈ r, x.1 ≠ s.freep := by
    intro x hx
    rw [← hfreep]
    exact Nat.ne_of_gt (List.rel_of_pairwise_cons hsorted.2.1 hx)
  have hback : ∀ fuel prev, ¬ n ≤ q.2 →
      mallocLoop n memory (fuel + 1) prev q.1 s = askForMore n memory fuel s := by
    intro fuel prev hsmall
    change (load q.1 >>= _) s = _
    rw [bind_load (h.mapped (x := q) (by simp)), h.sizes q (by simp), if_neg hsmall]
    change (if q.1 = s.freep then _ else _ : HeapM Nat) s = _
    rw [if_pos hfreep]
    rfl
  refine ⟨1 + l.length + r.length, ?_⟩
  simp only [← Nat.add_assoc]
  rw [← hfreep, show (s.mem q.1).ptr = _ from hnext]
  rcases mallocLoop_pass (n := n) memory r q.1 hright (fun x hx => h.mapped (by simp [hx]))
    (fun x hx => h.sizes x (by simp [hx])) hner with ⟨u, x, v, rfl, hx, hrun⟩ | ⟨hsmallr, hrun⟩
  · obtain ⟨l', p, heq, hp⟩ := before_of_getLast q u
    refine .inl ⟨l ++ l', p, x, v, ?_, hx, fun fuel => ?_⟩
    · rw [List.append_assoc, List.append_cons l' p, ← heq]
      rfl
    · rw [hrun, hp]
  · -- on from `base`
    rcases mallocLoop_pass (n := n) memory l ((r.map Prod.fst).getLast?.getD q.1) hleft
      (fun x hx => h.mapped (by simp [hx])) (fun x hx => h.sizes x (by simp [hx])) hnel with
      ⟨u, x, v, rfl, hx, hrun'⟩ | ⟨hsmalll, hrun'⟩
    · cases u with
      | nil =>
        have hbase : x = (s.base, 0) := Option.some.inj h.head
        rw [hbase] at hx
        exact absurd hx (by change ¬ n ≤ 0; omega)
      | cons q₀ u =>
        obtain ⟨l', p, heq, hp⟩ := before_of_getLast q₀ u
        refine .inl ⟨l', p, x, v ++ q :: r, ?_, hx, fun fuel => ?_⟩
        · rw [heq, List.append_assoc, List.append_assoc]
          rfl
        · have hfront := h.front
          rw [hrun, ← hfront, hrun', List.map_cons, List.getLast?_cons]
          exact congrArg (fun a => takeBlock n a x.1 s) hp
    · by_cases hlarge : n ≤ q.2
      · cases l with
        | nil =>
          have hbase : q = (s.base, 0) := Option.some.inj h.head
          rw [hbase] at hlarge
          exact absurd hlarge (by change ¬ n ≤ 0; omega)
        | cons q₀ l =>
          obtain ⟨l', p, heq, hp⟩ := before_of_getLast q₀ l
          refine .inl ⟨l', p, q, r, ?_, hlarge, fun fuel => ?_⟩
          · rw [heq, List.append_assoc]
            rfl
          · rw [hrun, ← h.front, hrun', List.map_cons, List.getLast?_cons]
            change (load q.1 >>= _) s = _
            rw [bind_load (h.mapped (x := q) (by simp)), h.sizes q (by simp), if_pos hlarge]
            exact congrArg (fun a => takeBlock n a q.1 s) hp
      · refine .inr ⟨fun x hx => ?_, fun fuel => ?_⟩
        · rcases List.mem_append.mp hx with hx | hx
          · exact hsmalll x hx
          · rcases List.mem_cons.mp hx with rfl | hx
            · omega
            · exact hsmallr x hx
        · rw [hrun, ← h.front, hrun', hback _ _ hlarge]

/-! ## `morecore` -/

/-- Memory from `sbrk`, with its size written into it. -/
theorem Good.grow {k : Nat} (h : Good s ls ns) (hk : 1 ≤ k) (htop : s.sz + 16 * k ≤ trapframeVA)
    (hroom : s.sz + 16 * k ≤ s.start + physPages * 4096) (v : Nat) :
    Good ({ s with sz := s.sz + 16 * k }.set s.sz ⟨v, k⟩) ((s.sz, k) :: ls) ns := by
  have hgrown := h.grown
  have hinside : ∀ x, Inside s x → Inside ({ s with sz := s.sz + 16 * k }.set s.sz ⟨v, k⟩) x := by
    intro x hx
    refine ⟨hx.1, hx.2.1, ?_⟩
    change x.1 + 16 * x.2 ≤ s.sz + 16 * k
    omega
  have hother : ∀ a, a < s.sz → ({ s with sz := s.sz + 16 * k }.set s.sz ⟨v, k⟩).mem a = s.mem a :=
    fun a ha => set_ne (Nat.ne_of_lt ha)
  have hring : ∀ x ∈ ns, x.1 < s.sz ∧ x.1 + 16 * x.2 ≤ s.sz := by
    intro x hx
    have hbelow := h.below
    rcases h.inside x hx with rfl | hin
    · exact ⟨by change s.base < s.sz; omega, by change s.base + 16 * 0 ≤ s.sz; omega⟩
    · omega
  refine ⟨⟨h.base, h.below, h.aligned, hgrown.trans (Nat.le_add_right ..), htop, hroom⟩, h.head,
    h.links.congr fun a ha => ?_, fun x hx => ?_, h.apart, fun x hx => ?_, h.freep,
    fun y hy => ?_, fun y hy => ?_,
    ?_, fun x hx y hy => ?_⟩
  · obtain ⟨x, hx, rfl⟩ := List.mem_map.mp ha
    rw [hother x.1 (hring x hx).1]
  · rw [hother x.1 (hring x hx).1]
    exact h.sizes x hx
  · exact (h.inside x hx).imp id (hinside x)
  · rcases List.mem_cons.mp hy with rfl | hy
    · exact congrArg Header.size set_self
    · have hin := h.liveInside y hy
      rw [hother y.1 (by omega)]
      exact h.liveSizes y hy
  · rcases List.mem_cons.mp hy with rfl | hy
    · exact ⟨hk, hgrown, le_rfl⟩
    · exact hinside y (h.liveInside y hy)
  · exact List.pairwise_cons.mpr ⟨fun y hy => .inr (h.liveInside y hy).2.2, h.off⟩
  · rcases List.mem_cons.mp hy with rfl | hy
    · exact .inl (hring x hx).2
    · exact h.clear x hx y hy

theorem addInt64_natCast {a n : Nat} (h : a + n < 2 ^ 64) : addInt64 a (n : Int) = a + n := by
  unfold addInt64
  omega

theorem argint_natCast {n : Nat} (h : n < 2 ^ 31) : argint (n : Int) = n := by
  unfold argint
  exact Int.bmod_eq_of_le (by omega) (by omega)

/-- `morecore` for a request that fits an `int`: no memory and no change, or a block that is large
enough. -/
theorem Good.morecore_run (h : Good s ls ns) (hn : n * 16 < 2 ^ 31) (memory : Bool) : ∃ k res s',
    (∀ fuel, morecore (fuel + k) n memory s = some (res, s')) ∧ s'.start = s.start ∧
    s'.base = s.base ∧
    (res = 0 ∧ s' = s ∨ res ≠ 0 ∧ res = s'.freep ∧ ∃ ns', Good s' ls ns' ∧ ∃ x ∈ ns', n ≤ x.2) := by
  obtain ⟨nu, hnu⟩ : ∃ nu, nu = if n < 4096 then 4096 else n := ⟨_, rfl⟩
  have hsmall : nu * 16 < 2 ^ 31 ∧ n ≤ nu ∧ 1 ≤ nu := by
    rw [hnu]
    split <;> omega
  have htop := h.top
  unfold trapframeVA trampolineVA maxVA at htop
  have hadd : addInt64 s.sz ((nu * 16 : Nat) : Int) = s.sz + nu * 16 := addInt64_natCast (by omega)
  have hsbrk : sbrk (argint (nu * 16 : Nat)) memory s =
      if trapframeVA < s.sz + nu * 16 then some (none, s)
      else if memory ∧ pgRoundUp (s.sz + nu * 16) ≤ pgRoundUp s.start + physPages * 4096 then
        some (some s.sz, { s with sz := s.sz + nu * 16 })
      else some (none, s) := by
    unfold sbrk
    rw [argint_natCast hsmall.1, hadd, if_pos (by omega)]
  have hfail : sbrk (argint (nu * 16 : Nat)) memory s = some (none, s) → ∀ fuel,
      morecore fuel n memory s = some (0, s) := by
    intro hnone fuel
    unfold morecore
    rw [← hnu]
    exact bind_run.mpr ⟨none, s, hnone, rfl⟩
  by_cases hover : trapframeVA < s.sz + nu * 16
  · rw [if_pos hover] at hsbrk
    exact ⟨0, 0, s, hfail hsbrk, rfl, rfl, .inl ⟨rfl, rfl⟩⟩
  rw [if_neg hover] at hsbrk
  by_cases hmem : memory ∧ pgRoundUp (s.sz + nu * 16) ≤ pgRoundUp s.start + physPages * 4096
  swap
  · rw [if_neg hmem] at hsbrk
    exact ⟨0, 0, s, hfail hsbrk, rfl, rfl, .inl ⟨rfl, rfl⟩⟩
  rw [if_pos hmem] at hsbrk
  -- the new memory is a block that is handed to `free`
  have hroom : s.sz + 16 * nu ≤ s.start + physPages * 4096 := by
    have hle := hmem.2
    have haligned := h.aligned
    have hgrown := h.grown
    rw [pgRoundUp_eq (Nat.le_of_not_lt hover),
      pgRoundUp_eq (a := s.start) (hgrown.trans h.top)] at hle
    omega
  have hsum : s.sz + nu * 16 = s.sz + 16 * nu := by rw [Nat.mul_comm]
  have hfits : s.sz + 16 * nu ≤ trapframeVA := hsum ▸ Nat.le_of_not_lt hover
  obtain ⟨k, s', ns', hfree, hgood, ⟨x, hx, hxn⟩, hstart, hbase⟩ :=
    (h.grow hsmall.2.2 hfits hroom (s.mem s.sz).ptr).free_run
  refine ⟨k, s'.freep, s', fun fuel => ?_, hstart, hbase,
    .inr ⟨?_, rfl, ns', hgood, x, hx, hsmall.2.1.trans hxn⟩⟩
  · rw [hsum] at hsbrk
    unfold morecore
    rw [← hnu]
    refine bind_run.mpr ⟨some s.sz, _, hsbrk, ?_⟩
    have hmap : Heap.Mapped { s with sz := s.sz + 16 * nu } s.sz := by
      unfold Heap.Mapped
      change s.sz + 16 ≤ pgRoundUp (s.sz + 16 * nu)
      rw [pgRoundUp_eq hfits]
      clear hfits
      omega
    have hfwd : forward s.sz 1 = s.sz + 16 := Nat.mod_eq_of_lt (by omega)
    refine bind_run.mpr ⟨(), _, setSize_run hmap, ?_⟩
    rw [Nat.mod_eq_of_lt (by omega), hfwd]
    exact bind_run.mpr ⟨(), s', hfree fuel, rfl⟩
  · obtain ⟨z, hz, hfreep⟩ := List.mem_map.mp hgood.freep
    have hpos := hgood.base
    have hle := hgood.base_le z hz
    omega

/-! ## The loop and the call -/

theorem Good.mallocLoop_run (h : Good s ls ns) (hn : 1 ≤ n) (hsmall : n * 16 < 2 ^ 31)
    (memory : Bool) :
    ∃ k res s', (∀ fuel, mallocLoop n memory (fuel + k) s.freep (s.mem s.freep).ptr s =
        some (res, s')) ∧ s'.start = s.start ∧ s'.base = s.base ∧
      ((res = 0 ∧ ∃ ns', Good s' ls ns') ∨ Took n ls res s') := by
  obtain ⟨k, ⟨l, p, x, r, rfl, hx, hrun⟩ | ⟨-, hrun⟩⟩ := h.circle hn memory
  · obtain ⟨res, s', htake, htook, hstatic⟩ := h.take_run hn hx
    exact ⟨k, res, s', fun fuel => (hrun fuel).trans htake, hstatic.1, hstatic.2, .inr htook⟩
  obtain ⟨k₁, res, s₁, hmore, hstart, hbase, ⟨rfl, rfl⟩ | ⟨hres, rfl, ns₁, hgood, x, hx, hxn⟩⟩ :=
    h.morecore_run hsmall memory
  · refine ⟨k₁ + k, 0, s₁, fun fuel => ?_, rfl, rfl, .inl ⟨rfl, ns, h⟩⟩
    rw [← Nat.add_assoc, hrun]
    exact bind_run.mpr ⟨0, s₁, hmore fuel, rfl⟩
  · -- the second round finds a block
    obtain ⟨k₂, ⟨l, p, y, r, rfl, hy, hrun₂⟩ | ⟨hnone, -⟩⟩ := hgood.circle hn memory
    swap
    · exact absurd (hnone x hx) (by omega)
    obtain ⟨res, s', htake, htook, hstatic⟩ := hgood.take_run hn hy
    refine ⟨k₁ + k₂ + k, res, s', fun fuel => ?_, hstatic.1.trans hstart, hstatic.2.trans hbase,
      .inr htook⟩
    rw [← Nat.add_assoc, hrun]
    refine bind_run.mpr ⟨s₁.freep, s₁, ?_, ?_⟩
    · rw [show fuel + (k₁ + k₂) = fuel + k₂ + k₁ by omega]
      exact hmore (fuel + k₂)
    · obtain ⟨z, hz, hfreep⟩ := List.mem_map.mp hgood.freep
      rw [if_neg hres, bind_load (hfreep ▸ hgood.mapped hz),
        show fuel + (k₁ + k₂) = fuel + k₁ + k₂ by omega, hrun₂]
      exact htake

theorem nunits_eq {nbytes : Nat} (h : nbytes < 2 ^ 32) :
    nunits nbytes = (nbytes + 15) / 16 + 1 := by
  unfold nunits
  exact Nat.mod_eq_of_lt (by omega)

/-- The list that `malloc` starts with. -/
theorem Layout.initList_run (h : Layout s) (hnull : s.freep = 0) :
    ∃ s', initList s = some ((), s') ∧ Good s' [] [(s.base, 0)] ∧
      s'.start = s.start ∧ s'.base = s.base := by
  have hbelow := h.below
  have hgrown := h.grown
  have hmap : s.Mapped s.base := h.mapped (by omega)
  refine ⟨Heap.set { s.set s.base ⟨s.base, (s.mem s.base).size⟩ with freep := s.base } s.base
      ⟨s.base, 0⟩, ?_, ?_,
    rfl, rfl⟩
  · unfold initList
    refine bind_run.mpr ⟨s, s, rfl, ?_⟩
    rw [if_pos hnull, bind_setPtr hmap, bind_setFreep, setSize_run (by exact hmap)]
    change some ((), Heap.set _ s.base ⟨(Heap.mem (s.set _ _) _).ptr, 0 % 2 ^ 32⟩) = _
    rw [set_self]
    rfl
  · refine ⟨⟨h.base, h.below, h.aligned, h.grown, h.top, h.room⟩, rfl, ⟨?_, trivial⟩, ?_,
      List.pairwise_singleton ..,
      ?_, List.mem_singleton.mpr rfl, ?_, ?_, .nil, ?_⟩
    · exact congrArg Header.ptr set_self
    · intro x hx
      obtain rfl := List.mem_singleton.mp hx
      exact congrArg Header.size set_self
    · intro x hx
      exact .inl (List.mem_singleton.mp hx)
    · exact fun y hy => absurd hy List.not_mem_nil
    · exact fun y hy => absurd hy List.not_mem_nil
    · exact fun x _ y hy => absurd hy List.not_mem_nil

theorem initList_skip (h : s.freep ≠ 0) : initList s = some ((), s) := by
  unfold initList
  refine bind_run.mpr ⟨s, s, rfl, ?_⟩
  rw [if_neg h]
  rfl

/-- **`malloc` of a size that fits an `int` returns**, with a null pointer or with a block. -/
theorem Good.malloc_run {s₀ : Heap} {nbytes : Nat} (h : Good s ls ns)
    (hinit : initList s₀ = some ((), s)) (hn : nbytes ≤ 2 ^ 31 - 32) (memory : Bool) : ∃ k res s',
    (∀ fuel, malloc (fuel + k) nbytes memory s₀ = some (res, s')) ∧ s'.start = s.start ∧
    s'.base = s.base ∧ ((res = 0 ∧ ∃ ns', Good s' ls ns') ∨ Took (nunits nbytes) ls res s') := by
  have hunits : nunits nbytes = (nbytes + 15) / 16 + 1 := nunits_eq (by omega)
  obtain ⟨k, res, s', hrun, hstatic⟩ :=
    h.mallocLoop_run (n := nunits nbytes) (by omega) (by omega) memory
  refine ⟨k, res, s', fun fuel => ?_, hstatic⟩
  obtain ⟨z, hz, hfreep⟩ := List.mem_map.mp h.freep
  unfold malloc
  refine bind_run.mpr ⟨(), s, hinit, bind_run.mpr ⟨s, s, rfl, ?_⟩⟩
  rw [bind_load (hfreep ▸ h.mapped hz)]
  exact hrun fuel

end

end Xv6Paging.Umalloc
