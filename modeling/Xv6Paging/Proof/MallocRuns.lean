import Xv6Paging.Proof.Malloc

/-!
# Programs that use `malloc`

Whatever a program does with `malloc`, `free` and the blocks it has, its blocks stay disjoint from
each other and from the free list, and every call returns. That takes requests whose size in bytes
fits the `int` of `sbrk`: one of almost 4 GB wraps around, and what comes back is smaller than the
block that `morecore` makes of it.
-/

namespace Xv6Paging.Umalloc

open Lib

variable {a fuel : Nat} {s : Heap} {c : Client} {r : Nat × Heap} {memory : Bool}

/-! ## Fuel

A call that has returned returns the same with more fuel. -/

theorem ite_mono {α : Type} {c : Prop} [Decidable c] {m m' n n' : HeapM α} {r : Option (α × Heap)}
    (hm : m s = r → m' s = r) (hn : n s = r → n' s = r) (h : (if c then m else n) s = r) :
    (if c then m' else n') s = r := by
  split at h
  · rw [if_pos ‹c›]
    exact hm h
  · rw [if_neg ‹¬c›]
    exact hn h

theorem freeLoop_mono (j : Nat) : ∀ {fuel p : Nat} {s : Heap},
    freeLoop a fuel p s = some r → freeLoop a (fuel + j) p s = some r := by
  intro fuel
  induction fuel with
  | zero =>
    intro p s h
    cases h
  | succ fuel ih =>
    intro p s h
    obtain ⟨hd, t, hload, hrest⟩ := bind_run.mp h
    rw [Nat.add_right_comm]
    exact bind_run.mpr ⟨hd, t, hload, ite_mono id (ite_mono id ih) hrest⟩

theorem free_mono {ap : Nat} {s' : Heap} (j : Nat) (h : free fuel ap s = some ((), s')) :
    free (fuel + j) ap s = some ((), s') := by
  obtain ⟨t, t', hget, hrest⟩ := bind_run.mp h
  obtain ⟨p, u, hwalk, hlink⟩ := bind_run.mp hrest
  exact bind_run.mpr ⟨t, t', hget, bind_run.mpr ⟨p, u, freeLoop_mono j hwalk, hlink⟩⟩

theorem morecore_mono {n : Nat} {s' : Heap} {r : Nat} (j : Nat)
    (h : morecore fuel n memory s = some (r, s')) :
    morecore (fuel + j) n memory s = some (r, s') := by
  obtain ⟨hp, t, hsbrk, hrest⟩ := bind_run.mp h
  refine bind_run.mpr ⟨hp, t, hsbrk, ?_⟩
  cases hp with
  | none => exact hrest
  | some hp =>
    obtain ⟨_, u, hsize, hrest⟩ := bind_run.mp hrest
    obtain ⟨_, v, hfree, hret⟩ := bind_run.mp hrest
    exact bind_run.mpr ⟨(), u, hsize, bind_run.mpr ⟨(), v, free_mono j hfree, hret⟩⟩

theorem mallocLoop_mono {n : Nat} (j : Nat) :
    ∀ {fuel prevp p : Nat} {s : Heap},
    mallocLoop n memory fuel prevp p s = some r → mallocLoop n memory (fuel + j) prevp p s =
      some r := by
  intro fuel
  induction fuel with
  | zero =>
    intro prevp p s h
    cases h
  | succ fuel ih =>
    intro prevp p s h
    obtain ⟨hd, t, hload, hrest⟩ := bind_run.mp h
    rw [Nat.add_right_comm]
    refine bind_run.mpr ⟨hd, t, hload, ite_mono id (fun hrest => ?_) hrest⟩
    obtain ⟨u, u', hget, hrest⟩ := bind_run.mp hrest
    refine bind_run.mpr ⟨u, u', hget, ite_mono (fun hrest => ?_) ih hrest⟩
    obtain ⟨q, v, hmore, hrest⟩ := bind_run.mp hrest
    refine bind_run.mpr ⟨q, v, morecore_mono j hmore, ite_mono id (fun hrest => ?_) hrest⟩
    obtain ⟨hq, w, hload', hrest⟩ := bind_run.mp hrest
    exact bind_run.mpr ⟨hq, w, hload', ih hrest⟩

theorem malloc_mono {nbytes : Nat} (j : Nat) (h : malloc fuel nbytes memory s = some r) :
    malloc (fuel + j) nbytes memory s = some r := by
  obtain ⟨_, t, hinit, hrest⟩ := bind_run.mp h
  obtain ⟨u, u', hget, hrest⟩ := bind_run.mp hrest
  obtain ⟨hd, v, hload, hloop⟩ := bind_run.mp hrest
  exact bind_run.mpr ⟨(), t, hinit, bind_run.mpr ⟨u, u', hget,
    bind_run.mpr ⟨hd, v, hload, mallocLoop_mono j hloop⟩⟩⟩

/-! ## Programs -/

/-- The block behind a pointer that `malloc` has returned. -/
def blockOf (b : Nat × Nat) : Block := (b.1 - 16, nunits b.2)

/-- No list yet, or a good one. -/
structure Client.Sound (c : Client) : Prop where
  layout : Layout c.heap
  sizes : ∀ b ∈ c.live, 16 ≤ b.1 ∧ b.2 < 2 ^ 32
  list : c.heap.freep = 0 ∧ c.live = [] ∨ ∃ ns, Good c.heap (c.live.map blockOf) ns

theorem Client.Fresh.sound (h : c.Fresh) : c.Sound := by
  refine ⟨⟨h.base, h.below, h.aligned, h.size.ge, ?_, ?_⟩, ?_, .inl ⟨h.freep, h.live⟩⟩
  · rw [h.size]
    exact h.top
  · rw [h.size]
    exact Nat.le_add_right ..
  · rw [h.live]
    exact fun b hb => absurd hb List.not_mem_nil

instance : Std.Symm Off := ⟨fun _ _ h => h.symm⟩

section

variable {s s' : Heap} {ls ls' ns : List Block}

/-- A part of the live blocks. -/
theorem Good.select (h : Good s ls ns) (hsub : ∀ y ∈ ls', y ∈ ls) (hoff : ls'.Pairwise Off) :
    Good s ls' ns :=
  { h with
    liveSizes := fun y hy => h.liveSizes y (hsub y hy)
    liveInside := fun y hy => h.liveInside y (hsub y hy)
    off := hoff
    clear := fun x hx y hy => h.clear x hx y (hsub y hy) }

/-- A store inside a live block is none to a header. -/
theorem Good.store {b : Block} (h : Good s ls ns) (hb : b ∈ ls) (hlo : b.1 < a)
    (hhi : a < b.1 + 16 * b.2) (v : Header) : Good (s.set a v) ls ns := by
  have hin := h.liveInside b hb
  have hring : ∀ x ∈ ns, (s.set a v).mem x.1 = s.mem x.1 := by
    intro x hx
    have hclear := h.clear x hx b hb
    have hbelow := h.below
    refine set_ne ?_
    rcases h.inside x hx with rfl | hxin
    · change s.base ≠ a
      omega
    · omega
  have hlive : ∀ y ∈ ls, (s.set a v).mem y.1 = s.mem y.1 := by
    intro y hy
    have hyin := h.liveInside y hy
    refine set_ne ?_
    by_cases hyb : y = b
    · rw [hyb]
      omega
    · have hoff : Off y b := h.off.forall hy hb hyb
      omega
  refine { h with
    links := h.links.congr fun c hc => ?_
    sizes := fun x hx => ?_
    liveSizes := fun y hy => ?_ }
  · obtain ⟨x, hx, rfl⟩ := List.mem_map.mp hc
    rw [hring x hx]
  · rw [hring x hx]
    exact h.sizes x hx
  · rw [hlive y hy]
    exact h.liveSizes y hy

end

/-- A request that `sbrk` can take. -/
def HeapAct.Small : HeapAct → Prop
  | .malloc _ nbytes _ => nbytes ≤ 2 ^ 31 - 32
  | _ => True

instance (a : HeapAct) : Decidable a.Small :=
  match a with
  | .malloc _ nbytes _ => inferInstanceAs (Decidable (nbytes ≤ _))
  | .free .. | .write .. => isTrue trivial

namespace Client

variable {c c' : Client}

/-- What a call of `malloc` does. -/
theorem Sound.malloc (h : c.Sound) {nbytes : Nat} (hn : nbytes ≤ 2 ^ 31 - 32) (memory : Bool) :
    ∃ k c', (∀ fuel, c.step (.malloc (fuel + k) nbytes memory) = some c') ∧ c'.Sound := by
  obtain ⟨s, ns, hinit, hgood⟩ :
      ∃ s ns, initList c.heap = some ((), s) ∧ Good s (c.live.map blockOf) ns := by
    rcases h.list with ⟨hnull, hlive⟩ | ⟨ns, hgood⟩
    · obtain ⟨s, hinit, hgood, -⟩ := h.layout.initList_run hnull
      exact ⟨s, _, hinit, by rw [hlive]; exact hgood⟩
    · obtain ⟨z, hz, hfreep⟩ := List.mem_map.mp hgood.freep
      have hpos := hgood.base
      have hle := hgood.base_le z hz
      exact ⟨c.heap, ns, initList_skip (by omega), hgood⟩
  obtain ⟨k, res, s', hrun, -, -, hres⟩ := hgood.malloc_run hinit hn memory
  refine ⟨k, ⟨s', if res = 0 then c.live else (res, nbytes) :: c.live⟩, fun fuel => ?_, ?_⟩
  · have hlt : nbytes < 2 ^ 32 := by omega
    rw [step, if_pos hlt, hrun fuel]
    rfl
  · rcases hres with ⟨rfl, ns', hgood'⟩ | ⟨hpos, ns', hgood'⟩
    · exact ⟨hgood'.toLayout, h.sizes, .inr ⟨ns', hgood'⟩⟩
    · rw [if_neg (by omega)]
      refine ⟨hgood'.toLayout, fun b hb => ?_, .inr ⟨ns', hgood'⟩⟩
      rcases List.mem_cons.mp hb with rfl | hb
      · exact ⟨hpos, by change nbytes < 2 ^ 32; omega⟩
      · exact h.sizes b hb

/-- What a call of `free` does. -/
theorem Sound.free (h : c.Sound) {ap : Nat} (hap : ap ∈ c.live.map Prod.fst) :
    ∃ k c', (∀ fuel, c.step (.free (fuel + k) ap) = some c') ∧ c'.Sound := by
  obtain ⟨b, hb, rfl⟩ := List.mem_map.mp hap
  rcases h.list with ⟨-, hlive⟩ | ⟨ns, hgood⟩
  · rw [hlive] at hb
    exact absurd hb List.not_mem_nil
  have hpos := (h.sizes b hb).1
  have hblock : blockOf b ∈ c.live.map blockOf := List.mem_map_of_mem hb
  -- the block first, then the ones that stay
  have hrest : ((c.live.filter fun x => x.1 != b.1).map blockOf).Pairwise Off :=
    hgood.off.sublist (List.filter_sublist.map blockOf)
  have hsplit : Good c.heap (blockOf b :: (c.live.filter fun x => x.1 != b.1).map blockOf) ns := by
    refine hgood.select (fun y hy => ?_) (List.pairwise_cons.mpr ⟨fun y hy => ?_, hrest⟩)
    · rcases List.mem_cons.mp hy with rfl | hy
      · exact hblock
      · obtain ⟨z, hz, rfl⟩ := List.mem_map.mp hy
        exact List.mem_map_of_mem (List.mem_of_mem_filter hz)
    · obtain ⟨z, hz, rfl⟩ := List.mem_map.mp hy
      obtain ⟨hz, hne⟩ := List.mem_filter.mp hz
      refine hgood.off.forall hblock (List.mem_map_of_mem hz) fun heq => ?_
      have haddr : b.1 - 16 = z.1 - 16 := congrArg Prod.fst heq
      have hzpos := (h.sizes z hz).1
      exact absurd (show z.1 = b.1 by omega) (bne_iff_ne.mp hne)
  obtain ⟨k, s', ns', hrun, hgood', -⟩ := hsplit.free_run
  refine ⟨k, ⟨s', c.live.filter fun x => x.1 != b.1⟩, fun fuel => ?_, hgood'.toLayout,
    fun x hx => ?_, .inr ⟨ns', hgood'⟩⟩
  · have hfree := hrun fuel
    rw [show (blockOf b).1 + 16 = b.1 by change b.1 - 16 + 16 = b.1; omega] at hfree
    rw [step, if_pos hap, hfree]
    rfl
  · exact h.sizes x (List.mem_of_mem_filter hx)

/-- What a store does. -/
theorem Sound.write (h : c.Sound) (ha : c.Holds a) (v : Header) :
    ∃ c', c.step (.write a v) = some c' ∧ c'.Sound := by
  obtain ⟨b, hb, hlo, hhi, hmod⟩ := ha
  rcases h.list with ⟨-, hlive⟩ | ⟨ns, hgood⟩
  · rw [hlive] at hb
    exact absurd hb List.not_mem_nil
  have hsize := h.sizes b hb
  have hblock : blockOf b ∈ c.live.map blockOf := List.mem_map_of_mem hb
  have hin := hgood.liveInside _ hblock
  have hunits : (blockOf b).2 = (b.2 + 15) / 16 + 1 := nunits_eq hsize.2
  have haddr : (blockOf b).1 + 16 = b.1 := by
    change b.1 - 16 + 16 = b.1
    omega
  have hmap : c.heap.Mapped a := h.layout.mapped (by omega)
  refine ⟨{ c with heap := c.heap.set a v }, ?_, ?_, h.sizes, .inr ⟨ns, ?_⟩⟩
  · rw [step, if_pos ⟨⟨b, hb, hlo, hhi, hmod⟩, hmap⟩]
  · exact ⟨h.layout.base, h.layout.below, h.layout.aligned, h.layout.grown, h.layout.top,
      h.layout.room⟩
  · exact hgood.store hblock (by omega) (by omega) v

/-- **One step of a program** that asks for sizes `sbrk` can take. -/
theorem Sound.step (h : c.Sound) {a : HeapAct} (hsmall : a.Small) (hstep : c.step a = some c') :
    c'.Sound := by
  cases a with
  | malloc fuel nbytes memory =>
    obtain ⟨k, c₁, hrun, hsound⟩ := h.malloc hsmall memory
    have hmore : c.step (.malloc (fuel + k) nbytes memory) = some c' := by
      unfold Client.step at hstep ⊢
      dsimp only at hstep ⊢
      split at hstep
      · rename_i hlt
        obtain ⟨r, hr, rfl⟩ := Option.map_eq_some_iff.mp hstep
        rw [if_pos hlt, malloc_mono k hr]
        rfl
      · cases hstep
    rw [hrun fuel] at hmore
    exact Option.some.inj hmore ▸ hsound
  | free fuel ap =>
    by_cases hap : ap ∈ c.live.map Prod.fst
    · obtain ⟨k, c₁, hrun, hsound⟩ := h.free hap
      have hmore : c.step (.free (fuel + k) ap) = some c' := by
        unfold Client.step at hstep ⊢
        dsimp only at hstep ⊢
        rw [if_pos hap] at hstep ⊢
        obtain ⟨r, hr, rfl⟩ := Option.map_eq_some_iff.mp hstep
        rw [free_mono k hr]
        rfl
      rw [hrun fuel] at hmore
      exact Option.some.inj hmore ▸ hsound
    · unfold Client.step at hstep
      dsimp only at hstep
      rw [if_neg hap] at hstep
      cases hstep
  | write a v =>
    by_cases ha : c.Holds a
    · obtain ⟨c₁, hrun, hsound⟩ := h.write ha v
      rw [hstep] at hrun
      exact Option.some.inj hrun ▸ hsound
    · unfold Client.step at hstep
      dsimp only at hstep
      rw [if_neg fun hno => ha hno.1] at hstep
      cases hstep

end Client

/-- The ring from `freep` has the blocks `ns`, in address order, and no two of them touch. -/
structure FreeRing (s : Heap) (ns : List Block) : Prop where
  freep : s.freep ∈ ns.map Prod.fst
  links : Leads (fun a => (s.mem a).ptr) (ns.map Prod.fst) (headOr (ns.map Prod.fst) 0)
  sizes : ∀ x ∈ ns, (s.mem x.1).size = x.2
  apart : ns.Pairwise Before

/-- What a program may expect of the blocks it has. -/
structure Client.Usable (c : Client) : Prop where
  /-- A block comes from `sbrk`, all of it. -/
  inside : ∀ b ∈ c.live, c.heap.start ≤ b.1 ∧ b.1 + b.2 ≤ c.heap.sz
  disjoint : c.live.Pairwise fun x y => x.1 + x.2 ≤ y.1 ∨ y.1 + y.2 ≤ x.1
  /-- There is a free list after the first call, and nothing in it is live. -/
  list : c.heap.freep = 0 ∧ c.live = [] ∨ ∃ ns, FreeRing c.heap ns ∧
    ∀ x ∈ ns, ∀ b ∈ c.live, x.1 + 16 * x.2 ≤ b.1 ∨ b.1 + b.2 ≤ x.1

/-- No call hangs or is killed. -/
structure Client.Returns (c : Client) : Prop where
  malloc : ∀ nbytes memory, nbytes ≤ 2 ^ 31 - 32 →
    ∃ n, ∀ fuel, n ≤ fuel → (c.step (.malloc fuel nbytes memory)).isSome
  free : ∀ ap ∈ c.live.map Prod.fst, ∃ n, ∀ fuel, n ≤ fuel → (c.step (.free fuel ap)).isSome
  write : ∀ a v, c.Holds a → (c.step (.write a v)).isSome

theorem Client.Sound.usable (h : c.Sound) : c.Usable := by
  rcases h.list with ⟨hnull, hlive⟩ | ⟨ns, hgood⟩
  · refine ⟨?_, ?_, .inl ⟨hnull, hlive⟩⟩
    · rw [hlive]
      exact fun b hb => absurd hb List.not_mem_nil
    · rw [hlive]
      exact .nil
  -- the bytes asked for are part of the block behind the header
  have hpart : ∀ b ∈ c.live,
      (blockOf b).1 + 16 = b.1 ∧ b.1 + b.2 ≤ (blockOf b).1 + 16 * (blockOf b).2 := by
    intro b hb
    have hsize := h.sizes b hb
    have hunits : (blockOf b).2 = (b.2 + 15) / 16 + 1 := nunits_eq hsize.2
    have haddr : (blockOf b).1 = b.1 - 16 := rfl
    omega
  refine ⟨fun b hb => ?_, ?_,
    .inr ⟨ns, ⟨hgood.freep, ?_, hgood.sizes, hgood.apart⟩, fun x hx b hb => ?_⟩⟩
  · have hin := hgood.liveInside _ (List.mem_map_of_mem hb)
    have hb' := hpart b hb
    omega
  · refine (List.pairwise_map.mp hgood.off).imp_of_mem fun {x y} hx hy hxy => ?_
    have hx' := hpart x hx
    have hy' := hpart y hy
    rcases hxy with hxy | hxy
    · exact .inl (by omega)
    · exact .inr (by omega)
  · obtain ⟨tail, rfl⟩ := hgood.cons
    exact hgood.links
  · have hb' := hpart b hb
    rcases hgood.clear x hx _ (List.mem_map_of_mem hb) with hxb | hbx
    · exact .inl (by omega)
    · exact .inr (by omega)

theorem Client.Sound.returns (h : c.Sound) : c.Returns := by
  refine ⟨fun nbytes memory hn => ?_, fun ap hap => ?_, fun a v ha => ?_⟩
  · obtain ⟨k, c', hrun, -⟩ := h.malloc hn memory
    refine ⟨k, fun fuel hfuel => ?_⟩
    rw [← Nat.sub_add_cancel hfuel, hrun]
    rfl
  · obtain ⟨k, c', hrun, -⟩ := h.free hap
    refine ⟨k, fun fuel hfuel => ?_⟩
    rw [← Nat.sub_add_cancel hfuel, hrun]
    rfl
  · obtain ⟨c', hrun, -⟩ := h.write ha v
    rw [hrun]
    rfl

/--
**`malloc` returns usable, disjoint blocks** and the free list stays in order, in every run of a
program that never asks for more than `2 ^ 31 - 32` bytes at once, so that the size passed to `sbrk`
is an `int`.
-/
theorem malloc_blocks_usable {c : Client}
    (h : Reach Client.step Client.Fresh (fun _ a => a.Small) c) : c.Usable ∧ c.Returns := by
  have hsound : c.Sound :=
    h.keeps (fun _ hfresh => hfresh.sound) fun _ _ _ hs hsmall hstep => hs.step hsmall hstep
  exact ⟨hsound.usable, hsound.returns⟩

/-- A program with its data in the second page and nothing in the heap. -/
def newProgram : Client where
  heap := { base := 4096, start := 16384, sz := 16384, mem := fun _ => ⟨0, 0⟩, freep := 0 }
  live := []

theorem newProgram_fresh : newProgram.Fresh :=
  ⟨by decide, by decide, by decide, rfl, rfl, rfl, rfl⟩

/-- Three blocks, of which the second is freed and then the first. -/
theorem malloc_blocks_usable_three : ∃ c, Reach Client.step Client.Fresh (fun _ a => a.Small) c ∧
    c.live = [(81264, 300)] ∧ c.Usable ∧ c.Returns := by
  have hrun : (replay Client.step (fun _ a => decide a.Small) newProgram
      [.malloc 9 100 true, .malloc 9 200 true, .malloc 9 300 true, .write 81296 ⟨7, 7⟩,
      .free 9 81584, .free 9 81808]).map Client.live = some [(81264, 300)] := by decide +kernel
  obtain ⟨c, hc, hlive⟩ := Option.map_eq_some_iff.mp hrun
  have hreach : Reach Client.step Client.Fresh (fun _ a => a.Small) c :=
    replay_reach (fun _ _ h => of_decide_eq_true h) (.init newProgram_fresh) hc
  exact ⟨c, hreach, hlive, malloc_blocks_usable hreach⟩

/-- The largest request becomes one of 16 bytes, and the block has no memory behind its header. -/
theorem malloc_block_without_memory :
    ¬ ∀ c, Reach Client.step Client.Fresh (fun _ _ => True) c → c.Usable := by
  intro hall
  have hrun : (replay Client.step (fun _ _ => true) newProgram [.malloc 9 (2 ^ 32 - 1) true]).map
      (fun c => (c.live, c.heap.sz)) = some ([(16400, 2 ^ 32 - 1)], 16400) := by decide +kernel
  obtain ⟨c, hc, hfacts⟩ := Option.map_eq_some_iff.mp hrun
  obtain ⟨hlive, hsz⟩ := Prod.mk.inj hfacts
  have husable := hall c (replay_reach (fun _ _ _ => trivial) (.init newProgram_fresh) hc)
  have hin :=
    (husable.inside (16400, 2 ^ 32 - 1) (by rw [hlive]; exact List.mem_singleton.mpr rfl)).2
  rw [hsz] at hin
  exact absurd hin (by decide)

end Xv6Paging.Umalloc
