import Xv6Paging.Kernel.Bio

/-!
# No block is cached twice

`bget` decides by what the ring shows it: it takes a new buffer for a block when it
met none on its way around. That is safe as long as the ring passes every buffer,
so the two facts are one invariant: the ring holds all of the buffers, and a block of
a device has at most one. Buffers start on device 0, all on the same block of it,
which is why that device is left out.

The third fact of the invariant is that `refcnt` counts, modulo 2^32, the references that
have been handed out. A buffer with references is not recycled, so from its `bpin` to its
`bunpin` a buffer stays its block's, and every `bread` of the block returns it as it is.
-/

namespace Xv6Paging

open Lib

variable {a b : Fin nbuf} {dev blockno : Nat} {s : BcacheSys}

/-- The buffer stays with its block, and valid. -/
structure Buf.Stays (f f' : Buf) : Prop where
  dev : f'.dev = f.dev
  blockno : f'.blockno = f.blockno
  valid : f.valid = true → f'.valid = true

theorem Buf.Stays.trans {f f' f'' : Buf} (h : f.Stays f') (h' : f'.Stays f'') : f.Stays f'' :=
  ⟨h'.dev.trans h.dev, h'.blockno.trans h.blockno, fun hv => h'.valid (h.valid hv)⟩

/-! ## The ring -/

/-- The ring passes every buffer, once. -/
def Bcache.Ringed (c : Bcache) : Prop :=
  ∃ l : List (Fin nbuf), Linked c.next c.prev l ∧ ∀ b, b ∈ l

namespace Bcache

variable {c : Bcache} {b : Fin nbuf}

/-- Relinking changes no buffer. -/
@[simp] theorem linkFront_buf : (c.linkFront b).buf = c.buf := rfl

@[simp] theorem linkOut_buf : (c.linkOut b).buf = c.buf := rfl

/-- `binit` links the buffers in one by one. -/
theorem foldl_linkFront : ∀ {bs l : List (Fin nbuf)} {c : Bcache}, Linked c.next c.prev l →
    (bs.reverse ++ l).Nodup →
    Linked (bs.foldl linkFront c).next (bs.foldl linkFront c).prev (bs.reverse ++ l) := by
  intro bs
  induction bs with
  | nil => intro l c h _; exact h
  | cons a bs ih =>
    intro l c h hnd
    rw [List.reverse_cons, List.append_assoc] at hnd ⊢
    have ha : a ∉ l := (List.nodup_cons.mp (List.Nodup.of_append_right hnd)).1
    exact ih (h.pushFront ha) hnd

theorem binit_ringed : Ringed binit := by
  refine ⟨(List.finRange nbuf).reverse ++ [], foldl_linkFront ⟨⟨rfl, rfl⟩, List.nodup_nil⟩ ?_, ?_⟩
  · simpa using List.nodup_finRange nbuf
  · simp

theorem binit_buf : binit.buf = fun _ => ⟨false, 0, 0, 0, fun _ => 0⟩ := by
  have hkeep : ∀ (bs : List (Fin nbuf)) (c : Bcache), (bs.foldl linkFront c).buf = c.buf := by
    intro bs
    induction bs with
    | nil => intro c; rfl
    | cons a bs ih => intro c; exact ih _
  exact hkeep _ _

/-- **Releasing a buffer keeps the ring.** -/
theorem Ringed.brelse (h : c.Ringed) : (c.brelse b).Ringed := by
  obtain ⟨l, hl, hall⟩ := h
  unfold Bcache.brelse
  split
  · obtain ⟨l', hperm, hl'⟩ := hl.moveFront (hall b)
    exact ⟨l', hl', fun a => hperm.mem_iff.mpr (hall a)⟩
  · exact ⟨l, hl, hall⟩

/-- Its links undo each other everywhere. -/
theorem Ringed.inverse (h : c.Ringed) (x : Option (Fin nbuf)) :
    c.prev (c.next x) = x ∧ c.next (c.prev x) = x := by
  obtain ⟨l, hl, hall⟩ := h
  have hmem : x = none ∨ x ∈ l.map some := by
    cases x with
    | none => exact Or.inl rfl
    | some a => exact Or.inr (List.mem_map_of_mem (hall a))
  refine ⟨hl.path.inverse x hmem, hl.path.reverse.inverse x ?_⟩
  rw [List.map_reverse, List.mem_reverse]
  exact hmem

/-- All buffers fit into the rounds the searches have. -/
theorem ring_length {l : List (Fin nbuf)} (h : l.Nodup) : l.length < nbuf + 1 := by
  have hcard := h.length_le_card
  rw [Fintype.card_fin] at hcard
  omega

/-- A search forward that finds nothing has seen every buffer. -/
theorem Ringed.seek_next (h : c.Ringed) (p : Fin nbuf → Bool) :
    match seek c.next p (nbuf + 1) (c.next none) with
    | some b => p b = true
    | none => ∀ b, p b = false := by
  obtain ⟨l, hl, hall⟩ := h
  rw [hl.path.seek p (ring_length hl.nodup)]
  cases hfind : l.find? p with
  | none => exact fun b => by simpa using List.find?_eq_none.mp hfind b (hall b)
  | some b => exact List.find?_some hfind

/-- And backward. -/
theorem Ringed.seek_prev (h : c.Ringed) (p : Fin nbuf → Bool)
    (hs : seek c.prev p (nbuf + 1) (c.prev none) = some b) : p b = true := by
  obtain ⟨l, hl, hall⟩ := h
  rw [hl.path.reverse.seek p (ring_length (List.nodup_reverse.mpr hl.nodup))] at hs
  exact List.find?_some hs

/-! ## Whose block a buffer holds -/

/-- The buffer is the one of this block. -/
def Carries (c : Bcache) (b : Fin nbuf) (dev blockno : Nat) : Prop :=
  (c.buf b).dev = dev ∧ (c.buf b).blockno = blockno

/-- What `bget` can do. -/
inductive Got (c : Bcache) (dev blockno : Nat) (b : Fin nbuf) : Bcache → Prop where
  | cached : c.Carries b dev blockno → Got c dev blockno b (c.incr b)
  | recycled : (∀ a, ¬ c.Carries a dev blockno) → (c.buf b).refcnt = 0 →
      Got c dev blockno b
        (c.set b fun f => { f with dev := dev, blockno := blockno, valid := false, refcnt := 1 })

theorem Ringed.got (h : c.Ringed) {c' : Bcache} (hget : c.bget dev blockno = some (b, c')) :
    Got c dev blockno b c' := by
  have hseek := h.seek_next fun b => (c.buf b).dev == dev && (c.buf b).blockno == blockno
  unfold bget at hget
  split at hget
  · rename_i a ha
    rw [ha] at hseek
    cases hget
    exact .cached (by simpa [Carries] using hseek)
  · rename_i hnone
    rw [hnone] at hseek
    split at hget
    · rename_i a ha
      cases hget
      refine .recycled (fun a hc => ?_) (by simpa using h.seek_prev _ ha)
      have hno := hseek a
      simp only [hc.1, hc.2, BEq.rfl, Bool.and_self] at hno
      exact absurd hno (by decide)
    · cases hget

theorem set_buf_self (f : Buf → Buf) : (c.set b f).buf b = f (c.buf b) := Function.update_self ..

theorem set_buf_ne (f : Buf → Buf) (h : a ≠ b) : (c.set b f).buf a = c.buf a :=
  Function.update_of_ne h ..

/-- A change to the other fields changes no buffer's block. -/
theorem set_carries {f : Buf → Buf} (hf : ∀ x, (f x).dev = x.dev ∧ (f x).blockno = x.blockno) :
    (c.set b f).Carries a dev blockno ↔ c.Carries a dev blockno := by
  unfold Carries
  by_cases hab : a = b
  · subst hab
    rw [set_buf_self, (hf _).1, (hf _).2]
  · rw [set_buf_ne f hab]

theorem decr_carries :
    (c.decr b).Carries a dev blockno ↔ c.Carries a dev blockno :=
  set_carries fun _ => ⟨rfl, rfl⟩

theorem brelse_buf : (c.brelse b).buf = (c.decr b).buf := by
  unfold brelse
  split <;> rfl

/-- A block of a device is in one buffer at most. -/
def Single (c : Bcache) : Prop :=
  ∀ a b dev blockno, dev ≠ 0 → c.Carries a dev blockno → c.Carries b dev blockno → a = b

/-- Only what the buffers carry matters. -/
theorem Single.congr {c' : Bcache} (h : c.Single)
    (hc : ∀ a dev blockno, c'.Carries a dev blockno ↔ c.Carries a dev blockno) : c'.Single :=
  fun a b dev blockno hd ha hb =>
    h a b dev blockno hd ((hc a dev blockno).mp ha) ((hc b dev blockno).mp hb)

/-- A recycled buffer is the first one of its new block. -/
theorem Single.recycle (h : c.Single) (hno : ∀ a, ¬ c.Carries a dev blockno) :
    (c.set b fun f =>
      { f with dev := dev, blockno := blockno, valid := false, refcnt := 1 }).Single := by
  intro x y d n hd hx hy
  unfold Carries at hx hy
  by_cases hxb : x = b <;> by_cases hyb : y = b
  · rw [hxb, hyb]
  · subst hxb
    rw [set_buf_self] at hx
    rw [set_buf_ne _ hyb, ← hx.1, ← hx.2] at hy
    exact absurd hy (hno y)
  · subst hyb
    rw [set_buf_self] at hy
    rw [set_buf_ne _ hxb, ← hy.1, ← hy.2] at hx
    exact absurd hx (hno x)
  · rw [set_buf_ne _ hxb] at hx
    rw [set_buf_ne _ hyb] at hy
    exact h x y d n hd hx hy

end Bcache

/-! ## Along a run -/

/-- The invariant of the cache. -/
structure BcacheOk (c : Bcache) : Prop where
  ringed : c.Ringed
  single : c.Single

/-- `refcnt` is the number of references handed out, as far as it goes. -/
def BcacheSys.Counted (s : BcacheSys) : Prop := ∀ b, (s.cache.buf b).refcnt = s.held b % 2 ^ 32

/-- One reference to `b` has been given back. -/
def BcacheSys.Gave (s s' : BcacheSys) (b : Fin nbuf) : Prop :=
  0 < s.held b ∧ s'.held = Function.update s.held b (s.held b - 1)

/-- The step does not give back the last reference to `b`. -/
def BcacheAct.LeavesOne (b : Fin nbuf) (s : BcacheSys) : BcacheAct → Prop
  | .brelse x | .bunpin x => x = b → 1 < s.held b
  | _ => True

instance (b : Fin nbuf) (s : BcacheSys) : ∀ a, Decidable (BcacheAct.LeavesOne b s a)
  | .brelse x | .bunpin x => inferInstanceAs (Decidable (x = b → 1 < s.held b))
  | .bget .. | .fill _ | .store .. | .bwrite _ | .bpin _ => .isTrue trivial

/-- What a step can make of the cache and of the count of references. -/
inductive BcacheStepped (s s' : BcacheSys) : BcacheAct → Prop where
  | bget {dev blockno : Nat} {b : Fin nbuf} : Bcache.Got s.cache dev blockno b s'.cache →
      s'.held = Function.update s.held b (s.held b + 1) → BcacheStepped s s' (.bget dev blockno)
  | fill {b : Fin nbuf} : (s.cache.buf b).valid = false → s'.cache = s.cache.fill s.disk b →
      s'.held = s.held → BcacheStepped s s' (.fill b)
  | store {b : Fin nbuf} {data : Block} :
      s'.cache = (s.cache.set b fun f => { f with data := data }) → s'.held = s.held →
      BcacheStepped s s' (.store b data)
  | bwrite {b : Fin nbuf} : s'.cache = s.cache → s'.held = s.held → BcacheStepped s s' (.bwrite b)
  | brelse {b : Fin nbuf} : s'.cache = s.cache.brelse b → s.Gave s' b →
      BcacheStepped s s' (.brelse b)
  | bpin {b : Fin nbuf} : s'.cache = s.cache.incr b →
      s'.held = Function.update s.held b (s.held b + 1) → BcacheStepped s s' (.bpin b)
  | bunpin {b : Fin nbuf} : s'.cache = s.cache.decr b → s.Gave s' b →
      BcacheStepped s s' (.bunpin b)

theorem give_some {s' : BcacheSys} {c : Bcache} (h : s.give b c = some s') :
    s'.cache = c ∧ s.Gave s' b := by
  unfold BcacheSys.give at h
  split at h
  · rename_i hpos
    cases h
    exact ⟨rfl, hpos, rfl⟩
  · cases h

theorem bcacheStepped {s' : BcacheSys} {a : BcacheAct} (hr : s.cache.Ringed)
    (h : s.step a = some s') : BcacheStepped s s' a := by
  cases a with
  | bget dev blockno =>
    simp only [BcacheSys.step] at h
    split at h
    · rename_i b c hget
      cases h
      exact .bget (hr.got hget) rfl
    · cases h
  | fill b =>
    simp only [BcacheSys.step] at h
    split at h
    · rename_i hg
      cases h
      exact .fill hg.2 rfl rfl
    · cases h
  | store b data =>
    simp only [BcacheSys.step] at h
    split at h
    · cases h; exact .store rfl rfl
    · cases h
  | bwrite b =>
    simp only [BcacheSys.step] at h
    split at h
    · cases h; exact .bwrite rfl rfl
    · cases h
  | brelse b =>
    obtain ⟨hcache, hgave⟩ := give_some h
    exact .brelse hcache hgave
  | bpin b => cases h; exact .bpin rfl rfl
  | bunpin b =>
    obtain ⟨hcache, hgave⟩ := give_some h
    exact .bunpin hcache hgave

namespace BcacheStepped

variable {s s' : BcacheSys} {a : BcacheAct}

/-- **A step keeps the invariant.** -/
theorem ok (h : BcacheStepped s s' a) (hok : BcacheOk s.cache) : BcacheOk s'.cache := by
  obtain ⟨hring, hsingle⟩ := hok
  cases h with
  | bget hgot _ =>
    generalize s'.cache = c' at hgot
    cases hgot with
    | cached hc => exact ⟨hring, hsingle.congr fun _ _ _ => Bcache.set_carries fun _ => ⟨rfl, rfl⟩⟩
    | recycled hno href => exact ⟨hring, hsingle.recycle hno⟩
  | fill hv e _ =>
    rw [e]
    exact ⟨hring, hsingle.congr fun _ _ _ => Bcache.set_carries fun _ => ⟨rfl, rfl⟩⟩
  | store e _ =>
    rw [e]
    exact ⟨hring, hsingle.congr fun _ _ _ => Bcache.set_carries fun _ => ⟨rfl, rfl⟩⟩
  | bwrite e _ =>
    rw [e]
    exact ⟨hring, hsingle⟩
  | @brelse b e _ =>
    rw [e]
    refine ⟨hring.brelse, hsingle.congr fun x d n => ?_⟩
    rw [Bcache.Carries, Bcache.brelse_buf]
    exact Bcache.decr_carries
  | bpin e _ =>
    rw [e]
    exact ⟨hring, hsingle.congr fun _ _ _ => Bcache.set_carries fun _ => ⟨rfl, rfl⟩⟩
  | bunpin e _ =>
    rw [e]
    exact ⟨hring, hsingle.congr fun _ _ _ => Bcache.decr_carries⟩

/-- A step changes one buffer. Its block, and its being valid, it changes only if the
buffer has no references; the bytes of a valid one only by a store. -/
theorem buf (h : BcacheStepped s s' a) : ∃ x f, s'.cache.buf = (s.cache.set x f).buf ∧
    (0 < (s.cache.buf x).refcnt → Buf.Stays (s.cache.buf x) (f (s.cache.buf x)) ∧
      ((s.cache.buf x).valid = true → (∀ data, a ≠ .store x data) →
        (f (s.cache.buf x)).data = (s.cache.buf x).data)) := by
  cases h with
  | @bget dev blockno b hgot _ =>
    generalize s'.cache = c' at hgot
    cases hgot with
    | cached hc => exact ⟨b, _, rfl, fun _ => ⟨⟨rfl, rfl, id⟩, fun _ _ => rfl⟩⟩
    | recycled hno href => exact ⟨b, _, rfl, fun hpos => absurd href (by omega)⟩
  | @fill b hv e _ =>
    refine ⟨b, _, by rw [e]; rfl, fun _ => ⟨⟨rfl, rfl, fun _ => rfl⟩, fun hvalid _ => ?_⟩⟩
    rw [hv] at hvalid
    cases hvalid
  | @store b data e _ =>
    exact ⟨b, _, by rw [e], fun _ => ⟨⟨rfl, rfl, id⟩, fun _ hno => absurd rfl (hno data)⟩⟩
  | @bwrite b e _ =>
    refine ⟨b, id, ?_, fun _ => ⟨⟨rfl, rfl, id⟩, fun _ _ => rfl⟩⟩
    rw [e]
    exact (Function.update_eq_self b _).symm
  | @brelse b e _ =>
    exact ⟨b, _, by rw [e, Bcache.brelse_buf]; rfl, fun _ => ⟨⟨rfl, rfl, id⟩, fun _ _ => rfl⟩⟩
  | @bpin b e _ => exact ⟨b, _, by rw [e]; rfl, fun _ => ⟨⟨rfl, rfl, id⟩, fun _ _ => rfl⟩⟩
  | @bunpin b e _ => exact ⟨b, _, by rw [e]; rfl, fun _ => ⟨⟨rfl, rfl, id⟩, fun _ _ => rfl⟩⟩

/-- **A buffer with references stays with its block.** -/
theorem stays (h : BcacheStepped s s' a) (hpos : 0 < (s.cache.buf b).refcnt) :
    Buf.Stays (s.cache.buf b) (s'.cache.buf b) ∧
      ((s.cache.buf b).valid = true → (∀ data, a ≠ .store b data) →
        (s'.cache.buf b).data = (s.cache.buf b).data) := by
  obtain ⟨x, f, hbuf, hkeep⟩ := h.buf
  rw [hbuf]
  by_cases hbx : b = x
  · subst hbx
    rw [Bcache.set_buf_self]
    exact hkeep hpos
  · rw [Bcache.set_buf_ne f hbx]
    exact ⟨⟨rfl, rfl, id⟩, fun _ _ => rfl⟩

/-- **A step keeps the count.** -/
theorem counted (h : BcacheStepped s s' a) (hc : s.Counted) : s'.Counted := by
  have hset : ∀ {b : Fin nbuf} {f : Buf → Buf} {n : Nat}, s'.cache.buf = (s.cache.set b f).buf →
      s'.held = Function.update s.held b n → (f (s.cache.buf b)).refcnt = n % 2 ^ 32 →
      s'.Counted := by
    intro b f n hbuf hheld hn x
    rw [hbuf, hheld]
    by_cases hxb : x = b
    · subst hxb
      rw [Bcache.set_buf_self, Function.update_self, hn]
    · rw [Bcache.set_buf_ne f hxb, Function.update_of_ne hxb, hc x]
  cases h with
  | @bget dev blockno b hgot hheld =>
    have hb := hc b
    generalize hcache : s'.cache = c' at hgot
    cases hgot with
    | cached _ => exact hset (by rw [hcache]; rfl) hheld (by dsimp only; omega)
    | recycled _ href => exact hset (by rw [hcache]) hheld (by dsimp only; omega)
  | @fill b _ e hheld =>
    exact hset (by rw [e]; rfl) (hheld.trans (Function.update_eq_self b _).symm) (hc b)
  | @store b _ e hheld =>
    exact hset (by rw [e]) (hheld.trans (Function.update_eq_self b _).symm) (hc b)
  | bwrite e hheld =>
    intro x
    rw [e, hheld]
    exact hc x
  | @brelse b e hgave =>
    have hb := hc b
    obtain ⟨hpos, hheld⟩ := hgave
    exact hset (by rw [e, Bcache.brelse_buf]; rfl) hheld (by dsimp only; omega)
  | @bpin b e hheld =>
    have hb := hc b
    exact hset (by rw [e]; rfl) hheld (by dsimp only; omega)
  | @bunpin b e hgave =>
    have hb := hc b
    obtain ⟨hpos, hheld⟩ := hgave
    exact hset (by rw [e]; rfl) hheld (by dsimp only; omega)

/-- Only giving back the last reference to `b` leaves none. -/
theorem held_pos (h : BcacheStepped s s' a) (hpos : 0 < s.held b) (hleft : a.LeavesOne b s) :
    0 < s'.held b := by
  have hset : ∀ {x : Fin nbuf} {n : Nat}, s'.held = Function.update s.held x n →
      (x = b → 0 < n) → 0 < s'.held b := by
    intro x n hx hn
    rw [hx]
    by_cases hbx : b = x
    · rw [hbx, Function.update_self]
      exact hn hbx.symm
    · rw [Function.update_of_ne hbx]
      exact hpos
  cases h with
  | bget _ hheld | bpin _ hheld => exact hset hheld fun _ => Nat.succ_pos _
  | fill _ _ hheld | store _ hheld | bwrite _ hheld => rw [hheld]; exact hpos
  | brelse _ hg | bunpin _ hg =>
    refine hset hg.2 fun hx => ?_
    have hleft : 1 < s.held b := hleft hx
    rw [hx]
    omega

end BcacheStepped

/-- Every run of the cache. -/
abbrev BcacheRun (s : BcacheSys) : Prop :=
  Reach BcacheSys.step (fun s => ∃ disk, s = BcacheSys.start disk) (fun _ _ => True) s

/-- What is reached from `s` while buffer `b` has references. -/
abbrev WhileHeld (b : Fin nbuf) (s : BcacheSys) : BcacheSys → Prop :=
  Reach BcacheSys.step (fun t => t = s) fun t _ => 0 < (t.cache.buf b).refcnt

/-- What is reached from `s` by steps in `C` as long as a reference to `b` is left, of which there
are never 2^32. -/
abbrev Pinned (C : BcacheAct → Prop) (b : Fin nbuf) (s : BcacheSys) : BcacheSys → Prop :=
  Reach BcacheSys.step (fun t => t = s) fun t a => t.held b < 2 ^ 32 ∧ a.LeavesOne b t ∧ C a

theorem BcacheRun.ok (h : BcacheRun s) : BcacheOk s.cache ∧ s.Counted := by
  refine h.keeps (P := fun s => BcacheOk s.cache ∧ s.Counted) ?_ ?_
  · rintro s ⟨disk, rfl⟩
    have hbuf : (BcacheSys.start disk).cache.buf = fun _ => ⟨false, 0, 0, 0, fun _ => 0⟩ :=
      Bcache.binit_buf
    refine ⟨⟨Bcache.binit_ringed, fun a b dev blockno hd ha _ => ?_⟩, fun b => by rw [hbuf]; rfl⟩
    -- every buffer is still on device 0
    have hdev := ha.1
    rw [hbuf] at hdev
    exact absurd hdev.symm hd
  · rintro s a s' ⟨hok, hcount⟩ _ hstep
    have hstepped := bcacheStepped hok.ringed hstep
    exact ⟨hstepped.ok hok, hstepped.counted hcount⟩

theorem WhileHeld.stays {t : BcacheSys} (hok : BcacheOk s.cache) (h : WhileHeld b s t) :
    BcacheOk t.cache ∧ Buf.Stays (s.cache.buf b) (t.cache.buf b) := by
  refine h.keeps (P := fun t => BcacheOk t.cache ∧ Buf.Stays (s.cache.buf b) (t.cache.buf b)) ?_ ?_
  · rintro t rfl
    exact ⟨hok, rfl, rfl, id⟩
  · rintro t a t' ⟨ht, hs⟩ hpos hstep
    have hstepped := bcacheStepped ht.ringed hstep
    exact ⟨hstepped.ok ht, hs.trans (hstepped.stays hpos).1⟩

/-- What has been kept of buffer `b` since `s`, where it was pinned. -/
structure PinKept (C : BcacheAct → Prop) (b : Fin nbuf) (s t : BcacheSys) : Prop where
  ok : BcacheOk t.cache
  counted : t.Counted
  held : 0 < t.held b
  stays : Buf.Stays (s.cache.buf b) (t.cache.buf b)
  data : (s.cache.buf b).valid = true → (∀ a, C a → ∀ data, a ≠ .store b data) →
    (t.cache.buf b).data = (s.cache.buf b).data

/-- **Nobody takes a pinned buffer away**, or changes its bytes but by a store. -/
theorem Pinned.kept {C : BcacheAct → Prop} {t : BcacheSys} (hok : BcacheOk s.cache)
    (hcount : s.Counted) (hpos : 0 < s.held b) (h : Pinned C b s t) : PinKept C b s t := by
  refine h.keeps (P := PinKept C b s) ?_ ?_
  · rintro t rfl
    exact ⟨hok, hcount, hpos, ⟨rfl, rfl, id⟩, fun _ _ => rfl⟩
  · rintro t a t' ht ⟨hlt, hleft, hC⟩ hstep
    have hstepped := bcacheStepped ht.ok.ringed hstep
    -- the count has not wrapped
    have href : 0 < (t.cache.buf b).refcnt := by
      rw [ht.counted b, Nat.mod_eq_of_lt hlt]
      exact ht.held
    obtain ⟨hstay, hkeep⟩ := hstepped.stays href
    refine ⟨hstepped.ok ht.ok, hstepped.counted ht.counted, hstepped.held_pos ht.held hleft,
      ht.stays.trans hstay, fun hv hno => ?_⟩
    rw [hkeep (ht.stays.valid hv) (hno a hC), ht.data hv hno]

/-- `bread` of a block that is in a valid buffer returns this buffer, unchanged. -/
theorem bread_cached {c : Bcache} {disk : Nat → Blocks} (hok : BcacheOk c)
    (hdev : (c.buf b).dev ≠ 0) (hvalid : (c.buf b).valid = true) :
    ∃ c', c.bread disk (c.buf b).dev (c.buf b).blockno = some (b, c') ∧
      (c'.buf b).data = (c.buf b).data := by
  obtain ⟨a, c', hx⟩ : ∃ a c', c.bget (c.buf b).dev (c.buf b).blockno = some (a, c') := by
    have hseek := hok.ringed.seek_next fun a =>
      (c.buf a).dev == (c.buf b).dev && (c.buf a).blockno == (c.buf b).blockno
    unfold Bcache.bget
    split
    · exact ⟨_, _, rfl⟩
    · rename_i hnone
      rw [hnone] at hseek
      simpa using hseek b
  cases hok.ringed.got hx with
  | recycled hno _ => exact absurd ⟨rfl, rfl⟩ (hno b)
  | cached hc =>
    have hab : a = b := hok.single a b _ _ hdev hc ⟨rfl, rfl⟩
    subst hab
    have hbuf : (c.incr a).buf a = { c.buf a with refcnt := ((c.buf a).refcnt + 1) % 2 ^ 32 } :=
      Bcache.set_buf_self _
    refine ⟨c.incr a, ?_, by rw [hbuf]⟩
    rw [Bcache.bread, hx]
    simp only [hbuf, hvalid, if_true]

/-- **The cache never holds a block twice.** In every state of every run: the ring through
`next` passes each buffer exactly once and `prev` is its inverse; a block of a device
other than 0 is in one buffer at most; `refcnt` is the number of references handed out,
modulo 2^32; a buffer with references keeps its block as long as it has them, its bytes are
changed by stores alone, and, once it is valid, every `bread` of the block returns it with the
bytes it holds then. So does a buffer from `bpin` on, until its last reference is given back. -/
theorem cached_block_is_single {s : BcacheSys} (h : BcacheRun s) :
    (∃ l : List (Fin nbuf), l.Nodup ∧ (∀ b, b ∈ l) ∧
      Path s.cache.next s.cache.prev none l none) ∧
    (∀ x, s.cache.prev (s.cache.next x) = x ∧ s.cache.next (s.cache.prev x) = x) ∧
    (∀ a b, (s.cache.buf a).dev ≠ 0 → (s.cache.buf a).dev = (s.cache.buf b).dev →
      (s.cache.buf a).blockno = (s.cache.buf b).blockno → a = b) ∧
    (∀ b a t, 0 < (s.cache.buf b).refcnt → s.step a = some t →
      (s.cache.buf b).valid = true → (∀ data, a ≠ .store b data) →
      (t.cache.buf b).data = (s.cache.buf b).data) ∧
    (∀ b t, WhileHeld b s t →
      (t.cache.buf b).dev = (s.cache.buf b).dev ∧
      (t.cache.buf b).blockno = (s.cache.buf b).blockno ∧
      ((s.cache.buf b).dev ≠ 0 → (s.cache.buf b).valid = true →
        ∃ c, t.cache.bread t.disk (s.cache.buf b).dev (s.cache.buf b).blockno = some (b, c) ∧
          (c.buf b).data = (t.cache.buf b).data)) ∧
    (∀ b, (s.cache.buf b).refcnt = s.held b % 2 ^ 32) ∧
    (∀ C b p t, s.step (.bpin b) = some p → Pinned C b p t →
      (t.cache.buf b).dev = (s.cache.buf b).dev ∧
      (t.cache.buf b).blockno = (s.cache.buf b).blockno ∧
      ((s.cache.buf b).valid = true →
        ((∀ a, C a → ∀ data, a ≠ .store b data) →
          (t.cache.buf b).data = (s.cache.buf b).data) ∧
        ((s.cache.buf b).dev ≠ 0 →
          ∃ c, t.cache.bread t.disk (s.cache.buf b).dev (s.cache.buf b).blockno = some (b, c) ∧
            (c.buf b).data = (t.cache.buf b).data))) := by
  obtain ⟨hok, hcount⟩ := h.ok
  obtain ⟨l, hl, hall⟩ := hok.ringed
  refine ⟨⟨l, hl.nodup, hall, hl.path⟩, hok.ringed.inverse, ?_, ?_, ?_, hcount, ?_⟩
  · intro a b hd hdev hblock
    exact hok.single a b _ _ hd ⟨rfl, rfl⟩ ⟨hdev.symm, hblock.symm⟩
  · intro b a t hpos hstep
    exact ((bcacheStepped hok.ringed hstep).stays hpos).2
  · intro b t ht
    obtain ⟨htok, hdev, hblock, hvalid⟩ := ht.stays hok
    refine ⟨hdev, hblock, fun hd hv => ?_⟩
    rw [← hdev, ← hblock]
    exact bread_cached htok (by rw [hdev]; exact hd) (hvalid hv)
  · intro C b p t hpin ht
    have hstepped := bcacheStepped hok.ringed hpin
    obtain ⟨hbuf, hpos⟩ : p.cache.buf b =
        { s.cache.buf b with refcnt := ((s.cache.buf b).refcnt + 1) % 2 ^ 32 } ∧ 0 < p.held b := by
      cases hstepped with
      | bpin e hheld =>
        rw [e, hheld, Function.update_self]
        exact ⟨Bcache.set_buf_self _, Nat.succ_pos _⟩
    obtain ⟨htok, _, _, ⟨hdev, hblock, hvalid⟩, hdata⟩ :=
      ht.kept (hstepped.ok hok) (hstepped.counted hcount) hpos
    rw [hbuf] at hdev hblock hvalid hdata
    refine ⟨hdev, hblock, fun hv => ⟨hdata hv, fun hd => ?_⟩⟩
    dsimp only at hdev hblock
    rw [← hdev, ← hblock]
    exact bread_cached htok (by rw [hdev]; exact hd) (hvalid hv)

/-- A block that is read and stored to; `log_write` then pins it. -/
def storeOne : List BcacheAct := [.bget 1 5, .fill 0, .store 0 fun _ => 7]

/-- Not a store. -/
def BcacheAct.Reads : BcacheAct → Prop
  | .store .. => False
  | _ => True

instance : ∀ a, Decidable (BcacheAct.Reads a)
  | .store .. => .isFalse id
  | .bget .. | .fill _ | .bwrite _ | .brelse _ | .bpin _ | .bunpin _ => .isTrue trivial

/-- Its caller releases it, and another block is read after it: the pinned buffer has what was
stored. -/
theorem cached_block_is_single_pinned : ∃ s p t c, BcacheRun s ∧ s.step (.bpin 0) = some p ∧
    Pinned BcacheAct.Reads 0 p t ∧ t.held 0 = 1 ∧ (t.cache.buf 1).blockno = 6 ∧
    t.cache.bread t.disk 1 5 = some (0, c) ∧ (c.buf 0).data = (s.cache.buf 0).data ∧
    (s.cache.buf 0).data 0 = 7 := by
  have hpin : (replay BcacheSys.step (fun _ _ => true)
      (BcacheSys.start fun _ _ _ => 0) storeOne).map
      (fun s => (decide ((s.cache.buf 0).dev = 1 ∧ (s.cache.buf 0).blockno = 5 ∧
          (s.cache.buf 0).valid = true ∧ (s.cache.buf 0).data 0 = 7),
        (s.step (.bpin 0)).bind fun p => (replay BcacheSys.step
          (fun t a => decide (t.held 0 < 2 ^ 32 ∧ BcacheAct.LeavesOne 0 t a ∧ a.Reads)) p
            [.brelse 0, .bget 1 6]).map fun t => (t.held 0, (t.cache.buf 1).blockno))) =
      some (true, some (1, 6)) := by
    decide +kernel
  obtain ⟨s, hs, hfacts⟩ := Option.map_eq_some_iff.mp hpin
  obtain ⟨hfacts, hlater⟩ := Prod.mk.inj hfacts
  obtain ⟨hdev, hblock, hvalid, hseven⟩ := of_decide_eq_true hfacts
  obtain ⟨p, hp, hlater⟩ := Option.bind_eq_some_iff.mp hlater
  obtain ⟨t, ht, hlast⟩ := Option.map_eq_some_iff.mp hlater
  have hrun : BcacheRun s := replay_reach (fun _ _ _ => trivial) (.init ⟨_, rfl⟩) hs
  have hheld : Pinned BcacheAct.Reads 0 p t :=
    replay_reach (fun _ _ h => of_decide_eq_true h) (.init rfl) ht
  obtain ⟨hdata, hbread⟩ :=
    ((cached_block_is_single hrun).2.2.2.2.2.2 _ 0 p t hp hheld).2.2 hvalid
  obtain ⟨c, hread, hc⟩ := hbread (by rw [hdev]; decide)
  rw [hdev, hblock] at hread
  refine ⟨s, p, t, c, hrun, hp, hheld, congrArg Prod.fst hlast, congrArg Prod.snd hlast, hread,
    ?_, hseven⟩
  rw [hc]
  exact hdata fun a ha data he => by rw [he] at ha; exact ha

end Xv6Paging
