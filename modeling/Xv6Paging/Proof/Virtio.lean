import Xv6Paging.Kernel.Virtio

/-!
# Disk requests are carried out once

A descriptor that is not free is one of the three of a process that waits for the device, and a
request that is not known to be done is in one place: on the ring of the driver, with the device, or
on the ring of the device. So there are never more entries on a ring than it has cells, whatever its
counters have wrapped around to, and the interrupt handler finds the buffer of a request that was
carried out.
-/

namespace Xv6Paging.Virtio

open Lib

variable {P : Type}

/-! ## Descriptors -/

/-- A call, as the device reads it. -/
def Call.request (c : Call) : Request := ⟨c.i.val, c.b, c.write, c.b * 2 % 2 ^ 32, c.i⟩

namespace Driver

variable {d d' d'' : Driver} {c : Call} {i : Fin num} {l l' : List (Fin num)}

/-- The descriptors of `l` have been freed, and nothing else has happened. -/
structure Freed (d d' : Driver) (l : List (Fin num)) : Prop where
  same : d' = { d with desc := d'.desc, free := d'.free }
  freed : ∀ x ∈ l, d'.free x = true
  kept : ∀ x, x ∉ l → d'.free x = d.free x ∧ d'.desc x = d.desc x

theorem Freed.trans (h : Freed d d' l) (h' : Freed d' d'' l') : Freed d d'' (l ++ l') := by
  refine ⟨by rw [h'.same, h.same], fun x hx => ?_, fun x hx => ?_⟩
  · grind [h.freed x, h'.freed x, h'.kept x]
  · grind [h.kept x, h'.kept x]

theorem freeDesc_freed (h : d.free i = false) :
    ∃ d', d.freeDesc i.val = .ok d' ∧ Freed d d' [i] := by
  unfold freeDesc
  rw [dif_pos i.isLt, if_neg (by rw [h]; exact Bool.false_ne_true)]
  refine ⟨_, rfl, rfl, fun x hx => ?_, fun x hx => ?_⟩
  · obtain rfl := List.mem_singleton.mp hx
    exact Function.update_self ..
  · have hx : x ≠ i := fun he => hx (List.mem_singleton.mpr he)
    exact ⟨Function.update_of_ne hx .., Function.update_of_ne hx ..⟩

theorem freeDescs_freed (h : ∀ x ∈ l, d.free x = false) (hnodup : l.Nodup) :
    ∃ d', l.foldlM (fun d j => freeDesc d j.val) d = .ok d' ∧ Freed d d' l := by
  induction l generalizing d with
  | nil => exact ⟨d, rfl, rfl, fun _ hx => (nomatch hx), fun _ _ => ⟨rfl, rfl⟩⟩
  | cons i l ih =>
    obtain ⟨hi, hnodup⟩ := List.nodup_cons.mp hnodup
    obtain ⟨d₁, hfree, hfreed⟩ := freeDesc_freed (h i List.mem_cons_self)
    have hbusy : ∀ x ∈ l, d₁.free x = false := fun x hx =>
      (hfreed.kept x (by grind)).1.trans (h x (List.mem_cons_of_mem _ hx))
    obtain ⟨d', hall, hfreed'⟩ := ih hbusy hnodup
    refine ⟨d', ?_, hfreed.trans hfreed'⟩
    rw [List.foldlM_cons, hfree]
    exact hall

/-- The descriptors of `l` have been allocated, and nothing else has happened. -/
structure Taken (d d' : Driver) (l : List (Fin num)) : Prop where
  same : d' = { d with free := d'.free }
  nodup : l.Nodup
  taken : ∀ x ∈ l, d.free x = true ∧ d'.free x = false
  kept : ∀ x, x ∉ l → d'.free x = d.free x

theorem Taken.push (h : Taken d d' l) (hi : d'.free i = true) :
    Taken d { d' with free := Function.update d'.free i false } (l ++ [i]) := by
  have hnew : i ∉ l := fun hm => Bool.false_ne_true ((h.taken i hm).2.symm.trans hi)
  refine ⟨by rw [h.same], by grind [h.nodup], fun x hx => ?_, fun x hx => ?_⟩
  · grind [Function.update_apply, h.taken x, h.kept x]
  · grind [Function.update_apply, h.kept x]

/-- They are freed again. -/
theorem Taken.undo (h : Taken d d' l) (hf : Freed d' d'' l) :
    d'' = { d with desc := d''.desc } ∧ ∀ x, d.free x = false → d''.desc x = d.desc x := by
  have hfree : d''.free = d.free := by
    funext x
    by_cases hx : x ∈ l <;> grind [hf.freed x, hf.kept x, h.taken x, h.kept x]
  refine ⟨?_, fun x hx => (hf.kept x fun hm => ?_).2.trans (by rw [h.same])⟩
  · rw [hf.same, hfree, h.same]
  · exact Bool.false_ne_true (hx.symm.trans (h.taken x hm).1)

/-- What `alloc3_desc` does: all the descriptors are taken, or none and those in use are as
before. -/
theorem allocDescs_cases (n : Nat) (h : Taken d d' l) :
    (∃ d'', d'.allocDescs n l = .ok (none, d'') ∧ d'' = { d with desc := d''.desc } ∧
      ∀ x, d.free x = false → d''.desc x = d.desc x) ∨
    ∃ l' d'', d'.allocDescs n l = .ok (some l', d'') ∧ l'.length = l.length + n ∧
      Taken d d'' l' := by
  induction n generalizing d' l with
  | zero => exact .inr ⟨l, d', rfl, rfl, h⟩
  | succ n ih =>
    unfold allocDescs allocDesc
    cases hfind : (List.finRange num).find? d'.free with
    | none =>
      -- what it has got goes back
      obtain ⟨d'', hall, hfreed⟩ := freeDescs_freed (fun x hx => (h.taken x hx).2) h.nodup
      dsimp only [Option.map]
      rw [hall]
      exact .inl ⟨d'', rfl, h.undo hfreed⟩
    | some i =>
      refine (ih (h.push (List.find?_some hfind))).imp_right fun ⟨l', d'', hl, hlen, htaken⟩ =>
        ⟨l', d'', hl, ?_, htaken⟩
      rw [hlen, List.length_append, List.length_singleton, Nat.add_assoc, Nat.add_comm 1]

/-- The three descriptors of a request, as `virtio_disk_rw` fills them in. -/
structure Placed (d : Driver) (c : Call) : Prop where
  nodup : c.descs.Nodup
  busy : ∀ x ∈ c.descs, d.free x = false
  op : d.desc c.i = ⟨.op c.i, 16, 1, c.j.val⟩
  data : d.desc c.j = ⟨.data c.b, 1024, (if c.write then 0 else 2) + 1, c.k.val⟩
  status : d.desc c.k = ⟨.status c.i, 1, 2, 0⟩
  req : d.ops c.i = ⟨c.write, c.b * 2 % 2 ^ 32⟩
  info : (d.info c.i).b = some c.b

theorem Placed.congr (h : d.Placed c)
    (hdesc : ∀ x ∈ c.descs, d'.free x = d.free x ∧ d'.desc x = d.desc x)
    (hops : d'.ops c.i = d.ops c.i) (hinfo : (d'.info c.i).b = (d.info c.i).b) : d'.Placed c := by
  refine ⟨h.nodup, fun x hx => (hdesc x hx).1.trans (h.busy x hx), (hdesc c.i ?_).2.trans h.op,
    (hdesc c.j ?_).2.trans h.data, (hdesc c.k ?_).2.trans h.status, hops.trans h.req,
    hinfo.trans h.info⟩ <;> simp

theorem submit_placed (h : c.descs.Nodup) (hbusy : ∀ x ∈ c.descs, d.free x = false) :
    (d.submit c).Placed c := by
  obtain ⟨⟨hij, hik⟩, hjk⟩ : (c.i ≠ c.j ∧ c.i ≠ c.k) ∧ c.j ≠ c.k := by simpa using h
  refine ⟨h, hbusy, ?_, ?_, Function.update_self .., Function.update_self .., ?_⟩ <;>
    simp [submit, Function.update_of_ne, hij, hik, hjk]

theorem submit_desc {x : Fin num} (h : x ∉ c.descs) : (d.submit c).desc x = d.desc x := by
  obtain ⟨hi, hj, hk⟩ : x ≠ c.i ∧ x ≠ c.j ∧ x ≠ c.k := by simpa using h
  simp [submit, Function.update_of_ne, hi, hj, hk]

theorem Placed.chain (h : d.Placed c) : d.chain c.i.val = some c.request := by
  unfold Driver.chain Call.request
  rw [dif_pos c.i.isLt]
  simp only [Fin.eta, h.op, h.data, h.status, h.req, c.j.isLt, c.k.isLt, ↓reduceDIte]
  cases c.write <;> rfl

theorem freeChain_succ (fuel : Nat) (hi : d.free i = false) : ∃ d', Freed d d' [i] ∧
    d.freeChain (fuel + 1) i.val =
      if (d.desc i).flags % 2 = 1 then Driver.freeChain fuel d' (d.desc i).next else .ok d' := by
  obtain ⟨d', hfree, hfreed⟩ := freeDesc_freed hi
  refine ⟨d', hfreed, ?_⟩
  rw [Driver.freeChain, dif_pos i.isLt, hfree]
  rfl

/-- `free_chain` frees the three of them. -/
theorem Placed.freeChain (h : d.Placed c) (info : Fin num → Info) :
    ∃ d', Driver.freeChain (num + 1) { d with info := info } c.i.val = .ok d' ∧
      Freed { d with info := info } d' c.descs := by
  obtain ⟨⟨hij, hik⟩, hjk⟩ : (c.i ≠ c.j ∧ c.i ≠ c.k) ∧ c.j ≠ c.k := by simpa using h.nodup
  obtain ⟨d₁, h₁, hfirst⟩ :=
    freeChain_succ (d := { d with info := info }) num (h.busy c.i (by simp))
  obtain ⟨hjfree, hjdesc⟩ := h₁.kept c.j (by simpa using hij.symm)
  obtain ⟨hkfree, hkdesc⟩ := h₁.kept c.k (by simpa using hik.symm)
  obtain ⟨d₂, h₂, hsecond⟩ := freeChain_succ 7 (hjfree.trans (h.busy c.j (by simp)))
  obtain ⟨hkfree', hkdesc'⟩ := h₂.kept c.k (by simpa using hjk.symm)
  obtain ⟨d₃, h₃, hthird⟩ := freeChain_succ 6 ((hkfree'.trans hkfree).trans (h.busy c.k (by simp)))
  refine ⟨d₃, ?_, (h₁.trans h₂).trans h₃⟩
  have hflag : ((if c.write then 0 else 2) + 1) % 2 = 1 := by cases c.write <;> simp
  rw [hfirst]
  simp only [h.op, Nat.reduceMod, ↓reduceIte]
  rw [hsecond, hjdesc]
  simp only [h.data, hflag, ↓reduceIte]
  rw [hthird, hkdesc', hkdesc]
  simp only [h.status]
  exact if_neg (show ¬ 2 % 2 = 1 by decide)

end Driver

/-! ## Whose descriptors they are -/

theorem Pc.descs_nil {pc : Pc} (h : ∀ c, pc ≠ .waits c) : pc.descs = [] := by
  unfold Pc.descs
  split
  · exact absurd rfl (h _)
  · rfl

/-- The descriptors that are not free belong to a process each, and so do the buffers that are in
use. -/
structure Owned (free : Fin num → Bool) (pc : P → Pc) : Prop where
  busy : ∀ x, free x = false → ∃ p, x ∈ (pc p).descs
  apart : ∀ p q x, x ∈ (pc p).descs → x ∈ (pc q).descs → p = q
  alone : ∀ p q b, (pc p).on b → (pc q).on b → p = q
  small : ∀ p b, (pc p).on b → b < 2 ^ 31

namespace Owned

variable {free free' : Fin num → Bool} {pc : P → Pc} {p q : P} {c e : Call}

/-- A process changes over to what nobody has. -/
theorem update [DecidableEq P] (h : Owned free pc) {v : Pc} (hsmall : ∀ b, v.on b → b < 2 ^ 31)
    (hon : ∀ b, v.on b → ∀ q, q ≠ p → ¬ (pc q).on b)
    (hdescs : ∀ x, x ∈ v.descs → ∀ q, q ≠ p → x ∉ (pc q).descs)
    (hbusy : ∀ x, free' x = false → x ∈ v.descs ∨ free x = false ∧ x ∉ (pc p).descs) :
    Owned free' (Function.update pc p v) := by
  have hpc : ∀ q, Function.update pc p v q = if q = p then v else pc q :=
    fun q => Function.update_apply ..
  refine ⟨fun x hx => ?_, fun q r x hq hr => ?_, fun q r b hq hr => ?_, fun q b hq => ?_⟩
  · rcases hbusy x hx with hx | ⟨hx, hp⟩
    · exact ⟨p, by rwa [Function.update_self]⟩
    · obtain ⟨q, hq⟩ := h.busy x hx
      exact ⟨q, by grind⟩
  · grind [h.apart q r x]
  · grind [h.alone q r b]
  · grind [h.small q b]

/-- Two requests have nothing in common. -/
theorem disjoint (h : Owned free pc) (hp : pc p = .waits c) (hq : pc q = .waits e) (hne : q ≠ p) :
    (∀ x ∈ e.descs, x ∉ c.descs) ∧ e.i ≠ c.i ∧ e.b ≠ c.b := by
  have hdescs : ∀ x ∈ e.descs, x ∉ c.descs := fun x hx hx' =>
    hne (h.apart q p x (by rw [hq]; exact hx) (by rw [hp]; exact hx'))
  refine ⟨hdescs, fun he => hdescs e.i List.mem_cons_self (he ▸ List.mem_cons_self), fun he => ?_⟩
  exact hne (h.alone q p e.b (by rw [hq]; exact rfl) (by rw [hp]; exact he.symm))

end Owned

/-! ## Where a request is -/

namespace Sys

variable {s t : Sys P} {p q : P} {b : Nat} {w : Bool} {c : Call}

/-- On the ring of the driver. -/
def offered (s : Sys P) : List Nat :=
  ringQueue (2 ^ 16) s.driver.availRing s.lastAvail s.driver.availIdx

/-- On the ring of the device. -/
def reported (s : Sys P) : List Nat :=
  ringQueue (2 ^ 16) s.driver.usedRing s.driver.usedIdx s.driver.deviceIdx

/-- The requests that are not known to be done, by the heads of their chains. -/
def flying (s : Sys P) : List Nat := s.offered ++ s.taken.map Request.id ++ s.reported

/-- The request of a process that waits for the device. -/
structure Pending (s : Sys P) (c : Call) : Prop where
  placed : s.driver.Placed c
  flag : (s.buf c.b).disk = true ↔ c.i.val ∈ s.flying
  held : ∀ r ∈ s.taken, r.id = c.i.val → r = c.request
  status : c.i.val ∈ s.reported → (s.driver.info c.i).status = 0
  done : c.i.val ∈ s.reported ∨ (s.buf c.b).disk = false → (s.buf c.b).data = s.medium c.b

/-- It is as before when what it is about is as before. -/
theorem Pending.frame (h : s.Pending c) (hplaced : t.driver.Placed c) (hbuf : t.buf c.b = s.buf c.b)
    (hmedium : t.medium c.b = s.medium c.b)
    (hstatus : (t.driver.info c.i).status = (s.driver.info c.i).status)
    (hflying : c.i.val ∈ t.flying ↔ c.i.val ∈ s.flying) (hreported : c.i.val ∈ t.reported ↔
      c.i.val ∈ s.reported) (htaken : ∀ r ∈ t.taken, r ∈ s.taken) : t.Pending c := by
  refine ⟨hplaced, ?_, fun r hr => h.held r (htaken r hr), ?_, ?_⟩
  · rw [hbuf, hflying]
    exact h.flag
  · rw [hreported, hstatus]
    exact h.status
  · rw [hreported, hbuf, hmedium]
    exact h.done

/-- What holds between the steps. -/
structure Inv (s : Sys P) : Prop where
  calm : s.panicked = none
  owned : Owned s.driver.free s.pc
  pending : ∀ p c, s.pc p = .waits c → s.Pending c
  nodup : s.flying.Nodup
  heads : ∀ x ∈ s.flying, ∃ p c, s.pc p = .waits c ∧ x = c.i.val
  counters : s.lastAvail < 2 ^ 16 ∧ s.driver.availIdx < 2 ^ 16 ∧ s.driver.usedIdx < 2 ^ 16 ∧
    s.driver.deviceIdx < 2 ^ 16

namespace Inv

theorem start (h : s.Start) : s.Inv := by
  obtain ⟨hd, hlast, htaken, hpc, hcalm⟩ := h
  have hflying : s.flying = [] := by
    unfold flying offered reported
    rw [hd, hlast, htaken]
    simp only [Driver.init, ringQueue_self (Nat.two_pow_pos 16), List.map_nil, List.append_nil]
  refine ⟨hcalm, ⟨?_, ?_, ?_, ?_⟩, ?_, ?_, ?_, ?_⟩ <;> simp [hd, hlast, hpc, hflying, Driver.init,
    Pc.on, Pc.descs]

theorem busy (h : s.Inv) {x : Fin num} (hx : x ∈ (s.pc p).descs) : s.driver.free x = false := by
  unfold Pc.descs at hx
  split at hx
  · exact (h.pending _ _ ‹_›).placed.busy x hx
  · nomatch hx

/-- There are not more than there are descriptors. -/
theorem length_le (h : s.Inv) {l : List Nat} (hnodup : l.Nodup)
    (hl : ∀ x ∈ l, x ∈ s.flying ∨ x < num) : l.length ≤ num := by
  have hsub : l ⊆ List.range num := by
    intro x hx
    rcases hl x hx with hx | hx
    · obtain ⟨p, c, -, rfl⟩ := h.heads x hx
      exact List.mem_range.mpr c.i.isLt
    · exact List.mem_range.mpr hx
  exact (List.subperm_of_subset hnodup hsub).length_le.trans (by rw [List.length_range])

/-- The bytes of a block change, and alike in both places if there is a request for them. -/
theorem rebuf (h : s.Inv) (b : Nat) {x y : Block} (hxy : x = y ∨ ∀ q, ¬ (s.pc q).on b) :
    Inv { s with
    buf := Function.update s.buf b { s.buf b with data := x }, medium :=
      Function.update s.medium b y } := by
  refine ⟨h.calm, h.owned, fun p c hp => ?_, h.nodup, h.heads, h.counters⟩
  have hpending := h.pending p c hp
  rcases eq_or_ne c.b b with rfl | hb
  · obtain rfl := hxy.resolve_right fun hfree => hfree p (by rw [hp]; exact rfl)
    refine ⟨hpending.placed, ?_, hpending.held, hpending.status, fun _ => ?_⟩ <;>
      simp only [Function.update_self]
    exact hpending.flag
  · exact hpending.frame hpending.placed (Function.update_of_ne hb ..) (Function.update_of_ne hb ..)
      rfl .rfl .rfl fun _ hr => hr

theorem store (h : s.Inv) (data : Block) (hfree : ∀ q, ¬ (s.pc q).on b) :
    Inv { s with buf := Function.update s.buf b { s.buf b with data := data } } := by
  have hinv := h.rebuf b (x := data) (y := s.medium b) (.inr hfree)
  rwa [Function.update_eq_self] at hinv

/-- The device takes a request. -/
theorem fetch (h : s.Inv) (hne : s.lastAvail ≠ s.driver.availIdx) : ∃ r,
    s.driver.chain (s.driver.availRing (Fin.ofNat num s.lastAvail)) = some r ∧ Inv (s.take r) := by
  obtain ⟨hlast, havail, hused⟩ := h.counters
  have hpop : s.offered = s.driver.availRing (Fin.ofNat num s.lastAvail) ::
      ringQueue (2 ^ 16) s.driver.availRing ((s.lastAvail + 1) % 2 ^ 16) s.driver.availIdx :=
    ringQueue_pop (by decide) hlast havail hne
  obtain ⟨p, c, hp, hid⟩ := h.heads (s.driver.availRing (Fin.ofNat num s.lastAvail)) (by
    unfold flying
    rw [hpop]
    exact List.mem_append_left _ (List.mem_append_left _ List.mem_cons_self))
  refine ⟨c.request, by rw [hid]; exact (h.pending p c hp).placed.chain, ?_⟩
  -- it moves from one place to the next
  have hperm : (s.take c.request).flying.Perm s.flying := by
    unfold flying
    rw [hpop, hid]
    refine List.Perm.append_right _ ?_
    show List.Perm (_ ++ List.map Request.id (s.taken ++ [_])) _
    rw [List.map_append, ← List.append_assoc]
    exact List.perm_append_singleton ..
  refine ⟨h.calm, h.owned, fun q e hq => ?_, hperm.nodup_iff.mpr h.nodup,
    fun x hx => h.heads x (hperm.mem_iff.mp hx), Nat.mod_lt _ (Nat.two_pow_pos 16), havail, hused⟩
  obtain ⟨hplaced, hflag, hheld, hstatus, hdone⟩ := h.pending q e hq
  refine ⟨hplaced, hflag.trans hperm.mem_iff.symm, fun r hr hx => ?_, hstatus, hdone⟩
  rcases List.mem_append.mp hr with hr | hr
  · exact hheld r hr hx
  · obtain rfl := List.mem_singleton.mp hr
    obtain rfl : q = p := Classical.byContradiction fun hne =>
      (h.owned.disjoint hp hq hne).2.1 (Fin.ext hx).symm
    cases hq.symm.trans hp
    rfl

/-- What the device has taken. -/
theorem taken (h : s.Inv) {r : Request} (hr : r ∈ s.taken) :
    ∃ p c, s.pc p = .waits c ∧ r = c.request := by
  obtain ⟨p, c, hp, hi⟩ := h.heads r.id
    (List.mem_append_left _ (List.mem_append_right _ (List.mem_map_of_mem hr)))
  exact ⟨p, c, hp, (h.pending p c hp).held r hr hi⟩

/-- The device moves the bytes of a request. -/
theorem transfer (h : s.Inv) {n : Nat} {r : Request} (hr : s.taken[n]? = some r) :
    Inv (s.transfer r) ∧
    ((s.transfer r).buf r.b).data = (s.transfer r).medium r.b ∧ (s.transfer r).taken = s.taken := by
  obtain ⟨p, c, hp, rfl⟩ := h.taken (List.mem_of_getElem? hr)
  have hsector : c.b * 2 % 2 ^ 32 / 2 = c.b := by
    have := h.owned.small p c.b (by rw [hp]; exact rfl)
    omega
  unfold Sys.transfer Call.request
  dsimp only
  rw [hsector]
  split
  · have hinv := h.rebuf c.b (.inl (Eq.refl (s.buf c.b).data))
    rw [Function.update_eq_self] at hinv
    exact ⟨hinv, by simp only [Function.update_self], rfl⟩
  · have hinv := h.rebuf c.b (.inl (Eq.refl (s.medium c.b)))
    rw [Function.update_eq_self c.b s.medium] at hinv
    exact ⟨hinv, by simp only [Function.update_self], rfl⟩

/-- The device reports a request that it has carried out. -/
theorem report (h : s.Inv) {n : Nat} {r : Request} (hr : s.taken[n]? = some r)
    (hdata : (s.buf r.b).data = s.medium r.b) : Inv (s.report n r) := by
  obtain ⟨hlast, havail, hused, hdevice⟩ := h.counters
  obtain ⟨p, c, hp, rfl⟩ := h.taken (List.mem_of_getElem? hr)
  obtain ⟨hn, hrn⟩ := List.getElem?_eq_some_iff.mp hr
  have htaken : (c.i.val :: (s.taken.eraseIdx n).map Request.id).Perm (s.taken.map Request.id) := by
    have := (List.getElem_cons_eraseIdx_perm hn).map Request.id
    rwa [hrn] at this
  -- the ring has room: this request is not on it
  have hroom : s.reported.length < num := by
    have := h.length_le h.nodup fun x hx => .inl hx
    unfold flying at this
    rw [List.length_append, List.length_append, ← htaken.length_eq, List.length_cons] at this
    omega
  have hpush : (s.report n c.request).reported = s.reported ++ [c.i.val] :=
    ringQueue_push (by decide) (by decide) hused hdevice c.i.val hroom
  have hperm : (s.report n c.request).flying.Perm s.flying := by
    unfold flying
    rw [hpush, List.append_assoc, List.append_assoc]
    refine List.Perm.append_left _ ?_
    rw [← List.append_assoc]
    exact (List.perm_append_singleton ..).trans (htaken.append_right _)
  refine ⟨h.calm, h.owned, fun q e hq => ?_, hperm.nodup_iff.mpr h.nodup,
    fun x hx => h.heads x (hperm.mem_iff.mp hx), hlast, havail, hused,
    Nat.mod_lt _ (Nat.two_pow_pos 16)⟩
  have hq' := h.pending q e hq
  rcases eq_or_ne q p with rfl | hne
  · cases hq.symm.trans hp
    have hinfo : (s.report n c.request).driver.info c.i = { s.driver.info c.i with status := 0 } :=
      Function.update_self ..
    exact ⟨hq'.placed.congr (fun _ _ => ⟨rfl, rfl⟩) rfl (by rw [hinfo]),
      hq'.flag.trans hperm.mem_iff.symm, fun r hr => hq'.held r (List.mem_of_mem_eraseIdx hr),
      fun _ => by rw [hinfo], fun _ => hdata⟩
  · obtain ⟨-, hi, -⟩ := h.owned.disjoint hp hq hne
    have hinfo : (s.report n c.request).driver.info e.i = s.driver.info e.i :=
      Function.update_of_ne hi ..
    refine hq'.frame (hq'.placed.congr (fun _ _ => ⟨rfl, rfl⟩) rfl (by rw [hinfo])) rfl rfl
      (by rw [hinfo]) hperm.mem_iff ?_ fun r hr => List.mem_of_mem_eraseIdx hr
    rw [hpush, List.mem_append, List.mem_singleton]
    exact or_iff_left fun he => hi (Fin.ext he)

/-- The interrupt handler sees that a request is done. -/
theorem intr (h : s.Inv) (hne : s.driver.usedIdx ≠ s.driver.deviceIdx) : Inv s.intr := by
  obtain ⟨hlast, havail, hused, hdevice⟩ := h.counters
  have hpop : s.reported = s.driver.usedRing (Fin.ofNat num s.driver.usedIdx) ::
      ringQueue (2 ^ 16) s.driver.usedRing ((s.driver.usedIdx + 1) % 2 ^ 16) s.driver.deviceIdx :=
    ringQueue_pop (by decide) hused hdevice hne
  obtain ⟨p, c, hp, hid⟩ := h.heads (s.driver.usedRing (Fin.ofNat num s.driver.usedIdx)) (by
    refine List.mem_append_right _ ?_
    rw [hpop]
    exact List.mem_cons_self)
  have hpending := h.pending p c hp
  have hreported : s.reported = c.i.val :: (s.seen c.b).reported := by
    rw [← hid]
    exact hpop
  have hmem : c.i.val ∈ s.reported := by
    rw [hreported]
    exact List.mem_cons_self
  have hintr : s.intr = s.seen c.b := by
    unfold Sys.intr
    simp only [hid, c.i.isLt, ↓reduceDIte, Fin.eta, hpending.status hmem, ne_eq, not_true_eq_false,
      ↓reduceIte, hpending.placed.info]
  have hperm : s.flying.Perm (c.i.val :: (s.seen c.b).flying) := by
    unfold flying
    rw [hreported]
    exact List.perm_middle
  -- it was in one place, and now it is in none
  obtain ⟨hgone, hnodup⟩ := List.nodup_cons.mp (hperm.nodup_iff.mp h.nodup)
  rw [hintr]
  refine ⟨h.calm, h.owned, fun q e hq => ?_, hnodup,
    fun x hx => h.heads x (hperm.mem_iff.mpr (List.mem_cons_of_mem _ hx)), hlast, havail,
    Nat.mod_lt _ (Nat.two_pow_pos 16), hdevice⟩
  rcases eq_or_ne q p with rfl | hne
  · cases hq.symm.trans hp
    have hbuf : (s.seen c.b).buf c.b = { s.buf c.b with disk := false } := Function.update_self ..
    refine ⟨hpending.placed.congr (fun _ _ => ⟨rfl, rfl⟩) rfl rfl, ?_, hpending.held,
      fun _ => hpending.status hmem, fun _ => ?_⟩
    · rw [hbuf]
      exact iff_of_false Bool.false_ne_true hgone
    · rw [hbuf]
      exact hpending.done (.inl hmem)
  · obtain ⟨-, hi, hb⟩ := h.owned.disjoint hp hq hne
    have hi : e.i.val ≠ c.i.val := fun he => hi (Fin.ext he)
    have hq' := h.pending q e hq
    refine hq'.frame (hq'.placed.congr (fun _ _ => ⟨rfl, rfl⟩) rfl rfl)
      (Function.update_of_ne hb ..) rfl rfl ?_ ?_ fun _ hr => hr
    · rw [hperm.mem_iff, List.mem_cons, or_iff_right hi]
    · rw [hreported, List.mem_cons, or_iff_right hi]

section

variable [DecidableEq P]

/-- The process sleeps for descriptors. -/
theorem want (h : s.Inv) (hp : ∀ c, s.pc p ≠ .waits c) (hsmall : b < 2 ^ 31)
    (halone : ∀ q, q ≠ p → ¬ (s.pc q).on b) {d : Driver} (hd : d = { s.driver with desc := d.desc })
    (hdesc : ∀ x, s.driver.free x = false → d.desc x = s.driver.desc x) :
    Inv { s with driver := d, pc := Function.update s.pc p (.wants b w) } := by
  rw [hd]
  have hpc : ∀ q c, Function.update s.pc p (.wants b w) q = .waits c ↔ s.pc q = .waits c := by
    intro q c
    rw [Function.update_apply]
    split
    · exact iff_of_false (fun he => nomatch he) (by grind)
    · rfl
  refine ⟨h.calm, h.owned.update (fun _ hc => ?_) (fun _ hc => ?_) (fun _ hx => nomatch hx)
    fun _ hx => .inr ⟨hx, ?_⟩, fun q c hq => ?_, h.nodup, fun x hx => ?_, h.counters⟩
  · cases hc
    exact hsmall
  · cases hc
    exact halone
  · rw [Pc.descs_nil hp]
    exact List.not_mem_nil
  · have hq' := h.pending q c ((hpc q c).mp hq)
    exact hq'.frame (hq'.placed.congr (fun x hx => ⟨rfl, hdesc x (hq'.placed.busy x hx)⟩) rfl rfl)
      rfl rfl rfl .rfl .rfl fun _ hr => hr
  · simp only [hpc]
    exact h.heads x hx

/-- The request is handed to the device. -/
theorem offer (h : s.Inv) (hp : ∀ c, s.pc p ≠ .waits c) (hsmall : c.b < 2 ^ 31)
    (halone : ∀ q, q ≠ p → ¬ (s.pc q).on c.b) {d : Driver} (hd : Driver.Taken s.driver d c.descs) :
    Inv (s.offer d p c) := by
  obtain ⟨hsame, hnodup, hmine, hothers⟩ := hd
  generalize d.free = free at hsame hmine hothers
  rw [hsame]
  obtain ⟨hlast, havail, hused⟩ := h.counters
  -- the three were free, so no request has them
  have hfresh : ∀ q x, x ∈ (s.pc q).descs → x ∉ c.descs := fun q x hx hm =>
    Bool.false_ne_true ((h.busy hx).symm.trans (hmine x hm).1)
  have hnew : c.i.val ∉ s.flying := fun hm => by
    obtain ⟨q, e, hq, hi⟩ := h.heads _ hm
    refine hfresh q e.i (by rw [hq]; exact List.mem_cons_self) ?_
    rw [← Fin.ext hi]
    exact List.mem_cons_self
  have hroom : s.offered.length < num := by
    have := h.length_le (l := c.i.val :: s.flying) (List.nodup_cons.mpr ⟨hnew, h.nodup⟩)
        fun x hx => by
      rcases List.mem_cons.mp hx with rfl | hx
      · exact .inr c.i.isLt
      · exact .inl hx
    unfold flying at this
    rw [List.length_cons, List.length_append, List.length_append] at this
    omega
  have hpush : (s.offer { s.driver with free := free } p c).offered = s.offered ++ [c.i.val] :=
    ringQueue_push (by decide) (by decide) hlast havail c.i.val hroom
  have hperm : (s.offer { s.driver with free := free } p c).flying.Perm (c.i.val :: s.flying) := by
    unfold flying
    rw [hpush, List.append_assoc, List.append_assoc, List.append_assoc]
    exact List.perm_middle
  refine ⟨h.calm, h.owned.update (fun _ hc => ?_) (fun _ hc => ?_)
    (fun x hx q _ hq => hfresh q x hq hx) fun x hx => ?_, fun q e hq => ?_,
    hperm.nodup_iff.mpr (List.nodup_cons.mpr ⟨hnew, h.nodup⟩), fun x hx => ?_, hlast,
    Nat.mod_lt _ (Nat.two_pow_pos 16), hused⟩
  · cases hc
    exact hsmall
  · cases hc
    exact halone
  · by_cases hm : x ∈ c.descs
    · exact .inl hm
    · exact .inr ⟨(hothers x hm).symm.trans hx, by rw [Pc.descs_nil hp]; exact List.not_mem_nil⟩
  · have hpc : Function.update s.pc p (.waits c) q = .waits e := hq
    rcases eq_or_ne q p with rfl | hne
    · rw [Function.update_self] at hpc
      cases hpc
      have hdisk : ((s.offer { s.driver with free := free } q c).buf c.b).disk = true := by
        show (Function.update s.buf c.b _ c.b).disk = true
        rw [Function.update_self]
      have hrep : c.i.val ∉ s.reported := fun hm => hnew (List.mem_append_right _ hm)
      refine ⟨Driver.submit_placed hnodup fun x hx => (hmine x hx).2,
        iff_of_true hdisk (hperm.mem_iff.mpr List.mem_cons_self), fun r hr hid => ?_,
        fun hm => absurd hm hrep, fun hm => hm.elim (absurd · hrep)
        fun hd => absurd (hdisk.symm.trans hd) Bool.noConfusion⟩
      exact absurd (List.mem_append_left _ (List.mem_append_right _ (hid ▸ List.mem_map_of_mem hr)))
        hnew
    · rw [Function.update_of_ne hne] at hpc
      have hq' := h.pending q e hpc
      have hdescs : ∀ x ∈ e.descs, x ∉ c.descs := fun x hx => hfresh q x (by rw [hpc]; exact hx)
      have hi : e.i ≠ c.i := fun he => hdescs e.i List.mem_cons_self (he ▸ List.mem_cons_self)
      have hb : e.b ≠ c.b := fun he => halone q hne (by rw [hpc]; exact he)
      have hinfo : (s.offer { s.driver with free := free } p c).driver.info e.i =
          s.driver.info e.i :=
        Function.update_of_ne hi ..
      refine hq'.frame (hq'.placed.congr (fun x hx => ⟨hothers x (hdescs x hx),
        Driver.submit_desc (hdescs x hx)⟩) (Function.update_of_ne hi ..) (by rw [hinfo]))
        (Function.update_of_ne hb ..) rfl (by rw [hinfo]) ?_ .rfl
        fun _ hr => hr
      rw [hperm.mem_iff, List.mem_cons, or_iff_right fun he => hi (Fin.ext he)]
  · rcases List.mem_cons.mp (hperm.mem_iff.mp hx) with rfl | hx
    · exact ⟨p, c, Function.update_self .., rfl⟩
    · obtain ⟨q, e, hq, hi⟩ := h.heads x hx
      have hne : q ≠ p := fun he => hp _ (he ▸ hq)
      exact ⟨q, e, (Function.update_of_ne hne ..).trans hq, hi⟩

theorem tryRw (h : s.Inv) (hp : ∀ c, s.pc p ≠ .waits c) (hsmall : b < 2 ^ 31)
    (halone : ∀ q, q ≠ p → ¬ (s.pc q).on b) : Inv (s.tryRw p b w) := by
  unfold Sys.tryRw
  have hnone : Driver.Taken s.driver s.driver [] :=
    ⟨rfl, List.nodup_nil, fun _ hx => (nomatch hx), fun _ _ => rfl⟩
  rcases Driver.allocDescs_cases 3 hnone with ⟨d, halloc, hd, hdesc⟩ | ⟨l, d, halloc, hlen, htaken⟩
  · rw [halloc]
    exact h.want hp hsmall halone hd hdesc
  · obtain ⟨i, j, k, rfl⟩ := List.length_eq_three.mp hlen
    rw [halloc]
    exact h.offer (c := ⟨b, w, i, j, k⟩) hp hsmall halone htaken

/-- `virtio_disk_rw` returns. -/
theorem finish (h : s.Inv) (hp : s.pc p = .waits c) (hdisk : (s.buf c.b).disk = false) :
    Inv (s.finish p c.i) := by
  have hpending := h.pending p c hp
  obtain ⟨d, hfree, hfreed⟩ := hpending.placed.freeChain
    (Function.update s.driver.info c.i { s.driver.info c.i with b := none })
  unfold Sys.finish
  dsimp only
  rw [hfree]
  dsimp only
  rw [hfreed.same]
  refine ⟨h.calm, h.owned.update (fun _ hc => hc.elim) (fun _ hc => hc.elim)
    (fun _ hx => nomatch hx) fun x hx => .inr ?_, fun q e hq => ?_, h.nodup, fun x hx => ?_,
    h.counters⟩
  · have hm : x ∉ c.descs := fun hm => Bool.false_ne_true (hx.symm.trans (hfreed.freed x hm))
    exact ⟨(hfreed.kept x hm).1.symm.trans hx, by rw [hp]; exact hm⟩
  · have hpc : Function.update s.pc p .idle q = .waits e := hq
    rcases eq_or_ne q p with rfl | hne
    · rw [Function.update_self] at hpc
      nomatch hpc
    · rw [Function.update_of_ne hne] at hpc
      obtain ⟨hdescs, hi, -⟩ := h.owned.disjoint hp hpc hne
      have hq' := h.pending q e hpc
      have hinfo : Function.update s.driver.info c.i { s.driver.info c.i with b := none } e.i =
          s.driver.info e.i :=
        Function.update_of_ne hi ..
      exact hq'.frame (hq'.placed.congr (fun x hx => hfreed.kept x (hdescs x hx)) rfl
        (congrArg Info.b hinfo)) rfl rfl (congrArg Info.status hinfo) .rfl .rfl fun _ hr => hr
  · obtain ⟨q, e, hq, rfl⟩ := h.heads x hx
    -- the request of `p` itself is not flying any more
    have hne : q ≠ p := by
      rintro rfl
      cases hq.symm.trans hp
      exact absurd (hpending.flag.mpr hx) (by rw [hdisk]; exact Bool.false_ne_true)
    exact ⟨q, e, (Function.update_of_ne hne ..).trans hq, rfl⟩

/-- Each step keeps it. -/
theorem step {a : DiskAct P} (h : s.Inv) (hstep : s.step a = some t) (hallowed : s.Allowed a) :
    t.Inv := by
  unfold Sys.step at hstep
  cases a with
  | store b data =>
    cases hstep
    exact h.store data hallowed
  | rw p b w =>
    dsimp only at hstep
    split at hstep <;> cases hstep
    rename_i hidle
    exact h.tryRw (fun _ he => nomatch hidle.symm.trans he) hallowed.1 fun q _ => hallowed.2 q
  | retry p =>
    dsimp only at hstep
    split at hstep <;> cases hstep
    rename_i b w hwants
    have hon : (s.pc p).on b := by
      rw [hwants]
      exact rfl
    exact h.tryRw (fun _ he => nomatch hwants.symm.trans he) (h.owned.small p b hon)
      fun q hne hq => hne (h.owned.alone q p b hq hon)
  | fetch =>
    dsimp only at hstep
    split at hstep
    · nomatch hstep
    · obtain ⟨r, hr, hinv⟩ := h.fetch ‹_›
      rw [hr] at hstep
      cases hstep
      exact hinv
  | complete n =>
    dsimp only at hstep
    split at hstep <;> cases hstep
    rename_i r hr
    obtain ⟨hinv, hdata, htaken⟩ := h.transfer hr
    exact hinv.report (htaken ▸ hr) hdata
  | intr =>
    dsimp only at hstep
    split at hstep <;> cases hstep
    exact h.intr ‹_›
  | finish p =>
    dsimp only at hstep
    split at hstep
    · rename_i c hwaits
      split at hstep <;> cases hstep
      exact h.finish hwaits (Bool.eq_false_of_not_eq_true ‹_›)
    · nomatch hstep

end

end Inv

/-! ## What a process can rely on -/

/-- The driver serves the processes. -/
structure Served (s : Sys P) : Prop where
  calm : s.panicked = none
  /-- A descriptor that is not free is one of the three of a single process. -/
  owned : ∀ x, s.driver.free x = false ↔ ∃ p, x ∈ (s.pc p).descs
  apart : ∀ p q x, x ∈ (s.pc p).descs → x ∈ (s.pc q).descs → p = q
  /-- A request that the handler has not seen is in one of the three places, once. -/
  once : ∀ p c, s.pc p = .waits c → s.flying.count c.i.val = if (s.buf c.b).disk then 1 else 0
  /-- What the device has taken is what a process asked for. -/
  asked : ∀ r ∈ s.taken, ∃ p c, s.pc p = .waits c ∧ r = c.request
  /-- A request that the handler has seen was carried out. -/
  moved : ∀ p c, s.pc p = .waits c → (s.buf c.b).disk = false → (s.buf c.b).data = s.medium c.b

/-- **No request is lost, and none is carried out twice.** Whatever the processes, the device and
the handler do, and in whatever order, the driver does not panic, each descriptor in use belongs to
one request, a request that is not done is waiting in one place, and one that is done has its bytes
where they belong. -/
theorem requests_served [DecidableEq P] (h : Reach Sys.step Sys.Start Sys.Allowed s) :
    s.Served := by
  have hinv : s.Inv := h.keeps (fun _ hs => .start hs) fun _ _ _ hinv hallowed hstep =>
    hinv.step hstep hallowed
  refine ⟨hinv.calm, fun x => ⟨hinv.owned.busy x, fun ⟨_, hx⟩ => hinv.busy hx⟩, hinv.owned.apart,
    fun p c hp => ?_, fun r hr => hinv.taken hr, fun p c hp hd => (hinv.pending p c hp).done
    (.inr hd)⟩
  have hflag := (hinv.pending p c hp).flag
  split
  · exact List.count_eq_one_of_mem hinv.nodup (hflag.mp ‹_›)
  · exact List.count_eq_zero_of_not_mem fun hm => ‹¬ _› (hflag.mpr hm)

/-- Three processes, and descriptors for two of them; the device begins with the second request. -/
theorem requests_served_three : ∃ s : Sys (Fin 3), Reach Sys.step Sys.Start Sys.Allowed s ∧
    s.Served ∧
    (s.buf 0).disk = true ∧ (s.buf 1).disk = false ∧ (s.buf 1).data 0 = 7 ∧ (s.pc 2).on 2 := by
  have hrun : (replay Sys.step (fun s a => decide (s.Allowed a))
      (⟨.init, fun _ => ⟨fun _ => 0, false⟩, fun _ _ => 7, 0, [], fun _ => .idle,
      none⟩ : Sys (Fin 3)) [.store 0 fun _ => 5, .rw 0 0 true, .rw 1 1 false, .rw 2 2 false, .fetch,
      .fetch, .complete 1, .intr]).map
      (fun s => ((s.buf 0).disk, (s.buf 1).disk, (s.buf 1).data 0, decide ((s.pc 2).on 2))) =
        some (true, false, 7, true) := by
    decide +kernel
  obtain ⟨s, hs, hfacts⟩ := Option.map_eq_some_iff.mp hrun
  simp only [Prod.mk.injEq, decide_eq_true_eq] at hfacts
  have hreach : Reach Sys.step Sys.Start Sys.Allowed s :=
    replay_reach (fun _ _ h => of_decide_eq_true h) (.init ⟨rfl, rfl, rfl, fun _ => rfl, rfl⟩) hs
  exact ⟨s, hreach, requests_served hreach, hfacts⟩

end Sys

end Xv6Paging.Virtio
