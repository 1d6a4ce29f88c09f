import Xv6Paging.Lib.Latest
import Xv6Paging.Proof.Space
import Xv6Paging.Proof.SwapSteps

/-!
# Eviction is first in, first out

`next_fifo_seq` counts the calls of `memstat_mark_resident`, and an entry carries
the number of the last call for its page. The log below is proof-only: the page
addresses of those calls, in order. With it "the oldest page" has a meaning that
does not speak of sequence numbers, and the victim of `try_kalloc_or_replace` turns
out to be that page, in every state in which the kernel asks for a frame.
-/

namespace Xv6Paging.Proof

open Xv6Paging Lib

variable {k k' : Kernel} {log : List Nat} {va : Nat} {m m' : MemStat} {S U : Set Nat} {p : Proc}
  {r : Option Nat} {acc : Access} {src : Fill} {C : Prop} {record : Proc → Proc}

/-! ## The log -/

/-- The permissions `usertrap` maps a page with. -/
def fillPerm (va0 : Nat) (p : Proc) : Fill → Perm
  | .slice => if p.textRange va0 then permURX else permUR
  | .zero | .slot => permURW

/-- Whether `mappages` returned 0. -/
def mapsOk : Except Halt (Bool × Kernel) → Bool
  | .ok (ok, _) => ok
  | .error _ => false

/-- Whether an attempt to install page `va0` from `src` gets as far as mapping it. -/
def installsFrom (k : Kernel) (va0 : Nat) (src : Fill) : Bool :=
  match tryKallocOrReplace k with
  | (none, _) => false
  | (some f, k₁) =>
    match src.page k₁ va0 f with
    | (none, _) => false
    | (some pg, p) =>
      mapsOk (mapUser { k₁ with kmem := k₁.kmem.setRam f pg, p := p } va0 f (fillPerm va0 k₁.p src))

/-- Whether a fault ends in a call of `memstat_mark_resident`, which follows on `mappages`. -/
def marksResident (k : Kernel) (va : Nat) (acc : Access) : Bool :=
  (wants k va acc).any (installsFrom k (pgRoundDown va))

theorem marksResident_none (h : wants k va acc = none) :
    marksResident k va acc = false := by
  rw [marksResident, h, Option.any_none]

theorem marksResident_some (h : wants k va acc = some src) :
    marksResident k va acc = installsFrom k (pgRoundDown va) src := by
  rw [marksResident, h, Option.any_some]

/-- The calls of `memstat_mark_resident` after one more step; a child has made none. -/
def logAfter (log : List Nat) (k : Kernel) (o : Out) : Op → List Nat
  | .access acc va _ =>
    if o = .fault ∧ marksResident k.countFault va acc = true then log ++ [toUint (pgRoundDown va)]
    else log
  | .fork _ true => if o = .ret 0 then [] else log
  | _ => log

/-- A state some process can be in, with the calls made for it so far. -/
inductive Logged : Kernel → List Nat → Prop where
  | boot {k : Kernel} : Boot k → Logged k []
  | step {k k' : Kernel} {op : Op} {o : Out} {log : List Nat} :
      Logged k log → step k op = .ok (o, k') → Logged k' (logAfter log k o op)

theorem Logged.reachable (h : Logged k log) : Reachable k := by
  induction h with
  | boot hb => exact .boot hb
  | step _ hs ih => exact .step ih trivial hs

/-! ## Stamps -/

/-- Every entry in use carries the number of the last call for its page. -/
structure Stamped (log : List Nat) (m : MemStat) : Prop where
  count : m.nextFifoSeq = log.length
  last : ∀ i, Live m i → ∃ n : Nat, (m.pages i).seq = n ∧ LastAt log (m.pages i).va n

/-- The entries in use were so before, for the same page and with the same stamp. -/
structure Aged (m m' : MemStat) : Prop where
  next : m'.nextFifoSeq = m.nextFifoSeq
  entry : ∀ i, Live m' i → Live m i ∧ (m'.pages i).va = (m.pages i).va ∧
    (m'.pages i).seq = (m.pages i).seq

theorem Aged.refl (m : MemStat) : Aged m m := ⟨rfl, fun _ hi => ⟨hi, rfl, rfl⟩⟩

theorem Aged.trans {m₁ m₂ m₃ : MemStat} (h : Aged m₁ m₂) (h' : Aged m₂ m₃) : Aged m₁ m₃ := by
  refine ⟨h'.next.trans h.next, fun i hi => ?_⟩
  obtain ⟨hi₂, hva₂, hseq₂⟩ := h'.entry i hi
  obtain ⟨hi₁, hva₁, hseq₁⟩ := h.entry i hi₂
  exact ⟨hi₁, hva₂.trans hva₁, hseq₂.trans hseq₁⟩

theorem Stamped.aged (h : Stamped log m) (ha : Aged m m') :
    Stamped log m' := by
  refine ⟨ha.next.trans h.count, fun i hi => ?_⟩
  obtain ⟨hi', hva, hseq⟩ := ha.entry i hi
  rw [hva, hseq]
  exact h.last i hi'

/-- One entry is rewritten; if it is in use afterwards, it was, and kept page and stamp. -/
theorem aged_update {i : Fin maxPagesInfo} {e : PageStat} (hnext : m'.nextFifoSeq = m.nextFifoSeq)
    (hm : m'.pages = Function.update m.pages i e)
    (he : e.state ≠ .unmapped → Live m i ∧ e.va = (m.pages i).va ∧ e.seq = (m.pages i).seq) :
    Aged m m' := by
  refine ⟨hnext, fun j hj => ?_⟩
  rw [Live, hm] at hj
  rw [hm]
  by_cases hji : j = i
  · subst hji
    rw [Function.update_self] at hj ⊢
    exact he hj
  · rw [Function.update_of_ne hji] at hj ⊢
    exact ⟨hj, rfl, rfl⟩

theorem aged_markDirty (p : Proc) (o : Option (Fin maxPagesInfo)) :
    Aged p.memstat (p.markDirty o).memstat := by
  refine ⟨by cases o <;> rfl, fun i hi => ?_⟩
  obtain ⟨hva, hst, hseq, _⟩ := markDirty_keys p o i
  rw [Live, hst] at hi
  exact ⟨hi, hva, hseq⟩

/-! ## Eviction and swapping in -/

/-- At most one entry has changed: a resident one has been given up. -/
def GaveUp (m m' : MemStat) : Prop :=
  m'.nextFifoSeq = m.nextFifoSeq ∧ (m'.pages = m.pages ∨ ∃ i e, (m.pages i).state = .resident ∧
    m'.pages = Function.update m.pages i e ∧ e.va = (m.pages i).va ∧ e.seq = (m.pages i).seq)

theorem Evicts.gaveUp {i : Fin maxPagesInfo} {b : Bool} (he : Evicts k i b k')
    (hi : (k.p.memstat.pages i).state = .resident) : GaveUp k.p.memstat k'.p.memstat := by
  cases he with
  | stale _ _ hk' =>
    rw [hk']
    exact ⟨rfl, Or.inr ⟨i, _, hi, rfl, rfl, rfl⟩⟩
  | dropped _ _ _ hk' =>
    rw [hk']
    exact ⟨rfl, Or.inr ⟨i, _, hi, rfl, rfl, rfl⟩⟩
  | refused r d q _ _ _ _ hq _ hk' =>
    rw [hk', hq]
    exact ⟨rfl, Or.inl rfl⟩
  | sent s d q _ _ _ _ _ hk' =>
    rw [hk']
    exact ⟨rfl, Or.inr ⟨i, _, hi, rfl, rfl, rfl⟩⟩

theorem Room.gaveUp (hr : Room k r k') :
    GaveUp k.p.memstat k'.p.memstat := by
  cases hr with
  | had _ => exact ⟨rfl, Or.inl rfl⟩
  | nobody _ _ => exact ⟨rfl, Or.inl rfl⟩
  | @stuck km i k₁ _ hi he =>
    have h₁ : GaveUp k.p.memstat k₁.p.memstat := he.gaveUp (selectVictim_resident hi)
    exact h₁
  | @made km km' i k₁ r _ hi he _ => exact he.gaveUp (selectVictim_resident hi)

theorem GaveUp.aged (h : GaveUp m m') : Aged m m' := by
  obtain ⟨hnext, hp | ⟨i, e, hi, hp, hva, hseq⟩⟩ := h
  · refine ⟨hnext, fun i hi => ?_⟩
    rw [Live, hp] at hi
    rw [hp]
    exact ⟨hi, rfl, rfl⟩
  · exact aged_update hnext hp fun _ => ⟨resident_live hi, hva, hseq⟩

/-- The entry of a swapped-out page is not the one that is given up. -/
theorem GaveUp.swapped (h : GaveUp m m') {v : Nat} (hw : wasSwapped m v = true) :
    ∃ j, (m'.pages j).state = .swapped ∧ (m'.pages j).va = v := by
  obtain ⟨j, hj⟩ := Option.isSome_iff_exists.mp hw
  have hj' := (Fin.find?_eq_some_iff.mp hj).1
  simp only [Bool.and_eq_true, beq_iff_eq] at hj'
  refine ⟨j, ?_⟩
  obtain ⟨_, hp | ⟨i, e, hi, hp, _, _⟩⟩ := h
  · rw [hp]; exact hj'
  · have hne : j ≠ i := by
      rintro rfl
      rw [hi] at hj'
      simp at hj'
    rw [hp, Function.update_of_ne hne]
    exact hj'

/-- Swapping in makes an entry resident that was in use, and leaves its stamp. -/
theorem aged_swapin {p' : Proc} {dst pg : Page} {r : Int} (hm : MemOk p.memstat)
    (hva : va % 4096 = 0)
    (hw : ∃ j, (p.memstat.pages j).state = .swapped ∧ (p.memstat.pages j).va = toUint va)
    (h : swapinPage p va dst = (r, pg, p')) : Aged p.memstat p'.memstat := by
  rcases swapinPage_eq h with ⟨_, hp⟩ | ⟨s, _, _, hp⟩
  · rw [hp]; exact Aged.refl _
  · rw [pgRoundDown_eq_of_mod hva] at hp
    obtain ⟨q, hq⟩ : ∃ q, readSlot p s = q := ⟨_, rfl⟩
    have hmem : q.memstat = p.memstat := by rw [← hq]; rfl
    rw [hp, hq, ← hmem]
    unfold memstatSwap
    split
    · exact Aged.refl _
    · rename_i i hi
      -- the first entry at `va` is the one on record as swapped out
      obtain ⟨j, hj, hjva⟩ := hw
      have hiva := memstatVa_some hi
      rw [hmem] at hi hiva
      have hsmall : va < 2 ^ 32 := hiva ▸ hm.small i
      rw [toUint_eq hsmall] at hjva
      have hij : memstatVa p.memstat va = some j := hjva ▸ hm.memstatVa_eq (swapped_live hj)
      have hlive : Live p.memstat i := Option.some.inj (hi.symm.trans hij) ▸ swapped_live hj
      refine aged_update (i := i) rfl rfl fun _ => ⟨?_, rfl, rfl⟩
      rw [hmem]
      exact hlive

/-! ## Recording -/

theorem memstatMarkResident_live {i : Fin maxPagesInfo} (seq : Int)
    (h : memstatLive p.memstat va = some i) :
    memstatMarkResident p va seq = recorded p i ⟨toUint va, .resident, false, seq, -1⟩
      (if (p.memstat.pages i).state ≠ .resident then p.memstat.numResidentPages + 1
        else p.memstat.numResidentPages) := by
  have hlive := memstatLive_some h
  unfold memstatMarkResident memstatFindIndex
  rw [h]
  simp [recorded, Proc.setPage, hlive.2]

/-- After a call for `va` an entry has the new stamp and is `va`'s, or is an old one of another
page. -/
theorem markResident_entries (hm : MemOk p.memstat) (va : Nat) (seq : Int) (i : Fin maxPagesInfo)
    (hi : Live (memstatMarkResident p va seq).memstat i) :
    (((memstatMarkResident p va seq).memstat.pages i).va = toUint va ∧
        ((memstatMarkResident p va seq).memstat.pages i).seq = seq) ∨
      Live p.memstat i ∧ (p.memstat.pages i).va ≠ toUint va ∧
        (memstatMarkResident p va seq).memstat.pages i = p.memstat.pages i := by
  -- where entry `j` is rewritten, no other entry in use is one of `va`
  have rewritten : ∀ (j : Fin maxPagesInfo) (n : Int),
      (∀ l, l ≠ j → Live p.memstat l → (p.memstat.pages l).va ≠ toUint va) →
      memstatMarkResident p va seq = recorded p j ⟨toUint va, .resident, false, seq, -1⟩ n →
      (((memstatMarkResident p va seq).memstat.pages i).va = toUint va ∧
        ((memstatMarkResident p va seq).memstat.pages i).seq = seq) ∨
      Live p.memstat i ∧ (p.memstat.pages i).va ≠ toUint va ∧
        (memstatMarkResident p va seq).memstat.pages i = p.memstat.pages i := by
    intro j n hother hr
    rw [hr] at hi ⊢
    by_cases hij : i = j
    · subst hij
      simp [recorded]
    · have hpage : (recorded p j ⟨toUint va, .resident, false, seq, -1⟩ n).memstat.pages i =
          p.memstat.pages i := Function.update_of_ne hij _ _
      rw [Live, hpage] at hi
      exact Or.inr ⟨hi, hother i hij hi, hpage⟩
  rcases hl : memstatLive p.memstat va with _ | j
  · have hnone := memstatLive_none hl
    rcases memstatMarkResident_cases p va seq with hr | ⟨j, _, hr⟩
    · rw [hr] at hi ⊢
      exact Or.inr ⟨hi, hnone i hi, rfl⟩
    · exact rewritten j _ (fun l _ hlive => hnone l hlive) hr
  · have hj := memstatLive_some hl
    refine rewritten j _ (fun l hne hlive hva => ?_) (memstatMarkResident_live seq hl)
    exact hne (hm.live_inj hlive hj.1 (hva.trans hj.2.symm))

theorem markResident_next (p : Proc) (va : Nat) (seq : Int) :
    (memstatMarkResident p va seq).memstat.nextFifoSeq = p.memstat.nextFifoSeq := by
  rcases memstatMarkResident_cases p va seq with hr | ⟨i, _, hr⟩
  · rw [hr]
  · rw [hr]; rfl

/-- **A call of `memstat_mark_resident`** is put on the log, and the stamps keep up with it. -/
theorem Stamped.recordResident (h : Stamped log p.memstat) (hm : MemOk p.memstat) (va : Nat) :
    Stamped (log ++ [toUint va]) (p.recordResident va).memstat := by
  obtain ⟨q, hq, hdef⟩ := recordResident_eq p va
  have hpages : q.memstat.pages = p.memstat.pages := by rw [hq]
  have hnext : q.memstat.nextFifoSeq = p.memstat.nextFifoSeq + 1 := by rw [hq]
  have hmq : MemOk q.memstat := hm.congr hpages
  rw [hdef]
  refine ⟨?_, fun i hi => ?_⟩
  · rw [markResident_next, hnext, h.count]
    simp
  · rcases markResident_entries hmq va _ i hi with ⟨hva, hseq⟩ | ⟨hlive, hne, hpage⟩
    · refine ⟨log.length, by rw [hseq, h.count], ?_⟩
      rw [hva]
      exact LastAt.push_self log _
    · rw [Live, hpages] at hlive
      rw [hpages] at hne hpage
      obtain ⟨n, hseq, hlast⟩ := h.last i hlive
      rw [hpage]
      exact ⟨n, hseq, hlast.push_other hne⟩

theorem Stamped.recordAnon (h : Stamped log p.memstat) (hm : MemOk p.memstat) (va : Nat)
    (acc : Access) :
    Stamped (log ++ [toUint va]) (p.recordAnon va acc).memstat := by
  have hres := h.recordResident hm va
  unfold Proc.recordAnon
  generalize p.recordResident va = q at hres
  dsimp only
  split
  · exact hres.aged (aged_markDirty q _)
  · exact hres

theorem Stamped.recordExec (h : Stamped log p.memstat) (hm : MemOk p.memstat) (va : Nat) :
    Stamped (log ++ [toUint va]) (recordExec va p).memstat := by
  have hres := h.recordResident hm va
  unfold Proof.recordExec
  generalize p.recordResident va = q at hres
  exact hres

/-! ## Faults -/

theorem aged_fill {f : Nat} {o : Option Page} (hm : MemOk k.p.memstat) (hva : va % 4096 = 0)
    (hw : src = .slot →
      ∃ j, (k.p.memstat.pages j).state = .swapped ∧ (k.p.memstat.pages j).va = toUint va)
    (h : src.page k va f = (o, p)) : Aged k.p.memstat p.memstat := by
  cases src with
  | zero => cases h; exact Aged.refl _
  | slice => cases h; exact Aged.refl _
  | slot =>
    rcases hin : swapinPage k.p va (k.kmem.ram f) with ⟨s, pg, q⟩
    simp only [Fill.page, hin, Prod.mk.injEq] at h
    obtain ⟨_, rfl⟩ := h
    exact aged_swapin hm hva (hw rfl) hin

/--
**Installing a page** ages the table; the books are then written for a mapped
page and left alone otherwise.
-/
theorem Installs.aged {perm : Proc → Perm} (hi : Installs src perm record k va r k')
    (h : SpaceOk C U S k.kmem k.p) (hva : va % 4096 = 0)
    (hw : src = .slot → wasSwapped k.p.memstat (toUint va) = true) :
    ∃ q : Proc, MemOk q.memstat ∧ Aged k.p.memstat q.memstat ∧
      k'.p = if r.isSome then record q else q := by
  have hroom : ∀ {k₁ : Kernel} {r : Option Nat}, tryKallocOrReplace k = (r, k₁) →
      GaveUp k.p.memstat k₁.p.memstat := fun ht => (tryKalloc_room h.mem ht).gaveUp
  have hfill : ∀ {k₁ : Kernel} {f : Nat} {o : Option Page} {p : Proc},
      tryKallocOrReplace k = (some f, k₁) → src.page k₁ va f = (o, p) →
      MemOk p.memstat ∧ Aged k.p.memstat p.memstat := by
    intro k₁ f o p ht hp
    obtain ⟨h₁, _⟩ := ((tryKalloc_room h.mem ht).spaceOk h).2 f rfl
    exact ⟨(fill_books hp).2 h₁.mem, (hroom ht).aged.trans
      (aged_fill h₁.mem hva (fun hs => (hroom ht).swapped (hw hs)) hp)⟩
  cases hi with
  | starved ht =>
    exact ⟨k'.p, ((tryKalloc_room h.mem ht).spaceOk h).1 rfl |>.mem, (hroom ht).aged, rfl⟩
  | @unfilled k₁ f pg p ht hp =>
    obtain ⟨hm, ha⟩ := hfill ht hp
    exact ⟨p, hm, ha, rfl⟩
  | @unmapped k₁ k₂ f pg p ht hp hmap =>
    obtain ⟨hm, ha⟩ := hfill ht hp
    obtain ⟨pt, hk₂⟩ := mapUser_records hmap
    refine ⟨_, ?_, ?_, rfl⟩
    · rw [hk₂]; exact hm
    · rw [hk₂]; exact ha
  | @mapped k₁ k₂ f pg p ht hp hmap =>
    obtain ⟨hm, ha⟩ := hfill ht hp
    obtain ⟨pt, hk₂⟩ := mapUser_records hmap
    refine ⟨k₂.p, ?_, ?_, rfl⟩
    · rw [hk₂]; exact hm
    · rw [hk₂]; exact ha

/-- An installation reaches `memstat_mark_resident` exactly when it mapped a page. -/
theorem Installs.installsFrom (hi : Installs src (fun p => fillPerm va p src) record k va r k') :
    installsFrom k va src = r.isSome := by
  unfold Proof.installsFrom
  cases hi with
  | starved ht => rw [ht]; rfl
  | unfilled ht hp =>
    rw [ht]
    dsimp only
    rw [hp]
    rfl
  | unmapped ht hp hmap =>
    rw [ht]
    dsimp only
    rw [hp]
    dsimp only
    rw [hmap]
    rfl
  | mapped ht hp hmap =>
    rw [ht]
    dsimp only
    rw [hp]
    dsimp only
    rw [hmap]
    rfl

theorem settle_memstat (r : Option Nat) (k : Kernel) : (settle r k).p.memstat = k.p.memstat := by
  cases r <;> rfl

theorem Installs.stamped (src : Fill) {k₁ : Kernel}
    (hi : Installs src (fun p => fillPerm (pgRoundDown va) p src) record k (pgRoundDown va) r k₁)
    (h : SpaceOk C U S k.kmem k.p) (hlog : Stamped log k.p.memstat)
    (hwants : wants k va acc = some src)
    (hrec : ∀ q : Proc, MemOk q.memstat → Stamped log q.memstat →
      Stamped (log ++ [toUint (pgRoundDown va)]) (record q).memstat) :
    Stamped (if marksResident k va acc = true then log ++ [toUint (pgRoundDown va)] else log)
      (settle r k₁).p.memstat := by
  have hslot : src = .slot → wasSwapped k.p.memstat (toUint (pgRoundDown va)) = true := by
    intro hs
    rw [hs] at hwants
    exact (wants_slot hwants).1
  obtain ⟨q, hm, ha, hq⟩ := hi.aged h (pgRoundDown_mod va) hslot
  rw [marksResident_some hwants, hi.installsFrom, settle_memstat, hq]
  cases r with
  | none => exact hlog.aged ha
  | some f => exact hrec q hm (hlog.aged ha)

/-- **A page fault** of the user. -/
theorem Handled.stamped (hh : Handled k va acc k') (h : SpaceOk C U S k.kmem k.p)
    (hlog : Stamped log k.p.memstat) :
    Stamped (if marksResident k va acc = true then log ++ [toUint (pgRoundDown va)] else log)
      k'.p.memstat := by
  cases hh with
  | killed hno hk' =>
    rw [marksResident_none hno, hk']
    exact hlog
  | noted o hno _ _ hk' =>
    rw [marksResident_none hno, hk']
    exact hlog.aged (aged_markDirty k.p o)
  | granted o k₁ hno _ _ _ _ _ hk₁ hk' =>
    have hmem : k₁.p.memstat = k.p.memstat := by rw [hk₁]; rfl
    rw [marksResident_none hno, hk']
    exact (hmem ▸ hlog : Stamped log k₁.p.memstat).aged (aged_markDirty k₁.p o)
  | anon swapped r k₁ _ hw hi hk' =>
    rw [hk']
    cases swapped with
    | false => exact Installs.stamped .zero hi h hlog hw fun q hm hq => hq.recordAnon hm _ acc
    | true => exact Installs.stamped .slot hi h hlog hw fun q hm hq => hq.recordAnon hm _ acc
  | exec r k₁ _ hw hi hk' =>
    rw [hk']
    exact Installs.stamped .slice hi h hlog hw fun q hm hq => hq.recordExec hm _

/-- `vmfault` makes no call of `memstat_mark_resident`. -/
theorem userFrame_aged (h : SpaceOk C U S k.kmem k.p) (hf : userFrame k va = .ok (r, k')) :
    Aged k.p.memstat k'.p.memstat := by
  rcases userFrame_cases hf with ⟨_, hk'⟩ | ⟨_, _, hk'⟩ | ⟨_, hv⟩
  · rw [hk']; exact Aged.refl _
  · rw [hk']; exact Aged.refl _
  · rcases vmfault_cases hv with ⟨_, _, hk'⟩ | ⟨src, _, hw, hi⟩
    · rw [hk']; exact Aged.refl _
    · have hslot : src ≠ .slot := by
        rintro rfl
        unfold vmWants at hw
        split at hw
        · simp at hw
        · split at hw
          · simp at hw
          · split at hw <;> simp at hw
      obtain ⟨q, _, ha, hq⟩ := hi.aged h (pgRoundDown_mod va) fun hs => absurd hs hslot
      rw [hq]
      split
      · exact ha
      · exact ha

/-! ## Whole runs -/

theorem Brk.memstat (h : Brk k k') : k'.p.memstat = k.p.memstat := by
  cases h with
  | same hk' => rw [hk']
  | lazily _ _ _ hk' => rw [hk']
  | failed _ _ _ _ _ hk' => rw [hk']
  | grew _ _ _ _ _ _ _ hk' => rw [hk']
  | shrank _ _ _ _ _ hk' => rw [hk']

/-- `kexec` goes on with the entries of the old image. -/
theorem Execs.memstat {path : List UInt8} {ip : Option Inode} {argv : List (List UInt8)} {r : Int}
    (h : Execs k path ip argv r k') :
    k'.p.memstat = k.p.memstat := by
  cases h with
  | missing _ _ hk' => rw [hk']
  | starved _ _ _ _ _ _ _ _ _ _ hk' => rw [hk']
  | undone _ _ _ _ _ _ _ _ _ _ _ hk' => rw [hk']
  | done _ _ _ _ _ _ _ _ _ _ _ _ p _ _ _ _ _ _ hcreate _ hk' =>
    obtain ⟨file, hp⟩ := swapfileCreate_eq hcreate
    rw [hk', hp]
    rfl

theorem stamped_fresh (pid tf : Nat) (pt : PageTable) : Stamped [] (freshProc pid tf pt).memstat :=
  ⟨rfl, fun _ hi => absurd rfl hi⟩

theorem allocproc_stamped {km km' : Kmem} {pid : Nat} {q : Proc}
    (h : allocproc km pid = .ok (some q, km')) : Stamped [] q.memstat := by
  cases allocproc_cases h with
  | made _ _ => exact stamped_fresh _ _ _

theorem Forks.stamped {q : Proc} (h : Forks k (some q) k') :
    Stamped [] q.memstat := by
  cases h with
  | noSlot hnp _ | noProc _ _ hnp _ | undone _ _ _ _ _ _ _ _ hnp _ => cases hnp
  | made q₀ _ _ pt ha _ hnp _ =>
    cases hnp
    have hfresh := allocproc_stamped ha
    exact hfresh

/-- The copy routines only ever age the table. -/
theorem Copies.stamped (hc : Copies k k') (hs : SpaceInv False k) (h : Stamped log k.p.memstat) :
    Stamped log k'.p.memstat := by
  refine (hc.keeps (P := fun k => SpaceInv False k ∧ Stamped log k.p.memstat) ?_ ?_ ⟨hs, h⟩).2
  · rintro k va r k' ⟨⟨S, hs⟩, h⟩ hf
    exact ⟨⟨S, userFrame_spaceOk hs hf⟩, h.aged (userFrame_aged hs hf)⟩
  · rintro k f ofs bytes ⟨⟨S, hs⟩, h⟩
    exact ⟨⟨S, hs.fill _ _⟩, h⟩

/-- **The stamps agree with the log** in every state of every run. -/
theorem Logged.stamped (h : Logged k log) :
    Stamped log k.p.memstat := by
  induction h with
  | boot hb =>
    obtain ⟨km, _, _, ha⟩ := hb.made
    exact allocproc_stamped ha
  | @step k k' op o log hk hs ih =>
    obtain ⟨S, hspace⟩ := reachable_spaceInv hk.reachable
    cases step_cases hs with
    | loaded => exact ih
    | stored => exact ih
    | fault ht =>
      have h₀ : SpaceOk False ∅ S k.countFault.kmem k.countFault.p :=
        hspace.same ⟨rfl, rfl⟩ hspace.mem
      have hnew := (usertrap_cases ht).stamped h₀ ih
      simpa [logAfter] using hnew
    | sbrk hb => exact (sysSbrk_cases hb).memstat ▸ ih
    | copyin hc => exact hc.stamped ⟨S, hspace⟩ ih
    | copyout hc => exact hc.stamped ⟨S, hspace⟩ ih
    | copyinstr hc => exact hc.stamped ⟨S, hspace⟩ ih
    | exec he => exact (kexec_cases he).memstat ▸ ih
    | @parent slot asChild np r _ hf hr =>
      have hkeep : Stamped log k'.p.memstat := (kfork_cases hf).parent ▸ ih
      cases asChild with
      | false => exact hkeep
      | true =>
        rw [hr rfl]
        exact hkeep
    | child hf => exact (kfork_cases hf).stamped
    | rewrite => exact ih

/-! ## The victim -/

/-- Entry `i` is resident, and its last call of `memstat_mark_resident` was before that of any
other. -/
def Oldest (log : List Nat) (m : MemStat) (i : Fin maxPagesInfo) : Prop :=
  (m.pages i).state = .resident ∧ ∃ n, LastAt log (m.pages i).va n ∧
    ∀ j, j ≠ i → (m.pages j).state = .resident → ∃ n', LastAt log (m.pages j).va n' ∧ n < n'

/-- The sequence numbers of the resident entries tell them apart. -/
structure SeqsApart (m : MemStat) : Prop where
  below : ∀ i, (m.pages i).state = .resident → 0 ≤ (m.pages i).seq ∧ (m.pages i).seq < m.nextFifoSeq
  apart : ∀ i j, (m.pages i).state = .resident → (m.pages j).state = .resident →
    (m.pages i).seq % 2 ^ 32 = (m.pages j).seq % 2 ^ 32 → i = j

theorem Stamped.seqsApart (h : Stamped log m) (hm : MemOk m) (hlen : log.length < 2 ^ 31) :
    SeqsApart m := by
  refine ⟨fun i hi => ?_, fun i j hi hj he => ?_⟩
  · obtain ⟨n, hseq, hlast⟩ := h.last i (resident_live hi)
    have hn := hlast.lt_length
    rw [hseq, h.count]
    omega
  · obtain ⟨n, hseq, hlast⟩ := h.last i (resident_live hi)
    obtain ⟨n', hseq', hlast'⟩ := h.last j (resident_live hj)
    have hn := hlast.lt_length
    have hn' := hlast'.lt_length
    rw [hseq, hseq'] at he
    have hnn : n = n' := by omega
    subst hnn
    exact hm.live_inj (resident_live hi) (resident_live hj) (hlast.value_eq hlast')

theorem Stamped.oldest (h : Stamped log m) (hm : MemOk m) (hlen : log.length < 2 ^ 31)
    {i : Fin maxPagesInfo} (hi : selectVictimFifoIndex m = some i) :
    Oldest log m i := by
  have hres := selectVictim_resident hi
  obtain ⟨n, hseq, hlast⟩ := h.last i (resident_live hres)
  refine ⟨hres, n, hlast, fun j hji hj => ?_⟩
  obtain ⟨n', hseq', hlast'⟩ := h.last j (resident_live hj)
  refine ⟨n', hlast', ?_⟩
  have hn := hlast.lt_length
  have hn' := hlast'.lt_length
  have hleast := selectVictim_least hi hj
  have hdiff : (m.pages j).seq % 2 ^ 32 ≠ (m.pages i).seq % 2 ^ 32 := fun he =>
    hji ((h.seqsApart hm hlen).apart j i hj hres he)
  unfold Before at hleast
  rw [hseq, hseq'] at hleast hdiff
  omega

/-- A state in which the kernel asks for a frame on behalf of the process: in a fault, or in a
copy. -/
inductive Asks : Kernel → List Nat → Prop where
  | trap {k : Kernel} {log : List Nat} : Logged k log → Asks k.countFault log
  | copy {k k' : Kernel} {log : List Nat} : Logged k log → Copies k k' → Asks k' log

/--
**Eviction is first in, first out.** Wherever `try_kalloc_or_replace` is called, its
victim is the resident page for which `memstat_mark_resident` has not been called
the longest, and no two resident entries carry the same number.
-/
theorem eviction_is_fifo {k : Kernel} {log : List Nat} (h : Asks k log)
    (hlen : log.length < 2 ^ 31) :
    (∀ i, selectVictimFifoIndex k.p.memstat = some i → Oldest log k.p.memstat i) ∧
      SeqsApart k.p.memstat := by
  have hfacts : Stamped log k.p.memstat ∧ MemOk k.p.memstat := by
    cases h with
    | trap hl =>
      obtain ⟨S, hs⟩ := reachable_spaceInv hl.reachable
      exact ⟨hl.stamped, hs.mem⟩
    | @copy k₀ _ _ hl hc =>
      have hs := reachable_spaceInv hl.reachable
      obtain ⟨S, hs'⟩ : SpaceInv False k := by
        refine hc.keeps ?_ ?_ hs
        · rintro k va r k' ⟨S, hs⟩ hf
          exact ⟨S, userFrame_spaceOk hs hf⟩
        · rintro k f ofs bytes ⟨S, hs⟩
          exact ⟨S, hs.fill _ _⟩
      exact ⟨hc.stamped hs hl.stamped, hs'.mem⟩
  exact ⟨fun i hi => hfacts.1.oldest hfacts.2 hlen hi, hfacts.1.seqsApart hfacts.2 hlen⟩

/-- A step, with the log kept. -/
def nextLogged (r : Kernel × List Nat) (op : Op) : Option (Kernel × List Nat) :=
  (step r.1 op).toOption.map fun x => (x.2, logAfter r.2 r.1 x.1 op)

theorem replay_logged {allowed : Kernel × List Nat → Op → Bool} {ops : List Op}
    {r r' : Kernel × List Nat} (hr : Logged r.1 r.2)
    (h : replay nextLogged allowed r ops = some r') : Logged r'.1 r'.2 := by
  refine replay_keeps (P := fun r => Logged r.1 r.2) (fun r op r' hr _ h => ?_) hr h
  unfold nextLogged at h
  cases hs : step r.1 op with
  | error => rw [hs] at h; cases h
  | ok x => rw [hs] at h; cases h; exact .step hr hs

/-- Two heap pages are touched, the first of them twice. -/
def twoPagesRun : List Op :=
  [.exec [47] onePage [[65]], .sbrk 8192 2, .access .write 12288 5, .access .read 16384 0,
    .access .write 12288 5]

theorem eviction_is_fifo_two_pages : ∃ k log i, Asks k log ∧ log = [12288, 16384] ∧
    selectVictimFifoIndex k.p.memstat = some i ∧ (k.p.memstat.pages i).va = 12288 ∧
    Oldest log k.p.memstat i := by
  have hrun : ((bootKernel []).bind fun k =>
      replay nextLogged (fun _ _ => true) (k, []) twoPagesRun).map (fun r =>
        (r.2, (selectVictimFifoIndex r.1.p.memstat).map fun i => (i, (r.1.p.memstat.pages i).va))) =
      some ([12288, 16384], some (0, 12288)) := by
    decide +kernel
  obtain ⟨⟨k, log⟩, hk, hfacts⟩ := Option.map_eq_some_iff.mp hrun
  obtain ⟨k₀, hboot, hreplay⟩ := Option.bind_eq_some_iff.mp hk
  simp only [Prod.mk.injEq] at hfacts
  obtain ⟨hlog, hvictim⟩ := hfacts
  obtain ⟨i, hi, hva⟩ := Option.map_eq_some_iff.mp hvictim
  simp only [Prod.mk.injEq] at hva
  have hlogged : Logged k log := replay_logged (.boot (bootKernel_boot hboot)) hreplay
  refine ⟨k.countFault, log, i, .trap hlogged, hlog, hi, hva.1 ▸ hva.2, ?_⟩
  exact (eviction_is_fifo (.trap hlogged) (by rw [hlog]; decide)).1 i hi

end Xv6Paging.Proof
