import Xv6Paging.Proof.Space
import Xv6Paging.Proof.SwapSteps

/-!
# Finding the live entry of a page

`proc_swapout_page`, `swapin_page` and the loops of `usertrap` that mark a page dirty take the
first entry with the address, whatever its state, and entries that are not in use keep old
addresses. They are right to: whichever calls were made before, and in whatever order, the entry
in use at an address is the first with it.
-/

namespace Xv6Paging.Proof

open Xv6Paging Relation

/--
A call that touches the table, as `usertrap` and `try_kalloc_or_replace` make it: the functions
that take the address of a page get one that is rounded down. Everything else leaves the
entries alone.
-/
inductive TableCall : Proc → Proc → Prop where
  | markResident {p : Proc} {va : Nat} (seq : Int) : va % 4096 = 0 →
      TableCall p (memstatMarkResident p va seq)
  | markUnmapped {p : Proc} {va : Nat} : va % 4096 = 0 → TableCall p (memstatMarkUnmapped p va)
  | markSwapped {p : Proc} {va : Nat} (slot : Int) : va % 4096 = 0 →
      TableCall p (memstatMarkSwapped p va slot)
  | swapout {d d' : Disk} {p p' : Proc} {va : Nat} {src : Page} {r : Int} :
      procSwapoutPage d p va src = (r, d', p') → TableCall p p'
  | swapin {p p' : Proc} {va : Nat} {dst pg : Page} {r : Int} :
      swapinPage p va dst = (r, pg, p') → TableCall p p'
  | markDirty {p : Proc} (o : Option (Fin maxPagesInfo)) : TableCall p (p.markDirty o)
  | other {p p' : Proc} : p'.memstat.pages = p.memstat.pages → TableCall p p'

theorem procSwapoutPage_memOk {d d' : Disk} {p p' : Proc} {va : Nat} {src : Page} {r : Int}
    (h : MemOk p.memstat) (hs : procSwapoutPage d p va src = (r, d', p')) : MemOk p'.memstat := by
  rcases procSwapoutPage_eq hs with ⟨_, file, hp⟩ | ⟨slot, file, _, _, hp⟩
  · rw [hp]
    exact h
  · rw [hp]
    have hw : MemOk (wroteSlot p va slot file).memstat := h
    exact hw.memstatSwap _ _ _

theorem TableCall.memOk {p p' : Proc} (hc : TableCall p p') (h : MemOk p.memstat) :
    MemOk p'.memstat := by
  cases hc with
  | markResident seq hal => exact h.memstatMarkResident hal seq
  | markUnmapped hal => exact h.memstatMark hal _ _
  | markSwapped slot hal => exact h.memstatMark hal _ slot
  | swapout hs => exact procSwapoutPage_memOk h hs
  | swapin hs => exact swapinPage_memOk h hs
  | markDirty o => exact h.markDirty o
  | other hp => exact h.congr hp

/-- A run of calls keeps the table in order. -/
theorem memOk_of_calls {p p' : Proc} (hrun : ReflTransGen TableCall p p') (h : MemOk p.memstat) :
    MemOk p'.memstat := by
  induction hrun with
  | refl => exact h
  | tail _ hc ih => exact hc.memOk ih

/-- At most one entry in use per address, and it is the first with the address. -/
def LiveFirst (m : MemStat) : Prop :=
  ∀ va, va < 2 ^ 32 →
    (∀ i j, Live m i → Live m j → (m.pages i).va = va → (m.pages j).va = va → i = j) ∧
      ∀ i, Live m i → (m.pages i).va = va → IsLeast {j | (m.pages j).va = va} i

theorem MemOk.liveFirst {m : MemStat} (h : MemOk m) : LiveFirst m := by
  intro va _
  refine ⟨fun i j hi hj hiva hjva => h.live_inj hi hj (hiva.trans hjva.symm), fun i hi hiva => ?_⟩
  refine ⟨hiva, fun j hj => ?_⟩
  by_contra hlt
  exact h.first i j (lt_of_not_ge hlt) hi (Eq.trans hj hiva.symm)

/--
**The first entry with an address is the live one.** So it is after any calls on the table of a
new process, in between any two of them, and in every state of the system.
-/
theorem live_entry_is_first :
    (∀ pid tf pt p, ReflTransGen TableCall (freshProc pid tf pt) p → LiveFirst p.memstat) ∧
      ∀ k, Reachable k → LiveFirst k.p.memstat := by
  constructor
  · intro pid tf pt p hrun
    exact (memOk_of_calls hrun (freshProc_memOk pid tf pt)).liveFirst
  · intro k hk
    obtain ⟨S, hok⟩ := reachable_spaceInv hk
    exact hok.mem.liveFirst

/-- A page that is swapped out, and one recorded as unmapped before that. -/
theorem live_entry_is_first_swapped_page :
    (∃ k i, Reachable k ∧ (k.p.memstat.pages i).state = .swapped ∧
      (k.p.memstat.pages i).va = 12288 ∧
      IsLeast {j | (k.p.memstat.pages j).va = 12288} i) ∧
    ∀ pid tf pt, LiveFirst
      (memstatMarkResident (memstatMarkUnmapped (freshProc pid tf pt) 4096) 4096 0).memstat := by
  constructor
  · have hrun : (after (fun _ _ => true) [12] swapOutRun).map (fun k =>
        ((k.p.memstat.pages 0).state, (k.p.memstat.pages 0).va)) = some (.swapped, 12288) := by
      decide +kernel
    obtain ⟨k, hk, hat⟩ := Option.map_eq_some_iff.mp hrun
    have hreach : Reachable k := after_reachable (fun _ _ _ => trivial) hk
    obtain ⟨hst, hva⟩ := Prod.mk.inj hat
    refine ⟨k, 0, hreach, hst, hva, ?_⟩
    exact ((live_entry_is_first.2 k hreach) 12288 (by decide)).2 0 (swapped_live hst) hva
  · intro pid tf pt
    have hpage : 4096 % 4096 = 0 := by decide
    have hforget := TableCall.markUnmapped (p := freshProc pid tf pt) hpage
    have hrecord :=
      TableCall.markResident (p := memstatMarkUnmapped (freshProc pid tf pt) 4096) 0 hpage
    exact live_entry_is_first.1 pid tf pt _ (.tail (.single hforget) hrecord)

end Xv6Paging.Proof
