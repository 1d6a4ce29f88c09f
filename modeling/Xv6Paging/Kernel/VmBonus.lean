import Xv6Paging.Kernel.Proc

/-!
# Clean pages first

`vm_bonus.c` differs from `vm.c` in how the victim is chosen: among the clean resident
pages if there are any. One loop keeps two running minima, one of the clean pages and one
of all.
-/

namespace Xv6Paging

/-- The two running minima of `select_victim_cleanfifo_index`. -/
structure CleanVictim where
  clean : Victim
  fifo : Victim

/-- One round of the search. -/
def CleanVictim.scan (m : MemStat) (best : CleanVictim) (i : Fin maxPagesInfo) : CleanVictim where
  clean := if (m.pages i).isDirty then best.clean else best.clean.scan m i
  fifo := best.fifo.scan m i

/-- `select_victim_cleanfifo_index`: the victim, and `*chose_clean`. -/
def selectVictimCleanfifoIndex (m : MemStat) : Option (Fin maxPagesInfo) × Bool :=
  let best := (List.finRange maxPagesInfo).foldl (CleanVictim.scan m) ⟨⟨none, 0, 0⟩, ⟨none, 0, 0⟩⟩
  (if best.clean.index.isSome then best.clean.index else best.fifo.index, best.clean.index.isSome)

end Xv6Paging
