import Xv6Paging.Kernel.VmBonus
import Xv6Paging.Proof.Victim

/-!
# The two searches for a victim

Both searches go through the table once and keep the entry that comes first so far. The three
variables of a running minimum always belong to one entry, so that a search is an `argmin` over
the entries it looks at, and the table is in ascending order of the index: of several entries that
come first, the lowest is found.
-/

namespace Xv6Paging.Proof

open Xv6Paging

variable {m : MemStat}

/-- A candidate of `select_victim_fifo_index`. -/
def Resident (m : MemStat) (i : Fin maxPagesInfo) : Prop := (m.pages i).state = .resident

/-- A candidate of the search among the clean pages. -/
def Clean (m : MemStat) (i : Fin maxPagesInfo) : Prop := Resident m i ∧ (m.pages i).isDirty = false

/-- Entry `i` is a candidate and no candidate comes before it. -/
def Foremost (m : MemStat) (Q : Fin maxPagesInfo → Prop) (i : Fin maxPagesInfo) : Prop :=
  Q i ∧ ∀ j, Q j → ¬ Before m j i

instance (m : MemStat) : DecidablePred (Resident m) := fun i =>
  inferInstanceAs (Decidable ((m.pages i).state = .resident))

instance (m : MemStat) : DecidablePred (Clean m) := fun i =>
  inferInstanceAs (Decidable (Resident m i ∧ (m.pages i).isDirty = false))

/-! ## A search as an `argmin` -/

/-- What the entries are compared by. -/
def rank (m : MemStat) (i : Fin maxPagesInfo) : Int ×ₗ Nat :=
  toLex ((m.pages i).seq % 2 ^ 32, (m.pages i).va)

theorem rank_lt_iff {i j : Fin maxPagesInfo} : rank m i < rank m j ↔ Before m i j := by
  unfold rank
  rw [Prod.Lex.toLex_lt_toLex]
  rfl

/-- One round of an `argmin` by rank. -/
def round (m : MemStat) :
    Option (Fin maxPagesInfo) → Fin maxPagesInfo → Option (Fin maxPagesInfo) :=
  List.argAux fun i j => rank m i < rank m j

/-- The variables of a running minimum are those of the entry `o`. -/
structure Tracks (m : MemStat) (best : Victim) (o : Option (Fin maxPagesInfo)) : Prop where
  index : best.index = o
  entry : ∀ b, o = some b → best.seq = (m.pages b).seq ∧ best.va = (m.pages b).va

theorem Tracks.start (m : MemStat) : Tracks m ⟨none, 0, 0⟩ none := ⟨rfl, fun b hb => by cases hb⟩

theorem Tracks.scan_resident {best : Victim} {o : Option (Fin maxPagesInfo)} (h : Tracks m best o)
    {i : Fin maxPagesInfo} (hi : Resident m i) :
    Tracks m (best.scan m i) (round m o i) := by
  have htakes : Tracks m ⟨some i, (m.pages i).seq, (m.pages i).va⟩ (some i) :=
    ⟨rfl, fun b hb => by cases hb; exact ⟨rfl, rfl⟩⟩
  unfold Victim.scan round List.argAux
  dsimp only
  cases o with
  | none =>
    rw [if_pos ⟨hi, Or.inl h.index⟩]
    exact htakes
  | some b =>
    obtain ⟨hseq, hva⟩ := h.entry b rfl
    have hcond : ((m.pages i).state = .resident ∧ (best.index = none ∨
        (m.pages i).seq % 2 ^ 32 < best.seq % 2 ^ 32 ∨
        (m.pages i).seq % 2 ^ 32 = best.seq % 2 ^ 32 ∧ (m.pages i).va < best.va)) ↔
        rank m i < rank m b := by
      rw [rank_lt_iff, h.index, hseq, hva]
      constructor
      · intro hc
        exact hc.2.resolve_left (by simp)
      · intro hb
        exact ⟨hi, Or.inr hb⟩
    dsimp only
    by_cases hlt : rank m i < rank m b
    · rw [if_pos (hcond.mpr hlt), if_pos hlt]
      exact htakes
    · rw [if_neg (fun hc => hlt (hcond.mp hc)), if_neg hlt]
      exact h

theorem scan_not_resident {i : Fin maxPagesInfo} (hi : ¬ Resident m i) (best : Victim) :
    best.scan m i = best := if_neg fun hc => hi hc.1

/-- The search through `l` is an `argmin` over the resident entries of `l`. -/
theorem Tracks.foldl (l : List (Fin maxPagesInfo)) :
    ∀ {best : Victim} {o : Option (Fin maxPagesInfo)}, Tracks m best o →
      Tracks m (l.foldl (Victim.scan m) best) ((l.filter (Resident m ·)).foldl (round m) o) := by
  induction l with
  | nil =>
    intro best o h
    exact h
  | cons i l ih =>
    intro best o h
    by_cases hi : Resident m i
    · rw [List.filter_cons_of_pos (by simpa using hi)]
      exact ih (h.scan_resident hi)
    · rw [List.filter_cons_of_neg (by simpa using hi), List.foldl_cons, scan_not_resident hi]
      exact ih h

theorem search_eq (m : MemStat) (l : List (Fin maxPagesInfo)) :
    (l.foldl (Victim.scan m) ⟨none, 0, 0⟩).index = (l.filter (Resident m ·)).argmin (rank m) :=
  ((Tracks.start m).foldl l).index

/-- The two minima of the other search do not meet: the one of the clean pages skips the rest. -/
theorem cleanScan_foldl (m : MemStat) (l : List (Fin maxPagesInfo)) : ∀ c f : Victim,
    l.foldl (CleanVictim.scan m) ⟨c, f⟩ =
      ⟨(l.filter (fun i => !(m.pages i).isDirty)).foldl (Victim.scan m) c,
        l.foldl (Victim.scan m) f⟩ := by
  induction l with
  | nil =>
    intro c f
    rfl
  | cons i l ih =>
    intro c f
    rw [List.foldl_cons, CleanVictim.scan, ih]
    cases hd : (m.pages i).isDirty with
    | true => rw [List.filter_cons_of_neg (by simp [hd]), if_pos rfl, List.foldl_cons]
    | false =>
      rw [List.filter_cons_of_pos (by simp [hd]), if_neg (by simp), List.foldl_cons,
        List.foldl_cons]

/-! ## What an `argmin` over the table is -/

/-- The candidates, in ascending order. -/
def candidates (Q : Fin maxPagesInfo → Prop) [DecidablePred Q] : List (Fin maxPagesInfo) :=
  (List.finRange maxPagesInfo).filter (Q ·)

section

variable {Q : Fin maxPagesInfo → Prop} [DecidablePred Q]

theorem mem_candidates {i : Fin maxPagesInfo} : i ∈ candidates Q ↔ Q i := by
  simp [candidates]

theorem candidates_pairwise : (candidates Q).Pairwise (· < ·) :=
  (List.pairwise_lt_finRange maxPagesInfo).filter _

/-- In the list of candidates the lower index comes first. -/
theorem idxOf_le_iff {i j : Fin maxPagesInfo} (hi : Q i) (hj : Q j) :
    (candidates Q).idxOf i ≤ (candidates Q).idxOf j ↔ i ≤ j := by
  have later : ∀ {a b : Fin maxPagesInfo}, Q a → Q b →
      (candidates Q).idxOf a < (candidates Q).idxOf b → a < b := by
    intro a b ha hb hlt
    have hla := List.idxOf_lt_length_of_mem (mem_candidates.mpr ha)
    have hlb := List.idxOf_lt_length_of_mem (mem_candidates.mpr hb)
    have hp := List.pairwise_iff_getElem.mp (candidates_pairwise (Q := Q)) _ _ hla hlb hlt
    rwa [List.getElem_idxOf, List.getElem_idxOf] at hp
  constructor
  · intro hle
    rcases Nat.lt_or_eq_of_le hle with hlt | heq
    · exact (later hi hj hlt).le
    · exact (List.idxOf_inj (mem_candidates.mpr hi)).mp heq |>.le
  · intro hle
    by_contra hgt
    exact absurd (later hj hi (Nat.lt_of_not_le hgt)) (not_lt_of_ge hle)

/-- **The search ends with the lowest of the candidates that come first.** -/
theorem argmin_eq_some_iff {i : Fin maxPagesInfo} :
    (candidates Q).argmin (rank m) = some i ↔ IsLeast {j | Foremost m Q j} i := by
  rw [List.argmin_eq_some_iff]
  constructor
  · rintro ⟨hmem, hle, hfirst⟩
    have hi := mem_candidates.mp hmem
    refine ⟨⟨hi, fun j hj hb => ?_⟩, fun j hj => ?_⟩
    · exact absurd (rank_lt_iff.mpr hb) (not_lt_of_ge (hle j (mem_candidates.mpr hj)))
    · refine (idxOf_le_iff hi hj.1).mp (hfirst j (mem_candidates.mpr hj.1) ?_)
      exact le_of_not_gt fun hlt => hj.2 i hi (rank_lt_iff.mp hlt)
  · rintro ⟨⟨hi, hleast⟩, hlow⟩
    refine ⟨mem_candidates.mpr hi, fun j hj => ?_, fun j hj hle => ?_⟩
    · exact le_of_not_gt fun hlt => hleast j (mem_candidates.mp hj) (rank_lt_iff.mp hlt)
    · refine (idxOf_le_iff hi (mem_candidates.mp hj)).mpr (hlow ⟨mem_candidates.mp hj,
        fun l hl hb => ?_⟩)
      exact hleast l hl (rank_lt_iff.mp (lt_of_lt_of_le (rank_lt_iff.mpr hb) hle))

theorem argmin_eq_none_iff : (candidates Q).argmin (rank m) = none ↔ ∀ i, ¬ Q i := by
  rw [List.argmin_eq_none, List.eq_nil_iff_forall_not_mem]
  exact forall_congr' fun i => not_congr mem_candidates

end

theorem fifo_eq (m : MemStat) :
    selectVictimFifoIndex m = (candidates (Resident m)).argmin (rank m) :=
  search_eq m _

theorem cleanfifo_eq (m : MemStat) : selectVictimCleanfifoIndex m =
    (if ((candidates (Clean m)).argmin (rank m)).isSome then (candidates (Clean m)).argmin (rank m)
      else selectVictimFifoIndex m, ((candidates (Clean m)).argmin (rank m)).isSome) := by
  have hclean : ((List.finRange maxPagesInfo).filter (fun i => !(m.pages i).isDirty)).filter
      (Resident m ·) = candidates (Clean m) := by
    rw [List.filter_filter, candidates]
    congr 1
    funext i
    cases hd : (m.pages i).isDirty <;> simp [Clean, hd]
  unfold selectVictimCleanfifoIndex
  rw [cleanScan_foldl]
  dsimp only
  rw [search_eq, hclean]
  rfl

/-! ## Both searches -/

/-- What the two searches return, and when they return the same. -/
structure SearchesExact (m : MemStat) : Prop where
  none_iff : selectVictimFifoIndex m = none ↔ ∀ i, ¬ Resident m i
  some_iff : ∀ i, selectVictimFifoIndex m = some i ↔ IsLeast {j | Foremost m (Resident m) j} i
  clean : (∃ j, Clean m j) → (selectVictimCleanfifoIndex m).2 = true ∧
    ∀ i, (selectVictimCleanfifoIndex m).1 = some i ↔ IsLeast {j | Foremost m (Clean m) j} i
  no_clean : (∀ j, ¬ Clean m j) → selectVictimCleanfifoIndex m = (selectVictimFifoIndex m, false)
  agree : (∃ i, selectVictimFifoIndex m = some i ∧ (m.pages i).isDirty = false) ∨
    (∀ j, ¬ Clean m j) → (selectVictimCleanfifoIndex m).1 = selectVictimFifoIndex m
  differ : (selectVictimCleanfifoIndex m).1 ≠ selectVictimFifoIndex m →
    ∃ i j, (selectVictimCleanfifoIndex m).1 = some i ∧ (m.pages i).isDirty = false ∧
      selectVictimFifoIndex m = some j ∧ (m.pages j).isDirty = true

theorem cleanfifo_of_clean (h : ∃ j, Clean m j) :
    ∃ i, selectVictimCleanfifoIndex m = (some i, true) ∧
    IsLeast {j | Foremost m (Clean m) j} i := by
  cases hi : (candidates (Clean m)).argmin (rank m) with
  | none =>
    obtain ⟨j, hj⟩ := h
    exact absurd hj (argmin_eq_none_iff.mp hi j)
  | some i =>
    refine ⟨i, ?_, argmin_eq_some_iff.mp hi⟩
    rw [cleanfifo_eq, hi]
    rfl

theorem cleanfifo_of_no_clean (h : ∀ j, ¬ Clean m j) :
    selectVictimCleanfifoIndex m = (selectVictimFifoIndex m, false) := by
  rw [cleanfifo_eq, argmin_eq_none_iff.mpr h]
  rfl

/-- A victim of the first search that is clean is the victim of the second. -/
theorem foremost_clean {i : Fin maxPagesInfo} (h : IsLeast {j | Foremost m (Resident m) j} i)
    (hd : (m.pages i).isDirty = false) :
    IsLeast {j | Foremost m (Clean m) j} i := by
  obtain ⟨⟨hi, hleast⟩, hlow⟩ := h
  refine ⟨⟨⟨hi, hd⟩, fun j hj => hleast j hj.1⟩, fun j hj => hlow ⟨hj.1.1, fun l hl hb => ?_⟩⟩
  -- `l` before `j` would put `i`, which is no later than `l`, before `j`
  have hij := hj.2 i ⟨hi, hd⟩
  have hil := hleast l hl
  unfold Before at hb hij hil
  omega

/-- **Both searches are exact.** -/
theorem victim_searches_exact (m : MemStat) : SearchesExact m := by
  have hsome : ∀ i, selectVictimFifoIndex m = some i ↔
      IsLeast {j | Foremost m (Resident m) j} i := by
    intro i
    rw [fifo_eq]
    exact argmin_eq_some_iff
  have hagree : (∃ i, selectVictimFifoIndex m = some i ∧ (m.pages i).isDirty = false) ∨
      (∀ j, ¬ Clean m j) → (selectVictimCleanfifoIndex m).1 = selectVictimFifoIndex m := by
    rintro (⟨i, hi, hd⟩ | hno)
    · have hfirst := (hsome i).mp hi
      obtain ⟨j, hj, hleast⟩ := cleanfifo_of_clean ⟨i, hfirst.1.1, hd⟩
      rw [hj, hi, hleast.unique (foremost_clean hfirst hd)]
    · rw [cleanfifo_of_no_clean hno]
  refine ⟨?_, hsome, fun h => ?_, cleanfifo_of_no_clean, hagree, fun hne => ?_⟩
  · rw [fifo_eq]
    exact argmin_eq_none_iff
  · obtain ⟨i, hi, hleast⟩ := cleanfifo_of_clean h
    rw [hi]
    refine ⟨rfl, fun j => ⟨fun hj => ?_, fun hj => ?_⟩⟩
    · cases hj
      exact hleast
    · rw [hleast.unique hj]
  · by_cases hc : ∃ j, Clean m j
    · obtain ⟨i, hi, hleast⟩ := cleanfifo_of_clean hc
      cases hf : selectVictimFifoIndex m with
      | none =>
        rw [fifo_eq] at hf
        exact absurd hleast.1.1.1 (argmin_eq_none_iff.mp hf i)
      | some j =>
        refine ⟨i, j, by rw [hi], hleast.1.1.2, rfl, ?_⟩
        by_contra hd
        exact hne (hagree (Or.inl ⟨j, hf, by simpa using hd⟩))
    · exact absurd (hagree (Or.inr fun j hj => hc ⟨j, hj⟩)) hne

end Xv6Paging.Proof
