import Xv6Paging.Kernel.ProcTable

/-!
# Exit, wait and reparent

A parent waits for its children in two ways: it looks at them under `wait_lock`, and
between two looks it sleeps on itself. A child changes to `ZOMBIE` and wakes its parent
in one section under the same lock, so a parent that sleeps has no zombie it has not
seen. The other half is that nobody is left behind: the children of a process that
exits go to `init`, which never does, in the same section.

Both are kept by every section, and with them who may collect whom: a parent pointer
leads to the process that forked the child, or, after a reparent, to `init`.
-/

namespace Xv6Paging

open Lib

variable {e e' : ProcEntry} {p pp : Fin nproc} {t t' : ProcTable} {pid births : Nat} {s : ProcSys}

/-- Asleep, ready or running. -/
def ProcState.Live (a : ProcState) : Prop := a = .sleeping ∨ a = .runnable ∨ a = .running

/-- The process is in `kfork`, with `np`. -/
def ProcEntry.Forking (e : ProcEntry) (np : Fin nproc) : Prop :=
  e.pc = .forked np ∨ e.pc = .adopted np

/-- The process is asleep in `kwait`. -/
def ProcTable.AsleepInWait (t : ProcTable) (p : Fin nproc) : Prop :=
  (t p).state = .sleeping ∧ (t p).chan = some (.proc p)

/-- The invariant of the table. -/
structure TableOk (t : ProcTable) : Prop where
  init : (t initproc).state.Live
  freed : ∀ c, (t c).state = .unused → (t c).parent = none
  parent : ∀ c q, (t c).parent = some q → (t q).state.Live
  awake : ∀ p c, t.AsleepInWait p → (t c).parent = some p → (t c).state ≠ .zombie
  forking : ∀ p np, (t p).Forking np → (t p).state.Live ∧ (t np).state = .used
  single : ∀ p q np, (t p).Forking np → (t q).Forking np → p = q

/-- Serial numbers tell apart the processes there are and those that are gone. -/
structure SerialsOk (t : ProcTable) (births : Nat) (reaped : List (Nat × Nat)) : Prop where
  born : ∀ c, (t c).state ≠ .unused → (t c).serial < births
  distinct : ∀ a b, (t a).state ≠ .unused → (t b).state ≠ .unused →
    (t a).serial = (t b).serial → a = b
  gone : ∀ r ∈ reaped, r.2 < births ∧ ∀ c, (t c).state ≠ .unused → (t c).serial ≠ r.2
  once : (reaped.map Prod.snd).Nodup

/-- Who may collect whom, and who has. -/
structure ParentsOk (t : ProcTable) (forks : List (Nat × Nat)) (orphans exits : List Nat)
    (reaps : List (Nat × Nat)) : Prop where
  first : (t initproc).serial = 0
  exited : ∀ c, (t c).state = .zombie → (t c).serial ∈ exits
  origin : ∀ c q, (t c).parent = some q →
    ((t q).serial, (t c).serial) ∈ forks ∨ q = initproc ∧ (t c).serial ∈ orphans
  reaped : ∀ r ∈ reaps, r.2 ∈ exits ∧ (r ∈ forks ∨ r.1 = 0 ∧ r.2 ∈ orphans)

/-- The invariant of the process table and its history. -/
structure ProcOk (s : ProcSys) : Prop where
  table : TableOk s.proc
  serials : SerialsOk s.proc s.births s.reaped
  parents : ParentsOk s.proc s.forked s.reparented s.exited s.reaped

theorem SerialsOk.congr {reaped : List (Nat × Nat)} (h : SerialsOk t births reaped)
    (hserial : ∀ c, (t' c).serial = (t c).serial)
    (hunused : ∀ c, (t c).state = .unused → (t' c).state = .unused) :
    SerialsOk t' births reaped where
  born c hc := by
    rw [hserial c]
    exact h.born c fun hu => hc (hunused c hu)
  distinct a b ha hb he := by
    rw [hserial a, hserial b] at he
    exact h.distinct a b (fun hu => ha (hunused a hu)) (fun hu => hb (hunused b hu)) he
  gone r hr := by
    obtain ⟨hlt, hno⟩ := h.gone r hr
    refine ⟨hlt, fun c hc => ?_⟩
    rw [hserial c]
    exact hno c fun hu => hc (hunused c hu)
  once := h.once

/-! ## Steps that create and end nothing -/

/-- A live process stays one, and any other stays as it is. -/
structure Touched (e e' : ProcEntry) : Prop where
  state : e'.state = e.state ∨ e.state.Live ∧ e'.state.Live
  parent : e'.parent = e.parent
  serial : e'.serial = e.serial
  forking : ∀ np, e'.Forking np → e.Forking np

theorem Touched.refl (e : ProcEntry) : Touched e e := ⟨Or.inl rfl, rfl, rfl, fun _ h => h⟩

theorem ProcState.Live.ne {a : ProcState} (h : a.Live) : a ≠ .unused ∧ a ≠ .used ∧ a ≠ .zombie := by
  rcases h with rfl | rfl | rfl <;> decide

namespace Touched

variable {e e' : ProcEntry}

theorem live (h : Touched e e') (hl : e.state.Live) : e'.state.Live := by
  rcases h.state with hs | ⟨_, hl'⟩
  · rw [hs]; exact hl
  · exact hl'

/-- The states outside are the same. -/
theorem eq_iff (h : Touched e e') {a : ProcState} (ha : ¬ a.Live) : e'.state = a ↔ e.state = a := by
  rcases h.state with hs | ⟨hl, hl'⟩
  · rw [hs]
  · exact ⟨fun hs => absurd (hs ▸ hl') ha, fun hs => absurd (hs ▸ hl) ha⟩

end Touched

theorem not_live : ¬ ProcState.Live .unused ∧ ¬ ProcState.Live .used ∧
    ¬ ProcState.Live .zombie := by
  refine ⟨?_, ?_, ?_⟩ <;> intro h <;> rcases h with h | h | h <;> cases h

theorem TableOk.touched (h : TableOk t) (ht : ∀ c, Touched (t c) (t' c))
    (hawake : ∀ p c, t'.AsleepInWait p → (t c).parent = some p → (t c).state ≠ .zombie) :
    TableOk t' where
  init := (ht _).live h.init
  freed c hc := by
    rw [(ht c).parent]
    exact h.freed c (((ht c).eq_iff not_live.1).mp hc)
  parent c q hc := by
    rw [(ht c).parent] at hc
    exact (ht q).live (h.parent c q hc)
  awake p c hp hc hz := by
    rw [(ht c).parent] at hc
    exact hawake p c hp hc (((ht c).eq_iff not_live.2.2).mp hz)
  forking p np hp := by
    obtain ⟨hl, hu⟩ := h.forking p np ((ht p).forking np hp)
    exact ⟨(ht p).live hl, ((ht np).eq_iff not_live.2.1).mpr hu⟩
  single p q np hp hq := h.single p q np ((ht p).forking np hp) ((ht q).forking np hq)

theorem ParentsOk.touched {forks reaps : List (Nat × Nat)} {orphans exits : List Nat}
    (h : ParentsOk t forks orphans exits reaps) (ht : ∀ c, Touched (t c) (t' c)) :
    ParentsOk t' forks orphans exits reaps where
  first := (ht initproc).serial.trans h.first
  exited c hc := by
    rw [(ht c).serial]
    exact h.exited c (((ht c).eq_iff not_live.2.2).mp hc)
  origin c q hc := by
    rw [(ht c).serial, (ht q).serial]
    exact h.origin c q ((ht c).parent ▸ hc)
  reaped := h.reaped

/-! ## What the sections do -/

namespace ProcTable

variable {t : ProcTable} {p q : Fin nproc} {e : ProcEntry}

@[simp] theorem set_self : t.set p e p = e := if_pos rfl

theorem set_ne (h : q ≠ p) : t.set p e q = t q := if_neg h

theorem set_touched (h : Touched (t p) e) (c : Fin nproc) : Touched (t c) (t.set p e c) := by
  by_cases hc : c = p
  · subst hc
    rw [set_self]
    exact h
  · rw [set_ne hc]
    exact .refl _

/-- Woken up, or left alone. -/
def Nudged (e e' : ProcEntry) : Prop :=
  e' = e ∨ e.state = .sleeping ∧ e' = { e with state := .runnable }

theorem Nudged.trans {e'' : ProcEntry} (h : Nudged e e') (h' : Nudged e' e'') :
    Nudged e e'' := by
  rcases h with rfl | ⟨hs, rfl⟩
  · exact h'
  · rcases h' with rfl | ⟨hs', _⟩
    · exact Or.inr ⟨hs, rfl⟩
    · cases hs'

theorem Nudged.touched (h : Nudged e e') : Touched e e' := by
  rcases h with rfl | ⟨hs, rfl⟩
  · exact .refl _
  · exact ⟨Or.inr ⟨Or.inl hs, Or.inr (Or.inl rfl)⟩, rfl, rfl, fun _ h => h⟩

/-- Nobody falls asleep by it. -/
theorem Nudged.asleep (h : Nudged e e') (hs : e'.state = .sleeping) : e' = e := by
  rcases h with rfl | ⟨_, rfl⟩
  · rfl
  · cases hs

theorem wakeup_nudged (me : Fin nproc) (chan : Chan) (c : Fin nproc) :
    Nudged (t c) (wakeup me chan t c) := by
  unfold wakeup
  split
  · rename_i h
    exact Or.inr ⟨h.2.1, rfl⟩
  · exact Or.inl rfl

/-- Nobody else is left asleep on the channel. -/
theorem wakeup_awake {me : Fin nproc} {chan : Chan} {c : Fin nproc} (hc : c ≠ me)
    (hs : (wakeup me chan t c).state = .sleeping) : (wakeup me chan t c).chan ≠ some chan := by
  unfold wakeup at hs ⊢
  split at hs
  · cases hs
  · rename_i h
    rw [if_neg h]
    exact fun hchan => h ⟨hc, hs, hchan⟩

/-- The entry as `reparent` leaves it, up to being woken. -/
def adoptedByInit (p : Fin nproc) (e : ProcEntry) : ProcEntry :=
  { e with parent := if e.parent = some p then some initproc else e.parent }

theorem adoptedByInit_idem (hp : p ≠ initproc) :
    adoptedByInit p (adoptedByInit p e) = adoptedByInit p e := by
  by_cases h : e.parent = some p
  · have hne : ¬ some initproc = some p := by simpa using hp.symm
    simp only [adoptedByInit, h, if_true, if_neg hne]
  · simp only [adoptedByInit, if_neg h]

theorem Nudged.adopted (h : Nudged e e') :
    Nudged (adoptedByInit p e) (adoptedByInit p e') := by
  rcases h with rfl | ⟨hs, rfl⟩
  · exact Or.inl rfl
  · exact Or.inr ⟨hs, rfl⟩

theorem reparentOne_nudged (a c : Fin nproc) :
    Nudged (if c = a then adoptedByInit p (t c) else t c) (reparentOne p t a c) := by
  unfold reparentOne
  by_cases ha : (t a).parent = some p
  · rw [if_pos ha]
    have hset : (t.set a { t a with parent := some initproc }) c =
        if c = a then adoptedByInit p (t c) else t c := by
      by_cases hc : c = a
      · subst hc
        rw [set_self, if_pos rfl, adoptedByInit, if_pos ha]
      · rw [set_ne hc, if_neg hc]
    rw [← hset]
    exact wakeup_nudged ..
  · rw [if_neg ha]
    by_cases hc : c = a
    · subst hc
      rw [if_pos rfl, adoptedByInit, if_neg ha]
      exact Or.inl rfl
    · rw [if_neg hc]
      exact Or.inl rfl

/-- The loop of `reparent`, over a part of the table. -/
theorem foldl_nudged (hp : p ≠ initproc) (c : Fin nproc) : ∀ (l : List (Fin nproc)) (t : ProcTable),
    Nudged (if c ∈ l then adoptedByInit p (t c) else t c) (l.foldl (reparentOne p) t c) := by
  intro l
  induction l with
  | nil => intro t; exact Or.inl (by simp)
  | cons a l ih =>
    intro t
    have hone := reparentOne_nudged (p := p) (t := t) a c
    have hrest := ih (reparentOne p t a)
    rw [List.foldl_cons]
    by_cases hl : c ∈ l
    · rw [if_pos hl] at hrest
      rw [if_pos (List.mem_cons_of_mem _ hl)]
      refine Nudged.trans ?_ hrest
      have hadopted := hone.adopted (p := p)
      split at hadopted
      · rwa [adoptedByInit_idem hp] at hadopted
      · exact hadopted
    · rw [if_neg hl] at hrest
      refine Nudged.trans ?_ hrest
      simpa [hl] using hone

/-- If there was a child among them, `init` is not asleep on itself. -/
theorem foldl_awake (hp : p ≠ initproc) {q : Fin nproc} (hq : q ≠ p) :
    ∀ (l : List (Fin nproc)) (t : ProcTable), (∃ c ∈ l, (t c).parent = some p) →
      (l.foldl (reparentOne p) t q).state = .sleeping →
      (l.foldl (reparentOne p) t q).chan ≠ some (.proc initproc) := by
  intro l
  induction l with
  | nil => intro t h; simp at h
  | cons a l ih =>
    rintro t ⟨c, hc, hchild⟩ hs
    rw [List.foldl_cons] at hs ⊢
    by_cases ha : (t a).parent = some p
    · -- `a` goes to `init`, which is woken; the rest of the loop puts nobody to sleep
      have hone : reparentOne p t a =
          wakeup p (.proc initproc) (t.set a { t a with parent := some initproc }) := if_pos ha
      have hsame := (foldl_nudged hp q l (reparentOne p t a)).asleep hs
      rw [hsame] at hs ⊢
      have hfields : ∀ e : ProcEntry, (if q ∈ l then adoptedByInit p e else e).state = e.state ∧
          (if q ∈ l then adoptedByInit p e else e).chan = e.chan := by
        intro e
        split <;> exact ⟨rfl, rfl⟩
      rw [(hfields _).1, hone] at hs
      rw [(hfields _).2, hone]
      exact wakeup_awake hq hs
    · have hone : reparentOne p t a = t := if_neg ha
      rw [hone] at hs ⊢
      refine ih t ⟨c, ?_, hchild⟩ hs
      rcases List.mem_cons.mp hc with rfl | hc
      · exact absurd hchild ha
      · exact hc

/-- **What `kexit` leaves behind.** Its children are `init`'s, and whoever of its parent and
`init` has a new zombie or a new child is not asleep in `kwait`. -/
structure Exited (t : ProcTable) (p : Fin nproc) (t' : ProcTable) : Prop where
  self : (t' p).state = .zombie ∧ (t' p).serial = (t p).serial ∧ (t' p).pc = (t p).pc ∧
    (t' p).parent = (adoptedByInit p (t p)).parent
  others : ∀ c, c ≠ p → Nudged (adoptedByInit p (t c)) (t' c)
  initAwake : (∃ c, (t c).parent = some p) → ¬ t'.AsleepInWait initproc
  parentAwake : ∀ q, (adoptedByInit p (t p)).parent = some q → ¬ t'.AsleepInWait q

theorem wakeParent_nudged (c : Fin nproc) : Nudged (t c) (t.wakeParent p c) := by
  unfold wakeParent
  cases (t p).parent with
  | some q => exact wakeup_nudged ..
  | none => exact Or.inl rfl

theorem kexit_exited (hp : p ≠ initproc) (hrun : (t p).state = .running) (status : Int) :
    Exited t p (t.kexit p status) := by
  have hreparent : ∀ c, Nudged (adoptedByInit p (t c)) (t.reparent p c) := by
    intro c
    simpa [reparent] using foldl_nudged hp c (List.finRange nproc) t
  have hboth : ∀ c, Nudged (adoptedByInit p (t c)) ((t.reparent p).wakeParent p c) :=
    fun c => (hreparent c).trans (wakeParent_nudged c)
  -- the exiting process is running, so that nothing wakes it
  have hself : ∀ e', Nudged (adoptedByInit p (t p)) e' → e' = adoptedByInit p (t p) := by
    rintro e' (he | ⟨hs, _⟩)
    · exact he
    · rw [show (adoptedByInit p (t p)).state = (t p).state from rfl, hrun] at hs
      cases hs
  have hp1 := hself _ (hreparent p)
  have hp2 := hself _ (hboth p)
  have hne : ∀ c, c ≠ p → t.kexit p status c = (t.reparent p).wakeParent p c :=
    fun c hc => set_ne hc
  have hat : t.kexit p status p =
      { (t.reparent p).wakeParent p p with xstate := status, state := .zombie } := set_self
  have hzombie : ∀ q, (t.kexit p status).AsleepInWait q → q ≠ p := by
    rintro q ⟨hs, _⟩ rfl
    rw [hat] at hs
    cases hs
  constructor
  · rw [hat, hp2]
    exact ⟨rfl, rfl, rfl, rfl⟩
  · intro c hc
    rw [hne c hc]
    exact hboth c
  · rintro ⟨c, hc⟩ hasleep
    have hq := hzombie _ hasleep
    obtain ⟨hs, hchan⟩ := hasleep
    rw [hne _ hq] at hs hchan
    have hsame := (wakeParent_nudged (t := t.reparent p) (p := p) initproc).asleep hs
    rw [hsame] at hs hchan
    exact foldl_awake hp hq _ t ⟨c, List.mem_finRange c, hc⟩ hs hchan
  · intro q hparent hasleep
    have hq := hzombie _ hasleep
    obtain ⟨hs, hchan⟩ := hasleep
    rw [hne _ hq] at hs hchan
    have hwake : (t.reparent p).wakeParent p = wakeup p (.proc q) (t.reparent p) := by
      unfold wakeParent
      rw [hp1, hparent]
    rw [hwake] at hs hchan
    exact wakeup_awake hq hs hchan

end ProcTable

/-! ## The sections keep the invariants -/

section

variable {t t' : ProcTable} {p np : Fin nproc}

/-- The entries of a process and of a child of it have changed. -/
structure Both (t : ProcTable) (p c : Fin nproc) (e f : ProcEntry) (t' : ProcTable) : Prop where
  ne : p ≠ c
  self : t' p = e
  child : t' c = f
  others : ∀ x, x ≠ p → x ≠ c → t' x = t x

theorem both_set {f : ProcEntry} (hne : p ≠ np) : Both t p np e f ((t.set np f).set p e) :=
  ⟨hne, ProcTable.set_self, by rw [ProcTable.set_ne hne.symm, ProcTable.set_self],
    fun x hp hc => by rw [ProcTable.set_ne hp, ProcTable.set_ne hc]⟩

theorem TableOk.forked (h : TableOk t) (hrun : (t p).state = .running)
    (hnp : (t np).state = .unused) (hf : Both t p np { t p with pc := .forked np }
      { t np with state := .used, pid := pid, pc := .outside, serial := births } t') :
    TableOk t' := by
  obtain ⟨hinit, hfreed, hparent, hawake, hforking, hsingle⟩ := h
  obtain ⟨hne, hself, hchild, hoth⟩ := hf
  -- only the state of `np` changes, and `np` was not alive
  have hlive : ∀ c, (t c).state.Live → (t' c).state = (t c).state := by
    intro c hc
    by_cases hcp : c = p
    · rw [hcp, hself]
    · rw [hoth c hcp (by rintro rfl; rw [hnp] at hc; exact not_live.1 hc)]
  constructor
  · grind
  · grind
  · grind
  · grind [ProcTable.AsleepInWait]
  · grind [ProcEntry.Forking, ProcState.Live]
  · -- nobody was forking `np` before, as it was unused
    grind [ProcEntry.Forking, ProcState.Live]

theorem SerialsOk.forked {reaped : List (Nat × Nat)} (h : SerialsOk t births reaped)
    (hf : Both t p np { t p with pc := .forked np }
      { t np with state := .used, pid := pid, pc := .outside, serial := births } t') :
    SerialsOk t' (births + 1) reaped := by
  obtain ⟨hborn, hdistinct, hgone, honce⟩ := h
  obtain ⟨hne, hself, hchild, hoth⟩ := hf
  have hold : ∀ c, c ≠ np → (t' c).serial = (t c).serial ∧ (t' c).state = (t c).state := by
    grind
  refine ⟨?_, ?_, ?_, honce⟩
  · grind
  · -- the new number is above all others
    grind
  · grind

theorem TableOk.adopted (h : TableOk t) (hrun : (t p).state = .running)
    (hnp : (t p).pc = .forked np)
    (ha : Both t p np { t p with pc := .adopted np } { t np with parent := some p } t') :
    TableOk t' := by
  obtain ⟨hl, hused⟩ := h.forking p np (Or.inl hnp)
  obtain ⟨hinit, hfreed, hparent, hawake, hforking, hsingle⟩ := h
  obtain ⟨hne, hself, hchild, hoth⟩ := ha
  have hstate : ∀ c, (t' c).state = (t c).state := by grind
  constructor
  · grind
  · grind
  · grind [ProcState.Live]
  · grind [ProcTable.AsleepInWait]
  · grind [ProcEntry.Forking]
  · grind [ProcEntry.Forking]

theorem TableOk.launched (h : TableOk t) (hrun : (t p).state = .running)
    (hnp : (t p).pc = .adopted np)
    (ha : Both t p np { t p with pc := .outside } { t np with state := .runnable } t') :
    TableOk t' := by
  obtain ⟨hl, hused⟩ := h.forking p np (Or.inr hnp)
  obtain ⟨hinit, hfreed, hparent, hawake, hforking, hsingle⟩ := h
  obtain ⟨hne, hself, hchild, hoth⟩ := ha
  have hstate : ∀ c, c ≠ np → (t' c).state = (t c).state := by grind
  constructor
  · grind [ProcState.Live]
  · grind
  · grind [ProcState.Live]
  · grind [ProcTable.AsleepInWait]
  · -- no other process is forking `np`
    grind [ProcEntry.Forking, ProcState.Live]
  · grind [ProcEntry.Forking]

theorem TableOk.exited (h : TableOk t) (hrun : (t p).state = .running) (hpc : (t p).pc = .outside)
    (hp : p ≠ initproc) (he : ProcTable.Exited t p t') : TableOk t' := by
  obtain ⟨⟨hzombie, -, hpc', hpar'⟩, hothers, hinitAwake, hparentAwake⟩ := he
  have hlive : ∀ c, c ≠ p → (t c).state.Live → (t' c).state.Live :=
    fun c hc hl => (hothers c hc).touched.live hl
  have hparent' : ∀ c, (t' c).parent = (ProcTable.adoptedByInit p (t c)).parent := by
    intro c
    by_cases hc : c = p
    · rw [hc, hpar']
    · exact (hothers c hc).touched.parent
  have hback : ∀ c, c ≠ p → ∀ a, ¬ ProcState.Live a → ((t' c).state = a ↔ (t c).state = a) :=
    fun c hc a ha => (hothers c hc).touched.eq_iff ha
  have hcases : ∀ c q, (t' c).parent = some q →
      (t c).parent = some p ∧ q = initproc ∨ (t c).parent = some q ∧ q ≠ p := by
    intro c q hq
    rw [hparent' c, ProcTable.adoptedByInit] at hq
    dsimp only at hq
    split at hq
    · rename_i hc
      exact Or.inl ⟨hc, (Option.some.inj hq).symm⟩
    · rename_i hc
      exact Or.inr ⟨hq, fun e => hc (e ▸ hq)⟩
  have hforking' : ∀ r np, (t' r).Forking np → r ≠ p ∧ (t r).Forking np := by
    intro r np hr
    by_cases hrp : r = p
    · subst hrp
      rw [ProcEntry.Forking, hpc', hpc] at hr
      rcases hr with hr | hr <;> cases hr
    · exact ⟨hrp, (hothers r hrp).touched.forking np hr⟩
  refine ⟨hlive _ hp.symm h.init, ?_, ?_, ?_, ?_, ?_⟩
  · intro c hc
    have hcp : c ≠ p := by
      rintro rfl
      rw [hzombie] at hc
      cases hc
    have hnone := h.freed c ((hback c hcp _ not_live.1).mp hc)
    rw [hparent' c, ProcTable.adoptedByInit, hnone]
    rfl
  · intro c q hq
    rcases hcases c q hq with ⟨-, rfl⟩ | ⟨hq, hne⟩
    · exact hlive _ hp.symm h.init
    · exact hlive q hne (h.parent c q hq)
  · intro q c hasleep hq hz
    have hqp : q ≠ p := by
      rintro rfl
      rw [ProcTable.AsleepInWait, hzombie] at hasleep
      cases hasleep.1
    by_cases hc : c = p
    · subst hc
      exact hparentAwake q (hpar' ▸ hq) hasleep
    · rcases hcases c q hq with ⟨hchild, rfl⟩ | ⟨hq, -⟩
      · exact hinitAwake ⟨c, hchild⟩ hasleep
      · -- `q` was asleep before, and its child a zombie
        have hsame := (hothers q hqp).asleep hasleep.1
        have hbefore : t.AsleepInWait q := by
          rw [ProcTable.AsleepInWait, hsame] at hasleep
          exact hasleep
        exact h.awake q c hbefore hq ((hback c hc _ not_live.2.2).mp hz)
  · intro r np hr
    obtain ⟨hrp, hr⟩ := hforking' r np hr
    obtain ⟨hl, hused⟩ := h.forking r np hr
    have hnp : np ≠ p := by
      rintro rfl
      rw [hrun] at hused
      cases hused
    exact ⟨hlive r hrp hl, (hback np hnp _ not_live.2.1).mpr hused⟩
  · exact fun r q np hr hq => h.single r q np (hforking' r np hr).2 (hforking' q np hq).2

theorem TableOk.reaped (h : TableOk t) (hz : (t pp).state = .zombie)
    (hr : Both t p pp { t p with pc := .outside } (ProcTable.freed (t pp)) t') : TableOk t' := by
  obtain ⟨hinit, hfreed, hparent, hawake, hforking, hsingle⟩ := h
  obtain ⟨hne, hself, hchild, hoth⟩ := hr
  rw [ProcTable.freed] at hchild
  -- a zombie is nobody's parent, and nobody is forking it
  have hdead : ∀ c, (t c).state.Live → c ≠ pp := by
    rintro c hl rfl
    rw [hz] at hl
    exact not_live.2.2 hl
  have hstate : ∀ c, c ≠ pp → (t' c).state = (t c).state := by grind
  constructor
  · grind
  · grind
  · grind
  · grind [ProcTable.AsleepInWait]
  · grind [ProcEntry.Forking]
  · grind [ProcEntry.Forking]

theorem SerialsOk.reaped {reaped : List (Nat × Nat)} {r : Nat} (h : SerialsOk t births reaped)
    (hz : (t pp).state = .zombie)
    (hr : Both t p pp { t p with pc := .outside } (ProcTable.freed (t pp)) t') :
    SerialsOk t' births ((r, (t pp).serial) :: reaped) := by
  obtain ⟨hborn, hdistinct, hgone, honce⟩ := h
  obtain ⟨hne, hself, hchild, hoth⟩ := hr
  rw [ProcTable.freed] at hchild
  have hold : ∀ c, c ≠ pp → (t' c).serial = (t c).serial ∧ (t' c).state = (t c).state := by
    grind
  have hthere : (t pp).state ≠ .unused := by rw [hz]; decide
  refine ⟨?_, ?_, ?_, ?_⟩
  · grind
  · grind
  · intro x hx
    rcases List.mem_cons.mp hx with rfl | hx
    · -- the number leaves the table with the process
      exact ⟨hborn pp hthere, by grind⟩
    · exact ⟨(hgone x hx).1, by grind⟩
  · rw [List.map_cons, List.nodup_cons]
    refine ⟨fun hmem => ?_, honce⟩
    obtain ⟨x, hx, he⟩ := List.mem_map.mp hmem
    exact (hgone x hx).2 pp hthere he.symm

section

variable {forks reaps : List (Nat × Nat)} {orphans exits : List Nat}

theorem ParentsOk.forked (h : ParentsOk t forks orphans exits reaps) (ht : TableOk t)
    (hnp : (t np).state = .unused) (hf : Both t p np { t p with pc := .forked np }
      { t np with state := .used, pid := pid, pc := .outside, serial := births } t') :
    ParentsOk t' forks orphans exits reaps := by
  obtain ⟨hne, hself, hchild, hoth⟩ := hf
  have hnone := ht.freed np hnp
  have hdead : ∀ c, (t c).state.Live → c ≠ np := by
    rintro c hl rfl
    rw [hnp] at hl
    exact not_live.1 hl
  have hold : ∀ c, c ≠ np → (t' c).serial = (t c).serial ∧ (t' c).state = (t c).state := by grind
  have hparent : ∀ c, (t' c).parent = (t c).parent := by grind
  refine ⟨?_, ?_, ?_, h.reaped⟩
  · rw [(hold _ (hdead _ ht.init)).1]
    exact h.first
  · intro c hc
    have hcn : c ≠ np := by
      rintro rfl
      rw [hchild] at hc
      cases hc
    rw [(hold c hcn).1]
    exact h.exited c ((hold c hcn).2 ▸ hc)
  · intro c q hc
    rw [hparent] at hc
    have hcn : c ≠ np := by
      rintro rfl
      rw [hnone] at hc
      cases hc
    rw [(hold c hcn).1, (hold q (hdead q (ht.parent c q hc))).1]
    exact h.origin c q hc

theorem ParentsOk.adopted (h : ParentsOk t forks orphans exits reaps)
    (ha : Both t p np { t p with pc := .adopted np } { t np with parent := some p } t') :
    ParentsOk t' (((t p).serial, (t np).serial) :: forks) orphans exits reaps := by
  obtain ⟨hne, hself, hchild, hoth⟩ := ha
  have hold : ∀ c, (t' c).serial = (t c).serial ∧ (t' c).state = (t c).state := by grind
  have hparent : ∀ c, c ≠ np → (t' c).parent = (t c).parent := by grind
  refine ⟨(hold _).1.trans h.first, ?_, ?_, ?_⟩
  · intro c hc
    rw [(hold c).1]
    exact h.exited c ((hold c).2 ▸ hc)
  · intro c q hc
    rw [(hold c).1, (hold q).1]
    by_cases hcn : c = np
    · subst hcn
      rw [hchild] at hc
      obtain rfl := Option.some.inj hc
      exact Or.inl List.mem_cons_self
    · exact (h.origin c q (hparent c hcn ▸ hc)).imp_left (List.mem_cons_of_mem _)
  · intro r hr
    exact ⟨(h.reaped r hr).1, (h.reaped r hr).2.imp_left (List.mem_cons_of_mem _)⟩

theorem ParentsOk.launched (h : ParentsOk t forks orphans exits reaps)
    (ha : Both t p np { t p with pc := .outside } { t np with state := .runnable } t') :
    ParentsOk t' forks orphans exits reaps := by
  obtain ⟨hne, hself, hchild, hoth⟩ := ha
  have hold : ∀ c, (t' c).serial = (t c).serial ∧ (t' c).parent = (t c).parent := by grind
  refine ⟨(hold _).1.trans h.first, ?_, ?_, h.reaped⟩
  · intro c hc
    rw [(hold c).1]
    exact h.exited c (by grind)
  · intro c q hc
    rw [(hold c).1, (hold q).1]
    exact h.origin c q ((hold c).2 ▸ hc)

theorem ParentsOk.exit (h : ParentsOk t forks orphans exits reaps)
    (he : ProcTable.Exited t p t') {new : List Nat}
    (hnew : ∀ c, (t c).parent = some p → (t c).serial ∈ new) :
    ParentsOk t' forks (new ++ orphans) ((t p).serial :: exits) reaps := by
  obtain ⟨⟨-, hserial, -, hpar⟩, hothers, -, -⟩ := he
  have hold : ∀ c, (t' c).serial = (t c).serial ∧
      (t' c).parent = (ProcTable.adoptedByInit p (t c)).parent := by
    intro c
    by_cases hc : c = p
    · subst hc
      exact ⟨hserial, hpar⟩
    · exact ⟨(hothers c hc).touched.serial, (hothers c hc).touched.parent⟩
  refine ⟨(hold _).1.trans h.first, ?_, ?_, ?_⟩
  · intro c hc
    rw [(hold c).1]
    by_cases hcp : c = p
    · rw [hcp]
      exact List.mem_cons_self
    · exact List.mem_cons_of_mem _
        (h.exited c (((hothers c hcp).touched.eq_iff not_live.2.2).mp hc))
  · intro c q hc
    rw [(hold c).1, (hold q).1]
    rw [(hold c).2, ProcTable.adoptedByInit] at hc
    dsimp only at hc
    split at hc
    · rename_i hchild
      exact Or.inr ⟨(Option.some.inj hc).symm, List.mem_append_left _ (hnew c hchild)⟩
    · exact (h.origin c q hc).imp_right fun hi => ⟨hi.1, List.mem_append_right _ hi.2⟩
  · intro r hr
    obtain ⟨hexit, hby⟩ := h.reaped r hr
    exact ⟨List.mem_cons_of_mem _ hexit,
      hby.imp_right fun hi => ⟨hi.1, List.mem_append_right _ hi.2⟩⟩

theorem ParentsOk.reap (h : ParentsOk t forks orphans exits reaps) (hz : (t pp).state = .zombie)
    (hchild : (t pp).parent = some p)
    (hr : Both t p pp { t p with pc := .outside } (ProcTable.freed (t pp)) t') :
    ParentsOk t' forks orphans exits (((t p).serial, (t pp).serial) :: reaps) := by
  obtain ⟨hne, hself, hpp, hoth⟩ := hr
  rw [ProcTable.freed] at hpp
  have hold : ∀ c, (t' c).serial = (t c).serial := by grind
  refine ⟨(hold _).trans h.first, ?_, ?_, ?_⟩
  · intro c hc
    rw [hold c]
    exact h.exited c (by grind)
  · intro c q hc
    rw [hold c, hold q]
    exact h.origin c q (by grind)
  · intro r hr
    rcases List.mem_cons.mp hr with rfl | hr
    · refine ⟨h.exited pp hz, (h.origin pp p hchild).imp_right ?_⟩
      rintro ⟨rfl, hmem⟩
      exact ⟨h.first, hmem⟩
    · exact h.reaped r hr

end

end

/-! ## Along a run -/

theorem TableOk.awake_set (h : TableOk t)
    (he : e.state = .sleeping → e.chan = some (.proc p) → ∀ c, (t c).parent = some p →
      (t c).state ≠ .zombie) :
    ∀ q c, (t.set p e).AsleepInWait q → (t c).parent = some q → (t c).state ≠ .zombie := by
  intro q c hq
  by_cases hqp : q = p
  · subst hqp
    rw [ProcTable.AsleepInWait, ProcTable.set_self] at hq
    exact he hq.1 hq.2 c
  · rw [ProcTable.AsleepInWait, ProcTable.set_ne hqp] at hq
    exact h.awake q c hq

/-- A section that touches one entry. -/
theorem ProcOk.setEntry {n : Nat} (h : ProcOk s) (ht : Touched (s.proc p) e)
    (he : e.state = .sleeping → e.chan = some (.proc p) → ∀ c, (s.proc c).parent = some p →
      (s.proc c).state ≠ .zombie) :
    ProcOk { s with proc := s.proc.set p e, nextpid := n } := by
  have hall := ProcTable.set_touched ht
  exact ⟨h.table.touched hall (h.table.awake_set he),
    h.serials.congr (fun c => (hall c).serial) fun c => ((hall c).eq_iff not_live.1).mpr,
    h.parents.touched hall⟩

theorem exitedChild_some (h : t.exitedChild p = some pp) :
    (t pp).parent = some p ∧ (t pp).state = .zombie := by
  simpa using List.find?_some h

theorem exitedChild_none (h : t.exitedChild p = none) (c : Fin nproc) (hc : (t c).parent = some p) :
    (t c).state ≠ .zombie := by
  have hno := List.find?_eq_none.mp h c (List.mem_finRange c)
  simpa [hc] using hno

theorem ProcOk.fork {np : Fin nproc} (h : ProcOk s) (hrun : (s.proc p).state = .running)
    (hnp : (s.proc np).state = .unused) (memory : Bool) :
    ProcOk (s.fork p np memory) := by
  have hne : p ≠ np := by
    rintro rfl
    rw [hrun] at hnp
    cases hnp
  unfold ProcSys.fork
  cases memory with
  | true =>
    simp only [if_true, ProcTable.set_ne hne]
    have hboth := both_set (t := s.proc) (e := { s.proc p with pc := .forked np })
      (f := { s.proc np with state := .used, pid := s.nextpid, pc := .outside, serial := s.births })
      hne
    exact ⟨h.table.forked hrun hnp hboth, h.serials.forked hboth,
      h.parents.forked h.table hnp hboth⟩
  | false =>
    have hnone := h.table.freed np hnp
    refine h.setEntry ⟨Or.inl hnp.symm, hnone.symm, rfl, ?_⟩ (fun hs => by cases hs)
    rintro x (hx | hx) <;> cases hx

theorem ProcOk.kwait (h : ProcOk s) (hrun : (s.proc p).state = .running) (copied : Bool) :
    ProcOk (s.kwait p copied) := by
  -- `kwait` leaves the loop, or stays in it
  have hleave : ProcOk (s.setEntry p { s.proc p with pc := .outside }) := by
    refine h.setEntry ⟨Or.inl rfl, rfl, rfl, ?_⟩ (fun hs => by rw [hrun] at hs; cases hs)
    rintro x (hx | hx) <;> cases hx
  unfold ProcSys.kwait
  dsimp only
  split
  · rename_i pp hpp
    obtain ⟨hchild, hz⟩ := exitedChild_some hpp
    split
    · have hne : p ≠ pp := by
        rintro rfl
        rw [hrun] at hz
        cases hz
      have hboth := both_set (t := s.proc) (e := { s.proc p with pc := .outside })
        (f := ProcTable.freed (s.proc pp)) hne
      exact ⟨h.table.reaped hz hboth, h.serials.reaped hz hboth, h.parents.reap hz hchild hboth⟩
    · exact hleave
  · rename_i hnone
    split
    · exact hleave
    · refine h.setEntry ⟨Or.inr ⟨Or.inr (Or.inr hrun), Or.inl rfl⟩, rfl, rfl, ?_⟩
        fun _ _ => exitedChild_none hnone
      rintro x (hx | hx) <;> cases hx

/-- **Every section keeps the invariant.** -/
theorem ProcOk.step {s' : ProcSys} {a : ProcAct} (h : ProcOk s) (hstep : s.step a = some s') :
    ProcOk s' := by
  cases a with
  | schedule p =>
    simp only [ProcSys.step] at hstep
    split at hstep <;> cases hstep
    rename_i hs
    exact h.setEntry ⟨Or.inr ⟨Or.inr (Or.inl hs), Or.inr (Or.inr rfl)⟩, rfl, rfl, fun _ hf => hf⟩
      (fun hs => by cases hs)
  | yield p =>
    simp only [ProcSys.step] at hstep
    split at hstep <;> cases hstep
    rename_i hs
    exact h.setEntry ⟨Or.inr ⟨Or.inr (Or.inr hs), Or.inr (Or.inl rfl)⟩, rfl, rfl, fun _ hf => hf⟩
      (fun hs => by cases hs)
  | sleep p addr =>
    simp only [ProcSys.step] at hstep
    split at hstep <;> cases hstep
    rename_i hs
    exact h.setEntry ⟨Or.inr ⟨Or.inr (Or.inr hs), Or.inl rfl⟩, rfl, rfl, fun _ hf => hf⟩
      (fun _ hc => by cases hc)
  | wakeup p addr =>
    simp only [ProcSys.step] at hstep
    split at hstep <;> cases hstep
    rename_i hs
    exact h.setEntry ⟨Or.inr ⟨Or.inl hs.1, Or.inr (Or.inl rfl)⟩, rfl, rfl, fun _ hf => hf⟩
      (fun hs => by cases hs)
  | fork p np memory =>
    simp only [ProcSys.step] at hstep
    split at hstep <;> cases hstep
    rename_i hs
    exact h.fork hs.1 hs.2.2 memory
  | adopt p =>
    simp only [ProcSys.step] at hstep
    split at hstep <;> cases hstep
    rename_i np hrun hpc
    have hne : p ≠ np := by
      rintro rfl
      have hused := (h.table.forking p p (Or.inl hpc)).2
      rw [hrun] at hused
      cases hused
    simp only [ProcTable.set_ne hne]
    have hboth := both_set (t := s.proc) (e := { s.proc p with pc := .adopted np })
      (f := { s.proc np with parent := some p }) hne
    exact ⟨h.table.adopted hrun hpc hboth, h.serials.congr (by grind [Both]) (by grind [Both]),
      h.parents.adopted hboth⟩
  | launch p =>
    simp only [ProcSys.step] at hstep
    split at hstep <;> cases hstep
    rename_i np hrun hpc
    have hused := (h.table.forking p np (Or.inr hpc)).2
    have hne : p ≠ np := by
      rintro rfl
      rw [hrun] at hused
      cases hused
    simp only [ProcTable.set_ne hne]
    have hboth := both_set (t := s.proc) (e := { s.proc p with pc := .outside })
      (f := { s.proc np with state := .runnable }) hne
    exact ⟨h.table.launched hrun hpc hboth, h.serials.congr (by grind [Both]) (by grind [Both]),
      h.parents.launched hboth⟩
  | kexit p status =>
    simp only [ProcSys.step] at hstep
    split at hstep <;> cases hstep
    rename_i hs
    obtain ⟨hrun, hpc, hp⟩ := hs
    have he := ProcTable.kexit_exited hp hrun status
    refine ⟨h.table.exited hrun hpc hp he, h.serials.congr ?_ ?_, h.parents.exit he ?_⟩
    · intro c
      by_cases hc : c = p
      · rw [hc]
        exact he.self.2.1
      · exact (he.others c hc).touched.serial
    · intro c hu
      have hc : c ≠ p := by
        rintro rfl
        rw [hrun] at hu
        cases hu
      exact ((he.others c hc).touched.eq_iff not_live.1).mpr hu
    · intro c hc
      refine List.mem_map_of_mem (List.mem_filter.mpr ⟨List.mem_finRange c, ?_⟩)
      exact beq_iff_eq.mpr hc
  | kwait p copied =>
    simp only [ProcSys.step] at hstep
    split at hstep <;> cases hstep
    rename_i hs
    exact h.kwait hs.1 copied
  | kkill pid p =>
    simp only [ProcSys.step] at hstep
    split at hstep <;> cases hstep
    refine h.setEntry ⟨?_, rfl, rfl, fun _ hf => hf⟩ fun hs => ?_
    · by_cases hsleep : (s.proc p).state = .sleeping
      · exact Or.inr ⟨Or.inl hsleep, Or.inr (Or.inl (if_pos hsleep))⟩
      · exact Or.inl (if_neg hsleep)
    · -- a process that is killed does not stay asleep
      dsimp only at hs
      split at hs
      · cases hs
      · exact absurd hs ‹_›
  | setkilled p =>
    cases hstep
    refine h.setEntry ⟨Or.inl rfl, rfl, rfl, fun _ hf => hf⟩ fun hs hc c => ?_
    exact h.table.awake p c ⟨hs, hc⟩

theorem ProcOk.start : ProcOk ProcSys.start := by
  have hstate : ∀ c, c ≠ initproc → (ProcTable.start c).state = .unused := fun c hc => if_neg hc
  have honly : ∀ c, (ProcTable.start c).state ≠ .unused → c = initproc :=
    fun c hc => by_contra fun h => hc (hstate c h)
  have hzombie : ∀ c, (ProcTable.start c).state ≠ .zombie := by
    intro c
    unfold ProcTable.start
    dsimp only
    split <;> exact fun h => by cases h
  refine ⟨⟨Or.inr (Or.inl rfl), fun _ _ => rfl, ?_, ?_, ?_, ?_⟩, ⟨?_, ?_, ?_, List.nodup_nil⟩,
    ⟨rfl, ?_, ?_, ?_⟩⟩
  · intro c q hc
    cases hc
  · intro p c _ hc
    cases hc
  · rintro p np (hp | hp) <;> cases hp
  · rintro p q np (hp | hp) <;> cases hp
  · exact fun _ _ => Nat.one_pos
  · exact fun a b ha hb _ => (honly a ha).trans (honly b hb).symm
  · intro r hr
    cases hr
  · exact fun c hc => absurd hc (hzombie c)
  · intro c q hc
    cases hc
  · intro r hr
    cases hr

/-- Every interleaving of the sections. -/
abbrev ProcRun (s : ProcSys) : Prop :=
  Reach ProcSys.step (fun s => s = ProcSys.start) (fun _ _ => True) s

theorem ProcRun.ok (h : ProcRun s) : ProcOk s :=
  h.keeps (fun _ h => h ▸ ProcOk.start) fun _ _ _ hok _ hstep => hok.step hstep

/-- **Exit, wait and reparent lose nobody.** In every state of every interleaving: no
process that is unused or a zombie is the parent of one that is in use; no process asleep
in `kwait` has a zombie child; and of the processes that have exited each is collected at
most once, by the process that forked it or, after it was reparented, by `init`. -/
theorem exit_wait_lose_nobody {s : ProcSys} (h : ProcRun s) :
    (∀ c q, (s.proc c).state ≠ .unused → (s.proc c).parent = some q →
      (s.proc q).state ≠ .unused ∧ (s.proc q).state ≠ .zombie) ∧
    (∀ p c, (s.proc p).state = .sleeping → (s.proc p).chan = some (.proc p) →
      (s.proc c).parent = some p → (s.proc c).state ≠ .zombie) ∧
    (s.reaped.map Prod.snd).Nodup ∧
    (∀ r ∈ s.reaped, r.2 ∈ s.exited ∧
      (r ∈ s.forked ∨ r.1 = (s.proc initproc).serial ∧ r.2 ∈ s.reparented)) := by
  obtain ⟨htable, hserials, hparents⟩ := h.ok
  refine ⟨fun c q _ hq => ?_, fun p c hs hc => htable.awake p c ⟨hs, hc⟩, hserials.once, ?_⟩
  · have hne := (htable.parent c q hq).ne
    exact ⟨hne.1, hne.2.2⟩
  · rw [hparents.first]
    exact hparents.reaped

/-- `init` forks a process and waits; the process forks another and exits; `init` collects
the first, and the second once it has exited too. -/
def twoGenerations : List ProcAct :=
  [.schedule 0, .fork 0 1 true, .adopt 0, .launch 0, .kwait 0 true, .schedule 1, .fork 1 2 true,
    .adopt 1, .launch 1, .kexit 1 0, .schedule 0, .kwait 0 true, .schedule 2, .kexit 2 0,
    .kwait 0 true]

theorem exit_wait_lose_nobody_two_generations : ∃ s, ProcRun s ∧ s.reaped = [(0, 2), (0, 1)] ∧
    s.forked = [(1, 2), (0, 1)] ∧ (∀ r ∈ s.reaped, r.2 ∈ s.exited) ∧ 2 ∈ s.reparented := by
  have hrun : (replay ProcSys.step (fun _ _ => true) ProcSys.start twoGenerations).map
      (fun s => (s.reaped, s.forked)) = some ([(0, 2), (0, 1)], [(1, 2), (0, 1)]) := by
    decide +kernel
  obtain ⟨s, hs, hfacts⟩ := Option.map_eq_some_iff.mp hrun
  obtain ⟨hreaped, hforked⟩ := Prod.mk.inj hfacts
  have hr : ProcRun s := replay_reach (fun _ _ _ => trivial) (.init rfl) hs
  have hall := (exit_wait_lose_nobody hr).2.2.2
  refine ⟨s, hr, hreaped, hforked, fun r hr => (hall r hr).1, ?_⟩
  -- `init` did not fork the second process, so it was given it
  have htwo := (hall (0, 2) (by rw [hreaped]; decide)).2
  rw [hforked] at htwo
  exact (htwo.resolve_left (by decide)).2

end Xv6Paging
