import Xv6Paging.Lib.Machine

/-!
# Sleep and wakeup

A monitor is a value that is changed under a lock. An operation waits until it is not blocked,
changes the value, and may then wake those that wait. Who has to wait takes a lock of their own,
lets go of that of the monitor, and falls asleep; who wakes goes through the processes in order,
under the own lock of each. No wakeup is lost: when the lock of the monitor is free, whoever sleeps
is blocked.
-/

namespace Xv6Paging.Lib

variable {σ O : Type} {n : Nat}

/-- The operations on a value of `σ`, for `n` processes. -/
structure Monitor (σ O : Type) (n : Nat) where
  blocked : O → σ → Bool
  body : Fin n → O → σ → σ
  wakes : O → σ → Bool

/-- Where a process is. -/
inductive Place (O : Type) where
  | out
  /-- It waits for the lock of the monitor. -/
  | enters (o : O)
  | inside (o : O)
  /-- It has its own lock as well. -/
  | dozes (o : O)
  /-- It has only its own lock left. -/
  | drops (o : O)
  | asleep (o : O)
  | ready (o : O)
  /-- It wakes the processes from `i` on. -/
  | rouses (i : Nat)

namespace Place

/-- It has the lock of the monitor. -/
@[grind =]
def locks : Place O → Bool
  | .inside _ | .dozes _ | .rouses _ => true
  | _ => false

/-- It sleeps, or is about to. -/
@[grind =]
def rests (x : Place O) (o : O) : Prop := x = .drops o ∨ x = .asleep o

/-- The operation it is in. -/
@[grind =]
def op : Place O → Option O
  | .enters o | .inside o | .dozes o | .drops o | .asleep o | .ready o => some o
  | _ => none

end Place

/-- A monitor in use. -/
structure Monitored (σ O : Type) (n : Nat) where
  val : σ
  lock : Option (Fin n)
  place : Fin n → Place O

/-- What a process can do next; `kick` is that somebody else wakes it. -/
inductive MonitorAct (O : Type) (n : Nat) where
  | call (p : Fin n) (o : O)
  | acquire (p : Fin n)
  | test (p : Fin n)
  | release (p : Fin n)
  | sleep (p : Fin n)
  | kick (p : Fin n)
  | resume (p : Fin n)
  | wake (p : Fin n)

def Monitored.put (s : Monitored σ O n) (p : Fin n) (x : Place O) : Monitored σ O n :=
  { s with place := Function.update s.place p x }

namespace Monitor

variable {m : Monitor σ O n} {s t : Monitored σ O n} {p q : Fin n} {o : O}

/-- One step; nothing where a process has to wait. -/
def step (m : Monitor σ O n) (s : Monitored σ O n) : MonitorAct O n → Option (Monitored σ O n)
  | .call p o =>
    match s.place p with
    | .out => some (s.put p (.enters o))
    | _ => none
  | .acquire p =>
    match s.place p, s.lock with
    | .enters o, none => some { s.put p (.inside o) with lock := some p }
    | _, _ => none
  | .test p =>
    match s.place p with
    | .inside o =>
      if m.blocked o s.val then some (s.put p (.dozes o))
      else if m.wakes o s.val then some { s.put p (.rouses 0) with val := m.body p o s.val }
      else some { s.put p .out with val := m.body p o s.val, lock := none }
    | _ => none
  | .release p =>
    match s.place p with
    | .dozes o => some { s.put p (.drops o) with lock := none }
    | _ => none
  | .sleep p =>
    match s.place p with
    | .drops o => some (s.put p (.asleep o))
    | _ => none
  | .kick p =>
    match s.place p with
    | .asleep o => some (s.put p (.ready o))
    | _ => none
  | .resume p =>
    match s.place p with
    | .ready o => some (s.put p (.enters o))
    | _ => none
  | .wake p =>
    match s.place p with
    | .rouses i =>
      if h : i < n then
        if i = p.val then some (s.put p (.rouses (i + 1)))
        else
          match s.place ⟨i, h⟩ with
          | .dozes _ | .drops _ => none
          | .asleep o => some ((s.put ⟨i, h⟩ (.ready o)).put p (.rouses (i + 1)))
          | _ => some (s.put p (.rouses (i + 1)))
      else some { s.put p .out with lock := none }
    | _ => none

@[simp, grind =]
theorem put_place (x : Place O) : (s.put p x).place q = if q = p then x else s.place q :=
  Function.update_apply ..

@[simp, grind =]
theorem put_val (x : Place O) : (s.put p x).val = s.val := rfl

@[simp, grind =]
theorem put_lock (x : Place O) : (s.put p x).lock = s.lock := rfl

/-- Between a call and the change of the value, the value and the operation stay what they are. -/
theorem step_cases {a : MonitorAct O n} (h : m.step s a = some t) :
    (t.val = s.val ∧ ∀ q o, (t.place q).op = some o → (s.place q).op = some o ∨ a = .call q o) ∨
    ∃ p o, s.place p = .inside o ∧ m.blocked o s.val = false ∧ t.val = m.body p o s.val ∧
      ∀ q o, (t.place q).op = some o → q ≠ p ∧ (s.place q).op = some o := by
  unfold step at h
  cases a with
  | test p =>
    dsimp only at h
    split at h
    · rename_i o hp
      split at h
      · cases h
        refine .inl ⟨rfl, ?_⟩
        grind
      · refine .inr ⟨p, o, hp, ?_⟩
        split at h <;> cases h <;> grind
    · nomatch h
  | _ =>
    dsimp only at h
    repeat' split at h
    all_goals cases h
    all_goals exact .inl ⟨rfl, by grind⟩

/-- An operation after which another one is no longer blocked wakes those that wait. -/
def Sound (m : Monitor σ O n) : Prop :=
  ∀ p o o' v, m.blocked o' v = false → m.blocked o v = true → m.blocked o (m.body p o' v) = false →
    m.wakes o' v = true

/-- Whoever rests is blocked, or there is somebody on the way to wake them. -/
structure Inv (m : Monitor σ O n) (s : Monitored σ O n) : Prop where
  lock : ∀ p, (s.place p).locks = true ↔ s.lock = some p
  dozes : ∀ p o, s.place p = .dozes o → m.blocked o s.val = true
  rests : ∀ p o, (s.place p).rests o → m.blocked o s.val = true ∨
    ∃ q i, s.place q = .rouses i ∧ i ≤ p.val

/-- Nobody is inside. -/
def Idle (s : Monitored σ O n) : Prop := s.lock = none ∧ ∀ p, s.place p = .out

theorem Idle.inv (h : Idle s) : m.Inv s := by
  refine ⟨fun p => ?_, fun p o hp => ?_, fun p o hp => ?_⟩
  · rw [h.1, h.2]
    exact iff_of_false Bool.false_ne_true (fun he => nomatch he)
  · rw [h.2] at hp
    nomatch hp
  · rw [h.2] at hp
    rcases hp with hp | hp <;> nomatch hp

/-- Only one process has the lock. -/
theorem Inv.inside (h : m.Inv s) (hp : (s.place p).locks = true) :
    ∀ q, (s.place q).locks = true → q = p :=
  fun q hq => Option.some.inj (((h.lock q).mp hq).symm.trans ((h.lock p).mp hp))

/-- A process moves that does not wake anybody, and the value stays: it rests for a reason. -/
theorem Inv.put (h : m.Inv s) {x : Place O} {lock : Option (Fin n)}
    (hlock : ∀ q, ((s.put p x).place q).locks = true ↔ lock = some q)
    (hdozes : ∀ o, x = .dozes o → m.blocked o s.val = true)
    (hrests : ∀ o, x.rests o → m.blocked o s.val = true ∨ (s.place p).rests o)
    (hrouses : ∀ i, s.place p ≠ .rouses i) : m.Inv { s.put p x with lock := lock } := by
  refine ⟨hlock, fun q o hq => ?_, fun q o hq => ?_⟩
  · grind [h.dozes q o]
  · have hrest : m.blocked o s.val = true ∨ (s.place q).rests o := by grind
    rcases hrest with hb | hrest
    · exact .inl hb
    · exact (h.rests q o hrest).imp_right fun ⟨r, i, hr, hi⟩ => ⟨r, i, by grind, hi⟩

/-- An operation changes the value: it wakes, or nobody is there for whom it matters. -/
theorem Inv.body (h : m.Inv s) (hm : m.Sound) (hp : s.place p = .inside o)
    (hb : m.blocked o s.val = false) {x : Place O} {lock : Option (Fin n)}
    (hlock : ∀ q, ((s.put p x).place q).locks = true ↔ lock = some q)
    (hx : x = .out ∧ m.wakes o s.val = false ∨ x = .rouses 0) :
    m.Inv { s.put p x with val := m.body p o s.val, lock := lock } := by
  have hinside := h.inside (p := p) (by rw [hp]; rfl)
  refine ⟨hlock, fun q o' hq => ?_, fun q o' hq => ?_⟩
  · grind
  · rcases hx with ⟨rfl, hw⟩ | rfl
    · -- nobody else has the lock, so whoever rests was blocked, and still is
      rcases h.rests q o' (by grind) with hblocked | ⟨r, i, hr, -⟩
      · refine .inl (Bool.of_not_eq_false fun hfree => ?_)
        exact Bool.false_ne_true (hw.symm.trans (hm p o' o s.val hb hblocked hfree))
      · grind
    · exact .inr ⟨p, 0, by grind, Nat.zero_le _⟩

/-- A round of waking: the process it was at does not rest any more. -/
theorem Inv.wake (h : m.Inv s) {i : Nat} (hp : s.place p = .rouses i) {place : Fin n → Place O}
    (hself : place p = .rouses (i + 1))
    (hplace : ∀ q, q ≠ p → place q = s.place q ∧ (q.val = i → ∀ o, ¬ (s.place q).rests o) ∨
      ∃ o, s.place q = .asleep o ∧ place q = .ready o) :
    m.Inv { s with place := place } := by
  have hinside := h.inside (p := p) (by rw [hp]; rfl)
  refine ⟨fun q => ?_, fun q o hq => ?_, fun q o hq => ?_⟩
  · grind [h.lock q, hplace q]
  · grind [h.dozes q o, hplace q]
  · have hq' : (s.place q).rests o ∧ q.val ≠ i := by grind [hplace q]
    refine (h.rests q o hq'.1).imp_right fun ⟨r, j, hr, hj⟩ => ⟨p, i + 1, hself, ?_⟩
    grind

/-- **Each step** keeps it. -/
theorem Inv.step {a : MonitorAct O n} (h : m.Inv s) (hm : m.Sound) (hs : m.step s a = some t) :
    m.Inv t := by
  have hlock := h.lock
  unfold Monitor.step at hs
  cases a with
  | call p o | acquire p | release p | sleep p | kick p | resume p =>
    dsimp only at hs
    split at hs
    · cases hs
      refine h.put ?_ ?_ ?_ ?_ <;> grind [h.dozes p]
    · nomatch hs
  | test p =>
    dsimp only at hs
    split at hs
    · split at hs
      · cases hs
        refine h.put ?_ ?_ ?_ ?_ <;> grind
      · split at hs
        · cases hs
          refine h.body hm ‹_› (by grind) ?_ (.inr rfl)
          grind
        · cases hs
          refine h.body hm ‹_› (by grind) ?_ (.inl ⟨rfl, by grind⟩)
          grind
    · nomatch hs
  | wake p =>
    dsimp only at hs
    split at hs
    · rename_i i hp
      split at hs
      · split at hs
        · cases hs
          exact h.wake hp (by grind) (by grind)
        · split at hs
          · nomatch hs
          · nomatch hs
          · cases hs
            exact h.wake hp (by grind) (by grind)
          · cases hs
            exact h.wake hp (by grind) (by grind)
      · cases hs
        have hinside := h.inside (p := p) (by rw [hp]; rfl)
        refine ⟨by grind, fun q o hq => ?_, fun q o hq => ?_⟩
        · grind [h.dozes q o]
        · exact .inl ((h.rests q o (by grind)).resolve_right fun ⟨r, j, hr, hj⟩ => by grind)
    · nomatch hs

/-- **No wakeup is lost**: with the lock free, whoever sleeps, or is about to, is blocked. -/
theorem blocked_of_rests {init : Monitored σ O n → Prop}
    {C : Monitored σ O n → MonitorAct O n → Prop} (hm : m.Sound) (hinit : ∀ s, init s → Idle s)
    (h : Reach m.step init C s) (hfree : s.lock = none) (hp : (s.place p).rests o) :
    m.blocked o s.val = true := by
  have hinv : m.Inv s := h.keeps (fun s hs => (hinit s hs).inv) fun _ _ _ hinv _ hs =>
    hinv.step hm hs
  refine (hinv.rests p o hp).resolve_right fun ⟨q, i, hq, _⟩ => ?_
  have hlock := (hinv.lock q).mp (by rw [hq]; rfl)
  rw [hfree] at hlock
  nomatch hlock

end Monitor

end Xv6Paging.Lib
