import Xv6Paging.Kernel.Sleep

/-!
# Sleep-locks exclude, and nobody sleeps on
-/

namespace Xv6Paging

open Lib

theorem sleepLock_sound (n : Nat) : (sleepLock n).Sound := by
  intro p o o' v _ hblocked hfree
  cases o' with
  | acquiresleep =>
    cases o with
    | acquiresleep => exact absurd hfree Bool.noConfusion
    | releasesleep => exact absurd hblocked Bool.noConfusion
  | releasesleep => rfl

/-- The owner is the one in the lock, and only an owner is in `releasesleep`. -/
structure SleepOk {n : Nat} (s : Monitored (SleepLock n) SleepOp n) : Prop where
  owner : ∀ p, s.val.owners p = true ↔ s.val.locked = true ∧ s.val.pid = some p
  releases : ∀ p, (s.place p).op = some .releasesleep → s.val.owners p = true

theorem SleepOk.step {n : Nat} {s t : Monitored (SleepLock n) SleepOp n} {a : MonitorAct SleepOp n}
    (h : SleepOk s) (hallowed : sleepAllowed s a = true) (hs : (sleepLock n).step s a = some t) :
    SleepOk t := by
  rcases Monitor.step_cases hs with ⟨hval, hops⟩ | ⟨p, o, hp, hfree, hval, hops⟩
  · refine ⟨hval ▸ h.owner, fun q hq => ?_⟩
    rw [hval]
    rcases hops q _ hq with hq | rfl
    · exact h.releases q hq
    · exact hallowed
  · cases o with
    | acquiresleep =>
      -- the lock was free, so nobody owned it
      have hnone : ∀ q, s.val.owners q = false := fun q => Bool.eq_false_of_not_eq_true fun hq =>
        Bool.false_ne_true (hfree.symm.trans ((h.owner q).mp hq).1)
      refine ⟨fun q => ?_, fun q hq => ?_⟩
      · rw [hval]
        show Function.update s.val.owners p true q = true ↔ true = true ∧ some p = some q
        rw [Function.update_apply]
        grind
      · exact absurd (h.releases q (hops q _ hq).2) (by rw [hnone q]; exact Bool.false_ne_true)
    | releasesleep =>
      have hpid := ((h.owner p).mp (h.releases p (by rw [hp]; rfl))).2
      have honly : ∀ q, s.val.owners q = true → q = p := fun q hq =>
        Option.some.inj (((h.owner q).mp hq).2.symm.trans hpid)
      refine ⟨fun q => ?_, fun q hq => ?_⟩
      · rw [hval]
        show Function.update s.val.owners p false q = true ↔ false = true ∧ none = some q
        rw [Function.update_apply]
        grind
      · obtain ⟨hne, hq⟩ := hops q _ hq
        exact absurd (honly q (h.releases q hq)) hne

/-- **Sleep-locks exclude, and free ones leave nobody asleep.** Among the processes at most one has
returned from `acquiresleep` without releasing, and `holdingsleep` tells which; when neither the
lock nor its spinlock is taken, nobody sleeps or is about to, however `sleep`, `wakeup` and `kkill`
have run into each other. -/
theorem sleeplock_excludes {n : Nat} {s : Monitored (SleepLock n) SleepOp n}
    (h : Reach (sleepLock n).step SleepStart (fun s a => sleepAllowed s a = true) s) :
    (∀ p q, s.val.owners p = true → s.val.owners q = true → p = q) ∧
    (∀ p, s.val.holdingsleep p = s.val.owners p) ∧
    (s.lock = none → s.val.locked = false → ∀ p o, ¬ (s.place p).rests o) := by
  have hok : SleepOk s := by
    refine h.keeps (fun s hs => ?_) fun _ _ _ hok hallowed hs => hok.step hallowed hs
    refine ⟨fun p => ?_, fun p hp => ?_⟩
    · rw [hs.2]
      exact iff_of_false Bool.false_ne_true fun hl => nomatch hl.1
    · rw [hs.1.2] at hp
      nomatch hp
  refine ⟨fun p q hp hq => ?_, fun p => ?_, fun hfree hunlocked p o hp => ?_⟩
  · exact Option.some.inj (((hok.owner p).mp hp).2.symm.trans ((hok.owner q).mp hq).2)
  · rw [Bool.eq_iff_iff, hok.owner p, SleepLock.holdingsleep, Bool.and_eq_true, beq_iff_eq]
  · have hblocked := Monitor.blocked_of_rests (sleepLock_sound n) (fun _ hs => hs.1) h hfree hp
    cases o with
    | acquiresleep => exact Bool.false_ne_true (hunlocked.symm.trans hblocked)
    | releasesleep => nomatch hblocked

/-- A process has the lock, another one sleeps for it, and a third is on its way. -/
theorem sleeplock_excludes_three : ∃ s : Monitored (SleepLock 3) SleepOp 3,
    s.place 1 = .asleep .acquiresleep ∧ s.val.holdingsleep 0 = s.val.owners 0 := by
  have hrun : (replay (sleepLock 3).step sleepAllowed
      ⟨⟨false, none, fun _ => false⟩, none, fun _ => .out⟩
      [.call 0 .acquiresleep, .call 1 .acquiresleep, .call 2 .acquiresleep, .acquire 0, .test 0,
        .acquire 1, .test 1, .release 1, .sleep 1]).map (fun s => s.place 1) =
      some (.asleep .acquiresleep) := rfl
  obtain ⟨s, hs, hasleep⟩ := Option.map_eq_some_iff.mp hrun
  have hreach : Reach (sleepLock 3).step SleepStart (fun s a => sleepAllowed s a = true) s :=
    replay_reach (fun _ _ h => h) (.init ⟨⟨rfl, fun _ => rfl⟩, rfl⟩) hs
  exact ⟨s, hasleep, (sleeplock_excludes hreach).2.1 0⟩

/-! ## The log -/

theorem logMonitor_sound (n : Nat) : (logMonitor n).Sound := by
  intro p o o' v hb hblocked hfree
  cases o with
  | beginOp =>
    cases o' with
    | beginOp => exact absurd (hb.symm.trans hblocked) Bool.false_ne_true
    | logWrite b =>
      -- the log only fills up
      have hgrows : (beginOp ((logWrite v b).toOption.getD v)).isNone = true := by
        have hblocked : (beginOp v).isNone = true := hblocked
        grind [beginOp, logWrite, Except.toOption]
      exact absurd (hfree.symm.trans hgrows) Bool.false_ne_true
    | endOp =>
      -- the last operation does not wake, but then there is the commit
      have hblocked : (beginOp v).isNone = true := hblocked
      have hfree : (beginOp (((endOp v).toOption.map Prod.snd).getD v)).isNone = false := hfree
      show ((endOp v).toOption.any fun r => !r.1) = true
      grind [beginOp, endOp, Except.toOption]
    | commit => rfl
  | _ => nomatch hblocked

/-- **Nobody is left asleep in `begin_op`**: with `log.lock` free, whoever sleeps there, or is about
to, would have to wait again, because there is a commit or because the log might run out of
space. -/
theorem begin_op_wakes {n : Nat} {s : Monitored Log LogOp n}
    (h : Reach (logMonitor n).step Monitor.Idle (fun _ _ => True) s) (hfree : s.lock = none)
    {p : Fin n} {o : LogOp} (hp : (s.place p).rests o) :
    s.val.committing = true ∨
    (logBlocks : Int) < s.val.lh.n + (s.val.outstanding + 1) * maxOpBlocks := by
  have hblocked := Monitor.blocked_of_rests (logMonitor_sound n) (fun _ hs => hs) h hfree hp
  cases o with
  | beginOp =>
    have hblocked : (beginOp s.val).isNone = true := hblocked
    grind [beginOp]
  | _ => nomatch hblocked

/-- Three operations fill the log, and a fourth one sleeps. -/
theorem begin_op_wakes_fourth : ∃ s : Monitored Log LogOp 4, s.place 3 = .asleep .beginOp ∧
    (s.val.committing = true ∨
      (logBlocks : Int) < s.val.lh.n + (s.val.outstanding + 1) * maxOpBlocks) := by
  have hrun : (replay (logMonitor 4).step (fun _ _ => true) ⟨⟨0, false, ⟨0, fun _ => 0⟩⟩, none,
      fun _ => .out⟩
        (((List.finRange 4).flatMap fun p => [.call p .beginOp, .acquire p, .test p]) ++
        [.release 3, .sleep 3])).map
        (fun s => (s.lock, s.place 3)) = some (none, .asleep .beginOp) := by
    rfl
  obtain ⟨s, hs, hfacts⟩ := Option.map_eq_some_iff.mp hrun
  obtain ⟨hlock, hasleep⟩ := Prod.mk.inj hfacts
  exact ⟨s, hasleep,
    begin_op_wakes (replay_reach (fun _ _ _ => trivial) (.init ⟨rfl, fun _ => rfl⟩) hs) hlock
    (.inr hasleep)⟩

end Xv6Paging
