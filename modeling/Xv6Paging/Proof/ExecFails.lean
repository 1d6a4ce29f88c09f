import Xv6Paging.Kernel.ExecFs
import Xv6Paging.Proof.ExecSafe

/-!
# What a failed `kexec` leaves behind

Every failure jumps to one label, which frees the new table, locks the inode, drops it
and ends the transaction. A jump from before `iunlock` finds the inode locked by the
process itself, and `acquiresleep` waits for a wakeup that cannot come. A jump from
after it gives back everything that was taken. The theorem at the end says for which
files, and with how much memory, the second is the case.
-/

namespace Xv6Paging.Proof

open Xv6Paging Lib

/-! ## The same `kexec` -/

@[simp] theorem memory_ok {α : Type} (a : α) : memory (.ok a : Except Halt α) = .ok a := rfl

@[simp] theorem memory_error {α : Type} (e : Halt) :
    memory (.error e : Except Halt α) = .error (.halt e) := rfl

@[simp] theorem error_bind {ε α β : Type} (e : ε) (f : α → Except ε β) :
    ((.error e : Except ε α) >>= f) = .error e := rfl

/-- The inode and the log of a process in `kexec`, before `iunlock` and after it. -/
def inExec (fs : ExecFs) (locked : Bool) : ExecFs := ⟨locked, fs.ref + 1, fs.outstanding + 1⟩

/-- A jump to `bad:` from before `iunlock`. -/
theorem execAbort_locked (fs : ExecFs) (km : Kmem) (pt : Option PageTable) (sz : Nat) :
    ∃ e, execAbort km pt sz (inExec fs true) = .error e := by
  cases pt with
  | none => exact ⟨_, rfl⟩
  | some pt =>
    unfold execAbort
    dsimp only
    cases procFreepagetable km pt sz with
    | error e => exact ⟨_, rfl⟩
    | ok km' => exact ⟨_, rfl⟩

/-- A jump to `bad:` from after it. -/
theorem execAbort_unlocked {fs : ExecFs} (hfs : fs.locked = false) (km : Kmem) (pt : PageTable)
    (sz : Nat) : execAbort km (some pt) sz (inExec fs false) =
      memory (procFreepagetable km pt sz) >>= fun km => .ok (none, km, fs) := by
  obtain ⟨locked, ref, outstanding⟩ := fs
  cases hfs
  unfold execAbort
  dsimp only
  cases procFreepagetable km pt sz with
  | error e => rfl
  | ok km' => rfl

/-- What `kexec` does to the file system besides. -/
def withFs (fs : ExecFs) : Except Halt (Int × Kernel) → Except ExecStop (Int × Kernel × ExecFs)
  | .ok (r, k) => .ok (r, k, if r < 0 then fs else fs.idup)
  | .error e => .error (.halt e)

/-- `kexecFs` after `execImage`. -/
def finish (k : Kernel) (path : List UInt8) (ip : Inode) (r : Option ExecReady × Kmem × ExecFs) :
    Except ExecStop (Int × Kernel × ExecFs) :=
  match r with
  | (some r, km, fs) => execCommit k km fs r ip path
  | (none, km, fs) => .ok (-1, { k with kmem := km }, fs)

theorem kexecFs_some (k : Kernel) (fs : ExecFs) (path : List UInt8) (ip : Inode)
    (argv : List (List UInt8)) :
    kexecFs k fs path (some ip) argv = execImage k fs (some ip) argv >>= finish k path ip := by
  unfold kexecFs
  congr
  funext r
  obtain ⟨r, km, fs⟩ := r
  cases r with
  | none => rfl
  | some r => rfl

section

variable {fs : ExecFs} {k : Kernel} {path : List UInt8} {file : Inode} {argv : List (List UInt8)}

theorem abort_finish (hfs : fs.locked = false) (km : Kmem) (pt : PageTable) (sz : Nat) :
    execAbort km (some pt) sz (inExec fs false) >>= finish k path file =
      withFs fs (execBad k km pt sz false) := by
  rw [execAbort_unlocked hfs, execBad]
  cases procFreepagetable km pt sz with
  | error e => rfl
  | ok km' => rfl

theorem commit_finish (hfs : fs.locked = false) (km : Kmem) (r : ExecReady) :
    finish k path file (some r, km, inExec fs false) = withFs fs (do
      let km ← procFreepagetable km k.p.pagetable k.p.sz
      match swapfileCreate k.disk (k.p.commit r.layout r.pagetable r.sz r.sp r.entry file path) with
      | (_, d, p) => .ok (r.argc, { k with kmem := km, disk := d, p := p })) := by
  obtain ⟨locked, ref, outstanding⟩ := fs
  cases hfs
  unfold finish execCommit
  dsimp only
  cases procFreepagetable km k.p.pagetable k.p.sz with
  | error e => rfl
  | ok km' =>
    have hnonneg : ¬ (r.argc : Int) < 0 := by omega
    simp [withFs, hnonneg, inExec, ExecFs.ilock, ExecFs.idup, ExecFs.iunlockput,
      ExecFs.iunlock, ExecFs.iput, ExecFs.endOp]

theorem execArgs_finish (hfs : fs.locked = false) (km : Kmem) (pt : PageTable) (sz : Nat)
    (l : Layout) (entry : Nat) :
    execArgs km pt sz l entry argv (inExec fs false) >>= finish k path file =
      withFs fs (execStack k km pt sz l entry file path argv) := by
  unfold execArgs execStack
  dsimp only
  cases pushArgs pt (sub64 sz (userStack * 4096)) argv km sz [] with
  | error e => rfl
  | ok r =>
    obtain ⟨r, km₁⟩ := r
    simp only [memory_ok, ok_bind]
    cases r with
    | none => exact abort_finish hfs km₁ pt sz
    | some a =>
      obtain ⟨sp, ustack⟩ := a
      dsimp only
      split
      · exact abort_finish hfs km₁ pt sz
      · cases copyoutNew km₁ pt (pushSp sp ((ustack.length + 1) * 8))
          ((ustack.reverse ++ [0]).flatMap le64) with
        | error e => rfl
        | ok c =>
          obtain ⟨ok, km₂⟩ := c
          cases ok with
          | false => exact abort_finish hfs km₂ pt sz
          | true => exact commit_finish hfs km₂ _

/-- `execImage` from the program headers on. -/
def imageTail (fs : ExecFs) (file : Inode) (argv : List (List UInt8)) (km : Kmem) (pt : PageTable) :
    Except ExecStop (Option ExecReady × Kmem × ExecFs) :=
  match scan file with
  | (false, l) => execAbort km (some pt) l.sz (inExec fs true)
  | (true, l) => do
    let sz := pgRoundUp l.sz
    let (sz1, km, pt) ← memory (uvmalloc km pt sz (add64 sz ((userStack + 1) * 4096)))
    if sz1 = 0 then execAbort km (some pt) sz (inExec fs false)
    else do
      let pt ← memory (uvmclear pt (sub64 sz1 ((userStack + 1) * 4096)))
      execArgs km pt sz1 l (header file).entry argv (inExec fs false)

/-- `namei` and `ilock`. -/
theorem ilock_first (hfs : fs.locked = false) : fs.beginOp.idup.ilock = .ok (inExec fs true) := by
  obtain ⟨locked, ref, outstanding⟩ := fs
  cases hfs
  rfl

theorem execImage_bad_header (hfs : fs.locked = false) (h : ¬ HeaderOk file) :
    execImage k fs (some file) argv = .error (.halt .hang) := by
  unfold execImage
  dsimp only
  rw [ilock_first hfs, ok_bind]
  split
  · rfl
  · rename_i hgot
    exact if_pos fun hmagic => h ⟨by simpa using hgot, hmagic⟩

theorem execImage_good_header (hfs : fs.locked = false) (h : HeaderOk file) :
    execImage k fs (some file) argv = (do
      let (pt, km) ← memory (procPagetable k.kmem k.p.trapframe)
      match pt with
      | none => .error (.halt .hang)
      | some pt => imageTail fs file argv km pt) := by
  unfold execImage
  dsimp only
  rw [ilock_first hfs, ok_bind, if_neg (fun hne => hne h.1), if_neg (fun hne => hne h.2)]
  rfl

theorem imageTail_finish (hfs : fs.locked = false) (km : Kmem) (pt : PageTable) :
    imageTail fs file argv km pt >>= finish k path file =
      withFs fs (execTail k path file argv km pt) := by
  unfold imageTail execTail
  rcases scan file with ⟨ok, l⟩
  cases ok with
  | false =>
    unfold execAbort execBad
    dsimp only
    cases procFreepagetable km pt l.sz with
    | error e => rfl
    | ok km' => rfl
  | true =>
    dsimp only
    cases uvmalloc km pt (pgRoundUp l.sz) (add64 (pgRoundUp l.sz) ((userStack + 1) * 4096)) with
    | error e => rfl
    | ok r =>
      obtain ⟨sz1, km₁, pt₁⟩ := r
      simp only [memory_ok, ok_bind]
      split
      · exact abort_finish hfs km₁ pt₁ _
      · cases uvmclear pt₁ (sub64 sz1 ((userStack + 1) * 4096)) with
        | error e => rfl
        | ok pt' => exact execArgs_finish hfs km₁ pt' sz1 l _

/--
**Nothing is lost by leaving the file system out.** `kexec` does with the inode and the
log what is expected, or stops where the model without them says.
-/
theorem kexecFs_eq (hfs : fs.locked = false) (ip : Option Inode) :
    kexecFs k fs path ip argv = withFs fs (kexec k path ip argv) := by
  cases ip with
  | none => rfl
  | some file =>
    rw [kexecFs_some]
    by_cases hok : HeaderOk file
    · rw [execImage_good_header hfs hok, kexec_good_header k path argv hok]
      cases procPagetable k.kmem k.p.trapframe with
      | error e => rfl
      | ok r =>
        obtain ⟨pt, km⟩ := r
        cases pt with
        | none => rfl
        | some pt => exact imageTail_finish hfs km pt
    · rw [execImage_bad_header hfs hok, kexec_bad_header k path argv hok]
      rfl

end

/-! ## What the tables cost -/

/-- The first page of a new table takes two pages more. -/
theorem walkAlloc_empty {km : Kmem} {f va : Nat} {ok : Bool} {km' : Kmem} {pt : PageTable}
    (h : walkAlloc km (.empty f) va = (ok, km', pt)) :
    (ok = false → kallocs 2 km = false) ∧
      (ok = true → (pt.table0 va).isSome ∧ ∀ n, kallocs (n + 2) km = kallocs n km') := by
  unfold walkAlloc walkLevel2 PageTable.empty at h
  dsimp only at h
  rcases hk : kalloc km with ⟨_ | f₁, km₁⟩
  · rw [hk] at h
    cases h
    exact ⟨fun _ => kallocs_none hk 1, fun hok => by cases hok⟩
  · rw [hk] at h
    simp only [walkLevel1, Function.update_self, Table1.empty] at h
    have hnext : ∀ n, kallocs (n + 1) km = kallocs n (km₁.setRam f₁ zeroPage) := fun n => by
      rw [kallocs_some hk, kallocs_setRam]
    rcases hk₂ : kalloc (km₁.setRam f₁ zeroPage) with ⟨_ | f₂, km₂⟩
    · rw [hk₂] at h
      cases h
      exact ⟨fun _ => (hnext 1).trans (kallocs_none hk₂ 0), fun hok => by cases hok⟩
    · rw [hk₂] at h
      cases h
      refine ⟨(fun hok => by cases hok), fun _ => ⟨?_, fun n => ?_⟩⟩
      · simp [PageTable.table0]
      · rw [hnext, kallocs_some hk₂, kallocs_setRam]

/-- **`proc_pagetable` takes three pages**, and fails if it does not get them. -/
theorem procPagetable_takes {km km' : Kmem} {tf : Nat} {r : Option PageTable}
    (h : procPagetable km tf = .ok (r, km')) :
    (r = none → kallocs 3 km = false) ∧
      (r.isSome = true → ∀ n, kallocs (n + 3) km = kallocs n km') := by
  unfold procPagetable uvmcreate at h
  rcases hk : kalloc km with ⟨_ | f, km₁⟩
  · rw [hk] at h
    cases h
    exact ⟨fun _ => kallocs_none hk 2, fun hsome => by cases hsome⟩
  · rw [hk] at h
    dsimp only at h
    have hnext : ∀ n, kallocs (n + 1) km = kallocs n (km₁.setRam f zeroPage) := fun n => by
      rw [kallocs_some hk, kallocs_setRam]
    rw [mappages_page (by decide) (by decide)] at h
    rcases hw : walkAlloc (km₁.setRam f zeroPage) (.empty f) trampolineVA with ⟨ok, km₂, pt₂⟩
    obtain ⟨hfail, hdone⟩ := walkAlloc_empty hw
    rw [hw] at h
    cases ok with
    | false =>
      rw [ok_bind] at h
      dsimp only at h
      rw [if_pos (show (!false) = true from rfl)] at h
      obtain ⟨km₃, _, hrest⟩ := bind_eq_ok.mp h
      cases hrest
      exact ⟨fun _ => (hnext 2).trans (hfail rfl), fun hsome => by cases hsome⟩
    | true =>
      obtain ⟨htab, hcount⟩ := hdone rfl
      dsimp only at h
      split at h
      · cases h
      · rw [ok_bind] at h
        dsimp only at h
        rw [if_neg (by simp), mappages_page (by decide) (by decide), walkAlloc_of_table0] at h
        · -- the trapframe lies in the table page of the trampoline
          dsimp only at h
          split at h
          · cases h
          · cases h
            exact ⟨(fun hnone => by cases hnone), fun _ n => (hnext _).trans (hcount n)⟩
        · rw [set_table0, table0_way _ (b := trampolineVA) (by decide)]
          exact htab

/-! ## Giving everything back -/

/-- Nobody can see that anything happened. -/
structure NoTrace (k k' : Kernel) : Prop where
  proc : k'.p = k.p
  disk : k'.disk = k.disk
  free : ∀ f, k'.kmem.Free f ↔ k.kmem.Free f
  ram : ∀ f, ¬ k.kmem.Free f → k'.kmem.ram f = k.kmem.ram f

theorem noTrace_of_undone {k : Kernel} {km : Kmem} (hheld : Held Set.univ {f | ¬ k.kmem.Free f} km)
    (hundone : Undone k.kmem km) : NoTrace k { k with kmem := km } :=
  ⟨rfl, rfl, Held.free_iff hheld, fun f hf =>
    hundone.ram f hf fun hfree => hf ((Held.free_iff hheld f).mp hfree)⟩

/-- The arguments go into pages of the new table, which were free before. -/
theorem Pushed.keeps {tf : Nat} {km₀ km km' : Kmem} {pt : PageTable} {base : Nat}
    (hp : Pushed pt km km') (h : FreshTable tf Set.univ {f | ¬ km₀.Free f} km₀ km pt base) :
    Keeps km₀ km' := by
  induction hp with
  | refl => exact h.keeps
  | @store km₁ va0 f ofs bytes hpushed hw ih =>
    obtain ⟨hmax, hv, hu, hf⟩ := walkaddr_some hw
    have hlow : va0 < trapframeVA := by
      by_contra htop
      rw [(h.top va0 (Nat.le_of_not_lt htop) hmax).2.1] at hu
      cases hu
    have hat : pt.frameAt (.page (va0 / 4096)) = some f := by
      rw [frameAt_page hlow, if_pos hv, hf]
    have hfree : ¬ ¬ km₀.Free f := (h.vm.ledger.held _ f hat).2
    refine ⟨fun g hg => ?_, ih.held, ih.others, ih.calls⟩
    have hne : g ≠ f := by
      intro he
      exact hfree (he ▸ hg)
    rw [Kmem.store, setRam_ne _ _ hne]
    exact ih.ram g hg

/-- **A `kexec` that returns -1** has left no trace. -/
theorem Execs.noTrace {k k' : Kernel} {path : List UInt8} {ip : Option Inode}
    {argv : List (List UInt8)} {r : Int} (he : Execs k path ip argv r k') (hok : k.kmem.Ok)
    (hr : r < 0) : NoTrace k k' := by
  have hheld := held_all hok
  cases he with
  | missing _ _ hk' =>
    rw [hk']
    exact ⟨rfl, rfl, fun _ => Iff.rfl, fun _ _ => rfl⟩
  | starved sz km₀ km₁ km₂ pt₀ pt₁ hp hu hf _ hk' =>
    obtain ⟨hvm, hbare, hkeeps⟩ := (procPagetable_ok hheld hp).2 pt₀ rfl
    obtain ⟨hvm₁, hbare₁, hundone⟩ := uvmalloc_failed hvm hbare hu
    obtain ⟨hheld₂, hfrees⟩ := procFreepagetable_ok hvm₁ hbare₁.top hf
    rw [hk']
    exact noTrace_of_undone hheld₂ ((hkeeps.andUndone hundone).andFrees hfrees)
  | undone file l km km₁ km₂ pt sz hb hs hf _ hk' =>
    obtain ⟨_, hfresh⟩ := hb.fresh hheld
    obtain ⟨hheld₂, hfrees⟩ := procFreepagetable_ok (hs.vm hfresh.vm) hfresh.top hf
    rw [hk']
    exact noTrace_of_undone hheld₂ ((Pushed.keeps hs hfresh).undo hfrees)
  | done _ _ _ _ _ _ _ _ _ ustack _ _ _ _ _ _ _ _ _ _ hr' _ => omega

/-! ## Which jumps come from after `iunlock` -/

/-- What a file must be like, and how much memory there must be. -/
structure ExecOrderly (k : Kernel) (file : Inode) : Prop where
  header : HeaderOk file
  /-- There are three pages for the new table. -/
  table : kallocs 3 k.kmem = true
  /-- No program header is rejected. -/
  accepted : (scan file).1 = true
  /-- The stack fits, or memory runs out before `uvmalloc` sees that it does not. -/
  room : pgRoundUp (scan file).2.sz + (userStack + 1) * 4096 ≤ trapframeVA ∨
    pgRoundUp (scan file).2.sz ≤ maxVA ∧
      kallocs (4 + (trapframeVA - pgRoundUp (scan file).2.sz) / 4096) k.kmem = false

section

variable {C : Prop} {U S T : Set Nat} {tf : Nat} {fs : ExecFs} {k : Kernel} {km : Kmem}
  {pt : PageTable} {file : Inode} {argv : List (List UInt8)} {l : Layout}

theorem execArgs_total {km₀ : Kmem} {base : Nat} (hfs : fs.locked = false)
    (h : FreshTable tf U T km₀ km pt base) (entry : Nat) :
    ∃ r, execArgs km pt (base + 8192) l entry argv (inExec fs false) = .ok r := by
  have hbad : ∀ {km' : Kmem}, Pushed pt km km' →
      ∃ r, execAbort km' (some pt) (base + 8192) (inExec fs false) = .ok r := by
    intro km' hs
    obtain ⟨km'', hfree⟩ := h.freed (hs.vm h.vm)
    rw [execAbort_unlocked hfs, hfree]
    exact ⟨_, rfl⟩
  obtain ⟨⟨args, km₁⟩, hargs⟩ :=
    pushArgs_total pt (sub64 (base + 8192) (userStack * 4096)) argv km (base + 8192) []
  have hs₁ := pushArgs_pushed argv hargs
  unfold execArgs
  dsimp only
  rw [hargs, memory_ok, ok_bind]
  cases args with
  | none => exact hbad hs₁
  | some a =>
    obtain ⟨sp, ustack⟩ := a
    dsimp only
    split
    · exact hbad hs₁
    · obtain ⟨⟨ok, km₂⟩, hcopy⟩ := copyoutNew_total pt _ km₁
        (pushSp sp ((ustack.length + 1) * 8)) ((ustack.reverse ++ [0]).flatMap le64)
      have hs₂ := hs₁.trans (copyoutNew_pushed _ hcopy)
      rw [copyoutNew, hcopy, memory_ok, ok_bind]
      cases ok with
      | false => exact hbad hs₂
      | true => exact ⟨_, rfl⟩

/-- The new table is freed again when `uvmalloc` has failed. -/
theorem execAbort_starved {km₁ : Kmem} {pt₁ : PageTable} {sz newsz : Nat} (hfs : fs.locked = false)
    (hvm : VmInv U T km pt) (hbare : Bare tf pt) (hu : uvmalloc km pt sz newsz = .ok (0, km₁, pt₁))
    (hsz : pgRoundUp sz ≤ maxVA) : ∃ r, execAbort km₁ (some pt₁) sz (inExec fs false) = .ok r := by
  obtain ⟨hvm₁, hbare₁, _⟩ := uvmalloc_failed hvm hbare hu
  obtain ⟨km₂, hfree⟩ := hbare₁.freed hvm₁ hsz
  rw [execAbort_unlocked hfs, hfree]
  exact ⟨_, rfl⟩

theorem imageTail_fits (hfs : fs.locked = false) (h : SpaceOk C U S k.kmem k.p)
    (hp : procPagetable k.kmem k.p.trapframe = .ok (some pt, km)) (hl : scan file = (true, l))
    (hfits : pgRoundUp l.sz + (userStack + 1) * 4096 ≤ trapframeVA) :
    ∃ r, imageTail fs file argv km pt = .ok r := by
  obtain ⟨hvm, hbare, _⟩ := (procPagetable_ok h.held hp).2 pt rfl
  obtain ⟨sz1, km₁, pt₁, hu, hclear⟩ := uvmalloc_fits hvm hbare hfits
  unfold imageTail
  rw [hl]
  dsimp only
  rw [hu, memory_ok, ok_bind]
  dsimp only
  split
  · rename_i hz
    have hle : pgRoundUp l.sz ≤ trapframeVA := Nat.le_trans (Nat.le_add_right _ _) hfits
    have hagain : pgRoundUp (pgRoundUp l.sz) ≤ maxVA := by
      rw [pgRoundUp_pgRoundUp hle]
      exact Nat.le_trans hle (by decide)
    exact execAbort_starved hfs hvm hbare (hz ▸ hu) hagain
  · rename_i hz
    obtain ⟨pt', hclear⟩ := hclear hz
    have hbuilt : Built k file l km₁ pt' sz1 := ⟨hl, km, pt, pt₁, hp, hu, hz, hclear⟩
    obtain ⟨hsz, hfresh⟩ := hbuilt.fresh h.held
    rw [hclear, memory_ok, ok_bind, hsz]
    exact execArgs_total hfs hfresh _

theorem add64_stack {base : Nat} (h : base + 8192 < 2 ^ 64) :
    add64 base ((userStack + 1) * 4096) = base + 8192 := by
  unfold add64 userStack
  omega

theorem pgRoundUp_pgRoundUp_small {a : Nat} (h : pgRoundUp a + 8192 < 2 ^ 64) :
    pgRoundUp (pgRoundUp a) = pgRoundUp a := by
  have hal := pgRoundUp_mod a
  generalize pgRoundUp a = b at h hal
  unfold pgRoundUp add64
  omega

/-- Where the stack does not fit only a lack of memory helps. -/
theorem imageTail_over (hfs : fs.locked = false) (hvm : VmInv U T km pt) (hbare : Bare tf pt)
    (hl : scan file = (true, l)) (hover : trapframeVA < pgRoundUp l.sz + (userStack + 1) * 4096) :
    (∃ r, imageTail fs file argv km pt = .ok r) ↔ pgRoundUp l.sz ≤ maxVA ∧
      kallocs (1 + (trapframeVA - pgRoundUp l.sz) / 4096) km = false := by
  have hmx : maxVA < 2 ^ 40 := by decide
  have hlt := pgRoundUp_lt l.sz
  unfold imageTail
  rw [hl]
  dsimp only
  by_cases hwrap : 2 ^ 64 ≤ pgRoundUp l.sz + 8192
  · obtain ⟨hu, msg, hclear⟩ := uvmalloc_wraps km pt hlt hwrap
    rw [hu, memory_ok, ok_bind]
    dsimp only
    rw [if_neg (by omega), hclear]
    constructor
    · rintro ⟨r, hr⟩
      cases hr
    · rintro ⟨hle, _⟩
      omega
  · have hsmall : pgRoundUp l.sz + 8192 < 2 ^ 64 := Nat.lt_of_not_le hwrap
    have hagain := pgRoundUp_pgRoundUp_small hsmall
    obtain ⟨hpanics, hfails⟩ := uvmalloc_over hvm hbare (pgRoundUp_mod l.sz) hover hsmall
    rw [add64_stack hsmall]
    cases hmem : kallocs (1 + (trapframeVA - pgRoundUp l.sz) / 4096) km with
    | true =>
      obtain ⟨msg, hu⟩ := hpanics hmem
      rw [hu]
      constructor
      · rintro ⟨r, hr⟩
        cases hr
      · rintro ⟨_, hno⟩
        cases hno
    | false =>
      obtain ⟨km₁, pt₁, hu⟩ := hfails hmem
      rw [hu, memory_ok, ok_bind]
      dsimp only
      rw [if_pos rfl]
      constructor
      · rintro ⟨r, hr⟩
        refine ⟨?_, rfl⟩
        rw [execAbort_unlocked hfs] at hr
        obtain ⟨km₂, hfree, _⟩ := bind_eq_ok.mp hr
        obtain ⟨hvm₁, hbare₁, _⟩ := uvmalloc_failed hvm hbare hu
        cases hf : procFreepagetable km₁ pt₁ (pgRoundUp l.sz) with
        | error e =>
          rw [hf] at hfree
          cases hfree
        | ok km₃ =>
          rw [← hagain]
          exact ((procFreepagetable_iff hvm₁ hbare₁.top hbare₁.high).mp ⟨km₃, hf⟩).1
      · rintro ⟨hle, _⟩
        exact execAbort_starved hfs hvm hbare hu (by rw [hagain]; exact hle)

/-- **`kexec` gets to the commit or returns -1** exactly under `ExecOrderly`. -/
theorem execImage_total_iff (argv : List (List UInt8)) (hfs : fs.locked = false)
    (h : SpaceOk C U S k.kmem k.p) :
    (∃ r, execImage k fs (some file) argv = .ok r) ↔ ExecOrderly k file := by
  by_cases hok : HeaderOk file
  · rw [execImage_good_header hfs hok]
    obtain ⟨⟨pt, km⟩, hp⟩ := procPagetable_total h.held k.p.trapframe
    obtain ⟨hnone, hsome⟩ := procPagetable_takes hp
    rw [hp, memory_ok, ok_bind]
    cases pt with
    | none =>
      constructor
      · rintro ⟨r, hr⟩
        cases hr
      · intro ho
        have htable := ho.table
        rw [hnone rfl] at htable
        cases htable
    | some pt =>
      obtain ⟨hvm, hbare, _⟩ := (procPagetable_ok h.held hp).2 pt rfl
      have htable : kallocs 3 k.kmem = true := hsome rfl 0
      dsimp only
      rcases hscan : scan file with ⟨ok, l⟩
      cases ok with
      | false =>
        obtain ⟨e, he⟩ := execAbort_locked fs km (some pt) l.sz
        constructor
        · rintro ⟨r, hr⟩
          rw [imageTail, hscan] at hr
          dsimp only at hr
          rw [he] at hr
          cases hr
        · intro ho
          have hacc := ho.accepted
          rw [hscan] at hacc
          cases hacc
      | true =>
        have hcount : kallocs (4 + (trapframeVA - pgRoundUp l.sz) / 4096) k.kmem =
            kallocs (1 + (trapframeVA - pgRoundUp l.sz) / 4096) km := by
          rw [← hsome rfl]
          congr 1
          omega
        constructor
        · intro hr
          refine ⟨hok, htable, by rw [hscan], ?_⟩
          rw [hscan, hcount]
          by_cases hfits : pgRoundUp l.sz + (userStack + 1) * 4096 ≤ trapframeVA
          · exact Or.inl hfits
          · exact Or.inr ((imageTail_over hfs hvm hbare hscan (Nat.lt_of_not_le hfits)).mp hr)
        · intro ho
          by_cases hfits : pgRoundUp l.sz + (userStack + 1) * 4096 ≤ trapframeVA
          · exact imageTail_fits hfs h hp hscan hfits
          · have hroom := ho.room
            rw [hscan, hcount] at hroom
            exact (imageTail_over hfs hvm hbare hscan (Nat.lt_of_not_le hfits)).mpr
              (hroom.resolve_left hfits)
  · rw [execImage_bad_header hfs hok]
    constructor
    · rintro ⟨r, hr⟩
      cases hr
    · intro ho
      exact absurd ho.header hok

end

/-- `kexec` gets to the point where it commits. -/
def Commits (k : Kernel) (fs : ExecFs) (ip : Option Inode) (argv : List (List UInt8)) : Prop :=
  ∃ r km fs', execImage k fs ip argv = .ok (some r, km, fs')

/-- `kexec` commits, or returns -1 with everything as it was. -/
def CommitsOrNothing (k : Kernel) (fs : ExecFs) (path : List UInt8) (ip : Option Inode)
    (argv : List (List UInt8)) : Prop :=
  ¬ Commits k fs ip argv → ∃ k', kexecFs k fs path ip argv = .ok (-1, k', fs) ∧ NoTrace k k'

/-- Once `kexec` has not jumped to `bad:` too early there is nothing to complain about. -/
theorem commitsOrNothing_of_image {k : Kernel} {fs : ExecFs} {path : List UInt8} {ip : Option Inode}
    {argv : List (List UInt8)} {r : Option ExecReady × Kmem × ExecFs} (hok : k.kmem.Ok)
    (hfs : fs.locked = false) (hr : execImage k fs ip argv = .ok r) :
    CommitsOrNothing k fs path ip argv := by
  intro hno
  obtain ⟨r, km, fs'⟩ := r
  cases r with
  | some r => exact absurd ⟨r, km, fs', hr⟩ hno
  | none =>
    have hx : kexecFs k fs path ip argv = .ok (-1, { k with kmem := km }, fs') := by
      unfold kexecFs
      rw [hr, ok_bind]
    have heq : kexecFs k fs path ip argv = withFs fs (kexec k path ip argv) := kexecFs_eq hfs ip
    rw [hx] at heq
    cases hk : kexec k path ip argv with
    | error e =>
      rw [hk] at heq
      cases heq
    | ok res =>
      obtain ⟨r, k'⟩ := res
      rw [hk] at heq
      simp only [withFs, Except.ok.injEq, Prod.mk.injEq] at heq
      obtain ⟨rfl, rfl, hfs'⟩ := heq
      rw [if_pos (by decide)] at hfs'
      exact ⟨_, by rw [hx, hfs'], (kexec_cases hk).noTrace hok (by decide)⟩

/--
**A failed exec changes nothing** exactly if it does not fail with the inode locked.

The condition says that it does not: there is no such file, or its headers are all
right and memory suffices for the new table. The part about room for the stack leaves
out the panics of a file that is too large.
-/
theorem failed_exec_changes_nothing_iff {k : Kernel} (h : Reachable k) {fs : ExecFs}
    (hfs : fs.locked = false) (path : List UInt8) (ip : Option Inode) (argv : List (List UInt8)) :
    CommitsOrNothing k fs path ip argv ↔ ∀ file, ip = some file → ExecOrderly k file := by
  obtain ⟨S, hok⟩ := reachable_spaceInv h
  cases ip with
  | none =>
    refine ⟨(fun _ file hfile => by cases hfile), fun _ => ?_⟩
    exact commitsOrNothing_of_image hok.vm.ok hfs (r := (none, k.kmem, fs)) rfl
  | some file =>
    constructor
    · intro hcn file' hfile
      cases hfile
      refine (execImage_total_iff argv hfs hok).mp ?_
      by_cases hc : Commits k fs (some file) argv
      · obtain ⟨r, km, fs', hr⟩ := hc
        exact ⟨_, hr⟩
      · obtain ⟨k', hx, _⟩ := hcn hc
        obtain ⟨r, hr, _⟩ := bind_eq_ok.mp hx
        exact ⟨r, hr⟩
    · intro hall
      obtain ⟨r, hr⟩ := (execImage_total_iff argv hfs hok).mpr (hall file rfl)
      exact commitsOrNothing_of_image hok.vm.ok hfs hr

theorem failed_exec_changes_nothing_iff_many_arguments : ∃ k, Reachable k ∧
    CommitsOrNothing k ⟨false, 1, 0⟩ [47] (some onePage) (List.replicate 33 [65]) := by
  have hrun : (bootKernel []).map (fun k => (kallocs 3 k.kmem, (scan onePage).1,
      (scan onePage).2.sz)) = some (true, true, 4096) := by
    decide +kernel
  obtain ⟨k, hk, hfacts⟩ := Option.map_eq_some_iff.mp hrun
  simp only [Prod.mk.injEq] at hfacts
  obtain ⟨htable, hscan, hsz⟩ := hfacts
  have hreach : Reachable k := .boot (bootKernel_boot hk)
  have horderly : ExecOrderly k onePage := by
    refine ⟨⟨by decide +kernel, by decide +kernel⟩, htable, hscan, Or.inl ?_⟩
    rw [hsz]
    decide
  refine ⟨k, hreach, (failed_exec_changes_nothing_iff hreach rfl _ _ _).mpr fun file hfile => ?_⟩
  cases hfile
  exact horderly

/-- An empty file: `kexec` locks the inode it holds the lock of. -/
theorem failed_exec_can_hang : ¬ ∀ k fs path ip argv, Reachable k → fs.locked = false →
    CommitsOrNothing k fs path ip argv := by
  intro hall
  have hboot : (bootKernel []).isSome = true := by decide +kernel
  obtain ⟨k, hk⟩ := Option.isSome_iff_exists.mp hboot
  have hbad : ¬ HeaderOk (fileOf []) := fun h => absurd h.1 (by decide +kernel)
  have himage : execImage k ⟨false, 0, 0⟩ (some (fileOf [])) [] = .error (.halt .hang) :=
    execImage_bad_header rfl hbad
  obtain ⟨k', hx, _⟩ := hall k ⟨false, 0, 0⟩ [47] (some (fileOf [])) []
    (.boot (bootKernel_boot hk)) rfl (by
      rintro ⟨r, km, fs', hr⟩
      rw [himage] at hr
      cases hr)
  rw [kexecFs_some, himage] at hx
  cases hx

end Xv6Paging.Proof
