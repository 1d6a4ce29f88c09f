import Xv6Paging.Proof.Break
import Xv6Paging.Proof.ExecImage

/-!
# Which files `kexec` can be given

The addresses in a program header are checked for wrap-around and alignment only, and
with lazy loading nothing is allocated for a segment. Its end goes into `sz` unchecked,
and `sz` decides where the stack is put and how far the table is unmapped again. The
theorem at the end says which files are harmless, and that every other one makes the
kernel panic, or puts the stack into a segment.
-/

namespace Xv6Paging.Proof

open Xv6Paging Lib

variable {a f va base : Nat} {file : Inode} {path : List UInt8} {argv : List (List UInt8)}
  {l : Layout} {α : Type} {km₁ : Kmem}

/-! ## Ways of not returning -/

section

variable {α β : Type}

/-- The kernel panics. -/
def Panics (x : Except Halt α) : Prop := ∃ msg, x = .error (.panic msg)

theorem Panics.bind {x : Except Halt α} (h : Panics x) (f : α → Except Halt β) :
    Panics (x >>= f) := by
  obtain ⟨msg, rfl⟩ := h
  exact ⟨msg, rfl⟩

end

/-- A panic, and not an endless sleep. -/
def IsPanic (e : Halt) : Prop := ∃ msg, e = .panic msg

@[simp] theorem isPanic_panic (msg : Panic) : IsPanic (.panic msg) := ⟨msg, rfl⟩

theorem TablePanic.isPanic (e : Halt) (h : TablePanic e) : IsPanic e := by
  obtain ⟨msg, he, _⟩ := h
  exact ⟨msg, he⟩

theorem freewalk_stops (km : Kmem) (pt : PageTable) : Stops IsPanic (freewalk km pt) := by
  have h0 : ∀ (km : Kmem) (t : Table0), Stops IsPanic (freewalk0 km t) := by
    intro km t
    unfold freewalk0
    split <;> simp
  have h1 : ∀ (km : Kmem) (t : Table1), Stops IsPanic (freewalk1 km t) := by
    intro km t
    unfold freewalk1
    refine (stops_foldlM (fun km j => ?_) _ _).bind fun _ _ => stops_ok _
    cases t.next j with
    | none => exact stops_ok _
    | some t0 => exact h0 km t0
  unfold freewalk
  refine (stops_foldlM (fun km i => ?_) _ _).bind fun _ _ => stops_ok _
  cases pt.next i with
  | none => exact stops_ok _
  | some t1 => exact h1 km t1

/-- `proc_freepagetable` returns or panics. -/
theorem procFreepagetable_stops (km : Kmem) (pt : PageTable) (sz : Nat) :
    Stops IsPanic (procFreepagetable km pt sz) := by
  have hunmap : ∀ km pt va n doFree, Stops IsPanic (uvmunmap km pt va n doFree) :=
    fun _ _ _ _ _ => (uvmunmap_stops _ _ _ _ _).mono TablePanic.isPanic
  refine (hunmap _ _ _ _ _).bind fun r _ => (hunmap _ _ _ _ _).bind fun r' _ => ?_
  obtain ⟨km', pt'⟩ := r'
  unfold uvmfree
  dsimp only
  split
  · exact (hunmap _ _ _ _ _).bind fun _ _ => freewalk_stops _ _
  · rw [ok_bind]
    exact freewalk_stops _ _

theorem Panics.of_stops {x : Except Halt α} (h : Stops IsPanic x) (hno : ¬ ∃ a, x = .ok a) :
    Panics x := by
  cases x with
  | error e =>
    obtain ⟨msg, rfl⟩ := h e rfl
    exact ⟨msg, rfl⟩
  | ok a => exact absurd ⟨a, rfl⟩ hno

theorem not_panics_ok (a : α) : ¬ Panics (.ok a : Except Halt α) := by
  intro hp
  obtain ⟨msg, h⟩ := hp
  cases h

theorem not_panics_hang : ¬ Panics (.error .hang : Except Halt α) := by
  intro hp
  obtain ⟨msg, h⟩ := hp
  cases h

/-! ## The rest of `kexec` once it has a table -/

/-- The ELF header of a file. -/
def header (file : Inode) : ElfHdr := elfHdr (readi file (fun _ : Fin 64 => 0) 0 64).2

/-- The header can be read and is one. -/
def HeaderOk (file : Inode) : Prop :=
  (readi file (fun _ : Fin 64 => 0) 0 64).1 = 64 ∧ (header file).magic = elfMagic

/-- The program-header loop on a file. -/
def scan (file : Inode) : Bool × Layout :=
  readSegments file (header file).phnum (toUint (header file).phoff) Layout.empty

/-- `kexec` from the program headers on. -/
def execTail (k : Kernel) (path : List UInt8) (file : Inode) (argv : List (List UInt8)) (km : Kmem)
    (pt : PageTable) : Except Halt (Int × Kernel) :=
  match scan file with
  | (false, l) => execBad k km pt l.sz true
  | (true, l) => do
    let sz := pgRoundUp l.sz
    let (sz1, km, pt) ← uvmalloc km pt sz (add64 sz ((userStack + 1) * 4096))
    if sz1 = 0 then execBad k km pt sz false
    else do
      let pt ← uvmclear pt (sub64 sz1 ((userStack + 1) * 4096))
      execStack k km pt sz1 l (header file).entry file path argv

theorem kexec_bad_header (k : Kernel) (path : List UInt8) (argv : List (List UInt8))
    (h : ¬ HeaderOk file) : kexec k path (some file) argv = .error .hang := by
  unfold kexec
  dsimp only
  split
  · rfl
  · rename_i hgot
    refine if_pos fun hmagic => h ⟨by simpa using hgot, hmagic⟩

theorem kexec_good_header (k : Kernel) (path : List UInt8) (argv : List (List UInt8))
    (h : HeaderOk file) : kexec k path (some file) argv = (do
      let (pt, km) ← procPagetable k.kmem k.p.trapframe
      match pt with
      | none => .error .hang
      | some pt => execTail k path file argv km pt) := by
  unfold kexec
  dsimp only
  rw [if_neg (fun hne => hne h.1), if_neg (fun hne => hne h.2)]
  rfl

/-! ## Harmless files -/

/-- What a file and the process that executes it must be like. -/
structure ExecSafe (k : Kernel) (file : Inode) : Prop where
  /-- If a header is rejected, the table made so far is unmapped up to `sz`. -/
  rejected : HeaderOk file → (scan file).1 = false → pgRoundUp (scan file).2.sz ≤ maxVA
  /-- Otherwise there is room for the guard page and the stack above all segments. -/
  fits : HeaderOk file → (scan file).1 = true →
    pgRoundUp (scan file).2.sz + (userStack + 1) * 4096 ≤ trapframeVA
  /-- An end in the last page of the address space is rounded up to 0. -/
  wraps : HeaderOk file → (scan file).1 = true → 2 ^ 64 - 4096 < (scan file).2.sz →
    ∀ ph ∈ segments file, ph.vaddr < add64 ph.vaddr ph.memsz → (userStack + 1) * 4096 ≤ ph.vaddr
  /-- The old image has no page above the break. -/
  below : HeaderOk file → (scan file).1 = true → ∀ va, va < trapframeVA →
    (k.p.pagetable.pte va).v = true → va < pgRoundUp k.p.sz

/-- `kexec` does not panic, and a new image has its stack above all segments. -/
structure ExecFine (k : Kernel) (path : List UInt8) (file : Inode) (argv : List (List UInt8)) :
    Prop where
  noPanic : ¬ Panics (kexec k path (some file) argv)
  image : ∀ r k', kexec k path (some file) argv = .ok (r, k') → 0 ≤ r → StackOnTop k'.p ∧
    ∀ ph ∈ segments file, ∀ va, ph.vaddr ≤ va → va < add64 ph.vaddr ph.memsz →
      ¬ (k'.p.sz - (userStack + 1) * 4096 ≤ va ∧ va < k'.p.sz)

theorem pgRoundUp_lt (a : Nat) : pgRoundUp a < 2 ^ 64 := by
  unfold pgRoundUp add64
  omega

theorem pgRoundUp_pgRoundUp (h : pgRoundUp a ≤ trapframeVA) :
    pgRoundUp (pgRoundUp a) = pgRoundUp a :=
  pgRoundUp_aligned (pgRoundUp_mod a) h

section

variable {C : Prop} {U S T : Set Nat} {tf : Nat} {k : Kernel} {km : Kmem} {pt : PageTable}

theorem Bare.freed (hvm : VmInv U T km pt) (hbare : Bare tf pt) {sz : Nat}
    (hsz : pgRoundUp sz ≤ maxVA) : ∃ km', procFreepagetable km pt sz = .ok km' := by
  refine (procFreepagetable_iff hvm hbare.top hbare.high).mpr ⟨hsz, fun va hva hv => ?_⟩
  rw [hbare.user va hva] at hv
  cases hv

/-- With room below the trapframe the guard page and the stack are mapped, or memory runs out. -/
theorem uvmalloc_fits {sz : Nat} (hvm : VmInv U T km pt) (hbare : Bare tf pt)
    (hfits : pgRoundUp sz + (userStack + 1) * 4096 ≤ trapframeVA) :
    ∃ sz1 km₁ pt₁, uvmalloc km pt (pgRoundUp sz) (add64 (pgRoundUp sz) ((userStack + 1) * 4096)) =
        .ok (sz1, km₁, pt₁) ∧
      (sz1 ≠ 0 → ∃ pt', uvmclear pt₁ (sub64 sz1 ((userStack + 1) * 4096)) = .ok pt') := by
  have hmx : trapframeVA < maxVA ∧ trapframeVA < 2 ^ 40 := by decide
  unfold userStack at hfits
  have hround := pgRoundUp_pgRoundUp (a := sz) (by omega)
  have hal := pgRoundUp_mod sz
  have hnew : add64 (pgRoundUp sz) ((userStack + 1) * 4096) = pgRoundUp sz + 8192 := by
    unfold add64 userStack
    omega
  have htotal : ∃ r, uvmalloc km pt (pgRoundUp sz) (pgRoundUp sz + 8192) = .ok r := by
    unfold uvmalloc
    have htwo : (pgRoundUp sz + 8192 - pgRoundUp sz + 4095) / 4096 = 2 := by omega
    rw [if_neg (by omega), hround]
    dsimp only
    rw [htwo]
    refine bind_total (uvmallocLoop_total 2 hvm hal (by omega) fun va h1 h2 => ?_)
      fun _ => ⟨_, rfl⟩
    exact hbare.user va (by omega)
  obtain ⟨⟨sz1, km₁, pt₁⟩, hu⟩ := htotal
  refine ⟨sz1, km₁, pt₁, by rw [hnew]; exact hu, fun hz => ?_⟩
  rcases uvmalloc_cases hvm hbare.top hu with ⟨hlt, _⟩ | ⟨hi, _, hsz, _, hge, _, _, _, hgrown⟩ |
    ⟨_, _, hzero, _⟩
  · omega
  · -- the guard page has just been mapped
    have hsub : sub64 sz1 ((userStack + 1) * 4096) = pgRoundUp sz := by
      rw [hsz]
      unfold sub64 userStack
      omega
    rw [hround] at hgrown
    obtain ⟨f, hf, _⟩ := hgrown.fresh (pgRoundUp sz) (Nat.le_refl _) (by omega)
    have htab := table0_of_valid (show (pt₁.pte (pgRoundUp sz)).v = true by rw [hf])
    obtain ⟨t0, ht0⟩ := Option.isSome_iff_exists.mp htab
    rw [hsub, uvmclear, if_neg (by omega), ht0]
    exact ⟨_, rfl⟩
  · exact absurd hzero hz

/-- With room for the stack, `uvmalloc` and `uvmclear` return, and so does the rest. -/
theorem execTail_safe (h : SpaceOk C U S k.kmem k.p) (hok : HeaderOk file) (hsafe : ExecSafe k file)
    (hp : procPagetable k.kmem k.p.trapframe = .ok (some pt, km)) :
    ¬ Panics (execTail k path file argv km pt) := by
  obtain ⟨hvm, hbare, _⟩ := (procPagetable_ok h.held hp).2 pt rfl
  have hmx : trapframeVA < maxVA := by decide
  unfold execTail
  rcases hscan : scan file with ⟨ok, l⟩
  cases ok with
  | false =>
    have hle := hsafe.rejected hok (by rw [hscan])
    rw [hscan] at hle
    obtain ⟨km', hfree⟩ := hbare.freed hvm hle
    dsimp only
    rw [execBad, hfree, ok_bind, if_pos rfl]
    exact not_panics_hang
  | true =>
    have hfits := hsafe.fits hok (by rw [hscan])
    rw [hscan] at hfits
    dsimp only at hfits ⊢
    obtain ⟨sz, km₁, pt₁, hu, hclear⟩ := uvmalloc_fits hvm hbare hfits
    rw [hu, ok_bind]
    dsimp only
    split
    · rename_i hz
      obtain ⟨hvm₁, hbare₁, _⟩ := uvmalloc_failed hvm hbare (hz ▸ hu)
      have hle : pgRoundUp l.sz ≤ trapframeVA := Nat.le_trans (Nat.le_add_right _ _) hfits
      have hagain : pgRoundUp (pgRoundUp l.sz) ≤ maxVA := by
        rw [pgRoundUp_pgRoundUp hle]
        exact Nat.le_trans hle (Nat.le_of_lt hmx)
      obtain ⟨km', hfree⟩ := hbare₁.freed hvm₁ hagain
      rw [execBad, hfree, ok_bind, if_neg (by simp)]
      exact not_panics_ok _
    · rename_i hz
      obtain ⟨pt', hclear⟩ := hclear hz
      have hbuilt : Built k file l km₁ pt' sz := ⟨hscan, km, pt, pt₁, hp, hu, hz, hclear⟩
      rw [hclear, ok_bind]
      obtain ⟨r, hr⟩ := execStack_total h (hsafe.below hok (by rw [hscan])) hbuilt
        (header file).entry path argv
      rw [hr]
      exact not_panics_ok _

theorem kexec_safe (h : SpaceOk C U S k.kmem k.p) (hsafe : ExecSafe k file) :
    ¬ Panics (kexec k path (some file) argv) := by
  by_cases hok : HeaderOk file
  · obtain ⟨⟨pt, km⟩, hp⟩ := procPagetable_total h.held k.p.trapframe
    rw [kexec_good_header k path argv hok, hp, ok_bind]
    cases pt with
    | none => exact not_panics_hang
    | some pt => exact execTail_safe h hok hsafe hp
  · rw [kexec_bad_header k path argv hok]
    exact not_panics_hang

/-! ## The new image -/

theorem scan_layout (h : scan file = (true, l)) :
    l = (segments file).foldl Layout.addSegment Layout.empty :=
  (readSegments_loads h).1

theorem scan_sz_lt (h : scan file = (true, l)) : l.sz < 2 ^ 64 := by
  have hle : l.sz ≤ 2 ^ 64 - 1 := by
    rw [scan_layout h]
    refine fold_sz_le (Nat.zero_le _) fun ph _ => ?_
    have : add64 ph.vaddr ph.memsz < 2 ^ 64 := Nat.mod_lt _ (by decide)
    omega
  omega

/-- A `kexec` that succeeds has got through the headers. -/
theorem Execs.scanned {k' : Kernel} {r : Int} (he : Execs k path (some file) argv r k')
    (hr : 0 ≤ r) : ∃ l, scan file = (true, l) := by
  cases he with
  | missing hip _ _ => cases hip
  | starved _ _ _ _ _ _ _ _ _ hneg _ => omega
  | undone _ _ _ _ _ _ _ _ _ _ hneg _ => omega
  | done file' l km km₁ km₂ km₃ pt sz sp₀ ustack ok d p hip hb =>
    cases hip
    exact ⟨l, hb.layout⟩

theorem kexec_header {k' : Kernel} {r : Int} (hx : kexec k path (some file) argv = .ok (r, k')) :
    HeaderOk file := by
  by_contra hbad
  rw [kexec_bad_header k path argv hbad] at hx
  cases hx

/-- No segment reaches into the stack, unless the end of the image was rounded up to 0. -/
theorem ExecSafe.apart {ph : ProgHdr} (hsafe : ExecSafe k file) (hok : HeaderOk file)
    (hl : scan file = (true, l)) (hph : ph ∈ segments file) (hlo : ph.vaddr ≤ va)
    (hhi : va < add64 ph.vaddr ph.memsz) :
    ¬ (pgRoundUp l.sz ≤ va ∧ va < pgRoundUp l.sz + 8192) := by
  intro hin
  have hend : add64 ph.vaddr ph.memsz ≤ l.sz := by
    rw [scan_layout hl]
    exact fold_sz.2 ph hph
  have hlt := scan_sz_lt hl
  by_cases hwrap : 2 ^ 64 - 4096 < l.sz
  · have hzero : pgRoundUp l.sz = 0 := by
      unfold pgRoundUp add64
      omega
    have hstart := hsafe.wraps hok (by rw [hl]) (by rw [hl]; exact hwrap) ph hph (by omega)
    unfold userStack at hstart
    omega
  · have hle : l.sz ≤ pgRoundUp l.sz := by
      unfold pgRoundUp add64
      omega
    omega

theorem ExecSafe.fine (h : SpaceOk C U S k.kmem k.p) (hsafe : ExecSafe k file) (path : List UInt8)
    (argv : List (List UInt8)) : ExecFine k path file argv := by
  refine ⟨kexec_safe h hsafe, fun r k' hx hr => ?_⟩
  have he := kexec_cases hx
  obtain ⟨l, hl⟩ := he.scanned hr
  obtain ⟨l', himage⟩ := he.newImage h hr
  have hll : l' = l := himage.layout.trans (scan_layout hl).symm
  refine ⟨(he.stackOnTop h hr).1, fun ph hph va hlo hhi hin => ?_⟩
  refine hsafe.apart (kexec_header hx) hl hph hlo hhi ?_
  rw [himage.sz, hll] at hin
  unfold userStack at hin
  omega

/-! ## Harmful files -/

/-- Where the way to the leaf exists `walk` allocates nothing. -/
theorem walkAlloc_of_table0 (h : (pt.table0 va).isSome) :
    walkAlloc km pt va = (true, km, pt) := by
  unfold PageTable.table0 at h
  cases h2 : pt.next (px 2 va) with
  | none => simp [h2] at h
  | some t1 =>
    rw [h2] at h
    obtain ⟨t0, h1⟩ := Option.isSome_iff_exists.mp h
    have h1 : t1.next (px 1 va) = some t0 := h1
    simp [walkAlloc, walkLevel2, walkLevel1, h2, h1]

theorem mappages_remap {perm : Perm} (hal : va % 4096 = 0) (hva : va < maxVA)
    (hv : (pt.pte va).v = true) : Panics (mappages km pt va 4096 f perm) := by
  rw [mappages_page hal hva, walkAlloc_of_table0 (table0_of_valid hv)]
  dsimp only
  rw [if_pos hv]
  exact ⟨_, rfl⟩

theorem mappages_beyond {perm : Perm} (hal : va % 4096 = 0) (hva : maxVA ≤ va) :
    Panics (mappages km pt va 4096 f perm) := by
  unfold mappages
  rw [if_neg (by omega), if_neg (by decide), if_neg (by decide), show 4096 / 4096 = 1 from rfl,
    mappagesLoop, if_pos hva]
  exact ⟨_, rfl⟩

/-- A page of `uvmalloc` that does not panic, with memory to spare. -/
theorem mappages_fresh (f : Nat) (perm : Perm) (hplenty : km.Plentiful) (hvm : VmInv U T km pt)
    (hal : va % 4096 = 0) (hva : va < maxVA) (hv : (pt.pte va).v = false) :
    ∃ km' pt', mappages km pt va 4096 f perm = .ok (true, km', pt') := by
  obtain ⟨ok, km', pt', hm⟩ := mappages_ok f perm hvm hal hva hv
  obtain ⟨hok, _⟩ := mappages_available (kallocs_plentiful 2 hvm.ok hplenty) hvm hal hva hm
  subst hok
  exact ⟨km', pt', hm⟩

theorem plentiful_take {km' : Kmem} (h : km.Takes km' f) (hp : km.Plentiful) (pg : Page) :
    (km'.setRam f pg).Plentiful :=
  hp.mono h.others h.calls

theorem procPagetable_plentiful (hplenty : km.Plentiful) (hheld : Held U T km) (tf : Nat) :
    ∃ pt km', procPagetable km tf = .ok (some pt, km') := by
  have hp : trampolineVA = trapframeVA + 4096 ∧ maxVA = trapframeVA + 8192 ∧
      trapframeVA % 4096 = 0 := by decide
  obtain ⟨htr, hmx, hal⟩ := hp
  obtain ⟨f, km₀, hk⟩ := kalloc_plentiful hplenty
  have hc : uvmcreate km = (some (PageTable.empty f), km₀.setRam f zeroPage) := by
    unfold uvmcreate
    rw [hk]
  obtain ⟨hvm₀, hkeeps₀, hnone₀⟩ := uvmcreate_some hheld hc
  have hplenty₀ := hplenty.mono hkeeps₀.others hkeeps₀.calls
  have htal : trampolineVA % 4096 = 0 := by omega
  obtain ⟨km₁, pt₁, hm₁⟩ := mappages_fresh trampolineFrame ⟨true, false, true, false⟩ hplenty₀ hvm₀
    htal (by omega) (hnone₀ _)
  obtain ⟨hvm₁, hkeeps₁, _, hmaps₁⟩ := mappages_top hvm₀ (by omega) (by omega) (by omega) hm₁
  have hfree : (pt₁.pte trapframeVA).v = false := by
    rw [hmaps₁ _ (by omega), if_neg (by omega)]
    exact hnone₀ _
  obtain ⟨km₂, pt₂, hm₂⟩ := mappages_fresh tf ⟨true, true, false, false⟩
    (hplenty₀.mono hkeeps₁.others hkeeps₁.calls) hvm₁ hal (by omega) hfree
  refine ⟨pt₂, km₂, ?_⟩
  unfold procPagetable
  rw [hc]
  dsimp only
  rw [hm₁, ok_bind]
  dsimp only
  rw [if_neg (by simp), hm₂, ok_bind]
  rfl

/-- One round of `uvmalloc`, with memory to spare. -/
theorem uvmallocLoop_round (base n : Nat) (hplenty : km.Plentiful) (hvm : VmInv U T km pt)
    (hal : a % 4096 = 0) (ha : a < trapframeVA) (hv : (pt.pte a).v = false) :
    ∃ km' pt', uvmallocLoop permURW base (n + 1) km pt a =
        uvmallocLoop permURW base n km' pt' (a + 4096) ∧
      km'.Plentiful ∧ Grown U T a (a + 4096) km pt km' pt' := by
  obtain ⟨f, km₁, hk⟩ := kalloc_plentiful hplenty
  have htake := kalloc_some hvm.ok hk
  obtain ⟨km', pt', hm⟩ := mappages_fresh f permURW
    (plentiful_take htake hplenty zeroPage) (hvm.takeOut htake zeroPage) hal (lt_maxVA ha) hv
  have hgrown := grown_page hvm hal ha hk hm
  refine ⟨km', pt', ?_, hplenty.mono hgrown.keeps.others hgrown.keeps.calls, hgrown⟩
  rw [uvmallocLoop, hk]
  dsimp only
  rw [hm, ok_bind]
  rfl

/-- A round of `uvmalloc` that runs into `MAXVA` or a mapped page. -/
theorem uvmallocLoop_panics {n : Nat} (hk : kalloc km = (some f, km₁)) (hal : a % 4096 = 0)
    (ha : maxVA ≤ a ∨ (pt.pte a).v = true) :
    Panics (uvmallocLoop permURW base (n + 1) km pt a) := by
  rw [uvmallocLoop, hk]
  refine Panics.bind ?_ _
  by_cases hmax : maxVA ≤ a
  · exact mappages_beyond hal hmax
  · exact mappages_remap hal (Nat.lt_of_not_le hmax) (ha.resolve_left hmax)

/-- `uvmalloc` gives up before it has mapped anything. -/
theorem uvmallocLoop_none {n : Nat} (hk : kalloc km = (none, km₁)) :
    uvmallocLoop permURW base (n + 1) km pt base = .ok (false, km₁, pt) := by
  rw [uvmallocLoop, hk]
  dsimp only
  rw [uvmdealloc, if_pos (Nat.le_refl _)]
  rfl

/-- The page below the trapframe needs no page of the table. -/
theorem table0_below_trapframe (hbare : Bare tf pt) : (pt.table0 (trapframeVA - 4096)).isSome := by
  rw [table0_way pt (b := trapframeVA) (by decide)]
  exact table0_of_valid (hbare.top _ (Nat.le_refl _) (by decide)).1

/--
The guard page and the stack do not both fit. `uvmalloc` then runs out of memory, or
into the trapframe, the trampoline or `MAXVA`.
-/
theorem uvmalloc_over (hvm : VmInv U T km pt) (hbare : Bare tf pt) (hal : base % 4096 = 0)
    (hover : trapframeVA < base + 8192) (hsmall : base + 8192 < 2 ^ 64) :
    (kallocs (1 + (trapframeVA - base) / 4096) km = true →
      Panics (uvmalloc km pt base (base + 8192))) ∧
    (kallocs (1 + (trapframeVA - base) / 4096) km = false →
      ∃ km' pt', uvmalloc km pt base (base + 8192) = .ok (0, km', pt')) := by
  have hp : maxVA = trapframeVA + 8192 ∧ trapframeVA % 4096 = 0 ∧ trapframeVA < 2 ^ 40 ∧
      8192 < trapframeVA := by decide
  obtain ⟨hmx, htal, hts, htl⟩ := hp
  have hround : pgRoundUp base = base := by
    unfold pgRoundUp add64
    omega
  have htwo : (base + 8192 - base + 4095) / 4096 = 2 := by omega
  unfold uvmalloc
  rw [if_neg (by omega), hround]
  dsimp only
  rw [htwo]
  rcases hk : kalloc km with ⟨_ | f, km₁⟩
  · rw [Nat.add_comm, kallocs_none hk, uvmallocLoop_none hk]
    exact ⟨(fun h => by cases h), fun _ => ⟨km₁, pt, rfl⟩⟩
  · rw [Nat.add_comm, kallocs_some hk]
    by_cases hlast : base < trapframeVA
    · -- the guard page still fits, and the stack hits the trapframe
      have hbase : base = trapframeVA - 4096 := by omega
      have hone : (trapframeVA - base) / 4096 = 1 := by omega
      have hm : mappages (km₁.setRam f zeroPage) pt base 4096 f permURW =
          .ok (true, km₁.setRam f zeroPage, pt.set base ⟨true, permURW, f⟩) := by
        rw [mappages_page hal (by omega),
          walkAlloc_of_table0 (hbase ▸ table0_below_trapframe hbare)]
        dsimp only
        rw [hbare.user base hlast]
        rfl
      have hgrown := grown_page hvm hal hlast hk hm
      rw [hone, ← kallocs_setRam 1 km₁ f zeroPage, uvmallocLoop, hk]
      dsimp only
      rw [hm, ok_bind]
      dsimp only
      rw [if_pos rfl]
      rcases hk₂ : kalloc (km₁.setRam f zeroPage) with ⟨_ | g, km₂⟩
      · rw [kallocs_none hk₂ 0]
        refine ⟨(fun h => by cases h), fun _ => ?_⟩
        obtain ⟨km', pt', hd, _⟩ := uvmdealloc_spec base (hgrown.inv.idle (kalloc_none hk₂))
          (show base + 4096 ≤ trapframeVA by omega)
        rw [uvmallocLoop, hk₂]
        dsimp only
        rw [hd]
        exact ⟨km', pt', rfl⟩
      · rw [kallocs_some hk₂ 0]
        refine ⟨fun _ => Panics.bind (uvmallocLoop_panics hk₂ (by omega) (Or.inr ?_)) _,
          fun h => by cases h⟩
        rw [hgrown.rest _ (by omega) (Or.inr (Nat.le_refl _))]
        exact (hbare.top _ (by omega) (by omega)).1
    · have hzero : (trapframeVA - base) / 4096 = 0 := by omega
      rw [hzero]
      refine ⟨fun _ => Panics.bind (uvmallocLoop_panics hk hal ?_) _, fun h => by cases h⟩
      by_cases hmax : maxVA ≤ base
      · exact Or.inl hmax
      · exact Or.inr (hbare.top _ (Nat.le_of_not_lt hlast) (Nat.lt_of_not_le hmax)).1

/-- The size wraps around: `uvmalloc` returns the old one, and `walk` panics in `uvmclear`. -/
theorem uvmalloc_wraps (km : Kmem) (pt : PageTable) (hlt : base < 2 ^ 64)
    (hwrap : 2 ^ 64 ≤ base + 8192) :
    uvmalloc km pt base (add64 base ((userStack + 1) * 4096)) = .ok (base, km, pt) ∧
      Panics (uvmclear pt (sub64 base ((userStack + 1) * 4096))) := by
  have hmx : maxVA < 2 ^ 40 := by decide
  constructor
  · unfold uvmalloc
    rw [if_pos]
    unfold add64 userStack
    omega
  · have hbig : maxVA ≤ sub64 base ((userStack + 1) * 4096) := by
      unfold sub64 userStack
      omega
    rw [uvmclear, if_pos hbig]
    exact ⟨_, rfl⟩

/-- **Without room for the stack `kexec` panics**, in `uvmalloc` or, after a wrap-around, in
`uvmclear`. -/
theorem execTail_panics (hplenty : km.Plentiful) (hvm : VmInv U T km pt) (hbare : Bare tf pt)
    (hl : scan file = (true, l)) (hover : trapframeVA < pgRoundUp l.sz + (userStack + 1) * 4096) :
    Panics (execTail k path file argv km pt) := by
  unfold userStack at hover
  have hts : trapframeVA < 2 ^ 40 := by decide
  have hlt := pgRoundUp_lt l.sz
  unfold execTail
  rw [hl]
  dsimp only
  by_cases hwrap : 2 ^ 64 ≤ pgRoundUp l.sz + 8192
  · obtain ⟨hu, hclear⟩ := uvmalloc_wraps km pt hlt hwrap
    rw [hu, ok_bind]
    dsimp only
    rw [if_neg (by omega)]
    exact hclear.bind _
  · have hnew : add64 (pgRoundUp l.sz) ((userStack + 1) * 4096) = pgRoundUp l.sz + 8192 := by
      unfold add64 userStack
      omega
    rw [hnew]
    refine Panics.bind ((uvmalloc_over hvm hbare (pgRoundUp_mod _) hover (by omega)).1 ?_) _
    exact kallocs_plentiful _ hvm.ok hplenty

/-- What lies within the stack page can be written to it. -/
theorem copyoutNew_stack {km₀ : Kmem} {dst : Nat} {src : List UInt8}
    (h : FreshTable tf U T km₀ km₁ pt base) (km : Kmem) (hlo : base + 4096 ≤ dst)
    (hhi : dst + src.length ≤ base + 8192) : ∃ km', copyoutNew km pt dst src = .ok (true, km') := by
  have hbase := h.aligned
  have hbound := h.bound
  have hmx : trapframeVA < maxVA := by decide
  unfold copyoutNew
  cases hsrc : src with
  | nil => exact ⟨km, rfl⟩
  | cons b bs =>
    rw [← hsrc]
    have hpos : src.length = bs.length + 1 := by rw [hsrc]; rfl
    have hpage : pgRoundDown dst = base + 4096 := by
      unfold pgRoundDown
      omega
    obtain ⟨f, hf, _⟩ := h.stack (base + 4096) (Nat.le_refl _) (by omega)
    have hwalk : walkaddr pt (base + 4096) = some f := by
      rw [walkaddr, if_neg (by omega), hf]
      rfl
    have hmin : min (4096 - (dst - (base + 4096))) src.length = src.length := by omega
    rw [hpos, copyoutLoop, if_neg (by rw [hsrc]; simp), ok_bind, hpage, hf, hwalk]
    rw [if_pos (show permURW.w = true from rfl)]
    dsimp only
    rw [hmin, List.drop_length]
    cases bs.length with
    | zero => exact ⟨_, rfl⟩
    | succ n =>
      exact ⟨_, by rw [copyoutLoop, if_pos (show ([] : List UInt8).isEmpty = true from rfl)]⟩

/-- With memory to spare and no arguments, only the old image is in the way of `kexec`. -/
theorem execTail_noArgs (path : List UInt8) (h : SpaceOk C U S k.kmem k.p)
    (hplenty : k.kmem.Plentiful) (hp : procPagetable k.kmem k.p.trapframe = .ok (some pt, km))
    (hl : scan file = (true, l)) (hfits : pgRoundUp l.sz + (userStack + 1) * 4096 ≤ trapframeVA) :
    ∃ T km₁, ∃ g : Kmem → Kernel, VmInv U T km₁ k.p.pagetable ∧ execTail k path file [] km pt =
      (procFreepagetable km₁ k.p.pagetable k.p.sz >>= fun km => .ok (0, g km)) := by
  unfold userStack at hfits
  obtain ⟨hvm, hbare, hkeeps⟩ := (procPagetable_ok h.held hp).2 pt rfl
  have hmx : trapframeVA < maxVA ∧ trapframeVA < 2 ^ 40 ∧ maxVA = trapframeVA + 8192 := by decide
  have hround := pgRoundUp_pgRoundUp (a := l.sz) (by omega)
  have hal := pgRoundUp_mod l.sz
  have hnew : add64 (pgRoundUp l.sz) ((userStack + 1) * 4096) = pgRoundUp l.sz + 8192 := by
    unfold add64 userStack
    omega
  -- the guard page and the stack
  obtain ⟨km₁, pt₁, heq₁, hplenty₁, hgrown₁⟩ := uvmallocLoop_round (pgRoundUp l.sz) 1
    (hplenty.mono hkeeps.others hkeeps.calls) hvm hal (by omega) (hbare.user _ (by omega))
  have hfree : (pt₁.pte (pgRoundUp l.sz + 4096)).v = false := by
    rw [hgrown₁.rest _ (by omega) (Or.inr (Nat.le_refl _))]
    exact hbare.user _ (by omega)
  obtain ⟨km₂, pt₂, heq₂, _, hgrown₂⟩ := uvmallocLoop_round (pgRoundUp l.sz) 0 hplenty₁ hgrown₁.inv
    (by omega) (by omega) hfree
  have hu : uvmalloc km pt (pgRoundUp l.sz) (pgRoundUp l.sz + 8192) =
      .ok (pgRoundUp l.sz + 8192, km₂, pt₂) := by
    have htwo : (pgRoundUp l.sz + 8192 - pgRoundUp l.sz + 4095) / 4096 = 2 := by omega
    unfold uvmalloc
    rw [if_neg (by omega), hround]
    dsimp only
    rw [htwo, heq₁, heq₂]
    rfl
  have hsub : sub64 (pgRoundUp l.sz + 8192) ((userStack + 1) * 4096) = pgRoundUp l.sz := by
    unfold sub64 userStack
    omega
  obtain ⟨pt₃, hclear⟩ : ∃ pt', uvmclear pt₂ (pgRoundUp l.sz) = .ok pt' := by
    obtain ⟨f, hf, _⟩ := hgrown₁.fresh (pgRoundUp l.sz) (Nat.le_refl _) (by omega)
    have hv : (pt₂.pte (pgRoundUp l.sz)).v = true := by
      rw [hgrown₂.rest _ (by omega) (Or.inl (by omega)), hf]
    obtain ⟨t0, ht0⟩ := Option.isSome_iff_exists.mp (table0_of_valid hv)
    rw [uvmclear, if_neg (by omega), ht0]
    exact ⟨_, rfl⟩
  have hbuilt : Built k file l km₂ pt₃ (pgRoundUp l.sz + 8192) := by
    refine ⟨hl, km, pt, pt₂, hp, ?_, by omega, ?_⟩
    · rw [hnew]
      exact hu
    · rw [hsub]
      exact hclear
  obtain ⟨_, hfresh⟩ := hbuilt.fresh h.held
  -- sixteen bytes for the array of no arguments
  have hsp : pushSp (pgRoundUp l.sz + 8192) ((([] : List Nat).length + 1) * 8) =
      pgRoundUp l.sz + 8192 - 16 := by
    have hmod : (pgRoundUp l.sz + 8192) % 16 = 0 := by omega
    rw [(pushSp_eq hmod (by simp) (by omega)).1]
    rfl
  have hbase : sub64 (pgRoundUp l.sz + 8192) (userStack * 4096) = pgRoundUp l.sz + 4096 := by
    unfold sub64 userStack
    omega
  have hlen : ((([] : List Nat).reverse ++ [0]).flatMap le64).length = 8 := rfl
  have hend : pgRoundUp l.sz + 8192 - 16 + ((([] : List Nat).reverse ++ [0]).flatMap le64).length ≤
      pgRoundUp l.sz + 8192 := by omega
  obtain ⟨km₃, hcopy⟩ := copyoutNew_stack hfresh km₂ (by omega) hend
  have hvm₃ := (copyoutNew_pushed _ hcopy).vm hfresh.vm
  obtain ⟨q, hq⟩ : ∃ q, q = swapfileCreate k.disk (k.p.commit l pt₃ (pgRoundUp l.sz + 8192)
    (pgRoundUp l.sz + 8192 - 16) (header file).entry file path) := ⟨_, rfl⟩
  refine ⟨_, km₃, fun km => { k with kmem := km, disk := q.2.1, p := q.2.2 },
    hvm₃.swapSides h.vm.apart, ?_⟩
  unfold execTail
  rw [hl]
  dsimp only
  rw [hnew, hu, ok_bind]
  dsimp only
  rw [if_neg (by omega), hsub, hclear, ok_bind]
  unfold execStack
  dsimp only
  rw [hbase, pushArgs, ok_bind]
  dsimp only
  rw [hsp, if_neg (by omega), hcopy, ok_bind, hq]
  rfl

end

/-- **Every other file does harm**, with memory to spare. -/
theorem execSafe_of_fine {C : Prop} {U S : Set Nat} {k : Kernel} (h : SpaceOk C U S k.kmem k.p)
    (hplenty : k.kmem.Plentiful) (hfine : ∀ path argv, ExecFine k path file argv) :
    ExecSafe k file := by
  obtain ⟨pt, km, hp⟩ := procPagetable_plentiful hplenty h.held k.p.trapframe
  obtain ⟨hvm, hbare, hkeeps⟩ := (procPagetable_ok h.held hp).2 pt rfl
  have htail : ∀ path argv, HeaderOk file →
      kexec k path (some file) argv = execTail k path file argv km pt := by
    intro path argv hok
    rw [kexec_good_header k path argv hok, hp, ok_bind]
  have hfits : ∀ l, HeaderOk file → scan file = (true, l) →
      pgRoundUp l.sz + (userStack + 1) * 4096 ≤ trapframeVA := by
    intro l hok hl
    by_contra hover
    refine (hfine [] []).noPanic ?_
    rw [htail _ _ hok]
    exact execTail_panics (hplenty.mono hkeeps.others hkeeps.calls) hvm hbare hl
      (Nat.lt_of_not_le hover)
  have hbelow : HeaderOk file → (scan file).1 = true → ∀ va, va < trapframeVA →
      (k.p.pagetable.pte va).v = true → va < pgRoundUp k.p.sz := by
    intro hok htrue
    obtain ⟨T, km₁, g, hold, heq⟩ := execTail_noArgs [] h hplenty hp
      (Prod.ext htrue rfl) (hfits _ hok (Prod.ext htrue rfl))
    by_contra hnot
    refine (hfine [] []).noPanic ?_
    rw [htail _ _ hok, heq]
    refine Panics.bind (Panics.of_stops (procFreepagetable_stops _ _ _) fun hdone => hnot ?_) _
    exact ((procFreepagetable_iff hold h.top h.high).mp hdone).2
  refine ⟨fun hok hfalse => ?_, fun hok htrue => hfits _ hok (Prod.ext htrue rfl),
    fun hok htrue hwrap ph hph hne => ?_, hbelow⟩
  · by_contra hbig
    refine (hfine [] []).noPanic ?_
    rw [htail _ _ hok, execTail, show scan file = (false, (scan file).2) from Prod.ext hfalse rfl]
    refine Panics.bind (Panics.of_stops (procFreepagetable_stops _ _ _) fun hdone => hbig ?_) _
    exact ((procFreepagetable_iff hvm hbare.top hbare.high).mp hdone).1
  · -- the image is rounded up to nothing, and the stack comes to lie at 0
    have hl : scan file = (true, (scan file).2) := Prod.ext htrue rfl
    obtain ⟨T, km₁, g, hold, heq⟩ := execTail_noArgs [] h hplenty hp hl (hfits _ hok hl)
    have hle := pgRoundUp_le_trapframe h.brk
    have hmx : trapframeVA < maxVA := by decide
    obtain ⟨km₂, hfree⟩ :=
      (procFreepagetable_iff hold h.top h.high).mpr ⟨by omega, hbelow hok htrue⟩
    have hx : kexec k [] (some file) [] = .ok (0, g km₂) := by
      rw [htail _ _ hok, heq, hfree]
      rfl
    obtain ⟨l, himage⟩ := (kexec_cases hx).newImage h (Int.le_refl 0)
    have hzero : pgRoundUp (scan file).2.sz = 0 := by
      have hlt := scan_sz_lt hl
      unfold pgRoundUp add64
      omega
    have hsz : (g km₂).p.sz = 8192 := by
      rw [himage.sz, himage.layout, ← scan_layout hl, hzero]
    have hout := ((hfine [] []).image 0 _ hx (Int.le_refl 0)).2 ph hph ph.vaddr (Nat.le_refl _) hne
    rw [hsz] at hout
    unfold userStack at hout ⊢
    omega

/--
**Exec is robust against the files of `ExecSafe`**, and, with memory to spare, against
no others.
-/
theorem exec_robust_iff {k : Kernel} (h : Reachable k) (file : Inode) :
    (ExecSafe k file → ∀ path argv, ExecFine k path file argv) ∧
      (k.kmem.Plentiful → (∀ path argv, ExecFine k path file argv) → ExecSafe k file) := by
  obtain ⟨S, hok⟩ := reachable_spaceInv h
  exact ⟨fun hsafe path argv => hsafe.fine hok path argv, execSafe_of_fine hok⟩

/-- A data segment that ends right below the trapframe. -/
def topSegment : Inode := fileOf (elfHeader 1 ++ loadHeader 6 120 (trapframeVA - 4096) 0 4096)

theorem exec_robust_iff_one_page : ∃ k, Reachable k ∧ ExecFine k [47] onePage [[65]] := by
  have hrun : (bootKernel []).map (fun _ => ((scan onePage).1, (scan onePage).2.sz)) =
      some (true, 4096) := by
    decide +kernel
  obtain ⟨k, hk, hfacts⟩ := Option.map_eq_some_iff.mp hrun
  obtain ⟨hscan, hsz⟩ := Prod.mk.inj hfacts
  have hboot := bootKernel_boot hk
  obtain ⟨S, hok⟩ := Boot.spaceInv (C := True) hboot
  have hsafe : ExecSafe k onePage := by
    refine ⟨fun _ hfalse => ?_, fun _ _ => ?_, fun _ _ hwrap => ?_, fun _ _ => hok.below trivial⟩
    · rw [hscan] at hfalse
      cases hfalse
    · rw [hsz]
      decide
    · rw [hsz] at hwrap
      omega
  exact ⟨k, .boot hboot, (exec_robust_iff (.boot hboot) onePage).1 hsafe [47] [[65]]⟩

/-- Whether `kexec` found a page mapped where it wants to map one. -/
def execRemaps : Except Halt (Int × Kernel) → Bool
  | .error (.panic .remap) => true
  | _ => false

theorem panics_of_execRemaps {x : Except Halt (Int × Kernel)} (h : execRemaps x = true) :
    Panics x := by
  unfold execRemaps at h
  split at h
  · exact ⟨_, rfl⟩
  · cases h

/-- The stack is put on top of the trapframe. -/
theorem exec_can_panic : ¬ ∀ k path file argv, Reachable k → ExecFine k path file argv := by
  intro hall
  have hrun : (bootKernel []).map (fun k => execRemaps (kexec k [47] (some topSegment) [])) =
      some true := by
    decide +kernel
  obtain ⟨k, hk, hremaps⟩ := Option.map_eq_some_iff.mp hrun
  exact (hall k [47] topSegment [] (.boot (bootKernel_boot hk))).noPanic
    (panics_of_execRemaps hremaps)

end Xv6Paging.Proof
