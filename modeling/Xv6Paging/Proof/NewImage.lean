import Xv6Paging.Proof.Space

/-!
# The image `kexec` leaves

`kexec` loads no segment; it folds the `PT_LOAD` headers into one record for text
and one for data. The stack is mapped above the segments and holds the arguments,
and nothing else is mapped.
-/

namespace Xv6Paging.Proof

open Xv6Paging Lib

variable {tf : Nat}

/-! ## Headers and records -/

/-- The program header at `off`. -/
def headerAt (ip : Inode) (off : Nat) : ProgHdr := progHdr (readi ip (fun _ : Fin 56 => 0) off 56).2

/-- The `PT_LOAD` headers, in the order `kexec` reads them. -/
def loadHeaders (ip : Inode) : Nat → Nat → List ProgHdr
  | 0, _ => []
  | n + 1, off =>
    if (headerAt ip off).type = 1 then headerAt ip off :: loadHeaders ip n (toUint (off + 56))
    else loadHeaders ip n (toUint (off + 56))

/-- The segments of an executable. -/
def segments (ip : Inode) : List ProgHdr :=
  let elf := elfHdr (readi ip (fun _ : Fin 64 => 0) 0 64).2
  loadHeaders ip elf.phnum (toUint elf.phoff)

/-- The program-header loop is a fold over the segments, each of which passed its tests. -/
theorem readSegments_loads {ip : Inode} : ∀ {n off : Nat} {l l' : Layout},
    readSegments ip n off l = (true, l') →
      l' = (loadHeaders ip n off).foldl Layout.addSegment l ∧
        ∀ ph ∈ loadHeaders ip n off, ph.accepted = true := by
  intro n
  induction n with
  | zero =>
    intro off l l' h
    cases h
    exact ⟨rfl, fun ph hph => by simp [loadHeaders] at hph⟩
  | succ n ih =>
    intro off l l' h
    rw [readSegments] at h
    dsimp only at h
    rw [loadHeaders]
    split at h
    · simp at h
    · split at h
      · rename_i htype
        rw [if_neg (show ¬ (headerAt ip off).type = 1 from htype)]
        exact ih h
      · rename_i htype
        rw [if_pos (show (headerAt ip off).type = 1 from not_not.mp htype)]
        split at h
        · simp at h
        · rename_i hacc
          obtain ⟨hl, hall⟩ := ih h
          refine ⟨hl, fun ph hph => ?_⟩
          rcases List.mem_cons.mp hph with rfl | hph
          · have hacc' : (headerAt ip off).accepted = true := by
              unfold headerAt
              simpa using hacc
            exact hacc'
          · exact hall ph hph

/-- `PF_X` makes a segment text. -/
def isText (ph : ProgHdr) : Bool := ph.flags % 2 == 1

/-- What `kexec` keeps of the segments of one kind. -/
structure Record where
  start : Nat
  fin : Nat
  off : Nat
  filesz : Nat
  deriving DecidableEq

/-- The text record or the data record. -/
def recordOf (l : Layout) : Bool → Record
  | true => ⟨l.textStart, l.textEnd, l.textOff, l.textFilesz⟩
  | false => ⟨l.dataStart, l.dataEnd, l.dataOff, l.dataFilesz⟩

theorem recordOf_addSegment (l : Layout) (ph : ProgHdr) (kind : Bool) :
    recordOf (l.addSegment ph) kind =
      if isText ph = kind then
        ⟨if (recordOf l kind).start = 0 then ph.vaddr else (recordOf l kind).start,
          add64 ph.vaddr ph.memsz, toUint ph.off, toUint ph.filesz⟩
      else recordOf l kind := by
  unfold Layout.addSegment
  dsimp only
  by_cases hf : ph.flags % 2 = 1
  · have ht : isText ph = true := by simp [isText, hf]
    rw [if_pos hf, ht]
    cases kind with
    | true => rw [if_pos rfl]; rfl
    | false => rw [if_neg (show ¬ true = false by decide)]; rfl
  · have ht : isText ph = false := by simp [isText, hf]
    rw [if_neg hf, ht]
    cases kind with
    | true => rw [if_neg (show ¬ false = true by decide)]; rfl
    | false => rw [if_pos rfl]; rfl

theorem recordOf_fold_none {kind : Bool} : ∀ {hs : List ProgHdr} {l : Layout},
    (∀ ph ∈ hs, isText ph ≠ kind) → recordOf (hs.foldl Layout.addSegment l) kind =
      recordOf l kind := by
  intro hs
  induction hs with
  | nil => intro l _; rfl
  | cons a hs ih =>
    intro l h
    rw [List.foldl_cons, ih fun ph hph => h ph (List.mem_cons_of_mem a hph), recordOf_addSegment,
      if_neg (h a List.mem_cons_self)]

/-- **The only segment of its kind** is what the record describes. -/
theorem recordOf_fold_one {kind : Bool} {ph : ProgHdr} : ∀ {hs : List ProgHdr} {l : Layout},
    ph ∈ hs → isText ph = kind → (hs.filter fun x => isText x == kind).length ≤ 1 →
    (recordOf l kind).start = 0 → recordOf (hs.foldl Layout.addSegment l) kind =
      ⟨ph.vaddr, add64 ph.vaddr ph.memsz, toUint ph.off, toUint ph.filesz⟩ := by
  intro hs
  induction hs with
  | nil => intro l hph; simp at hph
  | cons a hs ih =>
    intro l hph hkind hone hstart
    rw [List.foldl_cons]
    by_cases ha : isText a = kind
    · -- nothing of this kind follows
      rw [List.filter_cons_of_pos (by simp [ha]), List.length_cons] at hone
      have hnone : ∀ x ∈ hs, isText x ≠ kind := by
        intro x hx hxk
        have hmem : x ∈ hs.filter fun x => isText x == kind :=
          List.mem_filter.mpr ⟨hx, by simp [hxk]⟩
        have := List.length_pos_of_mem hmem
        omega
      have hpa : ph = a := by
        rcases List.mem_cons.mp hph with heq | hmem
        · exact heq
        · exact absurd hkind (hnone ph hmem)
      rw [recordOf_fold_none hnone, recordOf_addSegment, if_pos ha, if_pos hstart, hpa]
    · have hph' : ph ∈ hs := by
        rcases List.mem_cons.mp hph with heq | hmem
        · exact absurd (heq ▸ hkind) ha
        · exact hmem
      rw [List.filter_cons_of_neg (by simpa using ha)] at hone
      refine ih hph' hkind hone ?_
      rw [recordOf_addSegment, if_neg ha]
      exact hstart

theorem fold_sz {hs : List ProgHdr} : ∀ {l : Layout}, l.sz ≤ (hs.foldl Layout.addSegment l).sz ∧
    ∀ ph ∈ hs, add64 ph.vaddr ph.memsz ≤ (hs.foldl Layout.addSegment l).sz := by
  induction hs with
  | nil => intro l; exact ⟨Nat.le_refl _, fun ph hph => by simp at hph⟩
  | cons a hs ih =>
    intro l
    rw [List.foldl_cons]
    obtain ⟨hle, hall⟩ := ih (l := l.addSegment a)
    have hsz : (l.addSegment a).sz = if add64 a.vaddr a.memsz > l.sz then add64 a.vaddr a.memsz
        else l.sz := by
      unfold Layout.addSegment
      dsimp only
      split <;> rfl
    have hmax : l.sz ≤ (l.addSegment a).sz ∧ add64 a.vaddr a.memsz ≤ (l.addSegment a).sz := by
      rw [hsz]
      split <;> omega
    refine ⟨Nat.le_trans hmax.1 hle, fun ph hph => ?_⟩
    rcases List.mem_cons.mp hph with rfl | hph
    · exact Nat.le_trans hmax.2 hle
    · exact hall ph hph

/-! ## The pushed arguments -/

/-- `n` bytes on a stack that stays 16-byte aligned. -/
def pushed (n : Nat) : Nat := (n + 15) / 16 * 16

/-- The bytes `kexec` pushes: each string with its NUL, then the array of pointers. -/
def argBytes (argv : List (List UInt8)) : Nat :=
  (argv.map fun a => pushed (a.length + 1)).sum + pushed ((argv.length + 1) * 8)

theorem pushSp_eq {sp n : Nat} (hsp : sp % 16 = 0) (hn : n ≤ sp) (hmax : sp < 2 ^ 64) :
    pushSp sp n = sp - pushed n ∧ pushed n ≤ sp := by
  have hsub : sub64 sp n = sp - n := by unfold sub64; omega
  unfold pushSp pushed
  rw [hsub]
  dsimp only
  omega

/-- The first round of a store that went through. -/
theorem copyoutNew_first {pt : PageTable} {fuel dst : Nat} {km km' : Kmem} {src : List UInt8}
    (hsrc : src ≠ [])
    (hc : copyoutLoop (fun km va0 => .ok (if (pt.pte va0).perm.w then walkaddr pt va0 else none,
      km))
      Kmem.store fuel km dst src = .ok (true, km')) :
    ∃ n f km₁, walkaddr pt (pgRoundDown dst) = some f ∧
      copyoutLoop (fun km va0 => .ok (if (pt.pte va0).perm.w then walkaddr pt va0 else none, km))
        Kmem.store n km₁ (pgRoundDown dst + 4096)
        (src.drop (min (4096 - (dst - pgRoundDown dst)) src.length)) = .ok (true, km') := by
  have hne : src.isEmpty = false := by simpa using hsrc
  cases fuel with
  | zero =>
    rw [copyoutLoop, hne] at hc
    simp at hc
  | succ n =>
    rw [copyoutLoop, hne] at hc
    simp only [Bool.false_eq_true, if_false, ok_bind] at hc
    split at hc
    · simp at hc
    · rename_i f hfind
      split at hfind
      · exact ⟨n, f, _, hfind, hc⟩
      · simp at hfind

/-- A store that went through lies in the stack page. -/
theorem copyoutNew_within {U T : Set Nat} {km₀ km₁ km km' : Kmem} {pt : PageTable} {base dst : Nat}
    {src : List UInt8} (h : FreshTable tf U T km₀ km₁ pt base) (hsrc : src ≠ [])
    (hc : copyoutNew km pt dst src = .ok (true, km')) :
    base + 4096 ≤ dst ∧ dst + src.length ≤ base + 8192 := by
  have hmx : trapframeVA < maxVA := by decide
  have hbase := h.aligned
  -- the stack is the only page the user may write to
  have hpage : ∀ {va0 f : Nat}, va0 % 4096 = 0 → walkaddr pt va0 = some f → va0 = base + 4096 := by
    intro va0 f hal hw
    obtain ⟨hmax, hv, hu, _⟩ := walkaddr_some hw
    have hbound := h.bound
    by_cases hlow : va0 < trapframeVA
    · by_cases hin : base ≤ va0 ∧ va0 < base + 8192
      · by_cases hguard : va0 < base + 4096
        · obtain ⟨g, hg⟩ := h.guard va0 hin.1 hguard
          rw [hg] at hu
          simp at hu
        · omega
      · rw [h.nothing va0 hlow (by omega)] at hv
        simp at hv
    · rw [(h.top va0 (Nat.le_of_not_lt hlow) hmax).2.1] at hu
      simp at hu
  obtain ⟨n, f, km₂, hw, hrest⟩ := copyoutNew_first hsrc hc
  have hfirst := hpage (pgRoundDown_mod dst) hw
  have hle := pgRoundDown_le dst
  have hlt : dst < pgRoundDown dst + 4096 := by unfold pgRoundDown; omega
  by_cases hend : src.drop (min (4096 - (dst - pgRoundDown dst)) src.length) = []
  · have hlen := List.drop_eq_nil_iff.mp hend
    omega
  · -- a second round would have to find another writable page
    obtain ⟨_, g, _, hw', _⟩ := copyoutNew_first hend hrest
    have hsecond := hpage (pgRoundDown_mod _) hw'
    rw [hfirst, pgRoundDown_eq_of_mod (by omega)] at hsecond
    omega

/-- **The argument loop** leaves the stack pointer that many bytes below. -/
theorem pushArgs_sp {U T : Set Nat} {km₀ km₁ : Kmem} {pt : PageTable} {base : Nat}
    (h : FreshTable tf U T km₀ km₁ pt base) : ∀ (argv : List (List UInt8)) {km km' : Kmem}
    {sp sp' : Nat} {ustack ustack' : List Nat}, sp % 16 = 0 → base + 4096 ≤ sp → sp ≤ base + 8192 →
    pushArgs pt (base + 4096) argv km sp ustack = .ok (some (sp', ustack'), km') →
      sp' % 16 = 0 ∧ base + 4096 ≤ sp' ∧ sp' + (argv.map fun a => pushed (a.length + 1)).sum = sp ∧
        ustack'.length = ustack.length + argv.length ∧ ustack'.length ≤ max ustack.length 32 := by
  have hbound := h.bound
  have htf : trapframeVA < 2 ^ 40 := by decide
  intro argv
  induction argv with
  | nil =>
    intro km km' sp sp' ustack ustack' hal hlo hhi hp
    cases hp
    simp [hal, hlo]
  | cons a argv ih =>
    intro km km' sp sp' ustack ustack' hal hlo hhi hp
    rw [pushArgs] at hp
    split at hp
    · simp at hp
    · rename_i hmany
      dsimp only at hp
      split at hp
      · simp at hp
      · rename_i hbelow
        obtain ⟨⟨ok, km₂⟩, hcopy, hrest⟩ := bind_eq_ok.mp hp
        cases ok with
        | false => simp at hrest
        | true =>
          obtain ⟨hin, hout⟩ := copyoutNew_within h (by simp) hcopy
          rw [List.length_append, List.length_singleton] at hout
          obtain ⟨hpush, hle⟩ := pushSp_eq hal (n := a.length + 1) (by omega) (by omega)
          have hmul : pushed (a.length + 1) % 16 = 0 := by unfold pushed; omega
          rw [hpush] at hrest hin
          obtain ⟨h1, h2, h3, h4, h5⟩ := ih (by omega) hin (by omega) hrest
          rw [List.length_cons] at h4 h5
          refine ⟨h1, h2, ?_, ?_, ?_⟩
          · rw [List.map_cons, List.sum_cons]
            omega
          · rw [List.length_cons]
            omega
          · have hmax : maxArg = 32 := rfl
            omega

/-! ## The new image -/

/-- The text record or the data record a process goes by. -/
def procRecord (p : Proc) : Bool → Record
  | true => ⟨p.textStart, p.textEnd, p.textOff, p.textFilesz⟩
  | false => ⟨p.dataStart, p.dataEnd, p.dataOff, p.dataFilesz⟩

/-- What a successful `kexec` of `file` leaves behind. -/
structure NewImage (file : Inode) (argv : List (List UInt8)) (l : Layout) (k k' : Kernel) :
    Prop where
  layout : l = (segments file).foldl Layout.addSegment Layout.empty
  accepted : ∀ ph ∈ segments file, ph.accepted = true
  record : ∀ kind, procRecord k'.p kind = recordOf l kind
  execIp : k'.p.execIp = some file
  sz : k'.p.sz = pgRoundUp l.sz + 8192
  bound : pgRoundUp l.sz + 8192 ≤ trapframeVA
  stackTop : k'.p.stackTop + argBytes argv = k'.p.sz
  /-- No segment is mapped. -/
  nothing : ∀ va, va < pgRoundUp l.sz → (k'.p.pagetable.pte va).v = false
  /-- The entries are those of the old image. -/
  memstat : k'.p.memstat = k.p.memstat
  killed : k'.p.killed = k.p.killed

theorem Execs.newImage {C : Prop} {U S : Set Nat} {k k' : Kernel} {path : List UInt8} {file : Inode}
    {argv : List (List UInt8)} {r : Int} (he : Execs k path (some file) argv r k')
    (h : SpaceOk C U S k.kmem k.p) (hr : 0 ≤ r) : ∃ l, NewImage file argv l k k' := by
  cases he with
  | missing hip _ _ => simp at hip
  | starved _ _ _ _ _ _ _ _ _ hneg _ => omega
  | undone _ _ _ _ _ _ _ _ _ _ hneg _ => omega
  | done file' l km km₁ km₂ km₃ pt sz sp₀ ustack ok d p hip hb hargs hsp hcopy _ hcreate _ hk' =>
    cases hip
    obtain ⟨hsz, hfresh⟩ := hb.fresh h.held
    obtain ⟨hl, hacc⟩ := readSegments_loads hb.layout
    obtain ⟨swapfile, hp⟩ := swapfileCreate_eq hcreate
    have hbound := hfresh.bound
    have hbase := hfresh.aligned
    have htf : trapframeVA < 2 ^ 40 := by decide
    have hstack : sub64 sz (userStack * 4096) = pgRoundUp l.sz + 4096 := by
      rw [hsz]
      unfold sub64 userStack
      omega
    rw [hstack] at hargs
    obtain ⟨hal, hlo, hsum, hlen, hmany⟩ := pushArgs_sp hfresh argv (by omega) (by omega) (by omega)
      hargs
    simp only [List.length_nil, Nat.zero_add, Nat.max_eq_right (Nat.zero_le 32)] at hlen hmany
    obtain ⟨hpush, hle⟩ := pushSp_eq hal (n := (ustack.length + 1) * 8) (by omega) (by omega)
    refine ⟨l, hl, hacc, fun kind => ?_, ?_, ?_, hbound, ?_, ?_, ?_, ?_⟩
    · rw [hk', hp]
      cases kind <;> rfl
    · rw [hk', hp]; rfl
    · rw [hk', hp]; exact hsz
    · have hargb : (pushSp sp₀ ((ustack.length + 1) * 8)) + argBytes argv = sz := by
        rw [hpush]
        unfold argBytes
        rw [← hlen]
        omega
      rw [hk', hp]
      exact hargb
    · intro va hva
      rw [hk', hp]
      exact hfresh.nothing va (by omega) (Or.inl hva)
    · rw [hk', hp]; rfl
    · rw [hk', hp]; rfl

end Xv6Paging.Proof
