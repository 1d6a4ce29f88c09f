import Xv6Paging.Kernel.Namei

/-!
# Path lookup is a fold

A lookup holds one reference, to the inode it has come to, and a second one for a moment; it holds a
lock only while it looks at a directory. `Plus s e w` says that the tables are those of `s` with the
references `e` on top. The lookup changes nothing else, and so it follows the directory tree of `s`.
-/

namespace Xv6Paging.Namei

open Lib

/-! ## The elements of a path -/

/-- The non-empty parts between the slashes, cut to `DIRSIZ` characters. -/
def components (path : List UInt8) : List Name :=
  ((path.splitOn 47).filter (· ≠ [])).map (·.take 14)

theorem components_slash (path : List UInt8) : components (47 :: path) = components path := by
  rw [components, List.splitOn_cons_eq_if_modifyHead, if_pos (by decide),
    List.filter_cons_of_neg (by simp)]
  rfl

theorem components_dropWhile (path : List UInt8) :
    components (path.dropWhile (· == 47)) = components path := by
  induction path with
  | nil => rfl
  | cons a path ih =>
    by_cases ha : a = 47
    · rw [ha, List.dropWhile_cons_of_pos (by decide), ih, components_slash]
    · rw [List.dropWhile_cons_of_neg (by simpa using ha)]

theorem components_nil : components [] = [] := by
  rw [components, List.splitOn_nil]
  rfl

theorem dropWhile_head {p : UInt8 → Bool} {path more : List UInt8} {a : UInt8}
    (h : path.dropWhile p = a :: more) : p a = false := by
  have hne : path.dropWhile p ≠ [] := by
    rw [h]
    exact List.cons_ne_nil a more
  have hhead := List.head_dropWhile_not p hne
  simpa only [h, List.head_cons] using hhead

/-- The first component goes up to the next slash. -/
theorem components_cons {a : UInt8} (more : List UInt8) (ha : a ≠ 47) :
    components (a :: more) =
      ((a :: more).takeWhile (· != 47)).take 14 :: components
        ((a :: more).dropWhile (· != 47)) := by
  generalize helem : (a :: more).takeWhile (· != 47) = elem
  generalize hrest : (a :: more).dropWhile (· != 47) = rest
  have hsplit : a :: more = elem ++ rest := by
    rw [← helem, ← hrest]
    exact List.takeWhile_append_dropWhile.symm
  have hne : elem ≠ [] := by
    rw [← helem, List.takeWhile_cons_of_pos (by simpa using ha)]
    exact List.cons_ne_nil _ _
  have hslash : (47 : UInt8) ∉ elem := by
    intro hmem
    rw [← helem] at hmem
    simpa using List.mem_takeWhile_imp hmem
  have hhead : ∀ tail : List (List UInt8), (((elem :: tail).filter (· ≠ [])).map (·.take 14) :
      List Name) = elem.take 14 :: (tail.filter (· ≠ [])).map (·.take 14) := by
    intro tail
    rw [List.filter_cons_of_pos (by simpa using hne), List.map_cons]
  rw [hsplit]
  cases rest with
  | nil =>
    rw [List.append_nil, components_nil, components, List.splitOn_eq_singleton hslash, hhead]
    rfl
  | cons b rest =>
    have hb : b = 47 := by simpa using dropWhile_head hrest
    rw [hb, components, List.splitOn_append_cons_self_of_not_mem hslash, hhead, components_slash]
    rfl

/-- **`skipelem`** cuts off the first component. -/
theorem skipelem_cases (path : List UInt8) :
    skipelem path = none ∧ components path = [] ∨
      ∃ name rest, skipelem path = some (name, rest) ∧ components path = name :: components rest ∧
        rest.length < path.length ∧ (rest = [] ↔ components rest = []) := by
  unfold skipelem
  have hskip := components_dropWhile path
  have hshort : (path.dropWhile (· == 47)).length ≤ path.length :=
    (List.dropWhile_suffix _).length_le
  cases hp : path.dropWhile (· == 47) with
  | nil =>
    refine .inl ⟨if_pos rfl, ?_⟩
    rw [← hskip, hp, components_nil]
  | cons a tail =>
    have ha : a ≠ 47 := by simpa using dropWhile_head hp
    rw [hp] at hskip hshort
    generalize helem : (a :: tail).takeWhile (· != 47) = elem
    generalize hafter : (a :: tail).dropWhile (· != 47) = after
    have hcut : (if 14 ≤ elem.length then elem.take 14 else elem) = elem.take 14 := by
      split
      · rfl
      · rw [List.take_of_length_le (by omega)]
    refine .inr ⟨elem.take 14, after.dropWhile (· == 47), ?_, ?_, ?_, ?_⟩
    · simp only [reduceCtorEq, if_false, helem, hafter, hcut]
    · rw [← hskip, components_cons tail ha, helem, hafter, components_dropWhile]
    · have hless : after.length ≤ tail.length := by
        rw [← hafter, List.dropWhile_cons_of_pos (by simpa using ha)]
        exact (List.dropWhile_suffix _).length_le
      have hrest : (after.dropWhile (· == 47)).length ≤ after.length :=
        (List.dropWhile_suffix _).length_le
      rw [List.length_cons] at hshort
      omega
    · -- what is left begins with a character of the next component
      cases hr : after.dropWhile (· == 47) with
      | nil => exact iff_of_true rfl components_nil
      | cons b more =>
        have hb : b ≠ 47 := by simpa using dropWhile_head hr
        rw [components_cons more hb]
        exact iff_of_false (List.cons_ne_nil _ _) (List.cons_ne_nil _ _)

/-! ## The tables -/

/-- The tables of `s`, with `e` references more. -/
structure Plus (s : Files) (e : InodePtr → Nat) (t : Files) : Prop where
  files : t = { s with itable := t.itable }
  ref : ∀ x, (t.itable x).ref = (s.itable x).ref + e x
  inum : ∀ x, 0 < (s.itable x).ref → (t.itable x).inum = (s.itable x).inum
  unique : ∀ x y, 0 < (t.itable x).ref → 0 < (t.itable y).ref →
    (t.itable x).inum = (t.itable y).inum → x = y

section

variable {s t : Files} {e : InodePtr → Nat} {ip : InodePtr} {n : Nat}

theorem Plus.dinode (h : Plus s e t) : t.dinode = s.dinode := by rw [h.files]

/-- An entry is changed, but an entry that is in use goes on standing for its inode. -/
theorem Plus.setInode {e' : InodePtr → Nat} {x : InodeEntry} (h : Plus s e t)
    (href : x.ref + e ip = (t.itable ip).ref + e' ip) (hother : ∀ y, y ≠ ip → e' y = e y)
    (hinum : 0 < (t.itable ip).ref → x.inum = (t.itable ip).inum)
    (hnew : (t.itable ip).ref = 0 → 0 < x.ref → ∀ y, 0 < (t.itable y).ref →
      (t.itable y).inum ≠ x.inum) :
    Plus s e' (t.setInode ip x) := by
  have hself : (t.setInode ip x).itable ip = x := Function.update_self ..
  have hne : ∀ y, y ≠ ip → (t.setInode ip x).itable y = t.itable y :=
    fun y hy => Function.update_of_ne hy _ _
  -- two entries in use of which one is `ip`
  have hkey : ∀ y, y ≠ ip → 0 < x.ref → 0 < (t.itable y).ref → x.inum = (t.itable y).inum →
      False := by
    intro y hy hx hpos heq
    by_cases hzero : (t.itable ip).ref = 0
    · exact hnew hzero hx y hpos heq.symm
    · have hip := Nat.pos_of_ne_zero hzero
      exact hy (h.unique y ip hpos hip (by rw [← heq, hinum hip]))
  refine ⟨?_, fun y => ?_, fun y hy => ?_, fun y z hy hz heq => ?_⟩
  · conv_lhs => rw [Files.setInode, h.files]
    rfl
  · by_cases hyip : y = ip
    · subst hyip
      have := h.ref y
      rw [hself]
      omega
    · rw [hne y hyip, hother y hyip]
      exact h.ref y
  · have hpos : 0 < (t.itable y).ref := by
      rw [h.ref]
      omega
    by_cases hyip : y = ip
    · subst hyip
      rw [hself, hinum hpos]
      exact h.inum y hy
    · rw [hne y hyip]
      exact h.inum y hy
  · by_cases hyip : y = ip
    · by_cases hzip : z = ip
      · rw [hyip, hzip]
      · rw [hyip, hself] at hy heq
        rw [hne z hzip] at hz heq
        exact (hkey z hzip hy hz heq).elim
    · rw [hne y hyip] at hy heq
      by_cases hzip : z = ip
      · rw [hzip, hself] at hz heq
        exact (hkey y hyip hz hy heq.symm).elim
      · rw [hne z hzip] at hz heq
        exact h.unique y z hy hz heq

/-- One more reference to an entry. -/
def one (e : InodePtr → Nat) (ip : InodePtr) : InodePtr → Nat := fun x => e x + points (some ip) x

theorem one_self (e : InodePtr → Nat) (ip : InodePtr) : one e ip ip = e ip + 1 := by
  rw [one, points_self]

theorem one_ne (e : InodePtr → Nat) {ip x : InodePtr} (h : x ≠ ip) : one e ip x = e x := by
  rw [one, points_ne (by simpa using h.symm), Nat.add_zero]

theorem Plus.iget (h : Plus s e t) (n : Nat) (hroom : ∃ x, (t.itable x).ref = 0) :
    ∃ ip t', Xv6Paging.iget n t = some (ip, t') ∧ Plus s (one e ip) t' ∧ 0 < (t'.itable ip).ref ∧
      (t'.itable ip).inum = n ∧ ∀ x, 0 < (t.itable x).ref →
      (t'.itable x).inum = (t.itable x).inum := by
  unfold Xv6Paging.iget
  have hentry : ∀ (jp : InodePtr) (x : InodeEntry), (t.setInode jp x).itable jp = x :=
    fun jp x => Function.update_self ..
  cases hfind : Fin.find? fun ip => decide (0 < (t.itable ip).ref) && (t.itable ip).inum == n with
  | some jp =>
    have hjp := (Fin.find?_eq_some_iff.mp hfind).1
    simp only [Bool.and_eq_true, decide_eq_true_eq, beq_iff_eq] at hjp
    refine ⟨jp, _, rfl, h.setInode ?_ (fun y hy => one_ne e hy) (fun _ => rfl) ?_, ?_, ?_,
      fun x hx => ?_⟩
    · rw [one_self]
      dsimp only
      omega
    · intro hzero
      omega
    · rw [hentry]
      exact Nat.succ_pos _
    · rw [hentry]
      exact hjp.2
    · by_cases hx' : x = jp
      · rw [hx', hentry]
      · exact congrArg InodeEntry.inum (Function.update_of_ne hx' _ _)
  | none =>
    cases hempty : Fin.find? fun ip => (t.itable ip).ref == 0 with
    | none =>
      obtain ⟨x, hx⟩ := hroom
      have := Fin.find?_eq_none_iff.mp hempty x
      simp [hx] at this
    | some jp =>
      have hjp : (t.itable jp).ref = 0 := by simpa using (Fin.find?_eq_some_iff.mp hempty).1
      refine ⟨jp, _, rfl, h.setInode ?_ (fun y hy => one_ne e hy) (fun hpos => by omega) ?_, ?_, ?_,
        fun x hx => ?_⟩
      · rw [one_self]
        dsimp only
        omega
      · intro _ _ y hy heq
        have := Fin.find?_eq_none_iff.mp hfind y
        simp [hy, heq] at this
      · rw [hentry]
        exact Nat.one_pos
      · rw [hentry]
      · have hx' : x ≠ jp := by
          rintro rfl
          omega
        exact congrArg InodeEntry.inum (Function.update_of_ne hx' _ _)

/-- Giving a reference back, to an inode that is not on its way out. -/
theorem Plus.iput (h : Plus s (one e ip) t) (hlast : t.lastRef ip = false) :
    ∃ t', Xv6Paging.iput ip t = some ((), t') ∧ Plus s e t' ∧
      ∀ x, (t'.itable x).inum = (t.itable x).inum := by
  have href := h.ref ip
  rw [one_self] at href
  refine ⟨t.setInode ip { t.itable ip with ref := (t.itable ip).ref - 1 }, ?_, h.setInode ?_
    (fun y hy => (one_ne e hy).symm) (fun _ => rfl) ?_, fun x => ?_⟩
  · simp only [Xv6Paging.iput, hlast]
    rfl
  · rw [one_self]
    dsimp only
    omega
  · intro hzero
    omega
  · by_cases hx : x = ip
    · rw [hx, show (t.setInode ip { t.itable ip with ref := (t.itable ip).ref - 1 }).itable ip =
        { t.itable ip with ref := (t.itable ip).ref - 1 } from Function.update_self ..]
    · exact congrArg InodeEntry.inum (Function.update_of_ne hx _ _)

/-! ## The tree -/

/-- An entry of the inode table is in use for inode `n`. -/
def Held (s : Files) (n : Nat) : Prop := ∃ x, 0 < (s.itable x).ref ∧ (s.itable x).inum = n

/-- Inode `n` is allocated, and somebody else than a lookup keeps it. -/
def Kept (s : Files) (n : Nat) : Prop :=
  (s.dinode n).type ≠ .free ∧ ((s.dinode n).nlink ≠ 0 ∨ Held s n)

/-- A directory tree in which process `p` can look up paths: what the entries of directories name is
there, and so are the root and the current directory. The inode table has one entry for an inode,
and room for two. -/
structure Browsable (s : Files) (p : Fin nproc) : Prop where
  tree : ∀ n entry, (s.dinode n).type = .dir → entry ∈ (s.dinode n).entries → Kept s entry.2
  root : Kept s rootIno
  cwd : ∃ ip, (s.proc p).cwd = some ip ∧ 0 < (s.itable ip).ref ∧
    (s.dinode (s.itable ip).inum).type ≠ .free
  unique : ∀ x y, 0 < (s.itable x).ref → 0 < (s.itable y).ref →
    (s.itable x).inum = (s.itable y).inum → x = y
  room : ∃ a b, a ≠ b ∧ (s.itable a).ref = 0 ∧ (s.itable b).ref = 0

/-- Following directory entries from inode `n`. -/
def follow (s : Files) : Nat → List Name → Option Nat
  | n, [] => some n
  | n, name :: names =>
    if (s.dinode n).type = .dir then
      ((s.dinode n).entries.find? fun entry => entry.1 == name).bind fun entry =>
        follow s entry.2 names
    else none

/-- Where a lookup starts. -/
def start (s : Files) (p : Fin nproc) (path : List UInt8) : Option Nat :=
  if path.head? = some 47 then some rootIno else (s.proc p).cwd.map fun ip => (s.itable ip).inum

/-- The one reference more of a lookup is not the last one. -/
theorem Plus.not_lastRef (h : Plus s (one e ip) t) (hkept : Kept s (t.itable ip).inum) :
    t.lastRef ip = false := by
  have href := h.ref ip
  rw [one_self] at href
  refine Bool.eq_false_iff.mpr fun hc => ?_
  simp only [Files.lastRef, Bool.and_eq_true, beq_iff_eq] at hc
  obtain ⟨⟨hone, -⟩, hlink⟩ := hc
  rcases hkept.2 with hne | ⟨x, hx, hinum⟩
  · rw [Files.disk, h.dinode] at hlink
    exact hne hlink
  · -- the entry that keeps it is this one
    have hx' : 0 < (t.itable x).ref := by
      rw [h.ref]
      omega
    obtain rfl := h.unique x ip hx' (by omega) ((h.inum x hx).trans hinum)
    omega

end

/-! ## The loop -/

/-- Nothing is locked. -/
def unlocked : InodePtr → Bool := fun _ => false

section

variable {s t : Files} {ip : InodePtr} {n : Nat}

theorem ilock_run {e : InodePtr → Nat} (h : Plus s e t) (hpos : 0 < (t.itable ip).ref)
    (hkept : (s.dinode (t.itable ip).inum).type ≠ .free) :
    ∃ t', ilock ip ⟨t, unlocked⟩ = some ((), ⟨t', Function.update unlocked ip true⟩) ∧ Plus s e t' ∧
      ∀ x, (t'.itable x).inum = (t.itable x).inum := by
  have hnotfree : (t.disk ip).type ≠ .free := by
    rw [Files.disk, h.dinode]
    exact hkept
  by_cases hvalid : (t.itable ip).valid = true
  · refine ⟨t, ?_, h, fun _ => rfl⟩
    simp only [ilock, unlocked, Xv6Paging.ilock, if_neg (Nat.not_lt_of_le hpos), hvalid, if_true]
    rfl
  · refine ⟨t.setInode ip { t.itable ip with valid := true }, ?_, ?_, fun x => ?_⟩
    · simp only [ilock, unlocked, Xv6Paging.ilock, if_neg (Nat.not_lt_of_le hpos), hvalid,
        if_neg hnotfree]
      rfl
    · exact h.setInode rfl (fun _ _ => rfl) (fun _ => rfl) fun hzero => by omega
    · by_cases hx : x = ip
      · rw [hx, show (t.setInode ip { t.itable ip with valid := true }).itable ip =
          { t.itable ip with valid := true } from Function.update_self ..]
      · exact congrArg InodeEntry.inum (Function.update_of_ne hx _ _)

theorem iunlock_run (hpos : 0 < (t.itable ip).ref) :
    iunlock ip ⟨t, Function.update unlocked ip true⟩ = some ((), ⟨t, unlocked⟩) := by
  have hself : Function.update unlocked ip true ip = true := Function.update_self ..
  have hback : Function.update (Function.update unlocked ip true) ip false = unlocked := by
    rw [Function.update_idem]
    exact Function.update_eq_self ip unlocked
  simp only [iunlock, hself, hback]
  rw [if_neg]
  rintro (hc | hc)
  · cases hc
  · omega

theorem iunlockput_run {e : InodePtr → Nat} (h : Plus s (one e ip) t)
    (hkept : Kept s (t.itable ip).inum) :
    ∃ t', iunlockput ip ⟨t, Function.update unlocked ip true⟩ = some ((), ⟨t', unlocked⟩) ∧
    Plus s e t' ∧ ∀ x, (t'.itable x).inum = (t.itable x).inum := by
  have href := h.ref ip
  rw [one_self] at href
  obtain ⟨t', hput, hplus, hinum⟩ := h.iput (h.not_lastRef hkept)
  refine ⟨t', ?_, hplus, hinum⟩
  refine bind_run.mpr ⟨(), _, iunlock_run (by omega), ?_⟩
  simp only [onFiles, hput, Option.map_some]

/-- `dirlookup` in a directory, with the lock held. -/
theorem dirlookup_run {locked : InodePtr → Bool} (h : Plus s (points (some ip)) t)
    (hroom : ∃ a b, a ≠ b ∧ (s.itable a).ref = 0 ∧ (s.itable b).ref = 0)
    (hdir : (t.disk ip).type = .dir) (name : Name) :
    ((t.disk ip).entries.find? fun entry => entry.1 == name) = none ∧
        onFiles (dirlookup ip name) ⟨t, locked⟩ = some (none, ⟨t, locked⟩) ∨
      ∃ entry next t', ((t.disk ip).entries.find? fun entry => entry.1 == name) = some entry ∧
        onFiles (dirlookup ip name) ⟨t, locked⟩ = some (some next, ⟨t', locked⟩) ∧
        Plus s (one (points (some ip)) next) t' ∧ (t'.itable next).inum = entry.2 ∧
        (t'.itable ip).inum = (t.itable ip).inum := by
  cases hfind : (t.disk ip).entries.find? fun entry => entry.1 == name with
  | none =>
    refine .inl ⟨rfl, ?_⟩
    have hrun : dirlookup ip name t = some (none, t) := by
      refine bind_run.mpr ⟨t, t, rfl, ?_⟩
      simp only [hdir, ne_eq, not_true_eq_false, if_false, hfind]
      rfl
    rw [onFiles, hrun]
    rfl
  | some entry =>
    have hfree : ∃ x, (t.itable x).ref = 0 := by
      obtain ⟨a, b, hab, ha, hb⟩ := hroom
      by_cases hip : a = ip
      · refine ⟨b, ?_⟩
        rw [h.ref, hb, points_ne (by rw [← hip]; simpa using hab)]
      · refine ⟨a, ?_⟩
        rw [h.ref, ha, points_ne (by simpa using Ne.symm hip)]
    have hpos : 0 < (t.itable ip).ref := by
      rw [h.ref, points_self]
      exact Nat.succ_pos _
    obtain ⟨next, t', hget, hplus, -, hinum, hsame⟩ := h.iget entry.2 hfree
    refine .inr ⟨entry, next, t', rfl, ?_, hplus, hinum, hsame ip hpos⟩
    have hrun : dirlookup ip name t = some (some next, t') := by
      refine bind_run.mpr ⟨t, t, rfl, ?_⟩
      simp only [hdir, ne_eq, not_true_eq_false, if_false, hfind]
      exact bind_run.mpr ⟨next, t', hget, rfl⟩
    rw [onFiles, hrun]
    rfl

/-- The parent of what the last name stands for; it has to be a directory. -/
def parentOf (s : Files) (n : Nat) (names : List Name) : Option (Nat × Name) :=
  names.getLast?.bind fun last => (follow s n names.dropLast).bind fun d =>
    if (s.dinode d).type = .dir then some (d, last) else none

/-- What a lookup of `names` from inode `n` is to find. -/
def target (s : Files) (nameiparent : Bool) (n : Nat) (names : List Name) : Option (Nat × Name) :=
  if nameiparent then parentOf s n names else (follow s n names).map fun d => (d, [])

theorem target_cons (s : Files) (nameiparent : Bool) (n : Nat) (name : Name) (names : List Name) :
    target s nameiparent n (name :: names) =
      if (s.dinode n).type ≠ .dir then none
      else if nameiparent ∧ names = [] then some (n, name)
      else ((s.dinode n).entries.find? fun entry => entry.1 == name).bind fun entry =>
        target s nameiparent entry.2 names := by
  cases nameiparent with
  | false =>
    simp only [target, follow, Bool.false_eq_true, if_false, false_and]
    by_cases hdir : (s.dinode n).type = .dir
    · simp only [hdir, if_true, ne_eq, not_true_eq_false, if_false, Option.map_bind]
      rfl
    · simp only [hdir, if_false, ne_eq, not_false_eq_true, if_true, Option.map_none]
  | true =>
    simp only [target, if_true, true_and]
    cases names with
    | nil =>
      simp only [parentOf, List.getLast?_singleton, List.dropLast_singleton, follow,
        Option.bind_some]
      split <;> simp_all
    | cons name' names =>
      simp only [parentOf, List.getLast?_cons_cons, List.dropLast_cons_cons, follow,
        reduceCtorEq, if_false]
      by_cases hdir : (s.dinode n).type = .dir
      · cases hlast : (name' :: names).getLast? with
        | none => simp at hlast
        | some last =>
          simp only [hdir, if_true, ne_eq, not_true_eq_false, if_false, Option.bind_some,
            Option.bind_assoc]
      · cases hlast : (name' :: names).getLast? with
        | none => simp at hlast
        | some last =>
          simp only [hdir, if_false, ne_eq, not_false_eq_true, if_true,
            Option.bind_some, Option.bind_none]

/-! The ways out of one turn of the loop. -/

section

variable {nameiparent : Bool} {fuel : Nat} {path rest : List UInt8} {name : Name}
  {w w₁ w₂ w₃ : Walk}

theorem namexLoop_nondir (hskip : skipelem path = some (name, rest))
    (hlock : ilock ip w = some ((), w₁)) (hdir : (w₁.files.disk ip).type ≠ .dir)
    (hput : iunlockput ip w₁ = some ((), w₂)) :
    namexLoop nameiparent (fuel + 1) path ip w = some (none, w₂) := by
  rw [namexLoop, hskip]
  refine bind_run.mpr ⟨(), w₁, hlock, bind_run.mpr ⟨w₁, w₁, rfl, ?_⟩⟩
  rw [if_pos hdir]
  exact bind_run.mpr ⟨(), w₂, hput, rfl⟩

theorem namexLoop_parent (hskip : skipelem path = some (name, rest))
    (hlock : ilock ip w = some ((), w₁)) (hdir : (w₁.files.disk ip).type = .dir)
    (hend : nameiparent = true ∧ rest = []) (hunlock : iunlock ip w₁ = some ((), w₂)) :
    namexLoop nameiparent (fuel + 1) path ip w = some (some (ip, name), w₂) := by
  rw [namexLoop, hskip]
  refine bind_run.mpr ⟨(), w₁, hlock, bind_run.mpr ⟨w₁, w₁, rfl, ?_⟩⟩
  rw [if_neg (not_not_intro hdir), if_pos hend]
  exact bind_run.mpr ⟨(), w₂, hunlock, rfl⟩

theorem namexLoop_missing (hskip : skipelem path = some (name, rest))
    (hlock : ilock ip w = some ((), w₁)) (hdir : (w₁.files.disk ip).type = .dir)
    (hend : ¬(nameiparent = true ∧ rest = []))
    (hlookup : onFiles (dirlookup ip name) w₁ = some (none, w₂))
    (hput : iunlockput ip w₂ = some ((), w₃)) :
    namexLoop nameiparent (fuel + 1) path ip w = some (none, w₃) := by
  rw [namexLoop, hskip]
  refine bind_run.mpr ⟨(), w₁, hlock, bind_run.mpr ⟨w₁, w₁, rfl, ?_⟩⟩
  rw [if_neg (not_not_intro hdir), if_neg hend]
  exact bind_run.mpr ⟨none, w₂, hlookup, bind_run.mpr ⟨(), w₃, hput, rfl⟩⟩

theorem namexLoop_next {next : InodePtr} {r : Option (InodePtr × Name)} {w₄ : Walk}
    (hskip : skipelem path = some (name, rest)) (hlock : ilock ip w = some ((), w₁))
    (hdir : (w₁.files.disk ip).type = .dir) (hend : ¬(nameiparent = true ∧ rest = []))
    (hlookup : onFiles (dirlookup ip name) w₁ = some (some next, w₂))
    (hput : iunlockput ip w₂ = some ((), w₃))
    (hrest : namexLoop nameiparent fuel rest next w₃ = some (r, w₄)) :
    namexLoop nameiparent (fuel + 1) path ip w = some (r, w₄) := by
  rw [namexLoop, hskip]
  refine bind_run.mpr ⟨(), w₁, hlock, bind_run.mpr ⟨w₁, w₁, rfl, ?_⟩⟩
  rw [if_neg (not_not_intro hdir), if_neg hend]
  exact bind_run.mpr ⟨some next, w₂, hlookup, bind_run.mpr ⟨(), w₃, hput, hrest⟩⟩

end

theorem one_comm (a b : InodePtr) : one (points (some a)) b = one (points (some b)) a := by
  funext x
  exact Nat.add_comm _ _

theorem points_eq_one (ip : InodePtr) : points (some ip) = one (points none) ip := by
  funext x
  rw [one, points_none, Nat.zero_add]

theorem Plus.ref_pos {e : InodePtr → Nat} (h : Plus s (one e ip) t) : 0 < (t.itable ip).ref := by
  rw [h.ref, one_self]
  exact Nat.succ_pos _

theorem namexLoop_run (hroom : ∃ a b, a ≠ b ∧ (s.itable a).ref = 0 ∧ (s.itable b).ref = 0)
    (htree : ∀ n entry, (s.dinode n).type = .dir → entry ∈ (s.dinode n).entries → Kept s entry.2)
    (nameiparent : Bool) : ∀ (fuel : Nat) (path : List UInt8) (t : Files) (ip : InodePtr),
    path.length < fuel → Plus s (points (some ip)) t → Kept s (t.itable ip).inum →
    ∃ r t', namexLoop nameiparent fuel path ip ⟨t, unlocked⟩ = some (r, ⟨t', unlocked⟩) ∧
      Plus s (points (r.map Prod.fst)) t' ∧
      r.map (fun q => ((t'.itable q.1).inum, q.2)) =
        target s nameiparent (t.itable ip).inum (components path) := by
  intro fuel
  induction fuel with
  | zero => intro path t ip hlen; omega
  | succ fuel ih =>
    intro path t ip hlen hplus hkept
    have hplus₀ := hplus
    rw [points_eq_one] at hplus₀
    rcases skipelem_cases path with ⟨hnone, hcomp⟩ | ⟨name, rest, hskip, hcomp, hshort, hend⟩
    · -- no component is left
      rw [namexLoop, hnone, hcomp]
      cases nameiparent with
      | false => exact ⟨some (ip, []), t, rfl, hplus, rfl⟩
      | true =>
        obtain ⟨t', hput, hplus', -⟩ := hplus₀.iput (hplus₀.not_lastRef hkept)
        refine ⟨none, t', bind_run.mpr ⟨(), ⟨t', unlocked⟩, ?_, rfl⟩, hplus', rfl⟩
        rw [onFiles, hput]
        rfl
    · obtain ⟨t₁, hlock, hplus₁, hinum₁⟩ := ilock_run hplus hplus₀.ref_pos hkept.1
      have hdisk : t₁.disk ip = s.dinode (t.itable ip).inum := by
        rw [Files.disk, hplus₁.dinode, hinum₁]
      have hkept₁ : Kept s (t₁.itable ip).inum := by
        rw [hinum₁]
        exact hkept
      have hgive := hplus₁
      rw [points_eq_one] at hgive
      rw [hcomp, target_cons, ← hdisk]
      by_cases hdir : (t₁.disk ip).type = .dir
      · rw [if_neg (not_not_intro hdir)]
        by_cases hlast : nameiparent = true ∧ rest = []
        · rw [if_pos ⟨hlast.1, hend.mp hlast.2⟩, ← hinum₁]
          exact ⟨_, t₁, namexLoop_parent hskip hlock hdir hlast (iunlock_run hgive.ref_pos),
            hplus₁, rfl⟩
        · rw [if_neg fun hand => hlast ⟨hand.1, hend.mpr hand.2⟩]
          rcases dirlookup_run hplus₁ hroom hdir name with ⟨hno, hlookup⟩ | ⟨entry, next, t₂,
            hyes, hlookup, hplus₂, hnext, hip⟩
          · obtain ⟨t₃, hput, hplus₃, -⟩ := iunlockput_run hgive hkept₁
            rw [hno]
            exact ⟨none, t₃, namexLoop_missing hskip hlock hdir hlast hlookup hput, hplus₃, rfl⟩
          · -- the reference goes from the directory to what was found in it
            rw [one_comm] at hplus₂
            obtain ⟨t₃, hput, hplus₃, hinum₃⟩ := iunlockput_run hplus₂ (by rw [hip]; exact hkept₁)
            have hentry : Kept s entry.2 := by
              rw [hdisk] at hdir hyes
              exact htree _ entry hdir (List.mem_of_find?_eq_some hyes)
            have hat : (t₃.itable next).inum = entry.2 := (hinum₃ next).trans hnext
            obtain ⟨r, t₄, hrest, hplus₄, hr⟩ := ih rest t₃ next (by omega) hplus₃ (hat ▸ hentry)
            rw [hyes, Option.bind_some, ← hat]
            exact ⟨r, t₄, namexLoop_next hskip hlock hdir hlast hlookup hput hrest, hplus₄, hr⟩
      · obtain ⟨t₂, hput, hplus₂, -⟩ := iunlockput_run hgive hkept₁
        rw [if_pos hdir]
        exact ⟨none, t₂, namexLoop_nondir hskip hlock hdir hput, hplus₂, rfl⟩

end

/-! ## `namei` and `nameiparent` -/

/-- A lookup returned `r`: that is one reference more, and nothing else has changed or is locked. -/
structure Looked (s : Files) (r : Option InodePtr) (w : Walk) : Prop where
  files : w.files = { s with itable := w.files.itable }
  ref : ∀ x, (w.files.itable x).ref = (s.itable x).ref + points r x
  inum : ∀ x, 0 < (s.itable x).ref → (w.files.itable x).inum = (s.itable x).inum
  locked : ∀ x, w.locked x = false

theorem namex_run {s : Files} {p : Fin nproc} (h : Browsable s p) (path : List UInt8)
    (nameiparent : Bool) :
    ∃ r w, namex p path nameiparent ⟨s, unlocked⟩ = some (r, w) ∧ Looked s (r.map Prod.fst) w ∧
      r.map (fun q => ((w.files.itable q.1).inum, q.2)) =
        (start s p path).bind fun n => target s nameiparent n (components path) := by
  have hself : Plus s (points none) s := ⟨rfl, fun _ => rfl, fun _ _ => rfl, h.unique⟩
  -- from an inode with one reference more, the loop does the rest
  have hloop : ∀ ip t, Plus s (points (some ip)) t → Kept s (t.itable ip).inum →
      ∃ r w, namexLoop nameiparent (path.length + 1) path ip ⟨t, unlocked⟩ = some (r, w) ∧
        Looked s (r.map Prod.fst) w ∧ r.map (fun q => ((w.files.itable q.1).inum, q.2)) =
          target s nameiparent (t.itable ip).inum (components path) := by
    intro ip t hplus hkept
    obtain ⟨r, t', hrun, hplus', hr⟩ :=
      namexLoop_run h.room h.tree nameiparent (path.length + 1) path t ip (Nat.lt_succ_self _)
        hplus hkept
    exact ⟨r, _, hrun, ⟨hplus'.files, hplus'.ref, hplus'.inum, fun _ => rfl⟩, hr⟩
  unfold start
  by_cases habs : path.head? = some 47
  · obtain ⟨a, -, -, ha, -⟩ := h.room
    obtain ⟨ip, t, hget, hplus, -, hinum, -⟩ := hself.iget rootIno ⟨a, ha⟩
    rw [← points_eq_one] at hplus
    obtain ⟨r, w, hrun, hlooked, hr⟩ := hloop ip t hplus (by rw [hinum]; exact h.root)
    refine ⟨r, w, bind_run.mpr ⟨⟨s, unlocked⟩, ⟨s, unlocked⟩, rfl, ?_⟩, hlooked, ?_⟩
    · rw [if_pos habs]
      refine bind_run.mpr ⟨ip, ⟨t, unlocked⟩, ?_, hrun⟩
      rw [onFiles, hget]
      rfl
    · rw [if_pos habs, Option.bind_some, hr, hinum]
  · obtain ⟨cwd, hcwd, hpos, htype⟩ := h.cwd
    have hplus : Plus s (points (some cwd))
        (s.setInode cwd { s.itable cwd with ref := (s.itable cwd).ref + 1 }) := by
      rw [points_eq_one]
      refine hself.setInode ?_ (fun y hy => one_ne _ hy) (fun _ => rfl) fun hzero => by omega
      rw [one_self]
      dsimp only
      omega
    have hinum : ((s.setInode cwd { s.itable cwd with
        ref := (s.itable cwd).ref + 1 }).itable cwd).inum = (s.itable cwd).inum := by
      rw [show (s.setInode cwd { s.itable cwd with ref := (s.itable cwd).ref + 1 }).itable cwd =
        { s.itable cwd with ref := (s.itable cwd).ref + 1 } from Function.update_self ..]
    obtain ⟨r, w, hrun, hlooked, hr⟩ := hloop cwd _ hplus (by
      rw [hinum]
      exact ⟨htype, .inr ⟨cwd, hpos, rfl⟩⟩)
    refine ⟨r, w, bind_run.mpr ⟨⟨s, unlocked⟩, ⟨s, unlocked⟩, rfl, ?_⟩, hlooked, ?_⟩
    · rw [if_neg habs, hcwd]
      exact bind_run.mpr ⟨cwd, ⟨_, unlocked⟩, rfl, hrun⟩
    · rw [if_neg habs, hcwd, Option.map_some, Option.bind_some, hr, hinum]

/--
**Path lookup is a fold.** In a browsable tree `namei` returns what following the components of the
path leads to, and `nameiparent` what following all but the last leads to, if that is a directory,
with the last one as the name; it returns 0 for a path without components. Whatever they return, the
reference to it is the only one gained, and nothing is left locked.
-/
theorem path_lookup_is_fold (s : Files) (p : Fin nproc) (path : List UInt8) (h : Browsable s p) :
    (∃ r w, namei p path ⟨s, unlocked⟩ = some (r, w) ∧ Looked s r w ∧
      r.map (fun ip => (w.files.itable ip).inum) =
        (start s p path).bind fun n => follow s n (components path)) ∧
    ∃ r w, nameiparent p path ⟨s, unlocked⟩ = some (r, w) ∧ Looked s (r.map Prod.fst) w ∧
      r.map (fun q => ((w.files.itable q.1).inum, q.2)) =
        (start s p path).bind fun n => parentOf s n (components path) := by
  refine ⟨?_, namex_run h path true⟩
  obtain ⟨r, w, hrun, hlooked, hr⟩ := namex_run h path false
  refine ⟨r.map Prod.fst, w, bind_run.mpr ⟨r, w, hrun, rfl⟩, hlooked, ?_⟩
  have hfst := congrArg (Option.map Prod.fst) hr
  rw [Option.map_map, Option.map_bind] at hfst
  rw [Option.map_map]
  refine hfst.trans ?_
  congr 1
  funext n
  show Option.map Prod.fst (Option.map _ _) = _
  rw [Option.map_map]
  exact Option.map_id'

/-- A root directory with a file `f` in it. -/
def smallTree : Files where
  ninodes := 3
  dinode n :=
    if n = 1 then { type := .dir, nlink := 1, entries := [([102], 2)] }
    else if n = 2 then { type := .file, nlink := 1, entries := [] }
    else { type := .free, nlink := 0, entries := [] }
  itable ip :=
    if ip = 0 then { inum := 1, ref := 1, valid := true } else
      { inum := 0, ref := 0, valid := false }
  ftable _ := { ref := 0, kind := .none }
  proc _ :=
    { state := .runnable, pid := 1, ofile := fun _ => none, cwd := some 0, execIp := none
      swapfile := none, stage := .outside, held := none }
  nextpid := 2
  tx := false
  drops := []
  lost _ := 0

theorem smallTree_browsable : Browsable smallTree 0 where
  tree n entry hdir hmem := by
    simp only [smallTree] at hdir hmem
    split at hmem
    · rw [List.mem_singleton.mp hmem]
      exact ⟨by decide, .inl (by decide)⟩
    · split at hmem <;> cases hmem
  root := ⟨by decide, .inl (by decide)⟩
  cwd := ⟨0, rfl, by decide, by decide⟩
  unique x y hx hy _ := by
    simp only [smallTree] at hx hy
    split at hx
    · split at hy
      · rename_i hx' hy'
        rw [hx', hy']
      · cases hy
    · cases hx
  room := ⟨1, 2, by decide, by decide, by decide⟩

theorem path_lookup_is_fold_small :
    (∃ r w, namei 0 [47, 102] ⟨smallTree, unlocked⟩ = some (r, w) ∧ Looked smallTree r w ∧
      r.map (fun ip => (w.files.itable ip).inum) = some 2) ∧
    ∃ r w, nameiparent 0 [47, 102] ⟨smallTree, unlocked⟩ = some (r, w) ∧
      Looked smallTree (r.map Prod.fst) w ∧
      r.map (fun q => ((w.files.itable q.1).inum, q.2)) = some (1, [102]) :=
  path_lookup_is_fold smallTree 0 [47, 102] smallTree_browsable

/-- `nameiparent("f/x")` returns 0: following all components but the last leads to `f`, but `f` is
not a directory. -/
theorem nameiparent_of_file_fails :
    ¬ ∀ (s : Files) (p : Fin nproc) (path : List UInt8), Browsable s p →
      ∃ r w, nameiparent p path ⟨s, unlocked⟩ = some (r, w) ∧
        r.map (fun q => ((w.files.itable q.1).inum, q.2)) =
          (start s p path).bind fun n => (components path).getLast?.bind fun name =>
            (follow s n (components path).dropLast).map fun m => (m, name) := by
  intro hall
  obtain ⟨r, w, hrun, hr⟩ := hall smallTree 0 [102, 47, 120] smallTree_browsable
  obtain ⟨r', w', hrun', -, hr'⟩ := namex_run smallTree_browsable [102, 47, 120] true
  obtain ⟨rfl, rfl⟩ := Prod.ext_iff.mp (Option.some.inj (hrun.symm.trans hrun'))
  have hfold := hr.symm.trans hr'
  revert hfold
  decide +kernel

end Xv6Paging.Namei
