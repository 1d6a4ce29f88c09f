import Xv6Paging.Proof.LiveInodes

/-!
# Link counts

The link count of an inode is at least the number of names it has, apart from `"."` and `".."`; that
of a directory also counts the directories in it, and that of the root one more. Programs write
names and counts one after the other, so that in between a count may be ahead of the names or behind
them. `LinkCounts x` allows inode `n` to be behind by `x n`, where a negative `x n` says that it is
ahead.

An inode without links then has no name, and `iput` can free it; with `x ≤ 0` everything that only
takes and gives back references keeps `LinkCounts x`.
-/

namespace Xv6Paging

open Lib

variable {s : Files} {e : Name × Nat} {name : Name} {type : InodeType}

/-! ## Names and directories -/

/-- An entry that is a link: `"."` and `".."` are not. -/
def isLink (e : Name × Nat) : Bool := e.1 != dot && e.1 != dotDot

/-- The names of inode `n` in a directory. -/
def naming (r : List (Name × Nat)) (n : Nat) : Nat := r.countP fun e => isLink e && e.2 == n

/-- The names of inode `n`. -/
def links (N : Nat) (D : Nat → Dinode) (n : Nat) : Nat :=
  ∑ k ∈ Finset.range N, naming (D k).entries n

/-- The directories in a directory. -/
def subdirs (D : Nat → Dinode) (r : List (Name × Nat)) : Nat :=
  r.countP fun e => isLink e && (D e.2).type == .dir

/-- What the link count of inode `n` has to account for. -/
def needed (N : Nat) (D : Nat → Dinode) (n : Nat) : Int :=
  links N D n + subdirs D (D n).entries + if n = rootIno then 1 else 0

/-- The first `N` inodes are in use, names are in a directory once, and link counts are right but
for `x`. -/
structure LinkCounts (x : Nat → Int) (N : Nat) (D : Nat → Dinode) : Prop where
  root : (D rootIno).type = .dir
  bound : ∀ n, N ≤ n → (D n).type = .free
  names : ∀ n, ((D n).entries.map Prod.fst).Nodup
  named : ∀ n, (D n).type = .free → links N D n = 0
  count : ∀ n, (D n).type ≠ .free → needed N D n ≤ (D n).nlink + x n

/-- One for `k`. -/
def unit (k n : Nat) : Int := if n = k then 1 else 0

section

variable {x y : Nat → Int} {N n k : Nat} {D : Nat → Dinode} {d : Dinode}

theorem LinkCounts.mono (h : LinkCounts x N D) (hxy : ∀ n, x n ≤ y n) : LinkCounts y N D :=
  { h with count := fun n hn => (h.count n hn).trans (by have := hxy n; omega) }

theorem links_update (hk : k < N) (d : Dinode) (n : Nat) :
    links N (Function.update D k d) n + naming (D k).entries n =
      links N D n + naming d.entries n := by
  have hmem := Finset.mem_range.mpr hk
  unfold links
  rw [← Finset.add_sum_erase _ _ hmem,
    ← Finset.add_sum_erase _ (fun j => naming (D j).entries n) hmem, Function.update_self]
  have hrest : ∑ j ∈ (Finset.range N).erase k, naming (Function.update D k d j).entries n =
      ∑ j ∈ (Finset.range N).erase k, naming (D j).entries n := by
    refine Finset.sum_congr rfl fun j hj => ?_
    rw [Function.update_of_ne (Finset.ne_of_mem_erase hj)]
  rw [hrest]
  omega

theorem links_update_le (h : naming d.entries n ≤ naming (D k).entries n) :
    links N (Function.update D k d) n ≤ links N D n := by
  refine Finset.sum_le_sum fun j _ => ?_
  by_cases hj : j = k
  · rw [hj, Function.update_self]
    exact h
  · rw [Function.update_of_ne hj]

/-- An inode without links has no name. -/
theorem not_named (h : links N D n = 0) (hk : k < N) (he : e ∈ (D k).entries)
    (hlink : isLink e = true) : e.2 ≠ n := by
  have hzero := (Finset.sum_eq_zero_iff.mp h) k (Finset.mem_range.mpr hk)
  have hno := List.countP_eq_zero.mp hzero e he
  simpa [hlink] using hno

theorem update_type (hd : d.type = (D k).type) (n : Nat) :
    (Function.update D k d n).type = (D n).type := by
  by_cases hn : n = k
  · rw [hn, Function.update_self, hd]
  · rw [Function.update_of_ne hn]

theorem subdirs_update (hd : d.type = (D k).type) (r : List (Name × Nat)) :
    subdirs (Function.update D k d) r = subdirs D r := by
  unfold subdirs
  simp only [update_type hd]

/-! ## Writing the disk -/

/-- A link count changes. -/
theorem LinkCounts.relink (h : LinkCounts x N D) (v : Int) (hk : (D k).nlink + x k ≤ v + y k)
    (hxy : ∀ n, n ≠ k → x n ≤ y n) :
    LinkCounts y N (Function.update D k { D k with nlink := v }) := by
  have htype := fun n => update_type (D := D) (k := k) (d := { D k with nlink := v }) rfl n
  have hentries : ∀ n, (Function.update D k { D k with nlink := v } n).entries = (D n).entries := by
    intro n
    by_cases hn : n = k
    · rw [hn, Function.update_self]
    · rw [Function.update_of_ne hn]
  have hlinks : ∀ n, links N (Function.update D k { D k with nlink := v }) n = links N D n :=
    fun n => Finset.sum_congr rfl fun j _ => by rw [hentries]
  refine ⟨(htype _).trans h.root, fun n hn => (htype n).trans (h.bound n hn), fun n => ?_,
    fun n hn => ?_, fun n hn => ?_⟩
  · rw [hentries]
    exact h.names n
  · rw [hlinks]
    exact h.named n ((htype n).symm.trans hn)
  · rw [htype] at hn
    have hcount := h.count n hn
    rw [needed, hlinks, hentries,
      subdirs_update (D := D) (k := k) (d := { D k with nlink := v }) rfl]
    rw [needed] at hcount
    by_cases hnk : n = k
    · subst hnk
      rw [Function.update_self]
      dsimp only
      omega
    · rw [Function.update_of_ne hnk]
      have := hxy n hnk
      omega

/-- The entries of a directory change. -/
theorem LinkCounts.setEntries (h : LinkCounts x N D) (hk : k < N) {r : List (Name × Nat)}
    (hnodup : (r.map Prod.fst).Nodup)
    (hnamed : ∀ n, (D n).type = .free → naming r n ≤ naming (D k).entries n)
    (hxy : ∀ n, x n + ((naming r n : Int) - naming (D k).entries n) +
      (if n = k then (subdirs D r : Int) - subdirs D (D k).entries else 0) ≤ y n) :
    LinkCounts y N (Function.update D k { D k with entries := r }) := by
  generalize hd : { D k with entries := r } = d
  have hentries : d.entries = r := by rw [← hd]
  have hkind : d.type = (D k).type := by rw [← hd]
  have hnlink : d.nlink = (D k).nlink := by rw [← hd]
  have htype := fun n => update_type (D := D) (k := k) hkind n
  refine ⟨(htype _).trans h.root, fun n hn => (htype n).trans (h.bound n hn), fun n => ?_,
    fun n hn => ?_, fun n hn => ?_⟩
  · by_cases hn : n = k
    · rw [hn, Function.update_self, hentries]
      exact hnodup
    · rw [Function.update_of_ne hn]
      exact h.names n
  · rw [htype] at hn
    have hle := links_update_le (N := N) (D := D) (d := d) (hentries ▸ hnamed n hn)
    have hzero := h.named n hn
    omega
  · rw [htype] at hn
    have hcount := h.count n hn
    have hx := hxy n
    have hlinks := links_update (D := D) hk d n
    rw [hentries] at hlinks
    rw [needed] at hcount
    rw [needed, subdirs_update hkind]
    by_cases hnk : n = k
    · rw [if_pos hnk] at hx
      subst hnk
      rw [Function.update_self, hentries, hnlink]
      omega
    · rw [if_neg hnk] at hx
      rw [Function.update_of_ne hnk]
      omega

/-- An inode without names is allocated or freed. -/
theorem LinkCounts.clear (h : LinkCounts x N D) (hzero : links N D k = 0) (hroot : k ≠ rootIno)
    (hbound : N ≤ k → d.type = .free) (hentries : d.entries = [])
    (hcount : d.type ≠ .free → 0 ≤ d.nlink + x k) : LinkCounts x N (Function.update D k d) := by
  have hlinks : ∀ n, links N (Function.update D k d) n ≤ links N D n := by
    intro n
    refine links_update_le ?_
    rw [hentries]
    exact Nat.zero_le _
  refine ⟨?_, fun n hn => ?_, fun n => ?_, fun n hn => ?_, fun n hn => ?_⟩
  · rw [Function.update_of_ne hroot.symm]
    exact h.root
  · by_cases hnk : n = k
    · subst hnk
      rw [Function.update_self]
      exact hbound hn
    · rw [Function.update_of_ne hnk]
      exact h.bound n hn
  · by_cases hnk : n = k
    · rw [hnk, Function.update_self, hentries]
      exact List.nodup_nil
    · rw [Function.update_of_ne hnk]
      exact h.names n
  · have hle := hlinks n
    by_cases hnk : n = k
    · rw [hnk] at hle ⊢
      omega
    · rw [Function.update_of_ne hnk] at hn
      have := h.named n hn
      omega
  · have hle := hlinks n
    rw [needed]
    by_cases hnk : n = k
    · subst hnk
      rw [Function.update_self] at hn ⊢
      have hpos := hcount hn
      rw [hentries, if_neg hroot, show subdirs (Function.update D n d) [] = 0 from rfl]
      omega
    · rw [Function.update_of_ne hnk] at hn ⊢
      have hold := h.count n hn
      have hn' : n < N := by
        by_contra hge
        exact hn (h.bound n (by omega))
      -- no entry of another directory names the inode
      have hsub : subdirs (Function.update D k d) (D n).entries = subdirs D (D n).entries := by
        refine List.countP_congr fun e he => ?_
        by_cases hlink : isLink e = true
        · rw [Function.update_of_ne (not_named hzero hn' he hlink)]
        · simp [hlink]
      rw [needed] at hold
      rw [hsub]
      omega

/-! ## Entries -/

/-- What an entry of directory `k` adds for inode `n`: a name for the inode it names and, if that is
a directory, a subdirectory for `k`. -/
def entryNeed (D : Nat → Dinode) (k : Nat) (e : Name × Nat) (n : Nat) : Int :=
  if isLink e then unit e.2 n + if (D e.2).type = .dir then unit k n else 0 else 0

theorem entryNeed_le (D : Nat → Dinode) (k : Nat) (e : Name × Nat) (n : Nat) :
    entryNeed D k e n ≤ unit e.2 n + if (D e.2).type = .dir then unit k n else 0 := by
  unfold entryNeed unit
  split_ifs <;> omega

theorem naming_insert (r₁ r₂ : List (Name × Nat)) (e : Name × Nat) (n : Nat) :
    (naming (r₁ ++ e :: r₂) n : Int) = naming (r₁ ++ r₂) n + if isLink e then unit e.2 n
      else 0 := by
  have hiff : (isLink e && e.2 == n) = true ↔ isLink e = true ∧ n = e.2 := by
    rw [Bool.and_eq_true, beq_iff_eq, eq_comm (a := n)]
  simp only [naming, List.countP_append, List.countP_cons, hiff, unit]
  split_ifs <;> simp_all
  omega

theorem subdirs_insert (r₁ r₂ : List (Name × Nat)) (e : Name × Nat) :
    (subdirs D (r₁ ++ e :: r₂) : Int) =
      subdirs D (r₁ ++ r₂) + if isLink e = true ∧ (D e.2).type = .dir then 1 else 0 := by
  have hiff : (isLink e && (D e.2).type == .dir) = true ↔ isLink e = true ∧
      (D e.2).type = .dir := by
    rw [Bool.and_eq_true, beq_iff_eq]
  simp only [subdirs, List.countP_append, List.countP_cons, hiff]
  split_ifs <;> push_cast <;> omega

theorem need_insert (D : Nat → Dinode) (k : Nat) (r₁ r₂ : List (Name × Nat)) (e : Name × Nat)
    (n : Nat) : (naming (r₁ ++ e :: r₂) n : Int) - naming (r₁ ++ r₂) n +
      (if n = k then (subdirs D (r₁ ++ e :: r₂) : Int) - subdirs D (r₁ ++ r₂) else 0) =
        entryNeed D k e n := by
  rw [naming_insert, subdirs_insert, entryNeed]
  by_cases hlink : isLink e = true
  · simp only [hlink, true_and, if_true]
    rw [unit, unit]
    split_ifs <;> omega
  · simp only [hlink, false_and, if_false, Bool.false_eq_true]
    split_ifs <;> omega

/-- A directory gets an entry. -/
theorem LinkCounts.append (h : LinkCounts x N D) (hdir : (D k).type = .dir)
    (hno : NoName e.1 (D k).entries) (he : isLink e = true → (D e.2).type ≠ .free)
    (hxy : ∀ n, x n + entryNeed D k e n ≤ y n) :
    LinkCounts y N (Function.update D k { D k with entries := (D k).entries ++ [e] }) := by
  have hk : k < N := by
    by_contra hge
    rw [h.bound k (by omega)] at hdir
    cases hdir
  have hneed := need_insert D k (D k).entries [] e
  rw [List.append_nil] at hneed
  refine h.setEntries hk ?_ (fun n hn => ?_) fun n => ?_
  · rw [List.map_append, List.map_singleton]
    refine List.nodup_append.mpr ⟨h.names k, List.nodup_singleton _, ?_⟩
    intro a ha b hb heq
    obtain ⟨e', he', rfl⟩ := List.mem_map.mp ha
    rw [List.mem_singleton.mp hb] at heq
    exact List.find?_eq_none.mp hno e' he' (beq_iff_eq.mpr heq)
  · have hinsert := naming_insert (D k).entries [] e n
    have hzero : (if isLink e then unit e.2 n else 0) = 0 := by
      by_cases hlink : isLink e = true
      · rw [if_pos hlink, unit, if_neg]
        rintro rfl
        exact he hlink hn
      · rw [if_neg hlink]
    rw [List.append_nil, hzero] at hinsert
    omega
  · have hx := hxy n
    have hn := hneed n
    omega

/-- An entry is taken out of a directory. -/
theorem LinkCounts.remove (h : LinkCounts x N D) (hk : k < N)
    (hfind : (D k).entries.find? (fun e => e.1 == name) = some e)
    (hxy : ∀ n, x n - entryNeed D k e n ≤ y n) :
    LinkCounts y N (Function.update D k
      { D k with entries := (D k).entries.eraseP fun e => e.1 == name }) := by
  obtain ⟨r₁, r₂, hr, herase⟩ := eraseP_find hfind
  have hneed := need_insert D k r₁ r₂ e
  have hnodup := h.names k
  rw [herase]
  rw [hr] at hnodup
  refine h.setEntries hk ?_ (fun n _ => ?_) fun n => ?_
  · refine hnodup.sublist (List.Sublist.map _ ?_)
    exact List.Sublist.append_left (List.sublist_cons_self _ _) _
  · rw [hr, naming, naming, List.countP_append, List.countP_append, List.countP_cons]
    omega
  · have hx := hxy n
    have hn := hneed n
    rw [hr]
    split_ifs at hn ⊢ <;> omega

end

/-! ## References -/

/-- Link counts of a file system. -/
def Linked (x : Nat → Int) (s : Files) : Prop := LinkCounts x s.ninodes s.dinode

section

variable {l : List (InodePtr × Nat)} {m : List FilePtr} {x y : Nat → Int} {s : Files} {n : Nat}

theorem Linked.no_names (h : Linked x s) (hx : ∀ n, x n ≤ 0) (hzero : (s.dinode n).nlink = 0) :
    links s.ninodes s.dinode n = 0 ∧ n ≠ rootIno := by
  by_cases hfree : (s.dinode n).type = .free
  · refine ⟨h.named n hfree, ?_⟩
    rintro rfl
    rw [h.root] at hfree
    cases hfree
  · have hcount := h.count n hfree
    have hn := hx n
    rw [needed, hzero] at hcount
    by_cases hroot : n = rootIno
    · rw [if_pos hroot] at hcount
      omega
    · rw [if_neg hroot] at hcount
      exact ⟨by omega, hroot⟩

/-- Nothing that takes and gives back references makes a link count fall short. -/
theorem linked_refStable (hx : ∀ n, x n ≤ 0) : RefStable (Linked x) where
  entry _ hs _ := hs
  free {l m s ip n} howns hs hone hzero := by
    obtain ⟨hlinks, hroot⟩ := hs.no_names hx hzero
    exact LinkCounts.clear hs hlinks hroot (fun _ => rfl) rfl fun h => absurd rfl h

/-- What is known of an inode with links. -/
theorem dinode_refStable {c : Dinode → Prop} (n : Nat) (hc : ∀ d, c d → d.nlink ≠ 0) :
    RefStable fun s => c (s.dinode n) where
  entry _ hs _ := hs
  free {l m s ip k} howns hs hone hzero := by
    have hne : n ≠ (s.itable ip).inum := by
      rintro rfl
      exact hc _ hs hzero
    change c (Function.update s.dinode (s.itable ip).inum _ n)
    rw [Function.update_of_ne hne]
    exact hs

theorem linked_fileStable : FileStable (Linked x) where
  ref _ _ _ hs := hs
  close _ _ hs := hs
  kind _ _ _ hs _ := hs
  fd _ _ _ _ hs := hs
  cwd _ _ _ hs := hs

theorem linked_txStable : TxStable (Linked 0) (Linked 0) where
  ref := linked_refStable fun _ => le_rfl
  out := linked_fileStable
  inside := linked_fileStable
  enter _ hs := hs
  leave _ hs := hs

end

/-! ## Programs -/

section

variable {l : List (InodePtr × Nat)} {m : List FilePtr} {I K : Files → Prop} {n k : Nat}
  {dp ip : InodePtr}

theorem ilock_with (hI : EntryStable I) (ip : InodePtr) :
    Triple (GoodWith (some ip) l m I) (ilock ip) fun _ => GoodWith (some ip) l m I :=
  Triple.exists fun n => (ilock_spec hI ip).post fun _ _ hs => ⟨n, hs⟩

theorem setNlink_dir_spec (hip : (ip, n) ∈ l) (f : Int → Int)
    (hI : ∀ s, I s → K (s.setDinode n { s.dinode n with nlink := f (s.dinode n).nlink })) :
    Triple (Good l m I) (setNlink ip f) fun _ => Good l m K := by
  refine modify_spec (fun _ => ⟨rfl, rfl, rfl, rfl⟩) fun s hs => ?_
  rw [Files.setDisk, Files.disk, hs.1.known _ hip]
  exact hI s hs.2

theorem dirlink_dir_spec (hI : RefStable I) (hdp : (dp, k) ∈ l) (name : Name) (inum : Nat)
    (room : Bool) (happend : ∀ s, I s → (s.dinode k).type = .dir →
      NoName name (s.dinode k).entries →
      K (s.setDinode k { s.dinode k with entries := (s.dinode k).entries ++ [(name, inum)] })) :
    Triple (Good l m I) (dirlink dp name inum room) fun linked => Good l m (cond linked K I) := by
  refine (dirlookup_dir_spec hI.toEntryStable hdp name).bind fun r => ?_
  cases r with
  | some jp =>
    refine Triple.exists fun j => ?_
    exact ((iput_spec hI jp j).pre fun s hs => ⟨hs.1, hs.2.1⟩).bind fun _ =>
      Triple.pure fun s hs => hs
  | none =>
    refine Triple.ite (fun _ => ?_) fun _ => Triple.pure fun s hs => ⟨hs.1, hs.2.1⟩
    refine Triple.bind (Q := fun _ => Good l m K) (modify_spec (fun _ => ⟨rfl, rfl, rfl, rfl⟩)
      fun s hs => ?_) fun _ => Triple.pure fun s hs => hs
    rw [Files.setDisk, Files.disk, hs.1.known _ hdp]
    exact happend s hs.2.1 hs.2.2.1 hs.2.2.2

theorem ialloc_links (type : InodeType) :
    Triple (Good l m (Linked 0)) (ialloc type) fun r s => r.elim (Good l m (Linked 0) s) fun ip =>
      ∃ n, Good ((ip, n) :: l) m (fun s => Linked 0 s ∧ (s.dinode n).type = type ∧
        (s.dinode n).nlink = 0) s := by
  refine Triple.get fun s hs => ?_
  split
  · rename_i n hfind
    have hfound := List.find?_some hfind
    simp only [Bool.and_eq_true, beq_iff_eq] at hfound
    have hlt : n < s.ninodes := List.mem_range.mp (List.mem_of_find?_eq_some hfind)
    have hroot : n ≠ rootIno := by
      rintro rfl
      rw [hs.2.root] at hfound
      cases hfound.2
    have hentry : EntryStable fun s => Linked 0 s ∧ (s.dinode n).type = type ∧
        (s.dinode n).nlink = 0 :=
      ⟨fun _ hs _ => hs⟩
    refine Triple.bind (Q := fun _ => Good l m fun s => Linked 0 s ∧ (s.dinode n).type = type ∧
      (s.dinode n).nlink = 0) ?_ fun _ =>
        (iget_spec hentry n).bind fun ip => Triple.pure fun t ht => ⟨n, ht⟩
    refine Triple.modify fun t ht => ?_
    subst ht
    refine ⟨hs.1.congr rfl rfl rfl rfl, ?_, by rw [setDinode_self], by rw [setDinode_self]⟩
    exact LinkCounts.clear hs.2 (hs.2.named n hfound.2) hroot
      (fun h => absurd hlt (Nat.not_lt.mpr h)) rfl fun _ => le_rfl
  · exact Triple.pure fun t ht => ht ▸ hs

/-- A new inode that has a link, but no name yet. -/
def Unnamed (type : InodeType) (n : Nat) (s : Files) : Prop :=
  Linked (fun j => -unit n j) s ∧ ((s.dinode n).type = type ∧ (s.dinode n).nlink = 1)

theorem ahead_nonpos (n j : Nat) : -unit n j ≤ 0 := by
  unfold unit
  split_ifs <;> omega

theorem unnamed_refStable (type : InodeType) (n : Nat) : RefStable (Unnamed type n) := by
  refine (linked_refStable (ahead_nonpos n)).and
    (dinode_refStable (c := fun d => d.type = type ∧ d.nlink = 1) n fun d hd => ?_)
  rw [hd.2]
  exact one_ne_zero

/-- The dots are no links. -/
theorem Unnamed.dots (h : Unnamed type n s) (hlink : isLink e = false)
    (hdir : (s.dinode n).type = .dir) (hno : NoName e.1 (s.dinode n).entries) :
    Unnamed type n (s.setDinode n { s.dinode n with entries := (s.dinode n).entries ++ [e] }) := by
  refine ⟨LinkCounts.append h.1 hdir hno (fun h => ?_) fun j => ?_, ?_⟩
  · rw [hlink] at h
    cases h
  · rw [entryNeed, hlink]
    exact (add_zero _).le
  · rw [setDinode_self]
    exact h.2

theorem linkDots_links (type : InodeType) (hip : (ip, n) ∈ l) (room : Bool) :
    Triple (Good l m (Unnamed type n)) (linkDots type ip dp room) fun _ =>
      Good l m (Unnamed type n) := by
  have hlink : ∀ name inum, isLink (name, inum) = false → Triple (Good l m (Unnamed type n))
      (dirlink ip name inum room) fun _ => Good l m (Unnamed type n) := by
    intro name inum hdot
    refine (dirlink_dir_spec (unnamed_refStable type n) hip name inum room
      fun s hs hdir hno => hs.dots (e := (name, inum)) hdot hdir hno).post fun linked s hs => ?_
    cases linked <;> exact hs
  refine Triple.ite (fun _ => Triple.get fun s hs => ?_) fun _ => Triple.pure fun s hs => hs
  refine Triple.bind ((hlink dot _ rfl).pre fun t (ht : t = s) => ht ▸ hs) fun one => ?_
  exact Triple.ite (fun _ => hlink dotDot _ rfl) fun _ => Triple.pure fun s hs => hs

/-- The name of the new inode; if that is a directory, the link count of its parent is behind. -/
theorem linkName_links (htype : type ≠ .free) (hip : (ip, n) ∈ l) (hdp : (dp, k) ∈ l) (dots : Bool)
    (name : Name) (room : Bool) :
    Triple (Good l m (Unnamed type n)) (linkName dots dp ip name room) fun linked => Good l m
      (cond linked (Linked fun j => if type = .dir then unit k j else 0) (Unnamed type n)) := by
  refine Triple.ite (fun _ => Triple.get fun s hs => ?_) fun _ => Triple.pure fun s hs => hs
  rw [hs.1.known _ hip]
  refine (dirlink_dir_spec (unnamed_refStable type n) hdp name n room fun t ht hdir hno => ?_).pre
    fun t ht => ht ▸ hs
  refine LinkCounts.append (e := (name, n)) ht.1 hdir hno (fun _ => ?_) fun j => ?_
  · rw [ht.2.1]
    exact htype
  · have hle := entryNeed_le t.dinode k (name, n) j
    dsimp only at hle
    rw [ht.2.1] at hle
    omega

theorem countDotDot_links (type : InodeType) (hdp : (dp, k) ∈ l) :
    Triple (Good l m (Linked fun j => if type = .dir then unit k j else 0))
      (countDotDot type dp (· + 1))
      fun _ => Good l m (Linked 0) := by
  refine Triple.ite (fun hdir => ?_) fun hdir => Triple.pure fun s hs => ?_
  · refine setNlink_dir_spec hdp _ fun s hs => LinkCounts.relink hs _ ?_ fun j hj => ?_
    · simp only [if_pos hdir, unit, if_true, Pi.zero_apply, add_zero, le_refl]
    · simp only [if_pos hdir, unit, if_neg hj, Pi.zero_apply, le_refl]
  · refine ⟨hs.1, LinkCounts.mono hs.2 fun j => ?_⟩
    simp only [if_neg hdir, Pi.zero_apply, le_refl]

theorem createAt_links (htype : type ≠ .free) (name : Name) (room : Bool) :
    Triple (Good ((ip, n) :: (dp, k) :: l) m fun s => Linked 0 s ∧ (s.dinode n).type = type ∧
      (s.dinode n).nlink = 0) (createAt type dp ip name room) fun r =>
        GoodWith r l m (Linked 0) := by
  have hR : RefStable (Linked 0) := linked_refStable fun _ => le_rfl
  have hip : (ip, n) ∈ (ip, n) :: (dp, k) :: l := List.mem_cons_self
  have hdp : (dp, k) ∈ (ip, n) :: (dp, k) :: l := List.mem_cons_of_mem _ List.mem_cons_self
  refine (ilock_spec ⟨fun _ hs _ => hs⟩ ip).bind fun _ => ?_
  refine (setNlink_dir_spec (K := Unnamed type n) hip (fun _ => 1) fun s hs => ?_).bind fun _ => ?_
  · refine ⟨LinkCounts.relink hs.1 1 ?_ fun j hj => ?_, ?_⟩
    · simp only [hs.2.2, unit, if_true, Pi.zero_apply]
      omega
    · simp only [unit, if_neg hj, Pi.zero_apply, neg_zero, le_refl]
    · rw [setDinode_self]
      exact ⟨hs.2.1, rfl⟩
  refine (linkDots_links type hip room).bind fun dots => ?_
  refine (linkName_links htype hip hdp dots name room).bind fun linked => ?_
  cases linked with
  | true =>
    refine Triple.ite (fun _ => ?_) fun h => absurd rfl h
    refine (countDotDot_links type hdp).bind fun _ => ?_
    refine Triple.bind (Q := fun _ => Good ((ip, n) :: l) m (Linked 0)) ?_ fun _ =>
      Triple.pure fun s hs => ⟨n, hs⟩
    exact (iput_spec hR dp k).pre fun s hs => hs.swap
  | false =>
    refine Triple.ite (fun h => by cases h) fun _ => ?_
    refine Triple.bind (setNlink_dir_spec (I := Unnamed type n) (K := Linked 0) hip (fun _ => 0)
      fun s hs => ?_) fun _ => ?_
    · refine LinkCounts.relink hs.1 0 ?_ fun j hj => ?_
      · simp only [hs.2.2, unit, if_true, Pi.zero_apply]
        omega
      · simp only [unit, if_neg hj, Pi.zero_apply, neg_zero, le_refl]
    · refine (iput_spec hR ip n).bind fun _ => (iput_spec hR dp k).bind fun _ => ?_
      exact Triple.pure fun s hs => hs

/-- New files and directories have the links they need. -/
theorem creates_links : Creates (Linked 0) := by
  intro l m p path type room htype
  have hR : RefStable (Linked 0) := linked_refStable fun _ => le_rfl
  refine (namex_spec hR p path true).bind fun r => ?_
  rcases r with _ | ⟨dp, name⟩
  · exact Triple.pure fun s hs => hs
  refine Triple.exists fun k => (ilock_spec hR.toEntryStable dp).bind fun _ => ?_
  refine (dirlookup_spec hR dp name).bind fun r => ?_
  cases r with
  | some ip =>
    refine Triple.exists fun n => ?_
    refine Triple.bind (Q := fun _ => Good ((ip, n) :: l) m (Linked 0)) ?_ fun _ => ?_
    · exact (iput_spec hR dp k).pre fun s hs => hs.swap
    · refine (ilock_spec hR.toEntryStable ip).bind fun _ => Triple.get fun s hs => ?_
      refine Triple.ite (fun _ => Triple.pure fun t ht => ⟨n, ht ▸ hs⟩) fun _ => ?_
      exact ((iput_spec hR ip n).pre fun t ht => ht ▸ hs).bind fun _ => Triple.pure fun t ht => ht
  | none =>
    refine (ialloc_links type).bind fun r => ?_
    cases r with
    | none => exact (iput_spec hR dp k).bind fun _ => Triple.pure fun s hs => hs
    | some ip => exact Triple.exists fun n => createAt_links htype name room

/-! ### Links -/

/-- The link count of a file is one ahead of its names. -/
def Ahead (n : Nat) (s : Files) : Prop :=
  Linked (fun j => -unit n j) s ∧
    ((s.dinode n).type ≠ .dir ∧ (s.dinode n).type ≠ .free ∧ 1 ≤ (s.dinode n).nlink)

theorem ahead_refStable (n : Nat) : RefStable (Ahead n) := by
  refine (linked_refStable (ahead_nonpos n)).and (dinode_refStable
    (c := fun d => d.type ≠ .dir ∧ d.type ≠ .free ∧ 1 ≤ d.nlink) n fun d hd => ?_)
  have := hd.2.2
  omega

theorem linkInode_links (p : Fin nproc) (hip : (ip, n) ∈ l) (new : FsPath) (room : Bool) :
    Triple (Good l m (Ahead n)) (linkInode p ip new room) fun linked =>
      Good l m (cond linked (Linked 0) (Ahead n)) := by
  have hR := ahead_refStable n
  refine (namex_spec hR p new true).bind fun r => ?_
  rcases r with _ | ⟨dp, name⟩
  · exact Triple.pure fun s hs => hs
  refine Triple.exists fun k => (ilock_spec hR.toEntryStable dp).bind fun _ =>
    Triple.get fun s hs => ?_
  rw [hs.1.known _ (List.mem_cons_of_mem _ hip)]
  refine Triple.bind ((dirlink_dir_spec (K := Linked 0) hR List.mem_cons_self name n room
    fun t ht hdir hno => ?_).pre fun t (ht : t = s) => ht ▸ hs) fun linked => ?_
  · refine LinkCounts.append (e := (name, n)) ht.1 hdir hno (fun _ => ht.2.2.1) fun j => ?_
    have hle := entryNeed_le t.dinode k (name, n) j
    dsimp only at hle
    rw [if_neg ht.2.1] at hle
    simp only [Pi.zero_apply]
    omega
  cases linked with
  | true =>
    exact (iput_spec (linked_refStable fun _ => le_rfl) dp k).bind fun _ =>
      Triple.pure fun s hs => hs
  | false => exact (iput_spec hR dp k).bind fun _ => Triple.pure fun s hs => hs

theorem Linked.ahead (h : Linked 0 s) (hdir : (s.dinode n).type ≠ .dir)
    (hfree : (s.dinode n).type ≠ .free) :
    Ahead n (s.setDinode n { s.dinode n with nlink := (s.dinode n).nlink + 1 }) := by
  have hcount := h.count n hfree
  have hpos : 0 ≤ (s.dinode n).nlink := by
    have hneed : (0 : Int) ≤ if n = rootIno then 1 else 0 := by split_ifs <;> omega
    rw [needed, Pi.zero_apply, add_zero] at hcount
    omega
  refine ⟨LinkCounts.relink h _ ?_ fun j hj => ?_, ?_⟩
  · simp only [unit, if_true, Pi.zero_apply]
    omega
  · simp only [unit, if_neg hj, Pi.zero_apply, neg_zero, le_refl]
  · rw [setDinode_self]
    exact ⟨hdir, hfree, by dsimp only; omega⟩

theorem Linked.behind (h : Linked (fun j => -unit n j) s) :
    Linked 0 (s.setDinode n { s.dinode n with nlink := (s.dinode n).nlink - 1 }) := by
  refine LinkCounts.relink h _ ?_ fun j hj => ?_
  · simp only [unit, if_true, Pi.zero_apply]
    omega
  · simp only [unit, if_neg hj, Pi.zero_apply, neg_zero, le_refl]

theorem sysLink_links (p : Fin nproc) (old new : FsPath) (room : Bool) :
    Triple (fun s => Good l m (Linked 0) s ∧ Live [] s) (sysLink p old new room)
      fun _ => Good l m (Linked 0) := by
  have hT := linked_txStable
  refine Triple.bind ((beginTx_spec hT).and (KeepsLive.beginTx [])) fun _ => ?_
  refine Triple.bind (((namex_spec (l := l) (m := m) hT.ref p old false).and
    (namex_live p old false)).pre fun s hs => ⟨hs.1, hs.2, hs.1.1.cwdHeld p⟩) fun r => ?_
  rcases r with _ | ⟨ip, name⟩
  · exact (endTx_spec hT).pre fun s hs => hs.1
  -- who has locked the inode knows that it is allocated
  refine Triple.bind (Q := fun _ s => ∃ n, Good ((ip, n) :: l) m (Linked 0) s ∧
    (s.disk ip).type ≠ .free) ?_ fun _ => ?_
  · refine ((ilock_with hT.ref.toEntryStable ip).and (ilock_live (h := []) ip)).post
      fun _ s hs => ?_
    obtain ⟨n, hgood⟩ := hs.1
    exact ⟨n, hgood, hs.2.2.2⟩
  refine Triple.exists fun n => Triple.get fun s hs => ?_
  have hdisk : s.disk ip = s.dinode n := by rw [Files.disk, hs.1.1.known _ List.mem_cons_self]
  rw [hdisk] at hs ⊢
  refine Triple.ite (fun _ => (iput_end_spec hT ip n).pre fun t ht => ht ▸ hs.1) fun hfile => ?_
  have hset := setNlink_dir_spec (l := (ip, n) :: l) (m := m) (I := fun t => t = s ∧ Linked 0 s)
    (K := Ahead n) List.mem_cons_self (· + 1) fun t ht => by
      obtain ⟨rfl, ht⟩ := ht
      exact ht.ahead hfile hs.2
  refine Triple.bind (hset.pre fun t ht => ?_) fun _ => ?_
  · subst ht
    exact ⟨hs.1.1, rfl, hs.1.2⟩
  refine (linkInode_links p List.mem_cons_self new room).bind fun linked => ?_
  cases linked with
  | true => exact Triple.ite (fun _ => iput_end_spec hT ip n) fun h => absurd rfl h
  | false =>
    refine Triple.ite (fun h => by cases h) fun _ => ?_
    refine Triple.bind (ilock_spec (ahead_refStable n).toEntryStable ip) fun _ => ?_
    refine Triple.bind (setNlink_dir_spec (K := Linked 0) List.mem_cons_self (· - 1)
      fun t ht => ht.1.behind) fun _ => iput_end_spec hT ip n

/-- An entry of the directory `k` names inode `n`. -/
def Names (name : Name) (n k : Nat) (s : Files) : Prop :=
  Linked 0 s ∧ (s.dinode k).type = .dir ∧ HasName name n (s.dinode k).entries

theorem names_entryStable (name : Name) (n k : Nat) : EntryStable (Names name n k) :=
  ⟨fun _ hs _ => hs⟩

/-- Without the entry the link count of the inode is ahead, and that of the directory if it was one
of a subdirectory. -/
theorem Names.remove (h : Names name n k s) (hdot : name ≠ dot) (hdots : name ≠ dotDot) :
    Linked (fun j => -unit n j - if (s.dinode n).type = .dir then unit k j else 0)
      (s.setDinode k
        { s.dinode k with entries := (s.dinode k).entries.eraseP fun e => e.1 == name }) := by
  obtain ⟨hlinked, hdir, e, hfind, rfl⟩ := h
  have hk : k < s.ninodes := by
    by_contra hge
    rw [hlinked.bound k (by omega)] at hdir
    cases hdir
  have hname : e.1 = name := by simpa using List.find?_some hfind
  have hlink : isLink e = true := by simp [isLink, hname, hdot, hdots]
  refine LinkCounts.remove hlinked hk hfind fun j => ?_
  rw [entryNeed, if_pos hlink, Pi.zero_apply]
  omega

theorem removeEntry_links (hdp : (dp, k) ∈ l) (hs : Good l m (Names name n k) s) (hdot : name ≠ dot)
    (hdots : name ≠ dotDot) :
    Triple (fun t => t = s) (removeEntry dp name) fun _ =>
      Good l m (Linked fun j => -unit n j - if (s.dinode n).type = .dir then unit k j else 0) := by
  refine Triple.modify fun t ht => ?_
  subst ht
  rw [Files.setDisk, Files.disk, hs.1.known _ hdp]
  exact ⟨hs.1.congr rfl rfl rfl rfl, hs.2.remove hdot hdots⟩

theorem unlinkInode_links (hdot : name ≠ dot) (hdots : name ≠ dotDot) :
    Triple (Good ((ip, n) :: (dp, k) :: l) m (Names name n k)) (unlinkInode dp ip name)
      fun _ => Good l m (Linked 0) := by
  have hT := linked_txStable
  have hip : (ip, n) ∈ (ip, n) :: (dp, k) :: l := List.mem_cons_self
  have hdp : (dp, k) ∈ (ip, n) :: (dp, k) :: l := List.mem_cons_of_mem _ List.mem_cons_self
  refine (ilock_spec (names_entryStable name n k) ip).bind fun _ => Triple.get fun s hs => ?_
  have hdisk : s.disk ip = s.dinode n := by rw [Files.disk, hs.1.known _ hip]
  rw [hdisk]
  refine Triple.ite (fun _ => Triple.failure) fun _ => Triple.ite (fun _ => ?_) fun _ => ?_
  · have hgood : Good ((ip, n) :: (dp, k) :: l) m (Linked 0) s := ⟨hs.1, hs.2.1⟩
    refine Triple.bind ((iput_spec hT.ref ip n).pre fun t (ht : t = s) => ht ▸ hgood) fun _ => ?_
    exact iput_end_spec hT dp k
  refine (removeEntry_links hdp hs hdot hdots).bind fun _ => ?_
  refine Triple.bind (Q := fun _ => Good ((ip, n) :: (dp, k) :: l) m (Linked fun j => -unit n j)) ?_
    fun _ => ?_
  · refine Triple.ite (fun htype => ?_) fun htype => Triple.pure fun t ht => ?_
    · refine setNlink_dir_spec hdp _ fun t ht => LinkCounts.relink ht _ ?_ fun j hj => ?_
      · simp only [if_pos htype, unit, if_true]
        omega
      · simp only [if_pos htype, unit, if_neg hj, sub_zero, le_refl]
    · refine ⟨ht.1, LinkCounts.mono ht.2 fun j => ?_⟩
      simp only [if_neg htype, sub_zero, le_refl]
  refine Triple.bind (Q := fun _ => Good ((ip, n) :: l) m (Linked fun j => -unit n j)) ?_
    fun _ => ?_
  · exact (iput_spec (linked_refStable (ahead_nonpos n)) dp k).pre fun t ht => ht.swap
  exact Triple.bind (setNlink_dir_spec (K := Linked 0) List.mem_cons_self (· - 1)
    fun t ht => ht.behind) fun _ =>
    iput_end_spec hT ip n

theorem sysUnlink_links (p : Fin nproc) (path : FsPath) :
    Triple (Good l m (Linked 0)) (sysUnlink p path) fun _ => Good l m (Linked 0) := by
  have hT := linked_txStable
  refine (beginTx_spec hT).bind fun _ => (namex_spec hT.ref p path true).bind fun r => ?_
  rcases r with _ | ⟨dp, name⟩
  · exact endTx_spec hT
  refine Triple.exists fun k => (ilock_spec hT.ref.toEntryStable dp).bind fun _ => ?_
  refine Triple.ite (fun _ => iput_end_spec hT dp k) fun hname => ?_
  refine (dirlookup_dir_spec hT.ref.toEntryStable List.mem_cons_self name).bind fun r => ?_
  cases r with
  | none => exact (iput_end_spec hT dp k).pre fun s hs => ⟨hs.1, hs.2.1⟩
  | some ip =>
    refine Triple.exists fun n => ?_
    exact unlinkInode_links (fun h => hname (.inl h)) fun h => hname (.inr h)

theorem swapName_ne_dots (pid : Nat) : swapName pid ≠ dot ∧ swapName pid ≠ dotDot := by
  constructor <;> intro h <;> have := congrArg List.length h <;>
    simp [swapName, dot, dotDot] at this

theorem swapfileUnlink_links (p : Fin nproc) :
    Triple (Good l m (Linked 0)) (swapfileUnlink p) fun _ => Good l m (Linked 0) := by
  have hT := linked_txStable
  refine Triple.get fun s hs => ?_
  obtain ⟨hdot, hdots⟩ := swapName_ne_dots (s.proc p).pid
  refine Triple.bind ((beginTx_spec (l := l) (m := m) hT).pre fun t (ht : t = s) => ht ▸ hs)
    fun _ => ?_
  refine (namex_root_spec hT.ref.toEntryStable (fun s hs => hs.root) p _).bind fun r => ?_
  refine Triple.exists fun dp => Triple.fact (fun s hs => hs.1) ?_
  rintro rfl
  refine Triple.bind ((ilock_spec hT.ref.toEntryStable dp).pre fun s hs => hs.2) fun _ => ?_
  refine (dirlookup_dir_spec hT.ref.toEntryStable List.mem_cons_self _).bind fun r => ?_
  cases r with
  | none => exact (iput_end_spec hT dp rootIno).pre fun s hs => ⟨hs.1, hs.2.1⟩
  | some ip =>
    refine Triple.exists fun n => (ilock_spec (names_entryStable _ n rootIno) ip).bind fun _ => ?_
    refine Triple.bind
      (Q := fun _ => Good ((ip, n) :: (dp, rootIno) :: l) m (Linked fun j => -unit n j)) ?_
      fun _ => ?_
    · intro t ht u t' he
      have hend :=
        removeEntry_links (List.mem_cons_of_mem _ List.mem_cons_self) ht hdot hdots t rfl u t' he
      refine ⟨hend.1, LinkCounts.mono hend.2 fun j => ?_⟩
      rw [unit, unit]
      split_ifs <;> omega
    refine Triple.bind (setNlink_dir_spec (K := Linked 0) List.mem_cons_self (· - 1)
      fun t ht => ht.behind) fun _ => ?_
    exact (iput_spec hT.ref ip n).bind fun _ => iput_end_spec hT dp rootIno

/-! ## Runs -/

theorem linked_unowned : Unowned (Linked 0) where
  entry := linked_txStable.ref.toEntryStable
  out _ _ hs := hs
  pids _ _ hs := hs

theorem linked_execs (p : Fin nproc) (how : ExecEnd) : Execs (Linked 0) (·.At .outside) p how where
  steady := at_steady .outside
  outside _ h := h
  stuck _ _ hs _ := hs
  done _ _ _ hs _ := hs

/-- Link counts and references of a file system between two programs. -/
structure Consistent (s : Files) : Prop where
  owns : Owns [] [] s
  linked : Linked 0 s
  live : Live [] s

/-- **One step** keeps a file system consistent. -/
theorem step_consistent {s' : Files} {a : FileAct} (hs : Consistent s)
    (hstep : s.step a = some s') : Consistent s' := by
  have hgood : Good [] [] (Linked 0) s := ⟨hs.owns, hs.linked⟩
  have hend : Good [] [] (Linked 0) s' := by
    refine step_rule (J := Linked 0) ?_ hgood hstep
    exact
      { tx := linked_txStable
        creates := creates_links
        fork := fun _ np _ _ _ => linked_unowned.forks linked_txStable np
        exec := fun p path how _ hat u t hrun =>
          kexecFiles_spec linked_txStable (linked_execs p how) path s ⟨hs.owns, hs.linked,
            hat⟩ u t hrun
        swapfile := fun _ _ _ _ _ ht => ht
        outside := fun _ _ _ _ ht => ht
        exit := fun _ _ => hs.linked
        exits := fun p _ => linked_unowned.exits p fun _ _ => swapfileUnlink_links p
        wait := fun p c _ hzombie u t hrun =>
          wait_good linked_txStable.ref hgood hzombie (fun _ ht _ => ht) hrun
        link := fun p old new room _ u t hrun =>
          sysLink_links p old new room s ⟨hgood, hs.live⟩ u t hrun
        unlink := fun p path _ => sysUnlink_links p path }
  exact ⟨hend.1, hend.2, step_live hs.owns hs.live hstep⟩

/-- The first process has the root directory of a file system whose link counts are right. -/
structure FsBoot (s : Files) : Prop extends s.Boot where
  linked : Linked 0 s

theorem FsBoot.consistent (h : FsBoot s) : Consistent s := by
  have hzero : ∀ ip, 0 < (s.itable ip).ref → ip = 0 := by
    intro ip hpos
    by_contra hip
    rw [h.inodes ip hip] at hpos
    cases hpos
  have hroot : (s.dinode (s.itable 0).inum).type ≠ .free := by
    rw [h.root, h.linked.root]
    simp
  refine ⟨boot_owns h.toBoot, h.linked, fun ip jp hi hj _ => ?_, fun ip hi _ => ?_, fun ip hi => ?_⟩
  · rw [hzero ip hi, hzero jp hj]
  · rw [hzero ip hi]
    exact hroot
  · rw [hzero ip (by omega)]
    exact hroot

end

theorem twoFiles_links (n : Nat) : links 8 twoFiles.dinode n = if n = 2 ∨ n = 3 then 1 else 0 := by
  by_cases h2 : n = 2
  · subst h2
    decide
  by_cases h3 : n = 3
  · subst h3
    decide
  have hne : ∀ k, naming (twoFiles.dinode k).entries n = 0 := by
    intro k
    refine List.countP_eq_zero.mpr fun e he => ?_
    unfold twoFiles at he
    dsimp only at he
    split at he
    · fin_cases he <;> simp [isLink] <;> omega
    · split at he <;> cases he
  rw [if_neg (by omega)]
  exact Finset.sum_eq_zero fun k _ => hne k

theorem twoFiles_fsBoot : FsBoot twoFiles := by
  have htype : ∀ n, n = 1 ∨ (n = 2 ∨ n = 3) ∨
      twoFiles.dinode n = { type := .free, nlink := 0, entries := [] } := by
    intro n
    unfold twoFiles
    dsimp only
    split_ifs <;> simp [*]
  refine ⟨twoFiles_boot, rfl, fun n hn => ?_, fun n => ?_, fun n hn => ?_, fun n hn => ?_⟩
  · rcases htype n with rfl | (rfl | rfl) | h
    · exact absurd hn (by decide)
    · exact absurd hn (by decide)
    · exact absurd hn (by decide)
    · rw [h]
  · rcases htype n with rfl | (rfl | rfl) | h
    · decide
    · decide
    · decide
    · simp [h]
  · refine (twoFiles_links n).trans (if_neg ?_)
    rintro (rfl | rfl) <;> cases hn
  · rcases htype n with rfl | (rfl | rfl) | h
    · decide
    · decide
    · decide
    · exact absurd (by rw [h]) hn

/-- Every link count is one that a `short` holds. -/
def LinksFit (s : Files) : Prop :=
  ∀ n, n < s.ninodes → -32768 ≤ (s.dinode n).nlink ∧ (s.dinode n).nlink ≤ 32767

instance (s : Files) : Decidable (LinksFit s) :=
  inferInstanceAs (Decidable (∀ n, n < s.ninodes →
    -32768 ≤ (s.dinode n).nlink ∧ (s.dinode n).nlink ≤ 32767))

theorem LinksFit.shortLinks {s : Files} (h : LinksFit s) : s.shortLinks = s := by
  unfold Files.shortLinks
  congr 1
  funext n
  split
  · rename_i hn
    obtain ⟨hlo, hhi⟩ := h n hn
    rw [Int.bmod_eq_of_le (by omega) (by omega)]
  · rfl

/-- **One step with counts of 16 bits**, none of which overflows. -/
theorem step16_consistent {s s' : Files} {a : FileAct} (hs : Consistent s)
    (hfit : ∀ t ∈ s.step a, LinksFit t) (h : s.step16 a = some s') :
    Consistent s' ∧ LinksFit s' := by
  obtain ⟨t, ht, rfl⟩ := Option.map_eq_some_iff.mp h
  -- cutting a count that fits changes nothing
  rw [(hfit t ht).shortLinks]
  exact ⟨step_consistent hs ht, hfit t ht⟩

/-- The runs from a file system whose link counts are right, with counts of 16 bits none of which
overflows. -/
abbrev LinkRun : Files → Prop :=
  Reach Files.step16 (fun s => FsBoot s ∧ LinksFit s) fun s a => ∀ t ∈ Files.step s a, LinksFit t

/-- What `fsck` would look for. -/
structure Sane (s : Files) : Prop where
  /-- A name is that of an inode that is allocated. -/
  names : ∀ k e, k < s.ninodes → e ∈ (s.dinode k).entries → isLink e = true →
    (s.dinode e.2).type ≠ .free
  distinct : ∀ n, ((s.dinode n).entries.map Prod.fst).Nodup
  /-- An inode is not freed while it has a name. -/
  counted : ∀ n, (s.dinode n).type ≠ .free → links s.ninodes s.dinode n ≤ (s.dinode n).nlink
  short : LinksFit s
  /-- Nor while somebody has it. -/
  held : ∀ ip, 0 < (s.itable ip).ref → (s.dinode (s.itable ip).inum).type ≠ .free
  /-- An open file is closed with its last descriptor. -/
  files : ∀ f, (s.ftable f).ref = total (procFiles f) s.proc

/-- **The file system stays sane** whatever the processes do with `fork`, `exec`, `exit`, `wait`,
and the calls on files, as long as no inode gets 32768 links. -/
theorem files_stay_sane {s : Files} (h : LinkRun s) : Sane s := by
  obtain ⟨hs, hfit⟩ : Consistent s ∧ LinksFit s :=
    h.keeps (P := fun s => Consistent s ∧ LinksFit s) (fun _ hb => ⟨hb.1.consistent, hb.2⟩)
      fun _ _ _ hs hfit hstep => step16_consistent hs.1 hfit hstep
  refine ⟨fun k e hk he hlink hfree => ?_, hs.linked.names, fun n hn => ?_, hfit,
    fun ip hip => hs.live.alloc ip (by rwa [List.count_nil]), fun f => ?_⟩
  · have hnone := Finset.sum_eq_zero_iff.mp (hs.linked.named e.2 hfree) k (Finset.mem_range.mpr hk)
    exact absurd (List.countP_eq_zero.mp hnone e he) (by simp [hlink])
  · have hcount := hs.linked.count n hn
    have hzero : (0 : Nat → Int) n = 0 := rfl
    unfold needed at hcount
    have : (0 : Int) ≤ if n = rootIno then 1 else 0 := by split <;> decide
    omega
  · rw [hs.owns.files f, List.count_nil, Nat.add_zero]

/-- A child unlinks a file that its parent has open. -/
theorem files_stay_sane_unlink : ∃ s, LinkRun s ∧ s.root.length = 3 ∧ Sane s := by
  have hrun : (replay Files.step16 (fun s a => decide (∀ t ∈ Files.step s a, LinksFit t)) twoFiles
      [.openFile 0 ⟨true, [[97]]⟩ false true true true, .fork 0 1 true,
        .unlink 1 ⟨true, [[97]]⟩]).map (fun s => s.root.length) = some 3 := by
    decide +kernel
  obtain ⟨s, hs, hroot⟩ := Option.map_eq_some_iff.mp hrun
  have hreach : LinkRun s :=
    replay_reach (fun _ _ => of_decide_eq_true) (.init ⟨twoFiles_fsBoot, by decide⟩) hs
  exact ⟨s, hreach, hroot, files_stay_sane hreach⟩

end Xv6Paging
