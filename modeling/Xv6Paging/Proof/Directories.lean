import Xv6Paging.Proof.InodeBytes

/-!
# Directories

A directory is a file of 16-byte entries. Taken by their names, cut to 14 bytes, the entries that
are in use make a finite map: `dirlookup` is a lookup in it, `dirlink` an insertion, and writing
zeros over an entry, as `sys_unlink` does, a removal.
-/

namespace Xv6Paging.Fs

open Lib

variable {j : Nat} {dp : Dinode} {name : List UInt8} {data : Blocks} {de : Dirent}

/-! ## Names -/

/-- What counts of a name: its first 14 characters. -/
def nameKey (s : List UInt8) : List UInt8 := (s.takeWhile (· ≠ 0)).take 14

theorem takeWhile_headD (s : List UInt8) :
    s.takeWhile (· ≠ 0) = if s.headD 0 = 0 then [] else s.headD 0 :: s.tail.takeWhile (· ≠ 0) := by
  cases s with
  | nil => rfl
  | cons a s =>
    by_cases ha : a = 0
    · simp [ha]
    · simp [ha]

theorem strncmp_eq_zero : ∀ (n : Nat) (s t : List UInt8),
    strncmp s t n = 0 ↔ (s.takeWhile (· ≠ 0)).take n = (t.takeWhile (· ≠ 0)).take n := by
  intro n
  induction n with
  | zero =>
    intro s t
    simp [strncmp]
  | succ n ih =>
    intro s t
    rw [strncmp, takeWhile_headD s, takeWhile_headD t]
    by_cases hs : s.headD 0 = 0
    · rw [if_neg fun h => h.1 hs, if_pos hs, hs]
      by_cases ht : t.headD 0 = 0
      · rw [if_pos ht, ht]
        exact iff_of_true rfl rfl
      · have hpos : (t.headD 0).toNat ≠ 0 := fun h => ht (UInt8.toNat_inj.mp h)
        rw [if_neg ht, List.take_nil, List.take_succ_cons]
        simp only [UInt8.toNat_zero, reduceCtorEq, iff_false]
        omega
    · rw [if_neg hs]
      by_cases hst : s.headD 0 = t.headD 0
      · rw [if_pos ⟨hs, hst⟩, ih, if_neg (hst ▸ hs), ← hst, List.take_succ_cons,
          List.take_succ_cons]
        simp
      · have hne : (s.headD 0).toNat ≠ (t.headD 0).toNat := fun h => hst (UInt8.toNat_inj.mp h)
        rw [if_neg fun h => hst h.2]
        refine iff_of_false (by omega) fun h => ?_
        by_cases ht : t.headD 0 = 0
        · rw [if_pos ht, List.take_nil, List.take_succ_cons] at h
          cases h
        · rw [if_neg ht, List.take_succ_cons, List.take_succ_cons] at h
          exact hst (List.cons.inj h).1

/-- `namecmp` compares what counts. -/
theorem namecmp_eq_zero (s t : List UInt8) : namecmp s t = 0 ↔ nameKey s = nameKey t :=
  strncmp_eq_zero 14 s t

theorem take_takeWhile_strncpy : ∀ (n : Nat) (t : List UInt8),
    ((strncpy t n).takeWhile (· ≠ 0)).take n = (t.takeWhile (· ≠ 0)).take n := by
  intro n
  induction n with
  | zero =>
    intro t
    rw [List.take_zero, List.take_zero]
  | succ n ih =>
    intro t
    rw [strncpy, takeWhile_headD t]
    by_cases ht : t.headD 0 = 0
    · rw [if_pos ht, if_pos ht]
      rfl
    · rw [if_neg ht, if_neg ht, List.takeWhile_cons_of_pos (by simpa using ht), List.take_succ_cons,
        List.take_succ_cons, ih]

/-- `strncpy` keeps what counts. -/
theorem nameKey_strncpy (name : List UInt8) : nameKey (strncpy name 14) = nameKey name :=
  take_takeWhile_strncpy 14 name

theorem strncpy_length : ∀ (n : Nat) (t : List UInt8), (strncpy t n).length = n := by
  intro n
  induction n with
  | zero => intro t; rfl
  | succ n ih =>
    intro t
    rw [strncpy]
    split
    · exact List.length_replicate
    · rw [List.length_cons, ih]

/-! ## Entries -/

theorem Dirent.bytes_length (h : de.name.length = 14) : de.bytes.length = 16 := by
  rw [Dirent.bytes, List.length_append, h]
  rfl

theorem Dirent.ofBytes_bytes (h : de.inum < 65536) : Dirent.ofBytes de.bytes = de := by
  obtain ⟨inum, name⟩ := de
  have h : inum < 65536 := h
  have hinum : (UInt8.ofNat inum).toNat + 256 * (UInt8.ofNat (inum / 256)).toNat = inum := by
    rw [UInt8.toNat_ofNat', UInt8.toNat_ofNat']
    omega
  simp only [Dirent.ofBytes, Dirent.bytes, List.cons_append, List.nil_append, List.getD_cons_zero,
    List.getD_cons_succ, hinum, List.drop_succ_cons, List.drop_zero]

/-- Entry `j` of a directory. -/
def Dinode.entry (data : Blocks) (dp : Dinode) (j : Nat) : Dirent :=
  .ofBytes (dp.bytes data (16 * j) 16)

/-- Entry `j` is in use, for this name. -/
def Dinode.matches (data : Blocks) (dp : Dinode) (name : List UInt8) (j : Nat) : Bool :=
  decide ((dp.entry data j).inum ≠ 0) && decide (nameKey name = nameKey (dp.entry data j).name)

/-- A directory of whole entries, all of whose blocks are there. -/
structure IsDirectory (d : Disk) (dp : Dinode) : Prop where
  type : dp.type = tDir
  whole : Whole d.data dp
  entries : dp.size % 16 = 0

section

variable {d : Disk} {dp : Dinode}

/-- An entry whose block is there. -/
theorem readi_entry (hj : 16 * j + 16 ≤ dp.size) (hsize : dp.size ≤ 268 * 1024)
    (hb : dp.block d.data (16 * j / 1024) ≠ 0) :
    readi d dp (16 * j) 16 = .ok (dp.bytes d.data (16 * j) 16, dp, d) := by
  have hn : dp.readable (16 * j) 16 = 16 := by
    rw [readable_eq (by omega) (by omega)]
    omega
  rw [readi, hn]
  refine readiLoop_present 16 [] (Nat.le_refl _) fun x hx hlt => ?_
  rw [show x / 1024 = 16 * j / 1024 by omega]
  exact hb

theorem IsDirectory.readi (h : IsDirectory d dp) (hj : 16 * j < dp.size) :
    readi d dp (16 * j) 16 = .ok (dp.bytes d.data (16 * j) 16, dp, d) := by
  have hent := h.entries
  exact readi_entry (by omega) h.whole.size_le (h.whole _ hj)

/-- The first entry for a name. -/
def Dinode.find (data : Blocks) (dp : Dinode) (name : List UInt8) : Option Nat :=
  (List.range (dp.size / 16)).find? (dp.matches data name)

theorem dirlookupLoop_entry
    (hread : readi d dp (16 * j) 16 = .ok (dp.bytes d.data (16 * j) 16, dp, d)) (name : List UInt8)
    (fuel : Nat) (hj : 16 * j < dp.size) :
    dirlookupLoop name (fuel + 1) d dp (16 * j) =
      if dp.matches d.data name j then .ok (some ((dp.entry d.data j).inum, 16 * j), dp, d)
      else dirlookupLoop name fuel d dp (16 * (j + 1)) := by
  have hlen : (dp.bytes d.data (16 * j) 16).length = 16 := bytes_length ..
  have hcond : dp.matches d.data name j = true ↔
      (dp.entry d.data j).inum ≠ 0 ∧ namecmp name (dp.entry d.data j).name = 0 := by
    rw [Dinode.matches, Bool.and_eq_true, decide_eq_true_iff, decide_eq_true_iff, namecmp_eq_zero]
  rw [dirlookupLoop, if_pos hj, hread, if_congr hcond rfl rfl]
  simp only [bind, Except.bind, ne_eq, hlen, not_true_eq_false, if_false]
  rfl

theorem dirlinkLoop_entry (h : IsDirectory d dp) (fuel : Nat) (hj : 16 * j < dp.size) :
    dirlinkLoop (fuel + 1) d dp (16 * j) =
      if (dp.entry d.data j).inum = 0 then .ok (16 * j, dp, d)
      else dirlinkLoop fuel d dp (16 * (j + 1)) := by
  have hlen : (dp.bytes d.data (16 * j) 16).length = 16 := bytes_length ..
  rw [dirlinkLoop, if_pos hj, h.readi hj]
  simp only [bind, Except.bind, ne_eq, hlen, not_true_eq_false, if_false]
  rfl

theorem dirlookupLoop_spec (h : IsDirectory d dp) (name : List UInt8) : ∀ (fuel j : Nat),
    dp.size / 16 < j + fuel →
    dirlookupLoop name fuel d dp (16 * j) =
      .ok (((List.range' j (dp.size / 16 - j)).find? (dp.matches d.data name)).map
        fun j => ((dp.entry d.data j).inum, 16 * j), dp, d) := by
  intro fuel
  have hent := h.entries
  induction fuel with
  | zero =>
    intro j hj
    rw [show dp.size / 16 - j = 0 by omega]
    rfl
  | succ fuel ih =>
    intro j hj
    by_cases hlt : 16 * j < dp.size
    · rw [dirlookupLoop_entry (h.readi hlt) name fuel hlt,
        show dp.size / 16 - j = (dp.size / 16 - (j + 1)) + 1 by omega, List.range'_succ]
      by_cases hmatch : dp.matches d.data name j = true
      · rw [if_pos hmatch, List.find?_cons_of_pos hmatch]
        rfl
      · rw [if_neg hmatch, List.find?_cons_of_neg hmatch]
        exact ih (j + 1) (by omega)
    · rw [dirlookupLoop, if_neg hlt, show dp.size / 16 - j = 0 by omega]
      rfl

/-- **`dirlookup`** finds the first entry for a name. -/
theorem dirlookup_spec (h : IsDirectory d dp) (name : List UInt8) :
    dirlookup d dp name =
      .ok ((dp.find d.data name).map fun j => ((dp.entry d.data j).inum, 16 * j), dp, d) := by
  rw [dirlookup, if_neg fun hne => hne h.type]
  have := dirlookupLoop_spec h name (dp.size / 16 + 1) 0 (by omega)
  rw [Nat.mul_zero, Nat.sub_zero, ← List.range_eq_range'] at this
  exact this

/-- The entries before the one it finds have to be there; those after it, it does not read. -/
theorem dirlookup_first (htype : dp.type = tDir) (hsize : dp.size ≤ 268 * 1024)
    (hj : 16 * j + 16 ≤ dp.size) (hthere : ∀ k, k ≤ j → dp.block d.data (16 * k / 1024) ≠ 0)
    (hmatch : dp.matches d.data name j = true)
    (hfirst : ∀ k, k < j → dp.matches d.data name k = false) :
    dirlookup d dp name = .ok (some ((dp.entry d.data j).inum, 16 * j), dp, d) := by
  -- from entry k on, by induction on the entries before j
  have hloop : ∀ n k fuel, k + n = j → n < fuel →
      dirlookupLoop name fuel d dp (16 * k) = .ok (some ((dp.entry d.data j).inum, 16 * j),
      dp, d) := by
    intro n
    induction n with
    | zero =>
      intro k fuel hk hfuel
      obtain ⟨fuel, rfl⟩ := Nat.exists_eq_succ_of_ne_zero (Nat.ne_of_gt hfuel)
      obtain rfl : k = j := hk
      rw [dirlookupLoop_entry (readi_entry hj hsize (hthere k (Nat.le_refl _))) name fuel
        (by omega), if_pos hmatch]
    | succ n ih =>
      intro k fuel hk hfuel
      obtain ⟨fuel, rfl⟩ := Nat.exists_eq_succ_of_ne_zero (by omega : fuel ≠ 0)
      have hno : ¬ dp.matches d.data name k = true := by
        rw [hfirst k (by omega)]
        exact Bool.false_ne_true
      rw [dirlookupLoop_entry (readi_entry (by omega) hsize (hthere k (by omega))) name fuel
        (by omega), if_neg hno]
      exact ih (k + 1) fuel (by omega) (by omega)
  rw [dirlookup, if_neg fun hne => hne htype]
  exact hloop j 0 (dp.size / 16 + 1) (Nat.zero_add j) (by omega)

/-- The entry `dirlink` writes to: the first one that is not in use, or the one past the end. -/
def Dinode.room (data : Blocks) (dp : Dinode) : Nat :=
  ((List.range (dp.size / 16)).find? fun j => (dp.entry data j).inum == 0).getD (dp.size / 16)

theorem dirlinkLoop_spec (h : IsDirectory d dp) : ∀ (fuel j : Nat), j ≤ dp.size / 16 →
    dp.size / 16 < j + fuel →
    dirlinkLoop fuel d dp (16 * j) =
      .ok (16 * ((List.range' j (dp.size / 16 - j)).find?
        fun j => (dp.entry d.data j).inum == 0).getD (dp.size / 16), dp, d) := by
  intro fuel
  have hent := h.entries
  induction fuel with
  | zero => intro j hle hj; omega
  | succ fuel ih =>
    intro j hle hj
    by_cases hlt : 16 * j < dp.size
    · rw [dirlinkLoop_entry h fuel hlt,
        show dp.size / 16 - j = (dp.size / 16 - (j + 1)) + 1 by omega, List.range'_succ]
      by_cases hfree : (dp.entry d.data j).inum = 0
      · have hhit : ((dp.entry d.data j).inum == 0) = true := beq_iff_eq.mpr hfree
        rw [if_pos hfree, List.find?_cons_of_pos (p := fun j => (dp.entry d.data j).inum == 0) hhit]
        rfl
      · have hmiss : ¬((dp.entry d.data j).inum == 0) = true := fun hc => hfree (beq_iff_eq.mp hc)
        rw [if_neg hfree,
          List.find?_cons_of_neg (p := fun j => (dp.entry d.data j).inum == 0) hmiss]
        exact ih (j + 1) (by omega) (by omega)
    · have hend : 16 * j = 16 * (dp.size / 16) := by omega
      rw [dirlinkLoop, if_neg hlt, show dp.size / 16 - j = 0 by omega, hend]
      rfl

theorem dirlinkLoop_room (h : IsDirectory d dp) :
    dirlinkLoop (dp.size / 16 + 1) d dp 0 = .ok (16 * dp.room d.data, dp, d) := by
  have := dirlinkLoop_spec h (dp.size / 16 + 1) 0 (Nat.zero_le _) (by omega)
  rw [Nat.mul_zero, Nat.sub_zero, ← List.range_eq_range'] at this
  exact this

/-- There is room where no entry is in use. -/
theorem room_spec (data : Blocks) (dp : Dinode) :
    dp.room data = dp.size / 16 ∨ dp.room data < dp.size / 16 ∧
    (dp.entry data (dp.room data)).inum = 0 := by
  unfold Dinode.room
  cases hfind : (List.range (dp.size / 16)).find? fun j => (dp.entry data j).inum == 0 with
  | none => exact .inl rfl
  | some j =>
    have hfree := List.find?_some hfind
    exact .inr ⟨List.mem_range.mp (List.mem_of_find?_eq_some hfind), by simpa using hfree⟩

end

/-! ## Writing an entry -/

/-- Entry `j` is now `de`, and the others are as they were. -/
structure EntrySet (d : Disk) (I : Nat → Dinode) (dnum j : Nat) (de : Dirent) (d' : Disk)
    (dp' : Dinode) : Prop where
  sb : d'.sb = d.sb
  sound : Sound d' (Function.update I dnum dp')
  dir : IsDirectory d' dp'
  size : dp'.size = max (I dnum).size (16 * j + 16)
  entry : ∀ k, dp'.entry d'.data k = if k = j then de else (I dnum).entry d.data k

section

variable {d d' : Disk} {I : Nat → Dinode} {dnum j : Nat} {de : Dirent} {dp' : Dinode}

theorem entry_replaced {I' : Nat → Dinode} (h : Replaces dnum (16 * j) 16 de.bytes d I d' I')
    (hname : de.name.length = 14) (hinum : de.inum < 65536) (k : Nat) :
    (I' dnum).entry d'.data k = if k = j then de else (I dnum).entry d.data k := by
  have hlen := Dirent.bytes_length hname
  unfold Dinode.entry
  split
  · rename_i hk
    subst hk
    have hbytes : (I' dnum).bytes d'.data (16 * k) 16 = de.bytes := by
      refine List.ext_getElem (by rw [bytes_length, hlen]) fun i hi hi' => ?_
      rw [bytes_length] at hi
      simp only [Dinode.bytes, List.getElem_map, List.getElem_range]
      rw [h.byte, if_pos ⟨rfl, Nat.le_add_right _ _⟩, Nat.add_sub_cancel_left,
        List.getElem?_eq_getElem hi']
      rfl
    rw [hbytes, Dirent.ofBytes_bytes hinum]
  · rename_i hk
    congr 1
    refine List.map_congr_left fun i hi => ?_
    have hi := List.mem_range.mp hi
    rw [h.byte]
    split
    · rename_i hin
      rw [List.getElem?_eq_none (by rw [hlen]; omega)]
      rfl
    · rfl

/-- `writei` of an entry, within the directory or right after it. -/
theorem writeDirent_spec (de : Dirent) (h : Sound d I) (hd : dnum < d.sb.ninodes)
    (hdir : IsDirectory d (I dnum)) (hj : j ≤ (I dnum).size / 16) (hname : de.name.length = 14)
    (hinum : de.inum < 65536) :
    ∃ ok dp' d', writeDirent d dnum (I dnum) (16 * j) de = .ok (ok, dp', d') ∧
      (ok = true → EntrySet d I dnum j de d' dp') ∧ (j < (I dnum).size / 16 → ok = true) := by
  have hlen := Dirent.bytes_length hname
  have hsize := hdir.whole.size_le
  have hent := hdir.entries
  unfold writeDirent
  by_cases hroom : 16 * j + 16 ≤ 268 * 1024
  · obtain ⟨w, hw, htot, hrep, henough⟩ := writei_memmove (i := dnum) h hd
      (show 16 * j ≤ (I dnum).size by omega) de.bytes (by rw [hlen]; exact hroom)
    rw [hlen] at hw htot henough
    rw [hw]
    refine ⟨w.tot == 16, w.ip, w.d, rfl, fun hok => ?_, fun hlt => ?_⟩
    · have h16 : w.tot = 16 := beq_iff_eq.mp hok
      have hall : de.bytes.take 16 = de.bytes := List.take_of_length_le (Nat.le_of_eq hlen)
      rw [h16, hall] at hrep
      have hself : Function.update I dnum w.ip dnum = w.ip := Function.update_self ..
      have hfields := hrep.fields
      rw [hself] at hfields
      have hsz : w.ip.size = max (I dnum).size (16 * j + 16) := by rw [hfields]
      have hwhole := hrep.whole dnum hdir.whole
      rw [hself] at hwhole
      refine ⟨hrep.sb, hrep.sound, ⟨?_, hwhole, ?_⟩, hsz, fun k => ?_⟩
      · rw [hfields]
        exact hdir.type
      · rw [hsz]
        omega
      · have hk := entry_replaced hrep hname hinum k
        rwa [hself] at hk
    · have hnone : needed d.data (I dnum) (16 * j) 16 = ∅ :=
        needed_eq_empty fun x _ hx => hdir.whole x (by omega)
      rw [beq_iff_eq]
      exact henough (by rw [hnone, Finset.card_empty]; exact Nat.zero_le _)
  · -- a directory of the largest size
    have hguard : writei (memmove de.bytes) d dnum (I dnum) () (16 * j) 0 16 = .ok none := by
      have hwrap : toUint (16 * j + 16) = 16 * j + 16 := Nat.mod_eq_of_lt (by omega)
      rw [writei, hwrap, if_neg (by omega), if_pos (by omega)]
    rw [hguard]
    exact ⟨false, I dnum, d, rfl, (fun hc => by cases hc), fun hlt => by omega⟩

/-! ## Looking up after that -/

theorem find_unique (hj : j < dp.size / 16) (hmatch : dp.matches data name j = true)
    (huniq : ∀ k, k < dp.size / 16 → dp.matches data name k = true → k = j) :
    dp.find data name = some j := by
  unfold Dinode.find
  cases hfind : (List.range (dp.size / 16)).find? (dp.matches data name) with
  | none =>
    have := List.find?_eq_none.mp hfind j (List.mem_range.mpr hj)
    exact absurd hmatch this
  | some k =>
    rw [huniq k (List.mem_range.mp (List.mem_of_find?_eq_some hfind)) (List.find?_some hfind)]

theorem find_some (h : dp.find data name = some j) :
    j < dp.size / 16 ∧ dp.matches data name j = true :=
  ⟨List.mem_range.mp (List.mem_of_find?_eq_some h), List.find?_some h⟩

theorem matches_iff :
    dp.matches data name j = true ↔
      (dp.entry data j).inum ≠ 0 ∧ nameKey name = nameKey (dp.entry data j).name := by
  rw [Dinode.matches, Bool.and_eq_true, decide_eq_true_iff, decide_eq_true_iff]

theorem EntrySet.matches_ne (h : EntrySet d I dnum j de d' dp') {k : Nat} (hk : k ≠ j)
    (name : List UInt8) : dp'.matches d'.data name k = (I dnum).matches d.data name k := by
  rw [Dinode.matches, Dinode.matches, h.entry, if_neg hk]

/-- A name that neither the old entry nor the new one is for is found where it was. -/
theorem EntrySet.find_other (h : EntrySet d I dnum j de d' dp') (hj : j ≤ (I dnum).size / 16)
    (hnew : dp'.matches d'.data name j = false)
    (hold : j < (I dnum).size / 16 → (I dnum).matches d.data name j = false) :
    (dp'.find d'.data name).map (fun k => (dp'.entry d'.data k).inum) =
      ((I dnum).find d.data name).map fun k => ((I dnum).entry d.data k).inum := by
  have hent := h.dir.entries
  have hsize := h.size
  -- the old entries decide: the one that may be new at the end is not for this name
  have hfind : dp'.find d'.data name = (I dnum).find d.data name := by
    have hcongr : ∀ n, (n ≤ j ∨ j < (I dnum).size / 16) →
        (List.range n).find? (dp'.matches d'.data name) =
          (List.range n).find? ((I dnum).matches d.data name) := by
      intro n hn
      induction n with
      | zero => rfl
      | succ n ih =>
        rw [List.range_succ, List.find?_append, List.find?_append, ih (by omega)]
        have hlast : dp'.matches d'.data name n = (I dnum).matches d.data name n := by
          by_cases hnj : n = j
          · subst hnj
            rw [hnew, hold (by omega)]
          · exact h.matches_ne hnj name
        rw [List.find?_singleton, List.find?_singleton, hlast]
    unfold Dinode.find
    by_cases hin : j < (I dnum).size / 16
    · rw [show dp'.size / 16 = (I dnum).size / 16 by omega, hcongr _ (.inr hin)]
    · rw [show dp'.size / 16 = (I dnum).size / 16 + 1 by omega, List.range_succ, List.find?_append,
        hcongr _ (.inl (by omega)), List.find?_singleton, show (I dnum).size / 16 =
        j by omega, hnew]
      simp
  rw [hfind]
  cases hat : (I dnum).find d.data name with
  | none => rfl
  | some k =>
    obtain ⟨hk, hmatch⟩ := find_some hat
    have hkj : k ≠ j := by
      rintro rfl
      rw [hold hk] at hmatch
      cases hmatch
    simp only [Option.map_some, h.entry, if_neg hkj]

end

/-! ## The map -/

/-- The inode number `dirlookup` finds. -/
def found (d : Disk) (dp : Dinode) (name : List UInt8) : Except FsPanic (Option Nat) :=
  (dirlookup d dp name).map fun r => r.1.map Prod.fst

theorem found_eq {d : Disk} (h : IsDirectory d dp) (name : List UInt8) :
    found d dp name = .ok ((dp.find d.data name).map fun j => (dp.entry d.data j).inum) := by
  rw [found, dirlookup_spec h]
  show Except.ok (Option.map Prod.fst (Option.map _ _)) = _
  rw [Option.map_map]
  rfl

/-- No two entries in use are for the same name. -/
def Distinct (data : Blocks) (dp : Dinode) : Prop :=
  ∀ j k, j < dp.size / 16 → k < dp.size / 16 → (dp.entry data j).inum ≠ 0 →
    (dp.entry data k).inum ≠ 0 → nameKey (dp.entry data j).name =
    nameKey (dp.entry data k).name → j = k

section

variable {d d' : Disk} {I : Nat → Dinode} {dnum : Nat} {name : List UInt8} {dp' : Dinode}

/-- What `dirlink` does when it returns 0. -/
theorem dirlink_true {inum : Nat} (h : Sound d I) (hd : dnum < d.sb.ninodes)
    (hdir : IsDirectory d (I dnum)) (hinum : inum < 65536)
    (hcall : dirlink d dnum (I dnum) name inum = .ok (true, dp', d')) :
    (I dnum).find d.data name = none ∧
      EntrySet d I dnum ((I dnum).room d.data)
        { inum := inum, name := strncpy name 14 } d' dp' := by
  rw [dirlink, dirlookup_spec hdir] at hcall
  cases hfind : (I dnum).find d.data name with
  | some j =>
    rw [hfind] at hcall
    cases hcall
  | none =>
    refine ⟨rfl, ?_⟩
    rw [hfind] at hcall
    have hroom : (I dnum).room d.data ≤ (I dnum).size / 16 := by
      rcases room_spec d.data (I dnum) with heq | ⟨hlt, -⟩
      · exact Nat.le_of_eq heq
      · exact Nat.le_of_lt hlt
    obtain ⟨ok, dp₁, d₁, hwrite, hset, -⟩ := writeDirent_spec
      { inum := inum, name := strncpy name 14 } h hd hdir hroom (strncpy_length 14 name) hinum
    have hcall : (dirlinkLoop ((I dnum).size / 16 + 1) d (I dnum) 0 >>= fun r =>
        writeDirent r.2.2 dnum r.2.1 r.1 { inum := inum, name := strncpy name 14 }) =
        .ok (true, dp', d') := hcall
    rw [dirlinkLoop_room hdir] at hcall
    have hcall : writeDirent d dnum (I dnum) (16 * (I dnum).room d.data)
        { inum := inum, name := strncpy name 14 } = .ok (true, dp', d') := hcall
    rw [hwrite] at hcall
    obtain ⟨rfl, hrest⟩ := Prod.mk.inj (Except.ok.inj hcall)
    obtain ⟨rfl, rfl⟩ := Prod.mk.inj hrest
    exact hset rfl

/-- The names stay distinct if the new entry is for none of the others. -/
theorem EntrySet.distinct (h : EntrySet d I dnum j de d' dp') (hj : j ≤ (I dnum).size / 16)
    (hdist : Distinct d.data (I dnum))
    (hde : de.inum ≠ 0 → ∀ k, k < (I dnum).size / 16 → k ≠ j → ((I dnum).entry d.data k).inum ≠ 0 →
      nameKey ((I dnum).entry d.data k).name ≠ nameKey de.name) : Distinct d'.data dp' := by
  intro a b ha hb halive hblive hkey
  have hsize := h.size
  rw [h.entry] at halive hkey
  rw [h.entry] at hblive hkey
  by_cases haj : a = j
  · by_cases hbj : b = j
    · rw [haj, hbj]
    · rw [if_pos haj] at halive hkey
      rw [if_neg hbj] at hblive hkey
      exact absurd hkey.symm (hde halive b (by omega) hbj hblive)
  · rw [if_neg haj] at halive hkey
    by_cases hbj : b = j
    · rw [if_pos hbj] at hblive hkey
      exact absurd hkey (hde hblive a (by omega) haj halive)
    · rw [if_neg hbj] at hblive hkey
      exact hdist a b (by omega) (by omega) halive hblive hkey

theorem find_none (h : dp.find data name = none) {k : Nat} (hk : k < dp.size / 16) :
    dp.matches data name k = false := by
  have := List.find?_eq_none.mp h k (List.mem_range.mpr hk)
  simpa using this

theorem matches_key {name' : List UInt8} (h : nameKey name' = nameKey name) (k : Nat) :
    dp.matches data name' k = dp.matches data name k := by
  rw [Dinode.matches, Dinode.matches, h]

/-- After an insertion the new name is found, and the others as before. -/
theorem found_inserted {inum : Nat} (hdir : IsDirectory d (I dnum)) (h0 : 0 < inum)
    (habsent : (I dnum).find d.data name = none)
    (h : EntrySet d I dnum ((I dnum).room d.data) { inum := inum, name := strncpy name 14 } d' dp')
    (name' : List UInt8) :
    found d' dp' name' =
      if nameKey name' = nameKey name then .ok (some inum) else found d (I dnum) name' := by
  have hsize := h.size
  have hroom := room_spec d.data (I dnum)
  have hthis : dp'.matches d'.data name' ((I dnum).room d.data) = true ↔
      nameKey name' = nameKey name := by
    rw [matches_iff, h.entry, if_pos rfl, nameKey_strncpy]
    exact and_iff_right (Nat.ne_of_gt h0)
  rw [found_eq h.dir, found_eq hdir]
  split
  · rename_i hkey
    have hfind : dp'.find d'.data name' = some ((I dnum).room d.data) := by
      refine find_unique (by omega) (hthis.mpr hkey) fun k hk hmatch => ?_
      by_contra hne
      rw [h.matches_ne hne, matches_key hkey, find_none habsent (by omega)] at hmatch
      cases hmatch
    rw [hfind, Option.map_some, h.entry, if_pos rfl]
  · rename_i hkey
    rw [h.find_other (by omega) (Bool.eq_false_iff.mpr fun hc => hkey (hthis.mp hc))]
    intro hlt
    refine Bool.eq_false_iff.mpr fun hc => ?_
    rcases hroom with heq | ⟨-, hfree⟩
    · omega
    · exact (matches_iff.mp hc).1 hfree

/-- After a removal the name is not found, and the others as before. -/
theorem found_removed (hdir : IsDirectory d (I dnum)) (hdist : Distinct d.data (I dnum))
    (hfind : (I dnum).find d.data name = some j) (h : EntrySet d I dnum j noDirent d' dp')
    (name' : List UInt8) :
    found d' dp' name' =
      if nameKey name' = nameKey name then .ok none else found d (I dnum) name' := by
  obtain ⟨hj, hmatch⟩ := find_some hfind
  obtain ⟨hlive, hname⟩ := matches_iff.mp hmatch
  have hsize := h.size
  have hgone : dp'.matches d'.data name' j = false := by
    refine Bool.eq_false_iff.mpr fun hc => (matches_iff.mp hc).1 ?_
    rw [h.entry, if_pos rfl]
    rfl
  rw [found_eq h.dir, found_eq hdir]
  split
  · rename_i hkey
    have hnone : dp'.find d'.data name' = none := by
      refine List.find?_eq_none.mpr fun k hk hc => ?_
      have hk := List.mem_range.mp hk
      by_cases hkj : k = j
      · rw [hkj, hgone] at hc
        cases hc
      · rw [h.matches_ne hkj] at hc
        obtain ⟨hklive, hkname⟩ := matches_iff.mp hc
        exact hkj (hdist k j (by omega) hj hklive hlive (by rw [← hkname, ← hname, hkey]))
    rw [hnone]
    rfl
  · rename_i hkey
    rw [h.find_other (Nat.le_of_lt hj) hgone]
    intro _
    refine Bool.eq_false_iff.mpr fun hc => hkey ?_
    rw [(matches_iff.mp hc).2, hname]

end

/--
**A directory is a finite map.** If `dirlink` returns 0 the name was absent; afterwards it is found,
with the new inode number, under every name with the same first 14 characters, and all other names
are found as before. If the name is there, `dirlink` changes nothing. Where the names are distinct,
and `dirlink` keeps them so, zeros over the entry that `dirlookup` found make exactly that name
absent.
-/
theorem directory_is_finite_map (d : Disk) (I : Nat → Dinode) (dnum : Nat) (name : List UInt8)
    (inum : Nat) (h : Sound d I) (hd : dnum < d.sb.ninodes) (hdir : IsDirectory d (I dnum))
    (h0 : 0 < inum) (hinum : inum < 2 ^ 16) :
    (∀ dp' d', dirlink d dnum (I dnum) name inum = .ok (true, dp', d') →
      found d (I dnum) name = .ok none ∧
      (∀ name', found d' dp' name' =
        if nameKey name' = nameKey name then .ok (some inum) else found d (I dnum) name') ∧
      Sound d' (Function.update I dnum dp') ∧ IsDirectory d' dp' ∧
      (Distinct d.data (I dnum) → Distinct d'.data dp')) ∧
    (∀ n, found d (I dnum) name = .ok (some n) →
      dirlink d dnum (I dnum) name inum = .ok (false, I dnum, d)) ∧
    (Distinct d.data (I dnum) → ∀ n off r, dirlookup d (I dnum) name = .ok (some (n, off), r) →
      ∃ dp' d', writeDirent d dnum (I dnum) off noDirent = .ok (true, dp', d') ∧
        (∀ name', found d' dp' name' =
          if nameKey name' = nameKey name then .ok none else found d (I dnum) name') ∧
        Sound d' (Function.update I dnum dp') ∧ IsDirectory d' dp' ∧ Distinct d'.data dp') := by
  refine ⟨?_, ?_, ?_⟩
  · intro dp' d' hcall
    obtain ⟨habsent, hset⟩ := dirlink_true h hd hdir hinum hcall
    have hroom := room_spec d.data (I dnum)
    refine ⟨?_, found_inserted hdir h0 habsent hset, hset.sound, hset.dir, fun hdist => ?_⟩
    · rw [found_eq hdir, habsent]
      rfl
    · refine hset.distinct (by omega) hdist fun _ k hk _ hlive hkey => ?_
      have hno := find_none habsent hk
      rw [nameKey_strncpy] at hkey
      rw [matches_iff.mpr ⟨hlive, hkey.symm⟩] at hno
      cases hno
  · intro n hfound
    rw [found_eq hdir] at hfound
    cases hfind : (I dnum).find d.data name with
    | none =>
      rw [hfind] at hfound
      cases hfound
    | some j =>
      rw [dirlink, dirlookup_spec hdir, hfind]
      rfl
  · intro hdist n off r hlookup
    rw [dirlookup_spec hdir] at hlookup
    obtain ⟨hsome, -⟩ := Prod.mk.inj (Except.ok.inj hlookup)
    obtain ⟨j, hfind, hat⟩ := Option.map_eq_some_iff.mp hsome
    obtain ⟨-, rfl⟩ := Prod.mk.inj hat
    obtain ⟨hj, -⟩ := find_some hfind
    obtain ⟨ok, dp', d', hwrite, hset, hok⟩ :=
      writeDirent_spec noDirent h hd hdir (Nat.le_of_lt hj) rfl (by decide)
    have hok := hok hj
    subst hok
    refine ⟨dp', d', hwrite, found_removed hdir hdist hfind (hset rfl), (hset rfl).sound,
      (hset rfl).dir, ?_⟩
    exact (hset rfl).distinct (Nat.le_of_lt hj) hdist fun hne => absurd rfl hne

theorem small_isDirectory (block : Block) {n : Nat} (hn : 16 * n ≤ 1024) :
    IsDirectory (smallDisk block) (smallInodes tDir (16 * n) 1) :=
  ⟨rfl, small_whole block tDir hn 1, Nat.mul_mod_right 16 n⟩

/-- Entries `"a"` for inode 1, `"b"` for inode 2, and so on. -/
def letters : Block := fun k =>
  if k.val % 16 = 0 then .ofNat (k.val / 16 + 1)
  else if k.val % 16 = 2 then .ofNat (97 + k.val / 16) else 0

theorem letters_distinct : Distinct (smallDisk letters).data (smallInodes tDir 48 1) := by
  have hall : ∀ k j : Fin 3,
      ((smallInodes tDir 48 1).entry (smallDisk letters).data k).inum ≠ 0 →
      ((smallInodes tDir 48 1).entry (smallDisk letters).data j).inum ≠ 0 →
      nameKey ((smallInodes tDir 48 1).entry (smallDisk letters).data k).name =
        nameKey ((smallInodes tDir 48 1).entry (smallDisk letters).data j).name → k = j := by
    decide +kernel
  intro k j hk hj hklive hjlive hkey
  exact congrArg Fin.val (hall ⟨k, hk⟩ ⟨j, hj⟩ hklive hjlive hkey)

/-- In a directory of three: `"a"` is there and cannot be added, `"x"` can, and `"b"` is removed. -/
theorem directory_is_finite_map_letters :
    dirlink (smallDisk letters) 1 (smallInodes tDir 48 1) [97] 5 =
        .ok (false, smallInodes tDir 48 1, smallDisk letters) ∧
      (∃ dp' d', dirlink (smallDisk letters) 1 (smallInodes tDir 48 1) [120] 7 =
          .ok (true, dp', d') ∧
        found d' dp' [120] = .ok (some 7) ∧ found d' dp' [98] = .ok (some 2)) ∧
      ∃ dp' d', writeDirent (smallDisk letters) 1 (smallInodes tDir 48 1) 16 noDirent =
          .ok (true, dp', d') ∧
        found d' dp' [98] = .ok none ∧ found d' dp' [97] = .ok (some 1) ∧
        found d' dp' [99] = .ok (some 3) := by
  have hdir := small_isDirectory letters (n := 3) (by decide)
  have hfound : ∀ i : Fin 3, found (smallDisk letters) (smallInodes tDir 48 1) [.ofNat (97 + i)] =
      .ok (some (i + 1)) := by
    intro i
    rw [found_eq hdir]
    congr 1
    revert i
    decide +kernel
  have hmap := fun name inum => directory_is_finite_map (smallDisk letters) (smallInodes tDir 48) 1
    name inum (small_sound _ _ _) (by decide) hdir
  refine ⟨(hmap [97] 5 (by decide) (by decide)).2.1 1 (hfound 0), ?_, ?_⟩
  · have hlink : (dirlink (smallDisk letters) 1 (smallInodes tDir 48 1) [120] 7).toOption.map
        (·.1) = some true := by
      decide +kernel
    rcases hcall : dirlink (smallDisk letters) 1 (smallInodes tDir 48 1) [120] 7
      with _ | ⟨ok, dp', d'⟩
    · rw [hcall] at hlink
      cases hlink
    · rw [hcall] at hlink
      cases hlink
      obtain ⟨-, hthen, -⟩ := (hmap [120] 7 (by decide) (by decide)).1 dp' d' hcall
      exact ⟨dp', d', rfl, hthen [120], (hthen [98]).trans (hfound 1)⟩
  · have hlookup := dirlookup_spec hdir [98]
    have hfind : (smallInodes tDir 48 1).find (smallDisk letters).data [98] = some 1 := by
      decide +kernel
    rw [hfind] at hlookup
    obtain ⟨dp', d', hwrite, hthen, -⟩ :=
      (hmap [98] 5 (by decide) (by decide)).2.2 letters_distinct _ _ _ hlookup
    exact ⟨dp', d', hwrite, hthen [98], (hthen [97]).trans (hfound 0),
      (hthen [99]).trans (hfound 2)⟩

/-- Entries `"a"` for inode 1, one after the other. -/
def twins : Block := fun k => if k.val % 16 = 0 then 1 else if k.val % 16 = 2 then 97 else 0

/-- With two entries for one name, the second is found when the first is gone. -/
theorem removed_name_can_be_found :
    ¬ ∀ (d : Disk) (I : Nat → Dinode) (dnum : Nat) (name : List UInt8) (n off : Nat)
      (r : Dinode × Disk) (dp' : Dinode) (d' : Disk), Sound d I → dnum < d.sb.ninodes →
      IsDirectory d (I dnum) → dirlookup d (I dnum) name = .ok (some (n, off), r) →
      writeDirent d dnum (I dnum) off noDirent = .ok (true, dp', d') →
      found d' dp' name = .ok none := by
  intro hall
  have hsound := small_sound twins tDir 32
  have hdir := small_isDirectory twins (n := 2) (by decide)
  have hfind : (smallInodes tDir 32 1).find (smallDisk twins).data [97] = some 0 := by
    decide +kernel
  have hlookup := dirlookup_spec hdir [97]
  rw [hfind] at hlookup
  obtain ⟨ok, dp', d', hwrite, hset, hok⟩ := writeDirent_spec noDirent hsound
    (show 1 < (smallDisk twins).sb.ninodes by decide) hdir (Nat.zero_le _) rfl (by decide)
  have hok := hok (by decide)
  subst hok
  have hset := hset rfl
  have hnone := hall _ _ 1 [97] _ _ _ dp' d' hsound (by decide) hdir hlookup hwrite
  -- entry 1 is as it was
  have hsize : dp'.size = 32 := hset.size
  have hmatch : dp'.matches d'.data [97] 1 = true := by
    rw [hset.matches_ne (by decide)]
    decide +kernel
  rw [found_eq hset.dir] at hnone
  have hno := Option.map_eq_none_iff.mp (Except.ok.inj hnone)
  rw [find_none hno (by rw [hsize]; decide)] at hmatch
  cases hmatch

end Xv6Paging.Fs
