import Xv6Paging.Proof.CopyExact

/-!
# `copyinstr`

The bytes of a string are on pages that are mapped, or that `vmfault` brings in when the loop
gets there. `BytesFrom` says which bytes those are, page by page, and what the kernel is like
after the last page that was needed; it has nothing to do with where a string ends.
-/

namespace Xv6Paging.Proof

open Xv6Paging Lib

variable {f n va max : Nat} {k k' k₁ : Kernel} {l out : List UInt8} {ok : Bool}

/--
The bytes from `va` on are `bytes`: their pages are mapped or are brought in as they are reached,
each once. The second kernel is the one after the last of these pages.
-/
inductive BytesFrom : Kernel → Nat → List UInt8 → Kernel → Prop where
  | none {k : Kernel} {va : Nat} : BytesFrom k va [] k
  | page {k k₁ k₂ : Kernel} {va f n : Nat} {rest : List UInt8} :
      userFrame k (pgRoundDown va) = .ok (some f, k₁) → 0 < n → n ≤ 4096 - (va - pgRoundDown va) →
      (rest ≠ [] → n = 4096 - (va - pgRoundDown va)) →
      BytesFrom k₁ (pgRoundDown va + 4096) rest k₂ →
      BytesFrom k va ((k₁.kmem.ram f).read (va - pgRoundDown va) n ++ rest) k₂

/-- The bytes on mapped pages are those in memory at the time of the call. -/
theorem bytesFrom_mapped : ∀ (fuel : Nat) {k : Kernel} {va n : Nat}, n ≤ fuel → MappedIn k va n →
    BytesFrom k va (bytesIn k va n) k := by
  intro fuel
  induction fuel with
  | zero =>
    intro k va n hn _
    rw [show n = 0 by omega]
    exact .none
  | succ fuel ih =>
    intro k va n hn hmapped
    by_cases hzero : n = 0
    · rw [hzero]
      exact .none
    · obtain ⟨hv, hu⟩ := hmapped 0 (by omega)
      rw [Nat.add_zero] at hv hu
      generalize hm : min (4096 - (va - pgRoundDown va)) n = m
      obtain ⟨hnext, hle, hpos, hpage⟩ := round_end hm.symm
      have hsplit : bytesIn k va n = bytesIn k va m ++ bytesIn k (va + m) (n - m) := by
        rw [← bytesIn_add]
        congr 1
        omega
      rw [hsplit, ← read_eq_bytesIn hpage hv]
      by_cases hlast : m < n
      · refine .page (userFrame_mapped hv hu) (hpos (by omega)) (by omega) (fun _ => by omega) ?_
        rw [← hnext hlast]
        refine ih (by omega) fun i hi => ?_
        rw [Nat.add_assoc]
        exact hmapped (m + i) (by omega)
      · have hdone : n - m = 0 := by omega
        rw [hdone]
        exact .page (userFrame_mapped hv hu) (hpos (by omega)) (by omega)
          (fun h => absurd rfl h) .none

/-! ## Reading a page -/

theorem read_length (pg : Page) (ofs n : Nat) : (pg.read ofs n).length = n := by
  rw [Page.read, List.length_map, List.length_range]

theorem read_take_le (pg : Page) (ofs : Nat) {m : Nat} (h : m ≤ n) :
    pg.read ofs n = pg.read ofs m ++ pg.read (ofs + m) (n - m) := by
  unfold Page.read
  obtain ⟨d, rfl⟩ := Nat.exists_eq_add_of_le h
  rw [List.range_add, List.map_append, List.map_map, Nat.add_sub_cancel_left]
  congr 1
  refine List.map_congr_left fun i _ => ?_
  simp [Nat.add_assoc]

theorem takeWhile_string {str more : List UInt8} (h : ∀ b ∈ str, b ≠ 0) :
    (str ++ 0 :: more).takeWhile (· ≠ 0) = str := by
  rw [List.takeWhile_append_of_pos (by simpa using h)]
  simp

theorem takeWhile_all (h : ∀ b ∈ l, b ≠ 0) : l.takeWhile (· ≠ 0) = l :=
  List.takeWhile_eq_self_iff.mpr (by simpa using h)

/-- A chunk has a NUL in it exactly if the string it begins with is shorter. -/
theorem takeWhile_short (h : (l.takeWhile (· ≠ 0)).length < l.length) :
    ∃ more, l = l.takeWhile (· ≠ 0) ++ 0 :: more := by
  cases hd : l.dropWhile (· ≠ 0) with
  | nil =>
    have hall := List.takeWhile_append_dropWhile (p := fun b : UInt8 => decide (b ≠ 0)) (l := l)
    rw [hd, List.append_nil] at hall
    rw [hall] at h
    exact absurd h (Nat.lt_irrefl _)
  | cons b more =>
    have hsplit := List.takeWhile_append_dropWhile (p := fun b : UInt8 => decide (b ≠ 0)) (l := l)
    have hb : b = 0 := by
      have hne : l.dropWhile (fun b : UInt8 => decide (b ≠ 0)) ≠ [] := by
        rw [hd]
        exact List.cons_ne_nil b more
      have hhead := List.head_dropWhile_not (fun b : UInt8 => decide (b ≠ 0)) hne
      simp only [hd, List.head_cons] at hhead
      simpa using hhead
    rw [hd, hb] at hsplit
    exact ⟨more, hsplit.symm⟩

theorem takeWhile_nonzero : ∀ b ∈ l.takeWhile (· ≠ 0), b ≠ 0 := by
  intro b hb
  simpa using List.mem_takeWhile_imp hb

theorem BytesFrom.nil (h : BytesFrom k va [] k') : k' = k := by
  generalize hl : ([] : List UInt8) = l at h
  cases h with
  | none => rfl
  | page _ hpos _ _ _ =>
    have := congrArg List.length hl
    rw [List.length_append, read_length, List.length_nil] at this
    omega

/-! ## What a call does -/

/--
What `copyinstr` makes of the bytes at `va`: a string that ends in time, `max` bytes without
a NUL, or fewer than that up to a page that is neither mapped nor brought in.
-/
inductive CopiesString (k : Kernel) (va max : Nat) : Bool → List UInt8 → Kernel → Prop where
  | string {str : List UInt8} {k' : Kernel} :
      (∀ b ∈ str, b ≠ 0) → str.length < max → BytesFrom k va (str ++ [0]) k' →
      CopiesString k va max true (str ++ [0]) k'
  | full {out : List UInt8} {k' : Kernel} :
      (∀ b ∈ out, b ≠ 0) → out.length = max → BytesFrom k va out k' →
      CopiesString k va max false out k'
  | missing {out : List UInt8} {k₁ k' : Kernel} :
      (∀ b ∈ out, b ≠ 0) → out.length < max → (out = [] ∨ (va + out.length) % 4096 = 0) →
      BytesFrom k va out k₁ → userFrame k₁ (pgRoundDown (va + out.length)) = .ok (none, k') →
      CopiesString k va max false out k'

theorem CopiesString.length_le (h : CopiesString k va max ok out k') : out.length ≤ max := by
  cases h with
  | string _ hlen _ =>
    rw [List.length_append, List.length_singleton]
    exact hlen
  | full _ hlen _ => exact Nat.le_of_eq hlen
  | missing _ hlen _ _ _ => exact Nat.le_of_lt hlen

/-- A chunk without a NUL goes in front of what the rest of the loop does. -/
theorem CopiesString.prepend (hf : userFrame k (pgRoundDown va) = .ok (some f, k₁)) (hmax : 0 < max)
    (hn : n = min (4096 - (va - pgRoundDown va)) max)
    (hchunk : ∀ b ∈ (k₁.kmem.ram f).read (va - pgRoundDown va) n, b ≠ 0)
    (h : CopiesString k₁ (pgRoundDown va + 4096) (max - n) ok out k') :
    CopiesString k va max ok ((k₁.kmem.ram f).read (va - pgRoundDown va) n ++ out) k' := by
  obtain ⟨hnext, hle, hpos, -⟩ := round_end hn
  have hcap : n ≤ 4096 - (va - pgRoundDown va) := by omega
  have hlen := read_length (k₁.kmem.ram f) (va - pgRoundDown va) n
  -- the chunk is cut short by `max` only if nothing comes after it
  have hwhole : ∀ rest : List UInt8, rest.length ≤ max - n → rest ≠ [] →
      n = 4096 - (va - pgRoundDown va) := by
    intro rest hrest hne
    have := List.length_pos_iff.mpr hne
    omega
  cases h with
  | string hnz hlt hb =>
    rename_i str
    rw [← List.append_assoc]
    refine .string ?_ (by rw [List.length_append, hlen]; omega) ?_
    · intro b hb
      exact (List.mem_append.mp hb).elim (hchunk b) (hnz b)
    · rw [List.append_assoc]
      refine .page hf (hpos hmax) hcap (hwhole _ ?_) hb
      rw [List.length_append, List.length_singleton]
      omega
  | full hnz hlt hb =>
    refine .full ?_ (by rw [List.length_append, hlen]; omega)
      (.page hf (hpos hmax) hcap (hwhole _ (by omega)) hb)
    intro b hb
    exact (List.mem_append.mp hb).elim (hchunk b) (hnz b)
  | missing hnz hlt hend hb hnone =>
    have hva := hnext (by omega)
    have hround := pgRoundDown_mod va
    refine .missing ?_ (by rw [List.length_append, hlen]; omega) (.inr ?_)
      (.page hf (hpos hmax) hcap (hwhole _ (by omega)) hb) ?_
    · intro b hb
      exact (List.mem_append.mp hb).elim (hchunk b) (hnz b)
    · rw [List.length_append, hlen, ← Nat.add_assoc, hva]
      rcases hend with rfl | hend
      · rw [List.length_nil]
        omega
      · exact hend
    · rw [List.length_append, hlen, ← Nat.add_assoc, hva]
      exact hnone

/-- Every address space, address and bound fall under one of the three cases. -/
theorem copiesString_exists : ∀ (fuel : Nat) (k : Kernel) (va max : Nat), max ≤ fuel →
    ∃ ok out k', CopiesString k va max ok out k' := by
  intro fuel
  induction fuel with
  | zero =>
    intro k va max hmax
    exact ⟨false, [], k, .full (by simp) (by simp; omega) .none⟩
  | succ fuel ih =>
    intro k va max hmax
    by_cases hzero : max = 0
    · exact ⟨false, [], k, .full (by simp) (by simp [hzero]) .none⟩
    obtain ⟨r, k₁, hf, -⟩ := userFrame_returns k va
    cases r with
    | none => exact ⟨false, [], k₁, .missing (by simp) (by simp; omega) (.inl rfl) .none hf⟩
    | some f =>
      generalize hn : min (4096 - (va - pgRoundDown va)) max = n
      obtain ⟨-, hle, hpos, -⟩ := round_end hn.symm
      have hlen := read_length (k₁.kmem.ram f) (va - pgRoundDown va) n
      generalize hstr : ((k₁.kmem.ram f).read (va - pgRoundDown va) n).takeWhile (· ≠ 0) = str
      have hnz : ∀ b ∈ str, b ≠ 0 := by
        rw [← hstr]
        exact takeWhile_nonzero
      have hshort := (List.takeWhile_prefix (l := (k₁.kmem.ram f).read (va - pgRoundDown va) n)
        (fun b : UInt8 => decide (b ≠ 0))).length_le
      rw [hstr, hlen] at hshort
      by_cases hnul : str.length < n
      · -- the string ends on this page
        obtain ⟨more, hmore⟩ := takeWhile_short (by rw [hstr, hlen]; exact hnul)
        rw [hstr, read_take_le _ _ (Nat.succ_le_of_lt hnul)] at hmore
        have hread : (k₁.kmem.ram f).read (va - pgRoundDown va) (str.length + 1) = str ++ [0] := by
          refine (List.append_inj (hmore.trans (List.append_cons str 0 more)) ?_).1
          rw [read_length, List.length_append, List.length_singleton]
        refine ⟨true, str ++ [0], k₁, .string hnz (by omega) ?_⟩
        rw [← hread, ← List.append_nil (Page.read _ _ _)]
        exact .page hf (Nat.succ_pos _) (by omega) (fun h => absurd rfl h) .none
      · obtain ⟨ok, out, k', hrest⟩ := ih k₁ (pgRoundDown va + 4096) (max - n)
          (by have := hpos (by omega); omega)
        refine ⟨ok, _, k', CopiesString.prepend hf (by omega) hn.symm ?_ hrest⟩
        have hall : str = (k₁.kmem.ram f).read (va - pgRoundDown va) n := by
          rw [← hstr]
          refine (List.takeWhile_prefix _).eq_of_length ?_
          rw [hstr, hlen]
          omega
        rw [← hall]
        exact hnz

theorem copyinstrLoop_none (fuel : Nat) (dst : List UInt8) (hmax : 0 < max)
    (hf : userFrame k (pgRoundDown va) = .ok (none, k')) :
    copyinstrLoop (fuel + 1) k va max dst = .ok (false, dst, k') := by
  simp only [copyinstrLoop, if_neg (Nat.ne_of_gt hmax), hf]
  rfl

theorem copyinstrLoop_some (fuel : Nat) (dst : List UInt8) (hmax : 0 < max)
    (hf : userFrame k (pgRoundDown va) = .ok (some f, k₁))
    (hn : n = min (4096 - (va - pgRoundDown va)) max) :
    copyinstrLoop (fuel + 1) k va max dst =
      if (((k₁.kmem.ram f).read (va - pgRoundDown va) n).takeWhile (· ≠ 0)).length < n then
        .ok (true, dst ++ ((k₁.kmem.ram f).read (va - pgRoundDown va) n).takeWhile (· ≠ 0) ++ [0],
          k₁)
      else
        copyinstrLoop fuel k₁ (pgRoundDown va + 4096) (max - n)
          (dst ++ (k₁.kmem.ram f).read (va - pgRoundDown va) n) := by
  subst hn
  simp only [copyinstrLoop, if_neg (Nat.ne_of_gt hmax), hf]
  rfl

/-- A round over a chunk without a NUL. -/
theorem copyinstrLoop_chunk (fuel : Nat) (dst : List UInt8) (hmax : 0 < max)
    (hf : userFrame k (pgRoundDown va) = .ok (some f, k₁))
    (hn : n = min (4096 - (va - pgRoundDown va)) max)
    (hchunk : ∀ b ∈ (k₁.kmem.ram f).read (va - pgRoundDown va) n, b ≠ 0) :
    copyinstrLoop (fuel + 1) k va max dst =
      copyinstrLoop fuel k₁ (pgRoundDown va + 4096) (max - n)
        (dst ++ (k₁.kmem.ram f).read (va - pgRoundDown va) n) := by
  rw [copyinstrLoop_some fuel dst hmax hf hn, takeWhile_all hchunk, if_neg]
  rw [read_length]
  exact Nat.lt_irrefl n

/-- The loop does what the bytes it finds say. -/
theorem copyinstrLoop_copies : ∀ (fuel : Nat) {k k' : Kernel} {va max : Nat} {ok : Bool}
    {out : List UInt8} (dst : List UInt8), max ≤ fuel → CopiesString k va max ok out k' →
    copyinstrLoop fuel k va max dst = .ok (ok, dst ++ out, k') := by
  intro fuel
  induction fuel with
  | zero =>
    intro k k' va max ok out dst hmax h
    cases h with
    | string _ hlen _ => omega
    | full _ hlen hb =>
      have hnil : out = [] := List.eq_nil_of_length_eq_zero (by omega)
      subst hnil
      rw [hb.nil, copyinstrLoop, List.append_nil]
    | missing _ hlen _ _ _ => omega
  | succ fuel ih =>
    intro k k' va max ok out dst hmax h
    cases h with
    | string hnz hlen hb =>
      rename_i str
      generalize hl : str ++ [0] = l at hb ⊢
      cases hb with
      | none => simp at hl
      | page hf hpos hcap hwhole hrest =>
        rename_i k₁ f n rest
        have hll := congrArg List.length hl
        rw [List.length_append, List.length_append, read_length, List.length_singleton] at hll
        rcases List.eq_nil_or_concat' rest with rfl | ⟨rest', z, rfl⟩
        · -- the NUL is on this page; the chunk may go on after it
          rw [List.append_nil] at hl ⊢
          rw [hrest.nil]
          generalize hm : min (4096 - (va - pgRoundDown va)) max = m
          rw [List.length_nil] at hll
          have hchunk : (k₁.kmem.ram f).read (va - pgRoundDown va) m =
              str ++ 0 :: (k₁.kmem.ram f).read (va - pgRoundDown va + n) (m - n) := by
            rw [read_take_le _ _ (show n ≤ m by omega), ← hl, List.append_assoc]
            rfl
          rw [copyinstrLoop_some fuel dst (by omega) hf hm.symm, hchunk, takeWhile_string hnz,
            if_pos (by omega), ← hl]
          simp
        · rw [← List.append_assoc] at hl
          obtain ⟨hstr, hz⟩ := List.append_inj' hl rfl
          have hfull := hwhole (by simp)
          rw [List.length_append, List.length_singleton] at hll
          rw [hstr] at hnz
          have hrest' :
              CopiesString k₁ (pgRoundDown va + 4096) (max - n) true (rest' ++ [0]) k' := by
            refine .string (fun b hb => hnz b (List.mem_append_right _ hb)) (by omega) ?_
            rw [hz]
            exact hrest
          rw [copyinstrLoop_chunk fuel dst (by omega) hf (by omega)
            (fun b hb => hnz b (List.mem_append_left _ hb)), ih _ (by omega) hrest', ← hz]
          simp
    | full hnz hlen hb =>
      cases hb with
      | none => rw [← hlen, copyinstrLoop, if_pos List.length_nil, List.append_nil]
      | page hf hpos hcap hwhole hrest =>
        rename_i k₁ f n rest
        rw [List.length_append, read_length] at hlen
        have hm : n = min (4096 - (va - pgRoundDown va)) max := by
          by_cases hr : rest = []
          · rw [hr, List.length_nil] at hlen
            omega
          · have := hwhole hr
            omega
        rw [copyinstrLoop_chunk fuel dst (by omega) hf hm
          (fun b hb => hnz b (List.mem_append_left _ hb)),
          ih _ (by omega) (.full (fun b hb => hnz b (List.mem_append_right _ hb)) (by omega) hrest),
          List.append_assoc]
    | missing hnz hlen hend hb hnone =>
      cases hb with
      | none =>
        rw [List.length_nil] at hlen
        rw [copyinstrLoop_none fuel dst hlen (by simpa using hnone), List.append_nil]
      | page hf hpos hcap hwhole hrest =>
        rename_i k₂ k₁ f n rest
        rw [List.length_append, read_length] at hlen hend hnone
        have hfull : n = 4096 - (va - pgRoundDown va) := by
          by_cases hr : rest = []
          · rcases hend with hnil | hend
            · have := congrArg List.length hnil
              rw [List.length_append, read_length, List.length_nil] at this
              omega
            · rw [hr, List.length_nil] at hend
              unfold pgRoundDown at hcap ⊢
              omega
          · exact hwhole hr
        have hva : va + n = pgRoundDown va + 4096 := by
          have := pgRoundDown_le va
          omega
        have hend' : rest = [] ∨ (pgRoundDown va + 4096 + rest.length) % 4096 = 0 := by
          rcases hend with hnil | hend
          · exact .inl (List.append_eq_nil_iff.mp hnil).2
          · right
            rw [← hva, Nat.add_assoc]
            exact hend
        rw [← Nat.add_assoc, hva] at hnone
        rw [copyinstrLoop_chunk fuel dst (by omega) hf (by omega)
          (fun b hb => hnz b (List.mem_append_left _ hb)),
          ih _ (by omega) (.missing (fun b hb => hnz b (List.mem_append_right _ hb))
            (by omega) hend' hrest hnone), List.append_assoc]

theorem copyinstr_eq {srcva : Nat} (h : CopiesString k srcva max ok out k') :
    copyinstr k srcva max = .ok (ok, out, k') :=
  copyinstrLoop_copies max [] (Nat.le_refl max) h

/-- What a call returns is what the bytes it finds say, and nothing else. -/
theorem copyinstr_iff {srcva : Nat} :
    copyinstr k srcva max = .ok (ok, out, k') ↔ CopiesString k srcva max ok out k' := by
  refine ⟨fun h => ?_, copyinstr_eq⟩
  obtain ⟨ok₁, out₁, k₁, hc⟩ := copiesString_exists max k srcva max (Nat.le_refl max)
  rw [copyinstr_eq hc] at h
  obtain ⟨hok, hrest⟩ := Prod.mk.inj (Except.ok.inj h)
  obtain ⟨hout, hk⟩ := Prod.mk.inj hrest
  rw [← hok, ← hout, ← hk]
  exact hc

/--
The string at `srcva` is `str`: the first NUL is right after it, and each page up to that NUL is
mapped or is brought in when it is reached.
-/
def StringAt (k : Kernel) (srcva : Nat) (str : List UInt8) (k' : Kernel) : Prop :=
  (∀ b ∈ str, b ≠ 0) ∧ BytesFrom k srcva (str ++ [0]) k'

end Xv6Paging.Proof
