import Xv6Paging.Kernel.Pipe
import Xv6Paging.Lib.Machine
import Xv6Paging.Lib.Ring

/-!
# Pipes lose nothing

The bytes that writers got rid of are those that readers got, followed by what is
in the buffer. Only two steps touch the counters. `put` happens when the buffer is
not full, so the cell it writes holds no byte that is still to be read; `take`
happens after the byte has been copied out. That the counters wrap around does not
matter, because `PIPESIZE` divides `2 ^ 32`.
-/

namespace Xv6Paging

open Lib

/-- How many bytes there are to read. -/
def Pipe.count (pi : Pipe) : Nat := ringCount (2 ^ 32) pi.nread pi.nwrite

/-- The bytes that are still to be read. -/
def Pipe.unread (pi : Pipe) : List UInt8 := ringItems pi.data pi.nread pi.count

end Xv6Paging

namespace Xv6Paging.Proof

open Xv6Paging Lib

/-- The counters are in range and no further apart than the buffer is long. -/
structure PipeOk (pi : Pipe) : Prop where
  nread : pi.nread < 2 ^ 32
  nwrite : pi.nwrite < 2 ^ 32
  fits : pi.count ≤ 512

theorem pipeSize_dvd : pipeSize ∣ 2 ^ 32 := by decide

section

variable {pi : Pipe} (h : PipeOk pi)

include h

/-- The write counter is as far ahead as there are bytes. -/
theorem PipeOk.nwrite_eq : pi.nwrite = (pi.nread + pi.count) % 2 ^ 32 := by
  have hfits := h.fits
  exact (ringCount_eq h.nread h.nwrite _ (by omega)).mp rfl

theorem PipeOk.not_full (hfull : pi.full = false) : pi.count < 512 := by
  have hw := h.nwrite_eq
  have hne : pi.nwrite ≠ toUint (pi.nread + pipeSize) := by simpa [Pipe.full] using hfull
  have hfits := h.fits
  rcases Nat.lt_or_ge pi.count 512 with hlt | hge
  · exact hlt
  · have hc : pi.count = 512 := by omega
    rw [hc] at hw
    exact absurd hw hne

theorem PipeOk.not_empty (hempty : pi.empty = false) : 0 < pi.count := by
  have hne : pi.nread ≠ pi.nwrite := by simpa [Pipe.empty] using hempty
  refine Nat.pos_of_ne_zero fun hzero => ?_
  exact hne ((ringCount_zero h.nread h.nwrite).mp hzero)

/-- A byte that is put in is the last to be read. -/
theorem PipeOk.put (hfull : pi.full = false) (ch : UInt8) :
    PipeOk (pi.put ch) ∧ (pi.put ch).unread = pi.unread ++ [ch] := by
  have hlt := h.not_full hfull
  have hw := h.nwrite_eq
  have hbound : (pi.put ch).nwrite < 2 ^ 32 := Nat.mod_lt _ (by decide)
  have hcount : (pi.put ch).count = pi.count + 1 := by
    refine (ringCount_eq (w := (pi.put ch).nwrite) h.nread hbound (pi.count + 1) (by omega)).mpr ?_
    change toUint (pi.nwrite + 1) = _
    rw [hw]
    unfold toUint
    rw [Nat.mod_add_mod, Nat.add_assoc]
  refine ⟨⟨h.nread, hbound, by omega⟩, ?_⟩
  have hcell : Fin.ofNat pipeSize pi.nwrite = Fin.ofNat pipeSize (pi.nread + pi.count) :=
    ofNat_eq pipeSize_dvd (by rw [hw, Nat.mod_mod])
  unfold Pipe.unread
  rw [hcount]
  change ringItems (Function.update pi.data (Fin.ofNat pipeSize pi.nwrite) ch) pi.nread _ = _
  rw [hcell]
  exact ringItems_push pi.data pi.nread ch hlt

/-- The byte that is taken out is the first. -/
theorem PipeOk.take (hempty : pi.empty = false) :
    PipeOk pi.take ∧ pi.unread = pi.next :: pi.take.unread := by
  have hpos := h.not_empty hempty
  have hfits := h.fits
  have hbound : pi.take.nread < 2 ^ 32 := Nat.mod_lt _ (by decide)
  have hcount : pi.take.count = pi.count - 1 := by
    refine (ringCount_eq hbound h.nwrite (pi.count - 1) (by omega)).mpr ?_
    rw [h.nwrite_eq]
    change _ = (toUint (pi.nread + 1) + (pi.count - 1)) % 2 ^ 32
    unfold toUint
    rw [Nat.mod_add_mod]
    congr 1
    omega
  refine ⟨⟨hbound, h.nwrite, by omega⟩, ?_⟩
  unfold Pipe.unread
  rw [hcount]
  obtain ⟨c, hc⟩ : ∃ c, pi.count = c + 1 := ⟨pi.count - 1, by omega⟩
  rw [hc, ringItems_succ, Nat.add_sub_cancel]
  change _ = pi.next :: ringItems pi.data (toUint (pi.nread + 1)) c
  unfold toUint
  rw [ringItems_mod pipeSize_dvd]
  rfl

end

/-- What went in is what came out and what is still to be read. -/
structure Lossless {P : Type} (s : PipeSys P) : Prop where
  ok : PipeOk s.pipe
  stream : s.accepted = s.delivered ++ s.pipe.unread

/-- Only the pipe and the two streams matter. -/
theorem Lossless.of_eq {P : Type} {s s' : PipeSys P} (h : Lossless s) (hp : s'.pipe = s.pipe)
    (ha : s'.accepted = s.accepted) (hd : s'.delivered = s.delivered) : Lossless s' :=
  ⟨hp ▸ h.ok, by rw [ha, hd, hp]; exact h.stream⟩

section

variable {P : Type} [DecidableEq P] {s s' : PipeSys P}

theorem Lossless.enter (h : Lossless s) {p : P} {c : PipeCall} (hs : s.enter p c = some s') :
    Lossless s' := by
  unfold PipeSys.enter at hs
  split at hs
  · cases hs
    exact h.of_eq rfl rfl rfl
  · simp at hs

theorem Lossless.leave (h : Lossless s) (p : P) (c : PipeCall) : Lossless (s.leave p c) :=
  h.of_eq rfl rfl rfl

theorem Lossless.writeRound (h : Lossless s) (p : P) (i : Nat) (n : Int) (killed : Bool)
    (ch : Option UInt8) : Lossless (s.writeRound p i n killed ch) := by
  unfold PipeSys.writeRound
  split
  · split
    · exact h.leave p _
    · split
      · exact h.leave p _
      · rename_i hfull
        cases ch with
        | none => exact h.leave p _
        | some ch =>
          obtain ⟨hok, hunread⟩ := h.ok.put (by simpa using hfull) ch
          refine ⟨hok, ?_⟩
          change s.accepted ++ [ch] = s.delivered ++ (s.pipe.put ch).unread
          rw [hunread, h.stream, List.append_assoc]
  · exact h.leave p _

theorem Lossless.readRound (h : Lossless s) (p : P) (n : Int) (killed : Bool) :
    Lossless (s.readRound p n killed) := by
  unfold PipeSys.readRound
  split
  · split <;> exact h.leave p _
  · exact h.of_eq rfl rfl rfl

theorem Lossless.copyRound (h : Lossless s) (p : P) (i : Nat) (n : Int) (ok : Bool) :
    Lossless (s.copyRound p i n ok) := by
  unfold PipeSys.copyRound
  split
  · split
    · exact h.leave p _
    · rename_i hempty
      split
      · exact h.leave p _
      · obtain ⟨hok, hunread⟩ := h.ok.take (by simpa using hempty)
        refine ⟨hok, ?_⟩
        change s.accepted = s.delivered ++ [s.pipe.next] ++ s.pipe.take.unread
        rw [h.stream, hunread, List.append_assoc, List.singleton_append]
  · exact h.leave p _

/-- **A step loses nothing.** -/
theorem Lossless.step (h : Lossless s) {a : PipeAct P} (hs : s.step a = some s') : Lossless s' := by
  cases a with
  | pipewrite p n | piperead p n =>
    simp only [PipeSys.step] at hs
    split at hs
    · exact h.enter hs
    · simp at hs
  | writeRound p killed ch =>
    simp only [PipeSys.step] at hs
    split at hs
    · split at hs
      · cases hs
        exact h.writeRound ..
      · simp at hs
    · simp at hs
  | readRound p killed =>
    simp only [PipeSys.step] at hs
    split at hs
    · split at hs
      · cases hs
        exact h.readRound ..
      · simp at hs
    · simp at hs
  | copyRound p ok =>
    simp only [PipeSys.step] at hs
    split at hs
    · split at hs
      · cases hs
        exact h.copyRound ..
      · simp at hs
    · simp at hs
  | writeWake p | readWake p =>
    simp only [PipeSys.step] at hs
    split at hs
    · exact h.enter hs
    · simp at hs
  | pipeclose writable =>
    simp only [PipeSys.step] at hs
    split at hs
    · cases hs
      cases writable with
      | true => exact ⟨⟨h.ok.nread, h.ok.nwrite, h.ok.fits⟩, h.stream⟩
      | false => exact ⟨⟨h.ok.nread, h.ok.nwrite, h.ok.fits⟩, h.stream⟩
    · simp at hs

end

/-- The states of a pipe from `pipealloc` on. -/
def PipeRun {P : Type} [DecidableEq P] : PipeSys P → Prop :=
  Reach PipeSys.step (fun s => ∃ data, s = ⟨.alloc data, none, fun _ => .idle, [], []⟩)
    fun _ _ => True

theorem pipeRun_lossless {P : Type} [DecidableEq P] {s : PipeSys P} (h : PipeRun s) :
    Lossless s := by
  refine Reach.keeps ?_ (fun s a s' hl _ hs => hl.step hs) h
  rintro _ ⟨data, rfl⟩
  have hzero : 0 < 2 ^ 32 := by decide
  have hcount : (Pipe.alloc data).count = 0 := (ringCount_zero hzero hzero).mpr rfl
  refine ⟨⟨hzero, hzero, ?_⟩, ?_⟩
  · change (Pipe.alloc data).count ≤ 512
    rw [hcount]
    exact Nat.zero_le _
  · change [] = [] ++ (Pipe.alloc data).unread
    rw [Pipe.unread, hcount]
    rfl

/--
**A pipe is a lossless stream.** Whatever the interleaving of its readers and
writers, what has been read is a prefix of what has been written, the counters are
at most `PIPESIZE` apart modulo `2 ^ 32`, and the bytes written but not read are
all in the buffer.
-/
theorem pipe_lossless_fifo {P : Type} [DecidableEq P] {s : PipeSys P} (h : PipeRun s) :
    s.delivered <+: s.accepted ∧ (s.pipe.nwrite + 2 ^ 32 - s.pipe.nread) % 2 ^ 32 ≤ pipeSize ∧
      s.accepted.drop s.delivered.length = s.pipe.unread := by
  have hl := pipeRun_lossless h
  refine ⟨⟨s.pipe.unread, hl.stream.symm⟩, hl.ok.fits, ?_⟩
  rw [hl.stream, List.drop_left]

/-- A process writes two bytes while another one waits for them. -/
def pipeRun : List (PipeAct Bool) :=
  [.piperead true 5, .readRound true false, .pipewrite false 2, .writeRound false false (some 7),
    .writeRound false false (some 8), .writeRound false false none, .readWake true,
    .readRound true false, .copyRound true true]

theorem pipe_lossless_fifo_one_read : ∃ s : PipeSys Bool, PipeRun s ∧ s.accepted = [7, 8] ∧
    s.delivered = [7] ∧ s.delivered <+: s.accepted ∧ s.accepted.drop 1 = s.pipe.unread := by
  have hrun : (replay PipeSys.step (fun _ _ => true)
      ⟨.alloc fun _ => 0, none, fun _ => .idle, [], []⟩ pipeRun).map
        (fun s => (s.accepted, s.delivered)) = some ([7, 8], [7]) := by
    decide +kernel
  obtain ⟨s, hs, hfacts⟩ := Option.map_eq_some_iff.mp hrun
  simp only [Prod.mk.injEq] at hfacts
  have hreach : PipeRun s := replay_reach (fun _ _ _ => trivial) (.init ⟨_, rfl⟩) hs
  obtain ⟨hdelivered, _, hdrop⟩ := pipe_lossless_fifo hreach
  rw [hfacts.2] at hdrop
  exact ⟨s, hreach, hfacts.1, hfacts.2, hdelivered, hdrop⟩

end Xv6Paging.Proof
