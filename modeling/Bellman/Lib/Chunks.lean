/-
Bellman/Lib/Chunks.lean

Reading a stream that comes in chunks.

What has come is in a buffer.  A reader takes from the buffer, and waits for
the next chunk when the buffer is used up:

      buffer        chunk       chunk  chunk
    |---------|--------------|-------|--------|  end

Reading up to a separator, but not more than a limit, takes the same from the
stream however it is cut into chunks (`readUntil_fst`), and leaves the rest of
it (`rest_readUntil`).  A stream of records, each ended by a separator, is
read so; `records` are those that come before one that is too long.
-/
import Mathlib.Data.List.Basic

namespace ProgramLogic

namespace Chunks

/-- What one read gives: something, for a read that gives nothing says that
the stream has ended. -/
abbrev Chunk (α : Type) : Type := { c : List α // c ≠ [] }

/-- A stream: what is in the buffer, and what the reads to come will give. -/
structure Source (α : Type) where
  buf : List α := []
  chunks : List (Chunk α) := []

variable {α : Type}

/-- The chunks, put together. -/
def flat (chunks : List (Chunk α)) : List α := chunks.flatMap Subtype.val

/-- The stream. -/
def Source.rest (src : Source α) : List α := src.buf ++ flat src.chunks

variable [DecidableEq α] (sep : α)

/-- Up to the first separator, and with it. -/
def upTo (l : List α) : List α := l.take (l.idxOf sep + 1)

/-- Read up to a separator, and at most `limit`: as far as the buffer goes,
and then on with the next chunk. -/
def readUntil : (limit : Nat) → (buf : List α) → (chunks : List (Chunk α)) → List α × Source α
  | limit, buf, chunks =>
    if sep ∈ buf.take limit then
      (buf.take (buf.idxOf sep + 1), ⟨buf.drop (buf.idxOf sep + 1), chunks⟩)
    else if buf.length < limit then
      match chunks with
      | [] => (buf, ⟨[], []⟩)
      | c :: cs =>
        let (got, src) := readUntil (limit - buf.length) c.val cs
        (buf ++ got, src)
    else (buf.take limit, ⟨buf.drop limit, chunks⟩)

/-- The records of a stream, each ended by a separator, up to one that is
longer than `cap`. -/
def records (cap : Nat) (stream : List α) : List (List α) :=
  (stream.splitOn sep).dropLast.takeWhile fun r => r.length ≤ cap

variable {sep} {l l' buf r t : List α} {limit cap : Nat} {chunks : List (Chunk α)}

/-! ### Up to a separator -/

theorem upTo_of_not_mem (h : sep ∉ l) : upTo sep l = l := by
  unfold upTo
  rw [List.idxOf_eq_length h]
  exact List.take_of_length_le (Nat.le_succ _)

theorem upTo_append_of_mem (h : sep ∈ l) (l' : List α) : upTo sep (l ++ l') = upTo sep l := by
  unfold upTo
  rw [List.idxOf_append_of_mem h]
  exact List.take_append_of_le_length (List.idxOf_lt_length_of_mem h)

theorem upTo_append_of_not_mem (h : sep ∉ l) (l' : List α) :
    upTo sep (l ++ l') = l ++ upTo sep l' := by
  unfold upTo
  rw [List.idxOf_append_of_notMem h, Nat.add_assoc, List.take_length_add_append]

theorem upTo_cons (l : List α) : upTo sep (sep :: l) = [sep] := by
  unfold upTo
  rw [List.idxOf_cons_self]
  rfl

/-- The first separator is where it is in what is taken. -/
theorem idxOf_take (h : sep ∈ l.take limit) : (l.take limit).idxOf sep = l.idxOf sep := by
  conv_rhs => rw [← List.take_append_drop limit l]
  rw [List.idxOf_append_of_mem h]

theorem take_idxOf (h : sep ∈ l.take limit) :
    l.take (l.idxOf sep + 1) = upTo sep (l.take limit) := by
  have hlt := List.idxOf_lt_length_of_mem h
  rw [idxOf_take h, List.length_take] at hlt
  unfold upTo
  rw [idxOf_take h, List.take_take, Nat.min_eq_left (by omega)]

/-! ### Reading -/

/-- **What is read does not depend on the chunks.** -/
theorem readUntil_fst : (readUntil sep limit buf chunks).1 =
    upTo sep ((buf ++ flat chunks).take limit) := by
  induction chunks generalizing limit buf with
  | nil =>
    unfold readUntil
    rw [show flat ([] : List (Chunk α)) = [] from rfl, List.append_nil]
    split
    · next h => exact take_idxOf h
    · next h =>
      rw [upTo_of_not_mem h]
      split
      · next hlt => exact (List.take_of_length_le (Nat.le_of_lt hlt)).symm
      · rfl
  | cons c cs ih =>
    unfold readUntil
    rw [List.take_append]
    split
    · next h =>
      rw [upTo_append_of_mem h]
      exact take_idxOf h
    · next h =>
      rw [upTo_append_of_not_mem h]
      split
      · next hlt =>
        rw [List.take_of_length_le (Nat.le_of_lt hlt)]
        exact congrArg (buf ++ ·) ih
      · next hle =>
        rw [Nat.sub_eq_zero_of_le (Nat.not_lt.mp hle), List.take_zero]
        exact (congrArg (buf.take limit ++ ·) (upTo_of_not_mem List.not_mem_nil)).symm ▸
          (List.append_nil _).symm

/-- Dropping what was taken. -/
theorem drop_append_eq {α : Type} (n : Nat) (l l' : List α) :
    l.drop n ++ l' = (l ++ l').drop (l.take n).length := by
  rw [List.length_take, List.drop_append_of_le_length (Nat.min_le_right _ _)]
  rcases Nat.le_total n l.length with hn | hn
  · rw [Nat.min_eq_left hn]
  · rw [Nat.min_eq_right hn, List.drop_of_length_le hn, List.drop_length]

/-- **The rest is left.** -/
theorem rest_readUntil : (readUntil sep limit buf chunks).2.rest =
    (buf ++ flat chunks).drop (readUntil sep limit buf chunks).1.length := by
  induction chunks generalizing limit buf with
  | nil =>
    unfold readUntil
    split
    · exact drop_append_eq _ _ _
    · split
      · show [] = _
        rw [show flat ([] : List (Chunk α)) = [] from rfl, List.append_nil, List.drop_length]
      · exact drop_append_eq _ _ _
  | cons c cs ih =>
    unfold readUntil
    split
    · exact drop_append_eq _ _ _
    · split
      · show (readUntil sep (limit - buf.length) c.val cs).2.rest = (buf ++ (c.val ++ flat cs)).drop
          (buf ++ (readUntil sep (limit - buf.length) c.val cs).1).length
        rw [List.length_append, List.drop_length_add_append]
        exact ih
      · exact drop_append_eq _ _ _

/-! ### Records -/

theorem records_of_not_mem (h : sep ∉ l) : records sep cap l = [] := by
  unfold records
  rw [List.splitOn_eq_singleton h]
  rfl

/-- A record is the next one, or it is too long. -/
theorem records_append (h : sep ∉ r) (t : List α) : records sep cap (r ++ sep :: t) =
    if r.length ≤ cap then r :: records sep cap t else [] := by
  unfold records
  have hne : t.splitOn sep ≠ [] := List.splitOn_ne_nil sep t
  rw [List.splitOn_append_cons_self_of_not_mem h, List.dropLast_cons_of_ne_nil hne,
    List.takeWhile_cons]
  simp only [decide_eq_true_eq]

/-- What one read takes of a stream of records: a record with its separator, or
something without one. -/
theorem upTo_take (h : sep ∉ r) (t : List α) :
    upTo sep ((r ++ sep :: t).take (cap + 1)) =
      if r.length ≤ cap then r ++ [sep] else r.take (cap + 1) := by
  rw [List.take_append]
  split
  · next hle =>
    obtain ⟨k, hk⟩ : ∃ k, cap + 1 - r.length = k + 1 := ⟨cap - r.length, by omega⟩
    rw [List.take_of_length_le (by omega), hk, List.take_succ_cons, upTo_append_of_not_mem h,
      upTo_cons]
  · next hlt =>
    rw [Nat.sub_eq_zero_of_le (by omega), List.take_zero, List.append_nil]
    exact upTo_of_not_mem fun hmem => h (List.mem_of_mem_take hmem)

omit [DecidableEq α] in
/-- A stream begins with a record, if there is a separator in it. -/
theorem exists_record (h : sep ∈ l) : ∃ r t, sep ∉ r ∧ l = r ++ sep :: t := by
  obtain ⟨r, t, rfl, hr⟩ := List.eq_append_cons_of_mem h
  exact ⟨r, t, hr, rfl⟩

end Chunks

end ProgramLogic
