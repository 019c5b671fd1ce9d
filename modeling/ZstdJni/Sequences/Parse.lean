/-
# What sequences say about a text

Sequences cut a text into literals and matches, and every match says that some bytes are
those a distance in front of them.  If this is true of a text, then its literals and the
sequences are enough to write it down again, from what lies in front of it.
-/

import ZstdJni.Sequences.Decode

namespace ZstdJni.Sequences

open ZstdJni.Foundation ZstdJni.Native

/-- The bytes at some addresses. -/
def bytesAt (text : ℕ → Byte) (first n : ℕ) : List Byte :=
  (List.range n).map fun i => text (first + i)

section Bytes

variable {text text' : ℕ → Byte} {first first' n : ℕ}

@[simp]
theorem length_bytesAt (text : ℕ → Byte) (first n : ℕ) : (bytesAt text first n).length = n := by
  rw [bytesAt, List.length_map, List.length_range]

theorem bytesAt_congr (h : ∀ i < n, text (first + i) = text' (first' + i)) :
    bytesAt text first n = bytesAt text' first' n :=
  List.map_congr_left fun i hi => h i (List.mem_range.mp hi)

theorem bytesAt_eq_iff :
    bytesAt text first n = bytesAt text' first' n ↔
      ∀ i < n, text (first + i) = text' (first' + i) := by
  refine ⟨fun h i hi => ?_, bytesAt_congr⟩
  have hat := congrArg (fun bytes => bytes[i]?) h
  simpa [bytesAt, hi] using hat

theorem bytesAt_add (text : ℕ → Byte) (first m n : ℕ) :
    bytesAt text first (m + n) = bytesAt text first m ++ bytesAt text (first + m) n := by
  simp only [bytesAt, List.range_add, List.map_append, List.map_map, Nat.add_assoc]
  rfl

/-- A part of some bytes. -/
theorem take_drop_bytesAt (text : ℕ → Byte) (first : ℕ) {k l n : ℕ} (h : k + l ≤ n) :
    ((bytesAt text first n).drop k).take l = bytesAt text (first + k) l := by
  obtain ⟨rest, rfl⟩ := Nat.exists_eq_add_of_le h
  rw [Nat.add_assoc, bytesAt_add, List.drop_left' (length_bytesAt _ _ _), bytesAt_add,
    List.take_left' (length_bytesAt _ _ _)]

end Bytes

/-- The bytes of some sequences. -/
def span (seqs : List Seq) : ℕ :=
  (seqs.map fun s => s.litLength + s.matchLength).sum

@[simp]
theorem span_cons (s : Seq) (seqs : List Seq) :
    span (s :: seqs) = s.litLength + s.matchLength + span seqs := by
  rw [span, List.map_cons, List.sum_cons, span]

theorem span_append (seqs seqs' : List Seq) : span (seqs ++ seqs') = span seqs + span seqs' := by
  rw [span, List.map_append, List.sum_append, span, span]

section Text

variable (text : ℕ → Byte)

/-- What a sequence says is true of a text.  Its match reaches back no further than the
window and the beginning of the text. -/
structure Explains (begins window op : ℕ) (s : Seq) : Prop where
  offset_pos : 0 < s.offset
  matchLength_pos : 0 < s.matchLength
  offset_le : s.offset ≤ window
  begins_le : begins + s.offset ≤ op + s.litLength
  matched : ∀ i < s.matchLength,
    text (op + s.litLength + i) = text (op + s.litLength + i - s.offset)

/-- All that some sequences say is true. -/
def Parses (begins window : ℕ) : ℕ → List Seq → Prop
  | _, [] => True
  | op, s :: rest =>
    Explains text begins window op s ∧
      Parses begins window (op + (s.litLength + s.matchLength)) rest

/-- The literals of some sequences. -/
def literalsOf : ℕ → List Seq → List Byte
  | _, [] => []
  | op, s :: rest =>
    bytesAt text op s.litLength ++ literalsOf (op + (s.litLength + s.matchLength)) rest

end Text

/-- The literals of a block: those of its sequences and the bytes behind them. -/
def blockLiterals (text : ℕ → Byte) (op n : ℕ) (seqs : List Seq) : List Byte :=
  literalsOf text op seqs ++ bytesAt text (op + span seqs) (n - span seqs)

theorem literalsOf_append (text : ℕ → Byte) (op : ℕ) (seqs : List Seq) (s : Seq) :
    literalsOf text op (seqs ++ [s]) =
      literalsOf text op seqs ++ bytesAt text (op + span seqs) s.litLength := by
  induction seqs generalizing op with
  | nil => simp [literalsOf, span]
  | cons s' seqs ih =>
      rw [List.cons_append, literalsOf, ih, literalsOf, span_cons, List.append_assoc, Nat.add_assoc]

end ZstdJni.Sequences
