/-
# The tables of the three kinds of codes

For each kind of codes there is a distribution that need not be described, and the decoder
has the table for it written out.  What is written out is what building the table gives, so
the encoder, which builds its own table from the distribution, has the matching one.

The other tables are built from counts that are described, or for a single code.
-/

import ZstdJni.Sequences.RoundTrip

namespace ZstdJni.Sequences

open ZstdJni.Foundation ZstdJni.Native ZstdJni.Entropy

/-- `LL_defaultNorm`. -/
def llDefaultNorm : NormalizedCounter where
  counts :=
    [4, 3, 2, 2, 2, 2, 2, 2, 2, 2, 2, 2, 2, 1, 1, 1, 2, 2, 2, 2, 2, 2, 2, 2, 2, 3, 2, 1, 1, 1, 1, 1,
     -1, -1, -1, -1]
  tableLog := 6
  count_ge := by decide
  sum_slots := by decide
  tableLog_ge := by decide
  tableLog_le := by decide

/-- `OF_defaultNorm`. -/
def ofDefaultNorm : NormalizedCounter where
  counts :=
    [1, 1, 1, 1, 1, 1, 2, 2, 2, 1, 1, 1, 1, 1, 1, 1, 1, 1, 1, 1, 1, 1, 1, 1, -1, -1, -1, -1, -1]
  tableLog := 5
  count_ge := by decide
  sum_slots := by decide
  tableLog_ge := by decide
  tableLog_le := by decide

/-- `ML_defaultNorm`. -/
def mlDefaultNorm : NormalizedCounter where
  counts :=
    [1, 4, 3, 2, 2, 2, 2, 2, 2, 1, 1, 1, 1, 1, 1, 1, 1, 1, 1, 1, 1, 1, 1, 1, 1, 1, 1, 1, 1, 1, 1, 1,
     1, 1, 1, 1, 1, 1, 1, 1, 1, 1, 1, 1, 1, 1, -1, -1, -1, -1, -1, -1, -1]
  tableLog := 6
  count_ge := by decide
  sum_slots := by decide
  tableLog_ge := by decide
  tableLog_le := by decide

/-- `LL_defaultDTable`. -/
def llDefaultDTable : DTable where
  tableLog := 6
  cells :=
    [⟨0, 0, 4, 0⟩, ⟨16, 0, 4, 0⟩, ⟨32, 0, 5, 1⟩, ⟨0, 0, 5, 3⟩, ⟨0, 0, 5, 4⟩, ⟨0, 0, 5, 6⟩,
     ⟨0, 0, 5, 7⟩, ⟨0, 0, 5, 9⟩, ⟨0, 0, 5, 10⟩, ⟨0, 0, 5, 12⟩, ⟨0, 0, 6, 14⟩, ⟨0, 1, 5, 16⟩,
     ⟨0, 1, 5, 20⟩, ⟨0, 1, 5, 22⟩, ⟨0, 2, 5, 28⟩, ⟨0, 3, 5, 32⟩, ⟨0, 4, 5, 48⟩, ⟨32, 6, 5, 64⟩,
     ⟨0, 7, 5, 128⟩, ⟨0, 8, 6, 256⟩, ⟨0, 10, 6, 1024⟩, ⟨0, 12, 6, 4096⟩, ⟨32, 0, 4, 0⟩,
     ⟨0, 0, 4, 1⟩, ⟨0, 0, 5, 2⟩, ⟨32, 0, 5, 4⟩, ⟨0, 0, 5, 5⟩, ⟨32, 0, 5, 7⟩, ⟨0, 0, 5, 8⟩,
     ⟨32, 0, 5, 10⟩, ⟨0, 0, 5, 11⟩, ⟨0, 0, 6, 13⟩, ⟨32, 1, 5, 16⟩, ⟨0, 1, 5, 18⟩, ⟨32, 1, 5, 22⟩,
     ⟨0, 2, 5, 24⟩, ⟨32, 3, 5, 32⟩, ⟨0, 3, 5, 40⟩, ⟨0, 6, 4, 64⟩, ⟨16, 6, 4, 64⟩, ⟨32, 7, 5, 128⟩,
     ⟨0, 9, 6, 512⟩, ⟨0, 11, 6, 2048⟩, ⟨48, 0, 4, 0⟩, ⟨16, 0, 4, 1⟩, ⟨32, 0, 5, 2⟩, ⟨32, 0, 5, 3⟩,
     ⟨32, 0, 5, 5⟩, ⟨32, 0, 5, 6⟩, ⟨32, 0, 5, 8⟩, ⟨32, 0, 5, 9⟩, ⟨32, 0, 5, 11⟩, ⟨32, 0, 5, 12⟩,
     ⟨0, 0, 6, 15⟩, ⟨32, 1, 5, 18⟩, ⟨32, 1, 5, 20⟩, ⟨32, 2, 5, 24⟩, ⟨32, 2, 5, 28⟩, ⟨32, 3, 5, 40⟩,
     ⟨32, 4, 5, 48⟩, ⟨0, 16, 6, 65536⟩, ⟨0, 15, 6, 32768⟩, ⟨0, 14, 6, 16384⟩, ⟨0, 13, 6, 8192⟩]

/-- `OF_defaultDTable`. -/
def ofDefaultDTable : DTable where
  tableLog := 5
  cells :=
    [⟨0, 0, 5, 0⟩, ⟨0, 6, 4, 61⟩, ⟨0, 9, 5, 509⟩, ⟨0, 15, 5, 32765⟩, ⟨0, 21, 5, 2097149⟩,
     ⟨0, 3, 5, 5⟩, ⟨0, 7, 4, 125⟩, ⟨0, 12, 5, 4093⟩, ⟨0, 18, 5, 262141⟩, ⟨0, 23, 5, 8388605⟩,
     ⟨0, 5, 5, 29⟩, ⟨0, 8, 4, 253⟩, ⟨0, 14, 5, 16381⟩, ⟨0, 20, 5, 1048573⟩, ⟨0, 2, 5, 1⟩,
     ⟨16, 7, 4, 125⟩, ⟨0, 11, 5, 2045⟩, ⟨0, 17, 5, 131069⟩, ⟨0, 22, 5, 4194301⟩, ⟨0, 4, 5, 13⟩,
     ⟨16, 8, 4, 253⟩, ⟨0, 13, 5, 8189⟩, ⟨0, 19, 5, 524285⟩, ⟨0, 1, 5, 1⟩, ⟨16, 6, 4, 61⟩,
     ⟨0, 10, 5, 1021⟩, ⟨0, 16, 5, 65533⟩, ⟨0, 28, 5, 268435453⟩, ⟨0, 27, 5, 134217725⟩,
     ⟨0, 26, 5, 67108861⟩, ⟨0, 25, 5, 33554429⟩, ⟨0, 24, 5, 16777213⟩]

/-- `ML_defaultDTable`. -/
def mlDefaultDTable : DTable where
  tableLog := 6
  cells :=
    [⟨0, 0, 6, 3⟩, ⟨0, 0, 4, 4⟩, ⟨32, 0, 5, 5⟩, ⟨0, 0, 5, 6⟩, ⟨0, 0, 5, 8⟩, ⟨0, 0, 5, 9⟩,
     ⟨0, 0, 5, 11⟩, ⟨0, 0, 6, 13⟩, ⟨0, 0, 6, 16⟩, ⟨0, 0, 6, 19⟩, ⟨0, 0, 6, 22⟩, ⟨0, 0, 6, 25⟩,
     ⟨0, 0, 6, 28⟩, ⟨0, 0, 6, 31⟩, ⟨0, 0, 6, 34⟩, ⟨0, 1, 6, 37⟩, ⟨0, 1, 6, 41⟩, ⟨0, 2, 6, 47⟩,
     ⟨0, 3, 6, 59⟩, ⟨0, 4, 6, 83⟩, ⟨0, 7, 6, 131⟩, ⟨0, 9, 6, 515⟩, ⟨16, 0, 4, 4⟩, ⟨0, 0, 4, 5⟩,
     ⟨32, 0, 5, 6⟩, ⟨0, 0, 5, 7⟩, ⟨32, 0, 5, 9⟩, ⟨0, 0, 5, 10⟩, ⟨0, 0, 6, 12⟩, ⟨0, 0, 6, 15⟩,
     ⟨0, 0, 6, 18⟩, ⟨0, 0, 6, 21⟩, ⟨0, 0, 6, 24⟩, ⟨0, 0, 6, 27⟩, ⟨0, 0, 6, 30⟩, ⟨0, 0, 6, 33⟩,
     ⟨0, 1, 6, 35⟩, ⟨0, 1, 6, 39⟩, ⟨0, 2, 6, 43⟩, ⟨0, 3, 6, 51⟩, ⟨0, 4, 6, 67⟩, ⟨0, 5, 6, 99⟩,
     ⟨0, 8, 6, 259⟩, ⟨32, 0, 4, 4⟩, ⟨48, 0, 4, 4⟩, ⟨16, 0, 4, 5⟩, ⟨32, 0, 5, 7⟩, ⟨32, 0, 5, 8⟩,
     ⟨32, 0, 5, 10⟩, ⟨32, 0, 5, 11⟩, ⟨0, 0, 6, 14⟩, ⟨0, 0, 6, 17⟩, ⟨0, 0, 6, 20⟩, ⟨0, 0, 6, 23⟩,
     ⟨0, 0, 6, 26⟩, ⟨0, 0, 6, 29⟩, ⟨0, 0, 6, 32⟩, ⟨0, 16, 6, 65539⟩, ⟨0, 15, 6, 32771⟩,
     ⟨0, 14, 6, 16387⟩, ⟨0, 13, 6, 8195⟩, ⟨0, 12, 6, 4099⟩, ⟨0, 11, 6, 2051⟩, ⟨0, 10, 6, 1027⟩]

theorem llDefaultDTable_eq :
    llDefaultDTable = buildFSETable llDefaultNorm.counts llBase llBits llDefaultNorm.tableLog := rfl

theorem ofDefaultDTable_eq :
    ofDefaultDTable = buildFSETable ofDefaultNorm.counts ofBase ofBits ofDefaultNorm.tableLog := rfl

theorem mlDefaultDTable_eq :
    mlDefaultDTable = buildFSETable mlDefaultNorm.counts mlBase mlBits mlDefaultNorm.tableLog := rfl

/-- What there is for one kind of codes. -/
structure CodeKind where
  /-- The largest code. -/
  max : ℕ
  /-- The logarithm of the largest table. -/
  maxLog : ℕ
  baseValue : List ℕ
  nbAdditionalBits : List ℕ
  defaultNorm : NormalizedCounter
  defaultTable : DTable
  defaultTable_eq :
    defaultTable = buildFSETable defaultNorm.counts baseValue nbAdditionalBits defaultNorm.tableLog
  defaultLog_le : defaultNorm.tableLog ≤ maxLog
  /-- The default distribution has all codes up to the last one. -/
  default_slots : ∀ n ∈ defaultNorm.counts, slots n ≠ 0
  max_lt : max < 64
  maxLog_ge : 7 ≤ maxLog
  maxLog_le : maxLog ≤ 9

/-- The encoder's table for the distribution and the table that is written out belong
together. -/
def CodeKind.defaultPaired (k : CodeKind) :
    Paired k.defaultNorm.ctable k.defaultTable k.baseValue k.nbAdditionalBits
      (0 < k.defaultNorm.slotsOf ·) :=
  k.defaultTable_eq.symm ▸ k.defaultNorm.paired k.baseValue k.nbAdditionalBits

/-- The codes of literal lengths. -/
def llKind : CodeKind where
  max := maxLL
  maxLog := 9
  baseValue := llBase
  nbAdditionalBits := llBits
  defaultNorm := llDefaultNorm
  defaultTable := llDefaultDTable
  defaultTable_eq := llDefaultDTable_eq
  defaultLog_le := by decide
  default_slots := by decide
  max_lt := by decide
  maxLog_ge := by decide
  maxLog_le := by decide

/-- The codes of offsets. -/
def ofKind : CodeKind where
  max := 31
  maxLog := 8
  baseValue := ofBase
  nbAdditionalBits := ofBits
  defaultNorm := ofDefaultNorm
  defaultTable := ofDefaultDTable
  defaultTable_eq := ofDefaultDTable_eq
  defaultLog_le := by decide
  default_slots := by decide
  max_lt := by decide
  maxLog_ge := by decide
  maxLog_le := by decide

/-- The codes of match lengths. -/
def mlKind : CodeKind where
  max := maxML
  maxLog := 9
  baseValue := mlBase
  nbAdditionalBits := mlBits
  defaultNorm := mlDefaultNorm
  defaultTable := mlDefaultDTable
  defaultTable_eq := mlDefaultDTable_eq
  defaultLog_le := by decide
  default_slots := by decide
  max_lt := by decide
  maxLog_ge := by decide
  maxLog_le := by decide

/-- Where the tables for a kind of codes come from. -/
inductive TableSource (k : CodeKind)
  | basic
  | rle (symbol : ℕ)
  | compressed (norm : NormalizedCounter) (log_le : norm.tableLog ≤ k.maxLog)

namespace TableSource

variable {k : CodeKind} (s : TableSource k)

/-- The table of the encoder. -/
def ctable : CTable :=
  match s with
  | basic => k.defaultNorm.ctable
  | rle symbol => buildCTableRle symbol
  | compressed norm _ => norm.ctable

/-- The table of the decoder. -/
def dtable : DTable :=
  match s with
  | basic => k.defaultTable
  | rle symbol => buildSeqTableRle (k.baseValue.getD symbol 0) (k.nbAdditionalBits.getD symbol 0)
  | compressed norm _ =>
    buildFSETable norm.counts k.baseValue k.nbAdditionalBits norm.tableLog

/-- Whether the tables are for a code. -/
def Has (code : ℕ) : Prop :=
  match s with
  | basic => 0 < k.defaultNorm.slotsOf code
  | rle symbol => code = symbol
  | compressed norm _ => 0 < norm.slotsOf code

/-- The tables of both sides belong together. -/
def paired : Paired s.ctable s.dtable k.baseValue k.nbAdditionalBits s.Has :=
  match s with
  | basic => k.defaultPaired
  | rle symbol => pairedRle symbol k.baseValue k.nbAdditionalBits
  | compressed norm _ => norm.paired k.baseValue k.nbAdditionalBits

theorem tableLog_le : s.ctable.tableLog ≤ k.maxLog := by
  cases s with
  | basic => exact k.defaultLog_le
  | rle symbol => exact Nat.zero_le _
  | compressed norm log_le => exact log_le

end TableSource

/-- Where the tables of a block come from. -/
structure BlockTables where
  litLength : TableSource llKind
  offset : TableSource ofKind
  matchLength : TableSource mlKind

namespace BlockTables

variable (tables : BlockTables)

/-- The tables of the encoder. -/
def ctables : SeqCTables where
  litLength := tables.litLength.ctable
  offsetBits := tables.offset.ctable
  matchLength := tables.matchLength.ctable

/-- The tables of the decoder. -/
def dtables : SeqDTables where
  llt := tables.litLength.dtable
  oft := tables.offset.dtable
  mlt := tables.matchLength.dtable

/-- The tables of both sides belong together. -/
def paired : PairedTables tables.ctables tables.dtables tables.litLength.Has tables.offset.Has
    tables.matchLength.Has where
  litLength := tables.litLength.paired
  offset := tables.offset.paired
  matchLength := tables.matchLength.paired
  litLength_log := tables.litLength.tableLog_le
  offset_log := tables.offset.tableLog_le
  matchLength_log := tables.matchLength.tableLog_le

end BlockTables

end ZstdJni.Sequences
