/-
# The dictionaries a native context refers to

A `ZSTD_CCtx` or `ZSTD_DCtx` refers to a dictionary object of the application by a plain
pointer.  Loading a dictionary from bytes makes a copy and drops the pointer.  With
`ZSTD_d_refMultipleDDicts` a decompression context has a set of pointers besides, in which
a dictionary stays until another one with its ID comes, and a frame may make any member of
the set the current dictionary.

Everything that changes the dictionary is refused while a frame is open.  Calls that
allocate may find no memory.
-/

import ZstdJni.Native.Result

namespace ZstdJni.Dict

open ZstdJni.Native

/-- What a native context knows of dictionary objects. -/
structure NativeCtx (D : Type) where
  /-- It is allocated. -/
  alive : Bool
  /-- `streamStage` is not the initial one. -/
  inFrame : Bool
  /-- `cdict`, or `ddict` unless that is the context's own copy. -/
  ref : Option D
  refMultipleDDicts : Bool
  ddictSet : List D

/-- Where a call that loads a dictionary runs out of memory. -/
inductive Memory
  | enough
  | noArray
  | noCopy
  deriving DecidableEq

namespace NativeCtx

variable {D : Type}

/-- `ZSTD_createCCtx` and `ZSTD_createDCtx`. -/
def create : NativeCtx D := ⟨true, false, none, false, []⟩

/-- `ZSTD_freeCCtx` and `ZSTD_freeDCtx`. -/
def free (n : NativeCtx D) : NativeCtx D :=
  { n with alive := false, ref := none, ddictSet := [] }

/-- A dictionary object the context has a pointer to. -/
def RefersTo (n : NativeCtx D) (d : D) : Prop := n.ref = some d ∨ d ∈ n.ddictSet

/-- `ZSTD_CCtx_refCDict`. -/
def refCDict (dict : Option D) (n : NativeCtx D) : Option ErrorCode × NativeCtx D :=
  if n.inFrame then (some .stageWrong, n) else (none, { n with ref := dict })

/-- `ZSTD_DDictHashSet_addDDict`. -/
def addDDict (dictID : D → ℕ) (d : D) (ddictSet : List D) : List D :=
  d :: ddictSet.filter fun other => dictID other ≠ dictID d

/-- `ZSTD_DCtx_refDDict`.  The set comes last, when the pointer is already replaced. -/
def refDDict (dictID : D → ℕ) (memory : Memory) (dict : Option D) (n : NativeCtx D) :
    Option ErrorCode × NativeCtx D :=
  if n.inFrame then (some .stageWrong, n)
  else
    match dict with
    | none => (none, { n with ref := none })
    | some d =>
      if n.refMultipleDDicts then
        match memory with
        | .enough => (none, { n with ref := some d, ddictSet := addDDict dictID d n.ddictSet })
        | _ => (some .memoryAllocation, { n with ref := some d })
      else (none, { n with ref := some d })

/-- `ZSTD_CCtx_loadDictionary` and `ZSTD_DCtx_loadDictionary`, with the access to the Java
array that precedes them. -/
def loadDictionary (memory : Memory) (n : NativeCtx D) : Option ErrorCode × NativeCtx D :=
  if memory = .noArray then (some .memoryAllocation, n)
  else if n.inFrame then (some .stageWrong, n)
  else if memory = .noCopy then (some .memoryAllocation, { n with ref := none })
  else (none, { n with ref := none })

/-- `ZSTD_CCtx_reset` and `ZSTD_DCtx_reset` of the session and the parameters.  A failure
is reported before the parameters are touched. -/
def reset (failure : Option ErrorCode) (n : NativeCtx D) : Option ErrorCode × NativeCtx D :=
  match failure with
  | some code => (some code, { n with inFrame := false })
  | none => (none, { n with inFrame := false, ref := none, refMultipleDDicts := false })

/-- `ZSTD_d_refMultipleDDicts`. -/
def setRefMultipleDDicts (useMultiple : Bool) (n : NativeCtx D) :
    Option ErrorCode × NativeCtx D :=
  if n.inFrame then (some .stageWrong, n)
  else (none, { n with refMultipleDDicts := useMultiple })

/-- What calls that compress or decompress do: they leave a frame open or not, and a frame
may select a dictionary of the set. -/
structure Work (D : Type) where
  leavesOpen : Bool
  selected : Option D
  /-- What the method throws after that. -/
  throws : Option JavaException

/-- The context after such calls. -/
def work [DecidableEq D] (w : Work D) (n : NativeCtx D) : NativeCtx D :=
  { n with
    inFrame := w.leavesOpen
    ref :=
      match w.selected with
      | some d => if n.refMultipleDDicts ∧ d ∈ n.ddictSet then some d else n.ref
      | none => n.ref }

/-- No set of dictionaries was ever asked for. -/
structure Single (n : NativeCtx D) : Prop where
  refMultipleDDicts : n.refMultipleDDicts = false
  ddictSet : n.ddictSet = []

/-- A native call that frees nothing, and makes no set. -/
structure Plain (f : NativeCtx D → Option ErrorCode × NativeCtx D) : Prop where
  alive : ∀ n, (f n).2.alive = n.alive
  single : ∀ n, n.Single → (f n).2.Single

theorem plain_refCDict (dict : Option D) : Plain (refCDict dict) where
  alive n := by
    unfold refCDict
    split <;> rfl
  single n h := by
    unfold refCDict
    split
    · exact h
    · exact ⟨h.refMultipleDDicts, h.ddictSet⟩

/-- Without the set `ZSTD_DCtx_refDDict` does the same as `ZSTD_CCtx_refCDict`. -/
theorem refDDict_of_single {n : NativeCtx D} (h : n.Single) (dictID : D → ℕ) (memory : Memory)
    (dict : Option D) : refDDict dictID memory dict n = refCDict dict n := by
  unfold refDDict refCDict
  split
  · rfl
  · cases dict with
    | none => rfl
    | some d => simp [h.refMultipleDDicts]

theorem plain_refDDict (dictID : D → ℕ) (memory : Memory) (dict : Option D) :
    Plain (refDDict dictID memory dict) where
  alive n := by
    unfold refDDict
    split
    · rfl
    · cases dict with
      | none => rfl
      | some d =>
          simp only
          split
          · split <;> rfl
          · rfl
  single n h := by
    rw [refDDict_of_single h]
    exact (plain_refCDict dict).single n h

theorem plain_loadDictionary (memory : Memory) :
    Plain (loadDictionary memory : NativeCtx D → Option ErrorCode × NativeCtx D) where
  alive n := by
    unfold loadDictionary
    split_ifs <;> rfl
  single n h := by
    unfold loadDictionary
    split_ifs <;> exact ⟨h.refMultipleDDicts, h.ddictSet⟩

theorem plain_reset (failure : Option ErrorCode) :
    Plain (reset failure : NativeCtx D → Option ErrorCode × NativeCtx D) where
  alive n := by
    cases failure <;> rfl
  single n h := by
    cases failure with
    | none => exact ⟨rfl, h.ddictSet⟩
    | some code => exact ⟨h.refMultipleDDicts, h.ddictSet⟩

end NativeCtx

end ZstdJni.Dict
