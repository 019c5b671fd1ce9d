/-
# Two heap-to-heap calls on one array

`compress_byte_array_stream` fetches the elements of the destination array, compresses
into them, and releases them.  The virtual machine may hand out a private copy of the
whole array; releasing the elements then copies all of it back.  Two calls on different
contexts, with disjoint windows of one array, take these steps in any order.

What ZSTD produces is left open: the compressing step writes any bytes that fit into the
window.  Calls that fail are left out, since only runs in which both calls succeed are of
interest here.
-/

import Mathlib.Data.Fintype.Basic
import ZstdJni.Foundation.Machine
import ZstdJni.Native.Result

namespace ZstdJni.CompressCtx

open ZstdJni.Foundation ZstdJni.Native

variable {n : ℕ}

/-- An array of `n` bytes. -/
abbrev Elements (n : ℕ) := Fin n → Byte

/-- The windows of the two calls, from `arrayOffset + position` to `arrayOffset + limit`:
they are disjoint. -/
structure Windows where
  lo : Bool → ℕ
  hi : Bool → ℕ
  disjoint : ∀ k i, lo i ≤ k → k < hi i → ¬ (lo (!i) ≤ k ∧ k < hi (!i))

/-- The position `k` lies in the window of a call. -/
def Windows.Mem (windows : Windows) (i : Bool) (k : ℕ) : Prop :=
  windows.lo i ≤ k ∧ k < windows.hi i

/-- Position `k` is one of those that bytes from `lo` on cover. -/
def Covers (lo : ℕ) (bytes : List Byte) (k : ℕ) : Prop := lo ≤ k ∧ k < lo + bytes.length

instance (lo : ℕ) (bytes : List Byte) (k : ℕ) : Decidable (Covers lo bytes k) :=
  inferInstanceAs (Decidable (_ ∧ _))

/-- The byte that bytes from `lo` on put at position `k`. -/
def byteAt (lo : ℕ) (bytes : List Byte) (k : ℕ) : Byte := bytes.getD (k - lo) 0

/-- The elements after bytes were written from `lo` on. -/
def writeAt (lo : ℕ) (bytes : List Byte) (elements : Elements n) : Elements n := fun k =>
  if Covers lo bytes k then byteAt lo bytes k else elements k

/-- How far a call has come, with its private copy of the elements, if it got one, and
with the bytes it produced. -/
inductive Stage (n : ℕ)
  | before
  | fetched (copy : Option (Elements n))
  | compressed (copy : Option (Elements n)) (bytes : List Byte)
  | returned (bytes : List Byte)

/-- The array and the two calls. -/
structure Shared (n : ℕ) where
  array : Elements n
  stage : Bool → Stage n

/-- A step of a call: `GetByteArrayElements`, which may copy, `ZSTD_compressStream2`, and
`ReleaseByteArrayElements`. -/
inductive Action
  | fetch (isCopy : Bool)
  | compress (bytes : List Byte)
  | release

/-- The calls before their first step. -/
def Shared.create (array : Elements n) : Shared n := ⟨array, fun _ => .before⟩

/-- Call `i` comes to another stage. -/
def Shared.goto (s : Shared n) (i : Bool) (stage : Stage n) : Shared n :=
  { s with stage := Function.update s.stage i stage }

/-- One step of call `i`. -/
def Shared.step (windows : Windows) (s : Shared n) (i : Bool) (action : Action) :
    Option (Shared n) :=
  match s.stage i, action with
  | .before, .fetch isCopy => some (s.goto i (.fetched (if isCopy then some s.array else none)))
  | .fetched copy, .compress bytes =>
    if windows.lo i + bytes.length ≤ windows.hi i then
      match copy with
      | none =>
        some { s.goto i (.compressed none bytes) with
          array := writeAt (windows.lo i) bytes s.array }
      | some elements =>
        some (s.goto i (.compressed (some (writeAt (windows.lo i) bytes elements)) bytes))
    else none
  | .compressed none bytes, .release => some (s.goto i (.returned bytes))
  | .compressed (some elements) bytes, .release =>
    some { s.goto i (.returned bytes) with array := elements }
  | _, _ => none

/-- The machine of the two calls. -/
def sharedMachine (n : ℕ) (windows : Windows) : Machine (Shared n) (Bool × Action) Unit where
  step s input := (s.step windows input.1 input.2).map fun next => ((), next)

/-- Both calls have returned. -/
def Shared.BothReturned (s : Shared n) : Prop := ∀ i, ∃ bytes, s.stage i = .returned bytes

/-- The bytes of each call are in its window, and nothing else has changed. -/
structure Shared.UpdatesKept (windows : Windows) (array : Elements n) (s : Shared n) : Prop where
  present : ∀ i bytes, s.stage i = .returned bytes →
    ∀ k : Fin n, Covers (windows.lo i) bytes k → s.array k = byteAt (windows.lo i) bytes k
  unchanged : ∀ k : Fin n, (∀ i, ¬ windows.Mem i k) → s.array k = array k

/-- The step does not copy anything stale back: a private copy that is released agrees
with the array outside of the window of its call. -/
def CopiesFresh (windows : Windows) (s : Shared n) (input : Bool × Action) : Prop :=
  match s.stage input.1, input.2 with
  | .compressed (some elements) _, .release =>
    ∀ k : Fin n, ¬ windows.Mem input.1 k → elements k = s.array k
  | _, _ => True

/-- The private copy of a call. -/
def Stage.copy : Stage n → Option (Elements n)
  | .fetched copy => copy
  | .compressed copy _ => copy
  | _ => none

/-- The bytes of a call that are, or were, in the array. -/
def Stage.published : Stage n → Option (List Byte)
  | .compressed none bytes => some bytes
  | .returned bytes => some bytes
  | _ => none

/-- The bytes that a call has produced. -/
def Stage.produced : Stage n → List Byte
  | .compressed _ bytes => bytes
  | .returned bytes => bytes
  | _ => []

/-- A value that position `k` in the window of call `i` has had. -/
def Shared.Seen (windows : Windows) (array : Elements n) (s : Shared n) (i : Bool) (k : Fin n)
    (value : Byte) : Prop :=
  value = array k ∨ ∃ bytes, (s.stage i).published = some bytes ∧
    Covers (windows.lo i) bytes k ∧ value = byteAt (windows.lo i) bytes k

/-- What holds after every sequence of steps. -/
structure Shared.Inv (windows : Windows) (array : Elements n) (s : Shared n) : Prop where
  fits : ∀ i, (s.stage i).produced ≠ [] →
    windows.lo i + (s.stage i).produced.length ≤ windows.hi i
  outside : ∀ k : Fin n, (∀ i, ¬ windows.Mem i k) → s.array k = array k
  seen : ∀ i (k : Fin n), windows.Mem i k → s.Seen windows array i k (s.array k)
  copy_outside : ∀ i elements, (s.stage i).copy = some elements →
    ∀ k : Fin n, (∀ i, ¬ windows.Mem i k) → elements k = array k
  copy_seen : ∀ i elements, (s.stage i).copy = some elements →
    ∀ k : Fin n, windows.Mem (!i) k → s.Seen windows array (!i) k (elements k)
  copy_own : ∀ i elements, (s.stage i).copy = some elements → ∀ k : Fin n, windows.Mem i k →
    elements k =
      if Covers (windows.lo i) (s.stage i).produced k then
        byteAt (windows.lo i) (s.stage i).produced k
      else array k
  /-- Only the other call can take published bytes away, and only when it returns. -/
  intact : ∀ i bytes, (s.stage i).published = some bytes →
    (∀ other, s.stage (!i) ≠ .returned other) →
    ∀ k : Fin n, Covers (windows.lo i) bytes k → s.array k = byteAt (windows.lo i) bytes k

section Step

variable {windows : Windows} {array : Elements n} {s s' : Shared n} {i : Bool}

theorem forall_bool_of (i : Bool) {p : Bool → Prop} (hself : p i) (hother : p (!i)) (j : Bool) :
    p j := by
  cases i <;> cases j <;> assumption

@[simp]
theorem Shared.goto_stage_self (stage : Stage n) : (s.goto i stage).stage i = stage :=
  Function.update_self _ _ _

@[simp]
theorem Shared.goto_stage_not (stage : Stage n) : (s.goto i stage).stage (!i) = s.stage (!i) :=
  Function.update_of_ne (by simp) _ _

theorem writeAt_covered {lo : ℕ} {bytes : List Byte} {elements : Elements n} {k : Fin n}
    (hcovers : Covers lo bytes k) : writeAt lo bytes elements k = byteAt lo bytes k :=
  if_pos hcovers

theorem writeAt_other {lo : ℕ} {bytes : List Byte} {elements : Elements n} {k : Fin n}
    (hcovers : ¬ Covers lo bytes k) : writeAt lo bytes elements k = elements k :=
  if_neg hcovers

/-- Bytes that fit into a window cover positions of the window only. -/
theorem mem_of_covers {bytes : List Byte} {k : ℕ} (hcovers : Covers (windows.lo i) bytes k)
    (hfits : windows.lo i + bytes.length ≤ windows.hi i) : windows.Mem i k :=
  ⟨hcovers.1, Nat.lt_of_lt_of_le hcovers.2 hfits⟩

theorem not_mem_not {k : ℕ} (hmem : windows.Mem i k) : ¬ windows.Mem (!i) k :=
  windows.disjoint k i hmem.1 hmem.2

theorem not_covers_nil (lo k : ℕ) : ¬ Covers lo [] k := by
  simp only [Covers, List.length_nil]
  omega

/-- What is published was produced. -/
theorem Stage.produced_of_published {stage : Stage n} {bytes : List Byte}
    (hpublished : stage.published = some bytes) : stage.produced = bytes := by
  cases stage with
  | before => simp [Stage.published] at hpublished
  | fetched copy => simp [Stage.published] at hpublished
  | compressed copy produced =>
      cases copy with
      | none => exact Option.some.inj hpublished
      | some elements => simp [Stage.published] at hpublished
  | returned produced => exact Option.some.inj hpublished

/-- Published bytes cover positions of their window only. -/
theorem Shared.Inv.mem_of_published (hinv : s.Inv windows array) {bytes : List Byte} {k : ℕ}
    (hpublished : (s.stage i).published = some bytes) (hcovers : Covers (windows.lo i) bytes k) :
    windows.Mem i k := by
  have hproduced := Stage.produced_of_published hpublished
  refine mem_of_covers hcovers ?_
  rw [← hproduced]
  refine hinv.fits i fun hnil => ?_
  rw [hproduced] at hnil
  exact not_covers_nil _ _ (hnil ▸ hcovers)

/-- Values stay seen while published bytes stay published. -/
theorem Shared.Seen.mono (hpublished : ∀ bytes, (s.stage i).published = some bytes →
    (s'.stage i).published = some bytes) {k : Fin n} {value : Byte}
    (hseen : s.Seen windows array i k value) : s'.Seen windows array i k value := by
  rcases hseen with h | ⟨bytes, hbytes, h⟩
  · exact .inl h
  · exact .inr ⟨bytes, hpublished bytes hbytes, h⟩

/-- Where nothing is published, only the first value was seen. -/
theorem Shared.Seen.eq_of_unpublished {k : Fin n} {value : Byte}
    (hseen : s.Seen windows array i k value) (hnone : (s.stage i).published = none) :
    value = array k := by
  rcases hseen with h | ⟨bytes, hbytes, -⟩
  · exact h
  · rw [hnone] at hbytes
    contradiction

/-- What a step of call `i` owes, which brings it to `stage` and the array to `changed`. -/
structure Shared.Keeps (windows : Windows) (array : Elements n) (s : Shared n) (i : Bool)
    (stage : Stage n) (changed : Elements n) : Prop where
  open_before : ∀ bytes, s.stage i ≠ .returned bytes
  published : ∀ bytes, (s.stage i).published = some bytes → stage.published = some bytes
  fits : stage.produced ≠ [] → windows.lo i + stage.produced.length ≤ windows.hi i
  outside : ∀ k : Fin n, (∀ j, ¬ windows.Mem j k) → changed k = array k
  own : ∀ k : Fin n, windows.Mem i k → changed k = array k ∨
    ∃ bytes, stage.published = some bytes ∧ Covers (windows.lo i) bytes k ∧
      changed k = byteAt (windows.lo i) bytes k
  other : ∀ k : Fin n, windows.Mem (!i) k → s.Seen windows array (!i) k (changed k)
  copy_outside : ∀ elements, stage.copy = some elements →
    ∀ k : Fin n, (∀ j, ¬ windows.Mem j k) → elements k = array k
  copy_other : ∀ elements, stage.copy = some elements →
    ∀ k : Fin n, windows.Mem (!i) k → s.Seen windows array (!i) k (elements k)
  copy_own : ∀ elements, stage.copy = some elements → ∀ k : Fin n, windows.Mem i k →
    elements k = if Covers (windows.lo i) stage.produced k then
      byteAt (windows.lo i) stage.produced k
      else array k
  intact : ∀ bytes, stage.published = some bytes → (∀ other, s.stage (!i) ≠ .returned other) →
    ∀ k : Fin n, Covers (windows.lo i) bytes k → changed k = byteAt (windows.lo i) bytes k
  intact_other : (∀ bytes, stage ≠ .returned bytes) →
    ∀ k : Fin n, windows.Mem (!i) k → changed k = s.array k

/-- A step that does what it owes keeps the invariant. -/
theorem Shared.Inv.of_keeps (hinv : s.Inv windows array) {stage : Stage n} {changed : Elements n}
    (hkeeps : s.Keeps windows array i stage changed) :
    Shared.Inv windows array { s.goto i stage with array := changed } := by
  have hmono (bytes : List Byte) (h : (s.stage i).published = some bytes) :
      ((s.goto i stage).stage i).published = some bytes := by
    rw [Shared.goto_stage_self]
    exact hkeeps.published bytes h
  have hsame (bytes : List Byte) (h : (s.stage (!i)).published = some bytes) :
      ((s.goto i stage).stage (!i)).published = some bytes := by
    rwa [Shared.goto_stage_not]
  refine ⟨forall_bool_of i ?_ ?_, hkeeps.outside, forall_bool_of i ?_ ?_, forall_bool_of i ?_ ?_,
    forall_bool_of i ?_ ?_, forall_bool_of i ?_ ?_, forall_bool_of i ?_ ?_⟩
  all_goals simp only [Shared.goto_stage_self, Shared.goto_stage_not, Bool.not_not]
  · exact hkeeps.fits
  · exact hinv.fits (!i)
  · intro k hmem
    rcases hkeeps.own k hmem with h | ⟨bytes, hbytes, h⟩
    · exact .inl h
    · exact .inr ⟨bytes, by simpa using hbytes, h⟩
  · exact fun k hmem => (hkeeps.other k hmem).mono hsame
  · exact hkeeps.copy_outside
  · exact hinv.copy_outside (!i)
  · exact fun elements h k hmem => (hkeeps.copy_other elements h k hmem).mono hsame
  · intro elements h k hmem
    have hseen := hinv.copy_seen (!i) elements h k (by simpa using hmem)
    rw [Bool.not_not] at hseen
    exact hseen.mono hmono
  · exact hkeeps.copy_own
  · exact hinv.copy_own (!i)
  · exact hkeeps.intact
  · intro bytes hbytes hreturned k hcovers
    rw [hkeeps.intact_other hreturned k (hinv.mem_of_published hbytes hcovers)]
    refine hinv.intact (!i) bytes hbytes ?_ k hcovers
    rw [Bool.not_not]
    exact hkeeps.open_before

/-- Fetching the elements, as a copy or not. -/
theorem keeps_fetch (hinv : s.Inv windows array) (hstage : s.stage i = .before) (isCopy : Bool) :
    s.Keeps windows array i (.fetched (if isCopy then some s.array else none)) s.array := by
  have hnone : (s.stage i).published = none := by rw [hstage]; rfl
  have hcopy (elements : Elements n)
      (h : (Stage.fetched (if isCopy then some s.array else none)).copy = some elements) :
      elements = s.array := by
    cases isCopy <;> simp_all [Stage.copy]
  have hown (k : Fin n) (hmem : windows.Mem i k) : s.array k = array k :=
    (hinv.seen i k hmem).eq_of_unpublished hnone
  refine ⟨by simp [hstage], by simp [hnone], fun h => absurd rfl h, hinv.outside,
    fun k hmem => .inl (hown k hmem), hinv.seen (!i), ?_, ?_, ?_, ?_, fun _ _ _ => rfl⟩
  · exact fun elements h k hout => by rw [hcopy elements h]; exact hinv.outside k hout
  · exact fun elements h k hmem => by rw [hcopy elements h]; exact hinv.seen (!i) k hmem
  · intro elements h k hmem
    rw [hcopy elements h, hown k hmem]
    exact (if_neg (not_covers_nil _ _)).symm
  · exact fun bytes h => absurd h (by simp [Stage.published])

/-- Compressing into the array itself. -/
theorem keeps_compress_array (hinv : s.Inv windows array) (hstage : s.stage i = .fetched none)
    {bytes : List Byte} (hfits : windows.lo i + bytes.length ≤ windows.hi i) :
    s.Keeps windows array i (.compressed none bytes) (writeAt (windows.lo i) bytes s.array) := by
  have hnone : (s.stage i).published = none := by rw [hstage]; rfl
  have hother (k : Fin n) (hmem : windows.Mem (!i) k) :
      writeAt (windows.lo i) bytes s.array k = s.array k :=
    writeAt_other fun hcovers => not_mem_not (mem_of_covers hcovers hfits) hmem
  refine ⟨by simp [hstage], by simp [hnone], fun _ => hfits, fun k hout => ?_, fun k hmem => ?_,
    fun k hmem => ?_, ?_, ?_, ?_, ?_, fun _ => hother⟩
  · rw [writeAt_other fun hcovers => hout i (mem_of_covers hcovers hfits)]
    exact hinv.outside k hout
  · by_cases hcovers : Covers (windows.lo i) bytes k
    · exact .inr ⟨bytes, rfl, hcovers, writeAt_covered hcovers⟩
    · rw [writeAt_other hcovers]
      exact .inl ((hinv.seen i k hmem).eq_of_unpublished hnone)
  · rw [hother k hmem]
    exact hinv.seen (!i) k hmem
  · exact fun elements h => absurd h (by simp [Stage.copy])
  · exact fun elements h => absurd h (by simp [Stage.copy])
  · exact fun elements h => absurd h (by simp [Stage.copy])
  · intro bytes' hbytes' _ k hcovers
    obtain rfl : bytes = bytes' := Option.some.inj hbytes'
    exact writeAt_covered hcovers

/-- Compressing into a private copy. -/
theorem keeps_compress_copy (hinv : s.Inv windows array) {elements : Elements n}
    (hstage : s.stage i = .fetched (some elements)) {bytes : List Byte}
    (hfits : windows.lo i + bytes.length ≤ windows.hi i) :
    s.Keeps windows array i (.compressed (some (writeAt (windows.lo i) bytes elements)) bytes)
      s.array := by
  have hnone : (s.stage i).published = none := by rw [hstage]; rfl
  have hcopy : (s.stage i).copy = some elements := by rw [hstage]; rfl
  refine ⟨by simp [hstage], by simp [hnone], fun _ => hfits, hinv.outside, fun k hmem => ?_,
    hinv.seen (!i), ?_, ?_, ?_, ?_, fun _ _ _ => rfl⟩
  · exact .inl ((hinv.seen i k hmem).eq_of_unpublished hnone)
  · intro written hwritten k hout
    obtain rfl := Option.some.inj hwritten
    rw [writeAt_other fun hcovers => hout i (mem_of_covers hcovers hfits)]
    exact hinv.copy_outside i elements hcopy k hout
  · intro written hwritten k hmem
    obtain rfl := Option.some.inj hwritten
    rw [writeAt_other fun hcovers => not_mem_not (mem_of_covers hcovers hfits) hmem]
    exact hinv.copy_seen i elements hcopy k hmem
  · intro written hwritten k hmem
    obtain rfl := Option.some.inj hwritten
    have hold : elements k = array k := by
      rw [hinv.copy_own i elements hcopy k hmem, hstage]
      exact if_neg (not_covers_nil _ _)
    by_cases hcovers : Covers (windows.lo i) bytes k
    · exact (writeAt_covered hcovers).trans (if_pos hcovers).symm
    · exact (writeAt_other hcovers).trans (hold.trans (if_neg hcovers).symm)
  · exact fun bytes h => absurd h (by simp [Stage.published])

/-- Releasing the elements of the array itself. -/
theorem keeps_release_array (hinv : s.Inv windows array) {bytes : List Byte}
    (hstage : s.stage i = .compressed none bytes) :
    s.Keeps windows array i (.returned bytes) s.array := by
  have hpublished : (s.stage i).published = some bytes := by rw [hstage]; rfl
  refine ⟨by simp [hstage], fun _ h => hpublished.symm.trans h, ?_, hinv.outside,
    fun k hmem => ?_, hinv.seen (!i), ?_, ?_, ?_, ?_, fun h => absurd rfl (h bytes)⟩
  · intro h
    have hfits := hinv.fits i
    rw [hstage] at hfits
    exact hfits h
  · rcases hinv.seen i k hmem with h | ⟨seen, hseen, h⟩
    · exact .inl h
    · rw [hpublished] at hseen
      exact .inr ⟨seen, hseen, h⟩
  · exact fun elements h => absurd h (by simp [Stage.copy])
  · exact fun elements h => absurd h (by simp [Stage.copy])
  · exact fun elements h => absurd h (by simp [Stage.copy])
  · intro bytes' hbytes' hother
    obtain rfl : bytes = bytes' := Option.some.inj hbytes'
    exact hinv.intact i bytes hpublished hother

/-- Releasing a private copy, which is copied back. -/
theorem keeps_release_copy (hinv : s.Inv windows array) {elements : Elements n} {bytes : List Byte}
    (hstage : s.stage i = .compressed (some elements) bytes) :
    s.Keeps windows array i (.returned bytes) elements := by
  have hnone : (s.stage i).published = none := by rw [hstage]; rfl
  have hcopy : (s.stage i).copy = some elements := by rw [hstage]; rfl
  have hproduced : (s.stage i).produced = bytes := by rw [hstage]; rfl
  have hown (k : Fin n) (hmem : windows.Mem i k) := hinv.copy_own i elements hcopy k hmem
  rw [hproduced] at hown
  have hfits := hinv.fits i
  rw [hproduced] at hfits
  refine ⟨by simp [hstage], by simp [hnone], hfits, hinv.copy_outside i elements hcopy,
    fun k hmem => ?_, hinv.copy_seen i elements hcopy, ?_, ?_, ?_, ?_,
    fun h => absurd rfl (h bytes)⟩
  · by_cases hcovers : Covers (windows.lo i) bytes k
    · exact .inr ⟨bytes, rfl, hcovers, (hown k hmem).trans (if_pos hcovers)⟩
    · exact .inl ((hown k hmem).trans (if_neg hcovers))
  · exact fun elements h => absurd h (by simp [Stage.copy])
  · exact fun elements h => absurd h (by simp [Stage.copy])
  · exact fun elements h => absurd h (by simp [Stage.copy])
  · intro bytes' hbytes' _ k hcovers
    obtain rfl : bytes = bytes' := Option.some.inj hbytes'
    have hne : bytes ≠ [] := fun hnil => not_covers_nil _ _ (hnil ▸ hcovers)
    exact (hown k (mem_of_covers hcovers (hfits hne))).trans (if_pos hcovers)

/-- What a step of call `i` can be. -/
theorem step_cases {action : Action} (hstep : s.step windows i action = some s') :
    (∃ isCopy, action = .fetch isCopy ∧ s.stage i = .before ∧
        s' = s.goto i (.fetched (if isCopy then some s.array else none))) ∨
      (∃ bytes, action = .compress bytes ∧ s.stage i = .fetched none ∧
        windows.lo i + bytes.length ≤ windows.hi i ∧
        s' = { s.goto i (.compressed none bytes) with
          array := writeAt (windows.lo i) bytes s.array }) ∨
      (∃ bytes elements, action = .compress bytes ∧ s.stage i = .fetched (some elements) ∧
        windows.lo i + bytes.length ≤ windows.hi i ∧
        s' = s.goto i (.compressed (some (writeAt (windows.lo i) bytes elements)) bytes)) ∨
      (∃ bytes, action = .release ∧ s.stage i = .compressed none bytes ∧
        s' = s.goto i (.returned bytes)) ∨
      ∃ bytes elements, action = .release ∧ s.stage i = .compressed (some elements) bytes ∧
        s' = { s.goto i (.returned bytes) with array := elements } := by
  unfold Shared.step at hstep
  split at hstep
  · next isCopy hstage =>
      exact .inl ⟨isCopy, rfl, hstage, (Option.some.inj hstep).symm⟩
  · next copy bytes hstage =>
      split_ifs at hstep with hfits
      cases copy with
      | none => exact .inr (.inl ⟨bytes, rfl, hstage, hfits, (Option.some.inj hstep).symm⟩)
      | some elements =>
          exact .inr
            (.inr (.inl ⟨bytes, elements, rfl, hstage, hfits, (Option.some.inj hstep).symm⟩))
  · next bytes hstage =>
      exact .inr (.inr (.inr (.inl ⟨bytes, rfl, hstage, (Option.some.inj hstep).symm⟩)))
  · next elements bytes hstage =>
      exact .inr (.inr (.inr (.inr ⟨bytes, elements, rfl, hstage, (Option.some.inj hstep).symm⟩)))
  · contradiction

/-- Every step keeps the invariant. -/
theorem inv_of_step (hinv : s.Inv windows array) {action : Action}
    (hstep : s.step windows i action = some s') : s'.Inv windows array := by
  obtain ⟨isCopy, -, hstage, rfl⟩ | ⟨bytes, -, hstage, hfits, rfl⟩ |
    ⟨bytes, elements, -, hstage, hfits, rfl⟩ | ⟨bytes, -, hstage, rfl⟩ |
    ⟨bytes, elements, -, hstage, rfl⟩ := step_cases hstep
  · exact hinv.of_keeps (keeps_fetch hinv hstage isCopy)
  · exact hinv.of_keeps (keeps_compress_array hinv hstage hfits)
  · exact hinv.of_keeps (keeps_compress_copy hinv hstage hfits)
  · exact hinv.of_keeps (keeps_release_array hinv hstage)
  · exact hinv.of_keeps (keeps_release_copy hinv hstage)

/-- All bytes that were published are in the array. -/
def Shared.Intact (windows : Windows) (s : Shared n) : Prop :=
  ∀ i bytes, (s.stage i).published = some bytes →
    ∀ k : Fin n, Covers (windows.lo i) bytes k → s.array k = byteAt (windows.lo i) bytes k

/-- Published bytes stay in the array under a step of call `i`, if they do so in the
window of the other call and the own bytes arrive. -/
theorem intact_goto (hinv : s.Inv windows array) (hintact : s.Intact windows) {stage : Stage n}
    {changed : Elements n}
    (hown : ∀ bytes, stage.published = some bytes →
      ∀ k : Fin n, Covers (windows.lo i) bytes k → changed k = byteAt (windows.lo i) bytes k)
    (hother : ∀ k : Fin n, windows.Mem (!i) k → changed k = s.array k) :
    Shared.Intact windows { s.goto i stage with array := changed } := by
  refine forall_bool_of i ?_ ?_
  · simpa only [Shared.goto_stage_self] using hown
  · simp only [Shared.goto_stage_not]
    intro bytes hbytes k hcovers
    rw [hother k (hinv.mem_of_published hbytes hcovers)]
    exact hintact (!i) bytes hbytes k hcovers

/-- A step that copies nothing stale back keeps the published bytes. -/
theorem intact_of_fresh (hinv : s.Inv windows array) (hintact : s.Intact windows) {action : Action}
    (hfresh : CopiesFresh windows s (i, action)) (hstep : s.step windows i action = some s') :
    s'.Intact windows := by
  obtain ⟨isCopy, -, hstage, rfl⟩ | ⟨bytes, -, hstage, hfits, rfl⟩ |
    ⟨bytes, elements, -, hstage, hfits, rfl⟩ | ⟨bytes, -, hstage, rfl⟩ |
    ⟨bytes, elements, rfl, hstage, rfl⟩ := step_cases hstep
  · exact intact_goto hinv hintact (fun bytes h => absurd h (by simp [Stage.published]))
      fun _ _ => rfl
  · refine intact_goto hinv hintact (fun bytes' hbytes' k hcovers => ?_) fun k hmem =>
      writeAt_other fun hcovers => not_mem_not (mem_of_covers hcovers hfits) hmem
    obtain rfl : bytes = bytes' := Option.some.inj hbytes'
    exact writeAt_covered hcovers
  · exact intact_goto hinv hintact (fun bytes h => absurd h (by simp [Stage.published]))
      fun _ _ => rfl
  · refine intact_goto hinv hintact (fun bytes' hbytes' => ?_) fun _ _ => rfl
    obtain rfl : bytes = bytes' := Option.some.inj hbytes'
    exact hintact i bytes (by rw [hstage]; rfl)
  · simp only [CopiesFresh, hstage] at hfresh
    have hkeeps := keeps_release_copy hinv hstage
    refine intact_goto hinv hintact (fun bytes' hbytes' k hcovers => ?_) fun k hmem => ?_
    · obtain rfl : bytes = bytes' := Option.some.inj hbytes'
      have hproduced : (s.stage i).produced = bytes := by rw [hstage]; rfl
      have hne : bytes ≠ [] := fun hnil => not_covers_nil _ _ (hnil ▸ hcovers)
      have hfits := hkeeps.fits hne
      rw [hinv.copy_own i elements (by rw [hstage]; rfl) k (mem_of_covers hcovers hfits), hproduced]
      exact if_pos hcovers
    · refine hfresh k fun hself => ?_
      exact not_mem_not hself hmem

/-- A step that copies something stale back takes published bytes away. -/
theorem not_intact_of_stale (hinv : s.Inv windows array) (hintact : s.Intact windows)
    {action : Action} (hstale : ¬ CopiesFresh windows s (i, action))
    (hstep : s.step windows i action = some s') : ¬ s'.Intact windows := by
  obtain ⟨isCopy, rfl, hstage, -⟩ | ⟨bytes, rfl, hstage, -, -⟩ |
    ⟨bytes, elements, rfl, hstage, -, -⟩ |
    ⟨bytes, rfl, hstage, -⟩ | ⟨bytes, elements, rfl, hstage, rfl⟩ := step_cases hstep
  · simp [CopiesFresh, hstage] at hstale
  · simp [CopiesFresh, hstage] at hstale
  · simp [CopiesFresh, hstage] at hstale
  · simp [CopiesFresh, hstage] at hstale
  · simp only [CopiesFresh, hstage, not_forall] at hstale
    obtain ⟨k, hout, hdiffers⟩ := hstale
    have hcopy : (s.stage i).copy = some elements := by rw [hstage]; rfl
    have hmem : windows.Mem (!i) k := by
      by_contra hother
      have hnone : ∀ j, ¬ windows.Mem j k := forall_bool_of i hout hother
      rw [hinv.copy_outside i elements hcopy k hnone, hinv.outside k hnone] at hdiffers
      exact hdiffers rfl
    intro hintact'
    -- The array holds what the other call published at `k`, the copy what was there before.
    rcases hinv.seen (!i) k hmem with hold | ⟨bytes', hpublished, hcovers, hnew⟩
    · rcases hinv.copy_seen i elements hcopy k hmem with hcopied |
        ⟨bytes', hpublished, hcovers, hcopied⟩
      · exact hdiffers (hcopied.trans hold.symm)
      · exact hdiffers (hcopied.trans (hintact (!i) bytes' hpublished k hcovers).symm)
    · have hkept := hintact' (!i) bytes' (by simpa using hpublished) k hcovers
      exact hdiffers (hkept.trans hnew.symm)

/-- Published bytes that are gone do not come back. -/
theorem not_intact_of_step (hinv : s.Inv windows array) (hlost : ¬ s.Intact windows)
    {action : Action} (hstep : s.step windows i action = some s') : ¬ s'.Intact windows := by
  simp only [Shared.Intact, not_forall] at hlost
  obtain ⟨j, bytes, hpublished, k, hcovers, hgone⟩ := hlost
  have hreturned : ∃ other, s.stage (!j) = .returned other := by
    by_contra hopen
    exact hgone (hinv.intact j bytes hpublished (fun other h => hopen ⟨other, h⟩) k hcovers)
  obtain ⟨other, hreturned⟩ := hreturned
  intro hintact'
  by_cases hij : i = j
  · subst hij
    obtain ⟨isCopy, -, hstage, -⟩ | ⟨bytes', -, hstage, -, -⟩ |
      ⟨bytes', elements, -, hstage, -, -⟩ |
      ⟨bytes', -, hstage, rfl⟩ | ⟨bytes', elements, -, hstage, -⟩ := step_cases hstep
    · simp [hstage, Stage.published] at hpublished
    · simp [hstage, Stage.published] at hpublished
    · simp [hstage, Stage.published] at hpublished
    · rw [hstage] at hpublished
      obtain rfl : bytes' = bytes := Option.some.inj hpublished
      exact hgone (hintact' i bytes' (by simp [Stage.published]) k hcovers)
    · simp [hstage, Stage.published] at hpublished
  · obtain rfl : i = !j := by
      revert hij
      cases i <;> cases j <;> decide
    simp [Shared.step, hreturned] at hstep

end Step

/-- The published bytes are in the array at the end of a run exactly if they were at its
beginning and nothing stale was copied back. -/
theorem intact_run_iff {windows : Windows} {array : Elements n} {s : Shared n}
    (hinv : s.Inv windows array) (inputs : List (Bool × Action)) :
    ((sharedMachine n windows).run s inputs).2.Intact windows ↔
      s.Intact windows ∧ (sharedMachine n windows).AllSteps (CopiesFresh windows) s inputs := by
  induction inputs generalizing s with
  | nil => exact ⟨fun h => ⟨h, trivial⟩, fun h => h.1⟩
  | cons input inputs ih =>
      rw [Machine.run, Machine.AllSteps]
      cases hstep : s.step windows input.1 input.2 with
      | none => simpa only [sharedMachine, hstep, Option.map_none] using ih hinv
      | some next =>
          simp only [sharedMachine, hstep, Option.map_some]
          refine (ih (inv_of_step hinv hstep)).trans ⟨fun h => ?_, fun h => ?_⟩
          · have hintact : s.Intact windows := by
              by_contra hlost
              exact not_intact_of_step hinv hlost hstep h.1
            have hfresh : CopiesFresh windows s input := by
              by_contra hstale
              exact not_intact_of_stale hinv hintact hstale hstep h.1
            exact ⟨hintact, hfresh, h.2⟩
          · exact ⟨intact_of_fresh hinv h.1 h.2.1 hstep, h.2.2⟩

/-- In a run in which both calls return, no update is lost exactly if no call copies a
private copy back that differs, outside of its own window, from the array. -/
theorem updatesKept_iff_copiesFresh (windows : Windows) (array : Elements n)
    (inputs : List (Bool × Action)) :
    (((sharedMachine n windows).run (Shared.create array) inputs).2.BothReturned →
        ((sharedMachine n windows).run (Shared.create array) inputs).2.UpdatesKept windows array) ↔
      (((sharedMachine n windows).run (Shared.create array) inputs).2.BothReturned →
        (sharedMachine n windows).AllSteps (CopiesFresh windows) (Shared.create array) inputs) := by
  have hcreate : (Shared.create array).Inv windows array := by
    refine ⟨?_, fun _ _ => rfl, fun _ _ _ => .inl rfl, ?_, ?_, ?_, ?_⟩ <;>
      simp [Shared.create, Stage.produced, Stage.copy, Stage.published]
  have hinv : ((sharedMachine n windows).run (Shared.create array) inputs).2.Inv windows array := by
    refine Machine.run_inv (fun _ (s : Shared n) => s.Inv windows array)
      (fun _ s input _ next h hstep => ?_) hcreate inputs
    obtain ⟨taken, htaken, hnext⟩ := Option.map_eq_some_iff.mp hstep
    obtain ⟨-, rfl⟩ := Prod.mk.inj hnext
    exact inv_of_step h htaken
  have hempty : (Shared.create array).Intact windows := by
    intro i bytes h
    simp [Shared.create, Stage.published] at h
  refine forall_congr' fun hreturned => ?_
  have hkept : ((sharedMachine n windows).run (Shared.create array) inputs).2.UpdatesKept windows
      array ↔ ((sharedMachine n windows).run (Shared.create array) inputs).2.Intact windows := by
    refine ⟨fun h i bytes hbytes => ?_, fun h => ⟨fun i bytes hbytes => ?_, hinv.outside⟩⟩
    · obtain ⟨bytes', hstage⟩ := hreturned i
      rw [hstage] at hbytes
      obtain rfl : bytes' = bytes := Option.some.inj hbytes
      exact h.present i bytes' hstage
    · exact h i bytes (by rw [hbytes]; rfl)
  rw [hkept, intact_run_iff hcreate]
  exact ⟨fun h => h.2, fun h => ⟨hempty, h⟩⟩

/-- Two windows of one byte each. -/
def adjacentWindows : Windows where
  lo i := if i then 1 else 0
  hi i := if i then 2 else 1
  disjoint k i := by cases i <;> simp <;> omega

/-- Both calls work on private copies; the second one runs from its first step to its
last between the first and the last step of the other. -/
def enclosedCall : List (Bool × Action) :=
  [(false, .fetch true), (true, .fetch true), (true, .compress [7]), (true, .release),
    (false, .compress [9]), (false, .release)]

/-- The byte of the second call is lost. -/
theorem not_updatesKept_enclosedCall :
    ¬ (((sharedMachine 2 adjacentWindows).run (Shared.create fun _ => 0)
      enclosedCall).2.BothReturned →
      ((sharedMachine 2 adjacentWindows).run (Shared.create fun _ => 0) enclosedCall).2.UpdatesKept
        adjacentWindows fun _ => 0) := by
  intro hkept
  have hreturned : ((sharedMachine 2 adjacentWindows).run (Shared.create fun _ => 0)
      enclosedCall).2.BothReturned := by
    intro i
    cases i
    · exact ⟨[9], rfl⟩
    · exact ⟨[7], rfl⟩
  have hpresent := (hkept hreturned).present true [7] rfl 1 (by decide)
  exact absurd hpresent (by decide)

end ZstdJni.CompressCtx
