/-
# Copying in blocks within one memory

Bytes are copied in blocks of a fixed size, each of which is read whole before it is written,
and the last of which may reach behind the end of what is to be copied.  Source and target
lie in the same memory and may overlap.

If the source is at least a block in front of the target, every byte is in the end the same
as the byte that far in front of it, even if that one was written by the same copy.  This is
how a pattern is repeated.  A pattern that is repeated at some distance is also repeated at
every multiple of it, so that a copy with a short distance can go on with a longer one.
-/

import Mathlib.Algebra.Order.Ring.Nat
import Mathlib.Tactic.Ring

namespace ZstdJni.Foundation

universe u

variable {α : Type u}

/-- Copy a block that is read before it is written. -/
def copyBlock (m : ℕ → α) (dst src n : ℕ) : ℕ → α :=
  fun a => if dst ≤ a ∧ a < dst + n then m (src + (a - dst)) else m a

/-- Copy some blocks, one after the other. -/
def copyBlocks (n : ℕ) : ℕ → (ℕ → α) → ℕ → ℕ → ℕ → α
  | 0, m, _, _ => m
  | count + 1, m, dst, src => copyBlocks n count (copyBlock m dst src n) (dst + n) (src + n)

/-- Copy some blocks at least once, and again until an end is reached. -/
def copyUntil (n per : ℕ) : ℕ → (ℕ → α) → ℕ → ℕ → ℕ → ℕ → α
  | 0, m, _, _, _ => m
  | fuel + 1, m, dst, src, last =>
    if dst + n * per < last then
      copyUntil n per fuel (copyBlocks n per m dst src) (dst + n * per) (src + n * per) last
    else copyBlocks n per m dst src

/-- Every byte between two places is the same as the byte at a distance in front of it. -/
def Repeats (m : ℕ → α) (distance first last : ℕ) : Prop :=
  ∀ a, first ≤ a → a < last → m a = m (a - distance)

section Blocks

variable {m : ℕ → α} {n dst src : ℕ}

theorem copyBlock_of_outside {a : ℕ} (ha : a < dst ∨ dst + n ≤ a) :
    copyBlock m dst src n a = m a := if_neg (by omega)

theorem copyBlock_of_inside {i : ℕ} (hi : i < n) :
    copyBlock m dst src n (dst + i) = m (src + i) := by
  rw [copyBlock, if_pos (by omega), Nat.add_sub_cancel_left]

theorem copyBlocks_of_outside {count a : ℕ} (ha : a < dst ∨ dst + n * count ≤ a) :
    copyBlocks n count m dst src a = m a := by
  induction count generalizing m dst src with
  | zero => rfl
  | succ count ih =>
      rw [Nat.mul_succ] at ha
      rw [copyBlocks, ih (by omega), copyBlock_of_outside (by omega)]

theorem copyBlocks_add (first second : ℕ) :
    copyBlocks n (first + second) m dst src =
      copyBlocks n second (copyBlocks n first m dst src) (dst + n * first) (src + n * first) := by
  induction first generalizing m dst src with
  | zero => rw [Nat.zero_add, copyBlocks, Nat.mul_zero, Nat.add_zero, Nat.add_zero]
  | succ first ih =>
      rw [Nat.succ_add, copyBlocks, ih, copyBlocks, Nat.mul_succ]
      congr 1 <;> ring

/-- From a source at least a block in front of the target the copy repeats what is there. -/
theorem copyBlocks_behind {count i : ℕ} (hgap : src + n ≤ dst) (hi : i < n * count) :
    copyBlocks n count m dst src (dst + i) = copyBlocks n count m dst src (src + i) := by
  induction count generalizing m dst src i with
  | zero => simp at hi
  | succ count ih =>
      rw [Nat.mul_succ] at hi
      rw [copyBlocks]
      by_cases hfirst : i < n
      · rw [copyBlocks_of_outside (by omega), copyBlocks_of_outside (by omega),
          copyBlock_of_inside hfirst, copyBlock_of_outside (by omega)]
      · have hrest := @ih (copyBlock m dst src n) (dst + n) (src + n) (i - n) (by omega) (by omega)
        have hdst : dst + n + (i - n) = dst + i := by omega
        have hsrc : src + n + (i - n) = src + i := by omega
        rwa [hdst, hsrc] at hrest

/-- From a source that is not in front of the target the copy takes what was there before. -/
theorem copyBlocks_ahead {count i : ℕ} (hge : dst ≤ src) (hi : i < n * count) :
    copyBlocks n count m dst src (dst + i) = m (src + i) := by
  induction count generalizing m dst src i with
  | zero => simp at hi
  | succ count ih =>
      rw [Nat.mul_succ] at hi
      rw [copyBlocks]
      by_cases hfirst : i < n
      · rw [copyBlocks_of_outside (by omega), copyBlock_of_inside hfirst]
      · have hrest := @ih (copyBlock m dst src n) (dst + n) (src + n) (i - n) (by omega) (by omega)
        have hdst : dst + n + (i - n) = dst + i := by omega
        have hsrc : src + n + (i - n) = src + i := by omega
        rwa [hdst, hsrc, copyBlock_of_outside (by omega)] at hrest

/-- A loop of copies is a number of blocks that reaches the end, and not by more than one
turn. -/
theorem copyUntil_eq (m : ℕ → α) (n per fuel dst src last : ℕ) (hstep : 0 < n * per)
    (hpos : 0 < fuel)
    (hfuel : last ≤ dst + fuel) :
    ∃ count, copyUntil n per fuel m dst src last = copyBlocks n count m dst src ∧
      last ≤ dst + n * count ∧ n * per ≤ n * count ∧
      (dst + n * count < last + n * per ∨ n * count = n * per) := by
  induction fuel generalizing m dst src with
  | zero => exact absurd hpos (Nat.lt_irrefl 0)
  | succ fuel ih =>
      rw [copyUntil]
      by_cases hmore : dst + n * per < last
      · obtain ⟨count, hcopy, hreach, hleast, hmost⟩ :=
          ih (copyBlocks n per m dst src) (dst + n * per) (src + n * per) (by omega) (by omega)
        refine ⟨per + count, ?_, ?_, ?_, ?_⟩
        · rw [if_pos hmore, hcopy, copyBlocks_add]
        · rw [Nat.mul_add]
          omega
        · rw [Nat.mul_add]
          omega
        · rw [Nat.mul_add]
          omega
      · exact ⟨per, if_neg hmore, by omega, Nat.le_refl _, Or.inr rfl⟩

/-- Blocks copied from a distance repeat what is there. -/
theorem repeats_copyBlocks (m : ℕ → α) (count : ℕ) {distance : ℕ} (hsrc : src + distance = dst)
    (hn : n ≤ distance) :
    Repeats (copyBlocks n count m dst src) distance dst (dst + n * count) := by
  intro a hfirst hlast
  have hgap : src + n ≤ dst := by omega
  have hinside : a - dst < n * count := by omega
  have hcopy := copyBlocks_behind (m := m) hgap hinside
  have hdst : dst + (a - dst) = a := by omega
  have hback : src + (a - dst) = a - distance := by omega
  rwa [hdst, hback] at hcopy

end Blocks

section Repeats

variable {m : ℕ → α} {distance first middle last : ℕ}

theorem Repeats.mono (h : Repeats m distance first last) {last' : ℕ} (hle : last' ≤ last) :
    Repeats m distance first last' :=
  fun a hfirst hlast => h a hfirst (by omega)

/-- A repetition is kept by writes elsewhere. -/
theorem Repeats.congr (h : Repeats m distance first last) (m' : ℕ → α)
    (heq : ∀ a, first - distance ≤ a → a < last → m' a = m a) : Repeats m' distance first last := by
  intro a hfirst hlast
  rw [heq a (by omega) hlast, heq (a - distance) (by omega) (by omega)]
  exact h a hfirst hlast

/-- What is repeated is a pattern in front of it, again and again. -/
theorem Repeats.pattern (h : Repeats m distance first last) (hpos : 0 < distance)
    (hroom : distance ≤ first) (i : ℕ) (hi : first - distance + i < last) :
    m (first - distance + i) = m (first - distance + i % distance) := by
  induction i using Nat.strongRecOn with
  | ind i ih =>
      by_cases hsmall : i < distance
      · rw [Nat.mod_eq_of_lt hsmall]
      · have hstep := h (first - distance + i) (by omega) hi
        have hback : first - distance + i - distance = first - distance + (i - distance) := by omega
        rw [hstep, hback, ih (i - distance) (by omega) (by omega), ← Nat.mod_eq_sub_mod (by omega)]

/-- A pattern that is repeated at a distance goes on at a multiple of it. -/
theorem Repeats.extend {multiple : ℕ} (h : Repeats m distance first middle) (hpos : 0 < distance)
    (hroom : distance ≤ first) (hdvd : distance ∣ multiple)
    (hreach : multiple + (first - distance) ≤ middle) (hmultiple : 0 < multiple)
    (hgo : Repeats m multiple middle last) : Repeats m distance first last := by
  have hpattern : ∀ i, first - distance + i < max middle last →
      m (first - distance + i) = m (first - distance + i % distance) := by
    intro i
    induction i using Nat.strongRecOn with
    | ind i ih =>
        intro hi
        by_cases hfront : first - distance + i < middle
        · exact h.pattern hpos hroom i hfront
        · obtain ⟨k, rfl⟩ := hdvd
          have hstep := hgo (first - distance + i) (by omega) (by omega)
          have hback : first - distance + i - distance * k =
              first - distance + (i - distance * k) := by omega
          have hmod : (i - distance * k) % distance = i % distance :=
            Nat.sub_mul_mod (by omega)
          rw [hstep, hback, ih (i - distance * k) (by omega) (by omega), hmod]
  intro a hfirst hlast
  have hwhole : a = first - distance + (a - (first - distance)) := by omega
  have hback : a - distance = first - distance + (a - (first - distance) - distance) := by omega
  rw [hback, hpattern _ (by omega), ← Nat.mod_eq_sub_mod (by omega), ← hpattern _ (by omega),
    ← hwhole]

end Repeats

end ZstdJni.Foundation
