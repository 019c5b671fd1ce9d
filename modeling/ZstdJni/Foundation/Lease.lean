/-
# Counters of the parties that use a shared object

Every object has a counter.  It is `-1` once the object is closed, and counts its users
before.  A party remembers at most one object; on taking another one it adds itself
to the counter of the new one and then takes itself off the counter of the old one.

The counters are balanced if each is the number of times that the parties have added
themselves without taking themselves off again, and a closed object is used by nobody.
What a party has done to the counters shows in how far they have moved.
-/

import ZstdJni.Foundation.Count

namespace ZstdJni.Foundation

variable {ι D : Type} [DecidableEq D]

/-- How often a party that remembers `r` is counted at `d`. -/
def weight (r : Option D) (d : D) : ℕ := if r = some d then 1 else 0

@[simp] theorem weight_none (d : D) : weight none d = 0 := rfl

@[simp] theorem weight_self (d : D) : weight (some d) d = 1 := if_pos rfl

theorem weight_pos_iff {r : Option D} {d : D} : 0 < weight r d ↔ r = some d := by
  unfold weight
  split
  · next h => exact iff_of_true Nat.one_pos h
  · next h => exact iff_of_false (Nat.lt_irrefl 0) h

theorem weight_le_of_pos {r : Option D} {held : D → ℕ} (hr : ∀ d, r = some d → 0 < held d)
    (d : D) : weight r d ≤ held d := by
  unfold weight
  split
  · next hd => exact hr d hd
  · exact Nat.zero_le _

/-- A party adds itself to the counter of what it takes. -/
def take (new : Option D) (lock : D → ℤ) : D → ℤ := fun d => lock d + weight new d

/-- A party takes itself off the counter of what it has remembered. -/
def drop (old : Option D) (lock : D → ℤ) : D → ℤ := fun d => lock d - weight old d

@[simp] theorem take_none (lock : D → ℤ) : take none lock = lock := by
  funext d
  simp [take]

@[simp] theorem drop_none (lock : D → ℤ) : drop none lock = lock := by
  funext d
  simp [drop]

theorem take_some (lock : D → ℤ) (d : D) :
    take (some d) lock = Function.update lock d (lock d + 1) := by
  funext other
  by_cases hother : other = d
  · subst hother
    simp [take]
  · simp [take, weight, hother, Ne.symm hother]

theorem drop_some (lock : D → ℤ) (d : D) :
    drop (some d) lock = Function.update lock d (lock d - 1) := by
  funext other
  by_cases hother : other = d
  · subst hother
    simp [drop]
  · simp [drop, weight, hother, Ne.symm hother]

/-- Giving back what was just taken. -/
theorem drop_take (r : Option D) (lock : D → ℤ) : drop r (take r lock) = lock := by
  funext d
  simp [drop, take]

theorem pos_of_take {r new : Option D} {lock : D → ℤ} (hr : ∀ d, r = some d → 0 < lock d) :
    ∀ d, r = some d → 0 < take new lock d := by
  intro d hd
  have hlock := hr d hd
  unfold take
  omega

/-- A party that remembered `r` remembers `r'` now, with its account in order: it has done
nothing, or it has replaced one object by another. -/
inductive Trade (r : Option D) (lock : D → ℤ) (r' : Option D) (lock' : D → ℤ) : Prop
  | keep (hr : r' = r) (hlock : lock' = lock)
  | swap (hfree : ∀ d, r' = some d → 0 ≤ lock d) (hlock : lock' = drop r (take r' lock))

namespace Trade

variable {r r' : Option D} {lock lock' : D → ℤ}

/-- The counters move by as much as the party is counted more or less. -/
theorem moved (h : Trade r lock r' lock') (d : D) :
    lock' d + weight r d = lock d + weight r' d := by
  cases h with
  | keep hr hlock => rw [hr, hlock]
  | swap _ hlock =>
      rw [hlock, drop, take]
      omega

/-- What a party remembers keeps a user. -/
theorem pos (h : Trade r lock r' lock') (hr : ∀ d, r = some d → 0 < lock d) :
    ∀ d, r' = some d → 0 < lock' d := by
  intro d hd
  cases h with
  | keep hsame hlock =>
      rw [hlock]
      exact hr d (hsame ▸ hd)
  | swap hfree hlock =>
      have hopen := hfree d hd
      have htaken : lock' d = lock d + 1 - weight r d := by
        rw [hlock, drop, take, hd, weight_self]
        rfl
      by_cases hold : r = some d
      · have hused := hr d hold
        rw [hold, weight_self] at htaken
        omega
      · have hzero : weight r d = 0 := if_neg hold
        omega

/-- No party remembers what was closed before. -/
theorem weight_of_closed (h : Trade r lock r' lock') (hr : ∀ d, r = some d → 0 < lock d) {d : D}
    (hclosed : lock d < 0) : weight r' d = 0 := by
  by_contra hpos
  have hremembered := weight_pos_iff.mp (Nat.pos_of_ne_zero hpos)
  cases h with
  | keep hsame _ =>
      have := hr d (hsame ▸ hremembered)
      omega
  | swap hfree _ =>
      have := hfree d hremembered
      omega

end Trade

/-- The counters move so that what a party remembers stays counted.  The party may be
counted more often than it remembers, but never less. -/
structure Covers (r : Option D) (lock : D → ℤ) (r' : Option D) (lock' : D → ℤ) : Prop where
  dropped : ∀ d, lock d ≤ lock' d + weight r d
  taken : ∀ d, r' = some d → lock d < lock' d + weight r d
  closed : ∀ d, lock d < 0 → lock' d = lock d

theorem Trade.covers {r r' : Option D} {lock lock' : D → ℤ} (h : Trade r lock r' lock')
    (hr : ∀ d, r = some d → 0 < lock d) : Covers r lock r' lock' where
  dropped d := by
    have hmoved := h.moved d
    omega
  taken d hd := by
    have hmoved := h.moved d
    rw [hd, weight_self] at hmoved
    omega
  closed d hclosed := by
    have hmoved := h.moved d
    rw [h.weight_of_closed hr hclosed] at hmoved
    have hold : weight r d = 0 := by
      by_contra hpos
      have := hr d (weight_pos_iff.mp (Nat.pos_of_ne_zero hpos))
      omega
    omega

/-- A party that takes something and does not remember it. -/
theorem covers_take (r : Option D) {new : Option D} {lock : D → ℤ}
    (hfree : ∀ d, new = some d → 0 ≤ lock d) : Covers r lock r (take new lock) where
  dropped d := by
    unfold take
    omega
  taken d hd := by
    rw [hd, weight_self, take]
    omega
  closed d hclosed := by
    have hnot : weight new d = 0 := by
      by_contra hpos
      have := hfree d (weight_pos_iff.mp (Nat.pos_of_ne_zero hpos))
      omega
    rw [take, hnot]
    omega

/-- A party that forgets what it has remembered. -/
theorem covers_forget (r : Option D) (lock : D → ℤ) : Covers r lock none lock where
  dropped d := by omega
  taken d hd := by cases hd
  closed d _ := rfl

/-- How often a party is counted after it has moved the counters. -/
def recount (held : D → ℕ) (lock lock' : D → ℤ) (d : D) : ℕ :=
  (held d + (lock' d - lock d)).toNat

omit [DecidableEq D] in
/-- What stays counted. -/
theorem recount_pos_of_le {held : D → ℕ} {lock lock' : D → ℤ} {d : D} (hheld : 0 < held d)
    (hle : lock d ≤ lock' d) : 0 < recount held lock lock' d := by
  unfold recount
  omega

namespace Covers

variable {r r' : Option D} {lock lock' : D → ℤ} {held : D → ℕ}

theorem recount_moved (h : Covers r lock r' lock') (hr : ∀ d, r = some d → 0 < held d) (d : D) :
    lock' d + held d = lock d + recount held lock lock' d := by
  have hdropped := h.dropped d
  have hle := weight_le_of_pos hr d
  unfold recount
  omega

theorem recount_pos (h : Covers r lock r' lock') (hr : ∀ d, r = some d → 0 < held d) {d : D}
    (hd : r' = some d) : 0 < recount held lock lock' d := by
  have htaken := h.taken d hd
  have hle := weight_le_of_pos hr d
  unfold recount
  omega

theorem recount_of_closed (h : Covers r lock r' lock') {d : D} (hclosed : lock d < 0)
    (hheld : held d = 0) : recount held lock lock' d = 0 := by
  rw [recount, h.closed d hclosed, hheld]
  omega

end Covers

section Balanced

variable [Fintype ι]

/-- Each counter is the number of times that the parties are counted at the object. -/
def Balanced (held : ι → D → ℕ) (lock : D → ℤ) : Prop :=
  ∀ d, lock d = -1 ∧ ∑ i, held i d = 0 ∨ lock d = ∑ i, held i d

variable {held : ι → D → ℕ} {lock lock' : D → ℤ}

omit [DecidableEq D] in
/-- What somebody is counted at is open. -/
theorem Balanced.pos (h : Balanced held lock) {i : ι} {d : D} (hheld : 0 < held i d) :
    0 < lock d := by
  have hle : held i d ≤ ∑ j, held j d := le_sum (fun j => held j d) i
  rcases h d with ⟨-, hzero⟩ | hlock <;> omega

omit [DecidableEq D] in
theorem Balanced.closed (h : Balanced held lock) {d : D} (hclosed : lock d < 0) {i : ι} :
    held i d = 0 := by
  have hle : held i d ≤ ∑ j, held j d := le_sum (fun j => held j d) i
  rcases h d with ⟨-, hzero⟩ | hlock <;> omega

omit [DecidableEq D] in
theorem Balanced.zero : Balanced (fun (_ : ι) (_ : D) => 0) fun _ => 0 := by
  intro d
  right
  simp

/-- Closing an object that nobody is counted at. -/
theorem Balanced.close (h : Balanced held lock) {d : D} (hzero : lock d = 0) :
    Balanced held (Function.update lock d (-1)) := by
  intro other
  by_cases hother : other = d
  · subst hother
    left
    rw [Function.update_self]
    refine ⟨rfl, ?_⟩
    rcases h other with ⟨-, hsum⟩ | hlock
    · exact hsum
    · omega
  · rw [Function.update_of_ne hother]
    exact h other

variable [DecidableEq ι]

omit [DecidableEq D] in
/-- One party moves the counters by as much as it is counted more or less than before. -/
theorem Balanced.update (h : Balanced held lock) (i : ι) (held' : D → ℕ)
    (hmoved : ∀ d, lock' d + held i d = lock d + held' d)
    (hfree : ∀ d, lock d < 0 → held' d = 0) :
    Balanced (Function.update held i held') lock' := by
  intro d
  have hsum := sum_update_add (fun j => held j d) i (held' d)
  have hsame : (fun j => Function.update held i held' j d) =
      Function.update (fun j => held j d) i (held' d) := by
    funext j
    by_cases hj : j = i
    · subst hj
      simp
    · simp [hj]
  rw [show (∑ j, Function.update held i held' j d) =
    ∑ j, Function.update (fun j => held j d) i (held' d) j by rw [← hsame]]
  have hlock := hmoved d
  rcases h d with ⟨hclosed, hzero⟩ | htotal
  · left
    have hnone := hfree d (by omega)
    have hheld := h.closed (i := i) (d := d) (by omega)
    exact ⟨by omega, by omega⟩
  · right
    omega

end Balanced

end ZstdJni.Foundation
