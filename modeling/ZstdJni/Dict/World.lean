/-
# Dictionaries and the objects that use them

One thread works with any number of objects that can use a dictionary, and with the
dictionaries.  An object sees its own fields and the locks of the dictionaries.  A run is
a sequence of calls of the methods of the objects and of attempts to close dictionaries.
-/

import ZstdJni.Dict.SharedLock
import ZstdJni.Foundation.Lease

namespace ZstdJni.Dict

open ZstdJni.Foundation ZstdJni.Native ZstdJni.AutoClose

/-- An object with the locks of the dictionaries. -/
structure Sys (S D : Type) where
  holder : S
  locks : D → ℤ

section Sys

variable {S D α : Type} [DecidableEq D]

/-- A method of a dictionary. -/
def onDict (d : D) (m : Java ℤ α) : Java (Sys S D) α :=
  Method.zoom (fun s => s.locks d)
    (fun lock s => { s with locks := Function.update s.locks d lock }) m

/-- `if (dict != null) { dict.acquireSharedLock(); }`. -/
def acquireIfSet : Option D → Java (Sys S D) Unit
  | none => pure ()
  | some d => onDict d acquireSharedLock

/-- `if (dict != null) { dict.releaseSharedLock(); }`. -/
def releaseIfSet : Option D → Java (Sys S D) Unit
  | none => pure ()
  | some d => onDict d releaseSharedLock

/-- The dictionary, if there is one, can be acquired. -/
def Available (dict : Option D) (locks : D → ℤ) : Prop := ∀ d ∈ dict, Acquirable (locks d)

theorem acquireIfSet_call {dict : Option D} {s : Sys S D} (h : Available dict s.locks) :
    (acquireIfSet dict).call s = (.ok (), { s with locks := take dict s.locks }) := by
  cases dict with
  | none => simp [acquireIfSet]
  | some d =>
      have hd := acquire_call_of_acquirable (h d rfl)
      simp [acquireIfSet, onDict, hd, take_some]

theorem acquireIfSet_call_of_not {dict : Option D} {s : Sys S D} (h : ¬ Available dict s.locks) :
    ∃ e, (acquireIfSet dict).call s = (.error e, s) := by
  cases dict with
  | none => exact absurd (fun _ => nofun) h
  | some d =>
      have hd : ¬ Acquirable (s.locks d) :=
        fun hd => h fun other hother => by cases hother; exact hd
      obtain ⟨e, he⟩ := acquire_call_of_not hd
      exact ⟨e, by simp [acquireIfSet, onDict, he]⟩

theorem releaseIfSet_call {dict : Option D} {s : Sys S D} (h : ∀ d, dict = some d → 0 < s.locks d) :
    (releaseIfSet dict).call s = (.ok (), { s with locks := drop dict s.locks }) := by
  cases dict with
  | none => simp [releaseIfSet]
  | some d =>
      have hd := release_call_of_pos (h d rfl)
      simp [releaseIfSet, onDict, hd, drop_some]

end Sys

/-- All objects and the locks of all dictionaries. -/
structure World (H S D : Type) where
  holders : H → S
  locks : D → ℤ

/-- A call of a method of an object, or of the `close` of a dictionary. -/
inductive Input (H Op D : Type)
  | call (h : H) (op : Op)
  | closeDict (d : D)

/-- The objects of a class: the methods each has, and what they do. -/
structure HolderClass (S Op D : Type) where
  has : S → Op → Bool
  perform : Op → Java (Sys S D) Unit

variable {H S Op D : Type} [DecidableEq H] [DecidableEq D]

/-- What an object sees. -/
def World.sys (w : World H S D) (h : H) : Sys S D := ⟨w.holders h, w.locks⟩

/-- The world after an object has done something. -/
def World.put (w : World H S D) (h : H) (s : Sys S D) : World H S D :=
  ⟨Function.update w.holders h s.holder, s.locks⟩

/-- One call after the other. -/
def HolderClass.machine (C : HolderClass S Op D) :
    Machine (World H S D) (Input H Op D) (Except JavaException Unit) where
  step w
    | .call h op =>
      if C.has (w.holders h) op then
        some (((C.perform op).call (w.sys h)).1, w.put h ((C.perform op).call (w.sys h)).2)
      else none
    | .closeDict d =>
      some ((beginClose.call (w.locks d)).1.map fun _ => (),
        { w with locks := Function.update w.locks d (beginClose.call (w.locks d)).2 })

section Orderly

variable {C : HolderClass S Op D} {remembered : S → Option D} {good : S → Prop}
  {atomic : Op → Prop} {careful : Sys S D → Op → Prop}

/-- The dictionary that an object remembers has a user. -/
def Used (remembered : S → Option D) (s : Sys S D) : Prop :=
  ∀ d, remembered s.holder = some d → 0 < s.locks d

/-- What a careful call does: it trades dictionaries and keeps the object in order, and one
that is atomic changes no lock if it throws. -/
structure Orderly (remembered : S → Option D) (good : S → Prop) (atomic : Prop) (s : Sys S D)
    (ended : Except JavaException Unit × Sys S D) : Prop where
  trade : Trade (remembered s.holder) s.locks (remembered ended.2.holder) ended.2.locks
  good : good ended.2.holder
  throws : atomic → ∀ e, ended.1 = .error e → ended.2.locks = s.locks

/-- The careful calls of a class. -/
def HolderClass.Orderly (C : HolderClass S Op D) (remembered : S → Option D) (good : S → Prop)
    (atomic : Op → Prop) (careful : Sys S D → Op → Prop) : Prop :=
  ∀ s op, C.has s.holder op = true → good s.holder → Used remembered s → careful s op →
    Dict.Orderly remembered good (atomic op) s ((C.perform op).call s)

/-- The condition on an input: closing a dictionary has none. -/
def CarefulInput (careful : Sys S D → Op → Prop) (w : World H S D) : Input H Op D → Prop
  | .call h op => careful (w.sys h) op
  | .closeDict _ => True

variable [Fintype H]

/-- The locks count the objects that remember the dictionaries, and the objects are in
order. -/
structure InOrder (remembered : S → Option D) (good : S → Prop) (w : World H S D) : Prop where
  balanced : Balanced (fun h => weight (remembered (w.holders h))) w.locks
  good : ∀ h, good (w.holders h)

omit [DecidableEq H] in
theorem InOrder.used {w : World H S D} (h : InOrder remembered good w) (i : H) :
    Used remembered (w.sys i) := by
  intro d hd
  apply h.balanced.pos (i := i)
  exact weight_pos_iff.mpr hd

/-- The accounts after a call that is a trade. -/
theorem InOrder.put {w : World H S D} (h : InOrder remembered good w) (i : H) {s' : Sys S D}
    (htrade : Trade (remembered (w.holders i)) w.locks (remembered s'.holder) s'.locks)
    (hgood : good s'.holder) : InOrder remembered good (w.put i s') := by
  have hupdate : (fun j => weight (remembered ((w.put i s').holders j))) =
      Function.update (fun j => weight (remembered (w.holders j))) i
        (weight (remembered s'.holder)) := by
    funext j
    by_cases hj : j = i
    · subst hj
      simp [World.put]
    · simp [World.put, hj]
  constructor
  · rw [hupdate]
    apply h.balanced.update i
    · exact htrade.moved
    · intro d hneg
      exact htrade.weight_of_closed (h.used i) hneg
  · intro j
    by_cases hj : j = i
    · subst hj
      simpa [World.put] using hgood
    · simpa [World.put, hj] using h.good j

omit [DecidableEq H] in
/-- An attempt to close a dictionary, which only succeeds with one that nobody is counted
at. -/
theorem balanced_beginClose {held : H → D → ℕ} {locks : D → ℤ} (h : Balanced held locks) (d : D) :
    Balanced held (Function.update locks d (beginClose.call (locks d)).2) := by
  rcases beginClose_snd (locks d) with hsame | ⟨hzero, hclosed⟩
  · rw [hsame, Function.update_eq_self]
    exact h
  · rw [hclosed]
    exact h.close hzero

omit [DecidableEq H] in
/-- The accounts after an attempt to close a dictionary. -/
theorem InOrder.closeDict {w : World H S D} (h : InOrder remembered good w) (d : D) :
    InOrder remembered good
      { w with locks := Function.update w.locks d (beginClose.call (w.locks d)).2 } :=
  ⟨balanced_beginClose h.balanced d, h.good⟩

/-- A run whose calls are all careful keeps all accounts in order. -/
theorem InOrder.run (hclass : C.Orderly remembered good atomic careful) {w : World H S D}
    (h : InOrder remembered good w) {inputs : List (Input H Op D)}
    (hcareful : C.machine.AllSteps (CarefulInput careful) w inputs) :
    InOrder remembered good (C.machine.run w inputs).2 := by
  apply Machine.run_state_inv_of_allSteps (InOrder remembered good) _ h hcareful
  intro w input event next hw hinput hstep
  cases input with
  | call i op =>
      simp only [HolderClass.machine] at hstep
      split at hstep
      · next hhas =>
          have hends := hclass (w.sys i) op hhas (hw.good i) (hw.used i) hinput
          obtain ⟨-, rfl⟩ := Prod.mk.inj (Option.some.inj hstep)
          exact hw.put i hends.trade hends.good
      · cases hstep
  | closeDict d =>
      obtain ⟨-, rfl⟩ := Prod.mk.inj (Option.some.inj hstep)
      exact hw.closeDict d

/-- The number of open objects that remember a dictionary. -/
def World.users (isOpen : S → Bool) (remembered : S → Option D) (w : World H S D) (d : D) : ℕ :=
  (Finset.univ.filter fun h =>
    isOpen (w.holders h) = true ∧ remembered (w.holders h) = some d).card

/-- The lock of every open dictionary is the number of its users.  A careful atomic call that
throws changes no lock, and a dictionary without users can be closed. -/
structure Accounted (C : HolderClass S Op D) (isOpen : S → Bool) (remembered : S → Option D)
    (atomic : Op → Prop) (careful : Sys S D → Op → Prop) (w : World H S D) : Prop where
  locks : ∀ d, 0 ≤ w.locks d → w.locks d = w.users isOpen remembered d
  throws : ∀ h op e, C.has (w.holders h) op = true → atomic op → careful (w.sys h) op →
    ((C.perform op).call (w.sys h)).1 = .error e →
    ((C.perform op).call (w.sys h)).2.locks = w.locks
  closable : ∀ d, w.users isOpen remembered d = 0 →
    ∃ w', C.machine.step w (.closeDict d) = some (.ok (), w') ∧ w'.locks d = sharedLockClosed

omit [DecidableEq H] in
theorem users_eq {isOpen : S → Bool} {w : World H S D} (h : InOrder remembered good w)
    (hclosed : ∀ s, good s → isOpen s = false → remembered s = none) (d : D) :
    w.users isOpen remembered d = ∑ h, weight (remembered (w.holders h)) d := by
  rw [World.users, Finset.card_filter]
  apply Finset.sum_congr rfl
  intro i _
  unfold weight
  cases hopen : isOpen (w.holders i) with
  | true => simp
  | false => simp [hclosed _ (h.good i) hopen]

/-- New objects, and dictionaries that nobody uses. -/
def World.create (holders : H → S) : World H S D := ⟨holders, fun _ => 0⟩

omit [DecidableEq H] in
theorem InOrder.create {holders : H → S} (hgood : ∀ h, good (holders h))
    (hnone : ∀ h, remembered (holders h) = none) :
    InOrder remembered good (World.create holders : World H S D) where
  balanced := by
    have hheld : (fun h => weight (remembered (holders h)) : H → D → ℕ) = fun _ _ => 0 := by
      funext h d
      rw [hnone, weight_none]
    change Balanced (fun h => weight (remembered (holders h))) _
    rw [hheld]
    exact Balanced.zero
  good := hgood

theorem InOrder.accounted {isOpen : S → Bool} {w : World H S D} (h : InOrder remembered good w)
    (hclosed : ∀ s, good s → isOpen s = false → remembered s = none)
    (hclass : C.Orderly remembered good atomic careful) :
    Accounted C isOpen remembered atomic careful w where
  locks d hopen := by
    rw [users_eq h hclosed]
    rcases h.balanced d with ⟨hneg, -⟩ | hlock
    · omega
    · exact hlock
  throws i op e hhas hatomic hcareful herror :=
    (hclass (w.sys i) op hhas (h.good i) (h.used i) hcareful).throws hatomic e herror
  closable d husers := by
    rw [users_eq h hclosed] at husers
    have hlock : w.locks d = sharedLockClosed ∨ w.locks d = 0 := by
      rcases h.balanced d with ⟨hlock, -⟩ | hlock
      · exact Or.inl hlock
      · right
        rw [hlock, husers]
        rfl
    have hclose : ∃ closing, beginClose.call (w.locks d) = (.ok closing, sharedLockClosed) := by
      rcases hlock with hlock | hlock
      · exact ⟨false, by rw [hlock, beginClose_closed]⟩
      · exact ⟨true, by rw [hlock, beginClose_zero]⟩
    obtain ⟨closing, hclose⟩ := hclose
    refine ⟨{ w with locks := Function.update w.locks d sharedLockClosed }, ?_, ?_⟩
    · simp only [HolderClass.machine, hclose]
      rfl
    · simp

end Orderly

end ZstdJni.Dict
