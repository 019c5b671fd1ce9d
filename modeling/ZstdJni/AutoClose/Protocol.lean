/-
# Closing against using

The protocol of `AutoCloseBase`: the counter counts the users, closing succeeds only
without users, and a closed object is never used again.  The invariant says what each
thread may rely on at its place; a step changes the counter in three ways only.
-/

import ZstdJni.AutoClose.Model
import ZstdJni.Foundation.Count

namespace ZstdJni.AutoClose

open ZstdJni.Foundation ZstdJni.Native

variable {T : Type} [DecidableEq T] [Fintype T]

namespace Object

/-- The number of acquires that are not yet released. -/
def holders (o : Object T) : ℕ := ∑ t, o.holds t

end Object

/-- What a thread knows about the counter and its own acquires at its place. -/
def Pc.Fits (sharedLock : ℤ) (holds : ℕ) : Pc → Prop
  | .acquireSet seen => 0 ≤ seen ∧ seen < maxValue
  | .releaseRead => 0 < holds
  | .releaseSet seen => 0 < seen ∧ seen ≤ maxValue ∧ 0 < holds
  | .doClose => sharedLock = sharedLockClosed
  | _ => True

/-- The number of events of a kind. -/
def countOf (kind : Event) (events : List (T × Event)) : ℕ :=
  events.countP fun entry => entry.2 = kind

/-- What holds after every sequence of steps. -/
structure Inv (events : List (T × Event)) (o : Object T) : Prop where
  lock : o.sharedLock = sharedLockClosed ∧ o.holders = 0 ∨
    o.sharedLock = o.holders ∧ o.sharedLock ≤ maxValue
  fits : ∀ t, (o.pc t).Fits o.sharedLock (o.holds t)
  acquires : countOf .acquired events = countOf .released events + o.holders
  closes : countOf .doCloseStarted events = if o.sharedLock = sharedLockClosed then 1 else 0

/-- What a step of thread `t` does to the counter. -/
inductive Changes (o : Object T) (t : T) : Event → Object T → Prop
  | none {event : Event} {o' : Object T} (pc : Pc)
      (hevent : event ≠ .acquired ∧ event ≠ .released ∧ event ≠ .doCloseStarted)
      (hpc : o'.pc = Function.update o.pc t pc) (hfits : pc.Fits o.sharedLock (o.holds t))
      (hlock : o'.sharedLock = o.sharedLock) (hholds : o'.holds = o.holds) :
      Changes o t event o'
  | acquire {o' : Object T} (hopen : 0 ≤ o.sharedLock) (hroom : o.sharedLock < maxValue)
      (hpc : o'.pc = Function.update o.pc t .outside) (hlock : o'.sharedLock = o.sharedLock + 1)
      (hholds : o'.holds = Function.update o.holds t (o.holds t + 1)) : Changes o t .acquired o'
  | release {o' : Object T} (hused : 0 < o.sharedLock) (hown : 0 < o.holds t)
      (hpc : o'.pc = Function.update o.pc t .outside) (hlock : o'.sharedLock = o.sharedLock - 1)
      (hholds : o'.holds = Function.update o.holds t (o.holds t - 1)) : Changes o t .released o'
  | start {o' : Object T} (hunused : o.sharedLock = 0)
      (hpc : o'.pc = Function.update o.pc t .doClose) (hlock : o'.sharedLock = sharedLockClosed)
      (hholds : o'.holds = o.holds) : Changes o t .doCloseStarted o'

section Step

variable {events : List (T × Event)} {o o' : Object T} {t : T} {choice : Choice} {event : Event}

theorem addInt_succ {value : ℤ} (hlow : 0 ≤ value) (hhigh : value < maxValue) :
    addInt value 1 = value + 1 :=
  addInt_of_lt (by omega) (by unfold maxValue at hhigh; omega)

theorem addInt_pred {value : ℤ} (hlow : 0 < value) (hhigh : value ≤ maxValue) :
    addInt value (-1) = value - 1 :=
  addInt_of_lt (by omega) (by unfold maxValue at hhigh; omega)

omit [Fintype T] in
/-- A thread that only moves on. -/
theorem changes_goto (pc : Pc)
    (hevent : event ≠ .acquired ∧ event ≠ .released ∧ event ≠ .doCloseStarted)
    (hfits : pc.Fits o.sharedLock (o.holds t)) : Changes o t event (o.goto t pc) :=
  .none pc hevent rfl hfits rfl rfl

omit [DecidableEq T] in
/-- A thread that holds something finds the object open and in use. -/
theorem Inv.pos_of_holds (hinv : Inv events o) (hown : 0 < o.holds t) : 0 < o.sharedLock := by
  have hle : o.holds t ≤ o.holders := le_sum o.holds t
  rcases hinv.lock with ⟨-, hnone⟩ | ⟨hlock, -⟩ <;> omega

/-- Every step changes the counter in one of the three ways, or not at all. -/
theorem changes_of_step (hinv : Inv events o) (hstep : o.step t choice = some (event, o')) :
    Changes o t event o' := by
  have hfits := hinv.fits t
  have hbound : o.sharedLock ≤ maxValue := by
    rcases hinv.lock with ⟨hlock, -⟩ | ⟨-, hle⟩
    · rw [hlock]
      decide
    · exact hle
  unfold Object.step at hstep
  cases hpc : o.pc t with
  | outside =>
      rw [hpc] at hstep
      cases choice with
      | acquire =>
          obtain ⟨rfl, rfl⟩ : .internal = event ∧ o.goto t .acquireRead = o' := by
            simpa [Object.call] using hstep
          exact changes_goto _ (by simp) trivial
      | release =>
          by_cases hown : 0 < o.holds t
          · obtain ⟨rfl, rfl⟩ : .internal = event ∧ o.goto t .releaseRead = o' := by
              simpa [Object.call, hown] using hstep
            exact changes_goto _ (by simp) hown
          · simp [Object.call, hown] at hstep
      | close =>
          obtain ⟨rfl, rfl⟩ : .internal = event ∧ o.goto t .closeEnter = o' := by
            simpa [Object.call] using hstep
          exact changes_goto _ (by simp) trivial
      | doCloseEnds outcome => simp [Object.call] at hstep
  | acquireRead =>
      simp only [hpc] at hstep
      split_ifs at hstep with hclosed hfull <;> obtain ⟨rfl, rfl⟩ :=
        Prod.mk.inj (Option.some.inj hstep)
      · exact changes_goto _ (by simp) trivial
      · exact changes_goto _ (by simp) trivial
      · exact changes_goto _ (by simp) ⟨by omega, by omega⟩
  | acquireSet seen =>
      simp only [hpc] at hstep
      rw [hpc] at hfits
      split_ifs at hstep with hseen <;> obtain ⟨rfl, rfl⟩ := Prod.mk.inj (Option.some.inj hstep)
      · subst hseen
        exact .acquire hfits.1 hfits.2 rfl (addInt_succ hfits.1 hfits.2) rfl
      · exact changes_goto _ (by simp) trivial
  | releaseRead =>
      simp only [hpc] at hstep
      rw [hpc] at hfits
      split_ifs at hstep with hclosed hunused <;>
        obtain ⟨rfl, rfl⟩ := Prod.mk.inj (Option.some.inj hstep)
      · exact changes_goto _ (by simp) trivial
      · exact changes_goto _ (by simp) trivial
      · exact changes_goto _ (by simp) ⟨by omega, hbound, hfits⟩
  | releaseSet seen =>
      simp only [hpc] at hstep
      rw [hpc] at hfits
      split_ifs at hstep with hseen <;> obtain ⟨rfl, rfl⟩ := Prod.mk.inj (Option.some.inj hstep)
      · subst hseen
        exact .release hfits.1 hfits.2.2 rfl (addInt_pred hfits.1 hfits.2.1) rfl
      · exact changes_goto _ (by simp) hfits.2.2
  | closeEnter =>
      simp only [hpc] at hstep
      cases hmonitor : o.monitor with
      | none =>
          simp only [hmonitor] at hstep
          obtain ⟨rfl, rfl⟩ := Prod.mk.inj (Option.some.inj hstep)
          exact .none .closeRead (by simp) rfl trivial rfl rfl
      | some owner => simp [hmonitor] at hstep
  | closeRead =>
      simp only [hpc] at hstep
      split_ifs at hstep <;> obtain ⟨rfl, rfl⟩ := Prod.mk.inj (Option.some.inj hstep)
      · exact changes_goto _ (by simp) trivial
      · exact changes_goto _ (by simp) trivial
  | closeSet =>
      simp only [hpc] at hstep
      split_ifs at hstep with hunused <;> obtain ⟨rfl, rfl⟩ := Prod.mk.inj (Option.some.inj hstep)
      · exact .start hunused rfl rfl rfl
      · exact changes_goto _ (by simp) trivial
  | doClose =>
      cases choice with
      | doCloseEnds outcome =>
          simp only [hpc] at hstep
          obtain ⟨rfl, rfl⟩ := Prod.mk.inj (Option.some.inj hstep)
          exact changes_goto _ (by simp) trivial
      | acquire => simp [hpc] at hstep
      | release => simp [hpc] at hstep
      | close => simp [hpc] at hstep
  | closeExit outcome =>
      simp only [hpc] at hstep
      cases outcome with
      | returned value =>
          obtain ⟨rfl, rfl⟩ := Prod.mk.inj (Option.some.inj hstep)
          exact .none .outside (by simp) rfl trivial rfl rfl
      | threw e =>
          obtain ⟨rfl, rfl⟩ := Prod.mk.inj (Option.some.inj hstep)
          exact .none .outside (by simp) rfl trivial rfl rfl

omit [Fintype T] in
/-- What the other threads know stays true when the counter changes while the object is
open, or becomes the mark of a closed object. -/
theorem fits_update {pc : T → Pc} {pc' : Pc} {holds : T → ℕ} {lock lock' : ℤ} {count : ℕ}
    (hfits : ∀ t, (pc t).Fits lock (holds t)) (hown : pc'.Fits lock' count)
    (hlock : lock = sharedLockClosed → lock' = sharedLockClosed) (other : T) :
    (Function.update pc t pc' other).Fits lock' (Function.update holds t count other) := by
  by_cases hother : other = t
  · subst hother
    simpa using hown
  · rw [Function.update_of_ne hother, Function.update_of_ne hother]
    have hold := hfits other
    cases hpc : pc other <;> simp only [hpc, Pc.Fits] at hold ⊢ <;> first | exact hold |
      exact hlock hold

/-- Every step keeps the invariant. -/
theorem inv_of_changes (hinv : Inv events o) (hchanges : Changes o t event o') :
    Inv (events ++ [(t, event)]) o' := by
  have hcount (kind : Event) : countOf kind (events ++ [(t, event)]) =
      countOf kind events + if event = kind then 1 else 0 := by
    simp [countOf, List.countP_append, List.countP_cons]
  obtain ⟨hlocked, hfits, hacquires, hcloses⟩ := hinv
  have hmark : sharedLockClosed = -1 := rfl
  have hother : Pc.Fits o'.sharedLock (o'.holds t) .outside := trivial
  cases hchanges with
  | none pc hevent hpc hown hlock hholds =>
      have hholders : o'.holders = o.holders := by rw [Object.holders, hholds, Object.holders]
      refine ⟨by rwa [hlock, hholders], ?_, ?_, ?_⟩
      · intro other
        have hsame := fits_update (t := t) hfits hown (fun h => h) other
        rwa [Function.update_eq_self, ← hpc, ← hlock, ← hholds] at hsame
      · rw [hcount, hcount, if_neg hevent.1, if_neg hevent.2.1, hholders, hacquires]
        omega
      · rw [hcount, if_neg hevent.2.2, hlock, hcloses, Nat.add_zero]
  | acquire hopen hroom hpc hlock hholds =>
      have hsum : o'.holders = o.holders + 1 := by
        have := sum_update_add o.holds t (o.holds t + 1)
        rw [← hholds] at this
        unfold Object.holders
        omega
      refine ⟨?_, ?_, ?_, ?_⟩
      · rcases hlocked with ⟨hclosed, -⟩ | ⟨hopened, hle⟩ <;> omega
      · intro other
        have hsame := fits_update (t := t) hfits hother (by omega) other
        rwa [← hpc, hholds, Function.update_self, ← hholds] at hsame
      · rw [hcount, hcount, hsum, hacquires]
        simp only [if_true, reduceCtorEq, if_false]
        omega
      · rw [hcount, hcloses, if_neg (show o.sharedLock ≠ sharedLockClosed by omega),
          if_neg (show o'.sharedLock ≠ sharedLockClosed by omega), if_neg (by simp)]
  | release hused hown hpc hlock hholds =>
      have hsum : o'.holders + 1 = o.holders := by
        have := sum_update_add o.holds t (o.holds t - 1)
        rw [← hholds] at this
        unfold Object.holders
        omega
      refine ⟨?_, ?_, ?_, ?_⟩
      · rcases hlocked with ⟨hclosed, -⟩ | ⟨hopened, hle⟩ <;> omega
      · intro other
        have hsame := fits_update (t := t) hfits hother (by omega) other
        rwa [← hpc, hholds, Function.update_self, ← hholds] at hsame
      · rw [hcount, hcount, hacquires]
        simp only [if_true, reduceCtorEq, if_false]
        omega
      · rw [hcount, hcloses, if_neg (show o.sharedLock ≠ sharedLockClosed by omega),
          if_neg (show o'.sharedLock ≠ sharedLockClosed by omega), if_neg (by simp)]
  | start hunused hpc hlock hholds =>
      have hholders : o'.holders = o.holders := by rw [Object.holders, hholds, Object.holders]
      refine ⟨?_, ?_, ?_, ?_⟩
      · rcases hlocked with ⟨hclosed, -⟩ | ⟨hopened, hle⟩ <;> omega
      · intro other
        have hown : Pc.Fits o'.sharedLock (o.holds t) .doClose := hlock
        have hsame := fits_update (t := t) hfits hown (fun _ => hlock) other
        rwa [Function.update_eq_self, ← hpc, ← hholds] at hsame
      · rw [hcount, hcount, hholders, hacquires]
        simp
      · rw [hcount, hcloses, hlock, if_neg (by omega), if_pos rfl, if_pos rfl]

end Step

/-- The invariant holds after every run. -/
theorem inv_run (inputs : List (T × Choice)) :
    Inv ((machine T).run Object.create inputs).1 ((machine T).run Object.create inputs).2 := by
  refine Machine.run_inv Inv (fun events o input event next hinv hstep => ?_) ?_ inputs
  · obtain ⟨taken, htaken, hnext⟩ := Option.map_eq_some_iff.mp hstep
    obtain ⟨rfl, rfl⟩ := Prod.mk.inj hnext
    exact inv_of_changes hinv (changes_of_step hinv htaken)
  · refine ⟨.inr ⟨?_, show (0 : ℤ) ≤ maxValue by decide⟩, fun _ => trivial, ?_, rfl⟩ <;>
      simp [Object.holders, Object.create, countOf]

/-- What the protocol promises about a state. -/
structure Sound (events : List (T × Event)) (o : Object T) : Prop where
  /-- The counter is the mark of a closed object or the number of users. -/
  lock : o.sharedLock = sharedLockClosed ∨
    o.sharedLock = countOf .acquired events - countOf .released events
  bounded : o.sharedLock ≤ maxValue
  unused : o.sharedLock = sharedLockClosed → o.holders = 0
  once : countOf .doCloseStarted events ≤ 1
  started_iff : countOf .doCloseStarted events = 1 ↔ o.sharedLock = sharedLockClosed
  /-- Nobody holds the object while it is being closed. -/
  exclusive : ∀ t, o.pc t = .doClose → o.holders = 0

/-- What the protocol promises about a step of thread `t`. -/
structure SoundStep (o : Object T) (t : T) (event : Event) (o' : Object T) : Prop where
  start : event = .doCloseStarted → o.holders = 0
  stays_closed : o.sharedLock = sharedLockClosed →
    event ≠ .acquired ∧ o'.sharedLock = sharedLockClosed ∧ o'.holders = 0
  acquire_throws : o.sharedLock = sharedLockClosed → o.pc t = .acquireRead →
    event = .threw (.illegalState "Closed")
  acquire_retries : o.sharedLock = sharedLockClosed → ∀ seen, o.pc t = .acquireSet seen →
    o' = o.goto t .acquireRead
  close_refused : 0 < o.holders → o.pc t = .closeSet →
    o' = o.goto t (.closeExit (.threw (.illegalState "Attempt to close while in use")))
  release_returns : o.pc t = .releaseRead ∨ (∃ seen, o.pc t = .releaseSet seen) →
    ∀ e, event ≠ .threw e

omit [DecidableEq T] in
theorem Inv.sound {events : List (T × Event)} {o : Object T} (hinv : Inv events o) :
    Sound events o := by
  obtain ⟨hlock, hfits, hacquires, hcloses⟩ := hinv
  have hmark : sharedLockClosed = -1 := rfl
  refine ⟨?_, ?_, ?_, ?_, ?_, ?_⟩
  · rcases hlock with ⟨hclosed, -⟩ | ⟨hopened, -⟩
    · exact .inl hclosed
    · exact .inr (by omega)
  · rcases hlock with ⟨hclosed, -⟩ | ⟨-, hle⟩
    · rw [hclosed]
      decide
    · exact hle
  · intro hclosed
    rcases hlock with ⟨-, hnone⟩ | ⟨hopened, -⟩ <;> omega
  · rw [hcloses]
    split_ifs <;> omega
  · rw [hcloses]
    split_ifs with hclosed <;> simp [hclosed]
  · intro t hpc
    have hclosed := hfits t
    rw [hpc] at hclosed
    change o.sharedLock = sharedLockClosed at hclosed
    rcases hlock with ⟨-, hnone⟩ | ⟨hopened, -⟩ <;> omega

theorem Inv.soundStep {events : List (T × Event)} {o o' : Object T} {t : T} {choice : Choice}
    {event : Event} (hinv : Inv events o) (hstep : o.step t choice = some (event, o')) :
    SoundStep o t event o' := by
  have hmark : sharedLockClosed = -1 := rfl
  have hchanges := changes_of_step hinv hstep
  have hafter := (inv_of_changes hinv hchanges).sound
  have hfits := hinv.fits t
  refine ⟨?_, ?_, ?_, ?_, ?_, ?_⟩
  · rintro rfl
    cases hchanges with
    | none pc hevent => exact absurd rfl hevent.2.2
    | start hunused => rcases hinv.lock with ⟨hclosed, -⟩ | ⟨hopened, -⟩ <;> omega
  · intro hclosed
    have hstays : event ≠ .acquired ∧ o'.sharedLock = sharedLockClosed := by
      cases hchanges with
      | none pc hevent hpc hown hlock => exact ⟨hevent.1, by omega⟩
      | acquire hopen => omega
      | release hused => omega
      | start hunused => omega
    exact ⟨hstays.1, hstays.2, hafter.unused hstays.2⟩
  · intro hclosed hpc
    have hnegative : o.sharedLock < 0 := by omega
    simp only [Object.step, hpc, hnegative, if_true, Option.some.injEq, Prod.mk.injEq] at hstep
    exact hstep.1.symm
  · intro hclosed seen hpc
    rw [hpc] at hfits
    have hchanged : o.sharedLock ≠ seen := by
      have hopen := hfits.1
      omega
    simp only [Object.step, hpc, hchanged, if_false, Option.some.injEq, Prod.mk.injEq] at hstep
    exact hstep.2.symm
  · intro hused hpc
    have hlock : o.sharedLock ≠ 0 := by
      rcases hinv.lock with ⟨-, hnone⟩ | ⟨hopened, -⟩ <;> omega
    simp only [Object.step, hpc, hlock, if_false, Option.some.injEq, Prod.mk.injEq] at hstep
    exact hstep.2.symm
  · rintro (hpc | ⟨seen, hpc⟩) e rfl
    · rw [hpc] at hfits
      have hpositive := hinv.pos_of_holds hfits
      have hopen : ¬ o.sharedLock < 0 := by omega
      have hused : o.sharedLock ≠ 0 := by omega
      simp [Object.step, hpc, hopen, hused] at hstep
    · simp only [Object.step, hpc] at hstep
      split_ifs at hstep <;> simp at hstep

/-- `AutoCloseBase` is a correct protocol of closing against using: after every
interleaving of the atomic actions of any number of threads, and at every next one. -/
theorem sound_of_interleaving (inputs : List (T × Choice)) :
    Sound ((machine T).run Object.create inputs).1 ((machine T).run Object.create inputs).2 ∧
      ∀ t choice event next,
        ((machine T).run Object.create inputs).2.step t choice = some (event, next) →
        SoundStep ((machine T).run Object.create inputs).2 t event next :=
  ⟨(inv_run inputs).sound, fun _ _ _ _ hstep => (inv_run inputs).soundStep hstep⟩

end ZstdJni.AutoClose
