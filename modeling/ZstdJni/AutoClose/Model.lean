/-
# `AutoCloseBase`

The object that every context and dictionary inherits from: a counter of its users that
is changed by compare-and-set, and a `close` under the monitor of the object.  Any number
of threads run the three methods; a step of a thread is one atomic action, a volatile
read, a compare-and-set, or the entry or exit of the synchronized block.

A thread releases only what it has acquired.  What the counter is for, the number of
acquires of each thread that are not yet released, is kept beside the object.
-/

import ZstdJni.Foundation.Machine
import ZstdJni.Native.Result

namespace ZstdJni.AutoClose

open ZstdJni.Foundation ZstdJni.Native

/-- `SHARED_LOCK_CLOSED`. -/
def sharedLockClosed : ℤ := -1

/-- `Integer.MAX_VALUE`. -/
def maxValue : ℤ := 2 ^ 31 - 1

/-- Where a thread stands: outside of the methods, or in front of an atomic action of one
of them, with the value it has read. -/
inductive Pc
  | outside
  | acquireRead
  | acquireSet (sharedLock : ℤ)
  | releaseRead
  | releaseSet (sharedLock : ℤ)
  | closeEnter
  | closeRead
  | closeSet
  | doClose
  | closeExit (outcome : Outcome Unit)
  deriving DecidableEq

/-- What a step shows. -/
inductive Event
  | internal
  | acquired
  | released
  | threw (exception : JavaException)
  | doCloseStarted
  | closed
  deriving DecidableEq

/-- The method that a thread outside is to call; for a thread in `doClose`, how that
ends. -/
inductive Choice
  | acquire
  | release
  | close
  | doCloseEnds (outcome : Outcome Unit)

/-- The object, where its threads stand, and how many acquires each of them has not yet
released. -/
structure Object (T : Type) where
  sharedLock : ℤ
  monitor : Option T
  pc : T → Pc
  holds : T → ℕ

namespace Object

variable {T : Type} [DecidableEq T]

/-- The object after its construction. -/
def create : Object T where
  sharedLock := 0
  monitor := none
  pc _ := .outside
  holds _ := 0

/-- Thread `t` goes to another place. -/
def goto (o : Object T) (t : T) (pc : Pc) : Object T :=
  { o with pc := Function.update o.pc t pc }

/-- A thread outside calls a method. -/
def call (o : Object T) (t : T) : Choice → Option (Event × Object T)
  | .acquire => some (.internal, o.goto t .acquireRead)
  | .release => if 0 < o.holds t then some (.internal, o.goto t .releaseRead) else none
  | .close => some (.internal, o.goto t .closeEnter)
  | .doCloseEnds _ => none

/-- One atomic action of thread `t`. -/
def step (o : Object T) (t : T) (choice : Choice) : Option (Event × Object T) :=
  match o.pc t with
  | .outside => o.call t choice
  | .acquireRead =>
    if o.sharedLock < 0 then some (.threw (.illegalState "Closed"), o.goto t .outside)
    else if o.sharedLock = maxValue then
      some (.threw (.illegalState "Shared lock overflow"), o.goto t .outside)
    else some (.internal, o.goto t (.acquireSet o.sharedLock))
  | .acquireSet sharedLock =>
    if o.sharedLock = sharedLock then
      some (.acquired,
        { o.goto t .outside with
          sharedLock := addInt sharedLock 1
          holds := Function.update o.holds t (o.holds t + 1) })
    else some (.internal, o.goto t .acquireRead)
  | .releaseRead =>
    if o.sharedLock < 0 then some (.threw (.illegalState "Closed"), o.goto t .outside)
    else if o.sharedLock = 0 then
      some (.threw (.illegalState "Shared lock underflow"), o.goto t .outside)
    else some (.internal, o.goto t (.releaseSet o.sharedLock))
  | .releaseSet sharedLock =>
    if o.sharedLock = sharedLock then
      some (.released,
        { o.goto t .outside with
          sharedLock := addInt sharedLock (-1)
          holds := Function.update o.holds t (o.holds t - 1) })
    else some (.internal, o.goto t .releaseRead)
  | .closeEnter =>
    match o.monitor with
    | none => some (.internal, { o.goto t .closeRead with monitor := some t })
    | some _ => none
  | .closeRead =>
    if o.sharedLock = sharedLockClosed then
      some (.internal, o.goto t (.closeExit (.returned ())))
    else some (.internal, o.goto t .closeSet)
  | .closeSet =>
    if o.sharedLock = 0 then
      some (.doCloseStarted, { o.goto t .doClose with sharedLock := sharedLockClosed })
    else
      some (.internal,
        o.goto t (.closeExit (.threw (.illegalState "Attempt to close while in use"))))
  | .doClose =>
    match choice with
    | .doCloseEnds outcome => some (.internal, o.goto t (.closeExit outcome))
    | _ => none
  | .closeExit outcome =>
    match outcome with
    | .returned _ => some (.closed, { o.goto t .outside with monitor := none })
    | .threw e => some (.threw e, { o.goto t .outside with monitor := none })

end Object

/-- The machine of one object and its threads: an input is a thread with its choice. -/
def machine (T : Type) [DecidableEq T] : Machine (Object T) (T × Choice) (T × Event) where
  step o input := (o.step input.1 input.2).map fun taken => ((input.1, taken.1), taken.2)

end ZstdJni.AutoClose
