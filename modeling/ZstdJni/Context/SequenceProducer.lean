/-
# External sequence producers

`registerSequenceProducer` frees the state of the producer that was registered before,
creates a state with the new one, asks it for its function and tells the native context.
The producer is code of the caller, and each of its three methods may throw; a `catch`
clears the registration, but only for an `Exception`, and it does not free what was created.

The context keeps the pointer to the state in the parameters that a frame is started with,
and a frame that is open works with its own copy of them.  States are told apart by the
call of `createState` that returned them, the pointers that a producer makes them known by
may come back once a state is freed.
-/

import ZstdJni.Foundation.Machine
import ZstdJni.Native.Result

namespace ZstdJni.Context.SequenceProducer

open ZstdJni.Foundation ZstdJni.Native

/-- How a method of a producer ends. -/
inductive Answer (α : Type)
  | returns (value : α)
  | throws (fatal : Bool)

/-- The fields of a `ZstdCompressCtx` and of its native context that registrations are
about, and the calls made to producers so far. -/
structure State (P : Type) where
  /-- `nativePtr != 0`. -/
  isOpen : Bool
  seqprod : Option P
  seqprodState : ℕ
  /-- `requestedParams.extSeqProdState`, if `extSeqProdFunc` is set. -/
  requested : Option ℕ
  /-- The same of `appliedParams`, while a frame is open. -/
  frame : Option (Option ℕ)
  /-- The producers whose `createState` has returned, in the order of the calls. -/
  created : List P
  /-- The calls of `freeState`. -/
  freed : List (P × ℕ)

namespace State

variable {P : Type}

/-- A new context. -/
def init : State P := ⟨true, none, 0, none, none, [], []⟩

/-- A method of the context has thrown what a producer threw. -/
def thrown (fatal : Bool) : Outcome Unit := .threw (.callback fatal)

/-- `ZSTD_registerSequenceProducer`. -/
def zstdRegisterSequenceProducer (state function : ℕ) (st : State P) : State P :=
  { st with requested := if function ≠ 0 then some state else none }

/-- The first statement of `registerSequenceProducer`. -/
def freeRegistered (freeState : Answer Unit) (st : State P) : Option Bool × State P :=
  match st.seqprod with
  | none => (none, st)
  | some producer =>
    match freeState with
    | .throws fatal =>
      (some fatal, { st with freed := st.freed ++ [(producer, st.seqprodState)] })
    | .returns _ =>
      (none, { st with freed := st.freed ++ [(producer, st.seqprodState)], seqprod := none })

/-- The second statement of `registerSequenceProducer`. -/
def registerNew (producer : Option P) (createState : Answer Unit) (getFunctionPointer : Answer ℕ)
    (st : State P) : Option Bool × State P :=
  match producer with
  | none => (none, st.zstdRegisterSequenceProducer 0 0)
  | some producer =>
    match createState with
    | .throws fatal => (some fatal, st)
    | .returns _ =>
      let st := { st with created := st.created ++ [producer], seqprodState := st.created.length }
      match getFunctionPointer with
      | .throws fatal => (some fatal, st)
      | .returns function =>
        (none, { st.zstdRegisterSequenceProducer st.seqprodState function with
          seqprod := some producer })

/-- The `try` of `registerSequenceProducer`: what it throws, if it throws. -/
def registerBody (producer : Option P) (freeState createState : Answer Unit)
    (getFunctionPointer : Answer ℕ) (st : State P) : Option Bool × State P :=
  match st.freeRegistered freeState with
  | (some fatal, st) => (some fatal, st)
  | (none, st) => st.registerNew producer createState getFunctionPointer

/-- `registerSequenceProducer` on an open context.  An `Error` passes the `catch` by. -/
def registerSequenceProducer (producer : Option P) (freeState createState : Answer Unit)
    (getFunctionPointer : Answer ℕ) (st : State P) : Outcome Unit × State P :=
  match st.registerBody producer freeState createState getFunctionPointer with
  | (none, st) => (.returned (), st)
  | (some true, st) => (thrown true, st)
  | (some false, st) =>
    (thrown false, { st with seqprod := none }.zstdRegisterSequenceProducer 0 0)

/-- `ZSTD_CCtx_reset` of the session and the parameters. -/
def reset (st : State P) : State P := { st with requested := none, frame := none }

/-- A call that compresses: it goes on with the frame that is open, or starts a new one, and
leaves it open or not.  A one-shot call resets the session first. -/
def compress (oneShot leavesOpen : Bool) (st : State P) : State P :=
  let applied := if oneShot then st.requested else st.frame.getD st.requested
  { st with frame := if leavesOpen then some applied else none }

/-- `doClose`.  A producer that throws remains in the field, which nothing reads again. -/
def doClose (freeState : Answer Unit) (st : State P) : Outcome Unit × State P :=
  let st := { st with isOpen := false, requested := none, frame := none }
  match st.seqprod with
  | none => (.returned (), st)
  | some producer =>
    let st := { st with freed := st.freed ++ [(producer, st.seqprodState)] }
    match freeState with
    | .throws fatal => (thrown fatal, st)
    | .returns _ => (.returned (), { st with seqprod := none })

end State

/-- An operation on the context, with the answers of the producers it calls. -/
inductive Op (P : Type)
  | register (producer : Option P) (freeState createState : Answer Unit)
      (getFunctionPointer : Answer ℕ)
  | reset
  | compress (oneShot leavesOpen : Bool)
  | close (freeState : Answer Unit)

variable {P : Type}

/-- What `ensureOpen` throws. -/
def closedContext : JavaException := .illegalState "Compression context is closed"

/-- The context under any sequence of operations.  A second `close()` does nothing, the
other operations need an open context. -/
def machine (P : Type) : Machine (State P) (Op P) (Outcome Unit) where
  step st op :=
    if st.isOpen then
      match op with
      | .register producer freeState createState getFunctionPointer =>
        some (st.registerSequenceProducer producer freeState createState getFunctionPointer)
      | .reset => some (.returned (), st.reset)
      | .compress oneShot leavesOpen => some (.returned (), st.compress oneShot leavesOpen)
      | .close freeState => some (st.doClose freeState)
    else
      match op with
      | .close _ => some (.returned (), st)
      | _ => some (.threw closedContext, st)

/-- The context after a sequence of operations. -/
def after (ops : List (Op P)) : State P := ((machine P).run State.init ops).2

/-- A state was returned by `createState` and has not been passed to `freeState`. -/
def Live (st : State P) (state : ℕ) : Prop :=
  state < st.created.length ∧ state ∉ st.freed.map Prod.snd

/-- No state is leaked, freed twice or used after it was freed. -/
structure Sound (st : State P) : Prop where
  registered : ∀ state, st.requested = some state → Live st state
  inFrame : ∀ state, st.frame = some (some state) → Live st state
  once : (st.freed.map Prod.snd).Nodup
  closed : st.isOpen = false → ∀ (state : ℕ) (producer : P),
    st.created[state]? = some producer → (producer, state) ∈ st.freed

/-- A registration that goes well: no frame works with a state of a producer, and of the
methods that are called `freeState` throws no `Error`, `createState` throws one only if
no state is registered, and `getFunctionPointer` throws nothing once a state was created. -/
structure Careful (producer : Option P) (freeState createState : Answer Unit)
    (getFunctionPointer : Answer ℕ) (st : State P) : Prop where
  no_frame : ∀ state, st.frame ≠ some (some state)
  free_ok : st.seqprod ≠ none → freeState ≠ .throws true
  create_ok : producer ≠ none → (st.freeRegistered freeState).1 = none →
    createState = .throws true → st.requested = none
  function_ok : producer ≠ none → (st.freeRegistered freeState).1 = none →
    createState = .returns () → ∃ function, getFunctionPointer = .returns function

/-- The condition on an operation: only registrations on an open context have one. -/
def CarefulOp (st : State P) : Op P → Prop
  | .register producer freeState createState getFunctionPointer =>
    st.isOpen = true → Careful producer freeState createState getFunctionPointer st
  | _ => True

/-- Every state that was created is either freed, once, or the one that is held. -/
structure Account (created : List P) (freed : List (P × ℕ)) (held : Option (P × ℕ)) : Prop where
  once : (freed.map Prod.snd).Nodup
  lt : ∀ state ∈ freed.map Prod.snd, state < created.length
  held_created : ∀ producer state, held = some (producer, state) →
    created[state]? = some producer ∧ state ∉ freed.map Prod.snd
  rest : ∀ (state : ℕ) (producer : P), created[state]? = some producer →
    (producer, state) ∈ freed ∨ held = some (producer, state)

namespace Account

variable {created : List P} {freed : List (P × ℕ)}

theorem empty : Account ([] : List P) [] none where
  once := List.nodup_nil
  lt := by simp
  held_created := by simp
  rest := by simp

/-- Freeing what is held. -/
theorem free {producer : P} {state : ℕ} (h : Account created freed (some (producer, state))) :
    Account created (freed ++ [(producer, state)]) none := by
  obtain ⟨hcreated, hfresh⟩ := h.held_created producer state rfl
  have hlt : state < created.length := by
    apply (List.getElem?_eq_some_iff.mp hcreated).1
  constructor
  · rw [List.map_append, List.nodup_append]
    refine ⟨h.once, by simp, ?_⟩
    intro first hfirst second hsecond heq
    rw [List.map_singleton, List.mem_singleton] at hsecond
    apply hfresh
    rwa [heq, hsecond] at hfirst
  · intro other hother
    rw [List.map_append, List.mem_append, List.map_singleton, List.mem_singleton] at hother
    rcases hother with hold | hnew
    · exact h.lt other hold
    · rwa [hnew]
  · intro _ _ hheld
    cases hheld
  · intro other owner howner
    left
    rw [List.mem_append, List.mem_singleton]
    rcases h.rest other owner howner with hold | hnew
    · exact Or.inl hold
    · exact Or.inr (Option.some.inj hnew).symm

/-- Creating a state when none is held. -/
theorem create (h : Account created freed none) (producer : P) :
    Account (created ++ [producer]) freed (some (producer, created.length)) := by
  constructor
  · exact h.once
  · intro state hstate
    have hlt := h.lt state hstate
    simp only [List.length_append, List.length_singleton]
    omega
  · intro owner state hheld
    cases hheld
    refine ⟨by simp, fun hmem => ?_⟩
    exact Nat.lt_irrefl _ (h.lt _ hmem)
  · intro state owner howner
    rw [List.getElem?_append] at howner
    split at howner
    · left
      simpa using h.rest state owner howner
    · next hge =>
        right
        obtain ⟨hlt, hget⟩ := List.getElem?_eq_some_iff.mp howner
        simp only [List.length_singleton, List.getElem_singleton] at hlt hget
        have hlast : state = created.length := by omega
        rw [hlast, hget]

end Account

namespace State

/-- The state that a context has to free. -/
def held (st : State P) : Option (P × ℕ) :=
  if st.isOpen then st.seqprod.map fun producer => (producer, st.seqprodState) else none

end State

/-- The account is right, and the native context knows of no state but the one that is held. -/
structure Good (st : State P) : Prop where
  account : Account st.created st.freed st.held
  requested : ∀ state, st.requested = some state → ∃ producer, st.held = some (producer, state)
  frame : ∀ state, st.frame = some (some state) → ∃ producer, st.held = some (producer, state)

namespace Good

variable {st : State P}

theorem init : Good (State.init : State P) where
  account := Account.empty
  requested := by simp [State.init]
  frame := by simp [State.init]

theorem live (h : Good st) {producer : P} {state : ℕ} (hheld : st.held = some (producer, state)) :
    Live st state := by
  obtain ⟨hcreated, hfresh⟩ := h.account.held_created producer state hheld
  exact ⟨(List.getElem?_eq_some_iff.mp hcreated).1, hfresh⟩

theorem sound (h : Good st) : Sound st where
  registered state hstate := by
    obtain ⟨producer, hheld⟩ := h.requested state hstate
    exact h.live hheld
  inFrame state hstate := by
    obtain ⟨producer, hheld⟩ := h.frame state hstate
    exact h.live hheld
  once := h.account.once
  closed hclosed state producer hcreated := by
    have hnone : st.held = none := by simp [State.held, hclosed]
    rcases h.account.rest state producer hcreated with hfreed | hheld
    · exact hfreed
    · rw [hnone] at hheld
      cases hheld

/-- Nothing is held and nothing is known to the native context. -/
theorem of_released (haccount : Account st.created st.freed none) (hheld : st.held = none)
    (hrequested : st.requested = none) (hframe : ∀ state, st.frame ≠ some (some state)) :
    Good st where
  account := by rwa [hheld]
  requested state hstate := by
    rw [hrequested] at hstate
    cases hstate
  frame state hstate := absurd hstate (hframe state)

theorem reset (h : Good st) : Good st.reset where
  account := h.account
  requested _ hstate := nomatch hstate
  frame _ hstate := nomatch hstate

theorem compress (h : Good st) (oneShot leavesOpen : Bool) :
    Good (st.compress oneShot leavesOpen) where
  account := h.account
  requested := h.requested
  frame state hstate := by
    simp only [State.compress] at hstate
    split at hstate
    · rw [Option.some.injEq] at hstate
      split at hstate
      · exact h.requested state hstate
      · cases hopen : st.frame with
        | none =>
            rw [hopen] at hstate
            exact h.requested state hstate
        | some applied =>
            rw [hopen] at hstate
            apply h.frame state
            rw [hopen]
            exact congrArg some hstate
    · cases hstate

end Good

/-- What an open context looks like between the two statements of a registration. -/
structure Released (before st : State P) : Prop where
  isOpen : st.isOpen = true
  account : Account st.created st.freed none
  requested : st.requested = before.requested
  no_frame : ∀ state, st.frame ≠ some (some state)

section Registration

variable {st : State P} {producer : Option P} {freeState createState : Answer Unit}
  {getFunctionPointer : Answer ℕ}

theorem freeRegistered_released (h : Good st) (hopen : st.isOpen = true)
    (hcareful : Careful producer freeState createState getFunctionPointer st) :
    Released st (st.freeRegistered freeState).2 ∧
      (((st.freeRegistered freeState).1 = none ∧ (st.freeRegistered freeState).2.seqprod = none) ∨
        (st.freeRegistered freeState).1 = some false) := by
  have haccount := h.account
  unfold State.freeRegistered
  cases hseqprod : st.seqprod with
  | none =>
      have hheld : st.held = none := by simp [State.held, hseqprod]
      rw [hheld] at haccount
      exact ⟨⟨hopen, haccount, rfl, hcareful.no_frame⟩, Or.inl ⟨rfl, hseqprod⟩⟩
  | some old =>
      have hheld : st.held = some (old, st.seqprodState) := by simp [State.held, hseqprod, hopen]
      rw [hheld] at haccount
      cases hanswer : freeState with
      | returns _ => exact ⟨⟨hopen, haccount.free, rfl, hcareful.no_frame⟩, Or.inl ⟨rfl, rfl⟩⟩
      | throws fatal =>
          cases fatal with
          | false => exact ⟨⟨hopen, haccount.free, rfl, hcareful.no_frame⟩, Or.inr rfl⟩
          | true =>
              apply absurd hanswer
              apply hcareful.free_ok
              simp [hseqprod]

/-- What the `catch` leaves. -/
theorem Released.caught {before : State P} (h : Released before st) :
    Good ({ st with seqprod := none }.zstdRegisterSequenceProducer 0 0) := by
  apply Good.of_released
  · exact h.account
  · simp [State.held, State.zstdRegisterSequenceProducer]
  · rfl
  · exact h.no_frame

/-- A registration that reaches its last line. -/
theorem Released.registered {before : State P} (h : Released before st) (new : P)
    (function : ℕ) :
    Good (st.registerNew (some new) (.returns ()) (.returns function)).2 := by
  have hheld : (st.registerNew (some new) (.returns ()) (.returns function)).2.held =
      some (new, st.created.length) := by
    simp [State.registerNew, State.zstdRegisterSequenceProducer, State.held, h.isOpen]
  constructor
  · rw [hheld]
    exact h.account.create new
  · intro state hstate
    refine ⟨new, hheld.trans ?_⟩
    simp only [State.registerNew, State.zstdRegisterSequenceProducer] at hstate
    split at hstate
    · rw [Option.some.inj hstate]
    · cases hstate
  · intro state hstate
    exact absurd hstate (h.no_frame state)

theorem registerSequenceProducer_good (h : Good st) (hopen : st.isOpen = true)
    (hcareful : Careful producer freeState createState getFunctionPointer st) :
    Good (st.registerSequenceProducer producer freeState createState getFunctionPointer).2 := by
  obtain ⟨hreleased, hends⟩ := freeRegistered_released h hopen hcareful
  have hcreate := hcareful.create_ok
  have hfunction := hcareful.function_ok
  unfold State.registerSequenceProducer State.registerBody
  rcases hfree : st.freeRegistered freeState with ⟨thrown, released⟩
  rw [hfree] at hreleased hends hcreate hfunction
  rcases hends with ⟨hnone, hseqprod⟩ | hthrown
  · obtain rfl : thrown = none := hnone
    replace hseqprod : released.seqprod = none := hseqprod
    have hheld : released.held = none := by simp [State.held, hseqprod]
    cases producer with
    | none =>
        apply Good.of_released
        · exact hreleased.account
        · simpa [State.held, State.zstdRegisterSequenceProducer, State.registerNew] using hheld
        · rfl
        · exact hreleased.no_frame
    | some new =>
        cases hanswer : createState with
        | throws fatal =>
            cases fatal with
            | false => exact hreleased.caught
            | true =>
                -- the registration of the state that was freed is still in force
                have hrequested := hcreate (by simp) rfl hanswer
                apply Good.of_released hreleased.account hheld _ hreleased.no_frame
                rw [hreleased.requested, hrequested]
        | returns _ =>
            obtain ⟨function, hpointer⟩ := hfunction (by simp) rfl hanswer
            subst hpointer
            exact hreleased.registered new function
  · obtain rfl : thrown = some false := hthrown
    exact hreleased.caught

end Registration

theorem doClose_good {st : State P} (h : Good st) (hopen : st.isOpen = true)
    (freeState : Answer Unit) : Good (st.doClose freeState).2 := by
  have haccount := h.account
  unfold State.doClose
  cases hseqprod : st.seqprod with
  | none =>
      have hheld : st.held = none := by simp [State.held, hseqprod]
      rw [hheld] at haccount
      exact Good.of_released haccount rfl rfl (fun _ => nofun)
  | some producer =>
      have hheld : st.held = some (producer, st.seqprodState) := by
        simp [State.held, hseqprod, hopen]
      rw [hheld] at haccount
      cases freeState with
      | throws _ => exact Good.of_released haccount.free rfl rfl (fun _ => nofun)
      | returns _ => exact Good.of_released haccount.free rfl rfl (fun _ => nofun)

theorem step_good {st next : State P} {op : Op P} {event : Outcome Unit} (h : Good st)
    (hcareful : CarefulOp st op) (hstep : (machine P).step st op = some (event, next)) :
    Good next := by
  cases hopen : st.isOpen with
  | false =>
      have hsame : next = st := by
        cases op <;> simp_all [machine]
      rwa [hsame]
  | true =>
      simp only [machine, hopen, if_true] at hstep
      cases op with
      | register producer freeState createState getFunctionPointer =>
          obtain rfl := congrArg Prod.snd (Option.some.inj hstep)
          exact registerSequenceProducer_good h hopen (hcareful hopen)
      | reset =>
          obtain rfl := congrArg Prod.snd (Option.some.inj hstep)
          exact h.reset
      | compress oneShot leavesOpen =>
          obtain rfl := congrArg Prod.snd (Option.some.inj hstep)
          exact h.compress oneShot leavesOpen
      | close freeState =>
          obtain rfl := congrArg Prod.snd (Option.some.inj hstep)
          exact doClose_good h hopen freeState

/-- In every run whose registrations go well, no state is leaked, freed twice or used after
it was freed. -/
theorem sequence_producers_sound (ops : List (Op P))
    (hcareful : (machine P).AllSteps CarefulOp State.init ops) : Sound (after ops) := by
  have hgood : Good (after ops) :=
    Machine.run_state_inv_of_allSteps Good (fun _ _ _ _ => step_good) Good.init hcareful
  exact hgood.sound

/-- A producer is registered, used for a frame and taken back. -/
theorem sequence_producers_sound_used :
    Sound (after [.register (some ()) (.returns ()) (.returns ()) (.returns 1),
      .compress true false, .register none (.returns ()) (.returns ()) (.returns 0),
      .close (.returns ())]) := by
  apply sequence_producers_sound
  refine ⟨fun _ => ⟨nofun, nofun, fun _ _ => nofun, fun _ _ _ => ⟨1, rfl⟩⟩, trivial,
    fun _ => ⟨nofun, nofun, nofun, nofun⟩, trivial, trivial⟩

/-- A function pointer that is refused leaks the state that was just created; and after an
`Error` from `freeState` the state is still registered, and it is freed a second time. -/
theorem states_leaked_and_freed_twice :
    ¬ Sound (after [.register (some ()) (.returns ()) (.returns ()) (.throws false),
      .close (.returns ())]) ∧
    ¬ Sound (after [.register (some ()) (.returns ()) (.returns ()) (.returns 1),
      .register none (.throws true) (.returns ()) (.returns 0)]) ∧
    ¬ Sound (after [.register (some ()) (.returns ()) (.returns ()) (.returns 1),
      .register none (.throws true) (.returns ()) (.returns 0), .close (.returns ())]) := by
  refine ⟨fun h => ?_, fun h => ?_, fun h => ?_⟩
  · have hfreed := h.closed rfl 0 () rfl
    cases hfreed
  · obtain ⟨-, hfresh⟩ := h.registered 0 rfl
    exact hfresh (List.mem_cons_self)
  · have honce : ([0, 0] : List ℕ).Nodup := h.once
    simp at honce

end ZstdJni.Context.SequenceProducer
