/-
# Closing a context

What `close` of a context does after any sequence of calls, while others use and close
the dictionaries.  The native context is freed exactly if every call has given the lock of
the context back.

The static methods of `Zstd` create a context for one call and close it in a `finally`.
Those that take a dictionary object lose the native context if the dictionary refuses.
-/

import ZstdJni.Dict.ContextAccount

namespace ZstdJni.Dict

open ZstdJni.Foundation ZstdJni.Native ZstdJni.AutoClose
open ZstdJni.Context.SequenceProducer (Answer)

variable {D : Type} [DecidableEq D]

/-- A call on the context, or whatever others have done to the locks of the dictionaries.
They give back no lock that the context has acquired. -/
inductive CtxInput (D : Type)
  | call (op : CtxOp D)
  | others (locks : D → ℤ)

/-- The calls on one context. -/
def ctxMachine (dictID : D → ℕ) : Machine (Sys (Ctx D) D) (CtxInput D)
    (Except JavaException Unit) where
  step s
    | .call op => if op.has s.holder then some ((op.perform dictID).call s) else none
    | .others locks =>
      if s.holder.dict.all fun d => 0 < locks d then some (.ok (), { s with locks := locks })
      else none

/-- A new context, among dictionaries with any locks. -/
def newContext (cls : CtxClass) (locks : D → ℤ) : Sys (Ctx D) D := ⟨Ctx.create cls, locks⟩

/-- The condition on an input. -/
def RestoresInput (s : Sys (Ctx D) D) : CtxInput D → Prop
  | .call op => Restores s op
  | .others _ => True

/-- The context is open, and its dictionary in use. -/
structure Working (s : Sys (Ctx D) D) : Prop where
  alive : s.holder.native.alive = true
  used : Used Ctx.dict s

theorem ReplaceEnds.working {f : NativeCtx D → Option ErrorCode × NativeCtx D} {new : Option D}
    {s s' : Sys (Ctx D) D} {result : Except JavaException Unit} (h : ReplaceEnds f new s result s')
    (hf : NativeCtx.Plain f) (hs : Working s) : Working s' := by
  have halive : (f s.holder.native).2.alive = true := (hf.alive _).trans hs.alive
  cases h with
  | refused e hresult hsame =>
      simp only [Ctx.parts, Prod.mk.injEq] at hsame
      obtain ⟨hdict, hnative, hlocks⟩ := hsame
      refine ⟨by rw [hnative, hs.alive], ?_⟩
      rw [Used, hdict, hlocks]
      exact hs.used
  | failed code e hresult hcode hopen hacq hfree hparts =>
      simp only [Ctx.parts, Prod.mk.injEq] at hparts
      obtain ⟨hdict, hnative, hlocks⟩ := hparts
      refine ⟨by rw [hnative, halive], ?_⟩
      rw [Used, hdict, hlocks]
      exact pos_of_take hs.used
  | replaced hresult hcode hopen hfree hparts =>
      simp only [Ctx.parts, Prod.mk.injEq] at hparts
      obtain ⟨hdict, hnative, hlocks⟩ := hparts
      refine ⟨by rw [hnative, halive], ?_⟩
      rw [Used, hdict, hlocks]
      have htrade : Trade s.holder.dict s.locks new (drop s.holder.dict (take new s.locks)) :=
        .swap (fun d hd => (hfree d hd).1) rfl
      exact htrade.pos hs.used

/-- No call but `close` ends the work of a context. -/
theorem CtxOp.perform_working (dictID : D → ℕ) (op : CtxOp D) {s : Sys (Ctx D) D} (hs : Working s) :
    Working ((op.perform dictID).call s).2 := by
  by_cases hop : op.TouchesDict
  · cases op with
    | loadDict memory dict =>
        exact (Ctx.loadDict_ends dictID memory dict hs.used).working
          (Ctx.plain_loadDictFast0 dictID memory _ dict) hs
    | loadDictBytes memory =>
        exact (Ctx.loadDictBytes_ends memory hs.used).working
          (NativeCtx.plain_loadDictionary memory) hs
    | reset failure =>
        exact (Ctx.reset_ends failure hs.used).working (NativeCtx.plain_reset failure) hs
    | plainSetter | checkedMethod | registerSequenceProducer | dataMethod | convenience =>
        exact absurd hop id
  · have hsame := Ctx.untouched_quiet.perform dictID hop s
    simp only [Ctx.quiet, Prod.mk.injEq] at hsame
    obtain ⟨hdict, hlocks, halive, -⟩ := hsame
    refine ⟨halive.trans hs.alive, ?_⟩
    rw [Used, hdict, hlocks]
    exact hs.used

/-- The two kinds of steps. -/
theorem ctxMachine_step {dictID : D → ℕ} {s next : Sys (Ctx D) D} {input : CtxInput D}
    {event : Except JavaException Unit}
    (hstep : (ctxMachine dictID).step s input = some (event, next)) :
    (∃ op, input = .call op ∧ (op.perform dictID).call s = (event, next)) ∨
      ∃ locks, input = .others locks ∧ next = { s with locks := locks } ∧
        ∀ d, s.holder.dict = some d → 0 < locks d := by
  cases input with
  | call op =>
      left
      simp only [ctxMachine] at hstep
      split at hstep
      · exact ⟨op, rfl, Option.some.inj hstep⟩
      · cases hstep
  | others locks =>
      right
      simp only [ctxMachine] at hstep
      split at hstep
      · next hall =>
          refine ⟨locks, rfl, ?_, fun d hd => ?_⟩
          · exact (congrArg Prod.snd (Option.some.inj hstep)).symm
          · simpa [hd] using hall
      · cases hstep

theorem working_run (dictID : D → ℕ) {s : Sys (Ctx D) D} (hs : Working s)
    (inputs : List (CtxInput D)) : Working ((ctxMachine dictID).run s inputs).2 := by
  apply Machine.run_inv (fun _ s => Working s) _ hs
  intro _ s input event next hs hstep
  rcases ctxMachine_step hstep with ⟨op, -, hcall⟩ | ⟨locks, -, rfl, hused⟩
  · have hnext := op.perform_working dictID hs
    rwa [hcall] at hnext
  · exact ⟨hs.alive, hused⟩

/-- The lock is free exactly if every call has given it back. -/
theorem lock_free_iff (dictID : D → ℕ) {s : Sys (Ctx D) D} (hs : s.holder.sharedLock = 0)
    (inputs : List (CtxInput D)) :
    ((ctxMachine dictID).run s inputs).2.holder.sharedLock = 0 ↔
      (ctxMachine dictID).AllSteps RestoresInput s inputs := by
  apply Iff.trans _
    (Machine.run_flag_iff (fun s : Sys (Ctx D) D => decide (s.holder.sharedLock ≠ 0))
    _ _ (by simpa using hs) inputs)
  · simp
  · intro s input event next hstep hused
    replace hused : s.holder.sharedLock ≠ 0 := of_decide_eq_true hused
    apply decide_eq_true
    rcases ctxMachine_step hstep with ⟨op, -, hcall⟩ | ⟨locks, -, rfl, -⟩
    · by_cases hrestores : Restores s op
      · have hlock := CtxOp.perform_restores dictID hrestores
        rw [hcall] at hlock
        change next.holder.sharedLock = s.holder.sharedLock at hlock
        rwa [hlock]
      · obtain ⟨hacq, hlock⟩ := CtxOp.perform_of_not_restores dictID hrestores
        rw [hcall] at hlock
        change next.holder.sharedLock = s.holder.sharedLock + 1 at hlock
        have hopen := hacq.1
        omega
    · exact hused
  · intro s input event next hstep hfree
    replace hfree : s.holder.sharedLock = 0 := by simpa using hfree
    rcases ctxMachine_step hstep with ⟨op, rfl, hcall⟩ | ⟨locks, rfl, rfl, -⟩
    · have hiff : Ctx.ownLock ((op.perform dictID).call s).2 = Ctx.ownLock s ↔ Restores s op :=
        CtxOp.perform_restores_iff dictID
      rw [hcall] at hiff
      change next.holder.sharedLock = s.holder.sharedLock ↔ _ at hiff
      rw [hfree] at hiff
      simpa [RestoresInput] using hiff
    · simpa [RestoresInput] using hfree

/-- `close` frees the native context of a working context exactly if its lock is free. -/
theorem close_frees_iff (freeState : Answer Unit) {s : Sys (Ctx D) D} (hs : Working s) :
    ((Ctx.close freeState).call s).2.holder.native.alive = false ↔ s.holder.sharedLock = 0 := by
  have halive := hs.alive
  cases Ctx.close_ends freeState hs.used with
  | kept hlock hsame hresult =>
      rw [hsame, halive]
      exact iff_of_false nofun hlock
  | thrown fatal hlock hopen hseqprod hthrows hresult hparts =>
      simp only [Ctx.parts, Prod.mk.injEq] at hparts
      rw [hparts.2.1]
      exact iff_of_true rfl hlock
  | closed hlock hresult hparts =>
      simp only [Ctx.parts, Prod.mk.injEq, halive, if_true] at hparts
      rw [hparts.2.1]
      exact iff_of_true rfl hlock

/-- It returns, too, unless the sequence producer throws. -/
theorem close_returns {freeState : Answer Unit} {s : Sys (Ctx D) D} (hs : Working s)
    (hlock : s.holder.sharedLock = 0)
    (hfreeState : s.holder.seqprod = true → freeState = .returns ()) :
    ((Ctx.close freeState).call s).1 = .ok () := by
  cases Ctx.close_ends freeState hs.used with
  | kept hused _ _ => exact absurd hlock hused
  | thrown fatal _ hopen hseqprod hthrows hresult hparts =>
      rw [hfreeState hseqprod] at hthrows
      cases hthrows
  | closed _ hresult hparts => exact hresult

omit [DecidableEq D] in
theorem working_new (cls : CtxClass) (locks : D → ℤ) : Working (newContext cls locks) :=
  ⟨rfl, fun _ => nofun⟩

/-- The call at the end of a static method: a form of `compress` or `decompress`. -/
structure Conversion (D : Type) where
  before : Option JavaException
  method : Ctx.DataMethod
  refusal : Option JavaException
  work : NativeCtx.Work D
  behind : Option JavaException

/-- The static methods of `Zstd` that create a context: with or without a checksum flag,
with a dictionary given as bytes before or behind the level, or with a dictionary
object. -/
inductive StaticMethod (D : Type)
  | compress (withChecksum : Bool) (c : Conversion D)
  | compressUsingDict (levelFirst : Bool) (memory : Memory) (c : Conversion D)
  | compressFastDict (memory : Memory) (dict : Option D) (c : Conversion D)
  | decompress (c : Conversion D)
  | decompressUsingDict (memory : Memory) (c : Conversion D)
  | decompressFastDict (memory : Memory) (dict : Option D) (c : Conversion D)

namespace StaticMethod

/-- The context that is created. -/
def cls : StaticMethod D → CtxClass
  | .compress _ _ | .compressUsingDict _ _ _ | .compressFastDict _ _ _ => .compress
  | .decompress _ | .decompressUsingDict _ _ | .decompressFastDict _ _ _ => .decompress

/-- The last call on the context. -/
def convert (c : Conversion D) : Java (Sys (Ctx D) D) Unit :=
  Ctx.convenience c.before c.method c.refusal c.work c.behind

/-- `dict.level()`, which a static method reads to set it. -/
def level (dict : Option D) : Java (Sys (Ctx D) D) Unit :=
  Ctx.refuse (if dict.isNone then some .nullPointer else none)

/-- The calls in the `try` of a static method. -/
def calls (dictID : D → ℕ) : StaticMethod D → List (Java (Sys (Ctx D) D) Unit)
  | .compress false c => [Ctx.plainSetter .setLevel, convert c]
  | .compress true c => [Ctx.plainSetter .setLevel, Ctx.plainSetter .setChecksum, convert c]
  | .compressUsingDict true memory c =>
    [Ctx.plainSetter .setLevel, Ctx.loadDictBytes memory, convert c]
  | .compressUsingDict false memory c =>
    [Ctx.loadDictBytes memory, Ctx.plainSetter .setLevel, convert c]
  | .compressFastDict memory dict c =>
    [Ctx.loadDict dictID memory dict, level dict, Ctx.plainSetter .setLevel, convert c]
  | .decompress c => [convert c]
  | .decompressUsingDict memory c => [Ctx.loadDictBytes memory, convert c]
  | .decompressFastDict memory dict c => [Ctx.loadDict dictID memory dict, convert c]

/-- A static method, from the locks of the dictionaries: it leaves the temporary context
behind. -/
def run (dictID : D → ℕ) (m : StaticMethod D) (locks : D → ℤ) :
    Except JavaException Unit × Sys (Ctx D) D :=
  (tryFinally (Method.inOrder (m.calls dictID)) (Ctx.close (.returns ()))).call
    (newContext m.cls locks)

/-- The dictionary object of a static method, if it has one, can be acquired. -/
def DictAvailable (locks : D → ℤ) : StaticMethod D → Prop
  | .compressFastDict _ dict _ | .decompressFastDict _ dict _ => Available dict locks
  | _ => True

end StaticMethod

/-- A call that gives the lock of the context back in every state, and does not end its
work. -/
structure Tidy (call : Java (Sys (Ctx D) D) Unit) : Prop where
  keeps : Method.Keeps Ctx.ownLock call
  working : ∀ s, Working s → Working (call.call s).2

theorem tidy_perform (dictID : D → ℕ) (op : CtxOp D) (hop : ∀ s, Restores s op) :
    Tidy (op.perform dictID) where
  keeps s := CtxOp.perform_restores dictID (hop s)
  working _ hs := op.perform_working dictID hs

omit [DecidableEq D] in
theorem tidy_refuse (e : Option JavaException) :
    Tidy (Ctx.refuse e : Java (Sys (Ctx D) D) Unit) where
  keeps := Ctx.keeps_refuse e
  working s hs := by
    cases e with
    | none => exact hs
    | some e => exact hs

theorem tidy_plainSetter (setter : Ctx.PlainSetter) :
    Tidy (Ctx.plainSetter setter : Java (Sys (Ctx D) D) Unit) :=
  tidy_perform (fun _ => 0) (.plainSetter setter) fun _ => trivial

theorem tidy_loadDictBytes (memory : Memory) :
    Tidy (Ctx.loadDictBytes memory : Java (Sys (Ctx D) D) Unit) :=
  tidy_perform (fun _ => 0) (.loadDictBytes memory) fun _ => trivial

theorem tidy_convert (c : Conversion D) : Tidy (StaticMethod.convert c) :=
  tidy_perform (fun _ => 0) (.convenience c.before c.method c.refusal c.work c.behind)
    fun _ => trivial

omit [DecidableEq D] in
/-- Tidy calls leave the lock as it was. -/
theorem lock_of_tidy {calls : List (Java (Sys (Ctx D) D) Unit)} (hcalls : ∀ call ∈ calls, Tidy call)
    (s : Sys (Ctx D) D) :
    ((Method.inOrder calls).call s).2.holder.sharedLock = s.holder.sharedLock :=
  Method.keeps_inOrder (fun call hcall => (hcalls call hcall).keeps) s

/-- The calls of a static method with a dictionary object: the lock is free behind them
exactly if the dictionary could be acquired. -/
theorem lock_of_loadDict (dictID : D → ℕ) (memory : Memory) (dict : Option D)
    {rest : List (Java (Sys (Ctx D) D) Unit)} (hrest : ∀ call ∈ rest, Tidy call) {s : Sys (Ctx D) D}
    (hopen : s.holder.native.alive = true) (hlock : s.holder.sharedLock = 0) :
    ((Method.inOrder (Ctx.loadDict dictID memory dict :: rest)).call s).2.holder.sharedLock = 0 ↔
      Available dict s.locks := by
  rw [Method.inOrder]
  by_cases hdict : Available dict s.locks
  · refine iff_of_true ?_ hdict
    have hload : ((Ctx.loadDict dictID memory dict).call s).2.holder.sharedLock = 0 :=
      (Ctx.loadDict_restores dictID memory fun _ _ => hdict).trans hlock
    rw [Method.call_bind]
    rcases hcall : (Ctx.loadDict dictID memory dict).call s with ⟨e | value, s'⟩
    · rwa [hcall] at hload
    · rw [hcall] at hload
      exact (lock_of_tidy hrest s').trans hload
  · have hacq : Acquirable s.holder.sharedLock := by
      rw [hlock]
      decide
    obtain ⟨e, he⟩ := Ctx.loadDict_of_not_available dictID memory hopen hacq hdict
    rw [Method.call_bind_error he]
    refine iff_of_false ?_ hdict
    change s.holder.sharedLock + 1 ≠ 0
    omega

namespace StaticMethod

/-- At most the first call of a static method is not tidy, and that loads its dictionary
object. -/
theorem calls_cases (dictID : D → ℕ) (m : StaticMethod D) :
    ((∀ call ∈ m.calls dictID, Tidy call) ∧ ∀ locks, m.DictAvailable locks) ∨
      ∃ memory dict rest, m.calls dictID = Ctx.loadDict dictID memory dict :: rest ∧
        (∀ call ∈ rest, Tidy call) ∧ ∀ locks, m.DictAvailable locks ↔ Available dict locks := by
  have hlevel (dict : Option D) : Tidy (level dict) := tidy_refuse _
  cases m with
  | compress withChecksum c =>
      left
      refine ⟨?_, fun _ => trivial⟩
      cases withChecksum with
      | false => simp [calls, tidy_plainSetter, tidy_convert]
      | true => simp [calls, tidy_plainSetter, tidy_convert]
  | compressUsingDict levelFirst memory c =>
      left
      refine ⟨?_, fun _ => trivial⟩
      cases levelFirst with
      | false => simp [calls, tidy_plainSetter, tidy_loadDictBytes, tidy_convert]
      | true => simp [calls, tidy_plainSetter, tidy_loadDictBytes, tidy_convert]
  | compressFastDict memory dict c =>
      right
      refine ⟨memory, dict, _, rfl, ?_, fun _ => Iff.rfl⟩
      simp [hlevel, tidy_plainSetter, tidy_convert]
  | decompress c =>
      left
      refine ⟨?_, fun _ => trivial⟩
      simp [calls, tidy_convert]
  | decompressUsingDict memory c =>
      left
      refine ⟨?_, fun _ => trivial⟩
      simp [calls, tidy_loadDictBytes, tidy_convert]
  | decompressFastDict memory dict c =>
      right
      refine ⟨memory, dict, _, rfl, ?_, fun _ => Iff.rfl⟩
      simp [tidy_convert]

/-- A static method frees its native context exactly if its dictionary can be acquired. -/
theorem frees_iff (dictID : D → ℕ) (m : StaticMethod D) (locks : D → ℤ) :
    (m.run dictID locks).2.holder.native.alive = false ↔ m.DictAvailable locks := by
  rw [run, Method.call_tryFinally_snd]
  rcases m.calls_cases dictID with ⟨htidy, havailable⟩ | ⟨memory, dict, rest, hcalls, hrest, hiff⟩
  · have hworking := Method.inOrder_inv Working (fun call hcall => (htidy call hcall).working)
      (working_new m.cls locks)
    rw [close_frees_iff _ hworking, lock_of_tidy htidy]
    exact iff_of_true rfl (havailable locks)
  · have hworking : Working
        ((Method.inOrder (m.calls dictID)).call (newContext m.cls locks)).2 := by
      apply Method.inOrder_inv Working _ (working_new m.cls locks)
      intro call hcall s hs
      rw [hcalls] at hcall
      rcases List.mem_cons.mp hcall with rfl | hcall
      · exact CtxOp.perform_working dictID (.loadDict memory dict) hs
      · exact (hrest call hcall).working s hs
    rw [close_frees_iff _ hworking, hcalls, lock_of_loadDict dictID memory dict hrest rfl rfl, hiff]
    rfl

end StaticMethod

/-- Every call gives the lock back; after any sequence of calls `close` frees the native
context, and it returns unless the producer throws; and no static method loses its native
context.  Each of these holds exactly if the dictionary objects that are to be loaded can
be acquired. -/
theorem context_lock_given_back_iff (dictID : D → ℕ) :
    (∀ (s : Sys (Ctx D) D) (op : CtxOp D),
      ((op.perform dictID).call s).2.holder.sharedLock = s.holder.sharedLock ↔ Restores s op) ∧
    (∀ (cls : CtxClass) (locks : D → ℤ) (inputs : List (CtxInput D)) (freeState : Answer Unit),
      let s := ((ctxMachine dictID).run (newContext cls locks) inputs).2
      (((Ctx.close freeState).call s).2.holder.native.alive = false ↔
        (ctxMachine dictID).AllSteps RestoresInput (newContext cls locks) inputs) ∧
      ((ctxMachine dictID).AllSteps RestoresInput (newContext cls locks) inputs →
        (s.holder.seqprod = true → freeState = .returns ()) →
        ((Ctx.close freeState).call s).1 = .ok ())) ∧
    ∀ (m : StaticMethod D) (locks : D → ℤ),
      (m.run dictID locks).2.holder.native.alive = false ↔ m.DictAvailable locks := by
  refine ⟨fun s op => CtxOp.perform_restores_iff dictID, ?_, StaticMethod.frees_iff dictID⟩
  intro cls locks inputs freeState s
  have hworking : Working s := working_run dictID (working_new cls locks) inputs
  have hfree := lock_free_iff dictID (s := newContext cls locks) rfl inputs
  constructor
  · exact (close_frees_iff freeState hworking).trans hfree
  · intro hall hfreeState
    exact close_returns hworking (hfree.mpr hall) hfreeState

/-- A context that is given a closed dictionary can no longer be closed, and
`Zstd.compress` with one loses its native context. -/
theorem context_lost_to_closed_dictionary :
    let closed : Unit → ℤ := fun _ => sharedLockClosed
    let s := ((CtxOp.loadDict .enough (some ())).perform fun _ => 0).call
      (newContext .compress closed)
    s.1 = .error (.illegalState "Closed") ∧ s.2.holder.sharedLock = 1 ∧
      ((Ctx.close (.returns ())).call s.2).1 =
        .error (.illegalState "Attempt to close while in use") ∧
      ∀ c : Conversion Unit, ((StaticMethod.compressFastDict .enough (some ()) c).run
        (fun _ => 0) closed).2.holder.native.alive = true := by
  exact ⟨rfl, rfl, rfl, fun _ => rfl⟩

end ZstdJni.Dict
