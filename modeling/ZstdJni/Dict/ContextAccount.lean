/-
# The dictionaries of contexts: accounts

A context that has a dictionary installed is counted once at its lock.  The account is
kept by every call but two: a native refusal of a dictionary object, which can only come
while a frame is open, leaves the dictionary acquired, and so does a `close` in which the
sequence producer throws.
-/

import ZstdJni.Dict.ContextDict

namespace ZstdJni.Dict

open ZstdJni.Foundation ZstdJni.Native ZstdJni.AutoClose
open ZstdJni.Context.SequenceProducer (Answer)

variable {D : Type} [DecidableEq D]

/-- A call that keeps the accounts: a dictionary object is loaded while no frame is open,
and in a `close` that has a dictionary to release the producer does not throw. -/
def CtxCall.Careful (s : Sys (Ctx D) D) : CtxCall D → Prop
  | .op (.loadDict _ (some d)) =>
    s.holder.native.alive = true → Acquirable s.holder.sharedLock → Acquirable (s.locks d) →
      s.holder.native.inFrame = false
  | .close freeState =>
    s.holder.sharedLock = 0 → s.holder.native.alive = true → s.holder.seqprod = true →
      s.holder.dict ≠ none → freeState = .returns ()
  | _ => True

/-- A closed context has no dictionary, and no context has a set of them. -/
structure Ctx.Good (c : Ctx D) : Prop where
  closed : c.native.alive = false → c.dict = none
  single : c.native.Single

namespace Ctx

omit [DecidableEq D] in
theorem plain_loadDictFast0 (dictID : D → ℕ) (memory : Memory) (cls : CtxClass) (dict : Option D) :
    NativeCtx.Plain (loadDictFast0 dictID memory cls dict) := by
  cases cls with
  | compress => exact NativeCtx.plain_refCDict dict
  | decompress => exact NativeCtx.plain_refDDict dictID memory dict

omit [DecidableEq D] in
theorem loadDictFast0_of_single {n : NativeCtx D} (h : n.Single) (dictID : D → ℕ) (memory : Memory)
    (cls : CtxClass) (dict : Option D) :
    loadDictFast0 dictID memory cls dict n = NativeCtx.refCDict dict n := by
  cases cls with
  | compress => rfl
  | decompress => exact NativeCtx.refDDict_of_single h dictID memory dict

end Ctx

/-- The dictionary of a context, as an account. -/
abbrev CtxOrderly (s : Sys (Ctx D) D) (ended : Except JavaException Unit × Sys (Ctx D) D) : Prop :=
  Orderly Ctx.dict Ctx.Good True s ended

/-- A call that changes none of the parts. -/
theorem orderly_of_parts {s : Sys (Ctx D) D} (hgood : s.holder.Good)
    {ended : Except JavaException Unit × Sys (Ctx D) D} (hsame : Ctx.parts ended.2 = Ctx.parts s) :
    CtxOrderly s ended := by
  simp only [Ctx.parts, Prod.mk.injEq] at hsame
  obtain ⟨hdict, hnative, hlocks⟩ := hsame
  constructor
  · exact .keep hdict hlocks
  · exact ⟨by rw [hnative, hdict]; exact hgood.closed, by rw [hnative]; exact hgood.single⟩
  · exact fun _ _ _ => hlocks

/-- A call of one of the methods that have nothing to do with dictionaries. -/
theorem orderly_of_quiet {s : Sys (Ctx D) D} (hgood : s.holder.Good)
    {ended : Except JavaException Unit × Sys (Ctx D) D}
    (hsame : Ctx.quiet ended.2 = Ctx.quiet s) : CtxOrderly s ended := by
  simp only [Ctx.quiet, Prod.mk.injEq] at hsame
  obtain ⟨hdict, hlocks, halive, hmultiple, hset, -⟩ := hsame
  constructor
  · exact .keep hdict hlocks
  · refine ⟨by rw [halive, hdict]; exact hgood.closed, ?_, ?_⟩
    · exact hmultiple.trans hgood.single.refMultipleDDicts
    · exact hset.trans hgood.single.ddictSet
  · exact fun _ _ _ => hlocks

/-- A replacement whose native call does not fail with a dictionary object in hand. -/
theorem ReplaceEnds.orderly {f : NativeCtx D → Option ErrorCode × NativeCtx D} {new : Option D}
    {s : Sys (Ctx D) D} {ended : Except JavaException Unit × Sys (Ctx D) D}
    (h : ReplaceEnds f new s ended.1 ended.2) (hf : NativeCtx.Plain f) (hgood : s.holder.Good)
    (hnew : ∀ code, (f s.holder.native).1 = some code → s.holder.native.alive = true →
      Acquirable s.holder.sharedLock → Available new s.locks → new = none) :
    CtxOrderly s ended := by
  have halive := hf.alive s.holder.native
  have hsingle := hf.single _ hgood.single
  cases h with
  | refused e hresult hsame => exact orderly_of_parts hgood hsame
  | failed code e hresult hcode hopen hacq hfree hparts =>
      obtain rfl := hnew code hcode hopen hacq hfree
      simp only [Ctx.parts, Prod.mk.injEq, take_none] at hparts
      obtain ⟨hdict, hnative, hlocks⟩ := hparts
      constructor
      · exact .keep hdict hlocks
      · refine ⟨fun hclosed => ?_, by rwa [hnative]⟩
        rw [hnative, halive, hopen] at hclosed
        cases hclosed
      · exact fun _ _ _ => hlocks
  | replaced hresult hcode hopen hfree hparts =>
      simp only [Ctx.parts, Prod.mk.injEq] at hparts
      obtain ⟨hdict, hnative, hlocks⟩ := hparts
      constructor
      · apply Trade.swap
        · rw [hdict]
          exact fun d hd => (hfree d hd).1
        · rw [hdict]
          exact hlocks
      · refine ⟨fun hclosed => ?_, by rwa [hnative]⟩
        rw [hnative, halive, hopen] at hclosed
        cases hclosed
      · intro _ e herror
        rw [hresult] at herror
        cases herror

theorem orderly_loadDict (dictID : D → ℕ) (memory : Memory) (dict : Option D) {s : Sys (Ctx D) D}
    (hgood : s.holder.Good) (hused : Used Ctx.dict s)
    (hcareful : CtxCall.Careful s (.op (.loadDict memory dict))) :
    CtxOrderly s ((Ctx.loadDict dictID memory dict).call s) := by
  apply (Ctx.loadDict_ends dictID memory dict hused).orderly
    (Ctx.plain_loadDictFast0 dictID memory _ dict) hgood
  intro code hcode hopen hacq hfree
  cases dict with
  | none => rfl
  | some d =>
      have hframe : s.holder.native.inFrame = false := hcareful hopen hacq (hfree d rfl)
      rw [Ctx.loadDictFast0_of_single hgood.single, NativeCtx.refCDict, hframe] at hcode
      cases hcode

theorem orderly_close (freeState : Answer Unit) {s : Sys (Ctx D) D} (hgood : s.holder.Good)
    (hused : Used Ctx.dict s) (hcareful : CtxCall.Careful s (.close freeState)) :
    CtxOrderly s ((Ctx.close freeState).call s) := by
  have hfree : s.holder.native.free.Single := ⟨hgood.single.refMultipleDDicts, rfl⟩
  cases Ctx.close_ends freeState hused with
  | kept hlock hsame hresult =>
      apply orderly_of_parts hgood
      rw [hsame]
  | thrown fatal hlock hopen hseqprod hthrows hresult hparts =>
      simp only [Ctx.parts, Prod.mk.injEq] at hparts
      obtain ⟨hdict, hnative, hlocks⟩ := hparts
      have hnone : s.holder.dict = none := by
        by_contra hsome
        have := hcareful hlock hopen hseqprod hsome
        rw [hthrows] at this
        cases this
      constructor
      · exact .keep hdict hlocks
      · exact ⟨fun _ => by rw [hdict, hnone], by rwa [hnative]⟩
      · exact fun _ _ _ => hlocks
  | closed hlock hresult hparts =>
      simp only [Ctx.parts, Prod.mk.injEq] at hparts
      obtain ⟨hdict, hnative, hlocks⟩ := hparts
      constructor
      · apply Trade.swap
        · rw [hdict]
          intro d hd
          cases hd
        · rw [hdict, take_none]
          exact hlocks
      · refine ⟨fun _ => hdict, ?_⟩
        rw [hnative]
        split
        · exact hfree
        · exact hgood.single
      · intro _ e herror
        rw [hresult] at herror
        cases herror

/-- Every careful call of a context keeps its account in order. -/
theorem ctxClass_orderly (dictID : D → ℕ) :
    (ctxClass dictID).Orderly Ctx.dict Ctx.Good (fun _ => True) CtxCall.Careful := by
  intro s call _ hgood hused hcareful
  cases call with
  | close freeState => exact orderly_close freeState hgood hused hcareful
  | op op =>
      cases op with
      | loadDict memory dict => exact orderly_loadDict dictID memory dict hgood hused hcareful
      | loadDictBytes memory =>
          apply (Ctx.loadDictBytes_ends memory hused).orderly
            (NativeCtx.plain_loadDictionary memory) hgood
          exact fun _ _ _ _ _ => rfl
      | reset failure =>
          apply (Ctx.reset_ends failure hused).orderly (NativeCtx.plain_reset failure) hgood
          exact fun _ _ _ _ _ => rfl
      | plainSetter | checkedMethod | registerSequenceProducer | dataMethod | convenience =>
          exact orderly_of_quiet hgood (Ctx.untouched_quiet.perform dictID id s)

/-- `nativePtr != 0`. -/
def Ctx.isOpen {D : Type} (c : Ctx D) : Bool := c.native.alive

/-- New contexts of the two classes. -/
def newContexts {H : Type} (cls : H → CtxClass) : World H (Ctx D) D :=
  World.create fun h => Ctx.create (cls h)

/-- In every run that loads dictionary objects only while no frame is open, the lock of an
open dictionary is the number of open contexts that have it installed. -/
theorem context_locks_accounted {H : Type} [Fintype H] [DecidableEq H] (dictID : D → ℕ)
    (cls : H → CtxClass) (inputs : List (Input H (CtxCall D) D))
    (hcareful : (ctxClass dictID).machine.AllSteps (CarefulInput CtxCall.Careful)
      (newContexts cls) inputs) :
    Accounted (ctxClass dictID) Ctx.isOpen Ctx.dict (fun _ => True) CtxCall.Careful
      ((ctxClass dictID).machine.run (newContexts cls) inputs).2 := by
  have hstart : InOrder Ctx.dict Ctx.Good (newContexts cls : World H (Ctx D) D) :=
    InOrder.create (fun _ => ⟨nofun, rfl, rfl⟩) fun _ => rfl
  apply (hstart.run (ctxClass_orderly dictID) hcareful).accounted
  · exact fun _ hgood => hgood.closed
  · exact ctxClass_orderly dictID

/-- A call that begins a frame and leaves it open. -/
def beginFrame : CtxCall Unit :=
  .op (.dataMethod .compressDirectByteBufferStream none ⟨true, none, none⟩)

/-- A dictionary is loaded and used, and the context closed. -/
theorem context_locks_accounted_used :
    Accounted (ctxClass fun _ : Unit => 0) Ctx.isOpen Ctx.dict (fun _ => True) CtxCall.Careful
      ((ctxClass fun _ : Unit => 0).machine.run (newContexts fun _ : Unit => .compress)
        [.call () (.op (.loadDict .enough (some ()))), .call () beginFrame,
          .call () (.close (.returns ())), .closeDict ()]).2 := by
  apply context_locks_accounted
  exact ⟨fun _ _ _ => rfl, trivial, fun _ _ _ _ => rfl, trivial, trivial⟩

/-- A dictionary that is loaded while a frame is open is refused, and stays locked when
nothing uses it: it cannot be closed, even after the context is. -/
theorem refused_dictionary_stays_locked :
    let C := ctxClass fun _ : Unit => 0
    let inputs := [.call () beginFrame, .call () (.op (.loadDict .enough (some ()))),
      .call () (.close (.returns ())), .closeDict ()]
    let w := (C.machine.run (newContexts fun _ : Unit => .compress) inputs).2
    (C.machine.run (newContexts fun _ : Unit => .compress) inputs).1 =
        [.ok (), .error (.ofResult (jlong ErrorCode.stageWrong.result)), .ok (),
          .error (.illegalState "Attempt to close while in use")] ∧
      w.locks () = 1 ∧ w.users Ctx.isOpen Ctx.dict () = 0 := by
  refine ⟨rfl, rfl, ?_⟩
  decide

end ZstdJni.Dict
