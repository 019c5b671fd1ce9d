/-
# The dictionary of a context after each of its methods

Three methods replace the dictionary of a context, by another one or by none.  Each of
them ends in one of three ways: it is refused before anything happens, its native call
fails, or the dictionary is replaced.  If the native call fails, a dictionary object that
was acquired before it is not given back.
-/

import ZstdJni.Dict.ContextLock

namespace ZstdJni.Dict

open ZstdJni.Foundation ZstdJni.Native ZstdJni.AutoClose
open ZstdJni.Context.SequenceProducer (Answer)

variable {D : Type} [DecidableEq D]

/-- What the dictionaries of a context depend on. -/
def Ctx.parts (s : Sys (Ctx D) D) : Option D × NativeCtx D × (D → ℤ) :=
  (s.holder.dict, s.holder.native, s.locks)

/-- How a method ends that is to replace the dictionary by `new` behind a native call. -/
inductive ReplaceEnds (f : NativeCtx D → Option ErrorCode × NativeCtx D) (new : Option D)
    (s : Sys (Ctx D) D) (result : Except JavaException Unit) (s' : Sys (Ctx D) D) : Prop
  | refused (e : JavaException) (hresult : result = .error e) (hsame : Ctx.parts s' = Ctx.parts s)
  | failed (code : ErrorCode) (e : JavaException) (hresult : result = .error e)
      (hcode : (f s.holder.native).1 = some code) (hopen : s.holder.native.alive = true)
      (hacq : Acquirable s.holder.sharedLock) (hfree : Available new s.locks)
      (hparts : Ctx.parts s' = (s.holder.dict, (f s.holder.native).2, take new s.locks))
  | replaced (hresult : result = .ok ()) (hcode : (f s.holder.native).1 = none)
      (hopen : s.holder.native.alive = true) (hfree : Available new s.locks)
      (hparts : Ctx.parts s' =
        (new, (f s.holder.native).2, drop s.holder.dict (take new s.locks)))

namespace Ctx

variable {f : NativeCtx D → Option ErrorCode × NativeCtx D} {new : Option D} {s : Sys (Ctx D) D}

omit [DecidableEq D] in
theorem nativeCall_call (f : NativeCtx D → Option ErrorCode × NativeCtx D) (s : Sys (Ctx D) D) :
    (nativeCall f).call s =
      match (f s.holder.native).1 with
      | none => (.ok (), { s with holder := { s.holder with native := (f s.holder.native).2 } })
      | some code => (.error (.ofResult (jlong code.result)),
          { s with holder := { s.holder with native := (f s.holder.native).2 } }) := by
  rw [nativeCall, Method.call_bind, Method.call_get]
  simp only
  rw [Method.call_bind, Method.call_set]
  cases (f s.holder.native).1 with
  | none => rfl
  | some code => rfl

theorem replaceDict_call (s : Sys (Ctx D) D) (hheld : ∀ d, s.holder.dict = some d → 0 < s.locks d) :
    (replaceDict new).call s =
      (.ok (), ⟨{ s.holder with dict := new }, drop s.holder.dict s.locks⟩) := by
  rw [replaceDict, Method.call_bind, Method.call_get]
  simp only
  rw [Method.call_bind_ok (releaseIfSet_call hheld)]
  rfl

/-- The `try` behind a native call that succeeds. -/
theorem replace_call (s : Sys (Ctx D) D) (hheld : ∀ d, s.holder.dict = some d → 0 < s.locks d)
    (hcode : (f s.holder.native).1 = none) :
    (do nativeCall f; replaceDict new).call s = (.ok (),
      ⟨{ s.holder with native := (f s.holder.native).2, dict := new },
        drop s.holder.dict s.locks⟩) := by
  have hnative := nativeCall_call f s
  rw [hcode] at hnative
  rw [Method.call_bind_ok hnative]
  exact replaceDict_call ⟨{ s.holder with native := (f s.holder.native).2 }, s.locks⟩ hheld

/-- The `try` behind a native call that fails. -/
theorem replace_call_of_failed (s : Sys (Ctx D) D) {code : ErrorCode}
    (hcode : (f s.holder.native).1 = some code) :
    (do nativeCall f; replaceDict new).call s = (.error (.ofResult (jlong code.result)),
      ⟨{ s.holder with native := (f s.holder.native).2 }, s.locks⟩) := by
  have hnative := nativeCall_call f s
  rw [hcode] at hnative
  rw [Method.call_bind_error hnative]

/-- The whole method, with the lock of the context around the `try`. -/
theorem replaceEnds {body : Java (Sys (Ctx D) D) Unit} (hkeeps : Method.Keeps ownLock body)
    (hbody : ∀ s' : Sys (Ctx D) D, s'.holder.cls = s.holder.cls →
      body.call s' = (do nativeCall f; replaceDict new).call s')
    (hheld : ∀ d, s.holder.dict = some d → 0 < s.locks d)
    {m : Java (Sys (Ctx D) D) Unit}
    (hm : m = do
      ensureOpen
      own acquireSharedLock
      acquireIfSet new
      tryFinally body (own releaseSharedLock)) :
    ReplaceEnds f new s (m.call s).1 (m.call s).2 := by
  subst hm
  by_cases hopen : s.holder.native.alive = true
  · rw [Method.call_bind_ok (ensureOpen_call hopen)]
    by_cases hacq : Acquirable s.holder.sharedLock
    · rw [Method.call_bind_ok (ownAcquire_call hacq)]
      by_cases hfree : Available new s.locks
      · obtain ⟨s₁, htake, hcls, hnative, hdict, hlock, hlocks⟩ : ∃ s₁,
            (acquireIfSet new).call (withLock (s.holder.sharedLock + 1) s) = (.ok (), s₁) ∧
            s₁.holder.cls = s.holder.cls ∧ s₁.holder.native = s.holder.native ∧
            s₁.holder.dict = s.holder.dict ∧ s₁.holder.sharedLock = s.holder.sharedLock + 1 ∧
            s₁.locks = take new s.locks :=
          ⟨_, acquireIfSet_call hfree, rfl, rfl, rfl, rfl, rfl⟩
        have hpos : 0 < s₁.holder.sharedLock := by
          have := hacq.1
          omega
        rw [Method.call_bind_ok htake, tryFinally_release hkeeps hpos, hbody s₁ hcls]
        cases hcode : (f s.holder.native).1 with
        | none =>
            have hheld₁ : ∀ d, s₁.holder.dict = some d → 0 < s₁.locks d := by
              rw [hdict, hlocks]
              exact pos_of_take hheld
            rw [replace_call s₁ hheld₁ (by rw [hnative, hcode])]
            apply ReplaceEnds.replaced rfl hcode hopen hfree
            simp [parts, withLock, hnative, hdict, hlocks]
        | some code =>
            rw [replace_call_of_failed s₁ (by rw [hnative, hcode])]
            apply ReplaceEnds.failed code _ rfl hcode hopen hacq hfree
            simp [parts, withLock, hnative, hdict, hlocks]
      · obtain ⟨e, he⟩ :=
          acquireIfSet_call_of_not (s := withLock (s.holder.sharedLock + 1) s) hfree
        rw [Method.call_bind_error he]
        exact .refused e rfl rfl
    · obtain ⟨e, he⟩ := ownAcquire_call_of_not hacq
      rw [Method.call_bind_error he]
      exact .refused e rfl rfl
  · rw [Method.call_bind_error (ensureOpen_call_of_not hopen)]
    exact .refused _ rfl rfl

variable (dictID : D → ℕ) (memory : Memory)

theorem loadDict_ends (dict : Option D) (hheld : ∀ d, s.holder.dict = some d → 0 < s.locks d) :
    ReplaceEnds (loadDictFast0 dictID memory s.holder.cls dict) dict s
      ((loadDict dictID memory dict).call s).1 ((loadDict dictID memory dict).call s).2 := by
  apply replaceEnds (keeps_loadDictBody dictID memory dict) _ hheld rfl
  intro s' hcls
  rw [loadDictBody, Method.call_bind, Method.call_get]
  simp only [hcls]

theorem loadDictBytes_ends (hheld : ∀ d, s.holder.dict = some d → 0 < s.locks d) :
    ReplaceEnds (NativeCtx.loadDictionary memory) none s
      ((loadDictBytes memory : Java (Sys (Ctx D) D) Unit).call s).1
      ((loadDictBytes memory : Java (Sys (Ctx D) D) Unit).call s).2 :=
  replaceEnds (keeps_dropDict _) (fun _ _ => rfl) hheld rfl

theorem reset_ends (failure : Option ErrorCode)
    (hheld : ∀ d, s.holder.dict = some d → 0 < s.locks d) :
    ReplaceEnds (NativeCtx.reset failure) none s
      ((reset failure : Java (Sys (Ctx D) D) Unit).call s).1
      ((reset failure : Java (Sys (Ctx D) D) Unit).call s).2 :=
  replaceEnds (keeps_dropDict _) (fun _ _ => rfl) hheld rfl

/-- The part of the state that most methods leave alone: the dictionary, the locks, and what
the native context knows of dictionaries, as long as there is no set of them. -/
def quiet (s : Sys (Ctx D) D) : Option D × (D → ℤ) × Bool × Bool × List D × Option (Option D) :=
  (s.holder.dict, s.locks, s.holder.native.alive, s.holder.native.refMultipleDDicts,
    s.holder.native.ddictSet,
    if s.holder.native.ddictSet = [] then some s.holder.native.ref else none)

theorem untouched_quiet : Untouched (quiet : Sys (Ctx D) D → _) where
  seqprod _ _ := rfl
  work w := by
    apply Method.keeps_bind
    · intro s
      simp only [modifyFields, Method.call_modify, quiet, NativeCtx.work]
      by_cases hset : s.holder.native.ddictSet = []
      · cases w.selected <;> simp [hset]
      · simp [hset]
    · exact fun _ => keeps_refuse _
  locked body hbody := by
    apply Method.keeps_bind (fun _ => rfl)
    exact fun _ => Method.keeps_tryFinally hbody fun _ => rfl
  pair := Method.keeps_bind (fun _ => rfl) fun _ _ => rfl

omit [DecidableEq D] in
theorem freeRegistered_call (freeState : Answer Unit) (s : Sys (Ctx D) D) :
    (∃ s₁, parts s₁ = parts s ∧ (freeRegistered freeState).call s = (.ok (), s₁)) ∨
      ∃ fatal, s.holder.seqprod = true ∧ freeState = .throws fatal ∧
        (freeRegistered freeState).call s = (.error (.callback fatal), s) := by
  rw [freeRegistered, Method.call_bind, Method.call_get]
  simp only
  cases hseqprod : s.holder.seqprod with
  | false => exact Or.inl ⟨s, rfl, rfl⟩
  | true =>
      cases freeState with
      | returns _ =>
          exact Or.inl ⟨{ s with holder := { s.holder with seqprod := false } }, rfl, rfl⟩
      | throws fatal => exact Or.inr ⟨fatal, rfl, rfl, rfl⟩

/-- How `close` ends. -/
inductive CloseEnds (freeState : Answer Unit) (s : Sys (Ctx D) D)
    (result : Except JavaException Unit) (s' : Sys (Ctx D) D) : Prop
  | kept (hlock : s.holder.sharedLock ≠ 0) (hsame : s' = s)
      (hresult : result = .ok () → s.holder.sharedLock = sharedLockClosed)
  | thrown (fatal : Bool) (hlock : s.holder.sharedLock = 0)
      (hopen : s.holder.native.alive = true) (hseqprod : s.holder.seqprod = true)
      (hthrows : freeState = .throws fatal) (hresult : result = .error (.callback fatal))
      (hparts : parts s' = (s.holder.dict, s.holder.native.free, s.locks))
  | closed (hlock : s.holder.sharedLock = 0) (hresult : result = .ok ())
      (hparts : parts s' = (none, if s.holder.native.alive then s.holder.native.free else
        s.holder.native, drop s.holder.dict s.locks))

omit [DecidableEq D] in
theorem freeNative_call (freeState : Answer Unit) {s : Sys (Ctx D) D}
    (hopen : s.holder.native.alive = true) :
    (freeNative freeState).call s = (freeRegistered freeState).call
      { s with holder := { s.holder with native := s.holder.native.free } } := by
  rw [freeNative, Method.call_bind, Method.call_get]
  simp only [hopen]
  rfl

omit [DecidableEq D] in
theorem freeNative_call_of_not (freeState : Answer Unit) {s : Sys (Ctx D) D}
    (hopen : s.holder.native.alive = false) : (freeNative freeState).call s = (.ok (), s) := by
  rw [freeNative, Method.call_bind, Method.call_get]
  simp only [hopen]
  rfl

/-- The last statement of `doClose`. -/
theorem closed_of_freed {freeState : Answer Unit} {s s₁ : Sys (Ctx D) D} {native : NativeCtx D}
    (hlock : s.holder.sharedLock = 0) (hparts : parts s₁ = (s.holder.dict, native, s.locks))
    (hnative : native = if s.holder.native.alive then s.holder.native.free else s.holder.native)
    (hheld : ∀ d, s.holder.dict = some d → 0 < s.locks d) :
    CloseEnds freeState s ((replaceDict none).call s₁).1 ((replaceDict none).call s₁).2 := by
  simp only [parts, Prod.mk.injEq] at hparts
  obtain ⟨hdict, hnative₁, hlocks⟩ := hparts
  rw [replaceDict_call s₁ (by rwa [hdict, hlocks])]
  apply CloseEnds.closed hlock rfl
  simp [parts, hdict, hnative₁, hlocks, hnative]

/-- The lock is taken, and `doClose` called. -/
theorem doClose_ends (freeState : Answer Unit) {s : Sys (Ctx D) D}
    (hlock : s.holder.sharedLock = 0) (hheld : ∀ d, s.holder.dict = some d → 0 < s.locks d) :
    CloseEnds freeState s ((doClose freeState).call (withLock sharedLockClosed s)).1
      ((doClose freeState).call (withLock sharedLockClosed s)).2 := by
  rw [doClose]
  cases hopen : s.holder.native.alive with
  | false =>
      have hfree := freeNative_call_of_not freeState (s := withLock sharedLockClosed s) hopen
      rw [Method.call_bind_ok hfree]
      exact closed_of_freed hlock rfl (by simp [hopen, withLock]) hheld
  | true =>
      have hfree := freeNative_call freeState (s := withLock sharedLockClosed s) hopen
      rcases freeRegistered_call freeState
        ⟨{ (withLock sharedLockClosed s).holder with native := s.holder.native.free }, s.locks⟩
        with ⟨s₁, hparts, hcall⟩ | ⟨fatal, hseqprod, hthrows, hcall⟩
      · rw [Method.call_bind_ok (hfree.trans hcall)]
        exact closed_of_freed hlock hparts (by simp [hopen]) hheld
      · rw [Method.call_bind_error (hfree.trans hcall)]
        exact .thrown fatal hlock hopen hseqprod hthrows rfl rfl

theorem close_ends (freeState : Answer Unit) (hheld : ∀ d, s.holder.dict = some d → 0 < s.locks d) :
    CloseEnds freeState s ((close freeState).call s).1 ((close freeState).call s).2 := by
  rw [close]
  by_cases hlock : s.holder.sharedLock = 0
  · have hbegin : (own beginClose).call s = (.ok true, withLock sharedLockClosed s) := by
      rw [own, Method.call_zoom, hlock, beginClose_zero]
      rfl
    rw [Method.call_bind_ok hbegin]
    exact doClose_ends freeState hlock hheld
  · by_cases hclosed : s.holder.sharedLock = sharedLockClosed
    · have hbegin : (own beginClose).call s = (.ok false, s) := by
        rw [own, Method.call_zoom, hclosed, beginClose_closed, ← hclosed]
      rw [Method.call_bind_ok hbegin]
      exact .kept hlock rfl fun _ => hclosed
    · have hbegin : (own beginClose).call s =
          (.error (.illegalState "Attempt to close while in use"), s) := by
        rw [own, Method.call_zoom, beginClose_of_used hclosed hlock]
      rw [Method.call_bind_error hbegin]
      exact .kept hlock rfl fun h => by cases h

end Ctx

end ZstdJni.Dict
