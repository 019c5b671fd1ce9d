/-
# The lock of a context after each of its methods

A method that has acquired the lock of its context gives it back, whatever it meets in
between, as long as all that is inside of the `try`.  The one exception is `loadDict` with
a dictionary object: that is acquired before the `try`, and if it refuses, the context
stays locked.

Most methods leave the dictionary alone as well.  What is said about both parts of the
state, the lock and the dictionary, is said for any view of the state that a change of the
producer, a call that works and a locked `try` do not change.
-/

import ZstdJni.Dict.Contexts

namespace ZstdJni.Dict

open ZstdJni.Foundation ZstdJni.Native ZstdJni.AutoClose
open ZstdJni.Context.SequenceProducer (Answer)

namespace Ctx

variable {D τ : Type}

/-- The context with another lock. -/
def withLock (lock : ℤ) (s : Sys (Ctx D) D) : Sys (Ctx D) D :=
  { s with holder := { s.holder with sharedLock := lock } }

theorem ownAcquire_call {s : Sys (Ctx D) D} (h : Acquirable s.holder.sharedLock) :
    (own acquireSharedLock).call s = (.ok (), withLock (s.holder.sharedLock + 1) s) := by
  rw [own, Method.call_zoom, acquire_call_of_acquirable h]
  rfl

theorem ownAcquire_call_of_not {s : Sys (Ctx D) D} (h : ¬ Acquirable s.holder.sharedLock) :
    ∃ e, (own acquireSharedLock).call s = (.error e, s) := by
  obtain ⟨e, he⟩ := acquire_call_of_not h
  exact ⟨e, by rw [own, Method.call_zoom, he]⟩

theorem ownRelease_call {s : Sys (Ctx D) D} (h : 0 < s.holder.sharedLock) :
    (own releaseSharedLock).call s = (.ok (), withLock (s.holder.sharedLock - 1) s) := by
  rw [own, Method.call_zoom, release_call_of_pos h]
  rfl

theorem ensureOpen_call {s : Sys (Ctx D) D} (h : s.holder.native.alive = true) :
    ensureOpen.call s = (.ok (), s) := by
  rw [ensureOpen, Method.call_bind]
  simp [h]

theorem ensureOpen_call_of_not {s : Sys (Ctx D) D} (h : ¬ s.holder.native.alive = true) :
    ensureOpen.call s = (.error (closedContext s.holder.cls), s) := by
  rw [ensureOpen, Method.call_bind]
  simp [h]

section Keeps

variable {view : Sys (Ctx D) D → τ}

theorem keeps_refuse (e : Option JavaException) :
    Method.Keeps view (refuse e : Java (Sys (Ctx D) D) Unit) := by
  cases e with
  | none => exact Method.keeps_pure _
  | some e => exact Method.keeps_throw e

theorem keeps_callback (a : Answer Unit) :
    Method.Keeps view (callback a : Java (Sys (Ctx D) D) Unit) := by
  cases a with
  | returns => exact Method.keeps_pure _
  | throws fatal => exact Method.keeps_throw _

theorem keeps_ensureOpen : Method.Keeps view ensureOpen := by
  apply Method.keeps_bind Method.keeps_get
  intro s
  split
  · exact Method.keeps_pure _
  · exact Method.keeps_throw _

theorem keeps_dataChecks (method : DataMethod) (refusal : Option JavaException) :
    Method.Keeps view (dataChecks method refusal) := by
  unfold dataChecks
  split
  · exact Method.keeps_bind (keeps_refuse _) fun _ => keeps_ensureOpen
  · exact Method.keeps_bind keeps_ensureOpen fun _ => keeps_refuse _

variable (hseqprod : ∀ seqprod, Method.Keeps view (setSeqprod seqprod))

include hseqprod

theorem keeps_freeRegistered (freeState : Answer Unit) :
    Method.Keeps view (freeRegistered freeState) := by
  apply Method.keeps_bind Method.keeps_get
  intro s
  split
  · exact Method.keeps_bind (keeps_callback _) fun _ => hseqprod _
  · exact Method.keeps_pure _

theorem keeps_registerNew (producer : Bool) (createState getFunctionPointer : Answer Unit) :
    Method.Keeps view (registerNew producer createState getFunctionPointer) := by
  unfold registerNew
  split
  · apply Method.keeps_bind (keeps_callback _)
    intro _
    exact Method.keeps_bind (keeps_callback _) fun _ => hseqprod _
  · exact Method.keeps_pure _

theorem keeps_registerCatch (e : JavaException) : Method.Keeps view (registerCatch e) := by
  unfold registerCatch
  split
  · exact Method.keeps_throw e
  · exact Method.keeps_bind (hseqprod _) fun _ => Method.keeps_throw e

end Keeps

/-- A view of the state that the parts of the methods do not change, apart from those that
replace the dictionary. -/
structure Untouched [DecidableEq D] (view : Sys (Ctx D) D → τ) : Prop where
  seqprod : ∀ seqprod, Method.Keeps view (setSeqprod seqprod)
  work : ∀ w, Method.Keeps view (nativeWork w)
  locked : ∀ body, Method.Keeps view body → Method.Keeps view (locked body)
  pair : Method.Keeps view (do own acquireSharedLock; own releaseSharedLock)

end Ctx

variable {D τ : Type} [DecidableEq D]

/-- The method may replace the dictionary. -/
def CtxOp.TouchesDict : CtxOp D → Prop
  | .loadDict _ _ | .loadDictBytes _ | .reset _ => True
  | _ => False

/-- The other methods keep what their parts keep. -/
theorem Ctx.Untouched.perform {view : Sys (Ctx D) D → τ} (h : Ctx.Untouched view)
    (dictID : D → ℕ) {op : CtxOp D} (hop : ¬ op.TouchesDict) :
    Method.Keeps view (op.perform dictID) := by
  have hdata (method : Ctx.DataMethod) (refusal : Option JavaException) (w : NativeCtx.Work D) :
      Method.Keeps view (Ctx.dataMethod method refusal w) :=
    Method.keeps_bind (Ctx.keeps_dataChecks _ _) fun _ => h.locked _ (h.work w)
  cases op with
  | plainSetter setter => exact Method.keeps_bind Ctx.keeps_ensureOpen fun _ => h.pair
  | checkedMethod method throws =>
      apply Method.keeps_bind Ctx.keeps_ensureOpen
      exact fun _ => h.locked _ (Ctx.keeps_refuse throws)
  | registerSequenceProducer producer freeState createState getFunctionPointer =>
      apply Method.keeps_bind Ctx.keeps_ensureOpen
      intro _
      apply h.locked
      apply Method.keeps_tryCatch
      · apply Method.keeps_bind (Ctx.keeps_freeRegistered h.seqprod _)
        exact fun _ => Ctx.keeps_registerNew h.seqprod _ _ _
      · exact Ctx.keeps_registerCatch h.seqprod
  | loadDict | loadDictBytes | reset => exact absurd trivial hop
  | dataMethod method refusal w => exact hdata method refusal w
  | convenience before method refusal w behind =>
      apply Method.keeps_bind (Ctx.keeps_refuse _)
      intro _
      exact Method.keeps_bind (hdata _ _ _) fun _ => Ctx.keeps_refuse _

namespace Ctx

/-- The lock of the context. -/
def ownLock (s : Sys (Ctx D) D) : ℤ := s.holder.sharedLock

omit [DecidableEq D] in
/-- A `finally` that gives the lock back. -/
theorem tryFinally_release {body : Java (Sys (Ctx D) D) Unit} (hbody : Method.Keeps ownLock body)
    {s : Sys (Ctx D) D} (hpos : 0 < s.holder.sharedLock) :
    (tryFinally body (own releaseSharedLock)).call s =
      ((body.call s).1, withLock (s.holder.sharedLock - 1) (body.call s).2) := by
  have hafter : (body.call s).2.holder.sharedLock = s.holder.sharedLock := hbody s
  rw [Method.call_tryFinally, ownRelease_call (by omega), hafter]

theorem untouched_ownLock : Untouched (ownLock : Sys (Ctx D) D → ℤ) where
  seqprod _ _ := rfl
  work w := Method.keeps_bind (fun _ => rfl) fun _ => keeps_refuse _
  locked body hbody s := by
    rw [Ctx.locked]
    by_cases hacq : Acquirable s.holder.sharedLock
    · have hpos := hacq.1
      rw [Method.call_bind_ok (ownAcquire_call hacq), tryFinally_release hbody]
      · simp [ownLock, withLock]
      · change 0 < s.holder.sharedLock + 1
        omega
    · obtain ⟨e, he⟩ := ownAcquire_call_of_not hacq
      rw [Method.call_bind_error he]
  pair s := by
    by_cases hacq : Acquirable s.holder.sharedLock
    · have hpos := hacq.1
      rw [Method.call_bind_ok (ownAcquire_call hacq), ownRelease_call]
      · simp [ownLock, withLock]
      · change 0 < s.holder.sharedLock + 1
        omega
    · obtain ⟨e, he⟩ := ownAcquire_call_of_not hacq
      rw [Method.call_bind_error he]

omit [DecidableEq D] in
theorem keeps_nativeCall (f : NativeCtx D → Option ErrorCode × NativeCtx D) :
    Method.Keeps ownLock (nativeCall f) := by
  intro s
  rw [nativeCall, Method.call_bind, Method.call_get]
  exact (keeps_refuse _ : Method.Keeps ownLock _) _

theorem keeps_releaseIfSet (dict : Option D) :
    Method.Keeps ownLock (releaseIfSet dict : Java (Sys (Ctx D) D) Unit) := by
  cases dict with
  | none => exact Method.keeps_pure _
  | some d =>
      unfold releaseIfSet onDict
      apply Method.keeps_zoom
      intro _ _
      rfl

theorem keeps_replaceDict (dict : Option D) : Method.Keeps ownLock (replaceDict dict) := by
  apply Method.keeps_bind Method.keeps_get
  intro _
  exact Method.keeps_bind (keeps_releaseIfSet _) fun _ _ => rfl

theorem keeps_loadDictBody (dictID : D → ℕ) (memory : Memory) (dict : Option D) :
    Method.Keeps ownLock (loadDictBody dictID memory dict) := by
  apply Method.keeps_bind Method.keeps_get
  intro _
  exact Method.keeps_bind (keeps_nativeCall _) fun _ => keeps_replaceDict _

theorem keeps_dropDict (f : NativeCtx D → Option ErrorCode × NativeCtx D) :
    Method.Keeps ownLock (dropDict f) :=
  Method.keeps_bind (keeps_nativeCall f) fun _ => keeps_replaceDict _

end Ctx

/-- The condition under which a call gives the lock back: a dictionary object that is to be
loaded into an open context can be acquired, unless the context itself cannot. -/
def Restores (s : Sys (Ctx D) D) : CtxOp D → Prop
  | .loadDict _ dict =>
    s.holder.native.alive = true → Acquirable s.holder.sharedLock → Available dict s.locks
  | _ => True

namespace Ctx

variable (dictID : D → ℕ) (memory : Memory) {dict : Option D} {s : Sys (Ctx D) D}

theorem loadDict_restores
    (h : s.holder.native.alive = true → Acquirable s.holder.sharedLock → Available dict s.locks) :
    ownLock ((loadDict dictID memory dict).call s).2 = ownLock s := by
  rw [loadDict]
  by_cases hopen : s.holder.native.alive = true
  · rw [Method.call_bind_ok (ensureOpen_call hopen)]
    by_cases hacq : Acquirable s.holder.sharedLock
    · have hpos := hacq.1
      have hdict : Available dict (withLock (s.holder.sharedLock + 1) s).locks := h hopen hacq
      rw [Method.call_bind_ok (ownAcquire_call hacq), Method.call_bind_ok (acquireIfSet_call hdict),
        tryFinally_release (keeps_loadDictBody dictID memory dict)]
      · simp [ownLock, withLock]
      · change 0 < s.holder.sharedLock + 1
        omega
    · obtain ⟨e, he⟩ := ownAcquire_call_of_not hacq
      rw [Method.call_bind_error he]
  · rw [Method.call_bind_error (ensureOpen_call_of_not hopen)]

/-- A dictionary that refuses leaves the context locked. -/
theorem loadDict_of_not_available (hopen : s.holder.native.alive = true)
    (hacq : Acquirable s.holder.sharedLock) (hdict : ¬ Available dict s.locks) :
    ∃ e, (loadDict dictID memory dict).call s =
      (.error e, withLock (s.holder.sharedLock + 1) s) := by
  obtain ⟨e, he⟩ :=
    acquireIfSet_call_of_not (s := withLock (s.holder.sharedLock + 1) s) hdict
  refine ⟨e, ?_⟩
  rw [loadDict, Method.call_bind_ok (ensureOpen_call hopen),
    Method.call_bind_ok (ownAcquire_call hacq), Method.call_bind_error he]

end Ctx

namespace CtxOp

variable (dictID : D → ℕ) {s : Sys (Ctx D) D} {op : CtxOp D}

theorem perform_restores (h : Restores s op) :
    Ctx.ownLock ((op.perform dictID).call s).2 = Ctx.ownLock s := by
  cases op with
  | loadDict memory dict => exact Ctx.loadDict_restores dictID memory h
  | loadDictBytes memory =>
      apply Method.keeps_bind Ctx.keeps_ensureOpen
      exact fun _ => Ctx.untouched_ownLock.locked _ (Ctx.keeps_dropDict _)
  | reset failure =>
      apply Method.keeps_bind Ctx.keeps_ensureOpen
      exact fun _ => Ctx.untouched_ownLock.locked _ (Ctx.keeps_dropDict _)
  | plainSetter | checkedMethod | registerSequenceProducer | dataMethod | convenience =>
      exact Ctx.untouched_ownLock.perform dictID id s

/-- Otherwise the context is left locked once more. -/
theorem perform_of_not_restores (h : ¬ Restores s op) :
    Acquirable s.holder.sharedLock ∧
      Ctx.ownLock ((op.perform dictID).call s).2 = Ctx.ownLock s + 1 := by
  cases op with
  | loadDict memory dict =>
      simp only [Restores, Classical.not_imp] at h
      obtain ⟨hopen, hacq, hdict⟩ := h
      obtain ⟨e, he⟩ := Ctx.loadDict_of_not_available dictID memory hopen hacq hdict
      rw [perform, he]
      exact ⟨hacq, rfl⟩
  | plainSetter | checkedMethod | registerSequenceProducer | loadDictBytes | reset | dataMethod
  | convenience => exact absurd trivial h

/-- A call gives the lock back exactly under the condition. -/
theorem perform_restores_iff :
    Ctx.ownLock ((op.perform dictID).call s).2 = Ctx.ownLock s ↔ Restores s op := by
  refine ⟨fun hlock => ?_, perform_restores dictID⟩
  by_contra hnot
  obtain ⟨-, hmore⟩ := perform_of_not_restores dictID hnot
  omega

end CtxOp

end ZstdJni.Dict
