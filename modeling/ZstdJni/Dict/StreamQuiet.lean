/-
# The methods of a stream that leave its dictionary alone

Most methods of a stream change neither the dictionary it remembers nor any lock, and give
the native context no pointer to a dictionary.  The one exception to the latter is the first
`compress` of a direct compressing stream: it tells the native context of the dictionary
that the stream has remembered since `setDict`.

All this is one relation between the states before and behind a call.  It is a preorder,
so it passes from the parts of a method to the whole.
-/

import ZstdJni.Dict.Streams

namespace ZstdJni.Dict

open ZstdJni.Foundation ZstdJni.Native ZstdJni.AutoClose

variable {D : Type}

/-- A native call that makes no pointer to a dictionary, and keeps the set. -/
structure NativeCtx.Dropping (f : NativeCtx D → Option ErrorCode × NativeCtx D) : Prop where
  refs : ∀ n d, (f n).2.RefersTo d → n.RefersTo d
  ddictSet : ∀ n, (f n).2.ddictSet = n.ddictSet

namespace NativeCtx

theorem dropping_loadDictionary (memory : Memory) :
    Dropping (loadDictionary memory : NativeCtx D → Option ErrorCode × NativeCtx D) where
  refs n d h := by
    unfold loadDictionary at h
    split_ifs at h
    · exact h
    · exact h
    · exact Or.inr (h.resolve_left nofun)
    · exact Or.inr (h.resolve_left nofun)
  ddictSet n := by
    unfold loadDictionary
    split_ifs <;> rfl

theorem dropping_setRefMultipleDDicts (useMultiple : Bool) :
    Dropping (setRefMultipleDDicts useMultiple : NativeCtx D → Option ErrorCode × NativeCtx D) where
  refs n d h := by
    unfold setRefMultipleDDicts at h
    split_ifs at h
    · exact h
    · exact h
  ddictSet n := by
    unfold setRefMultipleDDicts
    split_ifs <;> rfl

theorem dropping_resetSession (failure : Option ErrorCode) :
    Dropping (Stream.resetSession failure : NativeCtx D → Option ErrorCode × NativeCtx D) where
  refs n d h := by
    cases failure with
    | none => exact h
    | some code => exact h
  ddictSet n := by
    cases failure <;> rfl

theorem refersTo_of_work [DecidableEq D] {w : Work D} {n : NativeCtx D} {d : D}
    (h : (n.work w).RefersTo d) : n.RefersTo d := by
  rcases h with href | hset
  · simp only [work] at href
    split at href
    · split at href
      · next other _ hselected =>
          obtain rfl : other = d := Option.some.inj href
          exact Or.inr hselected.2
      · exact Or.inl href
    · exact Or.inl href
  · exact Or.inr hset

theorem not_refersTo_free (n : NativeCtx D) (d : D) : ¬ n.free.RefersTo d := by
  rintro (href | hset)
  · cases href
  · cases hset

theorem ref_eq_none {n : NativeCtx D} (h : ∀ d, ¬ n.RefersTo d) : n.ref = none := by
  cases href : n.ref with
  | none => rfl
  | some d => exact absurd (Or.inl href) (h d)

end NativeCtx

namespace Stream

/-- The compressing classes have no set of dictionaries, and a direct compressing stream
that is not initialized has told its native context of none. -/
structure Settled (s : Stream D) : Prop where
  noSet : s.cls = .output ∨ s.cls = .directCompressing → s.native.ddictSet = []
  unused : s.cls = .directCompressing → s.initialized = false → s.native.ref = none

/-- The dictionary and the locks are as before.  There is no new pointer, unless the native
context is told of the remembered dictionary. -/
structure SameDict (told : Prop) (s s' : Sys (Stream D) D) : Prop where
  cls : s'.holder.cls = s.holder.cls
  dict : s'.holder.dict = s.holder.dict
  locks : s'.locks = s.locks
  closed : s'.holder.closed = s.holder.closed
  settled : s'.holder.Settled
  refs : ∀ d, s'.holder.native.RefersTo d →
    s.holder.native.RefersTo d ∨ told ∧ s.holder.dict = some d

/-- From a settled state nothing happens to dictionaries. -/
def Harmless (told : Prop) (s s' : Sys (Stream D) D) : Prop :=
  s.holder.Settled → SameDict told s s'

theorem Harmless.refl (told : Prop) (s : Sys (Stream D) D) : Harmless told s s := fun h =>
  ⟨rfl, rfl, rfl, rfl, h, fun _ => Or.inl⟩

theorem Harmless.trans {told : Prop} {s₁ s₂ s₃ : Sys (Stream D) D} (h : Harmless told s₁ s₂)
    (h' : Harmless told s₂ s₃) : Harmless told s₁ s₃ := by
  intro hsettled
  have hfirst := h hsettled
  have hsecond := h' hfirst.settled
  constructor
  · exact hsecond.cls.trans hfirst.cls
  · exact hsecond.dict.trans hfirst.dict
  · exact hsecond.locks.trans hfirst.locks
  · exact hsecond.closed.trans hfirst.closed
  · exact hsecond.settled
  · intro d hd
    rcases hsecond.refs d hd with hold | ⟨htold, hdict⟩
    · exact hfirst.refs d hold
    · exact Or.inr ⟨htold, hfirst.dict ▸ hdict⟩

section Parts

variable {told : Prop} {α β : Type}

theorem harmless_bind {m : Java (Sys (Stream D) D) α} {next : α → Java (Sys (Stream D) D) β}
    (hm : Method.Moves (Harmless told) m)
    (hnext : ∀ value, Method.Moves (Harmless told) (next value)) :
    Method.Moves (Harmless told) (m >>= next) :=
  Method.moves_bind (R := Harmless told) (fun h h' => h.trans h') hm hnext

theorem harmless_pure (value : α) :
    Method.Moves (Harmless told) (pure value : Java (Sys (Stream D) D) α) :=
  Method.moves_pure (Harmless.refl told) value

theorem harmless_get : Method.Moves (Harmless told) (get : Java (Sys (Stream D) D) _) :=
  Method.moves_get (Harmless.refl told)

theorem harmless_refuse (e : Option JavaException) :
    Method.Moves (Harmless told) (Ctx.refuse e : Java (Sys (Stream D) D) Unit) := by
  cases e with
  | none => exact harmless_pure _
  | some e => exact Method.moves_throw (Harmless.refl told) e

theorem harmless_require (p : Stream D → Bool) (e : JavaException) :
    Method.Moves (Harmless told) (require p e) := by
  apply harmless_bind harmless_get
  intro s
  split
  · exact harmless_pure _
  · exact Method.moves_throw (Harmless.refl told) e

/-- The native context makes no pointer. -/
theorem harmless_native (s : Sys (Stream D) D) {n : NativeCtx D}
    (hrefs : ∀ d, n.RefersTo d → s.holder.native.RefersTo d)
    (hset : n.ddictSet = s.holder.native.ddictSet) :
    Harmless told s { s with holder := { s.holder with native := n } } := by
  intro hsettled
  have hnoSet (hcls : s.holder.cls = .output ∨ s.holder.cls = .directCompressing) :
      n.ddictSet = [] := hset.trans (hsettled.noSet hcls)
  constructor
  · rfl
  · rfl
  · rfl
  · rfl
  · refine ⟨hnoSet, fun hcls hinitialized => NativeCtx.ref_eq_none fun d hd => ?_⟩
    rcases hrefs d hd with href | hmem
    · rw [hsettled.unused hcls hinitialized] at href
      cases href
    · rw [hsettled.noSet (Or.inr hcls)] at hmem
      cases hmem
  · exact fun d hd => Or.inl (hrefs d hd)

theorem harmless_nativeCall {exception : ErrorCode → JavaException}
    {f : NativeCtx D → Option ErrorCode × NativeCtx D} (hf : NativeCtx.Dropping f) :
    Method.Moves (Harmless told) (nativeCall exception f) := by
  apply harmless_bind _ fun _ => harmless_refuse _
  intro s
  exact harmless_native s (hf.refs _) (hf.ddictSet _)

theorem harmless_setFrame (frameClosed frameStarted : Bool) :
    Method.Moves (Harmless told)
      (setFrame frameClosed frameStarted : Java (Sys (Stream D) D) Unit) :=
  fun _ hsettled => ⟨rfl, rfl, rfl, rfl, ⟨hsettled.noSet, hsettled.unused⟩, fun _ => Or.inl⟩

/-- An initialized stream may have told its native context of a dictionary. -/
theorem harmless_setInitialized :
    Method.Moves (Harmless told) (setInitialized true : Java (Sys (Stream D) D) Unit) :=
  fun _ hsettled => ⟨rfl, rfl, rfl, rfl, ⟨hsettled.noSet, nofun⟩, fun _ => Or.inl⟩

theorem harmless_setBytes (bytes : Bool) :
    Method.Moves (Harmless told) (setBytes bytes : Java (Sys (Stream D) D) Unit) :=
  fun _ hsettled => ⟨rfl, rfl, rfl, rfl, ⟨hsettled.noSet, hsettled.unused⟩, fun _ => Or.inl⟩

variable [DecidableEq D]

theorem harmless_work (w : NativeCtx.Work D) : Method.Moves (Harmless told) (work w) := by
  apply harmless_bind _ fun _ => harmless_refuse _
  intro s
  exact harmless_native s (fun _ => NativeCtx.refersTo_of_work) rfl

omit [DecidableEq D] in
theorem harmless_beginFrameIf (p : Stream D → Bool) (failure : Option ErrorCode)
    (started : Stream D → Bool) :
    Method.Moves (Harmless told) (Output.beginFrameIf p failure started) := by
  apply harmless_bind harmless_get
  intro s
  split
  · apply harmless_bind (harmless_nativeCall (NativeCtx.dropping_resetSession failure))
    exact fun _ => harmless_setFrame _ _
  · exact harmless_pure _

theorem harmless_endFrame (w : NativeCtx.Work D) :
    Method.Moves (Harmless told) (Output.endFrame w) := by
  apply harmless_bind harmless_get
  intro s
  split
  · exact harmless_pure _
  · exact harmless_work w

theorem harmless_closeBody (failure : Option ErrorCode) (w : NativeCtx.Work D)
    (parent : Option JavaException) :
    Method.Moves (Harmless told) (Output.closeBody failure w parent) := by
  apply harmless_bind (harmless_beginFrameIf _ _ _)
  intro _
  exact harmless_bind (harmless_endFrame w) fun _ => harmless_refuse _

theorem harmless_workIfInitialized (w : NativeCtx.Work D) :
    Method.Moves (Harmless told) (DirectCompressing.workIfInitialized w) := by
  apply harmless_bind harmless_get
  intro s
  split
  · exact harmless_work w
  · exact harmless_pure _

omit [DecidableEq D] in
/-- The first call of `compress` on a stream without a dictionary object. -/
theorem dropping_init (memory : Memory) {s : Stream D} (hdict : s.dict = none) :
    NativeCtx.Dropping (DirectCompressing.init memory s) := by
  have hload := NativeCtx.dropping_loadDictionary (D := D) memory
  unfold DirectCompressing.init
  rw [hdict]
  simp only
  split
  · constructor
    · intro n d hd
      unfold DirectCompressing.initCStreamWithDict at hd
      split at hd
      · exact hd
      · exact hload.refs { n with inFrame := false } d hd
    · intro n
      unfold DirectCompressing.initCStreamWithDict
      split
      · rfl
      · exact hload.ddictSet { n with inFrame := false }
  · exact ⟨fun n d hd => Or.inr (hd.resolve_left nofun), fun n => rfl⟩

omit [DecidableEq D] in
/-- The native context is told of the dictionary. -/
theorem harmless_initIfNeeded (memory : Memory) :
    Method.Moves (Harmless True)
      (DirectCompressing.initIfNeeded memory : Java (Sys (Stream D) D) Unit) := by
  intro s
  unfold DirectCompressing.initIfNeeded
  rw [Method.call_bind, Method.call_get]
  simp only
  split
  · exact Harmless.refl True s
  · cases hdict : s.holder.dict with
    | none =>
        apply harmless_bind (harmless_nativeCall (dropping_init memory hdict))
        exact fun _ => harmless_setInitialized
    | some d =>
        have hinit : DirectCompressing.init memory s.holder s.holder.native =
            (none, { s.holder.native with inFrame := false, ref := some d }) := by
          unfold DirectCompressing.init
          rw [hdict]
          rfl
        have hcall : (nativeCall longError (DirectCompressing.init memory s.holder)).call s =
            (.ok (), { s with holder := { s.holder with
              native := { s.holder.native with inFrame := false, ref := some d } } }) := by
          rw [nativeCall, nativeCode, Method.call_bind]
          simp only [Method.call_bind, Method.call_get, Method.call_set, hinit]
          rfl
        rw [Method.call_bind_ok hcall]
        intro hsettled
        refine ⟨rfl, rfl, rfl, rfl, ⟨hsettled.noSet, nofun⟩, fun other hother => ?_⟩
        rcases hother with href | hset
        · exact Or.inr ⟨trivial, hdict.trans href⟩
        · exact Or.inl (Or.inr hset)

end Parts

end Stream

section Methods

variable [DecidableEq D] (dictID : D → ℕ)

/-- The method may replace the dictionary, or forget it. -/
def StreamOp.TouchesDict : StreamOp D → Prop
  | .outputSetDict _ | .outputClose _ _ _ _ | .inputSetDict _ _ | .inputClose _ _
  | .bufferSetDict _ _ | .bufferClose | .directSetDictBytes _ | .directSetDict _
  | .directClose _ => True
  | _ => False

open ZstdJni.Dict.Stream in
/-- The other methods are harmless. -/
theorem StreamOp.perform_harmless {op : StreamOp D} (hop : ¬ op.TouchesDict) :
    Method.Moves (Harmless True) (op.perform dictID) := by
  cases op with
  | outputParameter checksClosed throws =>
      apply harmless_bind (harmless_require _ _)
      intro _
      exact harmless_bind (harmless_require _ _) fun _ => harmless_refuse _
  | outputSetDictBytes isNull memory =>
      apply harmless_bind (harmless_bind (harmless_require _ _) fun _ => harmless_require _ _)
      intro _
      apply harmless_bind (harmless_refuse _)
      exact fun _ => harmless_nativeCall (NativeCtx.dropping_loadDictionary memory)
  | write refusal failure w =>
      apply harmless_bind (harmless_refuse _)
      intro _
      apply harmless_bind (harmless_require _ _)
      intro _
      exact harmless_bind (harmless_beginFrameIf _ _ _) fun _ => harmless_work w
  | outputFlush closeFrameOnFlush w parent =>
      apply harmless_bind (harmless_require _ _)
      intro _
      apply harmless_bind harmless_get
      intro s
      split
      · exact harmless_pure _
      · apply harmless_bind _ fun _ => harmless_refuse _
        apply harmless_bind (harmless_work w)
        intro _
        exact harmless_bind harmless_get fun _ => harmless_setFrame _ _
  | inputParameter throws | bufferParameter throws =>
      exact harmless_bind (harmless_require _ _) fun _ => harmless_refuse _
  | setRefMultipleDDicts useMultiple =>
      apply harmless_bind (harmless_require _ _)
      exact fun _ => harmless_nativeCall (NativeCtx.dropping_setRefMultipleDDicts useMultiple)
  | inputSetDictBytes isNull memory =>
      apply harmless_bind (harmless_require _ _)
      intro _
      apply harmless_bind (harmless_refuse _)
      exact fun _ => harmless_nativeCall (NativeCtx.dropping_loadDictionary memory)
  | bufferSetDictBytes isNull memory =>
      apply harmless_bind (harmless_refuse _)
      intro _
      apply harmless_bind (harmless_require _ _)
      exact fun _ => harmless_nativeCall (NativeCtx.dropping_loadDictionary memory)
  | inputRead refusal w | bufferRead refusal w =>
      apply harmless_bind (harmless_refuse _)
      intro _
      exact harmless_bind (harmless_require _ _) fun _ => harmless_work w
  | directCompress refusal memory w =>
      apply harmless_bind (harmless_refuse _)
      intro _
      apply harmless_bind (harmless_require _ _)
      intro _
      exact harmless_bind (harmless_initIfNeeded memory) fun _ => harmless_work w
  | directFlush w =>
      exact harmless_bind (harmless_require _ _) fun _ => harmless_workIfInitialized w
  | outputSetDict | outputClose | inputSetDict | inputClose | bufferSetDict | bufferClose
  | directSetDictBytes | directSetDict | directClose => exact absurd trivial hop

end Methods

end ZstdJni.Dict
