/-
# The dictionary of a stream after each of its methods

A method of a stream ends in one of four ways, as far as dictionaries are concerned.  Most
methods leave the dictionary and the locks alone.  `setDict` with a dictionary object may
replace the old one, `close` gives it back, and `setDict(byte[])` of the direct compressing
stream forgets it.

The native context has no pointer but to the dictionary that the stream remembers, as long
as the calls are safe: no call leaves the old dictionary in a set, a set does not run out of
memory, and no pool throws before the native context is freed.
-/

import ZstdJni.Dict.StreamQuiet

namespace ZstdJni.Dict

open ZstdJni.Foundation ZstdJni.Native ZstdJni.AutoClose

variable {D : Type} [DecidableEq D]

/-- `ZSTD_DCtx_refDDict` does not leave two dictionaries where the stream remembers one, the
old dictionary `r` or the new one `d`: a set that is in use has room for `d`, and `r` does not
stay in the set. -/
def NativeCtx.Forgets (dictID : D → ℕ) (memory : Memory) (r : Option D) (d : D)
    (n : NativeCtx D) : Prop :=
  (n.refMultipleDDicts = true → memory = .enough ∨ r = some d) ∧
    ∀ old, r = some old → old ≠ d → old ∈ n.ddictSet →
      n.refMultipleDDicts = true ∧ dictID old = dictID d

/-- A call behind which the native context has no pointer to a dictionary that the stream has
given back. -/
def StreamOp.Safe (dictID : D → ℕ) (s : Sys (Stream D) D) : StreamOp D → Prop
  | .inputSetDict memory (some d) | .bufferSetDict memory (some d) =>
    s.holder.closed = false → Acquirable (s.locks d) → s.holder.native.inFrame = false →
      s.holder.native.Forgets dictID memory s.holder.dict d
  | .outputClose _ _ _ pool | .inputClose pool _ =>
    s.holder.closed = false → pool = none ∨
      ∀ d, s.holder.dict = some d → ¬ s.holder.native.RefersTo d
  | _ => True

/-- A call that keeps the account: a direct compressing stream is given no bytes while it
remembers a dictionary object, and no dictionary object after it is closed. -/
def StreamOp.Tidy (s : Sys (Stream D) D) : StreamOp D → Prop
  | .directSetDictBytes _ => s.holder.initialized = false → s.holder.dict = none
  | .directSetDict (some d) =>
    s.holder.initialized = false → s.holder.closed = true → ¬ Acquirable (s.locks d)
  | _ => True

/-- The methods `setDict`. -/
def StreamOp.SetsDict : StreamOp D → Prop
  | .outputSetDictBytes _ _ | .outputSetDict _ | .inputSetDictBytes _ _ | .inputSetDict _ _
  | .bufferSetDictBytes _ _ | .bufferSetDict _ _ | .directSetDictBytes _
  | .directSetDict _ => True
  | _ => False

/-- How a method ends. -/
inductive StreamEnds (dictID : D → ℕ) (op : StreamOp D) (s : Sys (Stream D) D)
    (result : Except JavaException Unit) (s' : Sys (Stream D) D) : Prop
  | kept (hdict : s'.holder.dict = s.holder.dict) (hlocks : s'.locks = s.locks)
      (hclosed : s'.holder.closed = s.holder.closed) (hsettled : s'.holder.Settled)
      (hrefs : op.Safe dictID s → ∀ d, s'.holder.native.RefersTo d →
        s.holder.native.RefersTo d ∨ s.holder.dict = some d)
  | replaced (new : Option D) (hresult : result = .ok ()) (hfree : Available new s.locks)
      (hdict : s'.holder.dict = new) (hlocks : s'.locks = drop s.holder.dict (take new s.locks))
      (hclosed : s'.holder.closed = s.holder.closed) (hsettled : s'.holder.Settled)
      (hopen : op.Tidy s → s.holder.closed = false)
      (hrefs : op.Safe dictID s → ∀ d, s'.holder.native.RefersTo d →
        new = some d ∨ s.holder.native.RefersTo d ∧ s.holder.dict ≠ some d)
  | closed (hop : ¬ op.SetsDict) (hdict : s'.holder.dict = none)
      (hlocks : s'.locks = drop s.holder.dict s.locks) (hclosed : s'.holder.closed = true)
      (hsettled : s'.holder.Settled)
      (hrefs : op.Safe dictID s → ∀ d, s'.holder.native.RefersTo d →
        s.holder.native.RefersTo d ∧ s.holder.dict ≠ some d)
  | forgotten (htidy : op.Tidy s → s.holder.dict = none) (hdict : s'.holder.dict = none)
      (hlocks : s'.locks = s.locks) (hclosed : s'.holder.closed = s.holder.closed)
      (hsettled : s'.holder.Settled)
      (hrefs : ∀ d, s'.holder.native.RefersTo d → s.holder.native.RefersTo d)

section Ends

variable {dictID : D → ℕ} {op : StreamOp D} {s : Sys (Stream D) D}

/-- The end of a call that leaves the dictionary alone. -/
theorem Stream.SameDict.ends {told : Prop} {result : Except JavaException Unit}
    {s' : Sys (Stream D) D} (h : SameDict told s s') : StreamEnds dictID op s result s' := by
  apply StreamEnds.kept h.dict h.locks h.closed h.settled
  intro _ d hd
  rcases h.refs d hd with hold | ⟨-, hdict⟩
  · exact Or.inl hold
  · exact Or.inr hdict

theorem StreamEnds.refused (hsettled : s.holder.Settled) (e : JavaException) :
    StreamEnds dictID op s (.error e) s :=
  (Stream.Harmless.refl False s hsettled).ends

namespace Stream

/-- A check: it throws, or something holds, and nothing is changed. -/
def Checks (p : Prop) (m : Java (Sys (Stream D) D) Unit) (s : Sys (Stream D) D) : Prop :=
  m.call s = (.ok (), s) ∧ p ∨ ∃ e, m.call s = (.error e, s)

omit [DecidableEq D] in
theorem checks_require (p : Stream D → Bool) (e : JavaException) :
    Checks (p s.holder = true) (require p e) s := by
  unfold Checks
  rw [require, Method.call_bind]
  cases hp : p s.holder with
  | true => simp [hp]
  | false => simp [hp]

omit [DecidableEq D] in
theorem checks_nonNull (isNull : Bool) : Checks (isNull = false) (requireNonNull isNull) s := by
  cases isNull with
  | true => exact Or.inr ⟨.nullPointer, rfl⟩
  | false => exact Or.inl ⟨rfl, rfl⟩

omit [DecidableEq D] in
theorem checks_bind {p q : Prop} {m : Java (Sys (Stream D) D) Unit}
    {next : Unit → Java (Sys (Stream D) D) Unit} (hm : Checks p m s)
    (hnext : Checks q (next ()) s) : Checks (p ∧ q) (m >>= next) s := by
  rcases hm with ⟨hcall, hp⟩ | ⟨e, hcall⟩
  · unfold Checks
    rw [Method.call_bind_ok hcall]
    rcases hnext with ⟨hends, hq⟩ | hends
    · exact Or.inl ⟨hends, hp, hq⟩
    · exact Or.inr hends
  · exact Or.inr ⟨e, Method.call_bind_error hcall next⟩

/-- A method that begins with a check. -/
theorem ends_of_checks {p : Prop} {m : Java (Sys (Stream D) D) Unit}
    {next : Unit → Java (Sys (Stream D) D) Unit} (hm : Checks p m s) (hsettled : s.holder.Settled)
    (hnext : p → StreamEnds dictID op s ((next ()).call s).1 ((next ()).call s).2) :
    StreamEnds dictID op s ((m >>= next).call s).1 ((m >>= next).call s).2 := by
  rcases hm with ⟨hcall, hp⟩ | ⟨e, hcall⟩
  · rw [Method.call_bind_ok hcall]
    exact hnext hp
  · rw [Method.call_bind_error hcall]
    exact StreamEnds.refused hsettled e

theorem replaceDict_call (new : Option D) (s : Sys (Stream D) D)
    (hheld : ∀ d, s.holder.dict = some d → 0 < s.locks d) :
    (replaceDict new).call s =
      (.ok (), ⟨{ s.holder with dict := new }, drop s.holder.dict s.locks⟩) := by
  rw [replaceDict, Method.call_bind, Method.call_get]
  simp only
  rw [Method.call_bind_ok (releaseIfSet_call hheld)]
  rfl

omit [DecidableEq D] in
theorem nativeCode_call (f : NativeCtx D → Option ErrorCode × NativeCtx D)
    (s : Sys (Stream D) D) :
    (nativeCode f).call s = (.ok (f s.holder.native).1,
      { s with holder := { s.holder with native := (f s.holder.native).2 } }) := by
  rw [nativeCode, Method.call_bind, Method.call_get]
  simp only
  rw [Method.call_bind, Method.call_set]
  rfl

/-- How `setDict` of a dictionary object ends behind its checks. -/
inductive SwapEnds (f : NativeCtx D → Option ErrorCode × NativeCtx D) (new : Option D)
    (s : Sys (Stream D) D) (result : Except JavaException Unit) (s' : Sys (Stream D) D) : Prop
  | refused (e : JavaException) (hresult : result = .error e) (hsame : s' = s)
  | failed (code : ErrorCode) (e : JavaException) (hresult : result = .error e)
      (hcode : (f s.holder.native).1 = some code) (hfree : Available new s.locks)
      (hsame : s' = ⟨{ s.holder with native := (f s.holder.native).2 }, s.locks⟩)
  | replaced (hresult : result = .ok ()) (hcode : (f s.holder.native).1 = none)
      (hfree : Available new s.locks)
      (hsame : s' = ⟨{ s.holder with native := (f s.holder.native).2, dict := new },
        drop s.holder.dict (take new s.locks)⟩)

theorem swapDict_ends (exception : ErrorCode → JavaException)
    (f : NativeCtx D → Option ErrorCode × NativeCtx D) (new : Option D)
    (hheld : ∀ d, s.holder.dict = some d → 0 < s.locks d) :
    SwapEnds f new s ((swapDict exception f new).call s).1
      ((swapDict exception f new).call s).2 := by
  rw [swapDict]
  by_cases hfree : Available new s.locks
  · rw [Method.call_bind_ok (acquireIfSet_call hfree), Method.call_bind_ok (nativeCode_call f _)]
    simp only
    cases hcode : (f s.holder.native).1 with
    | none =>
        rw [settle, replaceDict_call new _ (pos_of_take hheld)]
        exact .replaced rfl hcode hfree rfl
    | some code =>
        have hnew : ∀ d, new = some d → 0 < take new s.locks d := by
          intro d hd
          have hopen := (hfree d hd).1
          rw [take, hd, weight_self]
          omega
        rw [settle, Method.call_bind_ok (releaseIfSet_call hnew)]
        apply SwapEnds.failed code _ rfl hcode hfree
        simp [drop_take]
  · obtain ⟨e, he⟩ := acquireIfSet_call_of_not hfree
    rw [Method.call_bind_error he]
    exact .refused e rfl rfl

/-- A `setDict` whose native call makes pointers as it should. -/
theorem SwapEnds.ends {f : NativeCtx D → Option ErrorCode × NativeCtx D} {new : Option D}
    {result : Except JavaException Unit} {s' : Sys (Stream D) D} (h : SwapEnds f new s result s')
    (hsettled : s.holder.Settled) (hcls : s.holder.cls ≠ .directCompressing)
    (hopen : s.holder.closed = false)
    (hset : s.holder.cls = .output → (f s.holder.native).2.ddictSet = [])
    (hfailed : op.Safe dictID s → Available new s.locks →
      ∀ code, (f s.holder.native).1 = some code → ∀ d, (f s.holder.native).2.RefersTo d →
        s.holder.native.RefersTo d ∨ s.holder.dict = some d)
    (hreplaced : op.Safe dictID s → Available new s.locks → (f s.holder.native).1 = none →
      ∀ d, (f s.holder.native).2.RefersTo d →
        new = some d ∨ s.holder.native.RefersTo d ∧ s.holder.dict ≠ some d) :
    StreamEnds dictID op s result s' := by
  have hafter (dict : Option D) :
      Settled { s.holder with native := (f s.holder.native).2, dict := dict } := by
    constructor
    · rintro (houtput | hdirect)
      · exact hset houtput
      · exact absurd hdirect hcls
    · exact fun hdirect => absurd hdirect hcls
  cases h with
  | refused e hresult hsame =>
      rw [hresult, hsame]
      exact StreamEnds.refused hsettled e
  | failed code e hresult hcode hfree hsame =>
      subst hsame
      refine StreamEnds.kept rfl rfl rfl (hafter s.holder.dict) ?_
      exact fun hsafe d hd => hfailed hsafe hfree code hcode d hd
  | replaced hresult hcode hfree hsame =>
      subst hsame
      refine StreamEnds.replaced new hresult hfree rfl rfl rfl (hafter new) (fun _ => hopen) ?_
      exact fun hsafe d hd => hreplaced hsafe hfree hcode d hd

/-- A `close`, which does nothing the second time. -/
theorem ends_of_close {m : Java (Sys (Stream D) D) Unit} (hsettled : s.holder.Settled)
    (hm : s.holder.closed = false → StreamEnds dictID op s (m.call s).1 (m.call s).2) :
    StreamEnds dictID op s
      ((do let s ← (get : Java (Sys (Stream D) D) _); if s.holder.closed then pure () else m).call
        s).1
      ((do let s ← (get : Java (Sys (Stream D) D) _); if s.holder.closed then pure () else m).call
        s).2 := by
  rw [Method.call_bind, Method.call_get]
  simp only
  cases hclosed : s.holder.closed with
  | true => exact (Harmless.refl False s hsettled).ends
  | false => exact hm hclosed

/-- The end of a `close`, in which the native context may stay unfreed. -/
theorem ends_of_closed {s₁ s' : Sys (Stream D) D} {result : Except JavaException Unit}
    (hop : ¬ op.SetsDict) (hbody : SameDict False s s₁) (hcls : s'.holder.cls = s₁.holder.cls)
    (hdict : s'.holder.dict = none) (hclosed : s'.holder.closed = true)
    (hlocks : s'.locks = drop s₁.holder.dict s₁.locks)
    (hnative : s'.holder.native = s₁.holder.native.free ∨
      s'.holder.native = s₁.holder.native ∧ s.holder.cls ≠ .directCompressing ∧
        (op.Safe dictID s → ∀ d, s.holder.dict = some d → ¬ s.holder.native.RefersTo d)) :
    StreamEnds dictID op s result s' := by
  rw [hbody.dict, hbody.locks] at hlocks
  rcases hnative with hfree | ⟨hsame, hother, hunfreed⟩
  · apply StreamEnds.closed hop hdict hlocks hclosed
    · exact ⟨fun _ => by rw [hfree]; rfl, fun _ _ => by rw [hfree]; rfl⟩
    · intro _ d hd
      rw [hfree] at hd
      exact absurd hd (NativeCtx.not_refersTo_free _ d)
  · apply StreamEnds.closed hop hdict hlocks hclosed
    · constructor
      · rw [hcls, hsame]
        exact hbody.settled.noSet
      · rw [hcls, hbody.cls]
        exact fun hdirect => absurd hdirect hother
    · intro hsafe d hd
      rw [hsame] at hd
      have hold : s.holder.native.RefersTo d := (hbody.refs d hd).resolve_right fun h => h.1
      exact ⟨hold, fun hremembered => hunfreed hsafe d hremembered hold⟩

end Stream

end Ends

namespace Stream

omit [DecidableEq D] in
theorem loadFastDictCompress_cases (dict : Option D) (n : NativeCtx D) :
    (∃ code, loadFastDictCompress dict n = (some code, n)) ∨
      loadFastDictCompress dict n = (none, { n with ref := dict }) := by
  cases dict with
  | none => exact Or.inl ⟨_, rfl⟩
  | some d =>
      change (∃ code, n.refCDict (some d) = (some code, n)) ∨ n.refCDict (some d) = _
      unfold NativeCtx.refCDict
      split
      · exact Or.inl ⟨_, rfl⟩
      · exact Or.inr rfl

/-- What `ZSTD_DCtx_refDDict` does to a context that is to forget the old dictionary. -/
theorem loadFastDictDecompress_cases (dictID : D → ℕ) (memory : Memory) (r dict : Option D)
    (n : NativeCtx D)
    (hforgets : ∀ d, dict = some d → n.inFrame = false → n.Forgets dictID memory r d) :
    (∃ code, (loadFastDictDecompress dictID memory dict n).1 = some code ∧
        ∀ d, (loadFastDictDecompress dictID memory dict n).2.RefersTo d →
          n.RefersTo d ∨ r = some d) ∨
      (loadFastDictDecompress dictID memory dict n).1 = none ∧
        ∀ d, (loadFastDictDecompress dictID memory dict n).2.RefersTo d →
          dict = some d ∨ n.RefersTo d ∧ r ≠ some d := by
  cases dict with
  | none => exact Or.inl ⟨_, rfl, fun _ => Or.inl⟩
  | some new =>
      rw [show loadFastDictDecompress dictID memory (some new) n =
        n.refDDict dictID memory (some new) from rfl]
      unfold NativeCtx.refDDict
      cases hframe : n.inFrame with
      | true => exact Or.inl ⟨_, rfl, fun _ => Or.inl⟩
      | false =>
          obtain ⟨hroom, hold⟩ := hforgets new rfl hframe
          cases hmultiple : n.refMultipleDDicts with
          | true =>
              by_cases henough : memory = .enough
              · subst henough
                refine Or.inr ⟨rfl, fun d hd => ?_⟩
                by_cases hsame : d = new
                · exact Or.inl (congrArg some hsame.symm)
                · have hset := hd.resolve_left fun href => hsame (Option.some.inj href).symm
                  have hkept := (List.mem_cons.mp hset).resolve_left hsame
                  obtain ⟨hmem, hother⟩ := List.mem_filter.mp hkept
                  refine Or.inr ⟨Or.inr hmem, fun hr => ?_⟩
                  have hid := (hold d hr hsame hmem).2
                  simp [hid] at hother
              · have hr : r = some new := (hroom hmultiple).resolve_left henough
                have hrefs {d : D} (hd : NativeCtx.RefersTo { n with ref := some new } d) :
                    n.RefersTo d ∨ r = some d := by
                  rcases hd with href | hset
                  · exact Or.inr (hr.trans href)
                  · exact Or.inl (Or.inr hset)
                cases memory with
                | enough => exact absurd rfl henough
                | noArray | noCopy => exact Or.inl ⟨_, rfl, fun d hd => hrefs hd⟩
          | false =>
              refine Or.inr ⟨rfl, fun d hd => ?_⟩
              by_cases hsame : d = new
              · exact Or.inl (congrArg some hsame.symm)
              · have hset := hd.resolve_left fun href => hsame (Option.some.inj href).symm
                refine Or.inr ⟨Or.inr hset, fun hr => ?_⟩
                have hmust := (hold d hr hsame hset).1
                rw [hmultiple] at hmust
                cases hmust

end Stream

section Methods

variable {dictID : D → ℕ} {op : StreamOp D} {s : Sys (Stream D) D}

namespace Stream

theorem outputSetDict_ends (dict : Option D) (hcls : s.holder.cls = .output)
    (hsettled : s.holder.Settled) (hheld : ∀ d, s.holder.dict = some d → 0 < s.locks d) :
    StreamEnds dictID (.outputSetDict dict) s ((Output.setDict dict).call s).1
      ((Output.setDict dict).call s).2 := by
  apply ends_of_checks (checks_bind (checks_require _ _) (checks_require _ _)) hsettled
  intro hchecks
  have hset := hsettled.noSet (Or.inl hcls)
  have hnative := loadFastDictCompress_cases dict s.holder.native
  apply (swapDict_ends intError _ dict hheld).ends hsettled
  · rw [hcls]
    nofun
  · simpa using hchecks.1
  · intro _
    rcases hnative with ⟨code, hfailed⟩ | hdone
    · rwa [hfailed]
    · rwa [hdone]
  · intro _ _ code hcode d hd
    rcases hnative with ⟨other, hfailed⟩ | hdone
    · rw [hfailed] at hd
      exact Or.inl hd
    · rw [hdone] at hcode
      cases hcode
  · intro _ _ hcode d hd
    rcases hnative with ⟨other, hfailed⟩ | hdone
    · rw [hfailed] at hcode
      cases hcode
    · rw [hdone] at hd
      rcases hd with href | hmem
      · exact Or.inl href
      · rw [hset] at hmem
        cases hmem

/-- `setDict` of a dictionary object in both classes that decompress. -/
theorem decompressSetDict_ends (memory : Memory) (dict : Option D)
    (hcls : s.holder.cls = .input ∨ s.holder.cls = .bufferDecompressing)
    (hsettled : s.holder.Settled) (hheld : ∀ d, s.holder.dict = some d → 0 < s.locks d)
    (hopen : s.holder.closed = false)
    (hsafe : op.Safe dictID s → ∀ d, dict = some d → Acquirable (s.locks d) →
      s.holder.native.inFrame = false →
        s.holder.native.Forgets dictID memory s.holder.dict d) :
    StreamEnds dictID op s
      ((swapDict intError (loadFastDictDecompress dictID memory dict) dict).call s).1
      ((swapDict intError (loadFastDictDecompress dictID memory dict) dict).call s).2 := by
  have hnative (hop : op.Safe dictID s) (hfree : Available dict s.locks) :=
    loadFastDictDecompress_cases dictID memory s.holder.dict dict s.holder.native
      fun d hd => hsafe hop d hd (hfree d hd)
  apply (swapDict_ends intError _ dict hheld).ends hsettled
  · rcases hcls with hcls | hcls <;> rw [hcls] <;> nofun
  · exact hopen
  · intro houtput
    rcases hcls with hcls | hcls <;> rw [hcls] at houtput <;> cases houtput
  · intro hop hfree code hcode
    rcases hnative hop hfree with ⟨other, -, hrefs⟩ | ⟨hdone, -⟩
    · exact hrefs
    · rw [hdone] at hcode
      cases hcode
  · intro hop hfree hcode
    rcases hnative hop hfree with ⟨other, hfailed, -⟩ | ⟨-, hrefs⟩
    · rw [hfailed] at hcode
      cases hcode
    · exact hrefs

theorem outputClose_ends (failure : Option ErrorCode) (w : NativeCtx.Work D)
    (parent pool : Option JavaException) (hcls : s.holder.cls = .output)
    (hsettled : s.holder.Settled) (hheld : ∀ d, s.holder.dict = some d → 0 < s.locks d) :
    StreamEnds dictID (.outputClose failure w parent pool) s
      ((Output.close failure w parent pool).call s).1
      ((Output.close failure w parent pool).call s).2 := by
  apply ends_of_close hsettled
  intro hopen
  have hbody : SameDict False s _ := harmless_closeBody failure w parent s hsettled
  rw [Method.call_tryFinally_snd]
  generalize ((Output.closeBody failure w parent).call s).2 = s₁ at hbody ⊢
  rw [Output.closeFinally, Method.call_bind_ok (replaceDict_call none s₁ _)]
  · have hother : s.holder.cls ≠ .directCompressing := by
      rw [hcls]
      nofun
    cases pool with
    | none => exact ends_of_closed id hbody rfl rfl rfl rfl (Or.inl rfl)
    | some e =>
        refine ends_of_closed id hbody rfl rfl rfl rfl (Or.inr ⟨rfl, hother, fun hsafe => ?_⟩)
        exact (hsafe hopen).resolve_left nofun
  · rw [hbody.dict, hbody.locks]
    exact hheld

theorem inputClose_ends (pool parent : Option JavaException) (hcls : s.holder.cls = .input)
    (hsettled : s.holder.Settled) (hheld : ∀ d, s.holder.dict = some d → 0 < s.locks d) :
    StreamEnds dictID (.inputClose pool parent) s
      ((Input.close pool parent).call s).1 ((Input.close pool parent).call s).2 := by
  have hbody : SameDict False s s := Harmless.refl False s hsettled
  apply ends_of_close hsettled
  intro hopen
  rw [Method.call_bind_ok (replaceDict_call none s hheld)]
  cases pool with
  | none => cases parent <;> exact ends_of_closed id hbody rfl rfl rfl rfl (Or.inl rfl)
  | some e =>
      have hother : s.holder.cls ≠ .directCompressing := by
        rw [hcls]
        nofun
      refine ends_of_closed id hbody rfl rfl rfl rfl (Or.inr ⟨rfl, hother, fun hsafe => ?_⟩)
      exact (hsafe hopen).resolve_left nofun

theorem bufferClose_ends (hsettled : s.holder.Settled)
    (hheld : ∀ d, s.holder.dict = some d → 0 < s.locks d) :
    StreamEnds dictID .bufferClose s ((BufferDecompressing.close).call s).1
      ((BufferDecompressing.close).call s).2 := by
  have hbody : SameDict False s s := Harmless.refl False s hsettled
  apply ends_of_close hsettled
  intro _
  have hreplaced := replaceDict_call none
    ⟨{ s.holder with native := s.holder.native.free, closed := true }, s.locks⟩ hheld
  have hcall : (do freeStream; setClosed; replaceDict none : Java (Sys (Stream D) D) Unit).call s =
      (replaceDict none).call
        ⟨{ s.holder with native := s.holder.native.free, closed := true }, s.locks⟩ := rfl
  rw [hcall, hreplaced]
  exact ends_of_closed id hbody rfl rfl rfl rfl (Or.inl rfl)

theorem directClose_ends (w : NativeCtx.Work D) (hsettled : s.holder.Settled)
    (hheld : ∀ d, s.holder.dict = some d → 0 < s.locks d) :
    StreamEnds dictID (.directClose w) s ((DirectCompressing.close w).call s).1
      ((DirectCompressing.close w).call s).2 := by
  apply ends_of_close hsettled
  intro _
  have hbody : SameDict False s _ := harmless_workIfInitialized w s hsettled
  rw [Method.call_tryFinally_snd]
  generalize ((DirectCompressing.workIfInitialized w).call s).2 = s₁ at hbody ⊢
  have hheld₁ : ∀ d, s₁.holder.dict = some d → 0 < s₁.locks d := by
    rw [hbody.dict, hbody.locks]
    exact hheld
  have hreplaced := replaceDict_call none ⟨{ s₁.holder with
    native := s₁.holder.native.free, closed := true, initialized := false, bytes := false },
    s₁.locks⟩ hheld₁
  have hcall : (DirectCompressing.closeFinally : Java (Sys (Stream D) D) Unit).call s₁ =
      (replaceDict none).call ⟨{ s₁.holder with
        native := s₁.holder.native.free, closed := true, initialized := false, bytes := false },
        s₁.locks⟩ := rfl
  rw [hcall, hreplaced]
  exact ends_of_closed id hbody rfl rfl rfl rfl (Or.inl rfl)

theorem directSetDictBytes_ends (isNull : Bool) (hsettled : s.holder.Settled) :
    StreamEnds dictID (.directSetDictBytes isNull) s
      ((DirectCompressing.setDictBytes isNull).call s).1
      ((DirectCompressing.setDictBytes isNull).call s).2 := by
  apply ends_of_checks (checks_require _ _) hsettled
  intro hinitialized
  refine StreamEnds.forgotten (fun htidy => htidy ?_) rfl rfl rfl ?_ fun _ => id
  · simpa using hinitialized
  · exact ⟨hsettled.noSet, hsettled.unused⟩

theorem directSetDict_ends (dict : Option D) (hcls : s.holder.cls = .directCompressing)
    (hsettled : s.holder.Settled) (hheld : ∀ d, s.holder.dict = some d → 0 < s.locks d) :
    StreamEnds dictID (.directSetDict dict) s ((DirectCompressing.setDict dict).call s).1
      ((DirectCompressing.setDict dict).call s).2 := by
  apply ends_of_checks (checks_require _ _) hsettled
  intro hinitialized
  have hunused := hsettled.unused hcls (by simpa using hinitialized)
  obtain ⟨s₁, hbytes, hsame⟩ : ∃ s₁, (setBytes false).call s = (.ok (), s₁) ∧
      SameDict False s s₁ := ⟨_, rfl, harmless_setBytes false s hsettled⟩
  have hnone : ∀ other, ¬ s₁.holder.native.RefersTo other := by
    intro other hother
    rcases (hsame.refs other hother).resolve_right fun h => h.1 with href | hmem
    · rw [hunused] at href
      cases href
    · rw [hsettled.noSet (Or.inr hcls)] at hmem
      cases hmem
  have hheld₁ : ∀ d, s₁.holder.dict = some d → 0 < s₁.locks d := by
    rw [hsame.dict, hsame.locks]
    exact hheld
  rw [Method.call_bind_ok hbytes]
  cases dict with
  | none => exact hsame.ends
  | some d =>
      rw [Method.call_bind_ok (rfl : (requireNonNull (some d).isNone).call s₁ = (.ok (), s₁))]
      by_cases hfree : Available (some d) s₁.locks
      · rw [Method.call_bind_ok (acquireIfSet_call hfree),
          replaceDict_call (some d) _ (pos_of_take hheld₁)]
        refine StreamEnds.replaced (some d) rfl (hsame.locks ▸ hfree) rfl ?_ hsame.closed ?_ ?_ ?_
        · change drop s₁.holder.dict (take (some d) s₁.locks) = _
          rw [hsame.dict, hsame.locks]
        · exact ⟨hsame.settled.noSet, hsame.settled.unused⟩
        · intro htidy
          by_contra hclosed
          have hacq : Acquirable (s.locks d) := hsame.locks ▸ hfree d rfl
          exact htidy (by simpa using hinitialized) (by simpa using hclosed) hacq
        · exact fun _ other hother => absurd hother (hnone other)
      · obtain ⟨e, he⟩ := acquireIfSet_call_of_not hfree
        rw [Method.call_bind_error he]
        exact hsame.ends

end Stream

open ZstdJni.Dict.Stream in
/-- Every call of a stream whose dictionary has a user ends in one of the four ways. -/
theorem streamClass_ends (hhas : (streamClass dictID).has s.holder op = true)
    (hsettled : s.holder.Settled) (hheld : ∀ d, s.holder.dict = some d → 0 < s.locks d) :
    StreamEnds dictID op s (((streamClass dictID).perform op).call s).1
      (((streamClass dictID).perform op).call s).2 := by
  have hcls : s.holder.cls = op.cls := by simpa [streamClass] using hhas
  cases op with
  | outputSetDict dict => exact outputSetDict_ends dict hcls hsettled hheld
  | outputClose failure w parent pool =>
      exact outputClose_ends failure w parent pool hcls hsettled hheld
  | inputSetDict memory dict =>
      apply ends_of_checks (checks_require _ _) hsettled
      intro hopen
      have hclosed : s.holder.closed = false := by simpa using hopen
      apply decompressSetDict_ends memory dict (Or.inl hcls) hsettled hheld hclosed
      rintro hsafe d rfl
      exact hsafe hclosed
  | inputClose pool parent => exact inputClose_ends pool parent hcls hsettled hheld
  | bufferSetDict memory dict =>
      apply ends_of_checks (checks_nonNull _) hsettled
      intro _
      apply ends_of_checks (checks_require _ _) hsettled
      intro hopen
      have hclosed : s.holder.closed = false := by simpa using hopen
      apply decompressSetDict_ends memory dict (Or.inr hcls) hsettled hheld hclosed
      rintro hsafe d rfl
      exact hsafe hclosed
  | bufferClose => exact bufferClose_ends hsettled hheld
  | directSetDictBytes isNull => exact directSetDictBytes_ends isNull hsettled
  | directSetDict dict => exact directSetDict_ends dict hcls hsettled hheld
  | directClose w => exact directClose_ends w hsettled hheld
  | outputParameter | outputSetDictBytes | write | outputFlush | inputParameter
  | setRefMultipleDDicts | inputSetDictBytes | inputRead | bufferParameter | bufferSetDictBytes
  | bufferRead | directCompress | directFlush =>
      exact (StreamOp.perform_harmless dictID id s hsettled).ends

end Methods

end ZstdJni.Dict
