/-
# Dictionaries that native contexts refer to

A native context has plain pointers to dictionaries, and nothing but the lock of a
dictionary keeps it from being freed while it is pointed to.  That goes well as long as every
pointer is backed: the object with the native context is still counted at the lock.
Contexts and streams of all classes are taken together here.

An object may be counted more often than it remembers, so a lock that is never given back
does no harm.  Harm comes from pointers that the object does not know of: those in a set of
dictionaries, those that a failed call has left, and those of a native context that a `close`
has not freed.
-/

import ZstdJni.Dict.ContextAccount
import ZstdJni.Dict.StreamDict

namespace ZstdJni.Dict

open ZstdJni.Foundation ZstdJni.Native ZstdJni.AutoClose
open ZstdJni.Context.SequenceProducer (Answer)

section Sum

variable {S₁ S₂ Op₁ Op₂ D : Type}

/-- The objects of two classes. -/
def HolderClass.sum (C₁ : HolderClass S₁ Op₁ D) (C₂ : HolderClass S₂ Op₂ D) :
    HolderClass (S₁ ⊕ S₂) (Op₁ ⊕ Op₂) D where
  has
    | .inl s, .inl op => C₁.has s op
    | .inr s, .inr op => C₂.has s op
    | _, _ => false
  perform
    | .inl op => ExceptT.mk fun s =>
      match s with
      | ⟨.inl holder, locks⟩ =>
        let ended := (C₁.perform op).call ⟨holder, locks⟩
        (ended.1, ⟨.inl ended.2.holder, ended.2.locks⟩)
      | s => (.ok (), s)
    | .inr op => ExceptT.mk fun s =>
      match s with
      | ⟨.inr holder, locks⟩ =>
        let ended := (C₂.perform op).call ⟨holder, locks⟩
        (ended.1, ⟨.inr ended.2.holder, ended.2.locks⟩)
      | s => (.ok (), s)

/-- A condition on the calls of each of the two classes. -/
def sumSafe (safe₁ : Sys S₁ D → Op₁ → Prop) (safe₂ : Sys S₂ D → Op₂ → Prop)
    (s : Sys (S₁ ⊕ S₂) D) (op : Op₁ ⊕ Op₂) : Prop :=
  match s.holder, op with
  | .inl holder, .inl op => safe₁ ⟨holder, s.locks⟩ op
  | .inr holder, .inr op => safe₂ ⟨holder, s.locks⟩ op
  | _, _ => True

end Sum

section Backed

variable {H S Op D : Type} {C : HolderClass S Op D} {remembered : S → Option D}
  {refers : S → D → Prop} {good : S → Prop} {safe : Sys S D → Op → Prop}

/-- What a safe call does: what the object remembers is counted, and a pointer behind the
call is to what it remembers, or an old one to a dictionary that is not given back. -/
structure Backs [DecidableEq D] (remembered : S → Option D) (refers : S → D → Prop)
    (good : S → Prop) (s s' : Sys S D) : Prop where
  covers : Covers (remembered s.holder) s.locks (remembered s'.holder) s'.locks
  refers : ∀ d, refers s'.holder d →
    remembered s'.holder = some d ∨ refers s.holder d ∧ s.locks d ≤ s'.locks d
  good : good s'.holder

variable [DecidableEq H] [DecidableEq D]

/-- The safe calls of a class. -/
def HolderClass.Backing (C : HolderClass S Op D) (remembered : S → Option D)
    (refers : S → D → Prop) (good : S → Prop) (safe : Sys S D → Op → Prop) : Prop :=
  ∀ s op, C.has s.holder op = true → good s.holder → Used remembered s → safe s op →
    Backs remembered refers good s ((C.perform op).call s).2

variable [Fintype H]

/-- The locks count more than what is remembered: every pointer is counted, too. -/
def Backed (remembered : S → Option D) (refers : S → D → Prop) (good : S → Prop)
    (w : World H S D) : Prop :=
  ∃ held : H → D → ℕ, Balanced held w.locks ∧
    ∀ h, good (w.holders h) ∧
      ∀ d, remembered (w.holders h) = some d ∨ refers (w.holders h) d → 0 < held h d

/-- The pointers after a safe call. -/
theorem Backed.put {w : World H S D} (h : Backed remembered refers good w) (i : H) {s' : Sys S D}
    (hbacks : Used remembered (w.sys i) → Backs remembered refers good (w.sys i) s') :
    Backed remembered refers good (w.put i s') := by
  obtain ⟨held, hbalanced, hheld⟩ := h
  have hremembered : ∀ d, remembered (w.holders i) = some d → 0 < held i d :=
    fun d hd => (hheld i).2 d (Or.inl hd)
  have hcall := hbacks fun d hd => hbalanced.pos (hremembered d hd)
  refine ⟨Function.update held i (recount (held i) w.locks s'.locks), ?_, fun j => ?_⟩
  · apply hbalanced.update i
    · exact hcall.covers.recount_moved hremembered
    · intro d hclosed
      exact hcall.covers.recount_of_closed hclosed (hbalanced.closed hclosed)
  · by_cases hj : j = i
    · subst hj
      simp only [World.put, Function.update_self]
      refine ⟨hcall.good, fun d hd => ?_⟩
      have hcounted : remembered s'.holder = some d ∨
          refers (w.holders j) d ∧ w.locks d ≤ s'.locks d := by
        rcases hd with hd | hd
        · exact Or.inl hd
        · exact hcall.refers d hd
      rcases hcounted with hd | ⟨hold, hle⟩
      · exact hcall.covers.recount_pos hremembered hd
      · exact recount_pos_of_le ((hheld j).2 d (Or.inr hold)) hle
    · simpa [World.put, hj] using hheld j

omit [DecidableEq H] in
/-- The pointers after an attempt to close a dictionary. -/
theorem Backed.closeDict {w : World H S D} (h : Backed remembered refers good w) (d : D) :
    Backed remembered refers good
      { w with locks := Function.update w.locks d (beginClose.call (w.locks d)).2 } := by
  obtain ⟨held, hbalanced, hheld⟩ := h
  exact ⟨held, balanced_beginClose hbalanced d, hheld⟩

/-- A run whose calls are all safe keeps every pointer backed. -/
theorem Backed.run (hclass : C.Backing remembered refers good safe) {w : World H S D}
    (h : Backed remembered refers good w) {inputs : List (Input H Op D)}
    (hsafe : C.machine.AllSteps (CarefulInput safe) w inputs) :
    Backed remembered refers good (C.machine.run w inputs).2 := by
  apply Machine.run_state_inv_of_allSteps (Backed remembered refers good) _ h hsafe
  intro w input event next hw hinput hstep
  cases input with
  | call i op =>
      simp only [HolderClass.machine] at hstep
      split at hstep
      · next hhas =>
          obtain ⟨-, rfl⟩ := Prod.mk.inj (Option.some.inj hstep)
          have hgood : good (w.holders i) := by
            obtain ⟨held, -, hheld⟩ := hw
            exact (hheld i).1
          exact hw.put i fun hused => hclass (w.sys i) op hhas hgood hused hinput
      · cases hstep
  | closeDict d =>
      obtain ⟨-, rfl⟩ := Prod.mk.inj (Option.some.inj hstep)
      exact hw.closeDict d

/-- No dictionary that a native context refers to can be freed: its lock is positive, and an
attempt to close it throws and changes nothing. -/
structure Protected (C : HolderClass S Op D) (refers : S → D → Prop) (w : World H S D) : Prop where
  locks : ∀ h d, refers (w.holders h) d → 0 < w.locks d
  closeDict : ∀ h d, refers (w.holders h) d →
    ∃ e, C.machine.step w (.closeDict d) = some (.error e, w)

theorem Backed.isProtected {w : World H S D} (h : Backed remembered refers good w) :
    Protected C refers w := by
  obtain ⟨held, hbalanced, hheld⟩ := h
  have hpos (i : H) (d : D) (hd : refers (w.holders i) d) : 0 < w.locks d :=
    hbalanced.pos ((hheld i).2 d (Or.inr hd))
  refine ⟨hpos, fun i d hd => ⟨.illegalState "Attempt to close while in use", ?_⟩⟩
  have hlock := hpos i d hd
  have hopen : w.locks d ≠ sharedLockClosed := by
    unfold sharedLockClosed
    omega
  simp only [HolderClass.machine, beginClose_of_used hopen hlock.ne', Function.update_eq_self]
  rfl

omit [DecidableEq H] [DecidableEq D] in
/-- New objects have no pointers. -/
theorem Backed.create {holders : H → S} (hgood : ∀ h, good (holders h))
    (hnone : ∀ h, remembered (holders h) = none) (hrefers : ∀ h d, ¬ refers (holders h) d) :
    Backed remembered refers good (World.create holders : World H S D) := by
  refine ⟨fun _ _ => 0, Balanced.zero, fun h => ⟨hgood h, fun d hd => ?_⟩⟩
  rcases hd with hd | hd
  · cases (hnone h).symm.trans hd
  · exact absurd hd (hrefers h d)

end Backed

variable {D : Type} [DecidableEq D]

/-- The safe calls of two classes. -/
theorem HolderClass.Backing.sum {S₁ S₂ Op₁ Op₂ : Type} {C₁ : HolderClass S₁ Op₁ D}
    {C₂ : HolderClass S₂ Op₂ D} {remembered₁ : S₁ → Option D} {remembered₂ : S₂ → Option D}
    {refers₁ : S₁ → D → Prop} {refers₂ : S₂ → D → Prop} {good₁ : S₁ → Prop} {good₂ : S₂ → Prop}
    {safe₁ : Sys S₁ D → Op₁ → Prop} {safe₂ : Sys S₂ D → Op₂ → Prop}
    (h₁ : C₁.Backing remembered₁ refers₁ good₁ safe₁)
    (h₂ : C₂.Backing remembered₂ refers₂ good₂ safe₂) :
    (C₁.sum C₂).Backing (Sum.elim remembered₁ remembered₂) (Sum.elim refers₁ refers₂)
      (Sum.elim good₁ good₂) (sumSafe safe₁ safe₂) := by
  rintro ⟨holder, locks⟩ op hhas hgood hused hsafe
  cases holder with
  | inl holder =>
      cases op with
      | inl op =>
          have hcall := h₁ ⟨holder, locks⟩ op hhas hgood hused hsafe
          exact ⟨hcall.covers, hcall.refers, hcall.good⟩
      | inr op => cases hhas
  | inr holder =>
      cases op with
      | inl op => cases hhas
      | inr op =>
          have hcall := h₂ ⟨holder, locks⟩ op hhas hgood hused hsafe
          exact ⟨hcall.covers, hcall.refers, hcall.good⟩

/-- A freed native context has no pointer, and no context has a set of dictionaries. -/
structure Ctx.Tracked {D : Type} (c : Ctx D) : Prop where
  single : c.native.Single
  freed : c.native.alive = false → c.native.ref = none

/-- A native call that makes no pointer if it fails, and none but to `new` if it succeeds, as
long as there is no set. -/
structure NativeCtx.Points {D : Type} (new : Option D)
    (f : NativeCtx D → Option ErrorCode × NativeCtx D) : Prop where
  failed : ∀ n : NativeCtx D, n.Single → ∀ code, (f n).1 = some code →
    ∀ d, (f n).2.RefersTo d → n.RefersTo d
  done : ∀ n : NativeCtx D, n.Single → (f n).1 = none → ∀ d, (f n).2.RefersTo d → new = some d

namespace NativeCtx

theorem not_mem_of_single {D : Type} {n : NativeCtx D} (h : n.Single) (d : D) :
    d ∉ n.ddictSet := by
  rw [h.ddictSet]
  exact List.not_mem_nil

theorem points_refCDict {D : Type} (new : Option D) : Points new (refCDict new) where
  failed n _ code hcode d hd := by
    unfold refCDict at hcode hd
    split at hd
    · exact hd
    · next hframe =>
        rw [if_neg hframe] at hcode
        cases hcode
  done n hsingle hcode d hd := by
    unfold refCDict at hcode hd
    split at hd
    · next hframe =>
        rw [if_pos hframe] at hcode
        cases hcode
    · exact hd.resolve_right (not_mem_of_single hsingle d)

theorem points_loadDictionary {D : Type} (memory : Memory) :
    Points none (loadDictionary memory : NativeCtx D → Option ErrorCode × NativeCtx D) where
  failed n _ _ _ d hd := (dropping_loadDictionary memory).refs n d hd
  done n hsingle hcode d hd := by
    unfold loadDictionary at hcode hd
    split_ifs at hcode hd
    rcases hd with href | hset
    · exact href
    · exact absurd hset (not_mem_of_single hsingle d)

theorem points_reset {D : Type} (failure : Option ErrorCode) :
    Points none (reset failure : NativeCtx D → Option ErrorCode × NativeCtx D) where
  failed n _ _ _ d hd := by
    cases failure with
    | none => exact Or.inr (hd.resolve_left nofun)
    | some code => exact hd
  done n hsingle hcode d hd := by
    cases failure with
    | none =>
        rcases hd with href | hset
        · exact href
        · exact absurd hset (not_mem_of_single hsingle d)
    | some code => cases hcode

end NativeCtx

omit [DecidableEq D] in
theorem Ctx.points_loadDictFast0 (dictID : D → ℕ) (memory : Memory) (cls : CtxClass)
    (dict : Option D) : NativeCtx.Points dict (loadDictFast0 dictID memory cls dict) where
  failed n hsingle := by
    rw [loadDictFast0_of_single hsingle]
    exact (NativeCtx.points_refCDict dict).failed n hsingle
  done n hsingle := by
    rw [loadDictFast0_of_single hsingle]
    exact (NativeCtx.points_refCDict dict).done n hsingle

/-- What a call of a context does to pointers. -/
abbrev CtxBacks (s s' : Sys (Ctx D) D) : Prop :=
  Backs Ctx.dict (fun c => c.native.RefersTo) Ctx.Tracked s s'

section Contexts

variable {s s' : Sys (Ctx D) D}

theorem ctxBacks_of_parts (htracked : s.holder.Tracked) (hused : Used Ctx.dict s)
    (hsame : Ctx.parts s' = Ctx.parts s) : CtxBacks s s' := by
  simp only [Ctx.parts, Prod.mk.injEq] at hsame
  obtain ⟨hdict, hnative, hlocks⟩ := hsame
  constructor
  · exact (Trade.keep hdict hlocks).covers hused
  · intro d hd
    rw [hnative] at hd
    exact Or.inr ⟨hd, by rw [hlocks]⟩
  · constructor
    · rw [hnative]
      exact htracked.single
    · rw [hnative]
      exact htracked.freed

/-- A call of one of the methods that have nothing to do with dictionaries. -/
theorem ctxBacks_of_quiet (htracked : s.holder.Tracked) (hused : Used Ctx.dict s)
    (hsame : Ctx.quiet s' = Ctx.quiet s) : CtxBacks s s' := by
  simp only [Ctx.quiet, Prod.mk.injEq] at hsame
  obtain ⟨hdict, hlocks, halive, hmultiple, hset, href⟩ := hsame
  have hnone := htracked.single.ddictSet
  rw [hset, hnone, if_pos rfl, if_pos rfl, Option.some.injEq] at href
  constructor
  · exact (Trade.keep hdict hlocks).covers hused
  · intro d hd
    rw [NativeCtx.RefersTo, href, hset] at hd
    exact Or.inr ⟨hd, by rw [hlocks]⟩
  · constructor
    · exact ⟨hmultiple.trans htracked.single.refMultipleDDicts, hset.trans hnone⟩
    · rw [halive, href]
      exact htracked.freed

/-- A replacement, whether its native call fails or not. -/
theorem ReplaceEnds.backs {f : NativeCtx D → Option ErrorCode × NativeCtx D} {new : Option D}
    {result : Except JavaException Unit} (h : ReplaceEnds f new s result s')
    (hf : NativeCtx.Plain f) (hpoints : NativeCtx.Points new f) (htracked : s.holder.Tracked)
    (hused : Used Ctx.dict s) : CtxBacks s s' := by
  have hafter (hopen : s.holder.native.alive = true)
      (hnative : s'.holder.native = (f s.holder.native).2) : s'.holder.Tracked := by
    constructor
    · rw [hnative]
      exact hf.single _ htracked.single
    · intro hclosed
      rw [hnative, hf.alive, hopen] at hclosed
      cases hclosed
  cases h with
  | refused e hresult hsame => exact ctxBacks_of_parts htracked hused hsame
  | failed code e hresult hcode hopen hacq hfree hparts =>
      simp only [Ctx.parts, Prod.mk.injEq] at hparts
      obtain ⟨hdict, hnative, hlocks⟩ := hparts
      constructor
      · rw [hdict, hlocks]
        exact covers_take _ fun d hd => (hfree d hd).1
      · intro d hd
        rw [hnative] at hd
        refine Or.inr ⟨hpoints.failed _ htracked.single code hcode d hd, ?_⟩
        rw [hlocks, take]
        omega
      · exact hafter hopen hnative
  | replaced hresult hcode hopen hfree hparts =>
      simp only [Ctx.parts, Prod.mk.injEq] at hparts
      obtain ⟨hdict, hnative, hlocks⟩ := hparts
      constructor
      · rw [hdict]
        exact (Trade.swap (fun d hd => (hfree d hd).1) hlocks).covers hused
      · intro d hd
        rw [hnative] at hd
        exact Or.inl (hdict.trans (hpoints.done _ htracked.single hcode d hd))
      · exact hafter hopen hnative

omit [DecidableEq D] in
theorem tracked_of_freed {c : Ctx D} (hnative : c.native = s.holder.native.free)
    (hsingle : s.holder.native.Single) : c.Tracked := by
  constructor
  · rw [hnative]
    exact ⟨hsingle.refMultipleDDicts, rfl⟩
  · intro _
    rw [hnative]
    rfl

/-- A `close`, whether the producer throws or not. -/
theorem Ctx.CloseEnds.backs {freeState : Answer Unit} {result : Except JavaException Unit}
    (h : CloseEnds freeState s result s') (htracked : s.holder.Tracked)
    (hused : Used Ctx.dict s) : CtxBacks s s' := by
  cases h with
  | kept hlock hsame hresult =>
      subst hsame
      exact ctxBacks_of_parts htracked hused rfl
  | thrown fatal hlock hopen hseqprod hthrows hresult hparts =>
      simp only [parts, Prod.mk.injEq] at hparts
      obtain ⟨hdict, hnative, hlocks⟩ := hparts
      constructor
      · exact (Trade.keep hdict hlocks).covers hused
      · intro d hd
        rw [hnative] at hd
        exact absurd hd (NativeCtx.not_refersTo_free _ d)
      · exact tracked_of_freed hnative htracked.single
  | closed hlock hresult hparts =>
      simp only [parts, Prod.mk.injEq] at hparts
      obtain ⟨hdict, hnative, hlocks⟩ := hparts
      have hnone : ∀ d, ¬ s'.holder.native.RefersTo d := by
        intro d hd
        rw [hnative] at hd
        split at hd
        · exact NativeCtx.not_refersTo_free _ d hd
        · next hclosed =>
            rcases hd with href | hset
            · rw [htracked.freed (by simpa using hclosed)] at href
              cases href
            · exact NativeCtx.not_mem_of_single htracked.single d hset
      have htrade : Trade s.holder.dict s.locks none s'.locks :=
        .swap (fun d hd => by cases hd) (by rw [take_none]; exact hlocks)
      constructor
      · rw [hdict]
        exact htrade.covers hused
      · exact fun d hd => absurd hd (hnone d)
      · constructor
        · rw [hnative]
          split
          · exact ⟨htracked.single.refMultipleDDicts, rfl⟩
          · exact htracked.single
        · exact fun _ => NativeCtx.ref_eq_none hnone

/-- Every call of a context is safe. -/
theorem ctxClass_backing (dictID : D → ℕ) :
    (ctxClass dictID).Backing Ctx.dict (fun c => c.native.RefersTo) Ctx.Tracked
      fun _ _ => True := by
  intro s call _ htracked hused _
  cases call with
  | close freeState => exact (Ctx.close_ends freeState hused).backs htracked hused
  | op op =>
      cases op with
      | loadDict memory dict =>
          exact (Ctx.loadDict_ends dictID memory dict hused).backs
            (Ctx.plain_loadDictFast0 dictID memory _ dict)
            (Ctx.points_loadDictFast0 dictID memory _ dict) htracked hused
      | loadDictBytes memory =>
          exact (Ctx.loadDictBytes_ends memory hused).backs
            (NativeCtx.plain_loadDictionary memory) (NativeCtx.points_loadDictionary memory)
            htracked hused
      | reset failure =>
          exact (Ctx.reset_ends failure hused).backs (NativeCtx.plain_reset failure)
            (NativeCtx.points_reset failure) htracked hused
      | plainSetter | checkedMethod | registerSequenceProducer | dataMethod | convenience =>
          apply ctxBacks_of_quiet htracked hused
          exact Ctx.untouched_quiet.perform dictID id s

end Contexts

/-- A safe call of a stream. -/
theorem StreamEnds.backs {dictID : D → ℕ} {op : StreamOp D} {s s' : Sys (Stream D) D}
    {result : Except JavaException Unit} (h : StreamEnds dictID op s result s')
    (hused : Used Stream.dict s) (hsafe : op.Safe dictID s) :
    Backs Stream.dict (fun c => c.native.RefersTo) Stream.Settled s s' := by
  have hkept {d : D} {new : Option D} (hother : s.holder.dict ≠ some d)
      (hlocks : s'.locks = drop s.holder.dict (take new s.locks)) : s.locks d ≤ s'.locks d := by
    have hzero : weight s.holder.dict d = 0 := if_neg hother
    rw [hlocks, drop, take, hzero]
    omega
  cases h with
  | kept hdict hlocks hclosed hsettled hrefs =>
      constructor
      · exact (Trade.keep hdict hlocks).covers hused
      · intro d hd
        rcases hrefs hsafe d hd with hold | hremembered
        · exact Or.inr ⟨hold, by rw [hlocks]⟩
        · exact Or.inl (hdict.trans hremembered)
      · exact hsettled
  | replaced new hresult hfree hdict hlocks hclosed hsettled hopen hrefs =>
      constructor
      · rw [hdict]
        exact (Trade.swap (fun d hd => (hfree d hd).1) hlocks).covers hused
      · intro d hd
        rcases hrefs hsafe d hd with hnew | ⟨hold, hother⟩
        · exact Or.inl (hdict.trans hnew)
        · exact Or.inr ⟨hold, hkept hother hlocks⟩
      · exact hsettled
  | closed hop hdict hlocks hclosed hsettled hrefs =>
      rw [← take_none s.locks] at hlocks
      have htrade : Trade s.holder.dict s.locks none s'.locks :=
        .swap (fun d hd => by cases hd) hlocks
      constructor
      · rw [hdict]
        exact htrade.covers hused
      · intro d hd
        obtain ⟨hold, hother⟩ := hrefs hsafe d hd
        exact Or.inr ⟨hold, hkept hother hlocks⟩
      · exact hsettled
  | forgotten hnone hdict hlocks hclosed hsettled hrefs =>
      constructor
      · rw [hdict, hlocks]
        exact covers_forget _ _
      · exact fun d hd => Or.inr ⟨hrefs d hd, by rw [hlocks]⟩
      · exact hsettled

theorem streamClass_backing (dictID : D → ℕ) :
    (streamClass dictID).Backing Stream.dict (fun c => c.native.RefersTo) Stream.Settled
      fun s op => op.Safe dictID s :=
  fun _ _ hhas hsettled hused hsafe => (streamClass_ends hhas hsettled hused).backs hused hsafe

/-- An object with a native context: a context or a stream. -/
abbrev Holder (D : Type) := Ctx D ⊕ Stream D

/-- The contexts and streams of all classes. -/
def holderClass (dictID : D → ℕ) : HolderClass (Holder D) (CtxCall D ⊕ StreamOp D) D :=
  (ctxClass dictID).sum (streamClass dictID)

/-- The native context of the object has a pointer to the dictionary. -/
def Holder.RefersTo {D : Type} : Holder D → D → Prop :=
  Sum.elim (fun c => c.native.RefersTo) fun s => s.native.RefersTo

/-- The safe calls: all of contexts, and those of streams under the condition. -/
def SafeCall (dictID : D → ℕ) : Sys (Holder D) D → CtxCall D ⊕ StreamOp D → Prop :=
  sumSafe (fun _ _ => True) fun s op => op.Safe dictID s

/-- A new object of a class. -/
def newHolder {D : Type} : CtxClass ⊕ StreamClass → Holder D :=
  Sum.map Ctx.create Stream.create

/-- New objects of any classes. -/
def newHolders {H : Type} (cls : H → CtxClass ⊕ StreamClass) : World H (Holder D) D :=
  World.create fun h => newHolder (cls h)

omit [DecidableEq D] in
theorem newHolder_good (c : CtxClass ⊕ StreamClass) :
    Sum.elim Ctx.Tracked Stream.Settled (newHolder c : Holder D) := by
  cases c with
  | inl c => exact ⟨⟨rfl, rfl⟩, nofun⟩
  | inr c => exact ⟨fun _ => rfl, fun _ _ => rfl⟩

omit [DecidableEq D] in
theorem newHolder_dict (c : CtxClass ⊕ StreamClass) :
    Sum.elim Ctx.dict Stream.dict (newHolder c : Holder D) = none := by
  cases c <;> rfl

omit [DecidableEq D] in
theorem not_refersTo_newHolder (c : CtxClass ⊕ StreamClass) (d : D) :
    ¬ (newHolder c).RefersTo d := by
  cases c <;> exact fun hd => hd.elim nofun nofun

/-- In every run of safe calls no dictionary can be freed while a native context has a
pointer to it. -/
theorem referenced_dictionaries_protected {H : Type} [Fintype H] [DecidableEq H]
    (dictID : D → ℕ) (cls : H → CtxClass ⊕ StreamClass)
    (inputs : List (Input H (CtxCall D ⊕ StreamOp D) D))
    (hsafe : (holderClass dictID).machine.AllSteps (CarefulInput (SafeCall dictID))
      (newHolders cls) inputs) :
    Protected (holderClass dictID) Holder.RefersTo
      ((holderClass dictID).machine.run (newHolders cls) inputs).2 := by
  have hstart : Backed (Sum.elim Ctx.dict Stream.dict) Holder.RefersTo
      (Sum.elim Ctx.Tracked Stream.Settled) (newHolders cls : World H (Holder D) D) :=
    Backed.create (fun h => newHolder_good (cls h)) (fun h => newHolder_dict (cls h))
      fun h => not_refersTo_newHolder (cls h)
  have hclass := (ctxClass_backing dictID).sum (streamClass_backing dictID)
  exact (hstart.run hclass hsafe).isProtected

/-- A frame that is read to its end. -/
def readFrame : StreamOp Bool := .inputRead none ⟨false, some true, none⟩

/-- A stream replaces a dictionary by another one with the same ID, and a context uses the
first one. -/
theorem referenced_dictionaries_protected_used :
    Protected (holderClass fun _ : Bool => 1) Holder.RefersTo
      ((holderClass fun _ : Bool => 1).machine.run
        (newHolders fun h : Bool => if h then .inr .input else .inl .decompress)
        [.call true (.inr (.setRefMultipleDDicts true)),
          .call true (.inr (.inputSetDict .enough (some false))),
          .call false (.inl (.op (.loadDict .enough (some false)))),
          .call true (.inr (.inputSetDict .enough (some true))),
          .call true (.inr readFrame), .closeDict false,
          .call true (.inr (.inputClose none none)), .closeDict true]).2 := by
  apply referenced_dictionaries_protected
  refine ⟨trivial, fun _ _ _ => ?_, trivial, fun _ _ _ => ?_, trivial, trivial,
    fun _ => ?_, trivial, trivial⟩
  · exact ⟨fun _ => Or.inl rfl, fun _ => nofun⟩
  · exact ⟨fun _ => Or.inl rfl, fun _ _ _ _ => ⟨rfl, rfl⟩⟩
  · exact Or.inl rfl

/-- With several dictionaries at once the first one stays in the set of the native context,
but the stream gives it back on taking the second.  So it can be freed, and a later frame
that asks for it is decompressed with it. -/
theorem stale_dictionary_used_after_free :
    let C := holderClass fun d : Bool => if d then 2 else 1
    let inputs := [.call () (.inr (.setRefMultipleDDicts true)),
      .call () (.inr (.inputSetDict .enough (some true))),
      .call () (.inr (.inputSetDict .enough (some false))), .closeDict true,
      .call () (.inr readFrame)]
    let w := (C.machine.run (newHolders fun _ : Unit => .inr .input) inputs).2
    (C.machine.run (newHolders fun _ : Unit => .inr .input) inputs).1 =
        [.ok (), .ok (), .ok (), .ok (), .ok ()] ∧
      w.locks true = sharedLockClosed ∧ (w.holders ()).RefersTo true := by
  exact ⟨rfl, rfl, Or.inl rfl⟩

end ZstdJni.Dict
