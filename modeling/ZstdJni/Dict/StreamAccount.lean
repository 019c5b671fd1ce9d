/-
# The dictionaries of streams: accounts

An open stream that remembers a dictionary object is counted once at its lock.  Three of
the four classes keep this account in every call, whatever their native calls, the wrapped
streams, the pools and the callbacks do.  The direct compressing stream breaks it in two
calls: `setDict(byte[])` forgets a dictionary object without giving it back, and a closed
stream accepts a dictionary object, which no `close` will give back.
-/

import ZstdJni.Dict.StreamDict

namespace ZstdJni.Dict

open ZstdJni.Foundation ZstdJni.Native ZstdJni.AutoClose

variable {D : Type} [DecidableEq D]

/-- `!isClosed`. -/
def Stream.isOpen {D : Type} (s : Stream D) : Bool := !s.closed

/-- A closed stream remembers no dictionary. -/
structure Stream.Good {D : Type} (s : Stream D) : Prop where
  closed : s.isOpen = false → s.dict = none
  settled : s.Settled

theorem StreamEnds.orderly {dictID : D → ℕ} {op : StreamOp D} {s : Sys (Stream D) D}
    {ended : Except JavaException Unit × Sys (Stream D) D}
    (h : StreamEnds dictID op s ended.1 ended.2) (hgood : s.holder.Good) (htidy : op.Tidy s) :
    Orderly Stream.dict Stream.Good op.SetsDict s ended := by
  have hsame (hclosed : ended.2.holder.closed = s.holder.closed) :
      ended.2.holder.isOpen = s.holder.isOpen := congrArg (!·) hclosed
  cases h with
  | kept hdict hlocks hclosed hsettled hrefs =>
      constructor
      · exact .keep hdict hlocks
      · refine ⟨?_, hsettled⟩
        rw [hsame hclosed, hdict]
        exact hgood.closed
      · exact fun _ _ _ => hlocks
  | replaced new hresult hfree hdict hlocks hclosed hsettled hopen hrefs =>
      constructor
      · apply Trade.swap
        · rw [hdict]
          exact fun d hd => (hfree d hd).1
        · rw [hdict]
          exact hlocks
      · refine ⟨fun hended => ?_, hsettled⟩
        rw [hsame hclosed, Stream.isOpen, hopen htidy] at hended
        cases hended
      · intro _ e herror
        rw [hresult] at herror
        cases herror
  | closed hop hdict hlocks hclosed hsettled hrefs =>
      constructor
      · apply Trade.swap
        · rw [hdict]
          exact fun _ => nofun
        · rw [hdict, take_none]
          exact hlocks
      · exact ⟨fun _ => hdict, hsettled⟩
      · exact fun hsets => absurd hsets hop
  | forgotten hnone hdict hlocks hclosed hsettled hrefs =>
      constructor
      · exact .keep (hdict.trans (hnone htidy).symm) hlocks
      · exact ⟨fun _ => hdict, hsettled⟩
      · exact fun _ _ _ => hlocks

/-- Every tidy call of a stream keeps its account in order. -/
theorem streamClass_orderly (dictID : D → ℕ) :
    (streamClass dictID).Orderly Stream.dict Stream.Good StreamOp.SetsDict StreamOp.Tidy := by
  intro s op hhas hgood hused htidy
  exact (streamClass_ends hhas hgood.settled hused).orderly hgood htidy

/-- New streams of the four classes. -/
def newStreams {H : Type} (cls : H → StreamClass) : World H (Stream D) D :=
  World.create fun h => Stream.create (cls h)

/-- In every run that gives direct compressing streams no bytes while they remember a
dictionary object, and no dictionary object once they are closed, the lock of an open
dictionary is the number of open streams that remember it. -/
theorem stream_locks_accounted {H : Type} [Fintype H] [DecidableEq H] (dictID : D → ℕ)
    (cls : H → StreamClass) (inputs : List (Input H (StreamOp D) D))
    (htidy : (streamClass dictID).machine.AllSteps (CarefulInput StreamOp.Tidy)
      (newStreams cls) inputs) :
    Accounted (streamClass dictID) Stream.isOpen Stream.dict StreamOp.SetsDict StreamOp.Tidy
      ((streamClass dictID).machine.run (newStreams cls) inputs).2 := by
  have hgood (c : StreamClass) : (Stream.create c : Stream D).Good :=
    ⟨nofun, fun _ => rfl, fun _ _ => rfl⟩
  have hstart : InOrder Stream.dict Stream.Good (newStreams cls : World H (Stream D) D) :=
    InOrder.create (fun h => hgood (cls h)) fun _ => rfl
  apply (hstart.run (streamClass_orderly dictID) htidy).accounted
  · exact fun _ hended => hended.closed
  · exact streamClass_orderly dictID

/-- The call of `compress` that tells the native context. -/
def firstCompress : StreamOp Unit := .directCompress none .enough ⟨true, none, none⟩

/-- The calls that end a stream and its frame. -/
def endFrame : StreamOp Unit := .directClose ⟨false, none, none⟩

/-- A dictionary is set twice and used, and the stream closed twice. -/
theorem stream_locks_accounted_used :
    Accounted (streamClass fun _ : Unit => 0) Stream.isOpen Stream.dict StreamOp.SetsDict
      StreamOp.Tidy
      ((streamClass fun _ : Unit => 0).machine.run (newStreams fun _ : Unit => .directCompressing)
        [.call () (.directSetDict (some ())), .call () (.directSetDict (some ())),
          .call () firstCompress, .call () endFrame, .call () endFrame, .closeDict ()]).2 := by
  apply stream_locks_accounted
  exact ⟨fun _ => nofun, fun _ => nofun, trivial, trivial, trivial, trivial, trivial⟩

/-- A dictionary object that is followed by bytes is forgotten, and stays locked when
nothing uses it: it cannot be closed, even after the stream is. -/
theorem forgotten_dictionary_stays_locked :
    let C := streamClass fun _ : Unit => 0
    let inputs := [.call () (.directSetDict (some ())), .call () (.directSetDictBytes false),
      .call () endFrame, .closeDict ()]
    let w := (C.machine.run (newStreams fun _ : Unit => .directCompressing) inputs).2
    (C.machine.run (newStreams fun _ : Unit => .directCompressing) inputs).1 =
        [.ok (), .ok (), .ok (), .error (.illegalState "Attempt to close while in use")] ∧
      w.locks () = 1 ∧ w.users Stream.isOpen Stream.dict () = 0 := by
  refine ⟨rfl, rfl, ?_⟩
  decide

end ZstdJni.Dict
