/-
# Items that are held by one party at a time

Parties take items from a shared store and give them back.  An item is in the store at most
once, or it is held by one party, once.  A step of a party rearranges what it holds and what
is in the store, and may bring in new items.
-/

import Mathlib.Data.List.Nodup
import Mathlib.Logic.Function.Basic

namespace ZstdJni.Foundation

universe u v

variable {ι : Type u} {β : Type v}

/-- No item is in two places. -/
structure Exclusive (held : ι → List β) (store : List β) : Prop where
  store_nodup : store.Nodup
  held_nodup : ∀ i, (held i).Nodup
  not_stored : ∀ i, ∀ item ∈ held i, item ∉ store
  apart : ∀ i j, i ≠ j → ∀ item ∈ held i, item ∉ held j

/-- An item that is nowhere. -/
def Nowhere (held : ι → List β) (store : List β) (item : β) : Prop :=
  (∀ i, item ∉ held i) ∧ item ∉ store

namespace Exclusive

variable {held : ι → List β} {store : List β}

theorem empty : Exclusive (fun _ : ι => ([] : List β)) [] where
  store_nodup := List.nodup_nil
  held_nodup _ := List.nodup_nil
  not_stored _ _ hitem := absurd hitem (by simp)
  apart _ _ _ _ hitem := absurd hitem (by simp)

/-- What a party can reach has no duplicates. -/
theorem nodup_append (h : Exclusive held store) (i : ι) : (held i ++ store).Nodup := by
  rw [List.nodup_append]
  refine ⟨h.held_nodup i, h.store_nodup, ?_⟩
  intro first hfirst second hsecond heq
  apply h.not_stored i first hfirst
  rwa [heq]

/-- A step of one party: what it holds afterwards, and what is in the store, was held by it or
in the store, or is new. -/
theorem move [DecidableEq ι] (h : Exclusive held store) (i : ι) {own left : List β}
    (hnodup : (own ++ left).Nodup)
    (hfrom : ∀ item ∈ own ++ left, item ∈ held i ++ store ∨ Nowhere held store item) :
    Exclusive (Function.update held i own) left := by
  obtain ⟨hown, hleft, hdisjoint⟩ := List.nodup_append.mp hnodup
  have hothers : ∀ j, j ≠ i → ∀ item ∈ own ++ left, item ∉ held j := by
    intro j hne item hitem hheld
    rcases hfrom item hitem with hold | hnew
    · rcases List.mem_append.mp hold with hmine | hstored
      · exact h.apart i j hne.symm item hmine hheld
      · exact h.not_stored j item hheld hstored
    · exact hnew.1 j hheld
  constructor
  · exact hleft
  · intro j
    by_cases hj : j = i
    · rw [hj, Function.update_self]
      exact hown
    · rw [Function.update_of_ne hj]
      exact h.held_nodup j
  · intro j item hitem hstored
    by_cases hj : j = i
    · rw [hj, Function.update_self] at hitem
      exact hdisjoint item hitem item hstored rfl
    · rw [Function.update_of_ne hj] at hitem
      exact hothers j hj item (List.mem_append_right own hstored) hitem
  · intro j k hne item hj hk
    by_cases hji : j = i
    · have hki : k ≠ i := fun heq => hne (hji.trans heq.symm)
      rw [hji, Function.update_self] at hj
      rw [Function.update_of_ne hki] at hk
      exact hothers k hki item (List.mem_append_left left hj) hk
    · rw [Function.update_of_ne hji] at hj
      by_cases hki : k = i
      · rw [hki, Function.update_self] at hk
        exact hothers j hji item (List.mem_append_left left hk) hj
      · rw [Function.update_of_ne hki] at hk
        exact h.apart j k hne item hj hk

/-- A step that brings in one new item. -/
theorem insert [DecidableEq ι] (h : Exclusive held store) (i : ι) {item : β}
    (hnowhere : Nowhere held store item) :
    Exclusive (Function.update held i (held i ++ [item])) store := by
  have hperm : (held i ++ [item] ++ store).Perm (item :: (held i ++ store)) := by
    rw [List.append_assoc, List.singleton_append]
    exact List.perm_middle
  apply h.move i
  · rw [hperm.nodup_iff, List.nodup_cons]
    refine ⟨fun hmem => ?_, h.nodup_append i⟩
    rcases List.mem_append.mp hmem with hheld | hstored
    · exact hnowhere.1 i hheld
    · exact hnowhere.2 hstored
  · intro other hother
    rcases List.mem_cons.mp (hperm.mem_iff.mp hother) with rfl | hold
    · exact Or.inr hnowhere
    · exact Or.inl hold

/-- A step that brings in nothing new. -/
theorem move_subperm [DecidableEq ι] (h : Exclusive held store) (i : ι) {own left : List β}
    (hsub : (own ++ left).Subperm (held i ++ store)) :
    Exclusive (Function.update held i own) left := by
  obtain ⟨kept, hperm, hsublist⟩ := hsub
  apply h.move i
  · exact hperm.nodup_iff.mp ((h.nodup_append i).sublist hsublist)
  · intro item hitem
    exact Or.inl (hsublist.subset (hperm.mem_iff.mpr hitem))

/-- The store loses items. -/
theorem shrink (h : Exclusive held store) {left : List β} (hsub : left.Sublist store) :
    Exclusive held left where
  store_nodup := h.store_nodup.sublist hsub
  held_nodup := h.held_nodup
  not_stored i item hitem hstored := h.not_stored i item hitem (hsub.subset hstored)
  apart := h.apart

end Exclusive

end ZstdJni.Foundation
