import ApiTree.Ty.Basic
import Mathlib.Data.List.Basic

/-!
# ApiTree.Proofs.Ty.Distinct

Leaving out what repeats.  `Ty.distinct` keeps no element but those of the list, and for
each element of the list it keeps one that stands for it (`Ty.exists_mem_distinct`); of those
that it keeps none stands for another (`Ty.pairwise_distinct`).
-/

namespace ApiTree
namespace Ty

variable {α : Type} {f : α → α → Bool}

/-- The elements that are kept so far, the last one first. -/
def keep (f : α → α → Bool) (kept : List α) (x : α) : List α :=
  if kept.any (f x) then kept else x :: kept

theorem distinct_eq_foldl (f : α → α → Bool) (xs : List α) :
    distinct f xs = (xs.foldl (keep f) []).reverse := rfl

theorem mem_foldl_keep {xs kept : List α} {y : α} (h : y ∈ xs.foldl (keep f) kept) :
    y ∈ kept ∨ y ∈ xs := by
  induction xs generalizing kept with
  | nil => exact .inl h
  | cons x xs ih =>
      rcases ih h with h | h
      · rw [keep] at h
        split at h
        · exact .inl h
        · rcases List.mem_cons.1 h with rfl | h
          · exact .inr List.mem_cons_self
          · exact .inl h
      · exact .inr (List.mem_cons_of_mem _ h)

theorem subset_foldl_keep (xs : List α) {kept : List α} {y : α} (h : y ∈ kept) :
    y ∈ xs.foldl (keep f) kept := by
  induction xs generalizing kept with
  | nil => exact h
  | cons x xs ih =>
      refine ih ?_
      rw [keep]
      split
      · exact h
      · exact List.mem_cons_of_mem _ h

theorem exists_mem_foldl_keep {xs : List α} (kept : List α) {x : α} (h : x ∈ xs) :
    ∃ y ∈ xs.foldl (keep f) kept, x = y ∨ f x y = true := by
  induction xs generalizing kept with
  | nil => simp at h
  | cons x' xs ih =>
      rcases List.mem_cons.1 h with rfl | h
      · by_cases hany : kept.any (f x) = true
        · obtain ⟨y, hy, hf⟩ := List.any_eq_true.1 hany
          exact ⟨y, subset_foldl_keep (x :: xs) hy, .inr hf⟩
        · refine ⟨x, subset_foldl_keep xs ?_, .inl rfl⟩
          rw [keep, if_neg hany]
          exact List.mem_cons_self
      · exact ih _ h

/-- What is kept is in the list. -/
theorem mem_of_mem_distinct {xs : List α} {y : α} (h : y ∈ distinct f xs) : y ∈ xs := by
  rw [distinct_eq_foldl, List.mem_reverse] at h
  simpa using mem_foldl_keep h

/-- For each element of the list one is kept that stands for it. -/
theorem exists_mem_distinct {xs : List α} {x : α} (h : x ∈ xs) :
    ∃ y ∈ distinct f xs, x = y ∨ f x y = true := by
  obtain ⟨y, hy, hxy⟩ := exists_mem_foldl_keep (f := f) [] h
  exact ⟨y, by rwa [distinct_eq_foldl, List.mem_reverse], hxy⟩

theorem pairwise_foldl_keep {xs kept : List α} (h : kept.Pairwise fun x y => f x y = false) :
    (xs.foldl (keep f) kept).Pairwise fun x y => f x y = false := by
  induction xs generalizing kept with
  | nil => exact h
  | cons x xs ih =>
      refine ih ?_
      rw [keep]
      split
      · exact h
      · next hany =>
          refine List.pairwise_cons.2 ⟨fun y hy => ?_, h⟩
          exact Bool.eq_false_iff.2 fun hf => hany (List.any_eq_true.2 ⟨y, hy, hf⟩)

/-- No element that is kept stands for one that is kept before it. -/
theorem pairwise_distinct (f : α → α → Bool) (xs : List α) :
    (distinct f xs).Pairwise fun x y => f y x = false := by
  rw [distinct_eq_foldl, List.pairwise_reverse]
  exact pairwise_foldl_keep .nil

end Ty
end ApiTree
