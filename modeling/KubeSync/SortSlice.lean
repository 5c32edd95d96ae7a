import Mathlib.Data.List.Basic

/-! # Sorting by a test

A sort that is given a test for less, of which only its promise is known: it permutes the list, and
where the test is a strict weak order it puts no element behind one that it is less than.  Nothing
is said of elements neither of which is less, so that the sort need not be stable.  `mergeSlice` is
an instance. -/

structure SortSlice where
  slice : {α : Type} → (α → α → Bool) → List α → List α
  perm : ∀ {α : Type} (less : α → α → Bool) (l : List α), (slice less l).Perm l
  sorted : ∀ {α : Type} (less : α → α → Bool) (l : List α),
    (∀ a b c, less b a = false → less c b = false → less c a = false) →
    (∀ a b, less a b = false ∨ less b a = false) →
    (slice less l).Pairwise fun a b => less b a = false

namespace SortSlice

/-- A stable sort. -/
def mergeSlice : SortSlice where
  slice less l := l.mergeSort fun a b => !less b a
  perm _ l := List.mergeSort_perm l _
  sorted less l htrans htotal := by
    have htrans' (a b c) (hab : (!less b a) = true) (hbc : (!less c b) = true) :
        (!less c a) = true := by
      rw [Bool.not_eq_true'] at hab hbc ⊢
      exact htrans a b c hab hbc
    have htotal' (a b) : ((!less b a) || (!less a b)) = true := by
      simpa [Bool.or_eq_true] using htotal b a
    have hpair := List.pairwise_mergeSort htrans' htotal' l
    exact hpair.imp fun h => by simpa using h

end SortSlice
