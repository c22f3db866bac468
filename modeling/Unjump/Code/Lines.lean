/-!
# Marked lines

A pass over code decides something about every line and then has to say which lines it decided
it for, and how many of those lie before a given one. `marked` lists the lines in increasing order
and `below` counts.
-/

namespace Unjump.Lines

/-- The positions, counted from 0, of the elements that `p` marks. -/
def marked {α : Type} (p : α → Bool) (xs : List α) : List Nat :=
  (xs.zipIdx.filter fun (x, _) ↦ p x).map Prod.snd

/-- The number of lines before `line`. -/
def below (lines : List Nat) (line : Nat) : Nat := lines.countP (· < line)

theorem mem_marked_iff {α : Type} {p : α → Bool} {xs : List α} {n : Nat} :
    n ∈ marked p xs ↔ ∃ x, xs[n]? = some x ∧ p x := by
  simp [marked, List.mk_mem_zipIdx_iff_getElem?]

/-- The marked lines come in increasing order. -/
theorem pairwise_marked {α : Type} (p : α → Bool) (xs : List α) :
    (marked p xs).Pairwise (· < ·) := by
  refine List.Pairwise.sublist (List.Sublist.map _ List.filter_sublist) ?_
  have : (xs.zipIdx.map Prod.snd) = List.range xs.length := by
    simp [List.zipIdx_map_snd, List.range_eq_range']
  rw [this]
  exact List.pairwise_lt_range

end Unjump.Lines
