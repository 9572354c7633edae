import Plexus.Numeric.Scalar

/-!
# Totals of long lists

Rounding errors grow with the number of additions that a summand goes through.  A total
keeps that number small: it adds in eight lanes side by side, and splits a list that is too
long for one block into two.  With exact arithmetic it is the plain sum.
-/

namespace Plexus
namespace Scalar

variable {α : Type} [Scalar α]

/-- The sum of eight lanes, and then of the numbers that do not fill another row of lanes. -/
def totalLanes (a b c d e f g h : α) : List α → α
  | a' :: b' :: c' :: d' :: e' :: f' :: g' :: h' :: rest =>
      totalLanes (add a a') (add b b') (add c c') (add d d') (add e e') (add f f') (add g g')
        (add h h') rest
  | rest => rest.foldl add (add (add (add a b) (add c d)) (add (add e f) (add g h)))

/-- The total of one block. -/
def totalBlock : List α → α
  | a :: b :: c :: d :: e :: f :: g :: h :: rest => totalLanes a b c d e f g h rest
  | xs => sumList xs

/-- The most numbers of a block. -/
def blockLength : Nat := 128

/-- Where a list that is longer than a block is split: near its middle, at a full row of lanes. -/
def splitPoint (n : Nat) : Nat := n / 2 - n / 2 % 8

/-- The total of a list. -/
def total (xs : List α) : α :=
  if xs.length ≤ blockLength then totalBlock xs
  else add (total (xs.take (splitPoint xs.length))) (total (xs.drop (splitPoint xs.length)))
termination_by xs.length
decreasing_by
  all_goals simp_all only [blockLength, splitPoint, List.length_take, List.length_drop]; omega

theorem total_of_short {xs : List α} (h : xs.length < 8) : total xs = sumList xs := by
  rw [total, if_pos (by simp only [blockLength]; omega)]
  match xs, h with
  | [], _ | [_], _ | [_, _], _ | [_, _, _], _ | [_, _, _, _], _ | [_, _, _, _, _], _
  | [_, _, _, _, _, _], _ | [_, _, _, _, _, _, _], _ => rfl

end Scalar
end Plexus
