/-!
# Totals

The total of a list of numbers, with what it is for lists that are put together.
-/

namespace GoMend

/-- The sum of the numbers of a list. -/
def total : List Nat → Nat
  | [] => 0
  | number :: rest => number + total rest

@[simp] theorem total_nil : total [] = 0 :=
  rfl

@[simp] theorem total_cons (number : Nat) (rest : List Nat) :
    total (number :: rest) = number + total rest :=
  rfl

@[simp] theorem total_append (left right : List Nat) :
    total (left ++ right) = total left + total right := by
  induction left with
  | nil => simp
  | cons number rest ih =>
      rw [List.cons_append, total_cons, total_cons, ih, Nat.add_assoc]

@[simp] theorem total_reverse (numbers : List Nat) : total numbers.reverse = total numbers := by
  induction numbers with
  | nil => rfl
  | cons number rest ih =>
      rw [List.reverse_cons, total_append, ih, total_cons, total_cons, total_nil, Nat.add_zero,
        Nat.add_comm]

end GoMend
