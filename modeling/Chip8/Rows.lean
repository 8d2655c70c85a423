/-!
# Rows of a fixed width

`rows` cuts a sequence into rows of one width, of which the last may be shorter.
`getElem?_rows` says where in the sequence each row stands. Rows that all have that width are
found again once they have been joined (`rows_flatten`), and so is every item of them
(`getElem?_flatten`).
-/

namespace Chip8

variable {α : Type}

/-- The sequence cut into rows of `width` items. A width of zero counts as one. -/
def rows (width : Nat) : List α → List (List α)
  | [] => []
  | item :: rest => (item :: rest.take (width - 1)) :: rows width (rest.drop (width - 1))
termination_by items => items.length
decreasing_by
  simp only [List.length_drop, List.length_cons]
  omega

/-- A row that is not the last has the full width. -/
theorem length_row_of_more {width : Nat} (positive : 0 < width) (item : α) {rest : List α}
    (more : rest.drop (width - 1) ≠ []) : (item :: rest.take (width - 1)).length = width := by
  rw [ne_eq, List.drop_eq_nil_iff] at more
  rw [List.length_cons, List.length_take]
  omega

/-- A row starts at a multiple of the width, if the sequence goes on so far. -/
theorem getElem?_rows {width : Nat} (positive : 0 < width) (items : List α) (index : Nat) :
    (rows width items)[index]? =
      if width * index < items.length then some ((items.drop (width * index)).take width)
      else none := by
  fun_induction rows width items generalizing index with
  | case1 => simp
  | case2 item rest inductionHypothesis =>
    cases index with
    | zero =>
      obtain ⟨further, rfl⟩ := Nat.exists_eq_succ_of_ne_zero (Nat.ne_of_gt positive)
      simp
    | succ index =>
      have behind : rest.drop (width - 1) = (item :: rest).drop width := by
        rw [List.drop_cons positive]
      have inside : width * index < (item :: rest).length - width ↔
          width * (index + 1) < (item :: rest).length := by
        rw [Nat.mul_succ]
        omega
      rw [List.getElem?_cons_succ, inductionHypothesis, behind, List.length_drop, List.drop_drop,
        Nat.add_comm width, ← Nat.mul_succ]
      simp only [inside]

/-- Rows of one width come apart as they were joined. -/
theorem rows_flatten {width : Nat} (positive : 0 < width) {items : List (List α)}
    (uniform : ∀ row ∈ items, row.length = width) : rows width items.flatten = items := by
  induction items with
  | nil => simp [rows]
  | cons row rest inductionHypothesis =>
    obtain ⟨full, others⟩ := List.forall_mem_cons.mp uniform
    cases row with
    | nil => exact absurd full (Nat.ne_of_lt positive)
    | cons item later =>
      have short : later.length = width - 1 := Nat.eq_sub_of_add_eq full
      rw [List.flatten_cons, List.cons_append, rows, List.take_left' short, List.drop_left' short,
        inductionHypothesis others]

/-- An item of joined rows of one width stands behind all earlier rows. -/
theorem getElem?_flatten {width : Nat} {items : List (List α)}
    (uniform : ∀ row ∈ items, row.length = width) (index : Nat) {position : Nat}
    (inside : position < width) :
    items.flatten[width * index + position]? = items[index]?.bind fun row => row[position]? := by
  have positive : 0 < width := Nat.zero_lt_of_lt inside
  rw [← congrArg (·[index]?) (rows_flatten positive uniform), getElem?_rows positive]
  split
  · rw [Option.bind_some, List.getElem?_take_of_lt inside, List.getElem?_drop]
  · next outside =>
    rw [Option.bind_none, List.getElem?_eq_none]
    omega

end Chip8
