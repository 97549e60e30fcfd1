import YangStubs.Text.Sorted

/-! # Sorted lists of texts

A sorted list has the texts that went into it, in strictly ascending order.
-/

namespace YangStubs.Text

theorem mem_insertSorted {text x : String} {l : List String} : x ∈ insertSorted text l ↔ x = text ∨ x ∈ l := by
  induction l with
  | nil => simp [insertSorted]
  | cons t rest ih =>
    rw [insertSorted]
    by_cases same : text = t
    · simp [same]
    · by_cases smaller : text < t
      · simp [same, smaller]
      · simp only [beq_iff_eq, same, if_false, smaller, List.mem_cons, ih]
        exact or_left_comm

theorem mem_sortedSet {x : String} {l : List String} : x ∈ sortedSet l ↔ x ∈ l := by
  induction l with
  | nil => simp [sortedSet]
  | cons t rest ih =>
    show x ∈ insertSorted t (sortedSet rest) ↔ _
    rw [mem_insertSorted, ih, List.mem_cons]

theorem insertSorted_ascending {text : String} {l : List String} (ascending : l.Pairwise (· < ·)) :
    (insertSorted text l).Pairwise (· < ·) := by
  induction l with
  | nil => exact List.pairwise_singleton _ _
  | cons t rest ih =>
    obtain ⟨first, others⟩ := List.pairwise_cons.1 ascending
    rw [insertSorted]
    by_cases same : text = t
    · simp only [beq_iff_eq, same, if_true]
      exact ascending
    · by_cases smaller : text < t
      · simp only [beq_iff_eq, same, if_false, smaller, if_true]
        refine List.pairwise_cons.2 ⟨?_, ascending⟩
        intro x member
        cases member with
        | head => exact smaller
        | tail _ later => exact String.lt_trans smaller (first x later)
      · simp only [beq_iff_eq, same, if_false, smaller]
        refine List.pairwise_cons.2 ⟨?_, ih others⟩
        intro x member
        cases mem_insertSorted.1 member with
        | inl isText =>
          rw [isText]
          exact Std.lt_of_le_of_ne (String.not_lt.1 smaller) (Ne.symm same)
        | inr later => exact first x later

theorem sortedSet_ascending (l : List String) : (sortedSet l).Pairwise (· < ·) := by
  induction l with
  | nil => exact .nil
  | cons t rest ih => exact insertSorted_ascending ih

theorem sortedSet_nodup (l : List String) : (sortedSet l).Nodup := by
  refine (sortedSet_ascending l).imp ?_
  rintro x _ less rfl
  exact String.lt_irrefl x less

end YangStubs.Text
