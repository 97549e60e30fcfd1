import YangStubs.Text.Split

/-! # Cutting texts into pieces and joining them

Joining the pieces of a text puts one and the same separator where the text was cut, and cutting a joined text
gives its pieces back.
-/

namespace YangStubs.Text

variable {sep : Char → Bool}

theorem splitBy_ne_nil (cs : List Char) : splitBy sep cs ≠ [] := by
  cases cs with
  | nil => simp [splitBy]
  | cons c rest =>
    rw [splitBy]
    split
    · simp
    · split <;> simp

theorem splitBy_cons_of_sep {c : Char} (isSep : sep c = true) (cs : List Char) :
    splitBy sep (c :: cs) = [] :: splitBy sep cs := by
  rw [splitBy, if_pos isSep]

/-- What comes before the first piece and does not cut becomes a part of it. -/
theorem splitBy_cons_of_free {c : Char} (free : sep c = false) (cs : List Char) :
    ∃ piece pieces, splitBy sep cs = piece :: pieces ∧ splitBy sep (c :: cs) = (c :: piece) :: pieces := by
  obtain ⟨piece, pieces, isSplit⟩ := List.exists_cons_of_ne_nil (splitBy_ne_nil cs)
  refine ⟨piece, pieces, isSplit, ?_⟩
  rw [splitBy, free, isSplit]
  rfl

theorem splitBy_of_free {cs : List Char} (free : ∀ c ∈ cs, sep c = false) : splitBy sep cs = [cs] := by
  induction cs with
  | nil => rfl
  | cons c rest ih =>
    obtain ⟨first, others⟩ := List.forall_mem_cons.1 free
    obtain ⟨piece, pieces, isSplit, whole⟩ := splitBy_cons_of_free first rest
    rw [ih others] at isSplit
    cases isSplit
    exact whole

/-- A separator cuts. -/
theorem splitBy_append {c : Char} (isSep : sep c = true) (before after : List Char) :
    splitBy sep (before ++ c :: after) = splitBy sep before ++ splitBy sep after := by
  induction before with
  | nil => exact splitBy_cons_of_sep isSep after
  | cons d rest ih =>
    cases isSep' : sep d with
    | true => rw [List.cons_append, splitBy_cons_of_sep isSep', splitBy_cons_of_sep isSep', ih, List.cons_append]
    | false =>
      obtain ⟨piece, pieces, isSplit, whole⟩ := splitBy_cons_of_free isSep' rest
      obtain ⟨piece', pieces', isSplit', whole'⟩ := splitBy_cons_of_free isSep' (rest ++ c :: after)
      rw [ih, isSplit, List.cons_append] at isSplit'
      obtain ⟨rfl, rfl⟩ := List.cons.inj isSplit'
      rw [List.cons_append, whole', whole, List.cons_append]

theorem splitBy_congr {sep' : Char → Bool} {cs : List Char} (same : ∀ c ∈ cs, sep c = sep' c) :
    splitBy sep cs = splitBy sep' cs := by
  induction cs with
  | nil => rfl
  | cons c rest ih =>
    obtain ⟨first, others⟩ := List.forall_mem_cons.1 same
    rw [splitBy, splitBy, first, ih others]

/-- No piece has a separator in it. -/
theorem mem_splitBy (cs : List Char) : ∀ piece ∈ splitBy sep cs, ∀ c ∈ piece, sep c = false := by
  induction cs with
  | nil => simp [splitBy]
  | cons c rest ih =>
    cases isSep : sep c with
    | true =>
      rw [splitBy_cons_of_sep isSep]
      exact List.forall_mem_cons.2 ⟨by simp, ih⟩
    | false =>
      obtain ⟨piece, pieces, isSplit, whole⟩ := splitBy_cons_of_free isSep rest
      rw [isSplit] at ih
      obtain ⟨first, others⟩ := List.forall_mem_cons.1 ih
      rw [whole]
      exact List.forall_mem_cons.2 ⟨List.forall_mem_cons.2 ⟨isSep, first⟩, others⟩

theorem mem_of_mem_splitBy {cs : List Char} : ∀ piece ∈ splitBy sep cs, ∀ c ∈ piece, c ∈ cs := by
  induction cs with
  | nil => simp [splitBy]
  | cons d rest ih =>
    intro piece isPiece c member
    cases isSep : sep d with
    | true =>
      rw [splitBy_cons_of_sep isSep, List.mem_cons] at isPiece
      rcases isPiece with rfl | later
      · cases member
      · exact List.mem_cons_of_mem _ (ih piece later c member)
    | false =>
      obtain ⟨first, others, isSplit, whole⟩ := splitBy_cons_of_free isSep rest
      rw [isSplit] at ih
      rw [whole, List.mem_cons] at isPiece
      rcases isPiece with rfl | later
      · exact (List.mem_cons.1 member).elim (· ▸ List.mem_cons_self) fun inside =>
          List.mem_cons_of_mem _ (ih first List.mem_cons_self c inside)
      · exact List.mem_cons_of_mem _ (ih piece (List.mem_cons_of_mem _ later) c member)

theorem joinWith_cons {between piece : List Char} {pieces : List (List Char)} (more : pieces ≠ []) :
    joinWith between (piece :: pieces) = piece ++ between ++ joinWith between pieces := by
  cases pieces with
  | nil => exact absurd rfl more
  | cons next rest => rfl

theorem forall_mem_joinWith {P : Char → Prop} {between : List Char} (ofBetween : ∀ c ∈ between, P c)
    (pieces : List (List Char)) (ofPieces : ∀ piece ∈ pieces, ∀ c ∈ piece, P c) :
    ∀ c ∈ joinWith between pieces, P c := by
  fun_induction joinWith between pieces with
  | case1 => simp
  | case2 piece => exact ofPieces piece List.mem_cons_self
  | case3 piece pieces _ ih =>
    obtain ⟨first, others⟩ := List.forall_mem_cons.1 ofPieces
    exact List.forall_mem_append.2 ⟨List.forall_mem_append.2 ⟨first, ofBetween⟩, ih others⟩

/-- Joining pieces puts a character in the place of each separator. -/
theorem joinWith_splitBy (d : Char) (cs : List Char) :
    joinWith [d] (splitBy sep cs) = cs.map fun c => if sep c then d else c := by
  induction cs with
  | nil => rfl
  | cons c rest ih =>
    cases isSep : sep c with
    | true =>
      rw [splitBy_cons_of_sep isSep, joinWith_cons (splitBy_ne_nil rest), ih, List.map_cons, isSep]
      rfl
    | false =>
      obtain ⟨piece, pieces, isSplit, whole⟩ := splitBy_cons_of_free isSep rest
      rw [List.map_cons, ← ih, isSplit, whole, isSep]
      cases pieces <;> rfl

/-- Pieces that were joined by a separator are found again. -/
theorem splitBy_joinWith {d : Char} (isSep : sep d = true) {pieces : List (List Char)} (some : pieces ≠ [])
    (free : ∀ piece ∈ pieces, ∀ c ∈ piece, sep c = false) : splitBy sep (joinWith [d] pieces) = pieces := by
  induction pieces with
  | nil => exact absurd rfl some
  | cons piece rest ih =>
    obtain ⟨first, others⟩ := List.forall_mem_cons.1 free
    cases rest with
    | nil => exact splitBy_of_free first
    | cons next more =>
      rw [joinWith_cons (List.cons_ne_nil _ _), List.append_assoc, List.singleton_append, splitBy_append isSep,
        splitBy_of_free first, ih (List.cons_ne_nil _ _) others]
      rfl

end YangStubs.Text
