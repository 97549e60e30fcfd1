import YangStubs.Emit.TypeReader

/-! # Paths that are read

Reading a text as a path and writing the path down again only removes white space.
-/

namespace YangStubs.Emit

open YangStubs.Text

/-- The characters of a token. -/
def Token.chars : Token → List Char
  | .word text => text.toList
  | .lifetime name => '\'' :: name.toList
  | .number text => text.toList
  | .colons => [':', ':']
  | .arrow => ['-', '>']
  | .mark c => [c]

theorem identifier?_eq {cs rest : List Char} {name : String} (read : identifier? cs = some (name, rest)) :
    cs = name.toList ++ rest := by
  cases cs with
  | nil => cases read
  | cons c others =>
    rw [identifier?] at read
    split at read
    · cases read
      simp
    · cases read

theorem word?_eq {cs rest : List Char} {word : String} (read : word? cs = some (word, rest)) :
    cs = word.toList ++ rest := by
  unfold word? at read
  split at read
  · rename_i inner
    obtain ⟨⟨name, after⟩, isName, allowed⟩ := Option.bind_eq_some_iff.1 read
    obtain ⟨-, -, same⟩ := Option.bind_eq_some_iff.1 allowed
    cases same
    simp [identifier?_eq isName]
  · exact identifier?_eq read

/-- A token is read off the start of a text. -/
theorem token?_eq {cs rest : List Char} {token : Token} (read : token? cs = some (token, rest)) :
    cs = token.chars ++ rest := by
  unfold token? at read
  split at read
  · cases read
    rfl
  · cases read
    rfl
  · obtain ⟨⟨name, after⟩, isName, allowed⟩ := Option.bind_eq_some_iff.1 read
    obtain ⟨-, -, same⟩ := Option.bind_eq_some_iff.1 allowed
    cases same
    simp [Token.chars, identifier?_eq isName]
  · rename_i c others _ _ _
    by_cases isDigit : isAsciiDigit c = true
    · rw [if_pos isDigit] at read
      cases read
      simp [Token.chars]
    · rw [if_neg isDigit] at read
      by_cases isMark : marks.contains c = true
      · rw [if_pos isMark] at read
        cases read
        rfl
      · rw [if_neg isMark] at read
        obtain ⟨⟨word, after⟩, isWord, same⟩ := Option.map_eq_some_iff.1 read
        cases same
        exact word?_eq isWord
  · cases read

theorem trimStart_eq {cs : List Char} (dense : ∀ c ∈ cs, isBlank c = false) : trimStart cs = cs := by
  cases cs with
  | nil => rfl
  | cons c rest => rw [trimStart, List.dropWhile_cons_of_neg (by simp [dense])]

/-- A text without white space is its tokens, one after the other. -/
theorem tokensWithin_eq (bound : Nat) {cs : List Char} (dense : ∀ c ∈ cs, isBlank c = false)
    {tokens : List Token} (read : tokensWithin bound cs = some tokens) :
    cs = tokens.flatMap Token.chars := by
  induction bound generalizing cs tokens with
  | zero =>
    rw [tokensWithin, trimStart_eq dense] at read
    cases cs with
    | nil =>
      cases read
      rfl
    | cons c rest => cases read
  | succ bound ih =>
    rw [tokensWithin, trimStart_eq dense] at read
    cases cs with
    | nil =>
      cases read
      rfl
    | cons c rest =>
      obtain ⟨⟨token, after⟩, isToken, more⟩ := Option.bind_eq_some_iff.1 read
      obtain ⟨others, areOthers, same⟩ := Option.bind_eq_some_iff.1 more
      cases same
      have start := token?_eq isToken
      -- What follows a token is a part of the text, so the hypothesis goes down with the bound.
      have denseAfter : ∀ c ∈ after, isBlank c = false := by
        intro c member
        apply dense
        rw [start]
        exact List.mem_append_right _ member
      rw [start, List.flatMap_cons, ← ih denseAfter areOthers]

theorem pathParts?_eq {tokens : List Token} {parts : List String}
    (read : pathParts? tokens = some parts) :
    parts ≠ [] ∧ joinWith [':', ':'] (parts.map (·.toList)) = tokens.flatMap Token.chars := by
  fun_induction pathParts? tokens generalizing parts with
  | case1 name _ =>
    cases read
    simp [joinWith, Token.chars]
  | case2 => cases read
  | case3 name rest _ ih =>
    obtain ⟨others, areOthers, rfl⟩ := Option.map_eq_some_iff.1 read
    obtain ⟨some, joined⟩ := ih areOthers
    obtain ⟨next, more, rfl⟩ := List.exists_cons_of_ne_nil some
    simp only [List.map_cons, joinWith, List.flatMap_cons, Token.chars] at joined ⊢
    simp [joined]
  | case4 => cases read
  | case5 => cases read

theorem path?_eq {text path : String} (dense : ∀ c ∈ text.toList, isBlank c = false)
    (read : path? text = some path) : path = text := by
  obtain ⟨tokens, areTokens, written⟩ := Option.bind_eq_some_iff.1 read
  have whole := tokensWithin_eq text.length dense areTokens
  split at written
  · rename_i rest
    obtain ⟨parts, areParts, same⟩ := Option.bind_eq_some_iff.1 written
    cases same
    have joined := (pathParts?_eq areParts).2
    rw [← String.toList_inj, whole]
    simp [joinTexts, joined, Token.chars]
  · obtain ⟨parts, areParts, same⟩ := Option.bind_eq_some_iff.1 written
    cases same
    have joined := (pathParts?_eq areParts).2
    rw [← String.toList_inj, whole]
    simp [joinTexts, joined]

end YangStubs.Emit
