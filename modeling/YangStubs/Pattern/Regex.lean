import YangStubs.Pattern.CharClass

/-! # Regular expressions

An expression matches stretches of a text.  `ends` lists where a match that starts at a given place can
end; whether there is a match at all does not depend on which of them would be preferred.
-/

namespace YangStubs.Pattern

/-- Conditions on a place in a text. -/
inductive Look where
  | textStart
  | textEnd
  /-- After a line feed, or at the start. -/
  | lineStart
  | lineEnd
  /-- Like `lineStart`, where a carriage return ends lines as well. -/
  | lineStartReturn
  | lineEndReturn
  /-- Between a word character and another one. -/
  | boundary (unicode : Bool)
  | notBoundary (unicode : Bool)
  | wordStart (unicode : Bool)
  | wordEnd (unicode : Bool)
  /-- Not after a word character. -/
  | wordStartHalf (unicode : Bool)
  | wordEndHalf (unicode : Bool)
  deriving DecidableEq, Repr

inductive Regex where
  | empty
  | set (chars : CharClass)
  | look (condition : Look)
  | cat (first second : Regex)
  | alt (left right : Regex)
  /-- At least `least` times, at most `most` times if that is given. -/
  | iterate (least : Nat) (most : Option Nat) (body : Regex)
  deriving Repr

def before? (text : List Char) (place : Nat) : Option Char :=
  if place == 0 then none else text[place - 1]?

def isWord (unicode : Bool) (c : Option Char) : Bool :=
  c.any (CharClass.word unicode).contains

def Look.holds (text : List Char) (place : Nat) (condition : Look) : Bool :=
  let before := before? text place
  let after := text[place]?
  match condition with
  | .textStart => place == 0
  | .textEnd => after.isNone
  | .lineStart => before.isNone || before == some '\n'
  | .lineEnd => after.isNone || after == some '\n'
  | .lineStartReturn =>
    before.isNone || before == some '\n' || (before == some '\r' && after != some '\n')
  | .lineEndReturn =>
    after.isNone || after == some '\r' || (after == some '\n' && before != some '\r')
  | .boundary unicode => isWord unicode before != isWord unicode after
  | .notBoundary unicode => isWord unicode before == isWord unicode after
  | .wordStart unicode => !isWord unicode before && isWord unicode after
  | .wordEnd unicode => isWord unicode before && !isWord unicode after
  | .wordStartHalf unicode => !isWord unicode before
  | .wordEndHalf unicode => !isWord unicode after

def stepAll (step : Nat → List Nat) (places : List Nat) : List Nat :=
  (places.flatMap step).eraseDups

def stepTimes (step : Nat → List Nat) : Nat → List Nat → List Nat
  | 0, places => places
  | n + 1, places => if places.isEmpty then [] else stepTimes step n (stepAll step places)

def stepUpTo (step : Nat → List Nat) : Nat → List Nat → List Nat
  | 0, places => places
  | n + 1, places => (places ++ stepUpTo step n (stepAll step places)).eraseDups

namespace Regex

/-- Where a match that starts at a place can end. -/
def ends (text : List Char) : Regex → Nat → List Nat
  | .empty, place => [place]
  | .set chars, place =>
    match text[place]? with
    | some c => if chars.contains c then [place + 1] else []
    | none => []
  | .look condition, place => if condition.holds text place then [place] else []
  | .cat first second, place => stepAll (second.ends text) (first.ends text place)
  | .alt left right, place => (left.ends text place ++ right.ends text place).eraseDups
  | .iterate least most body, place =>
    let step := body.ends text
    -- more steps than there are places lead nowhere new
    let more := min (text.length + 1) ((most.map (· - least)).getD (text.length + 1))
    stepUpTo step more (stepTimes step least [place])

def matchesIn (regex : Regex) (text : List Char) : Bool :=
  (List.range (text.length + 1)).any fun place => !(regex.ends text place).isEmpty

def seq : List Regex → Regex
  | [] => .empty
  | [r] => r
  | r :: rest => .cat r (seq rest)

def oneOf : List Regex → Regex
  | [] => .empty
  | [r] => r
  | r :: rest => .alt r (oneOf rest)

end Regex

end YangStubs.Pattern
