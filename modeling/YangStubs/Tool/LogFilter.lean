import YangStubs.Log
import YangStubs.Text.Casing
import YangStubs.Text.CharClass
import YangStubs.Text.Split

/-! # Log filters

A filter is a list of directives, each for the parts of the program whose names start in a certain way, or
for all of them.  The directive with the longest start decides.
-/

namespace YangStubs.Tool

open YangStubs.Text

structure Directive where
  /-- How the names of the parts start; the empty text is for all. -/
  target : Option String
  /-- The rank of the least severe level that is shown. -/
  rank : Nat
  deriving DecidableEq, Repr

abbrev LogFilter := List Directive

inductive DirectiveError where
  | malformed
  | unknownLevel
  deriving DecidableEq, Repr

def DirectiveError.message : DirectiveError → String
  | .malformed => "invalid filter directive"
  | .unknownLevel =>
    "error parsing level filter: expected one of \"off\", \"error\", \"warn\", \"info\", \"debug\", " ++
      "\"trace\", or a number 0-5"

/-- The rank that a number stands for: digits, perhaps after a plus sign. -/
def numberedRank? (cs : List Char) : Option Nat :=
  let digits := if cs.head? == some '+' then cs.drop 1 else cs
  if !digits.isEmpty && digits.all Char.isDigit then
    let rank := digits.foldl (fun n d => 10 * n + (d.toNat - '0'.toNat)) 0
    if rank ≤ 5 then some rank else none
  else none

/-- The rank of a level by its name or number; zero shows nothing. -/
def levelRank? (cs : List Char) : Option Nat :=
  match String.ofList (lowerAscii cs) with
  | "off" => some 0
  | "error" => some 1
  | "warn" => some 2
  | "info" => some 3
  | "debug" => some 4
  | "trace" => some 5
  | _ => numberedRank? cs

def startsDirective (c : Char) : Bool :=
  isAlphanumeric c || c == '-' || c == ':' || c == '_'

/-- Reads a directive: a level, a target, or both with an equals sign between them.  A target without a
    level shows everything.  The place of the equals sign is counted without leading blanks, the parts are
    cut from the whole text. -/
def Directive.parse (text : String) : Except DirectiveError Directive :=
  let cs := text.toList
  let seen := trim cs
  if !seen.head?.any startsDirective then .error .malformed
  else
    let place := (seen.takeWhile fun c => c != '=' && c != '[').length
    match seen.drop place with
    | [] =>
      match levelRank? cs with
      | some rank => .ok ⟨none, rank⟩
      | none => .ok ⟨some text, 5⟩
    | '=' :: _ =>
      let target := some (String.ofList (cs.take place))
      let level := cs.drop (place + 1)
      if level.isEmpty then .ok ⟨target, 5⟩
      else
        match levelRank? level with
        | some rank => .ok ⟨target, rank⟩
        | none => .error .unknownLevel
    | _ => .error .malformed

namespace LogFilter

/-- The filter with no directives shows errors only. -/
def orDefault (directives : LogFilter) : LogFilter :=
  if directives.isEmpty then [⟨none, 1⟩] else directives

def parts (text : String) : List String :=
  ((splitBy (· == ',') text.toList).filter (!·.isEmpty)).map String.ofList

def ofText (text : String) : LogFilter :=
  orDefault ((parts text).filterMap fun part => (Directive.parse part).toOption)

def complaints (text : String) : List String :=
  (parts text).filterMap fun part =>
    match Directive.parse part with
    | .ok _ => none
    | .error e => some ("ignoring `" ++ part ++ "`: " ++ e.message)

def parse? (text : String) : Option LogFilter :=
  ((parts text).mapM fun part => (Directive.parse part).toOption).map orDefault

def standard : LogFilter :=
  [⟨some "knit", 3⟩]

/-- The filter of a run: what the options ask for, or else what the environment does. -/
def choose (option environment : Option String) : LogFilter :=
  match option with
  | some text => ofText text
  | none => (environment.bind parse?).getD standard

/-- How much a directive says about a part of the program. -/
def weight (directive : Directive) : Nat :=
  directive.target.elim 0 fun target => target.utf8ByteSize + 1

def concerns (path : String) (directive : Directive) : Bool :=
  directive.target.all fun target => startsWith target.toList path.toList

/-- The directive that decides about a part of the program: the longest, and of these the last. -/
def deciding? (filter : LogFilter) (path : String) : Option Directive :=
  (filter.filter (concerns path)).foldl
    (fun best directive =>
      match best with
      | some other => if weight directive < weight other then some other else some directive
      | none => some directive)
    none

def shows (filter : LogFilter) (event : Event) : Bool :=
  (filter.deciding? event.origin.path).any fun directive => event.level.rank ≤ directive.rank

end LogFilter

end YangStubs.Tool
