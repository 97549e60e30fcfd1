import YangStubs.Pattern.Property
import YangStubs.Pattern.Regex

/-! # Reading patterns

The text of a pattern becomes a regular expression.  Groups may set flags for what follows in them:
`i` ignores case, `m` lets `^` and `$` match at lines, `s` lets `.` match line ends, `R` makes carriage
returns end lines, `x` skips white space and comments, `u` turns the classes of all scripts on and off,
`U` is about preference only.  `none` means that the text is no pattern.
-/

namespace YangStubs.Pattern

open YangStubs.Text

structure Flags where
  ignoreCase : Bool := false
  multiLine : Bool := false
  dotAll : Bool := false
  returns : Bool := false
  unicode : Bool := true
  spaced : Bool := false
  deriving DecidableEq, Repr

def Flags.set? (flags : Flags) (letter : Char) (on : Bool) : Option Flags :=
  match letter with
  | 'i' => some { flags with ignoreCase := on }
  | 'm' => some { flags with multiLine := on }
  | 's' => some { flags with dotAll := on }
  | 'R' => some { flags with returns := on }
  | 'u' => some { flags with unicode := on }
  | 'x' => some { flags with spaced := on }
  | 'U' => some flags
  | _ => none

/-- The text after white space and comments, if these are skipped.  The bound is on the length. -/
def skipSpaceWithin (flags : Flags) : Nat → List Char → List Char
  | 0, cs => cs
  | bound + 1, cs =>
    if flags.spaced then
      match cs with
      | [] => []
      | c :: rest =>
        if isBlank c then skipSpaceWithin flags bound rest
        else if c == '#' then skipSpaceWithin flags bound (rest.dropWhile (· != '\n'))
        else cs
    else cs

def skipSpace (flags : Flags) (cs : List Char) : List Char :=
  skipSpaceWithin flags cs.length cs

/-! ## Escapes -/

/-- What a single character, escaped or not, can stand for. -/
inductive Primitive where
  | literal (c : Char) (byte : Bool)
  | oneOf (chars : CharClass)
  | condition (look : Look)

def hexDigit? (c : Char) : Option Nat :=
  if c.isDigit then some (c.toNat - 48)
  else if 'a' ≤ c ∧ c ≤ 'f' then some (c.toNat - 87)
  else if 'A' ≤ c ∧ c ≤ 'F' then some (c.toNat - 55)
  else none

def hexChar? (digits : List Char) : Option Char := do
  guard (!digits.isEmpty)
  let values ← digits.mapM hexDigit?
  let n := values.foldl (fun n d => n * 16 + d) 0
  guard n.isValidChar
  return Char.ofNat n

def hexDigits? (flags : Flags) : Nat → List Char → Option (List Char × List Char)
  | 0, cs => some ([], cs)
  | _ + 1, [] => none
  | count + 1, c :: rest => do
    let _ ← hexDigit? c
    let (digits, rest) ← hexDigits? flags count (skipSpace flags rest)
    return (c :: digits, rest)

def braced? (flags : Flags) : Nat → List Char → Option (List Char × List Char)
  | 0, _ => none
  | bound + 1, cs =>
    match skipSpace flags cs with
    | [] => none
    | '\x7d' :: rest => some ([], rest)
    | c :: rest => (braced? flags bound rest).map fun (inner, rest) => (c :: inner, rest)

/-- A hexadecimal escape after its letter, which fixes the number of digits. -/
def hexEscape? (flags : Flags) (count : Nat) (cs : List Char) : Option (Primitive × List Char) := do
  match skipSpace flags cs with
  | [] => none
  | '\x7b' :: rest =>
    let (digits, rest) ← braced? flags (rest.length + 1) rest
    return (.literal (← hexChar? digits) false, rest)
  | cs =>
    let (digits, rest) ← hexDigits? flags count cs
    return (.literal (← hexChar? digits) (count == 2), rest)

def namedProperty? (inner : List Char) : Option CharClass :=
  let split := (hasPart ['!', '='] inner, cutAt? ':' inner, cutAt? '=' inner)
  match split with
  | (true, _, some (name, value)) =>
    (propertyValue? (String.ofList name.dropLast) (String.ofList value)).map .compl
  | (false, some (name, value), _) => propertyValue? (String.ofList name) (String.ofList value)
  | (false, none, some (name, value)) => propertyValue? (String.ofList name) (String.ofList value)
  | _ => property? (String.ofList inner)

def propertyClass? (flags : Flags) (cs : List Char) : Option (CharClass × List Char) :=
  match skipSpace flags cs with
  | [] => none
  | '\\' :: _ => none
  | '\x7b' :: rest => do
    let (inner, rest) ← braced? flags (rest.length + 1) rest
    return (← namedProperty? inner, rest)
  | c :: rest => (property? (String.ofList [c])).map fun chars => (chars, skipSpace flags rest)

def propertyEscape? (flags : Flags) (negated : Bool) (cs : List Char) : Option (Primitive × List Char) := do
  guard flags.unicode
  let (chars, rest) ← propertyClass? flags cs
  let chars := if flags.ignoreCase then CharClass.fold chars else chars
  return (.oneOf (if negated then .compl chars else chars), rest)

/-- A special word boundary between braces, if that is what the text holds. -/
def wordBoundary? (flags : Flags) (cs : List Char) : Option (Primitive × List Char) :=
  let isWordChar (c : Char) := c.isAlpha || c == '-'
  match cs with
  | '\x7b' :: rest =>
    match skipSpace flags rest with
    | [] => none
    | c :: _ =>
      if isWordChar c then do
        let (inner, rest) ← braced? flags (rest.length + 1) rest
        match String.ofList inner with
        | "start" => return (.condition (.wordStart flags.unicode), rest)
        | "end" => return (.condition (.wordEnd flags.unicode), rest)
        | "start-half" => return (.condition (.wordStartHalf flags.unicode), rest)
        | "end-half" => return (.condition (.wordEndHalf flags.unicode), rest)
        | _ => none
      else some (.condition (.boundary flags.unicode), cs)
  | _ => some (.condition (.boundary flags.unicode), cs)

/-- A class with a letter of its own, and its complement. -/
def letterClass? (flags : Flags) (letter : Char) : Option CharClass :=
  match letter with
  | 'd' => some (.digit flags.unicode)
  | 's' => some (.space flags.unicode)
  | 'w' => some (.word flags.unicode)
  | 'D' => some (.compl (.digit flags.unicode))
  | 'S' => some (.compl (.space flags.unicode))
  | 'W' => some (.compl (.word flags.unicode))
  | _ => none

def letterChar? (letter : Char) : Option Char :=
  match letter with
  | 'a' => some '\x07'
  | 'f' => some '\x0c'
  | 't' => some '\t'
  | 'n' => some '\n'
  | 'r' => some '\r'
  | 'v' => some '\x0b'
  | _ => none

def escape? (flags : Flags) : List Char → Option (Primitive × List Char)
  | [] => none
  | 'x' :: rest => hexEscape? flags 2 rest
  | 'u' :: rest => hexEscape? flags 4 rest
  | 'U' :: rest => hexEscape? flags 8 rest
  | 'p' :: rest => propertyEscape? flags false rest
  | 'P' :: rest => propertyEscape? flags true rest
  | 'A' :: rest => some (.condition .textStart, rest)
  | 'z' :: rest => some (.condition .textEnd, rest)
  | 'b' :: rest => wordBoundary? flags rest
  | 'B' :: rest => some (.condition (.notBoundary flags.unicode), rest)
  | '<' :: rest => some (.condition (.wordStart flags.unicode), rest)
  | '>' :: rest => some (.condition (.wordEnd flags.unicode), rest)
  | c :: rest =>
    match letterClass? flags c, letterChar? c with
    | some chars, _ => some (.oneOf chars, rest)
    | none, some d => some (.literal d false, rest)
    | none, none =>
      if c.isAlphanum || 128 ≤ c.toNat then none else some (.literal c false, rest)

/-! ## Bracketed classes -/

/-- A class that ignores case if the flags say so. -/
def foldBy (flags : Flags) (chars : CharClass) : CharClass :=
  if flags.ignoreCase then (if flags.unicode then .fold chars else .foldAscii chars) else chars

inductive ClassOp where
  | inter
  | diff
  | symmDiff
  deriving DecidableEq, Repr

def ClassOp.apply : ClassOp → CharClass → CharClass → CharClass
  | .inter, left, right => .inter left right
  | .diff, left, right => .diff left right
  | .symmDiff, left, right => .symmDiff left right

structure OpenClass where
  negated : Bool
  /-- What stands left of the last operator, and that operator. -/
  left : Option (CharClass × ClassOp)
  /-- What has been read since. -/
  items : CharClass

/-- The class of all that has been read, operators applied. -/
def OpenClass.current (flags : Flags) (c : OpenClass) : CharClass :=
  match c.left with
  | none => c.items
  | some (left, op) => op.apply (foldBy flags left) (foldBy flags c.items)

def OpenClass.close (flags : Flags) (c : OpenClass) : CharClass :=
  let chars := foldBy flags (c.current flags)
  if c.negated then .compl chars else chars

def OpenClass.add (c : OpenClass) (chars : CharClass) : OpenClass :=
  { c with items := .union c.items chars }

def leadingHyphens (flags : Flags) : Nat → CharClass → List Char → CharClass × List Char
  | 0, items, cs => (items, cs)
  | bound + 1, items, cs =>
    match cs with
    | '-' :: rest => leadingHyphens flags bound (.union items (.single '-')) (skipSpace flags rest)
    | cs => (items, cs)

/-- Opens a class after its bracket: a caret negates, and hyphens or a bracket right at the start are
    literal. -/
def openClass (flags : Flags) (cs : List Char) : OpenClass × List Char :=
  let cs := skipSpace flags cs
  let (negated, cs) := match cs with
    | '^' :: rest => (true, skipSpace flags rest)
    | cs => (false, cs)
  match cs with
  | ']' :: rest => (⟨negated, none, .single ']'⟩, skipSpace flags rest)
  | cs =>
    let (items, rest) := leadingHyphens flags cs.length .empty cs
    (⟨negated, none, items⟩, rest)

def namedAscii? (cs : List Char) : Option (CharClass × List Char) := do
  let rest ← dropStart? [':'] cs
  let (negated, rest) := match rest with
    | '^' :: rest => (true, rest)
    | rest => (false, rest)
  let chars ← CharClass.ascii? (String.ofList (rest.takeWhile (· != ':')))
  let rest ← dropStart? [':', ']'] (rest.dropWhile (· != ':'))
  return (if negated then .compl chars else chars, rest)

/-- The class of a primitive; conditions are no part of classes. -/
def Primitive.chars? (flags : Flags) : Primitive → Option CharClass
  | .literal c _ => do
    guard (flags.unicode || c.toNat < 128)
    return .single c
  | .oneOf chars => some chars
  | .condition _ => none

def classPrimitive? (flags : Flags) : List Char → Option (Primitive × List Char)
  | [] => none
  | '\\' :: rest => escape? flags rest
  | c :: rest => some (.literal c false, rest)

def setItem? (flags : Flags) (cs : List Char) : Option (CharClass × List Char) := do
  let (first, rest) ← classPrimitive? flags cs
  match skipSpace flags rest with
  | [] => none
  | '-' :: after =>
    match skipSpace flags after with
    | [] => none
    | ']' :: _ | '-' :: _ => return (← first.chars? flags, skipSpace flags rest)
    | after =>
      let (last, rest) ← classPrimitive? flags after
      match first, last with
      | .literal a _, .literal b _ =>
        guard (a ≤ b)
        guard (flags.unicode || b.toNat < 128)
        return (.range a b, rest)
      | _, _ => none
  | rest => return (← first.chars? flags, rest)

/-- Reads a bracketed class, given the classes it is nested in, innermost first. -/
def classWithin? (flags : Flags) :
    Nat → OpenClass → List OpenClass → List Char → Option (CharClass × List Char)
  | 0, _, _, _ => none
  | bound + 1, c, outer, cs =>
    match skipSpace flags cs with
    | [] => none
    | '[' :: rest =>
      match namedAscii? rest with
      | some (chars, rest) => classWithin? flags bound (c.add chars) outer rest
      | none =>
        let (inner, rest) := openClass flags rest
        classWithin? flags bound inner (c :: outer) rest
    | ']' :: rest =>
      match outer with
      | [] => some (c.close flags, rest)
      | parent :: outer => classWithin? flags bound (parent.add (c.close flags)) outer rest
    | '&' :: '&' :: rest =>
      classWithin? flags bound { c with left := some (c.current flags, .inter), items := .empty } outer
        rest
    | '-' :: '-' :: rest =>
      classWithin? flags bound { c with left := some (c.current flags, .diff), items := .empty } outer
        rest
    | '~' :: '~' :: rest =>
      classWithin? flags bound { c with left := some (c.current flags, .symmDiff), items := .empty }
        outer rest
    | cs => do
      let (chars, rest) ← setItem? flags cs
      classWithin? flags bound (c.add chars) outer rest

def bracketed? (flags : Flags) (cs : List Char) : Option (CharClass × List Char) := do
  let (c, rest) := openClass flags cs
  let (chars, rest) ← classWithin? flags (cs.length + 1) c [] rest
  guard (flags.unicode || chars.isAscii)
  return (chars, rest)

/-! ## Repetitions -/

/-- A decimal number, with white space around it. -/
def decimal? (flags : Flags) (cs : List Char) : Option (Nat × List Char) := do
  let cs := cs.dropWhile isBlank
  let digits := cs.takeWhile Char.isDigit
  guard (!digits.isEmpty)
  let n : Nat := digits.foldl (fun n c => n * 10 + (c.toNat - 48)) 0
  guard (n < 4294967296)
  return (n, skipSpace flags ((cs.dropWhile Char.isDigit).dropWhile isBlank))

def counted? (flags : Flags) (cs : List Char) : Option ((Nat × Option Nat) × List Char) := do
  let (least, rest) ← decimal? flags (skipSpace flags cs)
  match rest with
  | '\x7d' :: rest => return ((least, some least), rest)
  | ',' :: rest =>
    match skipSpace flags rest with
    | '\x7d' :: rest => return ((least, none), rest)
    | rest =>
      let (most, rest) ← decimal? flags rest
      let rest ← dropStart? ['\x7d'] rest
      guard (least ≤ most)
      return ((least, some most), rest)
  | _ => none

/-- The text after the mark of a repetition that prefers few. -/
def skipLazy : List Char → List Char
  | '?' :: rest => rest
  | cs => cs

/-! ## Groups -/

def isGroupNameChar (first : Bool) (c : Char) : Bool :=
  c == '_' ||
    (if first then isAlphanumeric c && !c.isDigit
     else c == '.' || c == '[' || c == ']' || isAlphanumeric c)

/-- The flags of a group, given the letters seen so far, last first.  They end at a colon or at a
    parenthesis; the answer says whether it was the latter. -/
def groupFlags? : Flags → List Char → List Char → Option (Flags × Bool × List Char)
  | _, _, [] => none
  | flags, seen, c :: rest =>
    if c == ':' || c == ')' then
      -- a minus sign needs a flag after it
      if seen.head? == some '-' then none
      else if c == ')' && seen.isEmpty then none
      else some (flags, c == ')', rest)
    else if seen.contains c then none
    else if c == '-' then groupFlags? flags ('-' :: seen) rest
    else do
      let flags ← flags.set? c (!seen.contains '-')
      groupFlags? flags (c :: seen) rest

inductive GroupStart where
  /-- Flags for the rest of the group around. -/
  | flags (flags : Flags)
  | group (flags : Flags) (name : Option String)

def groupStart? (flags : Flags) (cs : List Char) : Option (GroupStart × List Char) :=
  let named (cs : List Char) : Option (GroupStart × List Char) := do
    let name := cs.takeWhile (· != '>')
    let rest ← dropStart? ['>'] (cs.dropWhile (· != '>'))
    match name with
    | [] => none
    | first :: others =>
      guard (isGroupNameChar true first && others.all (isGroupNameChar false))
      return (.group flags (some (String.ofList name)), rest)
  match skipSpace flags cs with
  | '?' :: '=' :: _ | '?' :: '!' :: _ => none
  | '?' :: '<' :: '=' :: _ | '?' :: '<' :: '!' :: _ => none
  | '?' :: 'P' :: '<' :: rest => named rest
  | '?' :: '<' :: rest => named rest
  | '?' :: rest => do
    let (inner, setOnly, rest) ← groupFlags? flags [] rest
    return (if setOnly then .flags inner else .group inner none, rest)
  | cs => some (.group flags none, cs)

/-! ## Expressions -/

/-- A group that is not closed yet: what has been read of it, last first, and the flags around it. -/
structure OpenGroup where
  branches : List Regex
  /-- The parts of the current alternative; `none` is a setting of flags. -/
  items : List (Option Regex)
  outerFlags : Flags

def OpenGroup.close (group : OpenGroup) : Regex :=
  let branch := Regex.seq (group.items.reverse.filterMap id)
  Regex.oneOf (branch :: group.branches).reverse

structure Reader where
  flags : Flags
  group : OpenGroup
  /-- The groups around, innermost first. -/
  outer : List OpenGroup
  names : List String

namespace Reader

def add (reader : Reader) (part : Option Regex) : Reader :=
  { reader with group := { reader.group with items := part :: reader.group.items } }

def repeatLast? (reader : Reader) (least : Nat) (most : Option Nat) : Option Reader :=
  match reader.group.items with
  | some last :: items =>
    some { reader with
      group := { reader.group with items := some (.iterate least most last) :: items } }
  | _ => none

def literal? (flags : Flags) (c : Char) (byte : Bool) : Option Regex := do
  guard (flags.unicode || !byte || c.toNat < 128)
  return .set (foldBy flags (.single c))

def primitive? (flags : Flags) : Primitive → Option Regex
  | .literal c byte => literal? flags c byte
  | .oneOf chars => do
    guard (flags.unicode || chars.isAscii)
    return .set chars
  | .condition look => some (.look look)

def dot? (flags : Flags) : Option Regex := do
  guard flags.unicode
  return .set (.compl (.ofChars (if flags.dotAll then [] else if flags.returns then ['\n', '\r'] else ['\n'])))

def caret (flags : Flags) : Look :=
  if flags.multiLine then (if flags.returns then .lineStartReturn else .lineStart) else .textStart

def dollar (flags : Flags) : Look :=
  if flags.multiLine then (if flags.returns then .lineEndReturn else .lineEnd) else .textEnd

def step? (reader : Reader) : List Char → Option (Reader × List Char)
  | [] => none
  | '(' :: rest => do
    match ← groupStart? reader.flags rest with
    | (.flags flags, rest) => return ({ reader with flags }.add none, rest)
    | (.group flags name, rest) =>
      guard (!name.any reader.names.contains)
      return ({ flags, group := ⟨[], [], reader.flags⟩, outer := reader.group :: reader.outer,
                names := name.toList ++ reader.names }, rest)
  | ')' :: rest =>
    match reader.outer with
    | [] => none
    | parent :: outer =>
      let closed : Reader :=
        { reader with flags := reader.group.outerFlags, group := parent, outer }
      some (closed.add (some reader.group.close), rest)
  | '|' :: rest =>
    let branch := Regex.seq (reader.group.items.reverse.filterMap id)
    some ({ reader with
      group := { reader.group with branches := branch :: reader.group.branches, items := [] } }, rest)
  | '[' :: rest => do
    let (chars, rest) ← bracketed? reader.flags rest
    return (reader.add (some (.set chars)), rest)
  | '?' :: rest => (reader.repeatLast? 0 (some 1)).map fun r => (r, skipLazy rest)
  | '*' :: rest => (reader.repeatLast? 0 none).map fun r => (r, skipLazy rest)
  | '+' :: rest => (reader.repeatLast? 1 none).map fun r => (r, skipLazy rest)
  | '\x7b' :: rest => do
    let ((least, most), rest) ← counted? reader.flags rest
    let reader' ← reader.repeatLast? least most
    return (reader', skipLazy (skipSpace reader.flags rest))
  | '\\' :: rest => do
    let (p, rest) ← escape? reader.flags rest
    return (reader.add (some (← primitive? reader.flags p)), rest)
  | '.' :: rest => (dot? reader.flags).map fun r => (reader.add (some r), rest)
  | '^' :: rest => some (reader.add (some (.look (caret reader.flags))), rest)
  | '$' :: rest => some (reader.add (some (.look (dollar reader.flags))), rest)
  | c :: rest => (literal? reader.flags c false).map fun r => (reader.add (some r), rest)

/-- Reads to the end.  The bound is on the number of constructs. -/
def runWithin? : Nat → Reader → List Char → Option Reader
  | 0, _, _ => none
  | bound + 1, reader, cs =>
    match skipSpace reader.flags cs with
    | [] => some reader
    | cs => do
      let (reader, rest) ← reader.step? cs
      runWithin? bound reader rest

end Reader

def Regex.parse? (pattern : String) : Option Regex := do
  let cs := pattern.toList
  let reader ← Reader.runWithin? (cs.length + 1) ⟨{}, ⟨[], [], {}⟩, [], []⟩ cs
  guard reader.outer.isEmpty
  return reader.group.close

end YangStubs.Pattern
