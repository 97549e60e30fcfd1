/-! # Log events

What the library has to say about its work besides its results: an ordered list of events, each with a
level and the part of the program it comes from.
-/

namespace YangStubs

inductive Level where
  | error
  | warn
  | info
  | debug
  | trace
  deriving DecidableEq, Repr

namespace Level

def rank : Level → Nat
  | .error => 1
  | .warn => 2
  | .info => 3
  | .debug => 4
  | .trace => 5

def label : Level → String
  | .error => "ERROR"
  | .warn => "WARN"
  | .info => "INFO"
  | .debug => "DEBUG"
  | .trace => "TRACE"

/-- Whether an event of this level shows where the level `shown` is asked for. -/
def within (level shown : Level) : Bool :=
  decide (level.rank ≤ shown.rank)

end Level

inductive Origin where
  | reading
  | searching
  | loading
  | resolving
  | backends
  | modules
  | nodes
  | typing
  | views
  | stubs
  | tool
  deriving DecidableEq, Repr

/-- The name by which log filters know a part of the program. -/
def Origin.path : Origin → String
  | .reading => "knit_yang::reader"
  | .searching => "knit_yang::import"
  | .loading => "knit_yang::context"
  | .resolving => "knit_yang::resolve"
  | .backends => "knit_wrapper::wool"
  | .modules => "knit_wrapper::module"
  | .nodes => "knit_wrapper::knitter"
  | .typing => "knit_wrapper::typonder"
  | .views => "knit_wrapper::view"
  | .stubs => "knit::generators::rust"
  | .tool => "knit"

structure Event where
  level : Level
  origin : Origin
  message : String
  deriving DecidableEq, Repr

abbrev Log := List Event

def Log.upTo (shown : Level) (log : Log) : Log :=
  log.filter (·.level.within shown)

end YangStubs
