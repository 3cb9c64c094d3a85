import TestEngine.TestError

/-! Gathering what the steps of one node raise, and the result a node finishes with. -/

namespace TestEngine

inductive ExecutionResult where
  | successful
  | failed (e : TestError)
  | aborted (e : TestError)
  deriving DecidableEq, Inhabited

namespace ExecutionResult

/-- Aborts are told apart from failures by the kind of the error. -/
def ofError (e : TestError) : ExecutionResult :=
  if e.isAborted then .aborted e else .failed e

def ofExcept : Except TestError Unit → ExecutionResult
  | .ok () => .successful
  | .error e => ofError e

def isSuccessful : ExecutionResult → Bool
  | .successful => true
  | _ => false

def isFailed : ExecutionResult → Bool
  | .failed _ => true
  | _ => false

def isAborted : ExecutionResult → Bool
  | .aborted _ => true
  | _ => false

def error? : ExecutionResult → Option TestError
  | .successful => none
  | .failed e | .aborted e => some e

def render : ExecutionResult → String
  | .successful => "successful"
  | .failed e => "failed: " ++ e.message
  | .aborted e => "aborted: " ++ e.message

end ExecutionResult

/-- The errors raised so far, under one primary error. -/
structure Collector where
  primary : Option TestError := none
  deriving DecidableEq, Inhabited

namespace Collector

def empty : Collector := {}

/-- The first error is primary and later ones are suppressed under it, except that an error
which is no abort takes the place of an abort. -/
def add (c : Collector) (e : TestError) : Collector :=
  match c.primary with
  | none => ⟨some e⟩
  | some p => if p.isAborted && !e.isAborted then ⟨some (e.suppress p)⟩ else ⟨some (p.suppress e)⟩

def record (c : Collector) : Except Fault Unit → Collector
  | .ok () => c
  | .error f => c.add f.toError

def isEmpty (c : Collector) : Bool := c.primary.isNone

def toExcept (c : Collector) : Except TestError Unit :=
  match c.primary with
  | none => .ok ()
  | some e => .error e

def toResult (c : Collector) : ExecutionResult :=
  match c.primary with
  | none => .successful
  | some e => .ofError e

end Collector

/-- A node's result once its store is closed: the close error joins what the node raised. -/
def ExecutionResult.withCleanup (r : ExecutionResult) : Except TestError Unit → ExecutionResult
  | .ok () => r
  | .error e => ((Collector.mk r.error?).add e).toResult

end TestEngine
