import TestEngine.Event

/-! What listeners make of the events of a run: answers about named nodes, counts, and log records. -/

namespace TestEngine

/-- How many tests started, ended in each way, and were skipped. Containers are not counted. -/
structure Summary where
  started : Nat := 0
  successful : Nat := 0
  failed : Nat := 0
  aborted : Nat := 0
  skipped : Nat := 0
  deriving DecidableEq, Repr, Inhabited

namespace Summary

def count (s : Summary) (e : Event) : Summary :=
  if !e.isTest then s
  else match e.kind with
    | .started => { s with started := s.started + 1 }
    | .skipped _ => { s with skipped := s.skipped + 1 }
    | .finished .successful => { s with successful := s.successful + 1 }
    | .finished (.failed _) => { s with failed := s.failed + 1 }
    | .finished (.aborted _) => { s with aborted := s.aborted + 1 }
    | .registered | .entry _ => s

end Summary

structure Recording where
  events : List Event := []
  deriving Inhabited

namespace Recording

def about (r : Recording) (displayName : String) : List Event :=
  r.events.filter (·.displayName == displayName)

/-- The result that a node of this name finished with first. -/
def result? (r : Recording) (displayName : String) : Option ExecutionResult :=
  (r.about displayName).findSome? fun e =>
    match e.kind with
    | .finished result => some result
    | _ => none

/-- The reason that a node of this name was skipped for first. -/
def skipReason? (r : Recording) (displayName : String) : Option String :=
  (r.about displayName).findSome? fun e =>
    match e.kind with
    | .skipped reason => some reason
    | _ => none

def wasStarted (r : Recording) (displayName : String) : Bool :=
  (r.about displayName).any fun e =>
    match e.kind with
    | .started => true
    | _ => false

/-- The names of the nodes made at run time, in the order they were announced. -/
def dynamicNames (r : Recording) : List String :=
  r.events.filterMap fun e =>
    match e.kind with
    | .registered => some e.displayName
    | _ => none

def summary (r : Recording) : Summary := r.events.foldl Summary.count {}

end Recording

inductive LogLevel where
  | debug | info | warn | error
  deriving DecidableEq, Repr, Inhabited

def LogLevel.render : LogLevel → String
  | .debug => "DEBUG"
  | .info => "INFO"
  | .warn => "WARN"
  | .error => "ERROR"

structure LogRecord where
  level : LogLevel
  message : String
  fields : List (String × String)
  deriving DecidableEq, Repr, Inhabited

def LogRecord.of (e : Event) : LogRecord :=
  let id := ("id", e.id.render)
  match e.kind with
  | .registered => ⟨.debug, "dynamic test registered", [id]⟩
  | .started => ⟨.info, "started", [id, ("name", e.displayName)]⟩
  | .skipped reason => ⟨.info, "skipped", [id, ("reason", reason)]⟩
  | .finished .successful => ⟨.info, "successful", [id]⟩
  | .finished (.aborted error) => ⟨.warn, "aborted", [id, ("error", error.message)]⟩
  | .finished (.failed error) =>
    ⟨.error, "failed",
      [id, ("error", error.message), ("suppressed", toString error.suppressed.length)]⟩
  | .entry values => ⟨.info, "report entry", [id, ("values", Text.mapping values.entries)]⟩

end TestEngine
