import TestEngine.Collector
import TestEngine.Dictionary
import TestEngine.Node
import TestEngine.Text.Described

/-! What a run reports about its nodes. -/

namespace TestEngine

inductive EventKind where
  /-- A node made at run time is announced. -/
  | registered
  | started
  | skipped (reason : String)
  | finished (result : ExecutionResult)
  /-- A report entry is published for the node. -/
  | entry (values : Dictionary String)
  deriving Inhabited

structure Event where
  id : UniqueId
  displayName : String
  isTest : Bool
  kind : EventKind
  deriving Inhabited

namespace Event

def of (node : Node) (kind : EventKind) : Event :=
  { id := node.id, displayName := node.displayName, isTest := node.kind.isTest, kind }

def render (e : Event) : String :=
  match e.kind with
  | .registered => "registered " ++ e.id.render
  | .started => "started " ++ e.id.render
  | .skipped reason => "skipped " ++ e.id.render ++ " (" ++ reason ++ ")"
  | .finished result => "finished " ++ e.id.render ++ " (" ++ result.render ++ ")"
  | .entry values => "entry " ++ e.id.render ++ " " ++ Text.mapping values.entries

end Event

end TestEngine
