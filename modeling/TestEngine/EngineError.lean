import TestEngine.TestError
import TestEngine.UniqueId

/-! Errors that keep a run from starting. -/

namespace TestEngine

def engineVersion : String := "0.3.0"

inductive EngineError where
  | invalidUniqueId (text : String)
  | duplicateUniqueId (id : UniqueId)
  /-- A child whose identifier does not lead on from its parent's. -/
  | detachedChild (parent child : UniqueId)
  | unreadable
  | malformed
  | versionMismatch (required : String)
  | extension (cause : TestError)
  | runtime (cause : String)
  deriving DecidableEq, Inhabited

namespace EngineError

def label : EngineError → String
  | .invalidUniqueId _ => "InvalidUniqueId"
  | .duplicateUniqueId _ => "DuplicateUniqueId"
  | .detachedChild _ _ => "DetachedChild"
  | .unreadable => "Io"
  | .malformed => "Parse"
  | .versionMismatch _ => "VersionMismatch"
  | .extension _ => "Extension"
  | .runtime _ => "Runtime"

def message? : EngineError → Option String
  | .invalidUniqueId text => some ("invalid unique id `" ++ text ++ "`")
  | .duplicateUniqueId id => some ("duplicate unique id `" ++ id.render ++ "` in descriptor tree")
  | .detachedChild parent child =>
    some ("unique id `" ++ child.render ++ "` does not extend the id of its parent `" ++ parent.render
      ++ "`")
  | .unreadable | .malformed => none
  | .versionMismatch required =>
    some ("configuration version mismatch: file requires " ++ required ++ ", engine version is "
      ++ engineVersion)
  | .extension cause => some ("failed to register extension: " ++ cause.message)
  | .runtime cause => some ("failed to start the execution runtime: " ++ cause)

end EngineError

/-- Reads a written identifier. A text that is none is told as it stands. -/
def UniqueId.parse (text : String) : Except EngineError UniqueId :=
  match UniqueId.parse? text with
  | some id => .ok id
  | none => .error (.invalidUniqueId text)

end TestEngine
