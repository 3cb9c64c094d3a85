import TestEngine.Configuration.Basic
import TestEngine.TestError

/-! The settings of a run that the configuration can give. -/

namespace TestEngine

inductive Lifecycle where
  | perMethod
  | perClass
  deriving DecidableEq, Repr, Inhabited

/-- Whether a node may run beside its siblings. -/
inductive ExecutionMode where
  | sameThread
  | concurrent
  deriving DecidableEq, Repr, Inhabited

inductive HookOrder where
  | declaration
  /-- By name; hooks of one name keep the order they were declared in. -/
  | alphanumeric
  deriving DecidableEq, Repr, Inhabited

def Lifecycle.describe : Lifecycle → String
  | .perMethod => "PerMethod"
  | .perClass => "PerClass"

def ExecutionMode.describe : ExecutionMode → String
  | .sameThread => "SameThread"
  | .concurrent => "Concurrent"

def HookOrder.describe : HookOrder → String
  | .declaration => "Declaration"
  | .alphanumeric => "Alphanumeric"

def readWord {α : Type} (first second : String × α) (word : String) : Except TestError α :=
  let lower := word.map Char.toLower
  if lower = first.1 then .ok first.2
  else if lower = second.1 then .ok second.2
  else .error (.configuration ("Must be one of " ++ first.1 ++ ", " ++ second.1 ++ "."))

def Lifecycle.read : String → Except TestError Lifecycle :=
  readWord ("per_method", .perMethod) ("per_class", .perClass)

def ExecutionMode.read : String → Except TestError ExecutionMode :=
  readWord ("same_thread", .sameThread) ("concurrent", .concurrent)

def HookOrder.read : String → Except TestError HookOrder :=
  readWord ("declaration", .declaration) ("alphanumeric", .alphanumeric)

namespace Key

def defaultLifecycle : String := "arbor.testinstance.lifecycle.default"
def parallelEnabled : String := "arbor.execution.parallel.enabled"
def defaultMode : String := "arbor.execution.parallel.mode.default"
def defaultClassesMode : String := "arbor.execution.parallel.mode.classes.default"
def parallelism : String := "arbor.execution.parallel.config.parallelism"
def defaultTimeout : String := "arbor.execution.timeout.default"
def deactivateConditions : String := "arbor.conditions.deactivate"
def defaultHookOrder : String := "arbor.hooks.order.default"
def defaultDisplayName : String := "arbor.params.displayname.default"
def argumentMaxLength : String := "arbor.params.displayname.argument.maxlength"

end Key

structure Settings where
  parallel : Bool := false
  parallelism : Option Nat := none
  defaultMode : ExecutionMode := .sameThread
  classesMode : ExecutionMode := .sameThread
  defaultLifecycle : Lifecycle := .perMethod
  defaultTimeout : Option Duration := none
  hookOrder : HookOrder := .declaration
  deriving Inhabited

/-- Absent and unreadable values leave the defaults; the mode of classes is by default that of all
nodes. -/
def Settings.ofConfiguration (c : Configuration) : Settings :=
  let defaultMode := (c.parsed? (ExecutionMode.read · |>.toOption) Key.defaultMode).getD .sameThread
  { parallel := (c.bool? Key.parallelEnabled).getD false
    parallelism := (c.nat? Key.parallelism).filter (0 < ·)
    defaultMode
    classesMode :=
      (c.parsed? (ExecutionMode.read · |>.toOption) Key.defaultClassesMode).getD defaultMode
    defaultLifecycle :=
      (c.parsed? (Lifecycle.read · |>.toOption) Key.defaultLifecycle).getD .perMethod
    defaultTimeout := c.duration? Key.defaultTimeout
    hookOrder := (c.parsed? (HookOrder.read · |>.toOption) Key.defaultHookOrder).getD .declaration }

/-- What the engine does, as it is built, where a product is too large for a word. -/
inductive Arithmetic where
  | wrapping
  | checked
  deriving DecidableEq, Repr

/-- Reads the settings. With checked arithmetic that panics where a product is too large. -/
def Settings.read (arithmetic : Arithmetic) (c : Configuration) : Except PanicPayload Settings :=
  if arithmetic = .checked ∧ c.overflows Key.defaultTimeout = true then
    .error (.text "attempt to multiply with overflow")
  else .ok (.ofConfiguration c)

end TestEngine
