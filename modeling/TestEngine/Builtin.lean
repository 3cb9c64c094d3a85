import TestEngine.DisplayName
import TestEngine.Descriptor
import TestEngine.Regex.Parser

/-! The extensions that come with the engine. -/

namespace TestEngine
variable {σ ν : Type}

namespace Extension

def disabled (reason : String) : Extension σ ν :=
  { name := "Disabled"
    condition := some (.look fun v => .done (.ok (.disabled
      (if reason.isEmpty then v.node.displayName ++ " is disabled" else reason)))) }

def invalidPattern (pattern : String) : TestError :=
  .configuration ("Invalid pattern `" ++ pattern ++ "`")

/-- What is said of the value of a configuration parameter, by whether it matches the whole pattern. -/
def verdictOfValue (key : String) (pattern : String) (expression : Regex) : Option String → Verdict
  | none => .disabled ("Configuration parameter [" ++ key ++ "] does not exist")
  | some value =>
    let subject := "Configuration parameter [" ++ key ++ "] with value [" ++ value ++ "] "
    let object := " regular expression [" ++ Regex.anchored pattern ++ "]"
    if expression.isMatch value then .enabled (subject ++ "matches" ++ object)
    else .disabled (subject ++ "does not match" ++ object)

/-- Enables a node only if a configuration parameter matches a pattern. -/
def enabledIf (key pattern : String) : Except TestError (Extension σ ν) :=
  match Regex.parse? (Regex.anchored pattern) with
  | none => .error (invalidPattern pattern)
  | some expression =>
    .ok { name := "EnabledIfParameter"
          condition := some (.look fun v =>
            .done (.ok (verdictOfValue key pattern expression (v.configuration.get? key)))) }

/-- Resolves parameters of one object type to a new object, whose content comes from the view. -/
private def objectResolver (typeName : String) (content : View → ObjectContent) :
    ParameterResolver σ ν :=
  { supports := fun p => .done (.ok (p.parameter.type = .object typeName))
    resolve := fun _ => .look fun v => .fresh fun number =>
      .done (.ok (.object { typeName, number, content := content v })) }

def infoOf (v : View) : TestInfo :=
  { displayName := v.node.displayName, tags := v.node.tags, uniqueId := v.node.id.render,
    testClass := v.testClass?, testMethod := v.testMethod? }

def testInfoResolver : Extension σ ν :=
  { name := "TestInfoResolver"
    parameterResolver := some (objectResolver "TestInfo" fun v => .testInfo (infoOf v)) }

/-- Resolves `TestReporter` parameters to reporters for the node they are resolved for. -/
def testReporterResolver : Extension σ ν :=
  { name := "TestReporterResolver"
    parameterResolver := some (objectResolver "TestReporter" fun v => .testReporter v.node) }

def repetitionInfo (current total : Nat) : Extension σ ν :=
  { name := "RepetitionInfo"
    parameterResolver := some (objectResolver "RepetitionInfo" fun _ => .repetition current total) }

/-- Gives each parameter of one method the argument at its position. -/
def argumentsResolver (method : String) (args : List Argument) : Extension σ ν :=
  { name := "ArgumentsResolver"
    parameterResolver := some
      { supports := fun p => .done (.ok (p.executable == method && p.parameter.index < args.length))
        resolve := fun p => .done (match args[p.parameter.index]? with
          | some a => .ok a.value
          | none => .error (.resolution ("No argument at index " ++ toString p.parameter.index
              ++ " for parameter [" ++ p.parameter.render ++ "]"))) } }

end Extension

inductive ArgumentSource (σ ν : Type) where
  | rows (rows : List (List Argument))
  | made (make : Code σ ν (Stream σ ν (List Argument)))

namespace ArgumentSource

def start : ArgumentSource σ ν → Code σ ν (Stream σ ν (List Argument))
  | .rows all => .done (.ok (.ofList all))
  | .made make => make

/-- Starts sources behind the stream made so far, which is closed if one of them cannot be started. -/
def startAll (made : Stream σ ν (List Argument)) :
    List (ArgumentSource σ ν) → Code σ ν (Stream σ ν (List Argument))
  | [] => .done (.ok made)
  | s :: rest =>
    let abandon : Program σ ν Unit := (Program.attempt made.release).bind fun _ => .done ()
    (Program.onPanic abandon s.start).bind fun
      | .error e => abandon.bind fun _ => .done (.error e)
      | .ok stream => startAll (made.chain stream) rest

end ArgumentSource

namespace Extension

def onlyForTemplates : TestError :=
  .configuration "ParameterizedTest can only provide invocations for test templates"

def parameterized (pattern : Option String) (sources : List (ArgumentSource σ ν)) : Extension σ ν :=
  { name := "ParameterizedTest"
    invocationProvider := some
      { supports := .look fun v => .done v.template?.isSome
        provide := .look fun v =>
          match v.template? with
          | none => .done (.error onlyForTemplates)
          | some method =>
            let formatter := DisplayName.Formatter.configured pattern v.node.displayName v.configuration
            let names := method.parameters.map (·.name)
            (ArgumentSource.startAll .empty sources).andThen fun rows =>
              .done (.ok (rows.mapNumbered fun index args =>
                { displayName := formatter.format index args names
                  extensions := [argumentsResolver method.name args] })) } }

def defaultRepetitionPattern : String :=
  "repetition \x7bcurrentRepetition\x7d of \x7btotalRepetitions\x7d"

/-- The name of a repetition. The display name is put in first, so placeholders in it are filled too. -/
def repetitionName (pattern displayName : String) (current total : Nat) : String :=
  ((pattern.replace "\x7bdisplayName\x7d" displayName).replace "\x7btotalRepetitions\x7d"
    (toString total)).replace "\x7bcurrentRepetition\x7d" (toString current)

def repeated (total : Nat) (pattern : String) : Extension σ ν :=
  { name := "RepeatedTest"
    invocationProvider := some
      { supports := .look fun v => .done v.template?.isSome
        provide := .look fun v =>
          .done (.ok (.ofList ((List.range total).map fun i =>
            { displayName := repetitionName pattern v.node.displayName (i + 1) total
              extensions := [repetitionInfo (i + 1) total] }))) } }

end Extension

end TestEngine
