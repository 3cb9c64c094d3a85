import TestEngine.Extension
import TestEngine.Script.Play

/-! Scripts as data, and how they are played. -/

namespace TestEngine

namespace Script

mutual
inductive Ask where
  | get (typeName : String)
  | put (v : Stored)
  | remove
  /-- The value found, or else the one given, which is made with a line that says so. -/
  | compute (v : Stored)
  /-- Puts a resource. A line and the script `onClose` are what closing it does. -/
  | resource (name : String) (v : Stored) (onClose : List Instruction)
/-- One instruction of a script. Indices are those of the arguments that the code was called with. -/
inductive Instruction where
  | log (text : String)
  | check (outcome : Except TestError Unit)
  | panic (payload : PanicPayload)
  | sleep (time : Duration)
  | count (n : Int)
  | expect (n : Int)
  | instanceOf (typeName : String)
  | showArgument (index : Nat)
  | showTestInfo (index : Nat)
  | showRepetition (index : Nat)
  | report (index : Nat) (values : Dictionary String)
  | publish (values : Dictionary String)
  | store (levelsUp : Option Nat) (key : Store.Key) (operation : String) (ask : Ask)
  | context
  | parameter (key : String)
  | exception
  | innermost
  | find (className : String)
  | extensions (capability : Capability)
  | resolve (executable : String) (parameters : List Parameter)
  | evaluate (configuration : Configuration)
  | onCall (number : Int) (script : List Instruction)
  | ifArgument (index : Nat) (v : Value) (script : List Instruction)
  | ifName (displayName : String) (script : List Instruction)
  /-- Plays a script and goes on whether it ends in an error or not. -/
  | attempt (script : List Instruction)
end

structure Actor where
  invocation : Invocation := {}
  /-- Whether the script runs while the engine uses an instance. -/
  busy : Bool := false
  /-- The number of the call among those of the code that plays the script. -/
  call : Int := 1

def instanceType : String := "Instance"

def Actor.counting (who : Actor) : Play TestInstance :=
  .returned (who.invocation.instanceOf instanceType)

def Actor.content (who : Actor) (index : Nat) : Play ObjectContent := do
  match ← Play.returned (who.invocation.argument index) with
  | .object o => return o.content
  | _ => return .foreign

def unexpected (expected actual : Int) : TestError :=
  .failure ("expected " ++ toString expected ++ " but was " ++ toString actual)

def wrongContent (index : Nat) : TestError :=
  .configuration ("argument " ++ toString index ++ " is of another type")

def countLine (label : String) (n : Int) : String := label ++ " count=" ++ toString n

/-- What a script learns of the innermost instance. One that the engine uses is left alone. -/
def innermost (who : Actor) : Play Unit := do
  if who.busy then .say "innermost busy"
  else
    match (← Play.view).instances with
    | none => .say "innermost none"
    | some _ =>
      match ← ExceptT.lift (.lockInnermost .done) with
      | some content =>
        if content.typeName = instanceType then
          .say ("innermost " ++ countLine content.label (← Play.counter content.label))
        else .say "innermost not lockable or other type"
      | none => .say "innermost not lockable or other type"

mutual
def Ask.request (key : String) : Ask → Store.Request State Note
  | .get typeName => .get typeName
  | .put v => .put v
  | .remove => .remove
  | .compute v =>
    .getOrCompute v.typeName
      ((Action.note (.line ("compute " ++ key))).bind fun _ => .pure v.value)
  | .resource name v onClose =>
    .putResource v (Play.detached do
      Play.say ("close " ++ name)
      playAll {} onClose)
def Instruction.play (who : Actor) : Instruction → Play Unit
  | .log text => .say text
  | .check outcome => .returned outcome
  | .panic payload => .panic payload
  | .sleep time => ExceptT.lift (.sleep time (.done ()))
  | .count n => do
    let label := (← who.counting).content.label
    Play.change fun s => { s with counters := s.counters.add label n }
    Play.say (countLine label (← Play.counter label))
  | .expect n => do
    let actual ← Play.counter (← who.counting).content.label
    if actual = n then return () else Play.returned (.error (unexpected n actual))
  | .instanceOf typeName => do
    let _ ← Play.returned (who.invocation.instanceOf typeName)
  | .showArgument index => do
    Play.say ("arg " ++ (← Play.returned (who.invocation.argument index)).describe)
  | .showTestInfo index => do
    match ← who.content index with
    | .testInfo info => Play.note (.testInfo info)
    | _ => Play.returned (.error (wrongContent index))
  | .showRepetition index => do
    match ← who.content index with
    | .repetition current total =>
      Play.say ("repetition " ++ toString current ++ "/" ++ toString total)
    | _ => Play.returned (.error (wrongContent index))
  | .report index values => do
    match ← who.content index with
    | .testReporter node => Play.publish node values
    | _ => Play.returned (.error (wrongContent index))
  | .publish values => do Play.publish (← Play.view).node values
  | .store levelsUp key operation ask => do
    let levels := levelsUp.getD (← Play.view).ancestors.length
    let reply ← ExceptT.lift (.store levels key (ask.request key.name) .done)
    Play.note (.stored operation key.name (← Play.ended reply))
  | .context => do Play.note (.context (← Play.view))
  | .parameter key => do
    Play.note (.parameter key ((← Play.view).configuration.get? key))
  | .exception => do Play.note (.exception (← Play.view).exception)
  | .innermost => Script.innermost who
  | .find className => do
    Play.note (.found className (((← Play.view).find? className).map (·.abandoned)))
  | .extensions capability => do Play.note (.extensions capability (← Play.view).registry)
  | .resolve executable parameters => do
    let values ← Play.ended (← ExceptT.lift (.resolve executable parameters .done))
    Play.say ("resolved " ++ Text.listed (values.map Value.describe))
  | .evaluate configuration => do
    Play.note (.verdict (← Play.ended (← ExceptT.lift (.evaluate configuration .done))))
  | .onCall number script => if number = who.call then playAll who script else pure ()
  | .ifArgument index v script =>
    match who.invocation.argument index with
    | .ok actual => if actual == v then playAll who script else pure ()
    | .error _ => pure ()
  | .ifName displayName script => do
    if (← Play.view).node.displayName = displayName then playAll who script else return ()
  | .attempt script => do Play.note (.attempted (← ExceptT.lift (playAll who script).run))
/-- Plays instructions in order, up to the first that ends in an error. -/
def playAll (who : Actor) : List Instruction → Play Unit
  | [] => pure ()
  | i :: rest => do
    i.play who
    playAll who rest
end

end Script

abbrev Script : Type := List Script.Instruction

end TestEngine
