import TestEngine.Builtin
import TestEngine.Script.Instruction

/-! Methods, constructors, streams and tests made at run time that play scripts. -/

namespace TestEngine

namespace Script

def argumentList (i : Invocation) : String :=
  "(" ++ ", ".intercalate (i.arguments.map Value.describe) ++ ")"

/-- Who plays the script of a method that is invoked. -/
def Actor.invoked (i : Invocation) (call : Int) : Actor :=
  { invocation := i, busy := i.instance?.isSome, call }

structure MethodScript where
  /-- Tells its calls from those of other methods. -/
  owner : Nat
  signature : Signature
  quiet : Bool := false
  script : Script := []

namespace MethodScript

def callLine (m : MethodScript) (i : Invocation) : String :=
  "call " ++ m.signature.name ++ argumentList i
    ++ ((i.instance?.map fun x => " on " ++ x.content.label).getD "")

def toMethod {α : Type} (m : MethodScript) (result : α) : Method State Note α :=
  { signature := m.signature
    body := fun i => ExceptT.run do
      let call ← Play.call m.owner ""
      if m.quiet then pure () else Play.say (m.callLine i)
      playAll (.invoked i call) m.script
      return result }

/-- A constructor. The instances of a class are numbered, and each can count. -/
def toConstructor (m : MethodScript) (className : String) : Method State Note InstanceContent :=
  { signature := m.signature
    body := fun i => ExceptT.run do
      Play.change fun s => { s with made := s.made.add className 1 }
      let label := className ++ "#" ++ toString ((← Play.state).made.count className)
      let call ← Play.call m.owner ""
      Play.say ("new " ++ label ++ argumentList i
        ++ ((i.instance?.map fun x => " in " ++ x.content.label).getD ""))
      playAll (.invoked i call) m.script
      return ⟨instanceType, label⟩ }

end MethodScript

/-- A constructor of instances that scripts know nothing of. -/
def plainConstructor (signature : Signature) (typeName : String) : Method State Note InstanceContent :=
  { signature, body := fun _ => .done (.ok ⟨typeName, "?"⟩) }

def dynamicTest (name : String) (script : Script) : DynamicNode State Note :=
  .test name (ExceptT.run do
    Play.say ("dynamic " ++ name)
    playAll {} script)

variable {α : Type}

def draw (name : String) (index : Nat) (item : Item α) : Draw State Note α :=
  { effect := fun s => ([.line ("draw " ++ name ++ toString index)], s), item }

/-- A stream of items, over and over if it is endless; closing it plays the scripts `onClose`. -/
def stream (name : String) (items : List (Item α)) (endless : Bool) (onClose : List Script) :
    Stream State Note α :=
  let onClose := onClose.map fun script => Play.detached (playAll {} script)
  match items with
  | first :: _ =>
    if endless then
      { source := .endless fun i => draw name i (items[i % items.length]?.getD first), onClose }
    else { source := .listed (items.mapIdx (draw name)), onClose }
  | [] => { source := .listed [], onClose }

/-- A source of arguments that plays a script before its rows can be drawn. -/
def argumentSource (script : Script) (rows : Stream State Note (List Argument)) :
    ArgumentSource State Note :=
  .made (ExceptT.run do
    Play.say "open"
    playAll {} script
    return rows)

end Script

end TestEngine
