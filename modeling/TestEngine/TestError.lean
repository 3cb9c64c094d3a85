/-! Errors raised by the steps of a run: their kinds, the errors suppressed under them, and panics. -/

namespace TestEngine

inductive ErrorKind where
  /-- An assertion or another failure of user code. -/
  | failure
  /-- A failed assumption. It ends the node without counting as a failure. -/
  | aborted
  | configuration
  | resolution
  | timeout
  deriving DecidableEq, Repr, Inhabited

def ErrorKind.describe : ErrorKind → String
  | .failure => "Failure"
  | .aborted => "Aborted"
  | .configuration => "Configuration"
  | .resolution => "Resolution"
  | .timeout => "Timeout"

/-- An error with the later errors of the same node attached to it, so that none is lost. -/
structure TestError where
  kind : ErrorKind
  message : String
  suppressed : List TestError := []
  deriving Repr, Inhabited

namespace TestError

mutual
def decEq : (a b : TestError) → Decidable (a = b)
  | ⟨k, m, s⟩, ⟨k', m', s'⟩ =>
    match decEqList s s' with
    | isTrue hs =>
      if h : k = k' ∧ m = m' then isTrue (by rw [h.1, h.2, hs])
      else isFalse fun e => h ⟨congrArg kind e, congrArg message e⟩
    | isFalse hs => isFalse fun e => hs (congrArg suppressed e)
def decEqList : (a b : List TestError) → Decidable (a = b)
  | [], [] => isTrue rfl
  | [], _ :: _ => isFalse nofun
  | _ :: _, [] => isFalse nofun
  | a :: as, b :: bs =>
    match decEq a b, decEqList as bs with
    | isTrue h, isTrue hs => isTrue (by rw [h, hs])
    | isFalse h, _ => isFalse fun e => h (List.cons.inj e).1
    | _, isFalse hs => isFalse fun e => hs (List.cons.inj e).2
end

instance : DecidableEq TestError := decEq

def failure (message : String) : TestError := ⟨.failure, message, []⟩
def aborted (message : String) : TestError := ⟨.aborted, message, []⟩
def configuration (message : String) : TestError := ⟨.configuration, message, []⟩
def resolution (message : String) : TestError := ⟨.resolution, message, []⟩
def timeout (message : String) : TestError := ⟨.timeout, message, []⟩

def isAborted (e : TestError) : Bool := e.kind == .aborted

def suppress (e later : TestError) : TestError := { e with suppressed := e.suppressed ++ [later] }

/-- Says in front of the message what was being done; kind and suppressed errors stay. -/
def context (e : TestError) (doing : String) : TestError :=
  { e with message := doing ++ ": " ++ e.message }

end TestError

/-- What a panic carries: a text, or something that has none. -/
inductive PanicPayload where
  | text (message : String)
  | other
  deriving DecidableEq, Repr, Inhabited

def PanicPayload.message : PanicPayload → String
  | .text m => m
  | .other => "test panicked with a non-string payload"

/-- How a step of user code ends early: by an error it returns, or by a panic. -/
inductive Fault where
  | error (e : TestError)
  | panic (payload : PanicPayload)
  deriving DecidableEq, Inhabited

/-- A caught panic counts as a failure with the panic's text. -/
def Fault.toError : Fault → TestError
  | .error e => e
  | .panic p => .failure p.message

/-- Fails with `message` unless `condition` holds. -/
def ensure (condition : Bool) (message : String) : Except TestError Unit :=
  if condition then .ok () else .error (.failure message)

/-- Aborts with `message` unless `condition` holds. -/
def assume (condition : Bool) (message : String) : Except TestError Unit :=
  if condition then .ok () else .error (.aborted message)

/-- An outcome within an outcome fails if either does. -/
def collapse {ε α : Type} : Except ε (Except ε α) → Except ε α
  | .ok inner => inner
  | .error e => .error e

end TestEngine
