import TestEngine.Builtin
import TestEngine.Proofs.Streams

/-! The sources of a parameterized test. They are started one behind the other, and the streams that they make
become one. Where a source cannot be started, those made before it are closed at once. -/
namespace TestEngine
variable {σ ν α β : Type}

open Execution

namespace Program

theorem runWith_bind (h : Handlers σ ν) (code : Program σ ν α) (next : α → Program σ ν β) :
    (code.bind next).runWith h = code.runWith h >>= fun
      | .ok a => (next a).runWith h
      | .error payload => pure (.error payload) := by
  induction code with
  | done | panic => simp [bind, runWith]
  | note _ _ ih | publish _ _ _ ih | sleep _ _ ih => simp [bind, runWith, ih]
  | state _ _ ih | look _ ih | store _ _ _ _ ih | fresh _ ih | lockInnermost _ ih | resolve _ _ _ ih
  | evaluate _ _ ih => simp [bind, runWith, ih]

theorem runWith_onPanic (h : Handlers σ ν) (cleanup : Program σ ν Unit) (code : Program σ ν α) :
    (onPanic cleanup code).runWith h = code.runWith h >>= fun
      | .ok a => pure (.ok a)
      | .error payload => (cleanup.bind fun _ => .panic payload).runWith h := by
  induction code with
  | done | panic => simp [onPanic, runWith]
  | note _ _ ih | publish _ _ _ ih | sleep _ _ ih => simp [onPanic, runWith, ih]
  | state _ _ ih | look _ ih | store _ _ _ _ ih | fresh _ ih | lockInnermost _ ih | resolve _ _ _ ih
  | evaluate _ _ ih => simp [onPanic, runWith, ih]

theorem goes_notes (h : Handlers σ ν) (notes : List ν) (next : Program σ ν α) (env : Environment σ ν)
    (w : World σ ν) : ((Program.notes notes next).runWith h).goes env w =
      (next.runWith h).goes env { w with trace := w.trace ++ (notes.map Entry.note).toArray } := by
  induction notes generalizing w with
  | nil => simp [Program.notes]
  | cons n notes ih =>
    show ((Engine.append (.note n) >>= fun _ => (Program.notes notes next).runWith h)).goes env w = _
    rw [Engine.goes_bind]
    show ((Program.notes notes next).runWith h).goes env { w with trace := w.trace.push (.note n) } = _
    rw [ih]
    simp

end Program

theorem Stream.goes_release (s : Stream σ ν α) (env : Environment σ ν) (w : World σ ν) :
    (Engine.act s.release).goes env w = (.ok (s.release w.user).1, w.behind s.pending) := by
  show (Except.ok (s.release w.user).1, { w with
    user := (s.release w.user).2.2, trace := w.trace ++ ((s.release w.user).2.1.map Entry.note).toArray }) = _
  rw [s.release_inOrder]
  rfl

/-- Closing a stream runs the close actions that it has, each once and in order, and marks how that ends. -/
theorem goes_closeStream (s : Stream σ ν α) (env : Environment σ ν) (w : World σ ν) :
    (closeStream s).run.goes env w = (.ok (s.release w.user).1,
      ((w.mark .closeStream .began).behind s.pending).mark .closeStream
        (.ended (faultOf (s.release w.user).1))) := by
  have ended : Phase.ofOutcome (.ok (s.release w.user).1) = .ended (faultOf (s.release w.user).1) := by
    cases (s.release w.user).1 <;> rfl
  unfold closeStream
  rw [Engine.goes_step, ExceptT.run_mk, s.goes_release, ← ended]
  rfl

namespace Execution
variable {env : Environment σ ν} {w w' : World σ ν}

theorem perform_andThen (code : Code σ ν α) (next : α → Code σ ν β) :
    perform (code.andThen next) = perform code >>= fun a => perform (next a) := by
  refine ExceptT.ext ?_
  unfold perform call run Code.andThen
  rw [ExceptT.run_bind]
  simp only [ExceptT.run_mk, Program.runWith_bind, bind_assoc]
  congr 1
  funext outcome
  rcases outcome with payload | e | a
  · simp
  · simp [Program.runWith]
  · simp

/-- Where code gives a stream up, its close actions are run. The code goes on whatever they raise. -/
theorem goes_giveUp (s : Stream σ ν β) (next : Program σ ν α) (h : Handlers σ ν) :
    ((((Program.attempt s.release).bind fun _ => .done ()).bind fun _ => next).runWith h).goes env w =
      (next.runWith h).goes env (w.behind s.pending) := by
  have released : ((Program.attempt s.release).runWith h).goes env w =
      (.ok (.ok (s.release w.user).1), w.behind s.pending) := by
    unfold World.behind
    rw [← s.release_inOrder]
    exact Program.goes_notes h _ _ env _
  rw [Program.runWith_bind, Program.runWith_bind, Engine.goes_bind, Engine.goes_bind, released]
  rfl

theorem goes_perform (code : Code σ ν α) : (perform code).run.goes env w = match (run code).goes env w with
    | (.ok (.ok (.ok a)), w') => (.ok (.ok a), w')
    | (.ok (.ok (.error e)), w') => (.ok (.error (.error e)), w')
    | (.ok (.error payload), w') => (.ok (.error (.panic payload)), w')
    | (.error halt, w') => (.error halt, w') := by
  unfold perform call
  rw [ExceptT.run_mk, Engine.goes_bind]
  rcases (run code).goes env w with ⟨halt | payload | e | a, w'⟩ <;> rfl

end Execution

namespace ArgumentSource

/-- Sources are started one behind the other, and each makes a stream. -/
inductive Opens (env : Environment σ ν) : List (ArgumentSource σ ν) → World σ ν →
    List (Stream σ ν (List Argument)) → World σ ν → Prop where
  | none : Opens env [] w [] w
  | further : (perform s.start).run.goes env w = (.ok (.ok stream), w') → Opens env rest w' streams w'' →
      Opens env (s :: rest) w (stream :: streams) w''

/-- The close actions of streams, one stream behind the other. -/
def closeActions (streams : List (Stream σ ν (List Argument))) : List (Action σ ν Unit) :=
  streams.flatMap (·.onClose)

/-- How a parameterized test comes by its stream. That has the close actions of all sources. If one of them
fails or panics, the streams made before are closed, and nothing is provided. -/
inductive Provides (env : Environment σ ν) : List (ArgumentSource σ ν) → World σ ν →
    Except Fault (Stream σ ν (TemplateInvocation (Extension σ ν))) → World σ ν → Prop where
  | elsewhere : Provides env sources w (.error (.error Extension.onlyForTemplates)) w
  | opened : Opens env sources w streams w' → provided.closed = false →
      provided.onClose = closeActions streams → Provides env sources w (.ok provided) w'
  | givenUp : Opens env before w streams w' → (perform s.start).run.goes env w' = (.ok (.error fault), w'') →
      Provides env (before ++ s :: after) w (.error fault) (w''.behind (closeActions streams))

variable {env : Environment σ ν} {w w' : World σ ν}

/-- The next source is started, and the others behind it. Where it fails or panics, what was made is closed. -/
theorem goes_startAll (made : Stream σ ν (List Argument)) (s : ArgumentSource σ ν) (rest : List (ArgumentSource σ ν)) :
    (perform (startAll made (s :: rest))).run.goes env w =
      match (perform s.start).run.goes env w with
      | (.ok (.ok stream), w') => (perform (startAll (made.chain stream) rest)).run.goes env w'
      | (.ok (.error fault), w') => (.ok (.error fault), w'.behind made.pending)
      | (.error halt, w') => (.error halt, w') := by
  have pures {α : Type} (a : α) (w : World σ ν) : (pure a : Engine σ ν α).goes env w = (.ok a, w) := rfl
  rw [goes_perform, goes_perform, startAll]
  unfold run
  rw [Program.runWith_bind, Program.runWith_onPanic, Engine.goes_bind, Engine.goes_bind]
  rcases (s.start.runWith (handlers Program.nestingLimit)).goes env w with ⟨halt | payload | e | stream, w'⟩
  · rfl
  · dsimp only
    rw [goes_giveUp]
    rfl
  · dsimp only
    rw [pures]
    dsimp only
    rw [goes_giveUp]
    rfl
  · dsimp only
    rw [pures, goes_perform]
    rfl

theorem startAll_cases {made : Stream σ ν (List Argument)} {sources : List (ArgumentSource σ ν)}
    {outcome : Except Fault (Stream σ ν (List Argument))} (unclosed : made.closed = false)
    (goes : (perform (startAll made sources)).run.goes env w = (.ok outcome, w')) :
    (∃ streams stream, Opens env sources w streams w' ∧ outcome = .ok stream ∧ stream.closed = false ∧
      stream.onClose = made.onClose ++ closeActions streams) ∨
    ∃ before s after streams w₁ w₂ fault, sources = before ++ s :: after ∧ Opens env before w streams w₁ ∧
      (perform s.start).run.goes env w₁ = (.ok (.error fault), w₂) ∧ outcome = .error fault ∧
      w' = w₂.behind (made.onClose ++ closeActions streams) := by
  induction sources generalizing made w with
  | nil =>
    cases goes
    exact .inl ⟨[], made, .none, rfl, unclosed, (List.append_nil _).symm⟩
  | cons s rest ih =>
    rw [goes_startAll] at goes
    rcases start : (perform s.start).run.goes env w with ⟨halt | fault | stream, w₁⟩
    all_goals simp only [start] at goes
    · cases goes
    · cases goes
      refine .inr ⟨[], s, rest, [], w, w₁, fault, rfl, .none, start, rfl, ?_⟩
      simp [Stream.pending, unclosed, closeActions]
    · rcases ih rfl goes with ⟨streams, chained, opens, rfl, open', same⟩ |
        ⟨before, t, after, streams, w₂, w₃, fault, rfl, opens, failed, rfl, rfl⟩
      · exact .inl ⟨stream :: streams, chained, .further start opens, rfl, open', by
          simp [same, Stream.chain, closeActions]⟩
      · exact .inr ⟨s :: before, t, after, stream :: streams, w₂, w₃, fault, rfl, .further start opens, failed, rfl,
          by simp [Stream.chain, closeActions]⟩

/-- Code that looks at its node goes on with what it sees. -/
theorem goes_look (next : View → Code σ ν α) (env : Environment σ ν) (w : World σ ν) :
    (perform (.look next)).run.goes env w =
      (perform (next (viewOf env.configuration w.abandoned w.frames))).run.goes env w := by
  rw [goes_perform, goes_perform, run, Program.runWith, Engine.goes_bind, Engine.goes_view]

theorem provides {pattern : Option String} {sources : List (ArgumentSource σ ν)}
    {p : InvocationProvider σ ν (Extension σ ν)}
    {outcome : Except Fault (Stream σ ν (TemplateInvocation (Extension σ ν)))}
    (same : (Extension.parameterized pattern sources).invocationProvider = some p)
    (goes : (perform p.provide).run.goes env w = (.ok outcome, w')) : Provides env sources w outcome w' := by
  cases same
  rw [goes_look] at goes
  cases method : (viewOf env.configuration w.abandoned w.frames).template? with
  | none =>
    rw [method] at goes
    cases goes
    exact .elsewhere
  | some m =>
    rw [method] at goes
    dsimp only at goes
    rw [perform_andThen, Engine.goes_attempt_bind] at goes
    rcases started : (perform (startAll .empty sources)).run.goes env w with ⟨halt | outcome', w₁⟩
    all_goals rw [started] at goes
    · cases goes
    · rcases startAll_cases rfl started with ⟨streams, rows, opens, rfl, unclosed, same⟩ |
        ⟨before, s, after, streams, w₂, w₃, fault, rfl, opens, failed, rfl, rfl⟩
      · cases goes
        exact .opened opens rfl (by simpa [Stream.mapNumbered, Stream.empty, Stream.ofDraws] using same)
      · cases goes
        exact .givenUp opens failed

end ArgumentSource
end TestEngine
