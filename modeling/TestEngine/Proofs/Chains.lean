import Mathlib.Data.List.Perm.Subperm
import TestEngine.Proofs.Containment
import TestEngine.Proofs.HookCalls

/-! The chains of a run. Whatever part of a run makes chains leaves behind the path it started from, and the
chains that nodes of the path hold; each chain is made for a node of the tree, on what the nodes above hold. -/
namespace TestEngine
variable {σ ν α β : Type} {env : Environment σ ν} {tree : TestTree σ ν}

namespace Making

/-- A chain is made for a leaf, or for a class that has one instance for all tests, on the path to it. -/
structure Sound (env : Environment σ ν) (tree : TestTree σ ν) (m : Making σ ν) : Prop extends m.Linked where
  path : Seated env.settings tree m.above
  fits : m.seat.Fits env.settings tree m.above
  kind : m.seat.descriptor.testClass? = none ∨ m.seat.PerClass

def Seen (env : Environment σ ν) (trace : List (Entry ν)) (m : Making σ ν) : Prop :=
  ∃ w, m.At env w ∧ (Execution.instantiate.run.goes env w).2.trace.toList <+: trace

/-- What is made on a path has one instance for each class around. -/
theorem Linked.fits {settings : Settings} {m : Making σ ν} (linked : m.Linked)
    (path : Seated settings tree m.above) (fits : (m.seat.holding none).Fits settings tree m.above) :
    m.seat.Fits settings tree m.above := by
  refine ⟨fits.joins, fits.lifecycle, fun chain held => ?_⟩
  obtain ⟨fresh, rfl, names, _⟩ := linked.whole chain held
  rw [List.map_append, names, classes, List.map_append, ← List.append_assoc, path.names, enclosing_cons,
    List.map_append]

end Making

/-- The chains that nodes of a path hold are held on another path too, or are among those that are made. -/
def Backed (base : List (Seat σ ν)) (ms : List (Making σ ν)) (seats : List (Seat σ ν)) : Prop :=
  ∀ s above, s :: above <:+ seats → s.chain.isSome →
    s :: above <:+ base ∨ ∃ m ∈ ms, m.seat = s ∧ m.above = above

def classIds (ms : List (Making σ ν)) : List UniqueId :=
  (ms.filter (·.seat.descriptor.testClass?.isSome)).map (·.seat.descriptor.id)

/-- From one world to another these chains are made below a path, these hooks invoked there, and these marks of
farewells left. -/
structure Covers (env : Environment σ ν) (tree : TestTree σ ν) (base : List (Seat σ ν)) (w w' : World σ ν)
    (ms : List (Making σ ν)) (hs : List (HookCall σ ν)) (gone : List (Entry ν)) : Prop where
  tells : w.Tells w' (ms.flatMap Making.entries) (hs.map HookCall.entry) gone (ms.flatMap Making.numbers)
  sound : ∀ m ∈ ms, m.Sound env tree
  seen : ∀ m ∈ ms, m.Seen env w'.trace.toList
  backed : ∀ m ∈ ms, Backed base ms m.above
  invoked : ∀ h ∈ hs, h.Sound env tree ∧ Backed base ms (h.seat :: h.above)

/-- Only a provider that is asked for its support breaks a run off by a panic. Where none does, and the run goes
on, leave has been taken of all that was made, of one chain after the other. -/
structure Settles (outcome : Except Halt α) (trace : List (Entry ν)) (ms : List (Making σ ν))
    (gone : List (Entry ν)) : Prop where
  panics : ∀ payload, outcome = .error (.panicked payload) → SupportPanics payload trace
  shown : ∀ a, outcome = .ok a → (∀ payload, ¬ SupportPanics payload trace) →
    ∃ ls : List (Making σ ν), ls.Perm ms ∧ gone = ls.flatMap Making.farewells

def Yields (env : Environment σ ν) (tree : TestTree σ ν) (base : List (Seat σ ν)) (ids : List UniqueId)
    (w : World σ ν) (reached : Except Halt α × World σ ν) : Prop :=
  ∃ ms hs gone, Covers env tree base w reached.2 ms hs gone ∧ (classIds ms).Subperm ids ∧
    Settles reached.1 reached.2.trace.toList ms gone

theorem Backed.refl (base : List (Seat σ ν)) (ms : List (Making σ ν)) : Backed base ms base :=
  fun _ _ suffix _ => .inl suffix

/-- A node below the path adds a chain that it holds only if the chain is made there. -/
theorem Backed.cons {s : Seat σ ν} {above : List (Seat σ ν)} {ms : List (Making σ ν)}
    (made : s.chain.isSome → ∃ m ∈ ms, m.seat = s ∧ m.above = above) : Backed above ms (s :: above) := by
  intro t beyond suffix held
  rcases List.suffix_cons_iff.mp suffix with same | suffix
  · obtain ⟨rfl, rfl⟩ := List.cons.inj same
    exact .inr (made held)
  · exact .inl suffix

theorem Backed.mono {base seats : List (Seat σ ν)} {ms ns : List (Making σ ν)} (h : Backed base ms seats)
    (among : ∀ m ∈ ms, m ∈ ns) : Backed base ns seats := fun s above suffix held =>
  (h s above suffix held).imp_right fun ⟨m, member, same⟩ => ⟨m, among m member, same⟩

theorem Backed.trans {base top seats : List (Seat σ ν)} {ms ns : List (Making σ ν)} (first : Backed base ms top)
    (second : Backed top ns seats) : Backed base (ms ++ ns) seats := fun s above suffix held => by
  rcases second s above suffix held with suffix | ⟨m, member, same⟩
  · exact first.mono (fun m => List.mem_append_left ns) s above suffix held
  · exact .inr ⟨m, List.mem_append_right ms member, same⟩

/-- The identifier of a node counts if it is a class. -/
theorem classIds_singleton (m : Making σ ν) :
    classIds [m] = m.seat.descriptor.testClass?.toList.map fun _ => m.seat.descriptor.id := by
  cases found : m.seat.descriptor.testClass? <;> simp [classIds, found]

theorem classIds_append (ms ns : List (Making σ ν)) : classIds (ms ++ ns) = classIds ms ++ classIds ns := by
  simp [classIds]

namespace Covers
variable {base top : List (Seat σ ν)} {w w' w'' : World σ ν} {ms ns : List (Making σ ν)}
  {hs ks : List (HookCall σ ν)} {gone more : List (Entry ν)}

theorem of_tells (h : w.Tells w' [] [] gone []) : Covers env tree base w w' [] [] gone :=
  ⟨h, by simp, by simp, by simp, by simp⟩

/-- A hook is invoked. -/
theorem hook {h : HookCall σ ν} (sound : h.Sound env tree) (tells : w.Tells w' [] [h.entry] [] []) :
    Covers env tree (h.seat :: h.above) w w' [] [h] [] where
  tells := tells
  sound := by simp
  seen := by simp
  backed := by simp
  invoked := by simpa using ⟨sound, .refl _ _⟩

/-- A node makes its own chain. -/
theorem own {m : Making σ ν} (here : m.At env w) (sound : m.Sound env tree)
    (tells : w.Tells (Execution.instantiate.run.goes env w).2 m.entries [] [] m.numbers) :
    Covers env tree m.above w (Execution.instantiate.run.goes env w).2 [m] [] [] where
  tells := by simpa using tells
  sound := by simpa using sound
  seen := by simpa using ⟨w, here, List.prefix_rfl⟩
  backed := by simpa using .refl _ _
  invoked := by simp

theorem trans (first : Covers env tree base w w' ms hs gone) (rest : Backed base ms top)
    (second : Covers env tree top w' w'' ns ks more) :
    Covers env tree base w w'' (ms ++ ns) (hs ++ ks) (gone ++ more) where
  tells := by
    rw [List.flatMap_append, List.flatMap_append, List.map_append]
    exact first.tells.trans second.tells
  sound m member := (List.mem_append.mp member).elim (first.sound m) (second.sound m)
  seen m member := by
    rcases List.mem_append.mp member with member | member
    · obtain ⟨w1, at1, before⟩ := first.seen m member
      exact ⟨w1, at1, before.trans second.tells.trace⟩
    · exact second.seen m member
  backed m member := by
    rcases List.mem_append.mp member with member | member
    · exact (first.backed m member).mono fun m => List.mem_append_left ns
    · exact rest.trans (second.backed m member)
  invoked h member := by
    rcases List.mem_append.mp member with member | member
    · exact ⟨(first.invoked h member).1, (first.invoked h member).2.mono fun m => List.mem_append_left ns⟩
    · exact ⟨(second.invoked h member).1, rest.trans (second.invoked h member).2⟩

end Covers

namespace Settles
variable {trace trace' : List (Entry ν)} {ms ns : List (Making σ ν)} {gone more : List (Entry ν)}

theorem calm {outcome : Except Halt α} (calm : ∀ payload, outcome ≠ .error (.panicked payload)) :
    Settles (σ := σ) outcome trace [] [] :=
  ⟨fun payload same => absurd same (calm payload), fun _ _ _ => ⟨[], .nil, rfl⟩⟩

/-- More of the run may be known of. -/
theorem mono {outcome : Except Halt α} (h : Settles outcome trace ms gone) (later : trace <+: trace') :
    Settles outcome trace' ms gone := by
  refine ⟨fun payload same => (h.panics payload same).mono fun _ member => later.subset member, ?_⟩
  intro a same free
  exact h.shown a same fun payload panics => free payload (panics.mono fun _ member => later.subset member)

theorem trans {a : α} {outcome : Except Halt β} (first : Settles (.ok a : Except Halt α) trace ms gone)
    (later : trace <+: trace') (second : Settles outcome trace' ns more) :
    Settles outcome trace' (ms ++ ns) (gone ++ more) := by
  refine ⟨second.panics, fun b same free => ?_⟩
  obtain ⟨ls, perm, rfl⟩ := (first.mono later).shown a rfl free
  obtain ⟨ks, perm', rfl⟩ := second.shown b same free
  exact ⟨ls ++ ks, perm.append perm', List.flatMap_append.symm⟩

theorem broken {h : Halt} (first : Settles (.error h : Except Halt α) trace ms gone) :
    Settles (.error h : Except Halt β) trace ms gone :=
  ⟨fun payload same => first.panics payload (congrArg _ (Except.error.inj same)), nofun⟩

/-- Behind a panic that is contained it is not said of what leave has been taken. -/
theorem contained {outcome : Except Halt Unit} (h : Settles outcome trace ms gone) :
    Settles (Engine.contained outcome) trace ms gone := by
  constructor
  · intro payload same
    rcases outcome with (_ | _) | _ <;> simp [Engine.contained] at same
  · intro a same free
    rcases outcome with (_ | _) | _ <;> simp [Engine.contained] at same
    · exact absurd (h.panics _ rfl) (free _)
    · exact h.shown _ rfl free

end Settles

namespace Yields
variable {base top : List (Seat σ ν)} {ids more : List UniqueId} {w w' : World σ ν}

theorem of_idle {reached : Except Halt α × World σ ν} (idles : w.Idles reached.2)
    (calm : ∀ payload, reached.1 ≠ .error (.panicked payload)) : Yields env tree base ids w reached :=
  ⟨[], [], [], .of_tells idles.toTells, List.nil_subperm, .calm calm⟩

theorem mono {reached : Except Halt α × World σ ν} (h : Yields env tree base ids w reached)
    (among : ids.Subperm more) : Yields env tree base more w reached :=
  have ⟨ms, hs, gone, covers, claims, settles⟩ := h
  ⟨ms, hs, gone, covers, claims.trans among, settles⟩

theorem trans {a : α} {reached : Except Halt β × World σ ν}
    (first : Yields env tree base ids w ((.ok a : Except Halt α), w'))
    (second : Yields env tree base more w' reached) :
    Yields env tree base (ids ++ more) w reached := by
  obtain ⟨ms, hs, gone, covers, claims, settles⟩ := first
  obtain ⟨ns, ks, gone', covers', claims', settles'⟩ := second
  refine ⟨ms ++ ns, hs ++ ks, gone ++ gone', covers.trans (.refl _ _) covers', ?_,
    settles.trans covers'.tells.trace settles'⟩
  rw [classIds_append]
  exact claims.append claims'

theorem broken {h : Halt} (first : Yields env tree base ids w ((.error h : Except Halt α), w')) :
    Yields env tree base ids w ((.error h : Except Halt β), w') :=
  have ⟨ms, hs, gone, covers, claims, settles⟩ := first
  ⟨ms, hs, gone, covers, claims, settles.broken⟩

/-- What goes on below a node that holds no chain goes on below the node above. -/
theorem rebase {reached : Except Halt α × World σ ν} {s : Seat σ ν} (free : s.chain = none)
    (h : Yields env tree (s :: base) ids w reached) : Yields env tree base ids w reached := by
  obtain ⟨ms, hs, gone, covers, claims, settles⟩ := h
  have start : Covers env tree base w w [] [] [] := .of_tells (World.Idles.refl w).toTells
  exact ⟨ms, hs, gone, start.trans (.cons (by simp [free])) covers, claims, settles⟩

/-- What goes on below a node that has made a chain counts for the node too. -/
theorem below {m : Making σ ν} {reached : Except Halt α × World σ ν}
    (first : Covers env tree m.above w w' [m] [] []) (second : Yields env tree (m.seat :: m.above) ids w' reached) :
    ∃ ms hs gone, Covers env tree m.above w reached.2 (m :: ms) hs gone ∧
      (classIds (m :: ms)).Subperm (classIds [m] ++ ids) ∧ Settles reached.1 reached.2.trace.toList ms gone := by
  obtain ⟨ms, hs, gone, covers, claims, settles⟩ := second
  have made : Backed m.above [m] (m.seat :: m.above) := .cons fun _ => ⟨m, List.mem_singleton_self m, rfl, rfl⟩
  refine ⟨ms, hs, gone, first.trans made covers, ?_, settles⟩
  rw [← List.singleton_append, classIds_append]
  exact (List.Subperm.refl _).append claims

/-- Leave is taken of the chain when all is done below. -/
theorem farewell {m : Making σ ν} {a : α} {reached : Except Halt β × World σ ν} {w'' : World σ ν}
    {shown : List (Entry ν)} (first : Covers env tree m.above w w' [m] [] [])
    (second : Yields env tree (m.seat :: m.above) ids w' ((.ok a : Except Halt α), w''))
    (tells : w''.Tells reached.2 [] [] shown []) (ends : Ends (fun _ es => es = m.farewells) Calm reached.1 shown) :
    Yields env tree m.above (classIds [m] ++ ids) w reached := by
  obtain ⟨ms, hs, gone, covers, claims, settles⟩ := below first second
  have all := covers.trans (.refl _ _) (.of_tells tells)
  rw [List.append_nil, List.append_nil] at all
  refine ⟨m :: ms, hs, gone ++ shown, all, claims, ?_, ?_⟩
  · intro payload same
    rw [same] at ends
    exact absurd rfl (ends payload)
  · intro b same free
    rw [same] at ends
    obtain ⟨ls, perm, rfl⟩ := (settles.mono tells.trace).shown a rfl free
    have last : shown = m.farewells := ends
    refine ⟨ls ++ [m], ?_, ?_⟩
    · exact List.perm_append_comm.trans (perm.cons m)
    · rw [last, List.flatMap_append, List.flatMap_singleton]

end Yields

/-- At a path, code makes chains for nodes below, and for classes with these identifiers only. -/
def Keeps (env : Environment σ ν) (tree : TestTree σ ν) (seats : List (Seat σ ν)) (ids : List UniqueId)
    (m : Engine σ ν α) : Prop :=
  ∀ w : World σ ν, w.StandsAt seats → (m.goes env w).2.StandsAt seats ∧
    Yields env tree seats ids w (m.goes env w)

/-- As `Keeps`, for code that may also make a chain for the node it is at. -/
def Works (env : Environment σ ν) (tree : TestTree σ ν) (s : Seat σ ν) (above : List (Seat σ ν))
    (ids : List UniqueId) (m : Engine σ ν α) : Prop :=
  ∀ w : World σ ν, w.StandsAt (s :: above) → (∃ chain, (m.goes env w).2.StandsAt (s.holding chain :: above)) ∧
    Yields env tree above ids w (m.goes env w)

theorem World.Idles.standsAt {w w' : World σ ν} {seats : List (Seat σ ν)} (h : w.Idles w')
    (there : w.StandsAt seats) : w'.StandsAt seats := h.stands.trans there

namespace Keeps
variable {seats : List (Seat σ ν)} {ids more : List UniqueId} {m : Engine σ ν α} {k : α → Engine σ ν β}

theorem of_idle (h : Idle m) : Keeps env tree seats ids m := fun w there =>
  have ⟨idles, calm⟩ := h env w
  ⟨idles.standsAt there, .of_idle idles calm⟩

theorem of_shows (h : Shows seats m []) : Keeps env tree seats ids m := by
  intro w there
  obtain ⟨shown, stands, tells, ends⟩ := h env w there
  refine ⟨stands, [], [], shown, .of_tells tells, List.nil_subperm, ?_, ?_⟩
  · intro payload same
    rw [same] at ends
    exact absurd rfl (ends payload)
  · intro a same _
    rw [same] at ends
    exact ⟨[], .nil, ends⟩

theorem bind (first : Keeps env tree seats ids m) (second : ∀ a, Keeps env tree seats more (k a)) :
    Keeps env tree seats (ids ++ more) (m >>= k) := by
  intro w there
  obtain ⟨stands, yields⟩ := first w there
  rw [Engine.goes_bind]
  rcases outcome : m.goes env w with ⟨h | a, w'⟩ <;> rw [outcome] at stands yields
  · exact ⟨stands, yields.broken.mono (List.sublist_append_left ids more).subperm⟩
  · obtain ⟨stands', yields'⟩ := second a w' stands
    exact ⟨stands', yields.trans yields'⟩

theorem mono (h : Keeps env tree seats ids m) (among : ids.Subperm more) : Keeps env tree seats more m :=
  fun w there => ⟨(h w there).1, (h w there).2.mono among⟩

/-- In front of code that makes chains there may be code that makes chains for no class. -/
theorem nil_bind (first : Keeps env tree seats [] m) (second : ∀ a, Keeps env tree seats ids (k a)) :
    Keeps env tree seats ids (m >>= k) := first.bind second

theorem idle_bind (first : Idle m) (second : ∀ a, Keeps env tree seats ids (k a)) :
    Keeps env tree seats ids (m >>= k) := nil_bind (.of_idle first) second

theorem bind_nil (first : Keeps env tree seats ids m) (second : ∀ a, Keeps env tree seats [] (k a)) :
    Keeps env tree seats ids (m >>= k) := by
  simpa using first.bind second

theorem bind_idle (first : Keeps env tree seats ids m) (second : ∀ a, Idle (k a)) :
    Keeps env tree seats ids (m >>= k) := first.bind_nil fun a => .of_idle (second a)

theorem step {code : Attempt σ ν α} (h : Keeps env tree seats ids code.run) {s : Step}
    (apart : s.isOfInstances = false) : Keeps env tree seats ids (Engine.step s code).run := by
  intro w there
  have began := World.Idles.mark w apart .began
  obtain ⟨stands, ms, hs, gone, covers, claims, settles⟩ := h (w.mark s .began) (began.standsAt there)
  rw [Engine.goes_step]
  rcases ran : code.run.goes env (w.mark s .began) with ⟨outcome, w'⟩
  rw [ran] at stands covers settles
  have ended := World.Idles.mark w' apart (.ofOutcome outcome)
  have start : Covers env tree seats w (w.mark s .began) [] [] [] := .of_tells began.toTells
  have all := (start.trans (.refl _ _) covers).trans (.refl _ _) (.of_tells ended.toTells)
  simp only [List.nil_append, List.append_nil] at all
  exact ⟨ended.standsAt stands, ms, hs, gone, all, claims, settles.mono ended.trace⟩

/-- A hook is invoked at the node that the path leads to. -/
theorem hook {h : HookCall σ ν} (sound : h.Sound env tree) :
    Keeps env tree (h.seat :: h.above) [] (Execution.invokeOnClass h.capability h.className h.hook).run := by
  intro w there
  obtain ⟨stands, tells, calm⟩ := h.tells env there
  refine ⟨stands.trans there, [], [h], [], .hook sound tells, List.nil_subperm, ?_, fun _ _ _ => ⟨[], .nil, rfl⟩⟩
  exact fun payload same => absurd same (calm payload)

theorem practice (env : Environment σ ν) (tree : TestTree σ ν) (seats : List (Seat σ ν)) :
    Practice fun _ m => Keeps env tree seats [] m where
  still h := .of_idle ((Idle.discipline σ ν).still h)
  halt calm := .of_idle (.halt calm)
  bind first second := first.bind_nil second
  note n := .of_idle ((Idle.discipline σ ν).note n)
  publish node values := .of_idle ((Idle.discipline σ ν).publish node values)
  act action := .of_idle ((Idle.discipline σ ν).act action)
  askStore levelsUp key request := .of_idle ((Idle.discipline σ ν).askStore levelsUp key request)
  step h asking := h.step (Step.apart_of_isPlain (Step.isPlain_of_isAsking asking)).1
  plain h plain := h.step (Step.apart_of_isPlain plain).1

theorem contain {m : Engine σ ν Unit} (h : Keeps env tree seats ids m) :
    Keeps env tree seats ids (Engine.contain m) := by
  intro w there
  obtain ⟨stands, ms, hs, gone, covers, claims, settles⟩ := h w there
  exact ⟨stands, ms, hs, gone, covers, claims, settles.contained⟩

/-- What code does with the frame of the node it is at. -/
theorem top_bind {k : Option (Frame σ ν) → Engine σ ν β}
    (h : ∀ f, f.map Frame.stand = seats.head?.map Seat.stand → Keeps env tree seats ids (k f)) :
    Keeps env tree seats ids (Engine.top? >>= k) := fun w there =>
  h w.frames.head? (by rw [← List.head?_map, ← List.head?_map, there]) w there

theorem settings_bind {k : Settings → Engine σ ν β} (h : Keeps env tree seats ids (k env.settings)) :
    Keeps env tree seats ids (Engine.settings >>= k) := h

theorem extensions_bind {s : Seat σ ν} {above : List (Seat σ ν)} {capability : Capability}
    {k : List (Extension σ ν) → Engine σ ν β}
    (h : Keeps env tree (s :: above) ids (k (s.registry.extensions capability))) :
    Keeps env tree (s :: above) ids (Engine.extensions capability >>= k) := by
  intro w there
  rw [Engine.goes_bind, there.extensions]
  exact h w there

theorem currentRegistry_bind {k : Registry (Extension σ ν) → Engine σ ν β}
    (h : Keeps env tree seats ids (k (registryAbove env (seats.map (·.toPlace))))) :
    Keeps env tree seats ids (Engine.currentRegistry >>= k) := by
  intro w there
  have read : Engine.currentRegistry.goes env w = (.ok (registryAbove env (seats.map (·.toPlace))), w) := by
    unfold World.StandsAt at there
    have top : (Engine.currentRegistry : Engine σ ν (Registry (Extension σ ν))).goes env w =
        (.ok ((w.frames.head?.map (·.registry)).getD env.registry), w) := by
      rcases w with ⟨_ | _⟩ <;> rfl
    have same : w.frames.head?.map (·.registry) = seats.head?.map (·.registry) := by
      have heads := congrArg (fun stands => stands.head?.map (·.1.registry)) there
      rwa [List.head?_map, List.head?_map, Option.map_map, Option.map_map] at heads
    rw [top, same, registryAbove, List.head?_map, Option.map_map]
    rfl
  rw [Engine.goes_bind, read]
  exact h w there

end Keeps

namespace Works
variable {s : Seat σ ν} {above : List (Seat σ ν)} {ids more : List UniqueId} {m : Engine σ ν α}
  {k : α → Engine σ ν β}

theorem of_keeps (free : s.chain = none) (h : Keeps env tree (s :: above) ids m) :
    Works env tree s above ids m := by
  intro w there
  obtain ⟨stands, yields⟩ := h w there
  exact ⟨⟨s.chain, stands⟩, yields.rebase free⟩

theorem of_idle (free : s.chain = none) (h : Idle m) : Works env tree s above ids m :=
  of_keeps free (.of_idle h)

theorem mono (h : Works env tree s above ids m) (among : ids.Subperm more) : Works env tree s above more m :=
  fun w there => ⟨(h w there).1, (h w there).2.mono among⟩

theorem idle_bind (first : Idle m) (second : ∀ a, Works env tree s above ids (k a)) :
    Works env tree s above ids (m >>= k) := by
  intro w there
  have ⟨idles, calm⟩ := first env w
  rw [Engine.goes_bind]
  rcases outcome : m.goes env w with ⟨h | a, w'⟩ <;> rw [outcome] at idles calm
  · exact ⟨⟨s.chain, idles.standsAt there⟩, Yields.broken (.of_idle idles calm)⟩
  · obtain ⟨stands, yields⟩ := second a w' (idles.standsAt there)
    have start : Yields env tree above [] w ((.ok a : Except Halt α), w') := .of_idle idles calm
    exact ⟨stands, start.trans yields⟩

theorem bind_idle (first : Works env tree s above ids m) (second : ∀ a, Idle (k a)) :
    Works env tree s above ids (m >>= k) := by
  intro w there
  obtain ⟨⟨chain, stands⟩, yields⟩ := first w there
  rw [Engine.goes_bind]
  rcases outcome : m.goes env w with ⟨h | a, w'⟩ <;> rw [outcome] at stands yields
  · exact ⟨⟨chain, stands⟩, yields.broken⟩
  · have ⟨idles, calm⟩ := second a env w'
    have rest : Yields env tree above [] w' ((k a).goes env w') := .of_idle idles calm
    have all := yields.trans rest
    rw [List.append_nil] at all
    exact ⟨⟨chain, idles.standsAt stands⟩, all⟩

/-- What code does with the frame of the node it is at. -/
theorem top_bind {k : Option (Frame σ ν) → Engine σ ν β}
    (h : ∀ f : Frame σ ν, f.stand = s.stand → Works env tree s above ids (k (some f))) :
    Works env tree s above ids (Engine.top? >>= k) := by
  intro w there
  obtain ⟨f, rest, frames⟩ : ∃ f rest, w.frames = f :: rest := by
    cases frames : w.frames with
    | nil => simp [World.StandsAt, frames] at there
    | cons f rest => exact ⟨f, rest, rfl⟩
  have here : f.stand = s.stand := by
    unfold World.StandsAt at there
    rw [frames] at there
    exact (List.cons.inj there).1
  have top : (Engine.top? >>= k).goes env w = (k w.frames.head?).goes env w := rfl
  rw [top, frames]
  exact h f here w there

/-- Code at a node, seen from the node above: whatever chain it makes for the node is gone behind it. -/
theorem within {f : Frame σ ν} (h : Works env tree s above ids m) (same : f.stand = s.stand) :
    Keeps env tree above ids (Engine.within f m) := by
  intro w there
  obtain ⟨⟨chain, stands⟩, ms, hs, gone, covers, claims, settles⟩ :=
    h { w with frames := f :: w.frames } (List.cons_eq_cons.mpr ⟨same, there⟩)
  rw [Engine.goes_within]
  have tells := covers.tells
  refine ⟨?_, ms, hs, gone, ⟨?_, covers.sound, covers.seen, covers.backed, covers.invoked⟩, claims, settles⟩
  · show List.map Frame.stand (List.tail _) = _
    rw [List.map_tail, stands]
    rfl
  · exact ⟨tells.trace, tells.makings, tells.hooks, tells.farewells, tells.next, tells.range, tells.ascending⟩

/-- The life of a node with a chain of its own: the chain is made, steps are taken that hold it, and leave is
taken of what was made. -/
theorem life (arrived : s.Arrived env tree above) (free : s.chain = none)
    (kind : s.descriptor.testClass? = none ∨ s.PerClass) (faulty : Fault → Engine σ ν ExecutionResult)
    {steps : Engine σ ν Collector} (idle : ∀ fault, Idle (faulty fault))
    (whole : ∀ chain, (s.holding (some chain)).Arrived env tree above →
      Keeps env tree (s.holding (some chain) :: above) ids steps) :
    Works env tree s above (s.descriptor.testClass?.toList.map (fun _ => s.descriptor.id) ++ ids) (do
      match ← Execution.instantiate.run with
      | .error fault => faulty fault
      | .ok created =>
        let c ← steps
        return (← Execution.collect c (Execution.destroy created)).toResult) := by
  intro w there
  obtain ⟨m, rfl, rfl, here, linked, tells, holds⟩ := makes_instantiate env there free
  have fits := linked.fits arrived.path arrived.fits
  have first := Covers.own here ⟨linked, arrived.path, fits, kind⟩ tells
  have stands : (Execution.instantiate.run.goes env w).2.StandsAt (m.seat :: m.above) := here.2
  have own : (m.seat.holding none).descriptor.testClass?.toList.map (fun _ => (m.seat.holding none).descriptor.id) =
      classIds [m] := (classIds_singleton m).symm
  have claims : (classIds [m]).Subperm (classIds [m] ++ ids) := (List.sublist_append_left _ _).subperm
  rw [own, Engine.goes_bind]
  -- The run stays within the making of the chain, or the chain cannot be made, or the node holds it.
  rcases outcome : Execution.instantiate.run.goes env w with ⟨h | fault | created, w1⟩ <;>
    rw [outcome] at first stands holds
  · refine ⟨⟨m.seat.chain, stands⟩, [m], [], [], first, claims, ?_, nofun⟩
    intro payload same
    exact absurd (Except.error.inj same) (holds.2 payload)
  · have ⟨idles, calm⟩ := idle fault env w1
    have none : m.farewells = [] := by
      rw [Making.farewells, Making.fresh_broken holds]
      rfl
    have settles : Settles (.ok fault : Except Halt Fault) w1.trace.toList [m] [] :=
      ⟨nofun, fun _ _ _ => ⟨[m], .refl _, by simp [none]⟩⟩
    have start : Yields env tree m.above (classIds [m] ++ ids) w ((.ok fault : Except Halt Fault), w1) :=
      ⟨[m], [], [], first, claims, settles⟩
    have rest : Yields env tree m.above [] w1 ((faulty fault).goes env w1) := .of_idle idles calm
    have all := start.trans rest
    rw [List.append_nil] at all
    exact ⟨⟨m.seat.chain, idles.standsAt stands⟩, all⟩
  · obtain ⟨chain, held⟩ := Option.isSome_iff_exists.mp holds.1
    have seat : (m.seat.holding none).holding (some chain) = m.seat := by
      rw [← held]
      rfl
    have marks : m.seat.farewells created = m.farewells := congrArg m.seat.farewells holds.2
    have taken (c : Collector) := shows_collect_destroy m.seat m.above created c
    rw [marks] at taken
    obtain ⟨stands', yields⟩ := (seat ▸ whole chain) ⟨arrived.path, fits, arrived.registered⟩ w1 stands
    dsimp only
    rw [Engine.goes_bind]
    rcases outcome : steps.goes env w1 with ⟨h | c, w2⟩ <;> rw [outcome] at stands' yields
    · obtain ⟨ms, hs, gone, covers, claims, settles⟩ := Yields.below first yields
      exact ⟨⟨m.seat.chain, stands'⟩, m :: ms, hs, gone, covers, claims, settles.broken.panics, nofun⟩
    · obtain ⟨shown, stands'', tells, ends⟩ := taken c env w2 stands'
      exact ⟨⟨m.seat.chain, stands''⟩, Yields.farewell first yields tells ends⟩

end Works

end TestEngine
