import TestEngine.Proofs.Expansions
import TestEngine.Proofs.Regimes

/-! Chronicles of runs. Where a history tells what nodes do, a chronicle tells what is done with their stores: what
they are asked for, by code at the node or below, and when they are closed. -/
namespace TestEngine
variable {σ ν α β : Type}

open Execution

namespace Store

/-- A resource, by what closes it, with the key it was put under. -/
abbrev Resource (σ ν : Type) := Key × Action σ ν Unit

def Request.isRemove : Request σ ν → Bool
  | .remove => true
  | _ => false

/-- The resources of a store behind a request for a key. -/
def Request.keep (key : Key) (resources : List (Resource σ ν)) : Request σ ν → List (Resource σ ν)
  | .putResource _ close => resources ++ [(key, close)]
  | .remove => resources.filter (·.1 ≠ key)
  | .get _ | .put _ | .getOrCompute _ _ => resources

/-- The resources of a store behind requests, each for its key. -/
def keepAll (resources : List (Resource σ ν)) (requests : List (Key × Request σ ν)) : List (Resource σ ν) :=
  requests.foldl (fun kept asked => asked.2.keep asked.1 kept) resources

def removed (key : Key) (requests : List (Key × Request σ ν)) : Bool :=
  requests.any fun asked => asked.1 = key && asked.2.isRemove

/-- The resources that are put into a store and whose keys are not removed afterwards, oldest first. -/
def surviving : List (Key × Request σ ν) → List (Resource σ ν)
  | [] => []
  | (key, .putResource _ close) :: later =>
    if removed key later then surviving later else (key, close) :: surviving later
  | (_, _) :: later => surviving later

theorem keepAll_eq (requests : List (Key × Request σ ν)) (resources : List (Resource σ ν)) :
    keepAll resources requests = resources.filter (!removed ·.1 requests) ++ surviving requests := by
  induction requests generalizing resources with
  | nil => simp [keepAll, removed, surviving]
  | cons asked later ih =>
    obtain ⟨key, request⟩ := asked
    have others : ∀ k : Key, removed k ((key, request) :: later) = (key = k && request.isRemove || removed k later) :=
      fun _ => by simp [removed]
    show keepAll (request.keep key resources) later = _
    rw [ih]
    simp only [others]
    cases request with
    | get | put | getOrCompute => simp [Request.keep, Request.isRemove, surviving]
    | putResource v close =>
      simp only [Request.keep, Request.isRemove, surviving, List.filter_append, Bool.and_false, Bool.false_or]
      cases gone : removed key later <;> simp [gone]
    | remove =>
      simp only [Request.keep, Request.isRemove, surviving, List.filter_filter, Bool.and_true]
      congr 2
      funext resource
      by_cases same : resource.1 = key
      · simp [same]
      · simp [same, Ne.symm same]

/-- What an empty store is left with are the resources whose keys have not been removed since. -/
theorem keepAll_nil (requests : List (Key × Request σ ν)) : keepAll [] requests = surviving requests := by
  simp [keepAll_eq]

def newestFirst (resources : List (Resource σ ν)) : List (Action σ ν Unit) := resources.reverse.map (·.2)

/-- The store behind a request. Where that fails nothing is changed. -/
def behind (s : Store σ ν) : Except Fault (Option Stored × Store σ ν) → Store σ ν
  | .ok (_, changed) => changed
  | .error _ => s

theorem resources_behind (above : List (Store σ ν)) (s : Store σ ν) (key : Key) (request : Request σ ν) (user : σ) :
    (s.behind (s.perform above key request user).1).resources = request.keep key s.resources := by
  have looked (typeName : String) (found : Option Stored) :
      (s.behind ((typed key typeName found).map (·, s))).resources = s.resources := by
    cases typed key typeName found <;> rfl
  cases request with
  | get typeName => exact looked typeName _
  | put | putResource | remove => rfl
  | getOrCompute typeName compute =>
    unfold perform
    cases lookup key (s :: above) with
    | some v => exact looked typeName (some v)
    | none =>
      rcases computed : compute user with ⟨_ | value, notes, user'⟩ <;> simp only [Action.bind, computed] <;> rfl

end Store

inductive Happening (σ ν : Type) where
  | entry (e : Entry ν)
  /-- The store this many levels up is asked for a key. -/
  | asked (level : Nat) (key : Store.Key) (request : Store.Request σ ν)
  /-- The store of the node is closed: from a state of the user these actions are run. -/
  | closed (released : List (Action σ ν Unit)) (user : σ)
  /-- A node is entered below, with a store of its own, and left again. -/
  | inside (site : Site σ ν) (happenings : List (Happening σ ν))

namespace Happening

mutual
/-- What is marked of a happening at the node with an identifier. -/
def entries (id : UniqueId) : Happening σ ν → List (Entry ν)
  | .entry e => [e]
  | .asked _ _ _ => []
  | .closed released user =>
    .step id .closeStore .began :: ((Action.inOrder released user).1.map .note
      ++ [.step id .closeStore (.ended (faultOf (Action.all released user).1))])
  | .inside site hs => entriesAll site.descriptor.id hs
def entriesAll (id : UniqueId) : List (Happening σ ν) → List (Entry ν)
  | [] => []
  | h :: hs => entries id h ++ entriesAll id hs
end

mutual
/-- What the store this many levels up is asked for, in order. -/
def requests (level : Nat) : Happening σ ν → List (Store.Key × Store.Request σ ν)
  | .entry _ | .closed _ _ => []
  | .asked up key request => if up = level then [(key, request)] else []
  | .inside _ hs => requestsAll (level + 1) hs
def requestsAll (level : Nat) : List (Happening σ ν) → List (Store.Key × Store.Request σ ν)
  | [] => []
  | h :: hs => requests level h ++ requestsAll level hs
end

def isClosing : Happening σ ν → Bool
  | .closed _ _ => true
  | .entry _ | .asked _ _ _ | .inside _ _ => false

@[simp] theorem entriesAll_append (id : UniqueId) (hs gs : List (Happening σ ν)) :
    entriesAll id (hs ++ gs) = entriesAll id hs ++ entriesAll id gs := by
  induction hs with
  | nil => rfl
  | cons h hs ih => simp only [List.cons_append, entriesAll, ih, List.append_assoc]

@[simp] theorem requestsAll_append (level : Nat) (hs gs : List (Happening σ ν)) :
    requestsAll level (hs ++ gs) = requestsAll level hs ++ requestsAll level gs := by
  induction hs with
  | nil => rfl
  | cons h hs ih => simp only [List.cons_append, requestsAll, ih, List.append_assoc]

theorem entriesAll_notes (id : UniqueId) (notes : List ν) :
    entriesAll id (notes.map fun n => (.entry (.note n) : Happening σ ν)) = notes.map .note := by
  induction notes with
  | nil => rfl
  | cons n notes ih => simp only [List.map_cons, entriesAll, entries, ih, List.singleton_append]

theorem requestsAll_notes (level : Nat) (notes : List ν) :
    requestsAll level (notes.map fun n => (.entry (.note n) : Happening σ ν)) = [] := by
  induction notes with
  | nil => rfl
  | cons n notes ih => simp only [List.map_cons, requestsAll, requests, ih, List.nil_append]

end Happening

open Happening

/-- Nothing is marked from one world to another, nodes are neither entered nor left, and stores are left alone. -/
structure World.Steady (w w' : World σ ν) : Prop where
  sites : w'.frames.map Frame.site = w.frames.map Frame.site
  stores : w'.frames.map (·.store) = w.frames.map (·.store)
  trace : w'.trace = w.trace

/-- What the store this many levels up keeps to be closed. -/
def World.resources (w : World σ ν) (level : Nat) : Option (List (Store.Resource σ ν)) :=
  (w.frames[level]?).map (·.store.resources)

theorem World.Steady.resources {w w' : World σ ν} (h : w.Steady w') (level : Nat) :
    w'.resources level = w.resources level := by
  have same := congrArg (fun stores => (stores[level]?).map (·.resources)) h.stores
  simpa [World.resources, Function.comp_def] using same

theorem World.Steady.modifyTop {env : Environment σ ν} (w : World σ ν) (change : Frame σ ν → Frame σ ν)
    (site : ∀ f, (change f).site = f.site) (store : ∀ f, (change f).store = f.store) :
    w.Steady ((Engine.modifyTop change).goes env w).2 := by
  cases frames : w.frames with
  | nil =>
    rw [Engine.goes_modifyTop_nil frames]
    exact ⟨rfl, rfl, rfl⟩
  | cons f fs =>
    rw [Engine.goes_modifyTop frames]
    exact ⟨by simp [frames, site], by simp [frames, store], rfl⟩

/-- The store that is asked: where the path is shorter it is that of the root. -/
def World.levelOf (w : World σ ν) (levelsUp : Nat) : Nat := min levelsUp (w.frames.length - 1)

/-- Code that is run from a world makes what happens. Code that bears on stores does so by one of the operations on
them, whatever it is a part of. -/
inductive Chronicles (env : Environment σ ν) : {α : Type} → Engine σ ν α → World σ ν → List (Happening σ ν) → Prop where
  | steady {α : Type} {m : Engine σ ν α} : (∀ w : World σ ν, w.Steady (m.goes env w).2) → Chronicles env m w []
  | append : Chronicles env (Engine.append e) w [.entry e]
  | act {α : Type} {action : Action σ ν α} :
      Chronicles env (Engine.act action) w ((action w.user).2.1.map fun n => .entry (.note n))
  | asked {notes : List ν} :
      ((Engine.askStore levelsUp key request).goes env w).2.trace.toList = w.trace.toList ++ notes.map .note →
      Chronicles env (Engine.askStore levelsUp key request) w
        (.asked (w.levelOf levelsUp) key request :: notes.map fun n => .entry (.note n))
  | closed : w.frames = f :: above →
      Chronicles env closeStore.run w [.closed (Store.newestFirst f.store.resources) w.user]
  | bind {α β : Type} {m : Engine σ ν α} {k : α → Engine σ ν β} {a : α} : Chronicles env m w hs →
      m.goes env w = (.ok a, w') → Chronicles env (k a) w' gs → Chronicles env (m >>= k) w (hs ++ gs)
  | broken {α β : Type} {m : Engine σ ν α} {k : α → Engine σ ν β} : Chronicles env m w hs →
      m.goes env w = (.error halt, w') → Chronicles env (m >>= k) w hs
  | step {α : Type} {code : Attempt σ ν α} : Chronicles env code.run (w.mark s .began) hs →
      Chronicles env (Engine.step s code).run w (.entry (.step w.currentId s .began) :: hs ++
        [.entry (.step w.currentId s (.ofOutcome (code.run.goes env (w.mark s .began)).1))])
  | before {α : Type} {code : Attempt σ ν α} : Chronicles env code.run { w with timeLeft := some deadline } hs →
      Chronicles env (Engine.before deadline label code).run w hs
  | within {α : Type} {code : Engine σ ν α} : Chronicles env code { w with frames := f :: w.frames } hs →
      f.store = {} → Chronicles env (Engine.within f code) w [.inside f.site hs]

/-- Asking a store changes that store only. -/
theorem goes_askStore (levelsUp : Nat) (key : Store.Key) (request : Store.Request σ ν) (env : Environment σ ν)
    (w : World σ ν) :
    (Engine.askStore levelsUp key request).goes env w = match w.frames[w.levelOf levelsUp]? with
      | none => (.ok (.ok none), w)
      | some f =>
        let above := (w.frames.drop (w.levelOf levelsUp + 1)).map (·.store)
        let (outcome, notes, user) := f.store.perform above key request w.user
        (.ok (outcome.map (·.1)),
          { w with
            user
            trace := w.trace ++ (notes.map Entry.note).toArray
            frames := match outcome with
              | .ok (_, store) => w.frames.modify (w.levelOf levelsUp) fun f => { f with store }
              | .error _ => w.frames }) := by
  have all : (Engine.frames : Engine σ ν (List (Frame σ ν))).goes env w = (.ok w.frames, w) := rfl
  unfold Engine.askStore World.levelOf
  rw [Engine.goes_bind, all]
  dsimp only
  cases w.frames[min levelsUp (w.frames.length - 1)]? with
  | none => rfl
  | some f =>
    dsimp only
    rw [Engine.goes_bind, Engine.goes_act]
    generalize f.store.perform _ key request w.user = performed
    rcases performed with ⟨_ | ⟨reply, store⟩, notes, user⟩ <;> rfl

theorem resources_askStore (levelsUp : Nat) (key : Store.Key) (request : Store.Request σ ν) (env : Environment σ ν)
    (w : World σ ν) (level : Nat) :
    ((Engine.askStore levelsUp key request).goes env w).2.resources level = (w.resources level).map fun kept =>
      if w.levelOf levelsUp = level then request.keep key kept else kept := by
  rw [goes_askStore]
  cases asked : w.frames[w.levelOf levelsUp]? with
  | none =>
    by_cases here : w.levelOf levelsUp = level
    · simp [World.resources, ← here, asked]
    · simp [here]
  | some f =>
    have kept (above : List (Store σ ν)) := f.store.resources_behind above key request w.user
    dsimp only
    generalize (w.frames.drop (w.levelOf levelsUp + 1)).map (·.store) = above
    specialize kept above
    generalize f.store.perform above key request w.user = performed at kept
    rcases performed with ⟨_ | ⟨reply, store⟩, notes, user⟩
    · by_cases here : w.levelOf levelsUp = level
      · simpa [World.resources, ← here, asked, Store.behind] using kept
      · simp [World.resources, here, Function.comp_def]
    · by_cases here : w.levelOf levelsUp = level
      · simpa [World.resources, ← here, asked, Store.behind] using kept
      · simp [World.resources, here, Function.comp_def]

theorem goes_closeStore {w : World σ ν} {f : Frame σ ν} {above : List (Frame σ ν)} (frames : w.frames = f :: above)
    (env : Environment σ ν) :
    (closeStore : Attempt σ ν Unit).run.goes env w = (.ok (f.store.release w.user).1,
      ((({ w with frames := { f with store := f.store.close } :: above }).mark .closeStore .began).behind
        (Store.newestFirst f.store.resources)).mark .closeStore (.ended (faultOf (f.store.release w.user).1))) := by
  have top : (Engine.top? : Engine σ ν (Option (Frame σ ν))).goes env w = (.ok (some f), w) := by
    show (Except.ok w.frames.head?, w) = _
    rw [frames]
    rfl
  have emptied : (Engine.modifyTop fun f : Frame σ ν => { f with store := f.store.close }).goes env w =
      (.ok (), { w with frames := { f with store := f.store.close } :: above }) := Engine.goes_modifyTop frames _ env
  have released (u : World σ ν) : (Engine.act f.store.release).goes env u =
      (.ok (f.store.release u.user).1, u.behind (Store.newestFirst f.store.resources)) := by
    rw [Engine.goes_act]
    unfold Store.release World.behind Store.newestFirst
    rw [Action.all_inOrder]
  have ended : Phase.ofOutcome (.ok (f.store.release w.user).1) = .ended (faultOf (f.store.release w.user).1) := by
    cases (f.store.release w.user).1 <;> rfl
  unfold closeStore
  rw [ExceptT.run_bind_lift, Engine.goes_bind, top]
  dsimp only
  rw [ExceptT.run_bind_lift, Engine.goes_bind, emptied]
  dsimp only
  rw [Engine.goes_step, ExceptT.run_mk, released]
  rw [← ended]
  rfl

namespace Chronicles
variable {env : Environment σ ν} {m : Engine σ ν α} {w : World σ ν} {hs : List (Happening σ ν)}

theorem sites (h : Chronicles env m w hs) : (m.goes env w).2.frames.map Frame.site = w.frames.map Frame.site := by
  induction h with
  | steady steady => exact (steady _).sites
  | append | act => rfl
  | @asked levelsUp key request w notes _ =>
    rw [goes_askStore]
    split
    · rfl
    · dsimp only
      split
      · exact Frame.map_modify _ _ _ fun _ => rfl
      · rfl
  | closed frames =>
    rw [goes_closeStore frames, frames]
    rfl
  | bind _ goes _ first second =>
    rw [goes] at first
    rw [Engine.goes_bind, goes]
    exact second.trans first
  | broken _ goes first =>
    rw [goes] at first
    rw [Engine.goes_bind, goes]
    exact first
  | step _ ih => exact ih
  | before _ ih => exact ih
  | within _ _ ih =>
    rw [Engine.goes_within, List.map_tail, ih]
    rfl

theorem currentId (h : Chronicles env m w hs) : (m.goes env w).2.currentId = w.currentId := by
  rw [World.currentId_eq, h.sites, World.currentId_eq]

/-- A chronicle leaves out nothing that is marked. -/
theorem trace (h : Chronicles env m w hs) :
    (m.goes env w).2.trace.toList = w.trace.toList ++ entriesAll w.currentId hs := by
  induction h with
  | steady steady => simp [(steady _).trace, entriesAll]
  | append => exact Array.toList_push
  | act => simp [Engine.goes_act, entriesAll_notes]
  | asked told => simp [told, entriesAll, entries, entriesAll_notes]
  | @closed f above w frames =>
    have id : w.currentId = f.descriptor.id := by simp [World.currentId, frames]
    rw [goes_closeStore frames, id, World.trace_mark]
    simp only [World.behind, Array.toList_append, World.trace_mark, entriesAll, entries]
    simp [World.currentId, World.mark, Store.release, Store.newestFirst]
  | bind chronicles goes _ first second =>
    have id := chronicles.currentId
    rw [goes] at first id
    rw [Engine.goes_bind, goes]
    dsimp only at first id ⊢
    rw [second, first, id, entriesAll_append, List.append_assoc]
  | broken _ goes first =>
    rw [goes] at first
    rw [Engine.goes_bind, goes]
    exact first
  | step chronicles ih =>
    have id := chronicles.currentId
    rw [Engine.goes_step, World.trace_mark, ih, World.trace_mark, id]
    simp [entriesAll, entries, World.currentId, World.mark]
  | before _ ih => exact ih
  | within _ _ ih =>
    rw [Engine.goes_within]
    simp [ih, entriesAll, entries, World.currentId, Frame.site]

/-- A store that is not closed keeps what was put into it and not removed. -/
theorem resources (h : Chronicles env m w hs) (level : Nat)
    (unclosed : level = 0 → ∀ x ∈ hs, x.isClosing = false) :
    (m.goes env w).2.resources level = (w.resources level).map (Store.keepAll · (requestsAll level hs)) := by
  induction h generalizing level with
  | steady steady =>
    rw [(steady _).resources]
    simp [requestsAll, Store.keepAll]
  | @append e w =>
    show w.resources level = _
    simp [requestsAll, requests, Store.keepAll]
  | @act w α action =>
    show w.resources level = _
    simp [requestsAll_notes, Store.keepAll]
  | @asked levelsUp key request w notes _ =>
    rw [resources_askStore]
    simp only [requestsAll, requests, requestsAll_notes, List.append_nil]
    split <;> rfl
  | @closed f above w frames =>
    cases level with
    | zero => exact absurd (unclosed rfl _ (List.mem_singleton_self _)) (by simp [isClosing])
    | succ level =>
      rw [goes_closeStore frames]
      simp [World.resources, World.behind, World.mark, frames, requestsAll, requests, Store.keepAll, Function.comp_def]
  | bind _ goes _ first second =>
    have before := first level fun zero x member => unclosed zero x (List.mem_append_left _ member)
    have behind := second level fun zero x member => unclosed zero x (List.mem_append_right _ member)
    rw [goes] at before
    rw [Engine.goes_bind, goes]
    dsimp only at before ⊢
    rw [behind, before, Option.map_map, requestsAll_append]
    simp [Function.comp_def, Store.keepAll]
  | broken _ goes first =>
    have before := first level unclosed
    rw [goes] at before
    rw [Engine.goes_bind, goes]
    exact before
  | @step hs s w α code _ ih =>
    have inside := ih level fun zero x member => unclosed zero x (by simp [member])
    simpa [Engine.goes_step, World.resources, World.mark, requestsAll, requests] using inside
  | before _ ih => exact ih level unclosed
  | @within w f hs α code _ _ ih =>
    have inside := ih (level + 1) fun zero => absurd zero (Nat.succ_ne_zero level)
    simpa [Engine.goes_within, World.resources, requestsAll, requests] using inside

end Chronicles
end TestEngine
