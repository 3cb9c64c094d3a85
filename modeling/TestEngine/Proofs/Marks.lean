import TestEngine.Stream

/-! Marks among the notes, which tell when code is run. Code cannot see its notes, so what is marked does otherwise
what it did before: leaving the marks out of a stream and then using it comes to the same as the other way round. -/
namespace TestEngine
variable {σ ν μ α β : Type}

def marksIn (notes : List (μ ⊕ ν)) : List μ := notes.filterMap Sum.getLeft?

/-- The notes without the marks. -/
def plain (notes : List (μ ⊕ ν)) : List ν := notes.filterMap Sum.getRight?

@[simp] theorem marksIn_append (notes more : List (μ ⊕ ν)) : marksIn (notes ++ more) = marksIn notes ++ marksIn more :=
  List.filterMap_append

@[simp] theorem marksIn_mark (m : μ) (notes : List (μ ⊕ ν)) : marksIn (.inl m :: notes) = m :: marksIn notes := rfl

@[simp] theorem marksIn_nil : marksIn ([] : List (μ ⊕ ν)) = [] := rfl

@[simp] theorem marksIn_inr (notes : List ν) : marksIn (notes.map .inr : List (μ ⊕ ν)) = [] := by
  simp [marksIn, List.filterMap_map, Function.comp_def]

@[simp] theorem plain_append (notes more : List (μ ⊕ ν)) : plain (notes ++ more) = plain notes ++ plain more :=
  List.filterMap_append

@[simp] theorem plain_mark (m : μ) (notes : List (μ ⊕ ν)) : plain (.inl m :: notes) = plain notes := rfl

@[simp] theorem plain_nil : plain ([] : List (μ ⊕ ν)) = [] := rfl

@[simp] theorem plain_inr (notes : List ν) : plain (notes.map .inr : List (μ ⊕ ν)) = notes := by
  simp [plain, List.filterMap_map, Function.comp_def]

@[simp] theorem plain_inl (marks : List μ) : plain (marks.map .inl : List (μ ⊕ ν)) = [] := by
  simp [plain, List.filterMap_map, Function.comp_def]

@[simp] theorem marksIn_inl (marks : List μ) : marksIn (marks.map .inl : List (μ ⊕ ν)) = marks := by
  simp [marksIn, List.filterMap_map, Function.comp_def]

namespace Action

/-- The same action, with a mark before the notes it leaves. -/
def marked (m : μ) (action : Action σ ν α) : Action σ (μ ⊕ ν) α := fun s =>
  let (outcome, notes, s) := action s
  (outcome, .inl m :: notes.map .inr, s)

def unmarked (action : Action σ (μ ⊕ ν) α) : Action σ ν α := fun s =>
  let (outcome, notes, s) := action s
  (outcome, plain notes, s)

theorem unmarked_marked (m : μ) (action : Action σ ν α) : (action.marked m).unmarked = action := by
  funext s
  simp [unmarked, marked]

theorem unmarked_bind (first : Action σ (μ ⊕ ν) α) (next : α → Action σ (μ ⊕ ν) β) :
    (first.bind next).unmarked = first.unmarked.bind fun a => (next a).unmarked := by
  funext s
  rcases ran : first s with ⟨fault | a, notes, s'⟩ <;> simp [unmarked, bind, ran]

theorem unmarked_gather (c : Collector) (actions : List (Action σ (μ ⊕ ν) Unit)) :
    (gather c actions).unmarked = gather c (actions.map unmarked) := by
  induction actions generalizing c with
  | nil => rfl
  | cons action rest ih =>
    funext s
    have others := congrFun (ih (c.record (action s).1)) (action s).2.2
    simp only [unmarked] at others
    simp only [List.map_cons, gather, unmarked, ← others, plain_append]

theorem unmarked_all (actions : List (Action σ (μ ⊕ ν) Unit)) : (all actions).unmarked = all (actions.map unmarked) := by
  rw [all, unmarked_bind, unmarked_gather, all]
  congr 1
  funext c
  cases c.primary <;> rfl

end Action

namespace Draw

/-- The same draw, with marks before the notes it leaves. -/
def marked (marks : List μ) (d : Draw σ ν α) : Draw σ (μ ⊕ ν) α where
  effect s := (marks.map .inl ++ (d.effect s).1.map .inr, (d.effect s).2)
  item := d.item

def unmarked (d : Draw σ (μ ⊕ ν) α) : Draw σ ν α where
  effect s := (plain (d.effect s).1, (d.effect s).2)
  item := d.item

theorem unmarked_marked (marks : List μ) (d : Draw σ ν α) : (d.marked marks).unmarked = d := by
  simp [unmarked, marked]

theorem unmarked_bind (d : Draw σ (μ ⊕ ν) α) (f : α → Draw σ (μ ⊕ ν) β) :
    (d.bind f).unmarked = d.unmarked.bind fun a => (f a).unmarked := by
  obtain ⟨effect, item⟩ := d
  cases item <;> simp [unmarked, bind]

end Draw

namespace Source

def marked (marks : List μ) : Source σ ν α → Source σ (μ ⊕ ν) α
  | .listed draws => .listed (draws.map (·.marked marks))
  | .endless draw => .endless fun i => (draw i).marked marks

def unmarked : Source σ (μ ⊕ ν) α → Source σ ν α
  | .listed draws => .listed (draws.map (·.unmarked))
  | .endless draw => .endless fun i => (draw i).unmarked

theorem unmarked_marked (marks : List μ) (source : Source σ ν α) : (source.marked marks).unmarked = source := by
  cases source <;> simp [unmarked, marked, Draw.unmarked_marked, Function.comp_def]

theorem unmarked_bind (f : α → Draw σ (μ ⊕ ν) β) (source : Source σ (μ ⊕ ν) α) :
    (source.bind f).unmarked = source.unmarked.bind fun a => (f a).unmarked := by
  cases source <;> simp [unmarked, bind, Draw.unmarked_bind]

theorem unmarked_append (first second : Source σ (μ ⊕ ν) α) :
    (first.append second).unmarked = first.unmarked.append second.unmarked := by
  cases first with
  | endless draw => rfl
  | listed draws =>
    cases second with
    | listed more => simp [unmarked, append]
    | endless draw =>
      simp only [unmarked, append, List.length_map, List.getElem_map, Source.endless.injEq]
      funext i
      split <;> rfl

theorem unmarked_next? (source : Source σ (μ ⊕ ν) α) :
    source.unmarked.next? = source.next?.map fun (d, rest) => (d.unmarked, rest.unmarked) := by
  cases source with
  | endless draw => rfl
  | listed draws => cases draws <;> rfl

end Source

namespace Stream

def unmarked (s : Stream σ (μ ⊕ ν) α) : Stream σ ν α where
  source := s.source.unmarked
  onClose := s.onClose.map (·.unmarked)
  closed := s.closed

theorem unmarked_addClose (s : Stream σ (μ ⊕ ν) α) (action : Action σ (μ ⊕ ν) Unit) :
    (s.addClose action).unmarked = s.unmarked.addClose action.unmarked := by
  simp [unmarked, addClose]

theorem unmarked_bind (s : Stream σ (μ ⊕ ν) α) (f : α → Draw σ (μ ⊕ ν) β) :
    (s.bind f).unmarked = s.unmarked.bind fun a => (f a).unmarked := by
  simp [unmarked, bind, Source.unmarked_bind]

theorem unmarked_chain (first second : Stream σ (μ ⊕ ν) α) :
    (first.chain second).unmarked = first.unmarked.chain second.unmarked := by
  simp [unmarked, chain, Source.unmarked_append]

theorem unmarked_next (s : Stream σ (μ ⊕ ν) α) :
    s.unmarked.next = s.next.map fun (d, rest) => (d.unmarked, rest.unmarked) := by
  have same : s.unmarked.closed = s.closed := rfl
  have source : s.unmarked.source = s.source.unmarked := rfl
  unfold next
  rw [same, source, Source.unmarked_next?]
  cases s.closed with
  | true => rfl
  | false => cases s.source.next? <;> rfl

theorem unmarked_close (s : Stream σ (μ ⊕ ν) α) : s.close.unmarked = s.unmarked.close := by
  have same : s.unmarked.closed = s.closed := rfl
  unfold close
  rw [same]
  split <;> rfl

theorem unmarked_release (s : Stream σ (μ ⊕ ν) α) : s.release.unmarked = s.unmarked.release := by
  have same : s.unmarked.closed = s.closed := rfl
  unfold release
  rw [same]
  split
  · rfl
  · exact Action.unmarked_all s.onClose

end Stream
end TestEngine
