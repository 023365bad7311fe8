import BinaryReport.Queue.Serial

/-!
# What is seen of a serial queue

A run of a serial queue shows five kinds of events (`QueueEvent`). Events add up to a record of the
tasks (`QueueRecord`): which were submitted and started, and which have settled and were delivered
with which outcome, each in its order.

`QueueRecord.Allows` says when an event may follow a record. It does not look at any queue: a task
may start if it is the next one in the order of submission and all that were started have settled,
and an outcome may be delivered if it is the next one in the order of settling.
-/

namespace BinaryReport

/-- Something that is seen of a serial queue. -/
inductive QueueEvent (τ ρ : Type) where
  /-- A task was submitted. -/
  | submitted (task : τ)
  /-- A task was started. -/
  | started (task : τ)
  /-- A task has settled. -/
  | settled (task : τ) (outcome : ρ)
  /-- The queue went on to the next task, or found none. -/
  | advanced
  /-- The outcome of a task was delivered to who submitted it. -/
  | delivered (task : τ) (outcome : ρ)

theorem getElem?_of_isPrefix {β : Type} {l l' : List β} (hl : l <+: l') {n : Nat} {a : β}
    (hn : l[n]? = some a) : l'[n]? = some a := by
  obtain ⟨hlt, rfl⟩ := List.getElem?_eq_some_iff.1 hn
  exact List.prefix_iff_getElem?.1 hl n hlt

variable {τ ρ : Type}

/-- What has become of the tasks of a queue. -/
structure QueueRecord (τ ρ : Type) where
  /-- The tasks that were submitted. -/
  submitted : List τ
  /-- The tasks that were started. -/
  started : List τ
  /-- The tasks that have settled, with their outcomes. -/
  settled : List (τ × ρ)
  /-- The tasks whose outcomes were delivered, with what was delivered. -/
  delivered : List (τ × ρ)

namespace QueueRecord

/-- The record before anything has happened. -/
def empty : QueueRecord τ ρ := ⟨[], [], [], []⟩

/-- The record after one more event. -/
def add (r : QueueRecord τ ρ) : QueueEvent τ ρ → QueueRecord τ ρ
  | .submitted task => { r with submitted := r.submitted ++ [task] }
  | .started task => { r with started := r.started ++ [task] }
  | .settled task o => { r with settled := r.settled ++ [(task, o)] }
  | .advanced => r
  | .delivered task o => { r with delivered := r.delivered ++ [(task, o)] }

/-- The record after more events. -/
def addAll (r : QueueRecord τ ρ) (es : List (QueueEvent τ ρ)) : QueueRecord τ ρ := es.foldl add r

/-- The record of all events from the beginning on. -/
def of (es : List (QueueEvent τ ρ)) : QueueRecord τ ρ := empty.addAll es

theorem addAll_append (r : QueueRecord τ ρ) (es es' : List (QueueEvent τ ρ)) :
    r.addAll (es ++ es') = (r.addAll es).addAll es' :=
  List.foldl_append

theorem addAll_submitted (r : QueueRecord τ ρ) (tasks : List τ) :
    r.addAll (tasks.map .submitted) = { r with submitted := r.submitted ++ tasks } := by
  induction tasks generalizing r with
  | nil =>
    rw [List.append_nil]
    rfl
  | cons task tasks ih =>
    have hrest := ih (r.add (.submitted task))
    show (r.add (.submitted task)).addAll (tasks.map .submitted) = _
    rw [hrest]
    show ({ r with submitted := (r.submitted ++ [task]) ++ tasks } : QueueRecord τ ρ) = _
    rw [List.append_assoc]
    rfl

/-! ## Growth -/

/-- Nothing is taken back. -/
structure Extends (r r' : QueueRecord τ ρ) : Prop where
  started : r.started <+: r'.started
  settled : r.settled <+: r'.settled

theorem Extends.refl (r : QueueRecord τ ρ) : r.Extends r := ⟨List.prefix_rfl, List.prefix_rfl⟩

theorem Extends.trans {r r' r'' : QueueRecord τ ρ} (h : r.Extends r') (h' : r'.Extends r'') :
    r.Extends r'' :=
  ⟨h.started.trans h'.started, h.settled.trans h'.settled⟩

theorem extends_add (r : QueueRecord τ ρ) (e : QueueEvent τ ρ) : r.Extends (r.add e) := by
  cases e with
  | submitted task => exact ⟨List.prefix_rfl, List.prefix_rfl⟩
  | started task => exact ⟨List.prefix_append r.started [task], List.prefix_rfl⟩
  | settled task o => exact ⟨List.prefix_rfl, List.prefix_append r.settled [(task, o)]⟩
  | advanced => exact .refl r
  | delivered task o => exact ⟨List.prefix_rfl, List.prefix_rfl⟩

theorem extends_addAll (r : QueueRecord τ ρ) (es : List (QueueEvent τ ρ)) :
    r.Extends (r.addAll es) := by
  induction es generalizing r with
  | nil => exact .refl r
  | cons e es ih => exact (r.extends_add e).trans (ih (r.add e))

/-! ## The order of events -/

/-- Whether an event may be seen next. -/
def Allows (r : QueueRecord τ ρ) : QueueEvent τ ρ → Prop
  | .submitted _ => True
  | .started task => r.started = r.settled.map Prod.fst ∧ r.started ++ [task] <+: r.submitted
  | .settled task _ => r.started = r.settled.map Prod.fst ++ [task]
  | .advanced => True
  | .delivered task o => r.delivered ++ [(task, o)] <+: r.settled

/-- Whether events may be seen next, one after another. -/
def AllowsAll : QueueRecord τ ρ → List (QueueEvent τ ρ) → Prop
  | _, [] => True
  | r, e :: es => r.Allows e ∧ (r.add e).AllowsAll es

theorem allowsAll_append {r : QueueRecord τ ρ} {es es' : List (QueueEvent τ ρ)} :
    r.AllowsAll (es ++ es') ↔ r.AllowsAll es ∧ (r.addAll es).AllowsAll es' := by
  induction es generalizing r with
  | nil => exact ⟨fun h => ⟨trivial, h⟩, fun h => h.2⟩
  | cons e es ih =>
    have hrest : (r.add e).AllowsAll (es ++ es') ↔
        (r.add e).AllowsAll es ∧ ((r.add e).addAll es).AllowsAll es' := ih
    show r.Allows e ∧ (r.add e).AllowsAll (es ++ es') ↔ _
    rw [hrest, ← and_assoc]
    rfl

theorem allowsAll_submitted (r : QueueRecord τ ρ) (tasks : List τ) :
    r.AllowsAll (tasks.map .submitted) := by
  induction tasks generalizing r with
  | nil => trivial
  | cons task tasks ih => exact ⟨trivial, ih (r.add (.submitted task))⟩

theorem AllowsAll.allows {r : QueueRecord τ ρ} {before after : List (QueueEvent τ ρ)}
    {e : QueueEvent τ ρ} (h : r.AllowsAll (before ++ e :: after)) : (r.addAll before).Allows e :=
  (allowsAll_append.1 h).2.1

/-- Tasks are started in the order of submission and one at a time, and outcomes are delivered in the
order of settling. -/
structure InTurn (r : QueueRecord τ ρ) : Prop where
  /-- The tasks that were started are the first of those that were submitted. -/
  ordered : r.started <+: r.submitted
  /-- All of them have settled but the last one, which may be running. -/
  oneAtATime : r.started = r.settled.map Prod.fst ∨
    ∃ running, r.started = r.settled.map Prod.fst ++ [running]
  /-- What was delivered is what the tasks have settled with. -/
  delivered : r.delivered <+: r.settled

theorem inTurn_empty : (empty : QueueRecord τ ρ).InTurn :=
  ⟨List.prefix_rfl, Or.inl rfl, List.prefix_rfl⟩

theorem InTurn.add {r : QueueRecord τ ρ} {e : QueueEvent τ ρ} (h : r.InTurn) (he : r.Allows e) :
    (r.add e).InTurn := by
  cases e with
  | submitted task =>
    have hordered : r.started <+: r.submitted ++ [task] :=
      h.ordered.trans (List.prefix_append r.submitted [task])
    exact ⟨hordered, h.oneAtATime, h.delivered⟩
  | started task =>
    obtain ⟨hsettled, hnext⟩ := he
    have hrunning : r.started ++ [task] = r.settled.map Prod.fst ++ [task] := by rw [hsettled]
    exact ⟨hnext, Or.inr ⟨task, hrunning⟩, h.delivered⟩
  | settled task o =>
    have hrunning : r.started = r.settled.map Prod.fst ++ [task] := he
    refine ⟨h.ordered, Or.inl ?_, h.delivered.trans (List.prefix_append r.settled [(task, o)])⟩
    show r.started = (r.settled ++ [(task, o)]).map Prod.fst
    rw [hrunning, List.map_append]
    rfl
  | advanced => exact h
  | delivered task o => exact ⟨h.ordered, h.oneAtATime, he⟩

theorem InTurn.addAll {r : QueueRecord τ ρ} {es : List (QueueEvent τ ρ)} (h : r.InTurn)
    (hes : r.AllowsAll es) : (r.addAll es).InTurn := by
  induction es generalizing r with
  | nil => exact h
  | cons e es ih =>
    obtain ⟨he, hrest⟩ := hes
    exact ih (h.add he) hrest

/-- The tasks that have settled are the first of those that were submitted. -/
theorem InTurn.submitted_of_settled {r : QueueRecord τ ρ} (h : r.InTurn) {n : Nat} {task : τ} {o : ρ}
    (hn : r.settled[n]? = some (task, o)) : r.submitted[n]? = some task := by
  have htasks : r.settled.map Prod.fst <+: r.started := by
    rcases h.oneAtATime with heq | ⟨running, heq⟩
    · exact heq ▸ List.prefix_rfl
    · exact heq ▸ List.prefix_append _ _
  have htask : (r.settled.map Prod.fst)[n]? = some task := by
    rw [List.getElem?_map, hn]
    rfl
  exact getElem?_of_isPrefix (htasks.trans h.ordered) htask

end QueueRecord

end BinaryReport
