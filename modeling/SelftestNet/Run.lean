/-
This file is the library of runs of a partial step function. A step is undefined
when the program it models performs an access its language leaves undefined, so a
run is a fold in `Option` and a property of a run is stated step by step: `Each`
says that every step of the run is taken from a state, and under a label, that the
given relation holds of. Both are by recursion on the labels, so one induction here
serves every invariant of the development.
-/

import Mathlib.Data.List.Basic

namespace PartialRun

variable {State Label : Type}

/-! ### Runs -/

/-- The state the labels lead to, one after the other; `none` once a step is undefined. -/
def run (step : State → Label → Option State) (state : State) : List Label → Option State
  | [] => some state
  | label :: rest => (step state label).bind fun next => run step next rest

/-- Every step of the run is taken from a state and under a label that `holds` relates. -/
def Each (step : State → Label → Option State) (holds : State → Label → Prop) (state : State) :
    List Label → Prop
  | [] => True
  | label :: rest =>
    holds state label ∧ ∀ next, step state label = some next → Each step holds next rest

@[simp]
theorem run_nil (step : State → Label → Option State) (state : State) :
    run step state [] = some state := rfl

theorem run_cons (step : State → Label → Option State) (state : State) (label : Label)
    (rest : List Label) :
    run step state (label :: rest) =
      (step state label).bind fun next => run step next rest := rfl

theorem run_singleton (step : State → Label → Option State) (state : State) (label : Label) :
    run step state [label] = step state label := Option.bind_fun_some _

theorem run_append (step : State → Label → Option State) (state : State)
    (first second : List Label) :
    run step state (first ++ second) =
      (run step state first).bind fun next => run step next second := by
  induction first generalizing state with
  | nil => rfl
  | cons label rest inductionHypothesis =>
    rw [List.cons_append, run_cons, run_cons, Option.bind_assoc]
    exact congrArg (Option.bind _) (funext inductionHypothesis)

/-! ### Properties that hold along a run -/

theorem each_nil (step : State → Label → Option State) (holds : State → Label → Prop)
    (state : State) : Each step holds state [] ↔ True := Iff.rfl

theorem each_singleton {step : State → Label → Option State} {holds : State → Label → Prop}
    {state : State} {label : Label} : Each step holds state [label] ↔ holds state label :=
  and_iff_left fun _ _ => trivial

/-- Behind a step that is known, the rest of the run is about its state. -/
theorem each_cons_of_step {step : State → Label → Option State} {holds : State → Label → Prop}
    {state next : State} {label : Label} {rest : List Label}
    (stepped : step state label = some next) :
    Each step holds state (label :: rest) ↔ holds state label ∧ Each step holds next rest :=
  and_congr_right fun _ => ⟨fun later => later next stepped,
    fun later _ reached => Option.some.inj (stepped.symm.trans reached) ▸ later⟩

/-- A relation that the labels of a run satisfy in every state holds along it. -/
theorem each_of_forall {step : State → Label → Option State} {holds : State → Label → Prop}
    {labels : List Label} (every : ∀ label ∈ labels, ∀ state, holds state label) (state : State) :
    Each step holds state labels := by
  induction labels generalizing state with
  | nil => trivial
  | cons label rest inductionHypothesis =>
    exact ⟨every label List.mem_cons_self state, fun _ _ =>
      inductionHypothesis (fun other member => every other (List.mem_cons_of_mem _ member)) _⟩

theorem each_true (step : State → Label → Option State) (state : State) (labels : List Label) :
    Each step (fun _ _ => True) state labels := each_of_forall (fun _ _ _ => trivial) state

theorem each_and {step : State → Label → Option State} {first second : State → Label → Prop}
    {state : State} {labels : List Label} :
    Each step (fun state label => first state label ∧ second state label) state labels ↔
      Each step first state labels ∧ Each step second state labels := by
  induction labels generalizing state with
  | nil => exact (and_iff_left trivial).symm
  | cons label rest inductionHypothesis =>
    refine Iff.trans (and_congr_right fun _ => ?_) and_and_and_comm
    simp only [inductionHypothesis, forall_and]

/-- A property of states holds in every state that a run reaches when it holds in the first one and
behind every step. -/
theorem reached_iff_each {step : State → Label → Option State} {property : State → Prop}
    {state : State} {labels : List Label} :
    (∀ first final, first <+: labels → run step state first = some final → property final) ↔
      property state ∧
        Each step (fun state label => ∀ next, step state label = some next → property next)
          state labels := by
  induction labels generalizing state with
  | nil =>
    refine ⟨fun reached => ⟨reached [] state List.nil_prefix rfl, trivial⟩, ?_⟩
    rintro ⟨holds, -⟩ first final inside arrived
    rw [List.prefix_nil.mp inside, run_nil] at arrived
    exact Option.some.inj arrived ▸ holds
  | cons label rest inductionHypothesis =>
    constructor
    · intro reached
      have behind : ∀ next, step state label = some next → property next ∧
          Each step (fun state label => ∀ next, step state label = some next → property next)
            next rest := by
        intro next stepped
        refine inductionHypothesis.mp fun first final inside arrived => ?_
        refine reached (label :: first) final ((List.prefix_cons_inj label).mpr inside) ?_
        rw [run_cons, stepped, Option.bind_some, arrived]
      exact ⟨reached [] state List.nil_prefix rfl, fun next stepped => (behind next stepped).1,
        fun next stepped => (behind next stepped).2⟩
    · rintro ⟨holds, kept, each⟩ first final inside arrived
      rcases List.prefix_cons_iff.mp inside with rfl | ⟨later, rfl, shorter⟩
      · exact Option.some.inj arrived ▸ holds
      · rw [run_cons, Option.bind_eq_some_iff] at arrived
        obtain ⟨next, stepped, arrived⟩ := arrived
        exact inductionHypothesis.mpr ⟨kept next stepped, each next stepped⟩ later final shorter
          arrived

/-- Two relations that agree on every allowed step from a state that satisfies an invariant agree
along every allowed run, when the invariant survives the steps that satisfy one of them. -/
theorem each_congr_of_each {step : State → Label → Option State}
    {allowed first second : State → Label → Prop} (invariant : State → Prop)
    (preserved : ∀ state label next, invariant state → allowed state label →
      second state label → step state label = some next → invariant next)
    (agree : ∀ state label, invariant state → allowed state label →
      (first state label ↔ second state label))
    {state : State} {labels : List Label} (initial : invariant state)
    (each : Each step allowed state labels) :
    Each step first state labels ↔ Each step second state labels := by
  induction labels generalizing state with
  | nil => exact Iff.rfl
  | cons label rest inductionHypothesis =>
    have here := agree _ _ initial each.1
    refine and_congr_right_iff.mpr ?_ |>.trans (and_congr_left_iff.mpr fun _ => here)
    intro holds
    refine forall_congr' fun next => forall_congr' fun stepped => ?_
    exact inductionHypothesis (preserved _ _ _ initial each.1 (here.mp holds) stepped)
      (each.2 next stepped)

/-- A relation that every allowed step from a state that satisfies an invariant satisfies holds
along every allowed run, when the invariant survives the allowed steps. -/
theorem each_of_each {step : State → Label → Option State} {allowed holds : State → Label → Prop}
    (invariant : State → Prop)
    (preserved : ∀ state label next, invariant state → allowed state label →
      step state label = some next → invariant next)
    (satisfied : ∀ state label, invariant state → allowed state label → holds state label)
    {state : State} {labels : List Label} (initial : invariant state)
    (each : Each step allowed state labels) : Each step holds state labels :=
  (each_congr_of_each invariant
    (fun state label next kept permitted _ => preserved state label next kept permitted)
    (fun state label kept permitted => iff_true_intro (satisfied state label kept permitted))
    initial each).mpr (each_true step state labels)

/-- Two relations that agree wherever an invariant holds agree along every run, when the
invariant survives the steps that satisfy one of them. Nothing is asked of the steps that
satisfy neither: at the first of those both sides are false. -/
theorem each_congr {step : State → Label → Option State} {first second : State → Label → Prop}
    (invariant : State → Prop)
    (preserved : ∀ state label next, invariant state → second state label →
      step state label = some next → invariant next)
    (agree : ∀ state label, invariant state → (first state label ↔ second state label))
    {state : State} {labels : List Label} (initial : invariant state) :
    Each step first state labels ↔ Each step second state labels :=
  each_congr_of_each invariant
    (fun state label next holds _ second => preserved state label next holds second)
    (fun state label holds _ => agree state label holds) initial (each_true step state labels)

/-- Two relations that agree on every defined step from a state that satisfies an invariant agree
along every run that is defined to its end. -/
theorem each_congr_of_run {step : State → Label → Option State}
    {first second : State → Label → Prop} (invariant : State → Prop)
    (preserved : ∀ state label next, invariant state → step state label = some next →
      invariant next)
    (agree : ∀ state label next, invariant state → step state label = some next →
      (first state label ↔ second state label))
    {state final : State} {labels : List Label} (initial : invariant state)
    (reached : run step state labels = some final) :
    Each step first state labels ↔ Each step second state labels := by
  induction labels generalizing state with
  | nil => exact Iff.rfl
  | cons label rest inductionHypothesis =>
    rw [run_cons, Option.bind_eq_some_iff] at reached
    obtain ⟨next, stepped, remaining⟩ := reached
    have behind := inductionHypothesis (preserved _ _ _ initial stepped) remaining
    refine and_congr (agree _ _ _ initial stepped) ?_
    rw [stepped]
    simp only [Option.some.injEq, forall_eq', behind]

/-! ### Invariants of a run -/

/-- An invariant that every allowed step preserves holds where an allowed run ends. -/
theorem run_invariant {step : State → Label → Option State} {allowed : State → Label → Prop}
    (invariant : State → Prop)
    (preserved : ∀ state label next, invariant state → allowed state label →
      step state label = some next → invariant next)
    {state final : State} {labels : List Label} (initial : invariant state)
    (each : Each step allowed state labels) (reached : run step state labels = some final) :
    invariant final := by
  induction labels generalizing state with
  | nil =>
    rw [run_nil] at reached
    exact Option.some.inj reached ▸ initial
  | cons label rest inductionHypothesis =>
    rw [run_cons, Option.bind_eq_some_iff] at reached
    obtain ⟨next, stepped, remaining⟩ := reached
    exact inductionHypothesis (preserved _ _ _ initial each.1 stepped) (each.2 next stepped)
      remaining

/-- An invariant that every step preserves holds where any run ends. -/
theorem run_invariant_of_step {step : State → Label → Option State} (invariant : State → Prop)
    (preserved : ∀ state label next, invariant state → step state label = some next →
      invariant next)
    {state final : State} {labels : List Label} (initial : invariant state)
    (reached : run step state labels = some final) : invariant final := by
  exact run_invariant invariant (fun _ _ _ holds _ stepped => preserved _ _ _ holds stepped)
    initial (each_true step state labels) reached

/-- When every allowed step from a state that satisfies an invariant is defined and keeps the
invariant, an allowed run is defined to its end, and the invariant holds there. -/
theorem run_defined {step : State → Label → Option State} {allowed : State → Label → Prop}
    (invariant : State → Prop)
    (progress : ∀ state label, invariant state → allowed state label →
      ∃ next, step state label = some next ∧ invariant next)
    {state : State} {labels : List Label} (initial : invariant state)
    (each : Each step allowed state labels) :
    ∃ final, run step state labels = some final ∧ invariant final := by
  induction labels generalizing state with
  | nil => exact ⟨state, rfl, initial⟩
  | cons label rest inductionHypothesis =>
    obtain ⟨next, stepped, kept⟩ := progress _ _ initial each.1
    obtain ⟨final, reached, holds⟩ := inductionHypothesis kept (each.2 next stepped)
    exact ⟨final, by rw [run_cons, stepped, Option.bind_some, reached], holds⟩

/-- When a step from a state that satisfies an invariant ends in a state with a property exactly if
it starts in one and satisfies a relation, a run ends in one exactly if it starts in one and the
relation holds along it. -/
theorem run_property_iff_each {step : State → Label → Option State}
    {holds : State → Label → Prop} (invariant property : State → Prop)
    (preserved : ∀ state label next, invariant state → step state label = some next →
      invariant next)
    (decided : ∀ state label next, invariant state → step state label = some next →
      (property next ↔ property state ∧ holds state label))
    {state final : State} {labels : List Label} (initial : invariant state)
    (reached : run step state labels = some final) :
    property final ↔ property state ∧ Each step holds state labels := by
  induction labels generalizing state with
  | nil =>
    rw [run_nil] at reached
    rw [Option.some.inj reached]
    exact (and_iff_left trivial).symm
  | cons label rest inductionHypothesis =>
    rw [run_cons, Option.bind_eq_some_iff] at reached
    obtain ⟨next, stepped, remaining⟩ := reached
    have behind := inductionHypothesis (preserved _ _ _ initial stepped) remaining
    rw [behind, decided _ _ _ initial stepped, and_assoc]
    refine and_congr_right fun _ => and_congr_right fun _ => ?_
    rw [stepped]
    simp only [Option.some.injEq, forall_eq']

/-- A step function that another one simulates, up to a relation of their states, is simulated
over whole runs. -/
theorem run_simulates {Abstract : Type} {step : State → Label → Option State}
    {allowed : State → Label → Prop} (related : State → Abstract → Prop)
    (spec : Abstract → Label → Abstract)
    (simulated : ∀ state abstract label, related state abstract → allowed state label →
      ∃ next, step state label = some next ∧ related next (spec abstract label))
    {state : State} {abstract : Abstract} {labels : List Label} (initial : related state abstract)
    (each : Each step allowed state labels) :
    ∃ final, run step state labels = some final ∧ related final (labels.foldl spec abstract) := by
  induction labels generalizing state abstract with
  | nil => exact ⟨state, rfl, initial⟩
  | cons label rest inductionHypothesis =>
    obtain ⟨next, stepped, kept⟩ := simulated _ _ _ initial each.1
    obtain ⟨final, reached, holds⟩ := inductionHypothesis kept (each.2 next stepped)
    exact ⟨final, by rw [run_cons, stepped, Option.bind_some, reached], holds⟩

/-- The run of a step function that is always defined. -/
theorem each_some_cons {spec : State → Label → State} {holds : State → Label → Prop}
    {state : State} {label : Label} {rest : List Label} :
    Each (fun state label => some (spec state label)) holds state (label :: rest) ↔
      holds state label ∧ Each (fun state label => some (spec state label)) holds
        (spec state label) rest := by
  simp only [Each, Option.some.injEq, forall_eq']

/-- A step function that implements a specification, where the specification allows a step,
implements it over whole runs; what relates the two may look ahead to the labels to come. -/
theorem run_implements_ahead {Abstract : Type} {step : State → Label → Option State}
    {allowed : Abstract → Label → Prop} (related : List Label → State → Abstract → Prop)
    (spec : Abstract → Label → Abstract)
    (simulated : ∀ state abstract label rest, related (label :: rest) state abstract →
      allowed abstract label → ∃ next, step state label = some next ∧
        related rest next (spec abstract label))
    {state : State} {abstract : Abstract} {labels : List Label} (initial : related labels state abstract)
    (each : Each (fun abstract label => some (spec abstract label)) allowed abstract labels) :
    ∃ final, run step state labels = some final ∧ related [] final (labels.foldl spec abstract) := by
  induction labels generalizing state abstract with
  | nil => exact ⟨state, rfl, initial⟩
  | cons label rest inductionHypothesis =>
    obtain ⟨next, stepped, kept⟩ := simulated _ _ _ _ initial each.1
    obtain ⟨final, reached, holds⟩ := inductionHypothesis kept (each.2 _ rfl)
    exact ⟨final, by rw [run_cons, stepped, Option.bind_some, reached], holds⟩

theorem run_implements {Abstract : Type} {step : State → Label → Option State}
    {allowed : Abstract → Label → Prop} (related : State → Abstract → Prop)
    (spec : Abstract → Label → Abstract)
    (simulated : ∀ state abstract label, related state abstract → allowed abstract label →
      ∃ next, step state label = some next ∧ related next (spec abstract label))
    {state : State} {abstract : Abstract} {labels : List Label} (initial : related state abstract)
    (each : Each (fun abstract label => some (spec abstract label)) allowed abstract labels) :
    ∃ final, run step state labels = some final ∧ related final (labels.foldl spec abstract) :=
  run_implements_ahead (fun _ => related) spec
    (fun state abstract label _ => simulated state abstract label) initial each

/-- A step function with a part that another one computes computes it over whole runs. -/
theorem run_projection {Part : Type} {step : State → Label → Option State}
    {partStep : Part → Label → Option Part} (projection : State → Part)
    (computed : ∀ state label, partStep (projection state) label =
      (step state label).map projection)
    (state : State) (labels : List Label) :
    run partStep (projection state) labels = (run step state labels).map projection := by
  induction labels generalizing state with
  | nil => rfl
  | cons label rest inductionHypothesis =>
    rw [run_cons, run_cons, computed]
    cases step state label with
    | none => rfl
    | some next => exact inductionHypothesis next

/-- A step function that refines another one, up to an abstraction of states and labels, refines
it over whole runs. -/
theorem run_refines {Abstract Event : Type} {step : State → Label → Option State}
    {allowed : State → Label → Prop} (invariant : State → Prop) (abstraction : State → Abstract)
    (spec : Abstract → Event → Abstract) (event : Label → Event)
    (simulated : ∀ state label, invariant state → allowed state label →
      ∃ next, step state label = some next ∧ invariant next ∧
        abstraction next = spec (abstraction state) (event label))
    {state : State} {labels : List Label} (initial : invariant state)
    (each : Each step allowed state labels) :
    ∃ final, run step state labels = some final ∧ invariant final ∧
      abstraction final = (labels.map event).foldl spec (abstraction state) := by
  rw [List.foldl_map]
  refine run_simulates (fun state abstract => invariant state ∧ abstraction state = abstract)
    (fun abstract label => spec abstract (event label)) ?_ ⟨initial, rfl⟩ each
  rintro state _ label ⟨holds, rfl⟩ permitted
  exact simulated state label holds permitted

/-! ### Interleavings and progress -/

/-- A run on a state that is joined from two parts, in which every label acts on one of them, does
to each part what the labels that act on it do alone. -/
theorem run_interleaved {Left Right : Type} {step : State → Label → Option State}
    {stepLeft : Left → Label → Option Left} {stepRight : Right → Label → Option Right}
    (leftward : Label → Bool) (join : Left → Right → State)
    (onLeft : ∀ left right label, leftward label = true →
      step (join left right) label = (stepLeft left label).map fun next => join next right)
    (onRight : ∀ left right label, leftward label = false →
      step (join left right) label = (stepRight right label).map fun next => join left next)
    (left : Left) (right : Right) (labels : List Label) :
    run step (join left right) labels =
      (run stepLeft left (labels.filter leftward)).bind fun left =>
        (run stepRight right (labels.filter fun label => !leftward label)).map (join left) := by
  induction labels generalizing left right with
  | nil => rfl
  | cons label rest inductionHypothesis =>
    rw [run_cons]
    cases side : leftward label with
    | true =>
      simp only [List.filter_cons, side, if_true, Bool.not_true, Bool.false_eq_true, if_false]
      rw [onLeft left right label side, run_cons, Option.bind_map, Option.bind_assoc]
      exact congrArg (Option.bind _) (funext fun next => inductionHypothesis next right)
    | false =>
      simp only [List.filter_cons, side, if_true, Bool.not_false, Bool.false_eq_true, if_false]
      simp only [onRight left right label side, run_cons]
      cases moved : stepRight right label with
      | none => cases run stepLeft left (rest.filter leftward) <;> rfl
      | some next => exact inductionHypothesis left next

/-- A run on a family of states in which every label acts on the member under its key does to each
member what the labels with its key do alone. -/
theorem run_keyed {Key Part : Type} [DecidableEq Key]
    {step : (Key → Part) → Label → Option (Key → Part)} {partStep : Part → Label → Option Part}
    (key : Label → Key)
    (acts : ∀ family label, step family label =
      (partStep (family (key label)) label).map (Function.update family (key label)))
    {family final : Key → Part} {labels : List Label} :
    run step family labels = some final ↔
      ∀ place, run partStep (family place) (labels.filter fun label => key label = place) =
        some (final place) := by
  induction labels generalizing family with
  | nil =>
    simp only [run_nil, List.filter_nil, Option.some.injEq]
    exact funext_iff
  | cons label rest inductionHypothesis =>
    have own : ∀ place, key label = place →
        (label :: rest).filter (fun label => key label = place) =
          label :: rest.filter fun label => key label = place :=
      fun place same => List.filter_cons_of_pos (decide_eq_true same)
    have others : ∀ place, key label ≠ place →
        (label :: rest).filter (fun label => key label = place) =
          rest.filter fun label => key label = place :=
      fun place different => List.filter_cons_of_neg (by simpa using different)
    rw [run_cons, acts]
    cases moved : partStep (family (key label)) label with
    | none =>
      refine iff_of_false (fun reached => by cases reached) fun every => ?_
      have mine := every (key label)
      rw [own _ rfl, run_cons, moved] at mine
      cases mine
    | some part =>
      rw [Option.map_some, Option.bind_some, inductionHypothesis]
      refine forall_congr' fun place => ?_
      by_cases here : key label = place
      · subst here
        rw [own _ rfl, run_cons, moved, Option.bind_some, Function.update_self]
      · rw [others place here, Function.update_of_ne (Ne.symm here)]

/-- Where every state that satisfies an invariant has reached a goal or has an allowed step that
keeps the invariant and brings a measure down, an allowed run of no more steps than the measure
reaches the goal. -/
theorem exists_run_to_goal {step : State → Label → Option State}
    {allowed : State → Label → Prop} {invariant goal : State → Prop} (measure : State → Nat)
    (progress : ∀ state, invariant state → ¬ goal state → ∃ label next, allowed state label ∧
      step state label = some next ∧ invariant next ∧ measure next < measure state)
    {state : State} (initial : invariant state) :
    ∃ labels final, labels.length ≤ measure state ∧ Each step allowed state labels ∧
      run step state labels = some final ∧ invariant final ∧ goal final := by
  induction size : measure state using Nat.strongRecOn generalizing state with
  | ind bound inductionHypothesis =>
    by_cases arrived : goal state
    · exact ⟨[], state, Nat.zero_le _, trivial, rfl, initial, arrived⟩
    · obtain ⟨label, next, permitted, stepped, kept, less⟩ := progress state initial arrived
      obtain ⟨labels, final, short, each, reached, holds, there⟩ :=
        inductionHypothesis (measure next) (size ▸ less) kept rfl
      refine ⟨label :: labels, final, ?_, ⟨permitted, fun other same => ?_⟩, ?_, holds, there⟩
      · rw [List.length_cons]
        omega
      · exact Option.some.inj (stepped.symm.trans same) ▸ each
      · rw [run_cons, stepped, Option.bind_some, reached]

end PartialRun
