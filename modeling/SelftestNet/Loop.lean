/-
This file is the library of loops whose turns are counted. The body of a loop says of
every state whether the loop goes on, and from where, or ends, and with what; it is
undefined where the program it models performs an access its language leaves undefined.
The loop itself is given a number of turns and is undefined when these do not suffice, so
that a defined loop is one that ends. The one rule for it is the usual one: an invariant,
and a variant that every turn decreases.
-/

import Mathlib.Order.Basic

namespace Loop

variable {State Result : Type}

/-- What a turn of a loop leads to: another turn, or the end of the loop. -/
inductive Turn (State Result : Type)
  | again (state : State)
  | done (result : Result)

/-- The loop, within the given number of turns. -/
def loop (body : State → Option (Turn State Result)) : Nat → State → Option Result
  | 0, _ => none
  | turns + 1, state => (body state).bind fun
    | .again next => loop body turns next
    | .done result => some result

theorem loop_again {body : State → Option (Turn State Result)} {state next : State}
    (turn : body state = some (.again next)) (turns : Nat) :
    loop body (turns + 1) state = loop body turns next := by
  rw [loop, turn, Option.bind_some]

theorem loop_done {body : State → Option (Turn State Result)} {state : State} {result : Result}
    (turn : body state = some (.done result)) (turns : Nat) :
    loop body (turns + 1) state = some result := by
  rw [loop, turn, Option.bind_some]

/-- A loop whose turns keep an invariant, with ever fewer turns left, ends within them and with a
result that the last turn vouches for. -/
theorem loop_spec {body : State → Option (Turn State Result)} (invariant : Nat → State → Prop)
    (property : Result → Prop)
    (turn : ∀ left state, invariant left state →
      (∃ next fewer, body state = some (.again next) ∧ fewer < left ∧ invariant fewer next) ∨
      ∃ result, body state = some (.done result) ∧ property result)
    {left : Nat} {state : State} (initial : invariant left state) {turns : Nat}
    (enough : left < turns) : ∃ result, loop body turns state = some result ∧ property result := by
  induction turns generalizing left state with
  | zero => exact absurd enough (Nat.not_lt_zero _)
  | succ turns inductionHypothesis =>
    rcases turn left state initial with ⟨next, fewer, again, less, kept⟩ | ⟨result, done, holds⟩
    · rw [loop_again again]
      exact inductionHypothesis kept (Nat.lt_of_lt_of_le less (Nat.lt_succ_iff.mp enough))
    · exact ⟨result, loop_done done turns, holds⟩

/-- The loop, with the turns that it has left for others. -/
def spend (body : State → Option (Turn State Result)) : Nat → State → Option (Result × Nat)
  | 0, _ => none
  | turns + 1, state => (body state).bind fun
    | .again next => spend body turns next
    | .done result => some (result, turns)

theorem spend_again {body : State → Option (Turn State Result)} {state next : State}
    (turn : body state = some (.again next)) (turns : Nat) :
    spend body (turns + 1) state = spend body turns next := by
  rw [spend, turn, Option.bind_some]

theorem spend_done {body : State → Option (Turn State Result)} {state : State} {result : Result}
    (turn : body state = some (.done result)) (turns : Nat) :
    spend body (turns + 1) state = some (result, turns) := by
  rw [spend, turn, Option.bind_some]

/-- A turn on other states. -/
def Turn.map {Other Outcome : Type} (onState : State → Other) (onResult : Result → Outcome) :
    Turn State Result → Turn Other Outcome
  | again state => again (onState state)
  | done result => done (onResult result)

/-- A loop whose turns are those of another one, on a part of its state. -/
theorem loop_map {Other Outcome : Type} {body : State → Option (Turn State Result)}
    {other : Other → Option (Turn Other Outcome)} (onState : State → Other)
    (onResult : Result → Outcome)
    (turn : ∀ state, other (onState state) = (body state).map (Turn.map onState onResult))
    (turns : Nat) (state : State) :
    loop other turns (onState state) = (loop body turns state).map onResult := by
  induction turns generalizing state with
  | zero => rfl
  | succ turns inductionHypothesis =>
    rw [loop, loop, turn]
    cases called : body state with
    | none => rfl
    | some next =>
      cases next with
      | again next => exact inductionHypothesis next
      | done result => rfl

end Loop
