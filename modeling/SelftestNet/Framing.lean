/-
This file is the library of framing. A format of length-prefixed frames says how long a header
is and how the length of a payload is read from it; the reference parser cuts a
stream into payloads. The result that everything else rests on is that parsing is
independent of fragmentation: once some frames of a stream are complete, parsing the
stream and whatever arrives later is taking those frames and parsing what follows
them (`parse_append`). Frames that end with a delimiter are told apart when it is in none
of them.
-/

import Mathlib.Algebra.Order.Group.Nat
import Mathlib.Data.List.Basic

namespace Framing

variable {Cell : Type}

/-- A length-prefixed format: a header of fixed positive length determines how many cells of
payload follow it. -/
structure Format (Cell : Type) where
  headerLen : Nat
  headerLen_pos : 0 < headerLen
  payloadLen : List Cell → Nat

/-! ### One frame -/

/-- The payload of the frame at the front of the stream and the cells behind it, when the frame
is complete. -/
def nextFrame (format : Format Cell) (stream : List Cell) : Option (List Cell × List Cell) :=
  let size := format.payloadLen (stream.take format.headerLen)
  let body := stream.drop format.headerLen
  if format.headerLen ≤ stream.length ∧ size ≤ body.length then
    some (body.take size, body.drop size)
  else none

theorem nextFrame_eq_some_iff (format : Format Cell) (stream payload rest : List Cell) :
    nextFrame format stream = some (payload, rest) ↔
      ∃ header, header.length = format.headerLen ∧
        format.payloadLen header = payload.length ∧ stream = header ++ payload ++ rest := by
  simp only [nextFrame, Option.ite_none_right_eq_some, Option.some.injEq, Prod.mk.injEq]
  constructor
  · rintro ⟨⟨headerFits, payloadFits⟩, rfl, rfl⟩
    refine ⟨stream.take format.headerLen, List.length_take_of_le headerFits,
      (List.length_take_of_le payloadFits).symm, ?_⟩
    rw [List.append_assoc, List.take_append_drop, List.take_append_drop]
  · rintro ⟨header, headerLength, payloadLength, rfl⟩
    have front : (header ++ payload ++ rest).take format.headerLen = header := by
      rw [List.append_assoc, ← headerLength, List.take_left]
    have back : (header ++ payload ++ rest).drop format.headerLen = payload ++ rest := by
      rw [List.append_assoc, ← headerLength, List.drop_left]
    rw [front, back, payloadLength, List.take_left, List.drop_left]
    simp only [List.length_append, and_self, and_true]
    omega

/-- A complete frame stays complete, and the same, whatever arrives behind it. -/
theorem nextFrame_append (format : Format Cell) {stream payload rest : List Cell}
    (frame : nextFrame format stream = some (payload, rest)) (later : List Cell) :
    nextFrame format (stream ++ later) = some (payload, rest ++ later) := by
  obtain ⟨header, headerLength, payloadLength, rfl⟩ :=
    (nextFrame_eq_some_iff format stream payload rest).mp frame
  refine (nextFrame_eq_some_iff _ _ _ _).mpr ⟨header, headerLength, payloadLength, ?_⟩
  rw [List.append_assoc _ rest]

theorem nextFrame_length (format : Format Cell) {stream payload rest : List Cell}
    (frame : nextFrame format stream = some (payload, rest)) :
    stream.length = format.headerLen + payload.length + rest.length := by
  obtain ⟨header, headerLength, -, rfl⟩ :=
    (nextFrame_eq_some_iff format stream payload rest).mp frame
  rw [List.length_append, List.length_append, headerLength]

/-- A stream without a complete frame is shorter than the longest one. -/
theorem length_lt_of_nextFrame_none (format : Format Cell) {stream : List Cell} {bound : Nat}
    (none : nextFrame format stream = none)
    (bounded : format.payloadLen (stream.take format.headerLen) ≤ bound) :
    stream.length < format.headerLen + bound := by
  have positive := format.headerLen_pos
  simp only [nextFrame, ite_eq_right_iff, List.length_drop, reduceCtorEq, imp_false,
    not_and] at none
  omega

/-! ### The reference parser -/

/-- The payloads of at most `fuel` frames of the stream. -/
def parseWithin (format : Format Cell) : Nat → List Cell → List (List Cell)
  | 0, _ => []
  | fuel + 1, stream =>
    match nextFrame format stream with
    | none => []
    | some (payload, rest) => payload :: parseWithin format fuel rest

/-- The payloads of the complete frames of a stream, in order. -/
def parse (format : Format Cell) (stream : List Cell) : List (List Cell) :=
  parseWithin format stream.length stream

/-- The stream behind its first `count` frames. -/
def dropFrames (format : Format Cell) : Nat → List Cell → List Cell
  | 0, stream => stream
  | count + 1, stream =>
    match nextFrame format stream with
    | none => stream
    | some (_, rest) => dropFrames format count rest

/-- The cells of a stream behind its last complete frame. -/
def remainder (format : Format Cell) (stream : List Cell) : List Cell :=
  dropFrames format (parse format stream).length stream

/-- Fuel for every cell of the stream is enough. -/
theorem parseWithin_eq (format : Format Cell) {fuel : Nat} {stream : List Cell}
    (enough : stream.length ≤ fuel) : parseWithin format fuel stream = parse format stream := by
  induction fuel using Nat.strong_induction_on generalizing stream with
  | _ fuel inductionHypothesis =>
    have positive := format.headerLen_pos
    rcases frame : nextFrame format stream with _ | ⟨payload, rest⟩
    · cases fuel <;> cases size : stream.length <;> simp only [parse, size, parseWithin, frame]
    · have size := nextFrame_length format frame
      obtain ⟨fuel, rfl⟩ : ∃ less, fuel = less + 1 := ⟨fuel - 1, by omega⟩
      obtain ⟨length, lengthEq⟩ : ∃ less, stream.length = less + 1 :=
        ⟨stream.length - 1, by omega⟩
      simp only [parse, lengthEq, parseWithin, frame]
      rw [inductionHypothesis fuel (by omega) (by omega)]
      rcases Nat.lt_or_ge length (fuel + 1) with less | more
      · rw [inductionHypothesis length less (by omega)]
      · omega

theorem parse_of_none (format : Format Cell) {stream : List Cell}
    (frame : nextFrame format stream = none) : parse format stream = [] := by
  unfold parse
  cases stream.length <;> simp only [parseWithin, frame]

theorem parse_of_some (format : Format Cell) {stream payload rest : List Cell}
    (frame : nextFrame format stream = some (payload, rest)) :
    parse format stream = payload :: parse format rest := by
  have size := nextFrame_length format frame
  have positive := format.headerLen_pos
  rw [← parseWithin_eq format (Nat.le_succ stream.length)]
  simp only [parseWithin, frame]
  rw [parseWithin_eq format (by omega)]

theorem parse_eq_nil_iff (format : Format Cell) (stream : List Cell) :
    parse format stream = [] ↔ nextFrame format stream = none := by
  rcases frame : nextFrame format stream with _ | ⟨payload, rest⟩
  · simp only [parse_of_none format frame]
  · simp only [parse_of_some format frame, reduceCtorEq]

theorem dropFrames_of_some (format : Format Cell) {stream payload rest : List Cell}
    (frame : nextFrame format stream = some (payload, rest)) (count : Nat) :
    dropFrames format (count + 1) stream = dropFrames format count rest := by
  simp only [dropFrames, frame]

theorem dropFrames_of_none (format : Format Cell) {stream : List Cell}
    (frame : nextFrame format stream = none) (count : Nat) :
    dropFrames format count stream = stream := by
  cases count with
  | zero => rfl
  | succ count => simp only [dropFrames, frame]

/-- Dropping frames and then more frames is dropping them all. -/
theorem dropFrames_add (format : Format Cell) (count more : Nat) (stream : List Cell) :
    dropFrames format (count + more) stream =
      dropFrames format more (dropFrames format count stream) := by
  induction count generalizing stream with
  | zero => rw [Nat.zero_add, dropFrames]
  | succ count inductionHypothesis =>
    rcases frame : nextFrame format stream with _ | ⟨payload, rest⟩
    · simp only [dropFrames_of_none format frame]
    · rw [Nat.succ_add, dropFrames_of_some format frame, dropFrames_of_some format frame,
        inductionHypothesis]

/-- A stream has at most one frame exactly when none follows the first. -/
theorem length_parse_le_one_iff (format : Format Cell) (stream : List Cell) :
    (parse format stream).length ≤ 1 ↔
      nextFrame format (dropFrames format 1 stream) = none := by
  rcases frame : nextFrame format stream with _ | ⟨payload, rest⟩
  · rw [parse_of_none format frame, dropFrames_of_none format frame]
    exact iff_of_true (Nat.zero_le _) frame
  · rw [parse_of_some format frame, dropFrames_of_some format frame, dropFrames,
      ← parse_eq_nil_iff, List.length_cons, Nat.succ_le_succ_iff, Nat.le_zero,
      List.length_eq_zero_iff]

/-! ### Fragmentation -/

/-- Parsing is independent of fragmentation: behind any number of complete frames, parsing goes
on from where they end, whatever arrives later. -/
theorem parse_append (format : Format Cell) {count : Nat} {stream : List Cell}
    (complete : count ≤ (parse format stream).length) (later : List Cell) :
    parse format (stream ++ later) =
      (parse format stream).take count ++
        parse format (dropFrames format count stream ++ later) := by
  induction count generalizing stream with
  | zero => rfl
  | succ count inductionHypothesis =>
    rcases frame : nextFrame format stream with _ | ⟨payload, rest⟩
    · rw [parse_of_none format frame, List.length_nil] at complete
      omega
    · rw [parse_of_some format frame, List.length_cons] at complete
      rw [parse_of_some format (nextFrame_append format frame later), parse_of_some format frame,
        dropFrames_of_some format frame, inductionHypothesis (by omega), List.take_succ_cons,
        List.cons_append]

theorem dropFrames_append (format : Format Cell) {count : Nat} {stream : List Cell}
    (complete : count ≤ (parse format stream).length) (later : List Cell) :
    dropFrames format count (stream ++ later) = dropFrames format count stream ++ later := by
  induction count generalizing stream with
  | zero => rfl
  | succ count inductionHypothesis =>
    rcases frame : nextFrame format stream with _ | ⟨payload, rest⟩
    · rw [parse_of_none format frame, List.length_nil] at complete
      omega
    · rw [parse_of_some format frame, List.length_cons] at complete
      rw [dropFrames_of_some format (nextFrame_append format frame later),
        dropFrames_of_some format frame, inductionHypothesis (by omega)]

/-- The frames of a stream from the `count`-th on are the frames behind the first `count`. -/
theorem parse_dropFrames (format : Format Cell) {count : Nat} {stream : List Cell}
    (complete : count ≤ (parse format stream).length) :
    parse format (dropFrames format count stream) = (parse format stream).drop count := by
  have split := parse_append format complete []
  rw [List.append_nil, List.append_nil] at split
  have both := (List.take_append_drop count (parse format stream)).trans split
  exact (List.append_cancel_left both).symm

theorem dropFrames_succ (format : Format Cell) {count : Nat} {stream payload rest : List Cell}
    (frame : nextFrame format (dropFrames format count stream) = some (payload, rest)) :
    dropFrames format (count + 1) stream = rest := by
  rw [dropFrames_add, dropFrames_of_some format frame, dropFrames]

/-- The frame at the front of what follows the first `count` frames is the next one of the
stream. -/
theorem getElem_parse (format : Format Cell) {count : Nat} {stream : List Cell}
    (complete : count ≤ (parse format stream).length) :
    (parse format stream)[count]? =
      (nextFrame format (dropFrames format count stream)).map Prod.fst := by
  have rest := congrArg List.head? (parse_dropFrames format complete)
  rw [List.head?_drop] at rest
  rw [← rest]
  rcases frame : nextFrame format (dropFrames format count stream) with _ | ⟨payload, behind⟩
  · rw [parse_of_none format frame]
    rfl
  · rw [parse_of_some format frame]
    rfl

/-- The frames of a stream and what follows them account for its length. -/
theorem length_dropFrames (format : Format Cell) {count : Nat} {stream : List Cell}
    (complete : count ≤ (parse format stream).length) :
    count * format.headerLen + ((parse format stream).take count).flatten.length +
      (dropFrames format count stream).length = stream.length := by
  induction count generalizing stream with
  | zero =>
    rw [Nat.zero_mul, List.take_zero]
    exact Nat.zero_add _
  | succ count inductionHypothesis =>
    rcases frame : nextFrame format stream with _ | ⟨payload, rest⟩
    · rw [parse_of_none format frame, List.length_nil] at complete
      omega
    · rw [parse_of_some format frame, List.length_cons] at complete
      have behind := @inductionHypothesis rest (by omega)
      have whole := nextFrame_length format frame
      rw [parse_of_some format frame, dropFrames_of_some format frame, List.take_succ_cons,
        List.flatten_cons, List.length_append, Nat.succ_mul]
      omega

theorem parse_remainder (format : Format Cell) (stream : List Cell) :
    parse format (remainder format stream) = [] := by
  rw [remainder, parse_dropFrames format (Nat.le_refl _), List.drop_length]

/-- Parsing a stream and what arrives later is parsing the stream and then its remainder with
what arrives later. -/
theorem parse_append_remainder (format : Format Cell) (stream later : List Cell) :
    parse format (stream ++ later) =
      parse format stream ++ parse format (remainder format stream ++ later) := by
  rw [parse_append format (Nat.le_refl _), List.take_length, remainder]

theorem remainder_append (format : Format Cell) (stream later : List Cell) :
    remainder format (stream ++ later) =
      remainder format (remainder format stream ++ later) := by
  rw [remainder, parse_append_remainder, List.length_append, dropFrames_add,
    dropFrames_append format (Nat.le_refl _)]
  rfl

/-- A stream with at most one frame leaves behind what follows the first. -/
theorem remainder_of_length_le_one (format : Format Cell) {stream : List Cell}
    (short : (parse format stream).length ≤ 1) :
    remainder format stream = dropFrames format 1 stream := by
  have behind := (length_parse_le_one_iff format stream).mp short
  rcases frame : nextFrame format stream with _ | ⟨payload, rest⟩
  · rw [remainder, dropFrames_of_none format frame, dropFrames_of_none format frame]
  · rw [dropFrames_of_some format frame, dropFrames] at behind ⊢
    rw [remainder, parse_of_some format frame, parse_of_none format behind,
      List.length_singleton, dropFrames_of_some format frame, dropFrames]

/-! ### Streams of whole frames -/

/-- The cells are one frame, and nothing behind it. -/
def IsFrame (format : Format Cell) (cells : List Cell) : Prop :=
  nextFrame format cells = some (cells.drop format.headerLen, [])

theorem nextFrame_nil (format : Format Cell) : nextFrame format [] = none :=
  if_neg fun both => Nat.not_le_of_lt format.headerLen_pos both.1

theorem nextFrame_flatten (format : Format Cell) {frame : List Cell} {rest : List (List Cell)}
    (whole : IsFrame format frame) :
    nextFrame format (frame :: rest).flatten =
      some (frame.drop format.headerLen, rest.flatten) := by
  rw [List.flatten_cons, nextFrame_append format whole, List.nil_append]

/-- The frames of a stream that is made of frames are these. -/
theorem parse_flatten (format : Format Cell) {frames : List (List Cell)}
    (whole : ∀ frame ∈ frames, IsFrame format frame) :
    parse format frames.flatten = frames.map (List.drop format.headerLen) := by
  induction frames with
  | nil => exact parse_of_none format (nextFrame_nil format)
  | cons frame rest inductionHypothesis =>
    rw [parse_of_some format (nextFrame_flatten format (whole frame List.mem_cons_self)),
      inductionHypothesis fun other member => whole other (List.mem_cons_of_mem _ member),
      List.map_cons]

theorem dropFrames_flatten (format : Format Cell) {frames : List (List Cell)}
    (whole : ∀ frame ∈ frames, IsFrame format frame) (count : Nat) :
    dropFrames format count frames.flatten = (frames.drop count).flatten := by
  induction frames generalizing count with
  | nil =>
    rw [List.flatten_nil, dropFrames_of_none format (nextFrame_nil format), List.drop_nil,
      List.flatten_nil]
  | cons frame rest inductionHypothesis =>
    cases count with
    | zero => rfl
    | succ count =>
      rw [dropFrames_of_some format (nextFrame_flatten format (whole frame List.mem_cons_self)),
        inductionHypothesis (fun other member => whole other (List.mem_cons_of_mem _ member)),
        List.drop_succ_cons]

/-- What has been taken from a stream of frames, and what has arrived and will arrive behind it,
account for the frames. -/
theorem frames_accounted (format : Format Cell) {frames : List (List Cell)}
    (whole : ∀ frame ∈ frames, IsFrame format frame) {stream later : List Cell} {count : Nat}
    (complete : count ≤ (parse format stream).length) (all : stream ++ later = frames.flatten) :
    (parse format stream).take count = (frames.take count).map (List.drop format.headerLen) ∧
      dropFrames format count stream ++ later = (frames.drop count).flatten := by
  have parsed := parse_append format complete later
  have dropped := dropFrames_append format complete later
  rw [all, parse_flatten format whole] at parsed
  rw [all, dropFrames_flatten format whole] at dropped
  refine ⟨?_, dropped.symm⟩
  have taken : ((parse format stream).take count).length = count := List.length_take_of_le complete
  have front := congrArg (List.take count) parsed
  rw [List.take_left' taken, ← List.map_take] at front
  exact front.symm

/-! ### Frames that end with a delimiter -/

section Lines

variable {Item : Type} [DecidableEq Cell] {delimiter : Cell}

/-- The cells of a stream, cut at the delimiters. -/
def lines (delimiter : Cell) : List Cell → List (List Cell)
  | [] => []
  | cell :: rest =>
    if cell = delimiter then [] :: lines delimiter rest
    else
      match lines delimiter rest with
      | [] => [[cell]]
      | line :: others => (cell :: line) :: others

theorem lines_append {line : List Cell} (absent : delimiter ∉ line) (rest : List Cell) :
    lines delimiter (line ++ delimiter :: rest) = line :: lines delimiter rest := by
  induction line with
  | nil => exact if_pos rfl
  | cons cell line inductionHypothesis =>
    obtain ⟨different, absent⟩ := not_or.mp (mt List.mem_cons.mpr absent)
    rw [List.cons_append, lines, if_neg (Ne.symm different), inductionHypothesis absent]

/-- Items that are printed without the delimiter can be told apart behind it. -/
theorem lines_flatMap (print : Item → List Cell) {items : List Item}
    (absent : ∀ item ∈ items, delimiter ∉ print item) :
    lines delimiter (items.flatMap fun item => print item ++ [delimiter]) = items.map print := by
  induction items with
  | nil => rfl
  | cons item rest inductionHypothesis =>
    rw [List.flatMap_cons, List.append_assoc, List.singleton_append,
      lines_append (absent item List.mem_cons_self),
      inductionHypothesis fun other member => absent other (List.mem_cons_of_mem _ member),
      List.map_cons]

end Lines

end Framing
