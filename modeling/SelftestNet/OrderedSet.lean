/-
This file is the library of sets that are ordered by keys. A set is the list of its elements in
the order of their keys, which differ, and every operation is a matter of cutting the list at a
key: the elements below it, at most one element with it, and the elements above it (`Cut`). Code
that searches a tree arrives at such a cut, since the labels to the left of its path are below
the key and those to the right of it above, and a step down keeps this.
-/

import Mathlib.Data.List.Pairwise
import Mathlib.Order.Lattice
import SelftestNet.TreePath

/-! ### Cuts -/

variable {Element Key : Type} [LinearOrder Key] {key : Element → Key} {point : Key}
  {lower middle upper : List Element}

/-- The keys ascend. -/
def Ascending (key : Element → Key) (elements : List Element) : Prop :=
  elements.Pairwise fun first second => key first < key second

/-- The keys of the lower elements are below a key, and those of the upper elements above it. -/
structure Cut (key : Element → Key) (point : Key) (lower upper : List Element) : Prop where
  below : ∀ element ∈ lower, key element < point
  above : ∀ element ∈ upper, point < key element

/-- The comparison function tells the order of the keys. -/
structure Compares (cmp : Element → Element → Int) (key : Element → Key) : Prop where
  neg_iff : ∀ first second, cmp first second < 0 ↔ key first < key second
  pos_iff : ∀ first second, 0 < cmp first second ↔ key second < key first

theorem Compares.eq_of_not_lt {cmp : Element → Element → Int} (compares : Compares cmp key)
    {first second : Element} (notNeg : ¬cmp first second < 0) (notPos : ¬0 < cmp first second) :
    key second = key first := by
  rw [compares.neg_iff, not_lt] at notNeg
  rw [compares.pos_iff, not_lt] at notPos
  exact le_antisymm notNeg notPos

theorem ascending_append :
    Ascending key (lower ++ upper) ↔ Ascending key lower ∧ Ascending key upper ∧
      ∀ first ∈ lower, ∀ second ∈ upper, key first < key second := List.pairwise_append

theorem ascending_cons {element : Element} :
    Ascending key (element :: upper) ↔
      (∀ other ∈ upper, key element < key other) ∧ Ascending key upper := List.pairwise_cons

theorem ascending_map {Label : Type} {element : Label → Element} {labels : List Label} :
    Ascending key (labels.map element) ↔ Ascending (key ∘ element) labels := List.pairwise_map

theorem cut_map {Label : Type} {element : Label → Element} {first last : List Label} :
    Cut key point (first.map element) (last.map element) ↔
      Cut (key ∘ element) point first last := by
  constructor
  · exact fun cut => ⟨fun label inside => cut.below _ (List.mem_map_of_mem inside),
      fun label inside => cut.above _ (List.mem_map_of_mem inside)⟩
  · exact fun cut => ⟨List.forall_mem_map.mpr cut.below, List.forall_mem_map.mpr cut.above⟩

theorem Cut.nil (key : Element → Key) (point : Key) : Cut key point [] [] :=
  ⟨fun _ inside => absurd inside List.not_mem_nil, fun _ inside => absurd inside List.not_mem_nil⟩

/-- No element of a cut has its key. -/
theorem Cut.not_mem {element : Element} (cut : Cut key (key element) lower upper) :
    element ∉ lower ++ upper := by
  intro inside
  rcases List.mem_append.mp inside with below | above
  · exact lt_irrefl _ (cut.below element below)
  · exact lt_irrefl _ (cut.above element above)

/-- The cut of a list at the key of an element. -/
theorem Ascending.cut {element : Element} (ascending : Ascending key (lower ++ element :: upper)) :
    Cut key (key element) lower upper := by
  obtain ⟨-, last, apart⟩ := ascending_append.mp ascending
  exact ⟨fun other inside => apart other inside element List.mem_cons_self,
    (ascending_cons.mp last).1⟩

theorem Cut.insert {element : Element} (cut : Cut key (key element) lower upper)
    (ascending : Ascending key (lower ++ upper)) : Ascending key (lower ++ element :: upper) := by
  obtain ⟨first, last, apart⟩ := ascending_append.mp ascending
  refine ascending_append.mpr ⟨first, ascending_cons.mpr ⟨cut.above, last⟩, ?_⟩
  intro other inside second member
  rcases List.mem_cons.mp member with rfl | above
  · exact cut.below other inside
  · exact apart other inside second above

/-- An element with a greater key is above. -/
theorem Cut.cons_above {element : Element} (cut : Cut key point lower upper)
    (greater : point < key element) : Cut key point lower (element :: upper) :=
  ⟨cut.below, List.forall_mem_cons.mpr ⟨greater, cut.above⟩⟩

/-- An element with a smaller key is below. -/
theorem Cut.append_below {element : Element} (cut : Cut key point lower upper)
    (smaller : key element < point) : Cut key point (lower ++ [element]) upper := by
  refine ⟨fun other inside => ?_, cut.above⟩
  rcases List.mem_append.mp inside with below | here
  · exact cut.below other below
  · rwa [List.mem_singleton.mp here]

theorem Cut.filter_lt (cut : Cut key point lower upper)
    (equal : ∀ element ∈ middle, key element = point) :
    (lower ++ (middle ++ upper)).filter (key · < point) = lower := by
  rw [List.filter_append, List.filter_append, List.filter_eq_self.mpr, List.filter_eq_nil_iff.mpr,
    List.filter_eq_nil_iff.mpr, List.append_nil, List.append_nil]
  · intro element inside
    exact not_lt_of_gt (cut.above element inside) ∘ of_decide_eq_true
  · intro element inside
    exact (equal element inside).not_lt ∘ of_decide_eq_true
  · exact fun element inside => decide_eq_true (cut.below element inside)

theorem Cut.filter_gt (cut : Cut key point lower upper)
    (equal : ∀ element ∈ middle, key element = point) :
    (lower ++ (middle ++ upper)).filter (point < key ·) = upper := by
  rw [List.filter_append, List.filter_append, List.filter_eq_nil_iff.mpr,
    List.filter_eq_nil_iff.mpr, List.filter_eq_self.mpr, List.nil_append, List.nil_append]
  · exact fun element inside => decide_eq_true (cut.above element inside)
  · intro element inside
    exact (equal element inside).not_gt ∘ of_decide_eq_true
  · intro element inside
    exact not_lt_of_gt (cut.below element inside) ∘ of_decide_eq_true

/-- A cut at a key that no element has. -/
theorem Cut.find_eq_none (cut : Cut key point lower upper) :
    (lower ++ upper).find? (key · = point) = none := by
  refine List.find?_eq_none.mpr fun element member same => ?_
  rcases List.mem_append.mp member with inside | inside
  · exact (cut.below element inside).ne (of_decide_eq_true same)
  · exact (cut.above element inside).ne (of_decide_eq_true same).symm

/-- A cut at the key of an element. -/
theorem Cut.find_eq_some {element : Element} (cut : Cut key (key element) lower upper) :
    (lower ++ element :: upper).find? (key · = key element) = some element := by
  rw [List.find?_append, List.find?_eq_none.mpr, Option.none_or, List.find?_cons_of_pos]
  · exact decide_eq_true rfl
  · exact fun other inside same => (cut.below other inside).ne (of_decide_eq_true same)

/-! ### Sets -/

/-- A set with its elements in the order of their keys. -/
@[ext]
structure OrderedSet (key : Element → Key) where
  elements : List Element
  ascending : Ascending key elements

namespace OrderedSet

/-- The empty set. -/
def empty (key : Element → Key) : OrderedSet key := ⟨[], List.Pairwise.nil⟩

/-- The elements below a key. -/
def below (set : OrderedSet key) (point : Key) : List Element :=
  set.elements.filter (key · < point)

/-- The elements above a key. -/
def above (set : OrderedSet key) (point : Key) : List Element :=
  set.elements.filter (point < key ·)

/-- The element with a key. -/
def find (set : OrderedSet key) (point : Key) : Option Element :=
  set.elements.find? (key · = point)

theorem cut (set : OrderedSet key) (point : Key) : Cut key point (set.below point) (set.above point) :=
  ⟨fun _ inside => of_decide_eq_true (List.mem_filter.mp inside).2,
    fun _ inside => of_decide_eq_true (List.mem_filter.mp inside).2⟩

theorem ascending_below_above (set : OrderedSet key) (point : Key) :
    Ascending key (set.below point ++ set.above point) := by
  refine ascending_append.mpr ⟨set.ascending.filter _, set.ascending.filter _, ?_⟩
  intro first inside second member
  exact ((set.cut point).below first inside).trans ((set.cut point).above second member)

theorem length_below_add_above_le (set : OrderedSet key) (point : Key) :
    (set.below point).length + (set.above point).length ≤ set.elements.length := by
  unfold below above
  induction set.elements with
  | nil => exact Nat.le_refl 0
  | cons element rest inductionHypothesis =>
    rw [List.filter_cons, List.filter_cons, List.length_cons]
    by_cases less : key element < point
    · rw [if_pos (decide_eq_true less), if_neg (less.asymm ∘ of_decide_eq_true), List.length_cons]
      omega
    · rw [if_neg (less ∘ of_decide_eq_true)]
      split
      · rw [List.length_cons]
        omega
      · omega

/-- Insert an element unless there is one with its key, which is the result then. -/
def insert (set : OrderedSet key) (element : Element) : OrderedSet key × Option Element :=
  match set.find (key element) with
  | some old => (set, some old)
  | none => (⟨set.below (key element) ++ element :: set.above (key element),
      (set.cut _).insert (set.ascending_below_above _)⟩, none)

/-- Erase the element with a key. -/
def erase (set : OrderedSet key) (point : Key) : OrderedSet key :=
  ⟨set.below point ++ set.above point, set.ascending_below_above point⟩

/-- The element with the next key. -/
def next (set : OrderedSet key) (point : Key) : Option Element := (set.above point).head?

/-- The element with the least key. -/
def least (set : OrderedSet key) : Option Element := set.elements.head?

/-- The element with the greatest key. -/
def greatest (set : OrderedSet key) : Option Element := set.elements.getLast?

theorem length_insert_le (set : OrderedSet key) (element : Element) :
    (set.insert element).1.elements.length ≤ set.elements.length + 1 := by
  unfold insert
  split
  · exact Nat.le_succ _
  · show (set.below _ ++ element :: set.above _).length ≤ _
    have parts := set.length_below_add_above_le (key element)
    rw [List.length_append, List.length_cons]
    omega

theorem length_erase_le (set : OrderedSet key) (point : Key) :
    (set.erase point).elements.length ≤ set.elements.length := by
  rw [erase, List.length_append]
  exact set.length_below_add_above_le point

/-! ### Operations at a cut -/

variable {set : OrderedSet key} {element : Element}

theorem insert_of_cut (cut : Cut key (key element) lower upper)
    (elements : set.elements = lower ++ upper) :
    (set.insert element).1.elements = lower ++ element :: upper ∧ (set.insert element).2 = none := by
  have none : set.find (key element) = none := by rw [find, elements, cut.find_eq_none]
  have noneEqual : ∀ other ∈ ([] : List Element), key other = key element := nofun
  have lt := cut.filter_lt noneEqual
  have gt := cut.filter_gt noneEqual
  rw [List.nil_append, ← elements] at lt gt
  rw [insert, none]
  exact ⟨congrArg₂ (fun first last => first ++ element :: last) lt gt, rfl⟩

theorem find_of_cut (elements : set.elements = lower ++ element :: upper) :
    set.find (key element) = some element := by
  rw [find, elements, (elements ▸ set.ascending : Ascending key _).cut.find_eq_some]

theorem find_eq_none_of_cut (cut : Cut key point lower upper)
    (elements : set.elements = lower ++ upper) : set.find point = none := by
  rw [find, elements, cut.find_eq_none]

theorem insert_of_find {old : Element} (found : set.find (key element) = some old) :
    set.insert element = (set, some old) := by
  rw [insert, found]

theorem erase_of_cut (elements : set.elements = lower ++ element :: upper) :
    (set.erase (key element)).elements = lower ++ upper := by
  have cut := (elements ▸ set.ascending : Ascending key _).cut
  have equal : ∀ other ∈ [element], key other = key element := by
    rintro other inside
    rw [List.mem_singleton.mp inside]
  have lt := cut.filter_lt equal
  have gt := cut.filter_gt equal
  rw [List.singleton_append, ← elements] at lt gt
  exact congrArg₂ _ lt gt

/-- Erasing a key that no element has changes nothing. -/
theorem erase_eq_self_of_cut (cut : Cut key point lower upper)
    (elements : set.elements = lower ++ upper) : set.erase point = set := by
  have noneEqual : ∀ other ∈ ([] : List Element), key other = point := nofun
  have lt := cut.filter_lt noneEqual
  have gt := cut.filter_gt noneEqual
  rw [List.nil_append, ← elements] at lt gt
  exact OrderedSet.ext ((congrArg₂ _ lt gt).trans elements.symm)

theorem above_of_cut (elements : set.elements = lower ++ element :: upper) :
    set.above (key element) = upper := by
  have cut := (elements ▸ set.ascending : Ascending key _).cut
  have equal : ∀ other ∈ [element], key other = key element := by
    rintro other inside
    rw [List.mem_singleton.mp inside]
  have gt := cut.filter_gt equal
  rwa [List.singleton_append, ← elements] at gt

theorem next_of_cut (elements : set.elements = lower ++ element :: upper) :
    set.next (key element) = upper.head? := congrArg List.head? (above_of_cut elements)

/-! ### Calls on several sets -/

/-- A call on one of several sets, which have names. -/
inductive Call (Name Element : Type)
  | init (name : Name)
  | insert (name : Name) (element : Element)
  | remove (name : Name) (element : Element)
  | find (name : Name) (element : Element)
  | next (name : Name) (element : Element)
  | least (name : Name)
  | greatest (name : Name)
  | walk (name : Name)

/-- The set that a call is on. -/
def Call.name {Name : Type} : Call Name Element → Name
  | init name => name
  | insert name _ => name
  | remove name _ => name
  | find name _ => name
  | next name _ => name
  | least name => name
  | greatest name => name
  | walk name => name

/-- What a call answers. -/
inductive Answer (Element : Type)
  | nothing
  | element (element : Option Element)
  | elements (elements : List Element)

variable {Name : Type} [DecidableEq Name]

/-- The sets after a call, and its answer; a removal answers with its argument when an element with
its key has been removed. -/
def call (sets : Name → OrderedSet key) :
    Call Name Element → (Name → OrderedSet key) × Answer Element
  | .init name => (Function.update sets name (empty key), .nothing)
  | .insert name element =>
    (Function.update sets name ((sets name).insert element).1,
      .element ((sets name).insert element).2)
  | .remove name element =>
    (Function.update sets name ((sets name).erase (key element)),
      .element (((sets name).find (key element)).map fun _ => element))
  | .find name element => (sets, .element ((sets name).find (key element)))
  | .next name element => (sets, .element ((sets name).next (key element)))
  | .least name => (sets, .element (sets name).least)
  | .greatest name => (sets, .element (sets name).greatest)
  | .walk name => (sets, .elements (sets name).elements)

/-- A call changes only the set that it is on. -/
theorem call_of_ne (sets : Name → OrderedSet key) (next : Call Name Element) {other : Name}
    (different : other ≠ next.name) : (call sets next).1 other = sets other := by
  cases next with
  | init | insert | remove => exact Function.update_of_ne different ..
  | find | next | least | greatest | walk => rfl

/-- One call after others, with all answers. -/
def step (state : (Name → OrderedSet key) × List (Answer Element)) (next : Call Name Element) :
    (Name → OrderedSet key) × List (Answer Element) :=
  ((call state.1 next).1, state.2 ++ [(call state.1 next).2])

/-- The sets after calls on empty sets, and all answers. -/
def specified (key : Element → Key) (calls : List (Call Name Element)) :
    (Name → OrderedSet key) × List (Answer Element) :=
  calls.foldl step ((fun _ => empty key), [])

/-! ### Sets of numbers -/

/-- The comparison of elements that are their own keys. -/
def compareNat (first second : Nat) : Int := first - second

theorem compares_compareNat : Compares compareNat (id : Nat → Nat) :=
  ⟨fun first second => by simp only [compareNat, id]; omega,
    fun first second => by simp only [compareNat, id]; omega⟩

/-- Calls that change two sets. -/
def mixedCalls : List (Call Bool Nat) :=
  [.insert true 3, .insert true 1, .insert false 2, .insert true 4, .remove true 3, .next true 1,
    .greatest false, .walk true]

end OrderedSet

namespace TreePath

open BinaryTree

variable {Label : Type} {key : Label → Key}

/-! ### Searching in a tree -/

theorem ascending_plug {path : List (Frame Label)} {label : Label} {left right : BinaryTree Label}
    (ascending : Ascending key (plug path (node label left right)).inorder) :
    Cut key (key label) (before path ++ left.inorder) (right.inorder ++ after path) := by
  rw [inorder_plug, inorder_node, List.append_assoc, List.cons_append, ← List.append_assoc]
    at ascending
  exact ascending.cut

/-- The way to the left of a greater key. -/
theorem cut_left {path : List (Frame Label)} {label : Label} {left right : BinaryTree Label}
    (ascending : Ascending key (plug path (node label left right)).inorder)
    (cut : Cut key point (before path) (after path)) (less : point < key label) :
    Cut key point (before (⟨.left, label, right⟩ :: path))
      (after (⟨.left, label, right⟩ :: path)) := by
  refine ⟨cut.below, fun other member => ?_⟩
  rcases List.mem_cons.mp member with rfl | above
  · exact less
  · exact less.trans ((ascending_plug ascending).above other above)

/-- The way to the right of a smaller key. -/
theorem cut_right {path : List (Frame Label)} {label : Label} {left right : BinaryTree Label}
    (ascending : Ascending key (plug path (node label left right)).inorder)
    (cut : Cut key point (before path) (after path)) (greater : key label < point) :
    Cut key point (before (⟨.right, label, left⟩ :: path))
      (after (⟨.right, label, left⟩ :: path)) := by
  refine ⟨fun other member => ?_, cut.above⟩
  rw [before, ← List.append_assoc] at member
  rcases List.mem_append.mp member with below | here
  · exact ((ascending_plug ascending).below other below).trans greater
  · rw [List.mem_singleton.mp here]
    exact greater

end TreePath
