/-
This file is the library of top-down splaying. A search goes down from the root, two nodes in
a turn where it goes on to the same side and one where it does not; the nodes that it leaves on
either side are hung below the last ones left there, and the node where it ends becomes the root.
How the search is directed is a parameter: it may look for a key, or go on to one side. What
splaying does is a relation that counts the turns, with one case for each kind of turn. The
turns are paid for by the logarithms of the sizes of all subtrees, up to the logarithm of the
size of the tree (`Splays.turns_le`).
-/

import Mathlib.Data.Nat.Log
import SelftestNet.TreePath

namespace Splaying

open BinaryTree TreePath

variable {Label : Type} {toward : Label → Option Direction} {side : Direction} {label : Label}
  {tree near far after : BinaryTree Label} {turns : Nat}

/-! ### Splaying -/

/-- A splayed tree with another node, and the subtree beyond it, that the search has left on the way
to the given side. -/
def graft (side : Direction) (label : Label) (tree far : BinaryTree Label) : BinaryTree Label :=
  match tree with
  | nil => join side label nil far
  | node root _ _ => join side root (tree.child side) (join side label (tree.child side.other) far)

@[simp]
theorem graft_nil (side : Direction) (label : Label) (far : BinaryTree Label) :
    graft side label nil far = join side label nil far := rfl

@[simp]
theorem graft_join (side : Direction) (label root : Label) (near inner far : BinaryTree Label) :
    graft side label (join side root near inner) far =
      join side root near (join side label inner far) := by
  cases side <;> rfl

/-- The search turns a tree into another one. It ends at a node, or below one that has no subtree
where it goes; otherwise a turn leaves one node, or two of which the lower one is turned up before. -/
inductive Splays (toward : Label → Option Direction) :
    BinaryTree Label → Nat → BinaryTree Label → Prop
  | empty : Splays toward nil 0 nil
  | here {label : Label} {left right : BinaryTree Label} :
    toward label = none → Splays toward (node label left right) 1 (node label left right)
  | one {side : Direction} {label : Label} {near far after : BinaryTree Label} {turns : Nat} :
    toward label = some side → (∀ lower ∈ near.root, toward lower ≠ some side) →
      Splays toward near turns after →
      Splays toward (join side label near far) (turns + 1) (graft side label after far)
  | two {side : Direction} {upper lower : Label} {near inner far after : BinaryTree Label}
      {turns : Nat} :
    toward upper = some side → toward lower = some side → Splays toward near turns after →
      Splays toward (join side upper (join side lower near inner) far) (turns + 1)
        (graft side lower after (join side upper inner far))

theorem splays_nil (splays : Splays toward nil turns after) : turns = 0 ∧ after = nil := by
  generalize same : nil = tree at splays
  cases splays with
  | empty => exact ⟨rfl, rfl⟩
  | here => cases same
  | one => exact absurd same.symm (join_ne_nil _ _ _ _)
  | two => exact absurd same.symm (join_ne_nil _ _ _ _)

theorem exists_splays (toward : Label → Option Direction) (tree : BinaryTree Label) :
    ∃ turns after, Splays toward tree turns after := by
  -- the search skips a node in some turns, so that the subtrees are splayed along with the tree
  suffices both : (∃ turns after, Splays toward tree turns after) ∧
      ∀ side, ∃ turns after, Splays toward (tree.child side) turns after from both.1
  induction tree with
  | nil => exact ⟨⟨0, nil, .empty⟩, fun _ => ⟨0, nil, .empty⟩⟩
  | node label left right leftHypothesis rightHypothesis =>
    refine ⟨?_, fun side => by cases side <;> [exact leftHypothesis.1; exact rightHypothesis.1]⟩
    have turn : ∀ side near far, toward label = some side →
        (∃ turns after, Splays toward near turns after) →
        (∃ turns after, Splays toward (near.child side) turns after) →
        ∃ turns after, Splays toward (join side label near far) turns after := by
      rintro side near far goes ⟨turns, after, splays⟩ ⟨fewer, below, splaysBelow⟩
      cases near with
      | nil => exact ⟨_, _, .one goes nofun splays⟩
      | node lower left right =>
        by_cases same : toward lower = some side
        · obtain ⟨outer, inner, both⟩ := exists_join side lower left right
          rw [both, child_join] at splaysBelow
          rw [both]
          exact ⟨_, _, .two goes same splaysBelow⟩
        · refine ⟨_, _, .one goes (fun other root => ?_) splays⟩
          rwa [← Option.some.inj root]
    cases goes : toward label with
    | none => exact ⟨1, _, .here goes⟩
    | some side =>
      cases side with
      | left => exact turn .left left right goes leftHypothesis.1 (leftHypothesis.2 .left)
      | right => exact turn .right right left goes rightHypothesis.1 (rightHypothesis.2 .right)

/-- A turn that leaves the root goes on with the subtree. -/
theorem Splays.exists_near (splays : Splays toward (join side label near far) turns after)
    (goes : toward label = some side) (turned : ∀ lower ∈ near.root, toward lower ≠ some side) :
    ∃ fewer below, turns = fewer + 1 ∧ Splays toward near fewer below := by
  have same : ∀ {way : Direction} {other : Label} {first second : BinaryTree Label},
      join side label near far = join way other first second → toward other = some way →
        way = side ∧ first = near := by
    intro way other first second equal again
    have labels : label = other := Option.some.inj (by rw [← root_join side, equal, root_join])
    obtain rfl : way = side := Option.some.inj (by rw [← again, ← goes, labels])
    exact ⟨rfl, by rw [← child_join way other first second, ← equal, child_join]⟩
  generalize equal : join side label near far = tree at splays
  cases splays with
  | empty => exact absurd equal (join_ne_nil _ _ _ _)
  | here ends =>
    have labels : label = _ := Option.some.inj ((root_join side label near far).symm.trans
      (congrArg root equal))
    rw [← labels, goes] at ends
    cases ends
  | one again _ splays =>
    obtain ⟨-, rfl⟩ := same equal again
    exact ⟨_, _, rfl, splays⟩
  | two again further splays =>
    obtain ⟨rfl, rfl⟩ := same equal again
    exact absurd further (turned _ (root_join ..))

/-! ### Where the search ends -/

theorem inorder_graft (side : Direction) (label : Label) (tree far : BinaryTree Label) :
    (graft side label tree far).inorder = (join side label tree far).inorder := by
  cases tree with
  | nil => rfl
  | node root left right =>
    obtain ⟨near, inner, same⟩ := exists_join side root left right
    rw [same, graft_join, inorder_rotate]

theorem child_graft (side : Direction) (label : Label) (tree far : BinaryTree Label) :
    (graft side label tree far).child side = tree.child side := by
  cases tree with
  | nil => exact child_join side label nil far
  | node root left right => exact child_join side root _ _

theorem child_other_graft (side : Direction) (label : Label) (tree far : BinaryTree Label) :
    (graft side label tree far).child side.other = far ∨
      (graft side label tree far).child side.other = join side label (tree.child side.other) far := by
  cases tree with
  | nil => exact Or.inl (child_other_join side label nil far)
  | node root left right => exact Or.inr (child_other_join side root _ _)

theorem graft_ne_nil (side : Direction) (label : Label) (tree far : BinaryTree Label) :
    graft side label tree far ≠ nil := by
  cases tree with
  | nil => exact join_ne_nil side label nil far
  | node root left right => exact join_ne_nil side root _ _

/-- Splaying keeps the labels in order. -/
theorem Splays.inorder_eq (splays : Splays toward tree turns after) :
    after.inorder = tree.inorder := by
  have below : ∀ side label {near other : BinaryTree Label} far, other.inorder = near.inorder →
      (join side label other far).inorder = (join side label near far).inorder := by
    intro side label near other far same
    cases side <;> simp only [join, inorder_node, same]
  induction splays with
  | empty => rfl
  | here => rfl
  | one goes turned splays inductionHypothesis => rw [inorder_graft, below _ _ _ inductionHypothesis]
  | two goes again splays inductionHypothesis =>
    rw [inorder_graft, below _ _ _ inductionHypothesis, inorder_rotate]

theorem Splays.numNodes_eq (splays : Splays toward tree turns after) :
    after.numNodes = tree.numNodes := by
  rw [← length_inorder, ← length_inorder, splays.inorder_eq]

theorem Splays.ne_nil (splays : Splays toward tree turns after) (some : tree ≠ nil) :
    after ≠ nil := by
  cases splays with
  | empty => exact absurd rfl some
  | here => exact nofun
  | one => exact graft_ne_nil _ _ _ _
  | two => exact graft_ne_nil _ _ _ _

theorem Splays.exists_node (splays : Splays toward tree turns after) (some : tree ≠ nil) :
    ∃ label left right, after = node label left right := by
  cases after with
  | nil => exact absurd rfl (splays.ne_nil some)
  | node label left right => exact ⟨label, left, right, rfl⟩

/-- The search goes to the right at all labels before its end and to the left at all after it. -/
def Guided (toward : Label → Option Direction) (tree : BinaryTree Label) : Prop :=
  tree.inorder.Pairwise fun first second =>
    toward first = some .right ∨ toward second = some .left

theorem guided_join (side : Direction) (label : Label) (near far : BinaryTree Label)
    (guided : Guided toward (join side label near far)) :
    Guided toward near ∧ Guided toward far ∧
      (toward label = some side → ∀ other ∈ far.inorder, toward other = some side) := by
  cases side with
  | left =>
    obtain ⟨first, last, -⟩ := List.pairwise_append.mp guided
    obtain ⟨beyond, last⟩ := List.pairwise_cons.mp last
    refine ⟨first, last, fun goes other inside => (beyond other inside).resolve_left ?_⟩
    exact fun right => nomatch goes.symm.trans right
  | right =>
    obtain ⟨first, last, beyond⟩ := List.pairwise_append.mp guided
    refine ⟨(List.pairwise_cons.mp last).2, first, fun goes other inside => ?_⟩
    refine (beyond other inside label List.mem_cons_self).resolve_right ?_
    exact fun left => nomatch goes.symm.trans left

/-- The labels that the search has left on a side are those from which it goes to the other one. -/
theorem Splays.toward_child (splays : Splays toward tree turns after)
    (guided : Guided toward tree) (side : Direction) :
    ∀ label ∈ (after.child side).inorder, toward label = some side.other := by
  have hung : ∀ (way : Direction) (label : Label) (below far : BinaryTree Label),
      toward label = some way → (∀ other ∈ far.inorder, toward other = some way) →
      (∀ side, ∀ other ∈ (below.child side).inorder, toward other = some side.other) →
      ∀ side, ∀ other ∈ ((graft way label below far).child side).inorder,
        toward other = some side.other := by
    intro way label below far goes beyond above side other inside
    rcases eq_or_ne side way with rfl | different
    · rw [child_graft] at inside
      exact above side other inside
    · obtain rfl := Direction.eq_other_of_ne different
      rw [Direction.other_other]
      rcases child_other_graft way label below far with same | same
      · exact beyond other (same ▸ inside)
      · rw [same, (inorder_join_perm way label _ _).mem_iff, List.mem_cons, List.mem_append] at inside
        rcases inside with rfl | inner | outer
        · exact goes
        · rw [← Direction.other_other way]
          exact above way.other other inner
        · exact beyond other outer
  induction splays generalizing side with
  | empty => exact nofun
  | @here label left right ends =>
    cases side with
    | left =>
      intro other inside
      have order := (List.pairwise_append.mp guided).2.2 other inside label List.mem_cons_self
      exact order.resolve_right fun goes => nomatch ends.symm.trans goes
    | right =>
      intro other inside
      have order := (List.pairwise_cons.mp (List.pairwise_append.mp guided).2.1).1 other inside
      exact order.resolve_left fun goes => nomatch ends.symm.trans goes
  | one goes turned splays inductionHypothesis =>
    obtain ⟨guidedNear, -, beyond⟩ := guided_join _ _ _ _ guided
    exact hung _ _ _ _ goes (beyond goes) (fun side => inductionHypothesis guidedNear side) side
  | @two way upper lower near inner far after turns goes again splays inductionHypothesis =>
    obtain ⟨guidedBelow, -, beyond⟩ := guided_join _ _ _ _ guided
    obtain ⟨guidedNear, -, between⟩ := guided_join _ _ _ _ guidedBelow
    refine hung _ _ _ _ again ?_ (fun side => inductionHypothesis guidedNear side) side
    intro other inside
    rw [(inorder_join_perm way upper inner far).mem_iff, List.mem_cons, List.mem_append] at inside
    rcases inside with rfl | inner | outer
    · exact goes
    · exact between again other inner
    · exact beyond goes other outer

/-! ### What the search has left behind -/

/-- The tree with the paths on both sides closed by the subtrees of its root; the path of the nodes
that the search has left on its way to a side is beyond the root on the other one. -/
def wrap (chains : Direction → List (Frame Label)) : BinaryTree Label → BinaryTree Label
  | nil => nil
  | node label left right => node label (plug (chains .right) left) (plug (chains .left) right)

theorem wrap_join (chains : Direction → List (Frame Label)) (side : Direction) (label : Label)
    (near far : BinaryTree Label) :
    wrap chains (join side label near far) =
      join side label (plug (chains side.other) near) (plug (chains side) far) := by
  cases side <;> rfl

theorem wrap_empty (tree : BinaryTree Label) : wrap (fun _ => []) tree = tree := by
  cases tree <;> rfl

/-- A node that is left behind before the end of the search is grafted to what comes of it. -/
theorem wrap_link (chains : Direction → List (Frame Label)) (side : Direction) (label : Label)
    (far : BinaryTree Label) (some : tree ≠ nil) :
    wrap (Function.update chains side (⟨side, label, far⟩ :: chains side)) tree =
      wrap chains (graft side label tree far) := by
  cases tree with
  | nil => exact absurd rfl some
  | node root left right =>
    obtain ⟨near, inner, same⟩ := exists_join side root left right
    rw [same, graft_join, wrap_join, wrap_join, Function.update_self,
      Function.update_of_ne (Direction.other_ne side), plug_cons]

/-- The labels of the tree with both paths, in whatever order. -/
theorem inorder_wrap_perm (chains : Direction → List (Frame Label)) (some : tree ≠ nil) :
    (wrap chains tree).inorder.Perm
      (tree.inorder ++ (labels (chains .left) ++ labels (chains .right))) := by
  classical
  cases tree with
  | nil => exact absurd rfl some
  | node root left right =>
    refine ((inorder_plug_perm _ _).append ((inorder_plug_perm _ _).cons _)).trans ?_
    refine List.perm_iff_count.mpr fun label => ?_
    simp only [inorder_node, List.count_append, List.count_cons]
    omega

/-! ### What the turns cost -/

/-- The logarithm of the size. -/
def rank (tree : BinaryTree Label) : Nat := Nat.log 2 tree.numNodes

/-- The ranks of all subtrees. -/
def potential : BinaryTree Label → Nat
  | nil => 0
  | node label left right => rank (node label left right) + potential left + potential right

theorem potential_join (side : Direction) (label : Label) (near far : BinaryTree Label) :
    potential (join side label near far) =
      rank (join side label near far) + potential near + potential far := by
  cases side with
  | left => rfl
  | right => exact Nat.add_right_comm _ _ _

theorem rank_le {small large : BinaryTree Label} (le : small.numNodes ≤ large.numNodes) :
    rank small ≤ rank large := Nat.log_mono_right le

/-- Of two disjoint parts of a tree one has a smaller rank than the tree. -/
theorem rank_add_rank_lt {first second whole : BinaryTree Label}
    (disjoint : first.numNodes + second.numNodes < whole.numNodes) (two : 2 ≤ whole.numNodes) :
    rank first + rank second < 2 * rank whole := by
  have positive : 1 ≤ rank whole := Nat.log_pos Nat.one_lt_two two
  have smaller : ∀ part other : BinaryTree Label, part.numNodes ≤ other.numNodes →
      part.numNodes + other.numNodes < whole.numNodes → rank part < rank whole := by
    intro part other le fits
    rcases Nat.eq_zero_or_pos part.numNodes with zero | some
    · rwa [rank, zero, Nat.log_zero_right]
    · -- twice the smaller part fits into the whole
      have double : rank part + 1 = Nat.log 2 (part.numNodes * 2) :=
        (Nat.log_mul_base Nat.one_lt_two some.ne').symm
      rw [← Nat.succ_le_iff, Nat.succ_eq_add_one, double]
      exact Nat.log_mono_right (by omega)
  rcases Nat.le_total first.numNodes second.numNodes with le | le
  · have less := smaller first second le disjoint
    have bound : rank second ≤ rank whole := rank_le (by omega)
    omega
  · have less := smaller second first le (by omega)
    have bound : rank first ≤ rank whole := rank_le (by omega)
    omega

/-- What a node above the end of the search adds to the potential: the rank of what the search has
left on the other side, instead of that of the subtree that it has gone to. -/
theorem potential_graft_le (side : Direction) (label : Label) (tree far : BinaryTree Label) :
    potential (graft side label tree far) + rank tree ≤
      rank (graft side label tree far) + potential tree + potential far +
        rank ((graft side label tree far).child side.other) := by
  cases tree with
  | nil =>
    have rankNil : rank (nil : BinaryTree Label) = 0 := Nat.log_zero_right 2
    rw [graft_nil, potential_join, rankNil]
    simp only [potential]
    omega
  | node root left right =>
    obtain ⟨near, inner, same⟩ := exists_join side root left right
    rw [same, graft_join, potential_join, potential_join, potential_join, child_other_join]
    omega

theorem numNodes_graft (side : Direction) (label : Label) (tree far : BinaryTree Label) :
    (graft side label tree far).numNodes = tree.numNodes + far.numNodes + 1 := by
  rw [← length_inorder, inorder_graft, length_inorder, numNodes_join]

theorem numNodes_children (tree : BinaryTree Label) (some : tree ≠ nil) (side : Direction) :
    (tree.child side).numNodes + (tree.child side.other).numNodes + 1 = tree.numNodes := by
  cases tree with
  | nil => exact absurd rfl some
  | node root left right =>
    obtain ⟨near, far, same⟩ := exists_join side root left right
    rw [same, child_join, child_other_join, numNodes_join]

/-- The turns are paid for by the potential up to six times the rank. The second bound is for a
search that does not start to the given side: a turn that leaves one node is paid for with the next
one, which goes to the other side, and then the two subtrees left are disjoint. -/
theorem Splays.turns_both (splays : Splays toward tree turns after) :
    turns + 2 * potential after ≤ 2 * potential tree + 6 * rank tree + 1 ∧
      ∀ side, (∀ root ∈ tree.root, toward root ≠ some side) →
        turns + 2 * potential after ≤
          2 * potential tree + 4 * rank tree + 2 * rank (after.child side) + 2 := by
  induction splays with
  | empty => exact ⟨Nat.zero_le _, fun _ _ => Nat.zero_le _⟩
  | here => exact ⟨by omega, fun _ _ => by omega⟩
  | @one side label near far after turns goes turned splays inductionHypothesis =>
    obtain ⟨whole, other⟩ := inductionHypothesis
    have grafted := potential_graft_le side label after far
    have sameRank : rank after = rank near := congrArg (Nat.log 2) splays.numNodes_eq
    have size : (graft side label after far).numNodes = (join side label near far).numNodes := by
      rw [numNodes_graft, numNodes_join, splays.numNodes_eq]
    have sameWhole : rank (graft side label after far) = rank (join side label near far) :=
      congrArg (Nat.log 2) size
    have nearLe : rank near ≤ rank (join side label near far) :=
      rank_le (by rw [numNodes_join]; omega)
    rw [potential_join]
    constructor
    · cases near with
      | nil =>
        obtain ⟨rfl, rfl⟩ := splays_nil splays
        have rankNil : rank (nil : BinaryTree Label) = 0 := Nat.log_zero_right 2
        rw [graft_nil, potential_join]
        simp only [potential]
        omega
      | node lower left right =>
        have children := numNodes_children _ (graft_ne_nil side label after far) side
        have apart : rank ((graft side label after far).child side) +
            rank ((graft side label after far).child side.other) <
              2 * rank (graft side label after far) := by
          refine rank_add_rank_lt (by omega) ?_
          rw [size, numNodes_join]
          simp only [numNodes]
          omega
        have sideways := other side turned
        rw [child_graft] at apart
        omega
    · intro way started
      obtain rfl : way = side.other :=
        Direction.eq_other_of_ne fun same => started label (root_join ..) (same ▸ goes)
      omega
  | @two side upper lower near inner far after turns goes again splays inductionHypothesis =>
    obtain ⟨whole, -⟩ := inductionHypothesis
    have grafted := potential_graft_le side lower after (join side upper inner far)
    have sameRank : rank after = rank near := congrArg (Nat.log 2) splays.numNodes_eq
    have size : (graft side lower after (join side upper inner far)).numNodes =
        (join side upper (join side lower near inner) far).numNodes := by
      rw [numNodes_graft, numNodes_join, numNodes_join, numNodes_join, splays.numNodes_eq]
      omega
    have sameWhole : rank (graft side lower after (join side upper inner far)) =
        rank (join side upper (join side lower near inner) far) := congrArg (Nat.log 2) size
    have nearLe : rank near ≤ rank (join side lower near inner) :=
      rank_le (by rw [numNodes_join]; omega)
    have apart : rank near + rank (join side upper inner far) <
        2 * rank (join side upper (join side lower near inner) far) := by
      refine rank_add_rank_lt ?_ ?_ <;> simp only [numNodes_join] <;> omega
    have hungLe : rank ((graft side lower after (join side upper inner far)).child side.other) ≤
        rank (graft side lower after (join side upper inner far)) := by
      have children := numNodes_children _
        (graft_ne_nil side lower after (join side upper inner far)) side
      exact rank_le (by omega)
    rw [potential_join side upper (join side lower near inner), potential_join side lower near]
    rw [potential_join side upper inner] at grafted
    refine ⟨by omega, fun way started => ?_⟩
    obtain rfl : way = side.other :=
      Direction.eq_other_of_ne fun same => started upper (root_join ..) (same ▸ goes)
    omega

/-- The turns are paid for by the potential up to six times the logarithm of the size. -/
theorem Splays.turns_le (splays : Splays toward tree turns after) :
    turns + 2 * potential after ≤ 2 * potential tree + 6 * rank tree + 1 := splays.turns_both.1

/-! ### The way to the first label -/

/-- The nodes on the way from the root to the first label. -/
def spine : BinaryTree Label → Nat
  | nil => 0
  | node _ left _ => spine left + 1

theorem spine_le_numNodes (tree : BinaryTree Label) : spine tree ≤ tree.numNodes := by
  induction tree with
  | nil => exact Nat.le_refl 0
  | node label left right leftHypothesis rightHypothesis =>
    exact Nat.succ_le_succ (leftHypothesis.trans (Nat.le_add_right _ _))

/-- A search for the first label takes a turn for every two nodes on the way to it. -/
theorem Splays.spine_le (splays : Splays toward tree turns after) {first : Label}
    {rest : List Label} (order : tree.inorder = first :: rest) (ends : toward first = none)
    (beyond : ∀ label ∈ rest, toward label = some .left) : spine tree ≤ 2 * turns := by
  -- the first label of a tree is that of its left subtree, if this is not empty
  have atRoot : ∀ (label : Label) (left right : BinaryTree Label) (rest : List Label),
      (node label left right).inorder = first :: rest →
      (∀ other ∈ rest, toward other = some .left) →
      (left = nil ∧ label = first) ∨ (toward label = some .left ∧
        ∃ rest, left.inorder = first :: rest ∧ ∀ other ∈ rest, toward other = some .left) := by
    intro label left right rest order beyond
    rw [inorder_node] at order
    rcases List.append_eq_cons_iff.mp order with ⟨empty, same⟩ | ⟨inner, leftOrder, rfl⟩
    · exact Or.inl ⟨inorder_eq_nil_iff.mp empty, (List.cons.inj same).1⟩
    · exact Or.inr ⟨beyond label (List.mem_append_right _ List.mem_cons_self), inner, leftOrder,
        fun other inside => beyond other (List.mem_append_left _ inside)⟩
  induction splays generalizing rest with
  | empty => exact Nat.zero_le _
  | @here label left right stops =>
    rcases atRoot label left right rest order beyond with ⟨rfl, -⟩ | ⟨goes, -⟩
    · exact Nat.le_succ 1
    · cases stops.symm.trans goes
  | @one side label near far after turns goes turned splays inductionHypothesis =>
    cases side with
    | left =>
      rcases atRoot label near far rest order beyond with ⟨rfl, -⟩ | ⟨-, rest, below, beyond⟩
      · show 1 ≤ _
        omega
      · have bound := inductionHypothesis below beyond
        show spine near + 1 ≤ _
        omega
    | right =>
      rcases atRoot label far near rest order beyond with ⟨-, rfl⟩ | ⟨left, -⟩
      · cases ends.symm.trans goes
      · cases left.symm.trans goes
  | @two side upper lower near inner far after turns goes again splays inductionHypothesis =>
    cases side with
    | left =>
      rcases atRoot upper _ far rest order beyond with ⟨empty, -⟩ | ⟨-, rest, below, beyond⟩
      · cases empty
      · rcases atRoot lower near inner rest below beyond with ⟨-, rfl⟩ | ⟨-, rest, below, beyond⟩
        · cases ends.symm.trans again
        · have bound := inductionHypothesis below beyond
          show spine near + 1 + 1 ≤ _
          omega
    | right =>
      rcases atRoot upper far _ rest order beyond with ⟨-, rfl⟩ | ⟨left, -⟩
      · cases ends.symm.trans goes
      · cases left.symm.trans goes

end Splaying
