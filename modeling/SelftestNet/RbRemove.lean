/-
This file proves `RB_REMOVE`. The element, or the next one in its place, is taken out where it
has at most one child; when it was black, a black node is missing there, and
`RB_REMOVE_COLOR` moves the place where it is missing up until a red node can be black instead
or a rotation makes up for it.
-/

import SelftestNet.OrderedSet
import SelftestNet.RbMemory

namespace SelftestNet

open BinaryTree LinkedTree Loop RedBlack TreePath

namespace RbHeap

variable {Address : Type} [DecidableEq Address] {heap next : RbHeap Address}
  {memory : Address → RbEntry Address} {scope order : List Address}

/-! ### `RB_REMOVE_COLOR` -/

/-- A black node is missing in the subtree of an element, which the path takes with it; a subtree
whose root is black takes one more turn than the path is long. -/
structure Lacking (memory : Address → RbEntry Address) (scope order : List Address) (left : Nat)
    (removal : Removal Address) (path : List (Frame (Address × Color)))
    (tree : BinaryTree (Address × Color)) (color : Color) (height : Nat) : Prop where
  treeAt : removal.heap.TreeAt memory scope order path tree
  parent : removal.parent = rbLayout.above path
  elm : removal.elm = rbLayout.pointer tree
  short : Short color height tree
  fits : Fits .black (height + 1) path
  length : path.length + (if color = .black then 1 else 0) = left

/-- The tree is balanced once the element is black. -/
def Repaired (memory : Address → RbEntry Address) (scope order : List Address)
    (result : RbHeap Address × Option Address) : Prop :=
  ∃ path tree, result.1.TreeAt memory scope order path tree ∧
    result.2 = rbLayout.pointer tree ∧ Sound path (blacken tree)

variable {side : Direction} {parent : Address} {parentColor : Color} {height : Nat}
  {sibling tree near far : BinaryTree (Address × Color)} {rest : List (Frame (Address × Color))}

/-- The sibling of the subtree of a child of `parent` is a black element. -/
def BlackBeside (memory : Address → RbEntry Address) (scope order : List Address)
    (side : Direction) (parent : Address) (tree : BinaryTree (Address × Color)) (height left : Nat)
    (state : RbHeap Address × Address) : Prop :=
  ∃ color near far nearColor farColor rest,
    state.1.TreeAt memory scope order
      (⟨side, (parent, color), join side (state.2, .black) near far⟩ :: rest) tree ∧
    Fits .black (height + 1)
      (⟨side, (parent, color), join side (state.2, .black) near far⟩ :: rest) ∧
    Balanced nearColor height near ∧ Balanced farColor height far ∧
    rest.length + (if color = .black then 1 else 0) ≤ left

theorem blackSibling_of_black {tmp : Address}
    (treeAt : heap.TreeAt memory scope order (⟨side, (parent, parentColor), sibling⟩ :: rest) tree)
    (fits : Fits .black (height + 1) (⟨side, (parent, parentColor), sibling⟩ :: rest))
    (pointed : rbLayout.pointer sibling = some tmp) (beside : Balanced .black (height + 1) sibling) :
    ∃ state, heap.blackSibling side parent tmp = some state ∧
      BlackBeside memory scope order side parent tree height (rest.length + 1) state := by
  obtain ⟨item, near, far, nearColor, farColor, rfl, holdsNear, holdsFar⟩ :=
    beside.exists_black_join side
  rw [Layout.pointer_join] at pointed
  obtain rfl : item = tmp := Option.some.inj pointed
  have color : heap.color item = .black := (treeAt_cons.mp treeAt).atFar.color_eq
  refine ⟨(heap, item), if_neg (by rw [color]; decide), parentColor, near, far, nearColor, farColor,
    rest, treeAt, fits, holdsNear, holdsFar, ?_⟩
  split <;> omega

/-- A red sibling gives way to one of its children. -/
theorem blackSibling_of_red {tmp : Address}
    (treeAt : heap.TreeAt memory scope order (⟨side, (parent, .black), sibling⟩ :: rest) tree)
    (pointed : rbLayout.pointer sibling = some tmp) (beside : Balanced .red (height + 1) sibling)
    (above : Fits .black (height + 1 + 1) rest) :
    ∃ state, heap.blackSibling side parent tmp = some state ∧
      BlackBeside memory scope order side parent tree height (rest.length + 1) state := by
  obtain ⟨item, inner, far, rfl⟩ := beside.exists_red_join side
  obtain ⟨-, holdsInner, holdsFar⟩ := balanced_red_join.mp beside
  rw [Layout.pointer_join] at pointed
  obtain rfl : item = tmp := Option.some.inj pointed
  have atSibling := (treeAt_cons.mp treeAt).atFar
  have color : heap.color item = .red := atSibling.color_eq
  have black := treeAt_cons.mp (atSibling.setColor .black)
  rw [join_other] at black
  obtain ⟨next, rotated, turned⟩ := (black.setColor .red).rotate
  obtain ⟨innermost, near, far', nearColor, farColor, rfl, holdsNear, holdsFar'⟩ :=
    holdsInner.exists_black_join side
  have atTree := turned.atNear.atNear
  have tmp' : next.child side.other parent = some innermost := by
    refine turned.atNear.child_other_eq.trans ?_
    rw [Layout.pointer_join]
    rfl
  refine ⟨(next, innermost), ?_, .red, near, far', nearColor, farColor, _, atTree, ?_, holdsNear,
    holdsFar', Nat.le_refl _⟩
  · rw [blackSibling, if_pos color, setBlackred]
    change (((heap.setColor item .black).setColor parent .red).rotate side parent).bind _ = _
    rw [show _ = some next from rotated, Option.bind_some, tmp']
    rfl
  · exact .red holdsInner (.black holdsFar above)

/-- Where a black node is missing, there is a sibling. -/
theorem exists_blackSibling
    (treeAt : heap.TreeAt memory scope order (⟨side, (parent, parentColor), sibling⟩ :: rest) tree)
    (fits : Fits .black (height + 1) (⟨side, (parent, parentColor), sibling⟩ :: rest)) :
    ∃ tmp, rbLayout.pointer sibling = some tmp ∧
      ∃ state, heap.blackSibling side parent tmp = some state ∧
        BlackBeside memory scope order side parent tree height (rest.length + 1) state := by
  have exists_pointer : ∀ color, Balanced color (height + 1) sibling →
      ∃ tmp, rbLayout.pointer sibling = some tmp := by
    intro color beside
    obtain ⟨label, near, far, rfl⟩ := beside.exists_join side
    exact ⟨_, rbLayout.pointer_join _ _ _ _⟩
  cases fits with
  | red beside above =>
    obtain ⟨tmp, pointed⟩ := exists_pointer _ beside
    exact ⟨tmp, pointed, blackSibling_of_black treeAt (.red beside above) pointed beside⟩
  | @black _ _ siblingColor _ _ _ _ beside above =>
    obtain ⟨tmp, pointed⟩ := exists_pointer _ beside
    cases siblingColor with
    | black => exact ⟨tmp, pointed, blackSibling_of_black treeAt (.black beside above) pointed beside⟩
    | red => exact ⟨tmp, pointed, blackSibling_of_red treeAt pointed beside above⟩

/-- An outer child of the sibling that is not black stays as it is. -/
theorem redNephew_of_red {tmp : Address}
    (treeAt : heap.TreeAt memory scope order
      (⟨side, (parent, parentColor), join side (tmp, .black) near far⟩ :: rest) tree)
    (holdsFar : Balanced .red height far) : heap.redNephew side parent tmp = some (heap, tmp) := by
  have atSibling := (treeAt_cons.mp treeAt).atFar
  refine if_neg fun black => ?_
  have outer : heap.child side.other tmp = rbLayout.pointer far := atSibling.child_other_eq
  rw [outer] at black
  exact nomatch (atSibling.atFar.isBlack_iff holdsFar).mp black

/-- A red inner child of the sibling takes its place, and makes it the outer child. -/
theorem redNephew_of_black {tmp : Address}
    (treeAt : heap.TreeAt memory scope order
      (⟨side, (parent, parentColor), join side (tmp, .black) near far⟩ :: rest) tree)
    (holdsNear : Balanced .red height near) (holdsFar : Balanced .black height far) :
    ∃ next tmp' near far, heap.redNephew side parent tmp = some (next, tmp') ∧
      next.TreeAt memory scope order
        (⟨side, (parent, parentColor), join side (tmp', .black) near far⟩ :: rest) tree ∧
      Balanced .black height near ∧ Balanced .red height far := by
  obtain ⟨item, first, second, rfl⟩ := holdsNear.exists_red_join side
  obtain ⟨-, holdsFirst, holdsSecond⟩ := balanced_red_join.mp holdsNear
  have atSibling := (treeAt_cons.mp treeAt).atFar
  have outer : heap.child side.other tmp = rbLayout.pointer far := atSibling.child_other_eq
  have black : heap.isBlack (heap.child side.other tmp) = true := by
    rw [outer]
    exact (atSibling.atFar.isBlack_iff holdsFar).mpr rfl
  have inner : heap.child side tmp = some item := by
    refine atSibling.child_eq.trans ?_
    rw [Layout.pointer_join]
    rfl
  have blackened := treeAt_cons.mp (atSibling.atNear.setColor .black)
  have reddened := blackened.setColor .red
  rw [← join_other side (tmp, Color.red), ← join_other side (item, Color.black)] at reddened
  obtain ⟨next, rotated, turned⟩ := reddened.rotate
  rw [join_other] at turned
  have atParent := treeAt_cons.mp turned
  rw [join_other] at atParent
  have tmp' : next.child side.other parent = some item := by
    refine atParent.child_other_eq.trans ?_
    rw [Layout.pointer_join]
    rfl
  refine ⟨next, item, first, _, ?_, atParent.atNear, holdsFirst,
    balanced_red_join.mpr ⟨rfl, holdsFar, holdsSecond⟩⟩
  rw [redNephew, if_pos black, inner]
  change (((heap.setColor item .black).setColor tmp .red).rotate side.other tmp).bind _ = _
  rw [show _ = some next from rotated, Option.bind_some, tmp']
  rfl

/-- The red outer child of the sibling becomes black, and makes up for the missing node. -/
theorem shareBlack_spec {tmp : Address} {nearColor : Color}
    (treeAt : heap.TreeAt memory scope order
      (⟨side, (parent, parentColor), join side (tmp, .black) near far⟩ :: rest) tree)
    (fits : Fits .black (height + 1)
      (⟨side, (parent, parentColor), join side (tmp, .black) near far⟩ :: rest))
    (balanced : Balanced .black height tree) (holdsNear : Balanced nearColor height near)
    (holdsFar : Balanced .red height far) :
    ∃ next upper, heap.shareBlack side parent tmp = some next ∧
      next.TreeAt memory scope order rest upper ∧ Sound rest upper := by
  have atParent := treeAt_cons.mp treeAt
  have color : heap.color parent = parentColor := atParent.color_eq
  have colored := treeAt_cons.mp (atParent.atFar.setColor parentColor)
  rw [join_other] at colored
  have black := colored.setColor .black
  have outer : ((heap.setColor tmp parentColor).setColor parent .black).child side.other tmp =
      rbLayout.pointer far := black.atFar.child_other_eq
  have shared := treeAt_cons.mp (treeAt_cons.mp black.atFar.atFar.blacken)
  rw [join_other, join_other] at shared
  obtain ⟨next, rotated, turned⟩ := shared.rotate
  refine ⟨next, _, ?_, turned, ?_⟩
  · rw [shareBlack, color, outer]
    exact rotated
  · refine sound_cons.mp ⟨.black, height + 1, ?_, fits.swap holdsFar.blacken_of_red⟩
    exact balanced_black_join.mpr ⟨rfl, height, _, _, rfl, balanced, holdsNear⟩

theorem removeFix_again {tmp : Address}
    (treeAt : heap.TreeAt memory scope order
      (⟨side, (parent, parentColor), join side (tmp, .black) near far⟩ :: rest) tree)
    (fits : Fits .black (height + 1)
      (⟨side, (parent, parentColor), join side (tmp, .black) near far⟩ :: rest))
    (balanced : Balanced .black height tree) (holdsNear : Balanced .black height near)
    (holdsFar : Balanced .black height far) :
    ∃ tree height,
      Lacking memory scope order (rest.length + if parentColor = .black then 1 else 0)
        ⟨heap.setColor tmp .red, (heap.setColor tmp .red).parent parent, some parent⟩ rest tree
        parentColor height := by
  have red := treeAt_cons.mp ((treeAt_cons.mp treeAt).atFar.setColor .red)
  rw [join_other] at red
  obtain ⟨upper, short, above⟩ := fits.short balanced
    (balanced_red_join.mpr ⟨rfl, holdsNear, holdsFar⟩ :
      Balanced .red height (join side (tmp, .red) near far))
  refine ⟨_, upper, red, red.parent_eq, ?_, short, above, rfl⟩
  rw [Layout.pointer_join]
  rfl

theorem removeFix_done {tmp : Address} {nearColor farColor : Color}
    (treeAt : heap.TreeAt memory scope order
      (⟨side, (parent, parentColor), join side (tmp, .black) near far⟩ :: rest) tree)
    (fits : Fits .black (height + 1)
      (⟨side, (parent, parentColor), join side (tmp, .black) near far⟩ :: rest))
    (balanced : Balanced .black height tree) (holdsNear : Balanced nearColor height near)
    (holdsFar : Balanced farColor height far) (red : ¬(nearColor = .black ∧ farColor = .black)) :
    ∃ state next upper, heap.redNephew side parent tmp = some state ∧
      state.1.shareBlack side parent state.2 = some next ∧
        next.TreeAt memory scope order rest upper ∧ Sound rest upper := by
  cases farColor with
  | red =>
    obtain ⟨next, upper, shared, kept⟩ := shareBlack_spec treeAt fits balanced holdsNear holdsFar
    exact ⟨(heap, tmp), next, upper, redNephew_of_red treeAt holdsFar, shared, kept⟩
  | black =>
    cases nearColor with
    | black => exact absurd ⟨rfl, rfl⟩ red
    | red =>
      obtain ⟨heap', tmp', near', far', called, turned, holdsNear', holdsFar'⟩ :=
        redNephew_of_black treeAt holdsNear holdsFar
      have sibling : Balanced .black (height + 1) (join side (tmp', .black) near' far') :=
        balanced_black_join.mpr ⟨rfl, height, _, _, rfl, holdsNear', holdsFar'⟩
      have fits' : Fits .black (height + 1)
          (⟨side, (parent, parentColor), join side (tmp', .black) near' far'⟩ :: rest) :=
        fits.swap sibling
      obtain ⟨next, upper, shared, kept⟩ :=
        shareBlack_spec turned fits' balanced holdsNear' holdsFar'
      exact ⟨(heap', tmp'), next, upper, called, shared, kept⟩

/-- A turn ends with a balanced tree, or goes on closer to the root. -/
theorem removeFix_spec {tmp : Address} {left : Nat}
    (beside : ∃ state, heap.blackSibling side parent tmp = some state ∧
      BlackBeside memory scope order side parent tree height left state)
    (first : heap.child side.other parent = some tmp) (balanced : Balanced .black height tree) :
    (∃ next fewer path tree color height,
      heap.removeFix side parent = some (.again next) ∧ fewer ≤ left ∧
        Lacking memory scope order fewer next path tree color height) ∨
    ∃ result, heap.removeFix side parent = some (.done result) ∧
      Repaired memory scope order result := by
  obtain ⟨⟨heap', tmp'⟩, called, color, near, far, nearColor, farColor, rest, treeAt, fits,
    holdsNear, holdsFar, less⟩ := beside
  have atSibling := (treeAt_cons.mp treeAt).atFar
  have both : (heap'.isBlack (heap'.child side tmp') &&
      heap'.isBlack (heap'.child side.other tmp')) = true ↔
        nearColor = .black ∧ farColor = .black := by
    have near : heap'.child side tmp' = rbLayout.pointer near := atSibling.child_eq
    have far : heap'.child side.other tmp' = rbLayout.pointer far := atSibling.child_other_eq
    rw [near, far, Bool.and_eq_true, atSibling.atNear.isBlack_iff holdsNear,
      atSibling.atFar.isBlack_iff holdsFar]
  have turn : heap.removeFix side parent =
      if heap'.isBlack (heap'.child side tmp') && heap'.isBlack (heap'.child side.other tmp') then
        some (.again ⟨heap'.setColor tmp' .red, (heap'.setColor tmp' .red).parent parent,
          some parent⟩)
      else (heap'.redNephew side parent tmp').bind fun state =>
        (state.1.shareBlack side parent state.2).bind fun heap =>
          some (.done (heap, heap.rbhRoot)) := by
    rw [removeFix, first]
    change (heap.blackSibling side parent tmp).bind _ = _
    rw [called]
    rfl
  rw [turn]
  by_cases black : nearColor = .black ∧ farColor = .black
  · rw [if_pos (both.mpr black)]
    obtain ⟨rfl, rfl⟩ := black
    obtain ⟨upper, height, lacking⟩ := removeFix_again treeAt fits balanced holdsNear holdsFar
    exact Or.inl ⟨_, _, _, upper, _, height, rfl, less, lacking⟩
  · rw [if_neg (black ∘ both.mp)]
    obtain ⟨state, next, upper, nephew, shared, treeAt, sound⟩ :=
      removeFix_done treeAt fits balanced holdsNear holdsFar black
    refine Or.inr ⟨(next, next.rbhRoot), ?_, [], _, treeAt_plug.mpr treeAt, treeAt.rbhRoot_eq, ?_⟩
    · rw [nephew, Option.bind_some, shared]
      rfl
    · obtain ⟨height, balanced⟩ := sound_nil.mp (sound_plug.mpr sound)
      rw [balanced.blacken_of_black]
      exact sound_nil.mpr ⟨height, balanced⟩

theorem removeColorTurn_done {removal : Removal Address}
    (stop : ¬(removal.heap.isBlack removal.elm = true ∧ removal.elm ≠ removal.heap.rbhRoot)) :
    removeColorTurn removal = some (.done (removal.heap, removal.elm)) := if_neg stop

theorem removeColorTurn_fix {removal : Removal Address}
    (black : removal.heap.isBlack removal.elm = true)
    (below : removal.elm ≠ removal.heap.rbhRoot) (above : removal.parent = some parent)
    (which : removal.heap.child .left parent = removal.elm ↔ side = .left) :
    removeColorTurn removal = removal.heap.removeFix side parent := by
  rw [removeColorTurn, if_pos ⟨black, below⟩, above]
  cases side with
  | left => exact if_pos (which.mpr rfl)
  | right => exact if_neg (nofun ∘ which.mp)

theorem removeColorTurn_spec {removal : Removal Address} {left : Nat} {color : Color}
    {path : List (Frame (Address × Color))}
    (lacking : Lacking memory scope order left removal path tree color height) :
    (∃ next fewer, removeColorTurn removal = some (.again next) ∧ fewer < left ∧
      ∃ path tree color height, Lacking memory scope order fewer next path tree color height) ∨
    ∃ result, removeColorTurn removal = some (.done result) ∧
      Repaired memory scope order result := by
  obtain ⟨treeAt, above, elm, short, fits, rfl⟩ := lacking
  cases short with
  | @red _ item _ _ balanced =>
    have red : removal.heap.color item = .red := treeAt.asJoin.color_eq
    refine Or.inr ⟨_, removeColorTurn_done ?_, path, _, treeAt, elm, .black, _, balanced, fits⟩
    rw [elm]
    exact fun stop => nomatch red.symm.trans (of_decide_eq_true stop.1)
  | black balanced =>
    cases path with
    | nil =>
      refine Or.inr ⟨_, removeColorTurn_done ?_, [], tree, treeAt, elm, ?_⟩
      · rw [elm, treeAt.rbhRoot_eq]
        exact fun stop => stop.2 rfl
      · rw [balanced.blacken_of_black]
        exact sound_nil.mpr ⟨_, balanced⟩
    | cons frame rest =>
      obtain ⟨side, ⟨parent, parentColor⟩, sibling⟩ := frame
      obtain ⟨tmp, pointed, beside⟩ := exists_blackSibling treeAt fits
      have turn : removeColorTurn removal = removal.heap.removeFix side parent := removeColorTurn_fix
        (by rw [elm]; exact (treeAt.isBlack_iff balanced).mpr rfl)
        (by rw [elm]; exact treeAt.pointer_ne_rbhRoot) above (by
          rw [elm]
          refine treeAt.child_eq_iff (Or.inr ?_) .left
          rintro rfl
          cases pointed)
      have child : removal.heap.child side.other parent = some tmp :=
        (treeAt_cons.mp treeAt).child_other_eq.trans pointed
      rw [turn]
      rcases removeFix_spec beside child balanced with
        ⟨next, fewer, path, tree, color, height, again, less, lacking⟩ | done
      · exact Or.inl ⟨next, fewer, again, Nat.lt_succ_of_le less, path, tree, color, height, lacking⟩
      · exact Or.inr done

theorem removeColor_spec {turns left : Nat} {pointer above : Option Address} {color : Color}
    {path : List (Frame (Address × Color))}
    (lacking : Lacking memory scope order left ⟨heap, above, pointer⟩ path tree color height)
    (enough : left < turns) :
    ∃ next tree height, heap.removeColor turns above pointer = some next ∧
      next.TreeAt memory scope order [] tree ∧ Balanced .black height tree := by
  obtain ⟨⟨next, elm⟩, ended, path, tree, treeAt, pointed, sound⟩ :=
    loop_spec (fun left removal => ∃ path tree color height,
        Lacking memory scope order left removal path tree color height)
      (Repaired memory scope order)
      (fun left removal ⟨_, _, _, _, lacking⟩ => removeColorTurn_spec lacking)
      ⟨path, tree, color, height, lacking⟩ enough
  obtain ⟨height, balanced⟩ := sound_nil.mp (sound_plug.mpr sound)
  refine ⟨_, _, height, ?_, treeAt_plug.mpr treeAt.blacken, balanced⟩
  rw [removeColor, ended, ← pointed]
  rfl

/-! ### `RB_REMOVE` -/

/-- The last lines, when the child of an element of the color is in its place. -/
theorem removeEnd_spec {turns : Nat} {color : Color} {path : List (Frame (Address × Color))}
    (treeAt : heap.TreeAt memory scope order path tree)
    (red : color = .red → Sound path tree)
    (black : color = .black → ∃ treeColor height, Short treeColor height tree ∧
      Fits .black (height + 1) path) (enough : path.length + 1 < turns) :
    ∃ next whole height,
      heap.removeEnd turns color (rbLayout.above path) (rbLayout.pointer tree) = some next ∧
        next.TreeAt memory scope order [] whole ∧ Balanced .black height whole := by
  cases color with
  | red =>
    obtain ⟨height, balanced⟩ := sound_nil.mp (sound_plug.mpr (red rfl))
    exact ⟨heap, _, height, rfl, treeAt_plug.mpr treeAt, balanced⟩
  | black =>
    obtain ⟨treeColor, height, short, fits⟩ := black rfl
    refine removeColor_spec ⟨treeAt, rfl, rfl, short, fits, rfl⟩ (Nat.lt_of_le_of_lt ?_ enough)
    split <;> omega

/-- An element with at most one child. -/
theorem removeOuter_spec {turns : Nat} {label : Address × Color}
    {path : List (Frame (Address × Color))}
    (treeAt : heap.TreeAt memory scope order path (join side label .nil far))
    (sound : Sound path (join side label .nil far)) (enough : path.length + 1 < turns) :
    ∃ next tree height,
      heap.removeOuter turns label.1 (rbLayout.pointer far) = some next ∧
        next.TreeAt memory scope (rbLayout.addresses (plug path far)) [] tree ∧
          Balanced .black height tree := by
  have outer := sound_of_outer sound
  rw [removeOuter, treeAt.parent_eq, treeAt.color_eq]
  exact removeEnd_spec treeAt.unlink.1 outer.1 outer.2 enough

/-- The parent of the next element, after the substitution. -/
theorem above_substitute {old elm : Address} {color : Color} {first last : BinaryTree (Address × Color)}
    {lower path : List (Frame (Address × Color))}
    (treeAt : heap.TreeAt memory scope order (⟨.right, (old, color), first⟩ :: path)
      (plug lower last)) :
    (if rbLayout.above (lower ++ ⟨.right, (old, color), first⟩ :: path) = some old then some elm
      else rbLayout.above (lower ++ ⟨.right, (old, color), first⟩ :: path)) =
    rbLayout.above (lower ++ ⟨.right, (elm, color), first⟩ :: path) := by
  cases lower with
  | nil => exact if_pos rfl
  | cons frame rest =>
    refine if_neg fun same => ?_
    have distinct := (treeAt_cons.mp treeAt).stands.nodup_join
    refine (List.nodup_cons.mp distinct).1 (List.mem_append_left _ ?_)
    rw [Layout.mem_addresses_plug]
    exact Or.inr (rbLayout.mem_beside_cons.mpr (Or.inl (Option.some.inj same).symm))

/-- An element with two children: the next element takes its place. -/
theorem removeInner_spec {turns : Nat} {old right : Address} {color : Color}
    {path : List (Frame (Address × Color))} {first last : BinaryTree (Address × Color)}
    (treeAt : heap.TreeAt memory scope order path (.node (old, color) first last))
    (sound : Sound path (.node (old, color) first last)) (both : first ≠ .nil)
    (pointed : rbLayout.pointer last = some right)
    (enough : path.length + last.height + 1 < turns) :
    ∃ next tree height, heap.removeInner turns old right = some next ∧
      next.TreeAt memory scope
        ((before path).map Prod.fst ++ (rbLayout.addresses first ++ (rbLayout.addresses last ++
          (after path).map Prod.fst))) [] tree ∧
        Balanced .black height tree := by
  have atOld : heap.TreeAt memory scope order path (join .left (old, color) first last) := treeAt
  obtain ⟨lower, ⟨elm, elmColor⟩, inner, rfl, along, ended⟩ :=
    atOld.atFar.outermost pointed (show last.height ≤ turns by omega) .left
  have atElm : heap.TreeAt memory scope order (lower ++ ⟨.right, (old, color), first⟩ :: path)
      (join .left (elm, elmColor) .nil inner) := treeAt_append.mpr atOld.atFar
  have short := length_le_height lower (join .left (elm, elmColor) .nil inner)
  rw [height_join] at short
  -- the next element is taken out, and then put in the place of the old one
  obtain ⟨unlinked, kept⟩ := atElm.unlink
  have fresh : elm ∉ rbLayout.addresses (plug (lower ++ ⟨.right, (old, color), first⟩ :: path)
      inner) := by
    have distinct := (List.nodup_cons.mp atElm.stands.nodup_join).1
    rw [Layout.mem_addresses_plug]
    exact fun inside => distinct (List.mem_append.mpr (Or.inr (List.mem_append.mpr inside)))
  have inside : elm ∈ scope := by
    refine treeAt.covered ?_
    rw [← atElm.inorder, Layout.mem_addresses_plug, Layout.mem_addresses_join]
    exact Or.inl (Or.inl rfl)
  have atHole := treeAt_append.mp unlinked
  obtain ⟨next, substituted, atNext⟩ := (treeAt_cons.mp atHole).substitute fresh inside both
  have atPlace : next.TreeAt memory scope _ (lower ++ ⟨.right, (elm, color), first⟩ :: path) inner :=
    treeAt_append.mpr (treeAt_cons.mpr atNext)
  have outer := sound_of_outer (sound_append.mpr (sound_cons.mpr sound) : Sound
    (lower ++ ⟨.right, (old, color), first⟩ :: path) (join .left (elm, elmColor) .nil inner))
  have length : (lower ++ ⟨.right, (elm, color), first⟩ :: path).length + 1 < turns := by
    rw [List.length_append, List.length_cons]
    omega
  obtain ⟨final, whole, height, removed, atRoot, balanced⟩ := removeEnd_spec atPlace
    (fun red => (outer.1 red).relabel)
    (fun black => by
      obtain ⟨treeColor, height, short, fits⟩ := outer.2 black
      exact ⟨treeColor, height, short, fits.relabel⟩) length
  refine ⟨final, whole, height, ?_, ?_, balanced⟩
  · have child : heap.child .right elm = rbLayout.pointer inner := atElm.child_other_eq
    have parent : heap.parent elm =
        rbLayout.above (lower ++ ⟨.right, (old, color), first⟩ :: path) := atElm.parent_eq
    have elmColor : heap.color elm = elmColor := atElm.color_eq
    have same : (heap.unlink elm (rbLayout.pointer inner)).parent elm =
        rbLayout.above (lower ++ ⟨.right, (old, color), first⟩ :: path) :=
      (congrArg RbEntry.rbeParent kept).trans parent
    have augmented := atPlace.augmentUp (by omega : _ ≤ turns)
    simp only [removeInner, ended, Option.bind_eq_bind, Option.bind_some, child, parent, elmColor,
      same, above_substitute atHole, substituted, augmented, removed]
  · have order : rbLayout.addresses (plug path (.node (elm, color) first (plug lower inner))) =
        (before path).map Prod.fst ++ (rbLayout.addresses first ++
          (rbLayout.addresses (plug lower (join .left (elm, elmColor) .nil inner)) ++
            (after path).map Prod.fst)) := by
      rw [Layout.addresses_plug, Layout.addresses_node, List.append_assoc, Layout.addresses,
        Layout.addresses, Layout.addresses, inorder_plug_of_along along]
      rfl
    exact order ▸ atRoot

theorem remove_of_left {turns : Nat} {elm : Address} {child : Option Address}
    {result : RbHeap Address} (left : heap.child .left elm = none)
    (right : heap.child .right elm = child)
    (removed : heap.removeOuter turns elm child = some result) :
    heap.remove turns elm = some (result, elm) := by
  simp [remove, left, right, removed]

theorem remove_of_right {turns : Nat} {elm child : Address} {result : RbHeap Address}
    (left : heap.child .left elm = some child) (right : heap.child .right elm = none)
    (removed : heap.removeOuter turns elm (some child) = some result) :
    heap.remove turns elm = some (result, elm) := by
  simp [remove, left, right, removed]

theorem remove_of_both {turns : Nat} {elm child other : Address} {result : RbHeap Address}
    (left : heap.child .left elm = some child) (right : heap.child .right elm = some other)
    (removed : heap.removeInner turns elm other = some result) :
    heap.remove turns elm = some (result, elm) := by
  simp [remove, left, right, removed]

variable {Key : Type} [LinearOrder Key] {key : Address → Key}

/-- A removal from a balanced tree erases from the set of its elements, and leaves the tree
balanced. -/
theorem remove_spec {set : OrderedSet key} {turns : Nat} {elm : Address}
    (treeAt : heap.TreeAt memory scope set.elements [] tree)
    (balanced : Balanced .black height tree) (member : elm ∈ set.elements)
    (enough : tree.height < turns) :
    ∃ next tree height, heap.remove turns elm = some (next, elm) ∧
      next.TreeAt memory scope (set.erase (key elm)).elements [] tree ∧
        Balanced .black height tree := by
  obtain ⟨path, color, left, right, rfl, atElm⟩ := treeAt.exists_at member
  have sound : Sound path (join .left (elm, color) left right) :=
    sound_plug.mp (sound_nil.mpr ⟨height, balanced⟩)
  have short := length_le_height path (join .left (elm, color) left right)
  have bound : (plug path (join .left (elm, color) left right)).height < turns := enough
  rw [height_join] at short
  have walk : path.length + 1 < turns := by omega
  have deep : path.length + right.height + 1 < turns := by omega
  rw [OrderedSet.erase_of_cut atElm.order_eq_node]
  have leftChild : heap.child .left elm = rbLayout.pointer left := atElm.child_eq
  have rightChild : heap.child .right elm = rbLayout.pointer right := atElm.child_other_eq
  cases leftPointer : rbLayout.pointer left with
  | none =>
    obtain rfl := rbLayout.pointer_eq_none_iff.mp leftPointer
    obtain ⟨next, tree, height, removed, atRoot, balanced⟩ := removeOuter_spec atElm sound walk
    refine ⟨next, tree, height, remove_of_left leftChild rightChild removed, ?_, balanced⟩
    rw [Layout.addresses_nil, List.append_nil]
    rwa [Layout.addresses_plug] at atRoot
  | some child =>
    cases rightPointer : rbLayout.pointer right with
    | none =>
      obtain rfl := rbLayout.pointer_eq_none_iff.mp rightPointer
      have mirrored : heap.TreeAt memory scope set.elements path
          (join .right (elm, color) .nil left) := atElm
      obtain ⟨next, tree, height, removed, atRoot, balanced⟩ := removeOuter_spec mirrored sound walk
      rw [leftPointer] at leftChild removed
      refine ⟨next, tree, height, remove_of_right leftChild rightChild removed, ?_, balanced⟩
      rw [Layout.addresses_nil, List.nil_append, List.append_assoc]
      rwa [Layout.addresses_plug] at atRoot
    | some other =>
      have both : left ≠ .nil := fun empty => by cases empty ▸ leftPointer
      obtain ⟨next, tree, height, removed, atRoot, balanced⟩ :=
        removeInner_spec atElm sound both rightPointer deep
      rw [leftPointer] at leftChild
      rw [rightPointer] at rightChild
      refine ⟨next, tree, height, remove_of_both leftChild rightChild removed, ?_, balanced⟩
      rwa [List.append_assoc]

end RbHeap

end SelftestNet
