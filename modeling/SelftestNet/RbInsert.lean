/-
This file proves `RB_INSERT`. The descent ends at the element with the same key, or at the
empty place where the new element belongs; there the new element is red, and `RB_INSERT_COLOR`
moves the one red node that may be below another red one up until there is none.
-/

import SelftestNet.OrderedSet
import SelftestNet.RbMemory

namespace SelftestNet

open BinaryTree LinkedTree Loop RedBlack TreePath

namespace RbHeap

variable {Address : Type} [DecidableEq Address] {heap next : RbHeap Address}
  {memory : Address → RbEntry Address} {scope order : List Address}

/-! ### `RB_INSERT_COLOR` -/

/-- The subtree of a red element is balanced, and its path takes a black subtree there, with the
length of the path. -/
structure Reddened (memory : Address → RbEntry Address) (scope order : List Address)
    (left : Nat) (state : RbHeap Address × Address) (path : List (Frame (Address × Color)))
    (tree : BinaryTree (Address × Color)) (height : Nat) : Prop where
  treeAt : state.1.TreeAt memory scope order path tree
  pointed : rbLayout.pointer tree = some state.2
  balanced : Balanced .red height tree
  fits : Fits .black height path
  length : path.length = left

/-- The uncle is red: the grandparent is red instead, and may be below a red node in turn. -/
theorem insertFix_recolor {side upperSide : Direction} (elm : Address) {parent gparent : Address}
    {sibling uncle tree : BinaryTree (Address × Color)} {top : List (Frame (Address × Color))}
    {height : Nat}
    (treeAt : heap.TreeAt memory scope order
      (⟨side, (parent, .red), sibling⟩ :: ⟨upperSide, (gparent, .black), uncle⟩ :: top) tree)
    (balanced : Balanced .red height tree) (beside : Balanced .black height sibling)
    (aside : Balanced .red height uncle) (above : Fits .black (height + 1) top) :
    ∃ state lower, heap.insertFix upperSide elm parent gparent = some state ∧
      Reddened memory scope order top.length state top lower (height + 1) := by
  have atGparent := treeAt_cons.mp (treeAt_cons.mp treeAt)
  have atUncle := atGparent.atFar
  have tmp : heap.child upperSide.other gparent = rbLayout.pointer uncle :=
    atGparent.child_other_eq
  unfold insertFix
  rw [tmp, if_pos ((atUncle.isRed_iff aside).mpr rfl)]
  have blackUncle := treeAt_cons.mp atUncle.blacken
  rw [join_other] at blackUncle
  have blackParent := blackUncle.atNear.setColor .black
  have redGparent := (treeAt_cons.mp blackParent).setColor .red
  refine ⟨_, _, rfl, redGparent, ?_, ?_, above, rfl⟩
  · rw [Layout.pointer_join, address_rbLayout]
  · exact balanced_red_join.mpr ⟨rfl,
      balanced_black_join.mpr ⟨rfl, _, _, _, rfl, balanced, beside⟩, aside.blacken_of_red⟩

/-- The uncle is black: a rotation around the parent, where the element is an inner grandchild, and
one around the grandparent. -/
theorem insertFix_rotate {side upperSide : Direction} {elm parent gparent : Address}
    {sibling uncle tree : BinaryTree (Address × Color)} {top : List (Frame (Address × Color))}
    {height : Nat}
    (treeAt : heap.TreeAt memory scope order
      (⟨side, (parent, .red), sibling⟩ :: ⟨upperSide, (gparent, .black), uncle⟩ :: top) tree)
    (pointed : rbLayout.pointer tree = some elm) (balanced : Balanced .red height tree)
    (beside : Balanced .black height sibling) (aside : Balanced .black height uncle)
    (above : Fits .black (height + 1) top) :
    ∃ state path lower, heap.insertFix upperSide elm parent gparent = some state ∧
      Reddened memory scope order (top.length + 1) state path lower height := by
  have atParent := treeAt_cons.mp treeAt
  have atGparent := treeAt_cons.mp atParent
  have tmp : heap.child upperSide.other gparent = rbLayout.pointer uncle :=
    atGparent.child_other_eq
  have black : ¬heap.isRed (rbLayout.pointer uncle) = true := fun red =>
    nomatch (atGparent.atFar.isRed_iff aside).mp red
  obtain ⟨item, first, second, rfl⟩ := balanced.exists_red_join upperSide
  obtain ⟨-, holdsFirst, holdsSecond⟩ := balanced_red_join.mp balanced
  obtain rfl : item = elm := by
    rw [Layout.pointer_join] at pointed
    exact Option.some.inj pointed
  unfold insertFix
  rw [tmp, if_neg black]
  -- two red nodes in a row on the outer side, whichever of them the turn began at
  obtain ⟨straight, upper, lower, near, inner, far, rotated, treeAt', holdsNear, holdsInner,
      holdsFar⟩ : ∃ straight upper lower near inner far,
      heap.straighten upperSide item parent = some (straight, upper, lower) ∧
        straight.TreeAt memory scope order (⟨upperSide, (gparent, .black), uncle⟩ :: top)
          (join upperSide (upper, .red) (join upperSide (lower, .red) near inner) far) ∧
        Balanced .black height near ∧ Balanced .black height inner ∧
          Balanced .black height far := by
    unfold straighten
    by_cases inside : side = upperSide.other
    · rw [if_pos ((treeAt.child_eq_some_iff pointed _).mpr inside)]
      subst inside
      rw [join_other] at atParent
      obtain ⟨next, rotated, turned⟩ := atParent.rotate
      rw [rotated]
      exact ⟨next, item, parent, sibling, first, second, rfl, turned, beside, holdsFirst,
        holdsSecond⟩
    · rw [if_neg (inside ∘ (treeAt.child_eq_some_iff pointed _).mp)]
      have outer : side = upperSide := by
        cases side <;> cases upperSide <;> first | rfl | exact absurd rfl inside
      subst outer
      exact ⟨heap, parent, item, first, second, sibling, rfl, atParent, holdsFirst, holdsSecond,
        beside⟩
  rw [rotated]
  have redGparent := (treeAt_cons.mp (treeAt'.setColor .black)).setColor .red
  rw [← join_other, ← join_other upperSide (upper, Color.black)] at redGparent
  obtain ⟨next, rotated, turned⟩ := redGparent.rotate
  refine ⟨(next, lower), _, _,
    congrArg (fun result => result.bind fun heap => some (heap, lower)) rotated,
    turned.atFar, ?_, ?_, ?_, rfl⟩
  · rw [Layout.pointer_join, address_rbLayout]
  · exact balanced_red_join.mpr ⟨rfl, holdsNear, holdsInner⟩
  · exact .black (balanced_red_join.mpr ⟨rfl, aside, holdsFar⟩) above

/-- The head has a tree with an element, which is balanced once its root is black. -/
def Blackenable (memory : Address → RbEntry Address) (scope order : List Address)
    (heap : RbHeap Address) : Prop :=
  ∃ tree root height, heap.TreeAt memory scope order [] tree ∧
    rbLayout.pointer tree = some root ∧ Balanced .black height (blacken tree)

theorem insertColorTurn_root {elm : Address} (parent : heap.parent elm = none) :
    insertColorTurn (heap, elm) = some (.done heap) := by
  simp only [insertColorTurn, parent]

theorem insertColorTurn_black {elm parent : Address} (below : heap.parent elm = some parent)
    (color : heap.color parent = .black) : insertColorTurn (heap, elm) = some (.done heap) := by
  simp [insertColorTurn, below, color]

theorem insertColorTurn_red {elm parent gparent : Address} {side : Direction}
    (below : heap.parent elm = some parent) (color : heap.color parent = .red)
    (above : heap.parent parent = some gparent)
    (which : heap.child .left gparent = some parent ↔ side = .left) :
    insertColorTurn (heap, elm) = (heap.insertFix side elm parent gparent).map .again := by
  cases side <;> simp [insertColorTurn, below, color, above, which]

/-- A turn makes the path shorter, or the tree can be made balanced. -/
theorem insertColorTurn_spec {left : Nat} {elm : Address}
    {path : List (Frame (Address × Color))} {tree : BinaryTree (Address × Color)} {height : Nat}
    (reddened : Reddened memory scope order left (heap, elm) path tree height) :
    (∃ next fewer, insertColorTurn (heap, elm) = some (.again next) ∧ fewer < left ∧
      ∃ path tree height, Reddened memory scope order fewer next path tree height) ∨
    ∃ result, insertColorTurn (heap, elm) = some (.done result) ∧
      Blackenable memory scope order result := by
  obtain ⟨treeAt, pointed, balanced, fits, rfl⟩ := reddened
  have parent : heap.parent elm = rbLayout.above path := treeAt.parent_of_pointer pointed
  cases fits with
  | nil =>
    exact Or.inr ⟨heap, insertColorTurn_root parent, tree, elm, height + 1, treeAt, pointed,
      balanced.blacken_of_red⟩
  | @black _ _ _ side item sibling rest beside above =>
    have color : heap.color item = .black := (treeAt_cons.mp treeAt).color_eq
    have sound : Sound (⟨side, (item, .black), sibling⟩ :: rest) tree :=
      ⟨.red, height, balanced, .black beside above⟩
    obtain ⟨whole, balancedWhole⟩ := sound_nil.mp (sound_plug.mpr sound)
    have some : tree ≠ .nil := fun empty => by cases empty ▸ pointed
    have someWhole : plug (⟨side, (item, .black), sibling⟩ :: rest) tree ≠ .nil := plug_ne_nil some
    obtain ⟨root, atRoot⟩ := Option.ne_none_iff_exists'.mp
      (someWhole ∘ rbLayout.pointer_eq_none_iff.mp)
    refine Or.inr ⟨heap, insertColorTurn_black parent color, _, root, whole, treeAt_plug.mpr treeAt,
      atRoot, ?_⟩
    rwa [balancedWhole.blacken_of_black]
  | @red _ side item sibling rest beside above =>
    have color : heap.color item = .red := (treeAt_cons.mp treeAt).color_eq
    cases above with
    | @black _ _ asideColor upperSide gparent uncle top aside higher =>
      have atParent := treeAt_cons.mp treeAt
      have turn := insertColorTurn_red parent color atParent.parent_eq
        (atParent.child_eq_some_iff (rbLayout.pointer_join _ _ _ _) .left)
      cases asideColor with
      | red =>
        obtain ⟨state, lower, called, next⟩ :=
          insertFix_recolor elm treeAt balanced beside aside higher
        refine Or.inl ⟨state, _, turn.trans (congrArg _ called), ?_, _, _, _, next⟩
        exact Nat.lt_add_of_pos_right Nat.two_pos
      | black =>
        obtain ⟨state, path, lower, called, next⟩ :=
          insertFix_rotate treeAt pointed balanced beside aside higher
        exact Or.inl ⟨state, _, turn.trans (congrArg _ called), Nat.lt_succ_self _, _, _, _, next⟩

theorem insertColor_spec {left turns : Nat} {elm : Address}
    {path : List (Frame (Address × Color))} {tree : BinaryTree (Address × Color)} {height : Nat}
    (reddened : Reddened memory scope order left (heap, elm) path tree height)
    (enough : left < turns) :
    ∃ next tree height, heap.insertColor turns elm = some next ∧
      next.TreeAt memory scope order [] tree ∧ Balanced .black height tree := by
  obtain ⟨result, ended, tree, root, height, treeAt, pointed, balanced⟩ :=
    loop_spec (fun left state => ∃ path tree height,
        Reddened memory scope order left state path tree height)
      (Blackenable memory scope order)
      (fun left (heap, elm) ⟨_, _, _, reddened⟩ => insertColorTurn_spec reddened)
      ⟨path, tree, height, reddened⟩ enough
  have blackened := treeAt.blacken
  rw [pointed] at blackened
  refine ⟨_, _, height, ?_, blackened, balanced⟩
  rw [insertColor, ended]
  change result.rbhRoot.bind _ = _
  rw [treeAt.rbhRoot_eq, plug_nil, pointed]
  rfl

/-! ### The descent -/

variable {Key : Type} [LinearOrder Key] {key : Address → Key} {cmp : Address → Address → Int}

/-- The descent is at a subtree of the tree, in which the place of the new element is, with the
height of the subtree; the last comparison tells the side it came from. -/
structure Descending (key : Address → Key) (whole : BinaryTree (Address × Color)) (elm : Address)
    (left : Nat) (descent : Descent Address) (path : List (Frame (Address × Color)))
    (tree : BinaryTree (Address × Color)) : Prop where
  whole : plug path tree = whole
  tmp : descent.tmp = rbLayout.pointer tree
  parent : descent.parent = rbLayout.above path
  comp : ∀ frame ∈ path.head?, descent.comp < 0 ↔ frame.side = .left
  cut : Cut (key ∘ Prod.fst) (key elm) (before path) (after path)
  height : tree.height = left

/-- Where the descent ends. -/
def Arrived (key : Address → Key) (whole : BinaryTree (Address × Color)) (elm : Address) :
    Address ⊕ Descent Address → Prop
  | .inl found => found ∈ rbLayout.addresses whole ∧ key found = key elm
  | .inr descent => ∃ path, Descending key whole elm 0 descent path .nil

variable {whole : BinaryTree (Address × Color)}

omit [DecidableEq Address] in
theorem descendTurn_spec (compares : Compares cmp key)
    (treeAt : heap.TreeAt memory scope order [] whole) (ascending : Ascending key order)
    {elm : Address} {left : Nat} {descent : Descent Address}
    {path : List (Frame (Address × Color))} {tree : BinaryTree (Address × Color)}
    (descending : Descending key whole elm left descent path tree) :
    (∃ next fewer, descend cmp heap elm descent = some (.again next) ∧ fewer < left ∧
      ∃ path tree, Descending key whole elm fewer next path tree) ∨
    ∃ result, descend cmp heap elm descent = some (.done result) ∧ Arrived key whole elm result := by
  obtain ⟨rfl, tmp, parent, comp, cut, rfl⟩ := descending
  cases tree with
  | nil =>
    refine Or.inr ⟨.inr descent, ?_, path, rfl, tmp, parent, comp, cut, rfl⟩
    rw [descend, tmp]
    rfl
  | node label leftTree right =>
    have sorted : Ascending (key ∘ Prod.fst) (plug path (node label leftTree right)).inorder := by
      rw [← treeAt.inorder] at ascending
      exact ascending_map.mp ascending
    have here : heap.TreeAt memory scope order path (join .left label leftTree right) :=
      treeAt_plug.mp treeAt
    have tmp : descent.tmp = some label.1 := tmp
    rw [descend, tmp]
    dsimp only
    by_cases neg : cmp elm label.1 < 0
    · rw [if_pos neg]
      refine Or.inl ⟨_, leftTree.height, rfl, ?_, ⟨.left, label, right⟩ :: path, leftTree, rfl,
        here.child_eq, rfl, ?_, cut_left sorted cut ((compares.neg_iff _ _).mp neg), rfl⟩
      · exact Nat.lt_succ_of_le (Nat.le_max_left _ _)
      · rintro frame ⟨⟩
        exact iff_of_true neg rfl
    · rw [if_neg neg]
      by_cases pos : 0 < cmp elm label.1
      · rw [if_pos pos]
        refine Or.inl ⟨_, right.height, rfl, ?_, ⟨.right, label, leftTree⟩ :: path, right, rfl,
          here.child_other_eq, rfl, ?_, cut_right sorted cut ((compares.pos_iff _ _).mp pos), rfl⟩
        · exact Nat.lt_succ_of_le (Nat.le_max_right _ _)
        · rintro frame ⟨⟩
          exact iff_of_false neg nofun
      · rw [if_neg pos]
        refine Or.inr ⟨_, rfl, ?_, compares.eq_of_not_lt neg pos⟩
        exact rbLayout.mem_addresses_plug.mpr (Or.inl (rbLayout.mem_addresses_of_pointer rfl))

omit [DecidableEq Address] in
/-- The descent ends at an element with the key, or at the empty place for it. -/
theorem descend_spec (compares : Compares cmp key)
    (treeAt : heap.TreeAt memory scope order [] whole) (ascending : Ascending key order)
    (elm : Address) {turns : Nat} (enough : whole.height < turns) :
    ∃ result, loop (descend cmp heap elm) turns ⟨heap.rbhRoot, none, 0⟩ = some result ∧
      Arrived key whole elm result := by
  have start : Descending key whole elm whole.height ⟨heap.rbhRoot, none, 0⟩ [] whole :=
    ⟨rfl, treeAt.rbhRoot_eq, rfl, nofun, ⟨nofun, nofun⟩, rfl⟩
  exact loop_spec
    (fun left descent => ∃ path tree, Descending key whole elm left descent path tree)
    (Arrived key whole elm)
    (fun left descent ⟨_, _, descending⟩ => descendTurn_spec compares treeAt ascending descending)
    ⟨[], whole, start⟩ enough

/-! ### `RB_INSERT` -/

/-- An insertion in a balanced tree inserts in the set of its elements, and leaves the tree
balanced. -/
theorem insert_spec (compares : Compares cmp key) {set : OrderedSet key}
    {tree : BinaryTree (Address × Color)} {height turns : Nat} {elm : Address}
    (treeAt : heap.TreeAt memory scope set.elements [] tree)
    (balanced : Balanced .black height tree) (inside : elm ∈ scope)
    (enough : tree.height < turns) :
    ∃ next tree height,
      heap.insert cmp turns elm = some (next, (set.insert elm).2) ∧
        next.TreeAt memory scope (set.insert elm).1.elements [] tree ∧
          Balanced .black height tree := by
  obtain ⟨result, descended, arrived⟩ := descend_spec compares treeAt set.ascending elm enough
  rw [insert, descended]
  cases result with
  | inl found =>
    obtain ⟨member, same⟩ := arrived
    obtain ⟨lower, upper, elements⟩ := List.append_of_mem (treeAt.inorder ▸ member)
    rw [OrderedSet.insert_of_find (same ▸ OrderedSet.find_of_cut elements)]
    exact ⟨heap, tree, height, rfl, treeAt, balanced⟩
  | inr descent =>
    obtain ⟨path, rfl, -, parent, comp, cut, -⟩ := arrived
    have atPlace := treeAt_plug.mp treeAt
    have cut := cut_map.mpr cut
    have order : set.elements = (before path).map Prod.fst ++ (after path).map Prod.fst :=
      atPlace.order_eq
    obtain ⟨inserted, answer⟩ := OrderedSet.insert_of_cut cut order
    have attached := atPlace.attach (order ▸ cut.not_mem) inside comp
    obtain ⟨color, height, balancedNil, fits⟩ := sound_plug.mp (sound_nil.mpr ⟨_, balanced⟩)
    obtain ⟨rfl, rfl⟩ : color = .black ∧ height = 0 := by
      cases balancedNil
      exact ⟨rfl, rfl⟩
    have reddened : Reddened memory scope _ path.length
        (heap.attach elm (rbLayout.above path) descent.comp, elm) path _ 0 :=
      ⟨attached, rfl, .red .nil .nil, fits, rfl⟩
    have short : path.length < turns :=
      Nat.lt_of_le_of_lt (Nat.le_of_add_right_le (length_le_height path .nil)) enough
    obtain ⟨next, tree, height, colored, kept, balanced⟩ := insertColor_spec reddened short
    rw [inserted, answer]
    refine ⟨next, tree, height, ?_, kept, balanced⟩
    rw [← parent] at colored
    change (insertColor turns _ elm).bind (fun heap => some (heap, none)) = _
    rw [colored]
    rfl

end RbHeap

end SelftestNet
