/-
This file is the library of binary trees in memory. An element of a tree is a structure of
its own somewhere in memory that has an entry for the tree in it, with pointers to other
elements; a layout says what must be in the entry, from the label of a node and the pointers
around it. The elements of a subtree, and those of the path above it, are told apart by their
addresses, so that a change of some entries is seen as a change of the nodes that have them,
and of nothing else (`Holds.frame`, `Around.frame`).
-/

import Mathlib.Data.List.Nodup
import SelftestNet.TreePath

namespace LinkedTree

open BinaryTree TreePath

/-- Where the element of a node is, and what its entry is when it has the given pointers. -/
structure Layout (Label Address Entry : Type) where
  address : Label → Address
  entry (label : Label) (left right parent : Option Address) : Entry

variable {Label Address Entry : Type} (layout : Layout Label Address Entry)

namespace Layout

/-! ### Pointers and entries -/

/-- The addresses of the elements, in order. -/
def addresses (tree : BinaryTree Label) : List Address := tree.inorder.map layout.address

/-- The pointer to a tree; null when it is empty. -/
def pointer : BinaryTree Label → Option Address
  | nil => none
  | node label _ _ => some (layout.address label)

/-- The entry of a node by sides. -/
def entryOn (side : Direction) (label : Label) (near far parent : Option Address) : Entry :=
  match side with
  | .left => layout.entry label near far parent
  | .right => layout.entry label far near parent

/-- The pointer to the node above the lower end of a path; null at the root. -/
def above : List (Frame Label) → Option Address
  | [] => none
  | frame :: _ => some (layout.address frame.label)

/-- The addresses of a path and of the subtrees beside it. -/
def beside (path : List (Frame Label)) : List Address := (labels path).map layout.address

@[simp]
theorem addresses_nil : layout.addresses nil = [] := rfl

@[simp]
theorem addresses_node (label : Label) (left right : BinaryTree Label) :
    layout.addresses (node label left right) =
      layout.addresses left ++ layout.address label :: layout.addresses right := by
  rw [addresses, inorder_node, List.map_append, List.map_cons]
  rfl

theorem addresses_plug (path : List (Frame Label)) (tree : BinaryTree Label) :
    layout.addresses (plug path tree) = (before path).map layout.address ++
      (layout.addresses tree ++ (after path).map layout.address) := by
  rw [addresses, inorder_plug, List.map_append, List.map_append]
  rfl

@[simp]
theorem pointer_join (side : Direction) (label : Label) (near far : BinaryTree Label) :
    layout.pointer (join side label near far) = some (layout.address label) := by
  cases side <;> rfl

theorem pointer_eq_none_iff {tree : BinaryTree Label} : layout.pointer tree = none ↔ tree = nil := by
  cases tree with
  | nil => exact iff_of_true rfl rfl
  | node label left right => exact iff_of_false nofun nofun

theorem mem_addresses_of_pointer {tree : BinaryTree Label} {address : Address}
    (pointed : layout.pointer tree = some address) : address ∈ layout.addresses tree := by
  cases tree with
  | nil => cases pointed
  | node label left right =>
    obtain rfl := Option.some.inj pointed
    exact List.mem_map_of_mem (List.mem_append_right _ List.mem_cons_self)

theorem mem_addresses_join {side : Direction} {label : Label} {near far : BinaryTree Label}
    {address : Address} :
    address ∈ layout.addresses (join side label near far) ↔
      address = layout.address label ∨ address ∈ layout.addresses near ∨
        address ∈ layout.addresses far := by
  rw [addresses, ((inorder_join_perm side label near far).map _).mem_iff, List.map_cons,
    List.map_append, List.mem_cons, List.mem_append]
  rfl

theorem mem_addresses_node {label : Label} {left right : BinaryTree Label} {address : Address} :
    address ∈ layout.addresses (node label left right) ↔
      address = layout.address label ∨ address ∈ layout.addresses left ∨
        address ∈ layout.addresses right := by
  rw [addresses_node, List.mem_append, List.mem_cons]
  exact or_left_comm

theorem mem_addresses_plug {path : List (Frame Label)} {tree : BinaryTree Label}
    {address : Address} :
    address ∈ layout.addresses (plug path tree) ↔
      address ∈ layout.addresses tree ∨ address ∈ layout.beside path := by
  rw [addresses, ((inorder_plug_perm path tree).map _).mem_iff, List.map_append, List.mem_append]
  rfl

/-- Replacing the subtree at the lower end by one with the same addresses keeps the addresses. -/
theorem addresses_plug_congr {path : List (Frame Label)} {tree other : BinaryTree Label}
    (same : layout.addresses other = layout.addresses tree) :
    layout.addresses (plug path other) = layout.addresses (plug path tree) := by
  rw [addresses_plug, addresses_plug, same]

theorem beside_cons (frame : Frame Label) (rest : List (Frame Label)) :
    layout.beside (frame :: rest) =
      layout.address frame.label :: (layout.addresses frame.sibling ++ layout.beside rest) := by
  rw [beside, labels_cons, List.map_cons, List.map_append]
  rfl

theorem mem_beside_cons {frame : Frame Label} {rest : List (Frame Label)} {address : Address} :
    address ∈ layout.beside (frame :: rest) ↔
      address = layout.address frame.label ∨ address ∈ layout.addresses frame.sibling ∨
        address ∈ layout.beside rest := by
  rw [beside_cons, List.mem_cons, List.mem_append]

theorem nodup_addresses_join {side : Direction} {label : Label} {near far : BinaryTree Label} :
    (layout.addresses (join side label near far)).Nodup ↔
      (layout.address label :: (layout.addresses near ++ layout.addresses far)).Nodup := by
  rw [addresses, ((inorder_join_perm side label near far).map _).nodup_iff, List.map_cons,
    List.map_append]
  rfl

theorem nodup_addresses_plug {path : List (Frame Label)} {tree : BinaryTree Label} :
    (layout.addresses (plug path tree)).Nodup ↔
      (layout.addresses tree ++ layout.beside path).Nodup := by
  rw [addresses, ((inorder_plug_perm path tree).map _).nodup_iff, List.map_append]
  rfl

theorem mem_beside_of_above {path : List (Frame Label)} {address : Address}
    (pointed : layout.above path = some address) : address ∈ layout.beside path := by
  cases path with
  | nil => cases pointed
  | cons frame rest =>
    obtain rfl := Option.some.inj pointed
    exact layout.mem_beside_cons.mpr (Or.inl rfl)

/-- The root of a tree is on every path that is not empty. -/
theorem exists_pointer_plug (frame : Frame Label) (rest : List (Frame Label))
    (tree : BinaryTree Label) :
    ∃ address ∈ layout.beside (frame :: rest),
      layout.pointer (plug (frame :: rest) tree) = some address := by
  induction rest generalizing frame tree with
  | nil =>
    exact ⟨layout.address frame.label, layout.mem_beside_cons.mpr (Or.inl rfl),
      layout.pointer_join _ _ _ _⟩
  | cons upper rest inductionHypothesis =>
    obtain ⟨address, inside, pointed⟩ :=
      inductionHypothesis upper (join frame.side frame.label tree frame.sibling)
    exact ⟨address, layout.mem_beside_cons.mpr (Or.inr (Or.inr inside)), pointed⟩

/-! ### Trees in memory -/

/-- Every element of the tree has its entry, the root with the given parent. -/
def Holds (memory : Address → Entry) (parent : Option Address) : BinaryTree Label → Prop
  | nil => True
  | node label left right =>
    memory (layout.address label) =
        layout.entry label (layout.pointer left) (layout.pointer right) parent ∧
      Holds memory (some (layout.address label)) left ∧
      Holds memory (some (layout.address label)) right

/-- Every element of the path, and of the subtrees beside it, has its entry, when the pointer to the
lower end is the given one. -/
def Around (memory : Address → Entry) (root : Option Address) :
    List (Frame Label) → Option Address → Prop
  | [], pointer => root = pointer
  | frame :: rest, pointer =>
    memory (layout.address frame.label) = layout.entryOn frame.side frame.label pointer
        (layout.pointer frame.sibling) (layout.above rest) ∧
      layout.Holds memory (some (layout.address frame.label)) frame.sibling ∧
      Around memory root rest (some (layout.address frame.label))

variable {layout} {memory other : Address → Entry} {root parent pointer : Option Address}

theorem holds_join {side : Direction} {label : Label} {near far : BinaryTree Label} :
    layout.Holds memory parent (join side label near far) ↔
      memory (layout.address label) =
          layout.entryOn side label (layout.pointer near) (layout.pointer far) parent ∧
        layout.Holds memory (some (layout.address label)) near ∧
        layout.Holds memory (some (layout.address label)) far := by
  cases side with
  | left => exact Iff.rfl
  | right => exact and_congr_right fun _ => and_comm

/-- A change of the memory that misses the elements of a tree keeps it. -/
theorem Holds.frame {tree : BinaryTree Label} (holds : layout.Holds memory parent tree)
    (same : ∀ address ∈ layout.addresses tree, other address = memory address) :
    layout.Holds other parent tree := by
  induction tree generalizing parent with
  | nil => trivial
  | node label left right leftHypothesis rightHypothesis =>
    have keeps : ∀ address, (address = layout.address label ∨ address ∈ layout.addresses left ∨
        address ∈ layout.addresses right) → other address = memory address :=
      fun address inside => same address (layout.mem_addresses_node.mpr inside)
    obtain ⟨entry, holdsLeft, holdsRight⟩ := holds
    refine ⟨(keeps _ (Or.inl rfl)).trans entry, ?_, ?_⟩
    · exact leftHypothesis holdsLeft fun address inside => keeps address (Or.inr (Or.inl inside))
    · exact rightHypothesis holdsRight fun address inside => keeps address (Or.inr (Or.inr inside))

/-- A change of the memory that misses the elements of a path keeps it. -/
theorem Around.frame {path : List (Frame Label)} (around : layout.Around memory root path pointer)
    (same : ∀ address ∈ layout.beside path, other address = memory address) :
    layout.Around other root path pointer := by
  induction path generalizing pointer with
  | nil => exact around
  | cons frame rest inductionHypothesis =>
    have keeps := fun address => same address ∘ layout.mem_beside_cons.mpr
    obtain ⟨entry, holds, above⟩ := around
    refine ⟨(keeps _ (Or.inl rfl)).trans entry, ?_, ?_⟩
    · exact holds.frame fun address inside => keeps address (Or.inr (Or.inl inside))
    · exact inductionHypothesis above fun address inside => keeps address (Or.inr (Or.inr inside))

/-! ### A tree as a path and what is below it -/

variable (layout) in
/-- The memory has the tree that the path and the tree at its lower end make up, and no element is
in it twice. -/
structure Stands (memory : Address → Entry) (root : Option Address) (path : List (Frame Label))
    (tree : BinaryTree Label) : Prop where
  holds : layout.Holds memory (layout.above path) tree
  around : layout.Around memory root path (layout.pointer tree)
  distinct : (layout.addresses (plug path tree)).Nodup

/-- Going down or up a path. -/
theorem stands_cons {frame : Frame Label} {rest : List (Frame Label)} {tree : BinaryTree Label} :
    layout.Stands memory root (frame :: rest) tree ↔
      layout.Stands memory root rest (join frame.side frame.label tree frame.sibling) := by
  constructor
  · rintro ⟨holds, ⟨entry, beside, above⟩, distinct⟩
    exact ⟨holds_join.mpr ⟨entry, holds, beside⟩, by rwa [pointer_join], distinct⟩
  · rintro ⟨holds, above, distinct⟩
    rw [pointer_join] at above
    obtain ⟨entry, near, far⟩ := holds_join.mp holds
    exact ⟨near, ⟨entry, far, above⟩, distinct⟩

theorem stands_append {lower upper : List (Frame Label)} {tree : BinaryTree Label} :
    layout.Stands memory root (lower ++ upper) tree ↔
      layout.Stands memory root upper (plug lower tree) := by
  induction lower generalizing tree with
  | nil => exact Iff.rfl
  | cons frame rest inductionHypothesis =>
    rw [List.cons_append, stands_cons, inductionHypothesis, plug_cons]

theorem stands_plug {path : List (Frame Label)} {tree : BinaryTree Label} :
    layout.Stands memory root [] (plug path tree) ↔ layout.Stands memory root path tree := by
  rw [← stands_append, List.append_nil]

theorem Stands.root_eq {path : List (Frame Label)} {tree : BinaryTree Label}
    (stands : layout.Stands memory root path tree) :
    root = layout.pointer (plug path tree) := (stands_plug.mpr stands).around

/-- A change of the memory that misses the elements of the whole tree keeps it. -/
theorem Stands.frame {path : List (Frame Label)} {tree : BinaryTree Label}
    (stands : layout.Stands memory root path tree)
    (same : ∀ address ∈ layout.addresses (plug path tree), other address = memory address) :
    layout.Stands other root path tree := by
  have keeps := fun address => same address ∘ layout.mem_addresses_plug.mpr
  exact ⟨stands.holds.frame fun address inside => keeps address (Or.inl inside),
    stands.around.frame fun address inside => keeps address (Or.inr inside), stands.distinct⟩

/-- The addresses below and beside a path are distinct. -/
theorem Stands.nodup {path : List (Frame Label)} {tree : BinaryTree Label}
    (stands : layout.Stands memory root path tree) :
    (layout.addresses tree ++ layout.beside path).Nodup :=
  layout.nodup_addresses_plug.mp stands.distinct

/-- The addresses of the node at the lower end, below it and beside it are distinct. -/
theorem Stands.nodup_join {path : List (Frame Label)} {side : Direction} {label : Label}
    {near far : BinaryTree Label}
    (stands : layout.Stands memory root path (join side label near far)) :
    (layout.address label ::
      (layout.addresses near ++ (layout.addresses far ++ layout.beside path))).Nodup := by
  have perm := (inorder_join_perm side label near far).map layout.address
  rw [List.map_cons, List.map_append] at perm
  have nodup := (perm.append_right _).nodup_iff.mp stands.nodup
  rwa [List.cons_append, List.append_assoc] at nodup

theorem Stands.nodup_node {path : List (Frame Label)} {label : Label} {left right : BinaryTree Label}
    (stands : layout.Stands memory root path (node label left right)) :
    (layout.address label ::
      (layout.addresses left ++ (layout.addresses right ++ layout.beside path))).Nodup := by
  have asJoin : layout.Stands memory root path (join .left label left right) := stands
  exact asJoin.nodup_join

/-! ### Several trees in one memory -/

variable (layout) in
/-- Every name has a tree of its elements, with a property of its own, and no element is in the
trees of two names. -/
structure Forest {Name : Type} (memory : Address → Entry) (root : Name → Option Address)
    (elements : Name → List Address) (property : Name → BinaryTree Label → Prop) : Prop where
  trees : ∀ name, ∃ tree, layout.Stands memory (root name) [] tree ∧
    layout.addresses tree = elements name ∧ property name tree
  apart : ∀ name, ∀ other ≠ name, (elements name).Disjoint (elements other)

variable {Name : Type} {roots newRoots : Name → Option Address}
  {elements newElements : Name → List Address}
  {property newProperty : Name → BinaryTree Label → Prop}

theorem forest_empty (none : ∀ name, roots name = none) (holds : ∀ name, property name nil) :
    layout.Forest memory roots (fun _ => []) property := by
  constructor
  · exact fun name => ⟨nil, ⟨trivial, none name, List.nodup_nil⟩, rfl, holds name⟩
  · exact fun _ _ _ => List.disjoint_nil_left _

/-- A change of the tree of one name that misses the elements of the others. -/
theorem Forest.put (forest : layout.Forest memory roots elements property) {name : Name}
    {tree : BinaryTree Label} {scope : List Address}
    (stands : layout.Stands other (newRoots name) [] tree)
    (here : layout.addresses tree = newElements name) (holds : newProperty name tree)
    (covered : newElements name ⊆ scope) (same : ∀ address ∉ scope, other address = memory address)
    (others : ∀ other ≠ name, scope.Disjoint (elements other))
    (root : ∀ other ≠ name, newRoots other = roots other)
    (list : ∀ other ≠ name, newElements other = elements other)
    (kept : ∀ other ≠ name, ∀ tree, property other tree → newProperty other tree) :
    layout.Forest other newRoots newElements newProperty := by
  constructor
  · intro second
    by_cases equal : second = name
    · subst equal
      exact ⟨tree, stands, here, holds⟩
    · obtain ⟨tree, stands, members, holds⟩ := forest.trees second
      rw [root second equal, list second equal]
      refine ⟨tree, stands.frame fun address inside => same address ?_, members,
        kept second equal tree holds⟩
      rw [plug_nil, members] at inside
      exact fun member => others second equal member inside
  · intro first second different
    have disjoint : ∀ other ≠ name, (newElements name).Disjoint (elements other) :=
      fun other different address member => others other different (covered member)
    by_cases equal : first = name
    · subst equal
      rw [list second different]
      exact disjoint second different
    · rw [list first equal]
      by_cases here : second = name
      · subst here
        exact List.disjoint_symm (disjoint first equal)
      · rw [list second here]
        exact forest.apart first second different

end Layout

end LinkedTree
