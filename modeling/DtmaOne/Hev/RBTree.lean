import DtmaOne.Library.Loop
import DtmaOne.Library.RedBlack

/-!
# The red-black tree of the tunnel

The nodes of a tree are linked by pointers, each node has its parent, its colour and its two
children.  The functions change the nodes one field at a time, as the source does; a pointer that is
followed and is null makes them fail.  The two halves of a function that are mirror images of each
other are one definition with the side as a parameter.

`Models self t` says that the pointers of `self` are those of the tree `t`, whose items are the
addresses of the nodes.
-/

namespace Hev

open RedBlack

/-- `HevRBTreeNode`: the parent and the colour, which the source keeps in one word, and the two
children. -/
structure RBTreeNode (α : Type) where
  parent : Option α
  color : Color
  left : Option α
  right : Option α
deriving DecidableEq, Repr

/-- The child on the given side. -/
def RBTreeNode.child {α : Type} (node : RBTreeNode α) : Side → Option α
  | .left => node.left
  | .right => node.right

/-- The node with another child on the given side. -/
def RBTreeNode.setChild {α : Type} (node : RBTreeNode α) (side : Side) (new : Option α) :
    RBTreeNode α :=
  match side with
  | .left => { node with left := new }
  | .right => { node with right := new }

/-- `HevRBTree`: the pointer to the root, with the memory the nodes live in. -/
structure RBTree (α : Type) where
  root : Option α
  node : α → RBTreeNode α

namespace RBTree

variable {α : Type} [DecidableEq α]

/-- Writes to the node at an address. -/
def write (self : RBTree α) (a : α) (f : RBTreeNode α → RBTreeNode α) : RBTree α :=
  { self with node := fun b => if b = a then f (self.node b) else self.node b }

/-- The assignment `node->left = new` or `node->right = new`. -/
def setChild (self : RBTree α) (side : Side) (a : α) (new : Option α) : RBTree α :=
  self.write a fun node => node.setChild side new

/-- `hev_rbtree_node_set_parent`. -/
def setParent (self : RBTree α) (a : α) (parent : Option α) : RBTree α :=
  self.write a fun node => { node with parent := parent }

/-- `hev_rbtree_node_set_parent_color`. -/
def setParentColor (self : RBTree α) (a : α) (parent : Option α) (color : Color) : RBTree α :=
  self.write a fun node => { node with parent := parent, color := color }

/-- `hev_rbtree_node_set_black`. -/
def setBlack (self : RBTree α) (a : α) : RBTree α :=
  self.write a fun node => { node with color := .black }

/-- A write to the node behind a pointer, guarded by `if (tmp)`. -/
def ifSome (self : RBTree α) (tmp : Option α) (f : RBTree α → α → RBTree α) : RBTree α :=
  match tmp with
  | none => self
  | some a => f self a

/-- The test `tmp && hev_rbtree_node_is_red (tmp)`. -/
def isRed (self : RBTree α) (tmp : Option α) : Bool :=
  match tmp with
  | none => false
  | some a => (self.node a).color = .red

/-- `hev_rbtree_change_child`. -/
def changeChild (self : RBTree α) (old : α) (new : Option α) (parent : Option α) : RBTree α :=
  match parent with
  | some parent =>
      if (self.node parent).left = some old then self.setChild .left parent new
      else self.setChild .right parent new
  | none => { self with root := new }

/-- `hev_rbtree_rotate_set_parents`. -/
def rotateSetParents (self : RBTree α) (old new : α) (color : Color) : RBTree α :=
  let parent := (self.node old).parent
  let self := self.setParentColor new parent (self.node old).color
  let self := self.setParentColor old (some new) color
  self.changeChild old (some new) parent

/-- `hev_rbtree_node_link`: the node is a red leaf below `parent`, on the side whose link is `link`;
without a parent the link is the root. -/
def nodeLink (self : RBTree α) (node : α) (link : Option (α × Side)) : RBTree α :=
  let self := self.write node fun _ => ⟨link.map Prod.fst, .red, none, none⟩
  match link with
  | none => { self with root := some node }
  | some (parent, side) => self.setChild side parent (some node)

/-! ### Insertion -/

/-- A round of `hev_rbtree_insert_color` with a red parent that is the child of the grandparent on
the side `side`. -/
def insertColorAt (side : Side) (self : RBTree α) (node parent gparent : α) :
    (RBTree α × α × Option α) ⊕ RBTree α :=
  let tmp := (self.node gparent).child side.opposite
  if self.isRed tmp then
    -- the uncle is red: flip the colours and go on at the grandparent
    let self := self.ifSome tmp fun self tmp => self.setParentColor tmp (some gparent) .black
    let self := self.setParentColor parent (some gparent) .black
    let parent := (self.node gparent).parent
    .inl (self.setParentColor gparent parent .red, gparent, parent)
  else
    let tmp := (self.node parent).child side.opposite
    let (self, parent, tmp) :=
      if some node = tmp then
        let tmp := (self.node node).child side
        let self := self.setChild side.opposite parent tmp
        let self := self.setChild side node (some parent)
        let self := self.ifSome tmp fun self tmp => self.setParentColor tmp (some parent) .black
        let self := self.setParentColor parent (some node) .red
        (self, node, (self.node node).child side.opposite)
      else (self, parent, tmp)
    let self := self.setChild side gparent tmp
    let self := self.setChild side.opposite parent (some gparent)
    let self := self.ifSome tmp fun self tmp => self.setParentColor tmp (some gparent) .black
    .inr (self.rotateSetParents gparent parent .red)

/-- A round of the loop of `hev_rbtree_insert_color`, with the node and its parent. -/
def insertColorRound :
    RBTree α × α × Option α → Option ((RBTree α × α × Option α) ⊕ RBTree α)
  | (self, node, none) => some (.inr (self.setParentColor node none .black))
  | (self, node, some parent) =>
      if (self.node parent).color = .black then some (.inr self)
      else (self.node parent).parent.map fun gparent =>
        if some parent ≠ (self.node gparent).right then
          insertColorAt .left self node parent gparent
        else insertColorAt .right self node parent gparent

/-- `hev_rbtree_insert_color`, cut off after `fuel` rounds. -/
def insertColor (fuel : ℕ) (self : RBTree α) (node : α) : Option (RBTree α) :=
  Loop.run insertColorRound fuel (self, node, (self.node node).parent)

/-! ### The tree the pointers make -/

section

omit [DecidableEq α]

/-- The node with the given fields, `near` on the side `side`. -/
def nodeOf (side : Side) (parent : Option α) (color : Color) (near far : Option α) :
    RBTreeNode α :=
  match side with
  | .left => ⟨parent, color, near, far⟩
  | .right => ⟨parent, color, far, near⟩

/-- The nodes of `t` are laid out in the memory, below the node `up`. -/
def Holds (m : α → RBTreeNode α) : Option α → ColoredTree α → Prop
  | _, .leaf => True
  | up, .node c l a r =>
      m a = ⟨up, c, l.root, r.root⟩ ∧ Holds m (some a) l ∧ Holds m (some a) r

/-- The nodes of the way up and of the subtrees beside it are laid out in the memory, with the node
`hole` at the place the way starts from. -/
def HoldsPath (m : α → RBTreeNode α) : Option α → List (Frame α) → Prop
  | _, [] => True
  | hole, f :: p =>
      m f.item = nodeOf f.side (Path.up p) f.color hole f.sibling.root ∧
        Holds m (some f.item) f.sibling ∧ HoldsPath m (some f.item) p

/-- The root of the tree with the node `hole` at the place whose way up is the path. -/
def top : Option α → List (Frame α) → Option α
  | hole, [] => hole
  | _, f :: p => top (some f.item) p

@[simp]
theorem top_nil (hole : Option α) :
  top hole [] = hole
  := rfl

@[simp]
theorem top_cons (hole : Option α) (f : Frame α) (p : List (Frame α)) :
  top hole (f :: p) = top (some f.item) p
  := rfl

/-- The pointers are those of the tree. -/
structure Models (tree : RBTree α) (t : ColoredTree α) : Prop where
  root : tree.root = t.root
  holds : Holds tree.node none t
  nodup : t.toList.Nodup

/-- The pointers afterwards are those of the tree, and no other node has changed. -/
structure Rebuilt (before after : RBTree α) (t : ColoredTree α) : Prop where
  models : after.Models t
  frame : ∀ b, b ∉ t.toList → after.node b = before.node b

@[simp]
theorem nodeOf_child (side : Side) (parent : Option α) (color : Color) (near far : Option α) :
  (nodeOf side parent color near far).child side = near
  := by
  cases side <;> rfl

@[simp]
theorem nodeOf_child_opposite
    (side : Side) (parent : Option α) (color : Color) (near far : Option α) :
  (nodeOf side parent color near far).child side.opposite = far
  := by
  cases side <;> rfl

@[simp]
theorem nodeOf_parent (side : Side) (parent : Option α) (color : Color) (near far : Option α) :
  (nodeOf side parent color near far).parent = parent
  := by
  cases side <;> rfl

@[simp]
theorem nodeOf_color (side : Side) (parent : Option α) (color : Color) (near far : Option α) :
  (nodeOf side parent color near far).color = color
  := by
  cases side <;> rfl

theorem holds_join
    {m : α → RBTreeNode α} {up : Option α} {side : Side} {c : Color} {near far : ColoredTree α}
    {a : α} :
  Holds m up (.join side c near a far)
    ↔ m a = nodeOf side up c near.root far.root ∧ Holds m (some a) near ∧ Holds m (some a) far
  := by
  cases side with
  | left => rfl
  | right => simp only [ColoredTree.join, Holds, nodeOf, and_congr_right_iff]; tauto

/-- A layout depends on the nodes of the tree only. -/
theorem Holds.congr {m m' : α → RBTreeNode α} {up : Option α} {t : ColoredTree α}
    (h : Holds m up t) (hm : ∀ b ∈ t.toList, m' b = m b) :
  Holds m' up t
  := by
  induction t generalizing up with
  | leaf => trivial
  | node c l a r ihl ihr =>
      obtain ⟨ha, hl, hr⟩ := h
      refine ⟨(hm a (by simp [ColoredTree.toList])).trans ha, ihl hl ?_, ihr hr ?_⟩
      · intro b hb
        apply hm b (by simp [ColoredTree.toList, hb])
      · intro b hb
        apply hm b (by simp [ColoredTree.toList, hb])

/-- The layout of a subtree whose root is put below another node and into another colour. -/
theorem Holds.repaint {m m' : α → RBTreeNode α} {up up' : Option α} {c : Color} {t : ColoredTree α}
    (h : Holds m up t) (hnodup : t.toList.Nodup)
    (hroot : ∀ a, t.root = some a → m' a = { m a with parent := up', color := c })
    (hm : ∀ b ∈ t.toList, t.root ≠ some b → m' b = m b) :
  Holds m' up' (t.paint c)
  := by
  cases t with
  | leaf => trivial
  | node d l a r =>
      obtain ⟨ha, hl, hr⟩ := h
      simp only [ColoredTree.toList, List.nodup_append, List.nodup_cons, List.mem_cons] at hnodup
      obtain ⟨hnl, ⟨har, hnr⟩, hd⟩ := hnodup
      refine ⟨by simp [hroot a rfl, ha], hl.congr ?_, hr.congr ?_⟩
      · intro b hb
        have hne : a ≠ b := (hd b hb a (.inl rfl)).symm
        apply hm b (by simp [ColoredTree.toList, hb])
        simpa [ColoredTree.root] using hne
      · intro b hb
        have hne : a ≠ b := fun heq => har (heq ▸ hb)
        apply hm b (by simp [ColoredTree.toList, hb])
        simpa [ColoredTree.root] using hne

/-- The layout of a way up depends on its nodes only. -/
theorem HoldsPath.congr {m m' : α → RBTreeNode α} {hole : Option α} {p : List (Frame α)}
    (h : HoldsPath m hole p) (hm : ∀ b ∈ Path.items p, m' b = m b) :
  HoldsPath m' hole p
  := by
  induction p generalizing hole with
  | nil => trivial
  | cons f p ih =>
      obtain ⟨hf, hs, hp⟩ := h
      refine ⟨(hm _ (by simp [Path.items])).trans hf, hs.congr ?_, ih hp ?_⟩
      · intro b hb
        apply hm b (by simp [Path.items, hb])
      · intro b hb
        apply hm b (by simp [Path.items, hb])

theorem root_plug (t : ColoredTree α) (p : List (Frame α)) :
  (plug t p).root = top t.root p
  := by
  induction p generalizing t with
  | nil => rfl
  | cons f p ih => rw [plug, ih, Frame.fill, ColoredTree.root_join, top]

theorem holds_plug {m : α → RBTreeNode α} {t : ColoredTree α} {p : List (Frame α)} :
  Holds m none (plug t p) ↔ Holds m (Path.up p) t ∧ HoldsPath m t.root p
  := by
  induction p generalizing t with
  | nil => simp [plug, HoldsPath]
  | cons f p ih =>
      rw [plug, ih, Frame.fill, holds_join, ColoredTree.root_join, HoldsPath, Path.up_cons]
      tauto

/-- The layout of a tree, divided at a place: the pointer to the root, the subtree at the place, the
way up, and that all addresses are different. -/
theorem models_plug {self : RBTree α} {t : ColoredTree α} {p : List (Frame α)} :
  self.Models (plug t p) ↔
    self.root = top t.root p ∧ Holds self.node (Path.up p) t ∧ HoldsPath self.node t.root p
      ∧ (t.toList ++ Path.items p).Nodup
  := by
  rw [← (toList_plug_perm t p).nodup_iff, ← root_plug, ← and_assoc (a := Holds _ _ _),
    ← holds_plug]
  exact ⟨fun ⟨h, h', h''⟩ => ⟨h, h', h''⟩, fun ⟨h, h', h''⟩ => ⟨h, h', h''⟩⟩

@[simp]
theorem setChild_nodeOf
    (side : Side) (parent : Option α) (color : Color) (near far new : Option α) :
  (nodeOf side parent color near far).setChild side new = nodeOf side parent color new far
  := by
  cases side <;> rfl

@[simp]
theorem setChild_opposite_nodeOf
    (side : Side) (parent : Option α) (color : Color) (near far new : Option α) :
  (nodeOf side parent color near far).setChild side.opposite new
    = nodeOf side parent color near new
  := by
  cases side <;> rfl

@[simp]
theorem nodeOf_update
    (side : Side) (parent parent' : Option α) (color color' : Color) (near far : Option α) :
  ({ nodeOf side parent color near far with parent := parent', color := color' } : RBTreeNode α)
    = nodeOf side parent' color' near far
  := by
  cases side <;> rfl

@[simp]
theorem nodeOf_update_color
    (side : Side) (parent : Option α) (color color' : Color) (near far : Option α) :
  ({ nodeOf side parent color near far with color := color' } : RBTreeNode α)
    = nodeOf side parent color' near far
  := by
  cases side <;> rfl

theorem nodeOf_opposite
    (side : Side) (parent : Option α) (color : Color) (near far : Option α) :
  nodeOf side.opposite parent color near far = nodeOf side parent color far near
  := by
  cases side <;> rfl

end

/-! ### What the writes change -/

@[simp]
theorem write_root (self : RBTree α) (a : α) (f : RBTreeNode α → RBTreeNode α) :
  (self.write a f).root = self.root
  := rfl

@[simp]
theorem setChild_root (self : RBTree α) (side : Side) (a : α) (new : Option α) :
  (self.setChild side a new).root = self.root
  := rfl

@[simp]
theorem setParentColor_root (self : RBTree α) (a : α) (parent : Option α) (color : Color) :
  (self.setParentColor a parent color).root = self.root
  := rfl

@[simp]
theorem write_node_self (self : RBTree α) (a : α) (f : RBTreeNode α → RBTreeNode α) :
  (self.write a f).node a = f (self.node a)
  := by
  simp [write]

@[simp]
theorem write_node_ne (self : RBTree α) {a b : α} (f : RBTreeNode α → RBTreeNode α) (h : b ≠ a) :
  (self.write a f).node b = self.node b
  := by
  simp [write, h]

@[simp]
theorem setChild_node_self (self : RBTree α) (side : Side) (a : α) (new : Option α) :
  (self.setChild side a new).node a = (self.node a).setChild side new
  := write_node_self self a _

@[simp]
theorem setChild_node_ne
    (self : RBTree α) (side : Side) {a b : α} (new : Option α) (h : b ≠ a) :
  (self.setChild side a new).node b = self.node b
  := write_node_ne self _ h

@[simp]
theorem setParentColor_node_self
    (self : RBTree α) (a : α) (parent : Option α) (color : Color) :
  (self.setParentColor a parent color).node a
    = { self.node a with parent := parent, color := color }
  := write_node_self self a _

@[simp]
theorem setParentColor_node_ne
    (self : RBTree α) {a b : α} (parent : Option α) (color : Color) (h : b ≠ a) :
  (self.setParentColor a parent color).node b = self.node b
  := write_node_ne self _ h

/-- The new child is linked in the place of the old one, and only the node above changes. -/
theorem changeChild_spec
    (self : RBTree α) {old : α} {p : List (Frame α)} (new : Option α)
    (hroot : self.root = top (some old) p) (hpath : HoldsPath self.node (some old) p)
    (hnodup : (old :: Path.items p).Nodup) :
  (self.changeChild old new (Path.up p)).root = top new p
    ∧ HoldsPath (self.changeChild old new (Path.up p)).node new p
    ∧ ∀ b, Path.up p ≠ some b → (self.changeChild old new (Path.up p)).node b = self.node b
  := by
  cases p with
  | nil => simp [changeChild, top, HoldsPath]
  | cons f p =>
      obtain ⟨side, c, a, s⟩ := f
      obtain ⟨ha, hs, hp⟩ := hpath
      simp only [Path.items, List.nodup_cons, List.mem_cons, List.mem_append, not_or] at hnodup
      obtain ⟨⟨hne, hold, -⟩, ⟨has, hap⟩, -⟩ := hnodup
      have hlink : (self.changeChild old new (Path.up (⟨side, c, a, s⟩ :: p)))
          = self.setChild side a new := by
        cases side with
        | left => simp [changeChild, ha, nodeOf]
        | right =>
            have : s.root ≠ some old := fun h => hold (ColoredTree.root_mem_toList h)
            simp [changeChild, ha, nodeOf, this]
      rw [hlink]
      refine ⟨hroot, ⟨?_, ?_, ?_⟩, ?_⟩
      · simp [ha]
      · apply hs.congr
        intro b hb
        have : b ≠ a := fun h => has (h ▸ hb)
        simp [this]
      · apply hp.congr
        intro b hb
        have : b ≠ a := fun h => hap (h ▸ hb)
        simp [this]
      · intro b hb
        have : b ≠ a := fun h => hb (by simp [h])
        simp [this]

/-- The end of a rotation: the node `x`, already above `y`, takes the place, the parent and the
colour of `y`. -/
theorem rotateSetParents_spec
    {self : RBTree α} {side : Side} {t u v : ColoredTree α} {x y : α} {p : List (Frame α)}
    {c d : Color} {up : Option α} (color : Color)
    (hroot : self.root = top (some y) p)
    (hx : self.node x = nodeOf side up d t.root (some y))
    (hy : self.node y = nodeOf side (Path.up p) c u.root v.root)
    (ht : Holds self.node (some x) t) (hu : Holds self.node (some y) u)
    (hv : Holds self.node (some y) v) (hp : HoldsPath self.node (some y) p)
    (hnodup : (x :: y :: (t.toList ++ (u.toList ++ (v.toList ++ Path.items p)))).Nodup) :
  self.Rebuilt (self.rotateSetParents y x color)
    (plug (.join side c t x (.join side color u y v)) p)
  := by
  have hnodup' : (y :: Path.items p).Nodup := hnodup.of_cons.sublist
    (((List.sublist_append_right _ _).trans ((List.sublist_append_right _ _).trans
      (List.sublist_append_right _ _))).cons_cons y)
  have hperm :
      ((ColoredTree.join side c t x (.join side color u y v)).toList ++ Path.items p).Nodup := by
    rw [List.nodup_iff_count_le_one] at hnodup ⊢
    intro b
    have := hnodup b
    simp only [List.count_append, List.count_cons, ColoredTree.count_toList_join] at this ⊢
    omega
  simp only [List.nodup_cons, List.mem_cons, List.mem_append, not_or, List.nodup_append] at hnodup
  let colored := (self.setParentColor x (Path.up p) c).setParentColor y (some x) color
  have hcx : colored.node x = nodeOf side (Path.up p) c t.root (some y) := by
    simp [colored, hnodup, hx]
  have hcy : colored.node y = nodeOf side (some x) color u.root v.root := by
    simp [colored, Ne.symm hnodup.1.1, hy]
  have hcolored : ∀ b, b ≠ x → b ≠ y → colored.node b = self.node b := by
    intro b hbx hby
    simp [colored, hbx, hby]
  have hchange : self.rotateSetParents y x color
      = colored.changeChild y (some x) (Path.up p) := by
    simp [rotateSetParents, colored, hy]
  have hpath : HoldsPath colored.node (some y) p := by
    apply hp.congr
    intro b hb
    apply hcolored b <;> grind
  obtain ⟨hroot', hpath', hframe⟩ := changeChild_spec colored (some x) hroot hpath hnodup'
  rw [← hchange] at hroot' hpath' hframe
  have hsubtree : ∀ b, b ≠ x → b ≠ y → b ∉ Path.items p →
      (self.rotateSetParents y x color).node b = self.node b := by
    intro b hbx hby hbp
    rw [hframe b (Path.up_ne_some hbp), hcolored b hbx hby]
  refine ⟨models_plug.mpr ⟨by simpa using hroot', holds_join.mpr ⟨?_, ?_, holds_join.mpr
    ⟨?_, ?_, ?_⟩⟩, by simpa using hpath', hperm⟩, ?_⟩
  · rw [hframe x (Path.up_ne_some (by tauto)), hcx, ColoredTree.root_join]
  · apply ht.congr
    intro b hb
    apply hsubtree b <;> grind
  · rw [hframe y (Path.up_ne_some (by tauto)), hcy]
  · apply hu.congr
    intro b hb
    apply hsubtree b <;> grind
  · apply hv.congr
    intro b hb
    apply hsubtree b <;> grind
  · intro b hb
    simp only [mem_toList_plug, ColoredTree.mem_toList_join, not_or] at hb
    apply hsubtree b <;> tauto

@[simp]
theorem ifSome_setParentColor_root
    (self : RBTree α) (tmp parent : Option α) (color : Color) :
  (self.ifSome tmp fun self tmp => self.setParentColor tmp parent color).root = self.root
  := by
  cases tmp <;> rfl

@[simp]
theorem ifSome_setParentColor_self
    (self : RBTree α) (a : α) (parent : Option α) (color : Color) :
  (self.ifSome (some a) fun self tmp => self.setParentColor tmp parent color).node a
    = { self.node a with parent := parent, color := color }
  := by
  simp [ifSome, setParentColor]

@[simp]
theorem ifSome_setParentColor_ne
    (self : RBTree α) {tmp : Option α} (parent : Option α) (color : Color) {b : α}
    (h : tmp ≠ some b) :
  (self.ifSome tmp fun self tmp => self.setParentColor tmp parent color).node b = self.node b
  := by
  cases tmp with
  | none => rfl
  | some a =>
      have : b ≠ a := fun heq => h (by rw [heq])
      simp [ifSome, setParentColor, this]

/-- The root of a subtree that is put below another node, in black. -/
theorem Holds.ifSome_setParentColor
    {self : RBTree α} {u : Option α} {t : ColoredTree α} (h : Holds self.node u t)
    (hnodup : t.toList.Nodup) (up : Option α) (color : Color) :
  Holds (self.ifSome t.root fun self tmp => self.setParentColor tmp up color).node up
    (t.paint color)
  := by
  apply h.repaint hnodup
  · intro a ha
    rw [ha, ifSome_setParentColor_self]
  · intro b _ hb
    rw [ifSome_setParentColor_ne _ _ _ hb]

/-- A rotation of `x` above `y`: the inner subtree `u` moves below `y`, with its root in the colour
`cu`, and `y` gets the colour `color`.  The parent of `x` and the child `w` of `y` that was `x` are
overwritten and may be anything. -/
theorem rotate_spec
    {self : RBTree α} {side : Side} {t u v : ColoredTree α} {x y : α} {p : List (Frame α)}
    {c d : Color} {up up' w : Option α} (cu color : Color)
    (hroot : self.root = top (some y) p)
    (hx : self.node x = nodeOf side up d t.root u.root)
    (hy : self.node y = nodeOf side (Path.up p) c w v.root)
    (ht : Holds self.node (some x) t) (hu : Holds self.node up' u)
    (hv : Holds self.node (some y) v) (hp : HoldsPath self.node (some y) p)
    (hnodup : (x :: y :: (t.toList ++ (u.toList ++ (v.toList ++ Path.items p)))).Nodup) :
  self.Rebuilt
    ((((self.setChild side y u.root).setChild side.opposite x (some y)).ifSome u.root
      fun self tmp => self.setParentColor tmp (some y) cu).rotateSetParents y x color)
    (plug (.join side c t x (.join side color (u.paint cu) y v)) p)
  := by
  have hnodup' := hnodup
  simp only [List.nodup_cons, List.mem_cons, List.mem_append, not_or, List.nodup_append] at hnodup
  have hxu : u.root ≠ some x := ColoredTree.root_ne_some (by grind)
  have hyu : u.root ≠ some y := ColoredTree.root_ne_some (by grind)
  have hxy : x ≠ y := hnodup.1.1
  let linked := (self.setChild side y u.root).setChild side.opposite x (some y)
  let moved := linked.ifSome u.root fun self tmp => self.setParentColor tmp (some y) cu
  have hlinked : ∀ b, b ≠ x → b ≠ y → linked.node b = self.node b := by
    intro b hbx hby
    simp [linked, hbx, hby]
  have hmoved : ∀ b, b ≠ x → b ≠ y → b ∉ u.toList → moved.node b = self.node b := by
    intro b hbx hby hbu
    rw [← hlinked b hbx hby]
    exact ifSome_setParentColor_ne _ _ _ (ColoredTree.root_ne_some hbu)
  have hmx : moved.node x = nodeOf side up d t.root (some y) := by
    simp [moved, hxu, linked, hxy, hx]
  have hmy : moved.node y = nodeOf side (Path.up p) c u.root v.root := by
    simp [moved, hyu, linked, hxy.symm, hy]
  have hmu : Holds moved.node (some y) (u.paint cu) := by
    apply Holds.ifSome_setParentColor (u := up') _ (by grind)
    apply hu.congr
    intro b hb
    apply hlinked b <;> grind
  have hmt : Holds moved.node (some x) t := by
    apply ht.congr
    intro b hb
    apply hmoved b <;> grind
  have hmv : Holds moved.node (some y) v := by
    apply hv.congr
    intro b hb
    apply hmoved b <;> grind
  have hmp : HoldsPath moved.node (some y) p := by
    apply hp.congr
    intro b hb
    apply hmoved b <;> grind
  obtain ⟨hmodels, hframe⟩ := rotateSetParents_spec color (by simpa [moved, linked] using hroot)
    hmx (by simpa using hmy) hmt hmu hmv hmp (by simpa using hnodup')
  use hmodels
  intro b hb
  rw [hframe b hb]
  simp only [mem_toList_plug, ColoredTree.mem_toList_join, ColoredTree.toList_paint, not_or] at hb
  apply hmoved b <;> tauto

/-- A round below a black grandparent with a black uncle, when the node is an outer grandchild. -/
theorem insertColorAt_outer
    {self : RBTree α} {side : Side} {l r u v : ColoredTree α} {a x y : α} {c d : Color}
    {p : List (Frame α)}
    (h : self.Models
      (plug (.node c l a r) (⟨side, d, x, u⟩ :: ⟨side, .black, y, v⟩ :: p)))
    (hv : ¬self.isRed v.root) :
  ∃ s, insertColorAt side self a x y = .inr s
    ∧ self.Rebuilt s (plug (.join side .black (.node c l a r) x
        (.join side .red (u.paint .black) y v)) p)
  := by
  obtain ⟨hroot, ht, ⟨hx, hu, hy, hv', hp⟩, hnodup⟩ := models_plug.mp h
  simp only [Path.up_cons, Path.items] at ht hx hu hy hv' hp hnodup
  have hnodup' : (x :: y :: ((ColoredTree.node c l a r).toList ++ (u.toList ++ (v.toList ++
      Path.items p)))).Nodup := by
    rw [List.nodup_iff_count_le_one] at hnodup ⊢
    intro b
    have := hnodup b
    simp only [List.count_append, List.count_cons] at this ⊢
    omega
  have hau : some a ≠ u.root := by
    apply (ColoredTree.root_ne_some _).symm
    intro hau
    simp only [List.nodup_append, ColoredTree.toList] at hnodup
    exact hnodup.2.2 a (by simp) a (by simp [hau]) rfl
  refine ⟨_, ?_, rotate_spec .black .red hroot hx hy ht hu hv' hp hnodup'⟩
  simp [insertColorAt, hx, hy, hv, hau]

/-- A round below a black grandparent with a black uncle, when the node is an inner grandchild. -/
theorem insertColorAt_inner
    {self : RBTree α} {side : Side} {near far u v : ColoredTree α} {a x y : α} {c d : Color}
    {p : List (Frame α)}
    (h : self.Models
      (plug (.join side c near a far) (⟨side.opposite, d, x, u⟩ :: ⟨side, .black, y, v⟩ :: p)))
    (hv : ¬self.isRed v.root) :
  ∃ s, insertColorAt side self a x y = .inr s
    ∧ self.Rebuilt s (plug (.join side .black (.join side .red u x (near.paint .black)) a
        (.join side .red (far.paint .black) y v)) p)
  := by
  obtain ⟨hroot, ht, ⟨hx, hu, hy, hv', hp⟩, hnodup⟩ := models_plug.mp h
  simp only [Path.up_cons, Path.items] at ht hx hu hy hv' hp hnodup
  obtain ⟨ha, hnear, hfar⟩ := holds_join.mp ht
  rw [nodeOf_opposite, ColoredTree.root_join] at hx
  have hnodup' : (a :: y :: ((ColoredTree.join side .red u x (near.paint .black)).toList ++
      (far.toList ++ (v.toList ++ Path.items p)))).Nodup := by
    rw [List.nodup_iff_count_le_one] at hnodup ⊢
    intro b
    have := hnodup b
    simp only [List.count_append, List.count_cons, ColoredTree.toList_paint,
      ColoredTree.count_toList_join] at this ⊢
    omega
  have hdistinct : (a :: x :: y :: (near.toList ++ (far.toList ++ (u.toList ++ (v.toList ++
      Path.items p))))).Nodup := by
    rw [List.nodup_iff_count_le_one] at hnodup ⊢
    intro b
    have := hnodup b
    simp only [List.count_append, List.count_cons, ColoredTree.count_toList_join] at this ⊢
    omega
  simp only [List.nodup_cons, List.mem_cons, List.mem_append, not_or, List.nodup_append]
    at hdistinct
  have hax : a ≠ x := hdistinct.1.1
  have hay : a ≠ y := hdistinct.1.2.1
  have hxy : x ≠ y := hdistinct.2.1.1
  have hna : near.root ≠ some a := ColoredTree.root_ne_some (by tauto)
  have hnx : near.root ≠ some x := ColoredTree.root_ne_some (by tauto)
  have hny : near.root ≠ some y := ColoredTree.root_ne_some (by tauto)
  let linked := (self.setChild side.opposite x near.root).setChild side a (some x)
  let moved := linked.ifSome near.root fun self tmp => self.setParentColor tmp (some x) .black
  let turned := moved.setParentColor x (some a) .red
  have hlinked : ∀ b, b ≠ a → b ≠ x → linked.node b = self.node b := by
    intro b hba hbx
    simp [linked, hba, hbx]
  have hturned : ∀ b, b ≠ a → b ≠ x → b ∉ near.toList → turned.node b = self.node b := by
    intro b hba hbx hbn
    rw [← hlinked b hba hbx]
    simp [turned, moved, hbx, ColoredTree.root_ne_some hbn]
  have hta : turned.node a = nodeOf side (some x) c (some x) far.root := by
    simp [turned, moved, linked, hax, hna, ha]
  have htx : turned.node x = nodeOf side (some a) .red u.root near.root := by
    simp [turned, moved, linked, hax.symm, hnx, hx]
  have hty : turned.node y = nodeOf side (Path.up p) .black (some x) v.root := by
    rw [hturned y hay.symm hxy.symm (by tauto), hy]
  have htnear : Holds turned.node (some x) (near.paint .black) := by
    have hblack : Holds moved.node (some x) (near.paint .black) := by
      apply Holds.ifSome_setParentColor (u := some a) _ (by tauto)
      apply hnear.congr
      intro b hb
      apply hlinked b <;> grind
    apply hblack.congr
    intro b hb
    apply setParentColor_node_ne
    grind [ColoredTree.toList_paint]
  have htu : Holds turned.node (some x) u := by
    apply hu.congr
    intro b hb
    apply hturned b <;> grind
  have htfar : Holds turned.node (some a) far := by
    apply hfar.congr
    intro b hb
    apply hturned b <;> grind
  have htv : Holds turned.node (some y) v := by
    apply hv'.congr
    intro b hb
    apply hturned b <;> grind
  have htp : HoldsPath turned.node (some y) p := by
    apply hp.congr
    intro b hb
    apply hturned b <;> grind
  have hround : insertColorAt side self a x y = .inr
      ((((turned.setChild side y far.root).setChild side.opposite a (some y)).ifSome far.root
        fun self tmp => self.setParentColor tmp (some y) .black).rotateSetParents y a .red) := by
    simp [insertColorAt, hx, hy, hv, ha, turned, moved, linked, hax, hna]
  obtain ⟨hmodels, hframe⟩ := rotate_spec (t := .join side .red u x (near.paint .black)) .black .red
    (by simpa [turned, moved, linked] using hroot) (by simpa using hta) hty
    (holds_join.mpr ⟨by simpa using htx, htu, htnear⟩) htfar htv htp hnodup'
  refine ⟨_, hround, hmodels, ?_⟩
  intro b hb
  rw [hframe b hb]
  simp only [mem_toList_plug, ColoredTree.mem_toList_join, ColoredTree.toList_paint, not_or] at hb
  apply hturned b <;> tauto

/-- A round below a grandparent with a red uncle: the parent and the uncle turn black and the
grandparent red. -/
theorem insertColorAt_red
    {self : RBTree α} {side s : Side} {t u v : ColoredTree α} {a x y : α} {d e : Color}
    {p : List (Frame α)}
    (h : self.Models (plug t (⟨s, d, x, u⟩ :: ⟨side, e, y, v⟩ :: p)))
    (hv : self.isRed v.root) :
  ∃ self', insertColorAt side self a x y = .inl (self', y, Path.up p)
    ∧ self.Rebuilt self'
        (plug (.join side .red (.join s .black t x u) y (v.paint .black)) p)
  := by
  obtain ⟨hroot, ht, ⟨hx, hu, hy, hv', hp⟩, hnodup⟩ := models_plug.mp h
  simp only [Path.up_cons, Path.items] at ht hx hu hy hv' hp hnodup
  have hnodup' : ((ColoredTree.join side .red (.join s .black t x u) y (v.paint .black)).toList
      ++ Path.items p).Nodup := by
    rw [List.nodup_iff_count_le_one] at hnodup ⊢
    intro b
    have := hnodup b
    simp only [List.count_append, List.count_cons, ColoredTree.toList_paint,
      ColoredTree.count_toList_join] at this ⊢
    omega
  have hdistinct : (x :: y :: (t.toList ++ (u.toList ++ (v.toList ++ Path.items p)))).Nodup := by
    rw [List.nodup_iff_count_le_one] at hnodup ⊢
    intro b
    have := hnodup b
    simp only [List.count_append, List.count_cons] at this ⊢
    omega
  simp only [List.nodup_cons, List.mem_cons, List.mem_append, not_or, List.nodup_append]
    at hdistinct
  have hxy : x ≠ y := hdistinct.1.1
  have hvx : v.root ≠ some x := ColoredTree.root_ne_some (by tauto)
  have hvy : v.root ≠ some y := ColoredTree.root_ne_some (by tauto)
  let uncle := self.ifSome v.root fun self tmp => self.setParentColor tmp (some y) .black
  let flipped := (uncle.setParentColor x (some y) .black).setParentColor y (Path.up p) .red
  have hround : insertColorAt side self a x y = .inl (flipped, y, Path.up p) := by
    simp [insertColorAt, hy, hv, hvy, hxy.symm, flipped, uncle]
  have huncle : ∀ b, b ≠ x → b ≠ y → flipped.node b = uncle.node b := by
    intro b hbx hby
    simp [flipped, hbx, hby]
  have hflipped : ∀ b, b ≠ x → b ≠ y → b ∉ v.toList → flipped.node b = self.node b := by
    intro b hbx hby hbv
    rw [huncle b hbx hby]
    exact ifSome_setParentColor_ne _ _ _ (ColoredTree.root_ne_some hbv)
  refine ⟨flipped, hround, models_plug.mpr ⟨?_, holds_join.mpr ⟨?_, holds_join.mpr ⟨?_, ?_, ?_⟩, ?_⟩,
    ?_, hnodup'⟩, ?_⟩
  · simpa [flipped, uncle] using hroot
  · simp [flipped, uncle, hxy.symm, hvy, hy]
  · simp [flipped, uncle, hxy, hvx, hx]
  · apply ht.congr
    intro b hb
    apply hflipped b <;> grind
  · apply hu.congr
    intro b hb
    apply hflipped b <;> grind
  · have hblack := Holds.ifSome_setParentColor hv' (by tauto) (some y) .black
    apply hblack.congr
    intro b hb
    apply huncle b <;> grind [ColoredTree.toList_paint]
  · rw [ColoredTree.root_join]
    apply hp.congr
    intro b hb
    apply hflipped b <;> grind
  · intro b hb
    simp only [mem_toList_plug, ColoredTree.mem_toList_join, ColoredTree.toList_paint, not_or] at hb
    apply hflipped b <;> tauto

/-! ### The whole insertion -/

omit [DecidableEq α] in
/-- The colour of the node behind a pointer to a balanced subtree. -/
theorem isRed_root {self : RBTree α} {up : Option α} {c : Color} {n : ℕ} {t : ColoredTree α}
    (h : Holds self.node up t) (ht : t.Balanced c n) :
  self.isRed t.root ↔ c = .red
  := by
  cases ht with
  | leaf => simp [isRed]
  | red hl hr => simp [isRed, h.1]
  | black hl hr => simp [isRed, h.1]

omit [DecidableEq α] in
theorem Rebuilt.trans {self s u : RBTree α} {t t' : ColoredTree α}
    (h : self.Rebuilt s t) (h' : s.Rebuilt u t') (hitems : t'.toList = t.toList) :
  self.Rebuilt u t'
  := by
  use h'.models
  intro b hb
  rw [h'.frame b hb, h.frame b (hitems ▸ hb)]

/-- What the loop of `hev_rbtree_insert_color` keeps: the pointers are those of a tree with the
items `items` whose balance is broken at most by the red node `node`, `k` steps below the root. -/
def Inserting (self : RBTree α) (items : List α) (k : ℕ) (s : RBTree α × α × Option α) : Prop :=
  ∃ n l r p, p.length = k ∧ self.Rebuilt s.1 (plug (.node .red l s.2.1 r) p) ∧ s.2.2 = Path.up p
    ∧ (plug (.node .red l s.2.1 r) p).toList = items
    ∧ l.Balanced .black n ∧ r.Balanced .black n ∧ Path.Balanced .black n p

/-- The pointers of `s` are those of a red-black tree with the items `items`, and no other node
differs from `self`. -/
def Valid (self : RBTree α) (items : List α) (s : RBTree α) : Prop :=
  ∃ n t, self.Rebuilt s t ∧ t.toList = items ∧ t.Balanced .black n

/-- The side a frame is left from, as the source finds it. -/
theorem insertColorRound_eq
    {self : RBTree α} {t u v : ColoredTree α} {a x y : α} {s side : Side} {e : Color}
    {p : List (Frame α)}
    (h : self.Models (plug t (⟨s, .red, x, u⟩ :: ⟨side, e, y, v⟩ :: p))) :
  insertColorRound (self, a, some x) = some (insertColorAt side self a x y)
  := by
  obtain ⟨-, -, ⟨hx, -, hy, -, -⟩, hnodup⟩ := models_plug.mp h
  simp only [Path.up_cons, Path.items] at hx hy hnodup
  have hparent : (self.node x).parent = some y := by rw [hx, nodeOf_parent]
  have hcolor : (self.node x).color = .red := by rw [hx, nodeOf_color]
  cases side with
  | left =>
      have hxv : some x ≠ v.root := by
        apply (ColoredTree.root_ne_some _).symm
        intro hxv
        simp only [List.nodup_append, List.nodup_cons] at hnodup
        exact hnodup.2.1.1 (by simp [hxv])
      simp [insertColorRound, hparent, hcolor, hy, nodeOf, hxv]
  | right => simp [insertColorRound, hparent, hcolor, hy, nodeOf]

/-- A round of `hev_rbtree_insert_color` ends with a red-black tree or goes on nearer to the root. -/
theorem insertColorRound_spec
    {self : RBTree α} {items : List α} {k : ℕ} {s : RBTree α × α × Option α}
    (h : self.Inserting items k s) :
  Loop.Round (fun t => ∃ j < k, self.Inserting items j t) (self.Valid items) (insertColorRound s)
  := by
  obtain ⟨s, a, up⟩ := s
  obtain ⟨n, l, r, p, hk, hs, hup, hitems, hl, hr, hp⟩ := h
  simp only at hs hup hitems
  cases hp with
  | nil =>
      right
      obtain ⟨⟨hroot, hholds, hnodup⟩, hframe⟩ := hs
      refine ⟨s.setParentColor a none .black, by rw [hup]; rfl, n + 1,
        (ColoredTree.node .red l a r).paint .black,
        ⟨⟨hroot, hholds.repaint hnodup ?_ ?_, hnodup⟩, ?_⟩, hitems, .black hl hr⟩
      · rintro b ⟨⟩
        apply setParentColor_node_self
      · intro b hb hne
        apply setParentColor_node_ne
        rintro rfl
        exact hne rfl
      · intro b hb
        rw [← hframe b hb]
        apply setParentColor_node_ne
        rintro rfl
        exact hb (by simp [ColoredTree.toList])
  | @black _ _ d side x u p hu hp =>
      right
      obtain ⟨-, -, ⟨hx, -⟩, -⟩ := models_plug.mp hs.models
      have hplace : Path.Balanced .red n (⟨side, .black, x, u⟩ :: p) := .black hu hp
      obtain ⟨m, hm⟩ := hplace.plug (ColoredTree.Balanced.red (a := a) hl hr)
      refine ⟨s, ?_, m, _, hs, hitems, hm⟩
      rw [hup, Path.up_cons, insertColorRound, if_pos (by rw [hx, nodeOf_color])]
  | @red _ s' x u p hu hp =>
      obtain ⟨d, side, y, v, q, rfl, hv, hq⟩ := hp.red_inv
      rw [hup, Path.up_cons, insertColorRound_eq hs.models]
      obtain ⟨-, -, ⟨-, -, -, hvh, -⟩, -⟩ := models_plug.mp hs.models
      cases d with
      | red =>
          left
          obtain ⟨t, ht, hre⟩ := insertColorAt_red (a := a) hs.models ((isRed_root hvh hv).mpr rfl)
          have hlist := toList_plug_congr (ColoredTree.toList_join_congr side y .red .black
            (ColoredTree.toList_join_congr s' x .black .red (Eq.refl (ColoredTree.node .red l a r).toList)
              (Eq.refl u.toList))
            (v.toList_paint .black)) q
          have hnear := ColoredTree.Balanced.join_black (a := x) s'
            (ColoredTree.Balanced.red (a := a) hl hr) hu
          refine ⟨_, congrArg some ht, q.length, ?_, ?_⟩
          · rw [← hk]
            exact Nat.lt_succ_of_lt (Nat.lt_succ_self _)
          · cases side with
            | left =>
                exact ⟨n + 1, _, _, q, rfl, hs.trans hre hlist, rfl, hlist.trans hitems, hnear,
                  hv.paint_black, hq⟩
            | right =>
                exact ⟨n + 1, _, _, q, rfl, hs.trans hre hlist, rfl, hlist.trans hitems,
                  hv.paint_black, hnear, hq⟩
      | black =>
          right
          have hblack : ¬s.isRed v.root := by
            rw [isRed_root hvh hv]
            decide
          by_cases hside : s' = side
          · subst hside
            obtain ⟨t, ht, hre⟩ := insertColorAt_outer hs.models hblack
            have hlist := (toList_plug_congr (ColoredTree.toList_rotate s' .black .red .black .red
              (.node .red l a r) u v x y) q).symm
            rw [hu.paint_of_black] at hre
            obtain ⟨m, hm⟩ := hq.plug (ColoredTree.Balanced.join_black (a := x) s'
              (ColoredTree.Balanced.red (a := a) hl hr) (.join_red s' (a := y) hu hv))
            exact ⟨t, congrArg some ht, m, _, hs.trans hre hlist, hlist.trans hitems, hm⟩
          · obtain rfl := Side.eq_opposite_of_ne hside
            obtain ⟨near, b, far, heq, hnear, hfar⟩ :=
              (ColoredTree.Balanced.red (a := a) hl hr).of_red side
            obtain rfl : a = b := by
              simpa using congrArg ColoredTree.root heq
            rw [heq] at hs hitems
            obtain ⟨t, ht, hre⟩ := insertColorAt_inner hs.models hblack
            have hlist := (toList_plug_congr (ColoredTree.toList_double_rotate side .black .red .red .black
              .red .red u near far v a y x) q).symm
            rw [hnear.paint_of_black, hfar.paint_of_black] at hre
            obtain ⟨m, hm⟩ := hq.plug (ColoredTree.Balanced.join_black (a := a) side
              (.join_red side (a := x) hu hnear) (.join_red side (a := y) hfar hv))
            exact ⟨t, congrArg some ht, m, _, hs.trans hre hlist, hlist.trans hitems, hm⟩

/-- A place of a tree as `hev_rbtree_node_link` gets it: the node above and the side. -/
def link (p : List (Frame α)) : Option (α × Side) :=
  p.head?.map fun f => (f.item, f.side)

/-- `hev_rbtree_node_link` puts a red leaf at an empty place. -/
theorem nodeLink_spec
    {self : RBTree α} {a : α} {p : List (Frame α)}
    (h : self.Models (plug .leaf p)) (ha : a ∉ (plug .leaf p).toList) :
  self.Rebuilt (self.nodeLink a (link p)) (plug (.node .red .leaf a .leaf) p)
  := by
  obtain ⟨hroot, -, hpath, hnodup⟩ := models_plug.mp h
  simp only [mem_toList_plug, ColoredTree.toList, List.not_mem_nil, false_or] at ha
  simp only [ColoredTree.toList, List.nil_append] at hnodup
  have hne : ∀ b ∈ Path.items p, b ≠ a := fun b hb h => ha (h ▸ hb)
  constructor
  · apply models_plug.mpr
    cases p with
    | nil => simp [nodeLink, link, top, Holds, HoldsPath, Path.items, ColoredTree.toList]
    | cons f p =>
        obtain ⟨hf, hs, hp⟩ := hpath
        simp only [Path.items, List.nodup_cons, List.mem_append, not_or] at hnodup
        have hfa : a ≠ f.item := (hne f.item (by simp [Path.items])).symm
        refine ⟨hroot, ⟨?_, trivial, trivial⟩, ⟨?_, hs.congr ?_, hp.congr ?_⟩, ?_⟩
        · simp [nodeLink, link, hfa]
        · simp [nodeLink, link, hfa.symm, hf]
        · intro b hb
          have hbf : b ≠ f.item := fun h => hnodup.1.1 (h ▸ hb)
          simp [nodeLink, link, hbf, hne b (by simp [Path.items, hb])]
        · intro b hb
          have hbf : b ≠ f.item := fun h => hnodup.1.2 (h ▸ hb)
          simp [nodeLink, link, hbf, hne b (by simp [Path.items, hb])]
        · simp only [ColoredTree.toList, List.nil_append, List.cons_append, List.nodup_cons]
          exact ⟨ha, by simpa [Path.items] using hnodup⟩
  · intro b hb
    simp only [mem_toList_plug, ColoredTree.toList, List.nil_append, List.mem_singleton, not_or] at hb
    cases p with
    | nil => simp [nodeLink, link, hb.1]
    | cons f p =>
        have hbf : b ≠ f.item := fun h => hb.2 (by simp [Path.items, h])
        simp [nodeLink, link, hb.1, hbf]

/-- `hev_rbtree_node_link` and `hev_rbtree_insert_color`: a node `a` linked at an empty place of a
red-black tree is found at that place in the red-black tree the pointers make afterwards.  No null
pointer is followed, and as many rounds as the place has nodes above it are enough. -/
theorem insertColor_spec
    {self : RBTree α} {n : ℕ} {a : α} {p : List (Frame α)} {fuel : ℕ}
    (h : self.Models (plug .leaf p)) (hbalanced : (plug .leaf p).Balanced .black n)
    (ha : a ∉ (plug .leaf p).toList) (hfuel : p.length < fuel) :
  ∃ s, insertColor fuel (self.nodeLink a (link p)) a = some s
    ∧ self.Valid (Path.before p ++ a :: Path.after p) s
  := by
  have hlinked := nodeLink_spec h ha
  have hup : ((self.nodeLink a (link p)).node a).parent = Path.up p := by
    rw [(models_plug.mp hlinked.models).2.1.1]
  have hp : Path.Balanced .black 0 p := by
    obtain ⟨c, m, hleaf, hp⟩ := ColoredTree.Balanced.of_plug hbalanced
    cases hleaf
    exact hp
  rw [insertColor, hup]
  apply Loop.total (fun k s => insertColorRound_spec) _ hfuel
  refine ⟨0, .leaf, .leaf, p, rfl, hlinked, rfl, ?_, .leaf, .leaf, hp⟩
  rw [toList_plug]
  simp [ColoredTree.toList]

end RBTree

end Hev
