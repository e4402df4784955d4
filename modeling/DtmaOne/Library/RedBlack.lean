import Mathlib.Algebra.Group.Nat.Defs
import Mathlib.Data.List.Basic
import Mathlib.Data.List.Nodup
import Mathlib.Data.List.Perm.Basic
import Mathlib.Data.Nat.Log
import Mathlib.Order.MinMax

/-!
# Red-black trees

A red-black tree is a binary tree with coloured nodes.  `ColoredTree.Balanced c n t` says that the
root of `t` has the colour `c`, that no red node has a red child and that every way down from the
root passes `n` black nodes.  A path is the way from a place inside a tree up to its root, a list of
frames: `plug t p` is the tree with the subtree `t` at the place whose way up is `p`.

A node and its mirror image are `join .left` and `join .right`, so that a statement about one side
is a statement about both.
-/

namespace RedBlack

universe u

variable {α : Type u}

/-- One of the two children of a node. -/
inductive Side where
  | left
  | right
deriving DecidableEq, Repr

/-- The other child. -/
def Side.opposite : Side → Side
  | .left => .right
  | .right => .left

@[simp]
theorem Side.opposite_opposite (side : Side) :
  side.opposite.opposite = side
  := by
  cases side <;> rfl

@[simp]
theorem Side.opposite_ne (side : Side) :
  side.opposite ≠ side
  := by
  cases side <;> decide

@[simp]
theorem Side.ne_opposite (side : Side) :
  side ≠ side.opposite
  := side.opposite_ne.symm

theorem Side.eq_opposite_of_ne {s side : Side} (h : s ≠ side) :
  s = side.opposite
  := by
  cases s <;> cases side <;> first | rfl | exact absurd rfl h

/-- The colour of a node. -/
inductive Color where
  | red
  | black
deriving DecidableEq, Repr

/-- A binary tree with coloured nodes. -/
inductive ColoredTree (α : Type u) where
  | leaf
  | node (color : Color) (left : ColoredTree α) (item : α) (right : ColoredTree α)

namespace ColoredTree

/-- The items of a tree from left to right. -/
def toList : ColoredTree α → List α
  | .leaf => []
  | .node _ l a r => l.toList ++ a :: r.toList

/-- The item at the root. -/
def root : ColoredTree α → Option α
  | .leaf => none
  | .node _ _ a _ => some a

/-- The tree with its root in another colour. -/
def paint (c : Color) : ColoredTree α → ColoredTree α
  | .leaf => .leaf
  | .node _ l a r => .node c l a r

/-- The length of the longest way down. -/
def height : ColoredTree α → ℕ
  | .leaf => 0
  | .node _ l _ r => max l.height r.height + 1

/-- The tree with the item `a` at its root, `near` on the side `side` and `far` on the other. -/
def join (side : Side) (c : Color) (near : ColoredTree α) (a : α) (far : ColoredTree α) :
    ColoredTree α :=
  match side with
  | .left => .node c near a far
  | .right => .node c far a near

@[simp]
theorem root_leaf :
  (ColoredTree.leaf : ColoredTree α).root = none
  := rfl

@[simp]
theorem root_node (c : Color) (l : ColoredTree α) (a : α) (r : ColoredTree α) :
  (ColoredTree.node c l a r).root = some a
  := rfl

@[simp]
theorem root_paint (c : Color) (t : ColoredTree α) :
  (t.paint c).root = t.root
  := by
  cases t <;> rfl

@[simp]
theorem toList_paint (c : Color) (t : ColoredTree α) :
  (t.paint c).toList = t.toList
  := by
  cases t <;> rfl

@[simp]
theorem root_join (side : Side) (c : Color) (near : ColoredTree α) (a : α) (far : ColoredTree α) :
  (join side c near a far).root = some a
  := by
  cases side <;> rfl

@[simp]
theorem paint_join (side : Side) (c d : Color) (near : ColoredTree α) (a : α) (far : ColoredTree α) :
  (join side c near a far).paint d = join side d near a far
  := by
  cases side <;> rfl

theorem join_opposite (side : Side) (c : Color) (near : ColoredTree α) (a : α) (far : ColoredTree α) :
  join side.opposite c near a far = join side c far a near
  := by
  cases side <;> rfl

theorem toList_join_perm
    (side : Side) (c : Color) (near : ColoredTree α) (a : α) (far : ColoredTree α) :
  (join side c near a far).toList.Perm (a :: (near.toList ++ far.toList))
  := by
  cases side with
  | left => exact List.perm_middle
  | right => exact List.perm_middle.trans (List.perm_append_comm.cons a)

theorem toList_join_congr
    (side : Side) (a : α) (c d : Color) {near near' far far' : ColoredTree α}
    (hn : near.toList = near'.toList) (hf : far.toList = far'.toList) :
  (join side c near a far).toList = (join side d near' a far').toList
  := by
  cases side <;> simp [join, toList, hn, hf]

/-- A rotation changes no order. -/
theorem toList_rotate (side : Side) (c d c' d' : Color) (t u v : ColoredTree α) (a b : α) :
  (join side c (join side d t a u) b v).toList = (join side c' t a (join side d' u b v)).toList
  := by
  cases side <;> simp [join, toList]

/-- A double rotation changes no order. -/
theorem toList_double_rotate
    (side : Side) (c d e c' d' e' : Color) (t u v w : ColoredTree α) (a b x : α) :
  (join side c (join side.opposite d (join side e u a v) x t) b w).toList
    = (join side c' (join side d' t x u) a (join side e' v b w)).toList
  := by
  cases side <;> simp [join, toList, Side.opposite]

/-- A double rotation the other way. -/
theorem toList_double_rotate_far
    (side : Side) (c d e c' d' e' : Color) (t u v w : ColoredTree α) (a b x : α) :
  (join side c t a (join side d (join side e u b v) x w)).toList
    = (join side c' (join side d' t a u) b (join side e' v x w)).toList
  := by
  cases side <;> simp [join, toList]

@[simp]
theorem mem_toList_join {side : Side} {c : Color} {near far : ColoredTree α} {a b : α} :
  b ∈ (join side c near a far).toList ↔ b = a ∨ b ∈ near.toList ∨ b ∈ far.toList
  := by
  simp [(toList_join_perm side c near a far).mem_iff]

theorem count_toList_join [BEq α]
    (side : Side) (c : Color) (near : ColoredTree α) (a : α) (far : ColoredTree α) (b : α) :
  (join side c near a far).toList.count b
    = near.toList.count b + far.toList.count b + if a == b then 1 else 0
  := by
  rw [(toList_join_perm side c near a far).count_eq, List.count_cons, List.count_append]

theorem root_mem_toList {t : ColoredTree α} {a : α} (h : t.root = some a) :
  a ∈ t.toList
  := by
  cases t with
  | leaf => simp [root] at h
  | node c l b r => simp_all [root, toList]

theorem root_ne_some {t : ColoredTree α} {a : α} (h : a ∉ t.toList) :
  t.root ≠ some a
  := fun hroot => h (root_mem_toList hroot)

/-! ### Balance -/

/-- The root has the given colour (an empty tree is black), red nodes have black children and
every way down passes the given number of black nodes. -/
inductive Balanced : Color → ℕ → ColoredTree α → Prop where
  | leaf : Balanced .black 0 .leaf
  | red {n : ℕ} {l r : ColoredTree α} {a : α} :
      Balanced .black n l → Balanced .black n r → Balanced .red n (.node .red l a r)
  | black {n : ℕ} {c d : Color} {l r : ColoredTree α} {a : α} :
      Balanced c n l → Balanced d n r → Balanced .black (n + 1) (.node .black l a r)

theorem Balanced.join_red
    {n : ℕ} {near far : ColoredTree α} {a : α} (side : Side)
    (hn : Balanced .black n near) (hf : Balanced .black n far) :
  Balanced .red n (join side .red near a far)
  := by
  cases side with
  | left => exact .red hn hf
  | right => exact .red hf hn

theorem Balanced.join_black
    {n : ℕ} {c d : Color} {near far : ColoredTree α} {a : α} (side : Side)
    (hn : Balanced c n near) (hf : Balanced d n far) :
  Balanced .black (n + 1) (join side .black near a far)
  := by
  cases side with
  | left => exact .black hn hf
  | right => exact .black hf hn

/-- The black height of a node with the given colour over children of black height `n`. -/
def heightOver (c : Color) (n : ℕ) : ℕ :=
  match c with
  | .red => n
  | .black => n + 1

theorem Balanced.join_any
    {n : ℕ} {near far : ColoredTree α} {a : α} (side : Side) (c : Color)
    (hn : Balanced .black n near) (hf : Balanced .black n far) :
  Balanced c (heightOver c n) (join side c near a far)
  := by
  cases c with
  | red => exact .join_red side hn hf
  | black => exact .join_black side hn hf

/-- What a balanced red root has below it. -/
theorem Balanced.of_red {n : ℕ} {t : ColoredTree α} (h : Balanced .red n t) (side : Side) :
  ∃ near a far, t = join side .red near a far ∧ Balanced .black n near ∧ Balanced .black n far
  := by
  cases h with
  | @red n l r a hl hr =>
      cases side with
      | left => exact ⟨l, a, r, rfl, hl, hr⟩
      | right => exact ⟨r, a, l, rfl, hr, hl⟩

/-- What a balanced black root of positive black height has below it. -/
theorem Balanced.of_black {n : ℕ} {t : ColoredTree α} (h : Balanced .black (n + 1) t) (side : Side) :
  ∃ c near a d far, t = join side .black near a far ∧ Balanced c n near ∧ Balanced d n far
  := by
  cases h with
  | @black n c d l r a hl hr =>
      cases side with
      | left => exact ⟨c, l, a, d, r, rfl, hl, hr⟩
      | right => exact ⟨d, r, a, c, l, rfl, hr, hl⟩

/-- A balanced red root may be painted black. -/
theorem Balanced.paint_black {n : ℕ} {t : ColoredTree α} (h : Balanced .red n t) :
  Balanced .black (n + 1) (t.paint .black)
  := by
  cases h with
  | red hl hr => exact .black hl hr

theorem Balanced.paint_of_black {n : ℕ} {t : ColoredTree α} (h : Balanced .black n t) :
  t.paint .black = t
  := by
  cases h <;> rfl

/-- A balanced tree of black height `0` is empty or a single red node. -/
theorem Balanced.of_zero {c : Color} {t : ColoredTree α} (h : Balanced c 0 t) :
  (c = .black ∧ t = .leaf) ∨ ∃ a, c = .red ∧ t = .node .red .leaf a .leaf
  := by
  cases h with
  | leaf => exact .inl ⟨rfl, rfl⟩
  | red hl hr =>
      cases hl
      cases hr
      exact .inr ⟨_, rfl, rfl⟩

theorem Balanced.pow_le {c : Color} {n : ℕ} {t : ColoredTree α} (h : Balanced c n t) :
  2 ^ n ≤ t.toList.length + 1
  := by
  induction h with
  | leaf => simp
  | red _ _ ihl ihr => simp only [toList, List.length_append, List.length_cons]; omega
  | black _ _ ihl ihr =>
      simp only [toList, List.length_append, List.length_cons, Nat.pow_succ]
      omega

theorem Balanced.height_le {c : Color} {n : ℕ} {t : ColoredTree α} (h : Balanced c n t) :
  t.height ≤ 2 * n + if c = .red then 1 else 0
  := by
  induction h with
  | leaf => simp [height]
  | red _ _ ihl ihr =>
      simp only [height, reduceCtorEq, if_false, if_true] at *
      omega
  | @black n c d _ _ _ _ _ ihl ihr =>
      simp only [height, reduceCtorEq, if_false]
      split at ihl <;> split at ihr <;> omega

/-- The way down a red-black tree with a black root is at most twice the logarithm of the number of
its items. -/
theorem Balanced.height_le_log {n : ℕ} {t : ColoredTree α} (h : Balanced .black n t) :
  t.height ≤ 2 * Nat.log 2 (t.toList.length + 1)
  := by
  have hn : n ≤ Nat.log 2 (t.toList.length + 1) := Nat.le_log_of_pow_le Nat.one_lt_two h.pow_le
  have := h.height_le
  simp only [reduceCtorEq, if_false] at this
  omega

end ColoredTree

/-! ### Paths -/

/-- One step of a way up: the node above, the side it is left from, and its other child. -/
structure Frame (α : Type u) where
  side : Side
  color : Color
  item : α
  sibling : ColoredTree α

/-- The node above with `t` at the place the way up starts from. -/
def Frame.fill (f : Frame α) (t : ColoredTree α) : ColoredTree α :=
  .join f.side f.color t f.item f.sibling

/-- The tree with `t` at the place whose way up is the path. -/
def plug : ColoredTree α → List (Frame α) → ColoredTree α
  | t, [] => t
  | t, f :: p => plug (f.fill t) p

namespace Path

/-- The item above the place. -/
def up (p : List (Frame α)) : Option α := p.head?.map Frame.item

/-- The items left of the place. -/
def before : List (Frame α) → List α
  | [] => []
  | f :: p => before p ++ match f.side with
      | .left => []
      | .right => f.sibling.toList ++ [f.item]

/-- The items right of the place. -/
def after : List (Frame α) → List α
  | [] => []
  | f :: p => (match f.side with
      | .left => f.item :: f.sibling.toList
      | .right => []) ++ after p

/-- The items of the nodes of the way up and of their other children. -/
def items : List (Frame α) → List α
  | [] => []
  | f :: p => f.item :: (f.sibling.toList ++ items p)

@[simp]
theorem up_nil :
  up ([] : List (Frame α)) = none
  := rfl

@[simp]
theorem up_cons (f : Frame α) (p : List (Frame α)) :
  up (f :: p) = some f.item
  := rfl

theorem up_ne_some {p : List (Frame α)} {b : α} (h : b ∉ items p) :
  up p ≠ some b
  := by
  cases p with
  | nil => simp
  | cons f p =>
      intro hup
      exact h (by simp [items, Option.some_inj.mp hup])

/-- A tree of the given colour and black height at the place makes a red-black tree with a black
root. -/
inductive Balanced : Color → ℕ → List (Frame α) → Prop where
  | nil {n : ℕ} : Balanced .black n []
  | red {n : ℕ} {side : Side} {a : α} {t : ColoredTree α} {p : List (Frame α)} :
      t.Balanced .black n → Balanced .red n p → Balanced .black n (⟨side, .red, a, t⟩ :: p)
  | black {n : ℕ} {c d : Color} {side : Side} {a : α} {t : ColoredTree α} {p : List (Frame α)} :
      t.Balanced d n → Balanced .black (n + 1) p → Balanced c n (⟨side, .black, a, t⟩ :: p)

end Path

/-- The tree reads from left to right: what is left of the place, the subtree, what is right. -/
theorem toList_plug (t : ColoredTree α) (p : List (Frame α)) :
  (plug t p).toList = Path.before p ++ t.toList ++ Path.after p
  := by
  induction p generalizing t with
  | nil => simp [plug, Path.before, Path.after]
  | cons f p ih =>
      rw [plug, ih, Frame.fill]
      cases h : f.side <;> simp [ColoredTree.join, ColoredTree.toList, Path.before, Path.after, h]

theorem toList_plug_perm (t : ColoredTree α) (p : List (Frame α)) :
  (plug t p).toList.Perm (t.toList ++ Path.items p)
  := by
  induction p generalizing t with
  | nil => simp [plug, Path.items]
  | cons f p ih =>
      apply (ih (f.fill t)).trans
      apply ((ColoredTree.toList_join_perm f.side f.color t f.item f.sibling).append_right _).trans
      simp only [Path.items, List.cons_append, List.append_assoc]
      exact List.perm_middle.symm

theorem mem_toList_plug {t : ColoredTree α} {p : List (Frame α)} {b : α} :
  b ∈ (plug t p).toList ↔ b ∈ t.toList ∨ b ∈ Path.items p
  := by
  rw [(toList_plug_perm t p).mem_iff, List.mem_append]

theorem Path.items_append (q p : List (Frame α)) :
  items (q ++ p) = items q ++ items p
  := by
  induction q with
  | nil => rfl
  | cons f q ih => simp [items, ih]

theorem plug_append (t : ColoredTree α) (p q : List (Frame α)) :
  plug t (p ++ q) = plug (plug t p) q
  := by
  induction p generalizing t with
  | nil => rfl
  | cons f p ih => apply ih

theorem length_add_height_le (t : ColoredTree α) (p : List (Frame α)) :
  p.length + t.height ≤ (plug t p).height
  := by
  induction p generalizing t with
  | nil => simp [plug]
  | cons f p ih =>
      have hfill : t.height + 1 ≤ (f.fill t).height := by
        cases h : f.side with
        | left => simp [Frame.fill, ColoredTree.join, ColoredTree.height, h]
        | right => simp [Frame.fill, ColoredTree.join, ColoredTree.height, h]
      have := ih (f.fill t)
      rw [plug, List.length_cons]
      omega

/-- Every item of a tree is at some place. -/
theorem exists_plug {t : ColoredTree α} {a : α} (h : a ∈ t.toList) :
  ∃ c l r p, t = plug (.node c l a r) p
  := by
  induction t with
  | leaf => simp [ColoredTree.toList] at h
  | node c l b r ihl ihr =>
      simp only [ColoredTree.toList, List.mem_append, List.mem_cons] at h
      obtain h | rfl | h := h
      · obtain ⟨d, l', r', p, rfl⟩ := ihl h
        exact ⟨d, l', r', p ++ [⟨.left, c, b, r⟩], by rw [plug_append]; rfl⟩
      · exact ⟨c, l, r, [], rfl⟩
      · obtain ⟨d, l', r', p, rfl⟩ := ihr h
        exact ⟨d, l', r', p ++ [⟨.right, c, b, l⟩], by rw [plug_append]; rfl⟩

/-- Two subtrees with the same reading are read the same in the tree around them. -/
theorem toList_plug_congr {t u : ColoredTree α} (h : t.toList = u.toList) (p : List (Frame α)) :
  (plug t p).toList = (plug u p).toList
  := by
  rw [toList_plug, toList_plug, h]

/-- A balanced tree at a place that asks for one makes a red-black tree. -/
theorem Path.Balanced.plug {c : Color} {n : ℕ} {p : List (Frame α)} {t : ColoredTree α}
    (hp : Path.Balanced c n p) (ht : t.Balanced c n) :
  ∃ m, (RedBlack.plug t p).Balanced .black m
  := by
  induction hp generalizing t with
  | @nil n => exact ⟨n, ht⟩
  | @red n side a s p hs hp ih => exact ih (.join_red side ht hs)
  | @black n c d side a s p hs hp ih => exact ih (.join_black side ht hs)

/-- A place that asks for a red tree takes a black one. -/
theorem Path.Balanced.of_red {c : Color} {n : ℕ} {p : List (Frame α)} (hp : Path.Balanced .red n p) :
  Path.Balanced c n p
  := by
  cases hp with
  | black hs hp => exact .black hs hp

/-- Above a place that asks for a red tree is a black node. -/
theorem Path.Balanced.red_inv {n : ℕ} {p : List (Frame α)} (hp : Path.Balanced .red n p) :
  ∃ d side a t q, p = ⟨side, .black, a, t⟩ :: q ∧ t.Balanced d n ∧ Path.Balanced .black (n + 1) q
  := by
  cases hp with
  | @black _ _ d side a t q hs hq => exact ⟨d, side, a, t, q, rfl, hs, hq⟩

/-- A balanced node with one child is black, and its child is a single red node. -/
theorem ColoredTree.Balanced.of_single {side : Side} {c e : Color} {n : ℕ} {t : ColoredTree α} {a : α}
    (h : (ColoredTree.join side c t a .leaf).Balanced e n) (ht : t ≠ .leaf) :
  c = .black ∧ e = .black ∧ n = 1 ∧ t.Balanced .red 0
  := by
  have hchild : ∀ {d : Color}, t.Balanced d 0 → t.Balanced .red 0 := by
    intro d hd
    obtain ⟨-, rfl⟩ | ⟨b, rfl, rfl⟩ := hd.of_zero
    · exact absurd rfl ht
    · exact hd
  have hred : ¬t.Balanced .black 0 := by
    intro hd
    cases hd
    exact ht rfl
  cases side with
  | left =>
      cases h with
      | red hl hr =>
          cases hr
          exact absurd hl hred
      | black hl hr =>
          cases hr
          exact ⟨rfl, rfl, rfl, hchild hl⟩
  | right =>
      cases h with
      | red hl hr =>
          cases hl
          exact absurd hr hred
      | black hl hr =>
          cases hl
          exact ⟨rfl, rfl, rfl, hchild hr⟩

/-- A node without a left child, where a black node on the way up is missing or none is: the right child
is empty or a single red node. -/
theorem ColoredTree.Balanced.of_leaf_left {c e : Color} {n : ℕ} {t : ColoredTree α} {a : α}
    (h : (ColoredTree.node c .leaf a t).Balanced e n) :
  (c = .red ∧ e = .red ∧ n = 0 ∧ t = .leaf)
    ∨ c = .black ∧ e = .black ∧ n = 1 ∧ (t = .leaf ∨ t.Balanced .red 0)
  := by
  cases h with
  | red hl hr =>
      cases hl
      cases hr
      exact .inl ⟨rfl, rfl, rfl, rfl⟩
  | black hl hr =>
      cases hl
      obtain ⟨-, rfl⟩ | ⟨b, rfl, rfl⟩ := hr.of_zero
      · exact .inr ⟨rfl, rfl, rfl, .inl rfl⟩
      · exact .inr ⟨rfl, rfl, rfl, .inr hr⟩

theorem Path.before_append (q p : List (Frame α)) :
  before (q ++ p) = before p ++ before q
  := by
  induction q with
  | nil => simp [before]
  | cons f q ih => simp [before, ih]

theorem Path.after_append (q p : List (Frame α)) :
  after (q ++ p) = after q ++ after p
  := by
  induction q with
  | nil => simp [after]
  | cons f q ih => simp [after, ih]

/-- The balance of a path does not depend on its items. -/
theorem Path.Balanced.rename
    {c e : Color} {n : ℕ} {side : Side} {a : α} (b : α) {t : ColoredTree α} {q p : List (Frame α)}
    (h : Path.Balanced c n (q ++ ⟨side, e, a, t⟩ :: p)) :
  Path.Balanced c n (q ++ ⟨side, e, b, t⟩ :: p)
  := by
  induction q generalizing c n with
  | nil =>
      cases h with
      | red ht hp => exact .red ht hp
      | black ht hp => exact .black ht hp
  | cons f q ih =>
      cases h with
      | red ht hp => exact .red ht (ih hp)
      | black ht hp => exact .black ht (ih hp)

/-- The way down to a place in a balanced tree. -/
theorem ColoredTree.Balanced.of_plug {n : ℕ} {t : ColoredTree α} {p : List (Frame α)}
    (h : (RedBlack.plug t p).Balanced .black n) :
  ∃ c m, t.Balanced c m ∧ Path.Balanced c m p
  := by
  induction p generalizing t with
  | nil => exact ⟨.black, n, h, .nil⟩
  | cons f p ih =>
      obtain ⟨c, m, ht, hp⟩ := ih h
      obtain ⟨side, color, a, s⟩ := f
      cases c with
      | red =>
          obtain ⟨near, b, far, heq, hnear, hfar⟩ := ht.of_red side
          cases side <;> obtain ⟨rfl, rfl, rfl, rfl⟩ := ColoredTree.node.inj heq <;>
            exact ⟨.black, m, hnear, .red hfar hp⟩
      | black =>
          cases m with
          | zero => cases side <;> simp [Frame.fill, ColoredTree.join] at ht <;> cases ht
          | succ m =>
              obtain ⟨c, near, b, d, far, heq, hnear, hfar⟩ := ht.of_black side
              cases side <;> obtain ⟨rfl, rfl, rfl, rfl⟩ := ColoredTree.node.inj heq <;>
                exact ⟨c, m, hnear, .black hfar hp⟩

end RedBlack
