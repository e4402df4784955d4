import DtmaOne.Hev.RBTree

/-!
# Removal from the red-black tree of the tunnel

`hev_rbtree_erase` takes a node out of the tree; when a black node is gone below a place, the loop
of `_hev_rbtree_erase_color` restores the balance on the way up.
-/

namespace Hev.RBTree

open RedBlack

variable {α : Type} [DecidableEq α]

/-- A round of the search for the successor in `_hev_rbtree_erase`, with `successor` and `tmp`; the
result is `parent` and `successor`. -/
def successorRound (self : RBTree α) : α × α → Option ((α × α) ⊕ (α × α))
  | (successor, tmp) =>
      match (self.node tmp).left with
      | some next => some (.inl (tmp, next))
      | none => some (.inr (successor, tmp))

/-- The end of `_hev_rbtree_erase` for a node with two children: the successor takes the place of
the node. -/
def eraseReplace (self : RBTree α) (node parent successor : α) (child2 : Option α) :
    RBTree α × Option α :=
  let tmp := (self.node node).left
  let self := self.setChild .left successor tmp
  let self := self.ifSome tmp fun self tmp => self.setParent tmp (some successor)
  let pc := self.node node
  let self := self.changeChild node (some successor) pc.parent
  match child2 with
  | some child2 =>
      let self := self.setParentColor child2 (some parent) .black
      (self.setParentColor successor pc.parent pc.color, none)
  | none =>
      let rebalance := if (self.node successor).color = .black then some parent else none
      (self.setParentColor successor pc.parent pc.color, rebalance)

/-- `_hev_rbtree_erase`: the node is taken out, and the result is the node the balance is to be
restored from. -/
def eraseInner (fuel : ℕ) (self : RBTree α) (node : α) : Option (RBTree α × Option α) :=
  let pc := self.node node
  match pc.left, pc.right with
  | none, some child =>
      let self := self.changeChild node (some child) pc.parent
      some (self.setParentColor child pc.parent pc.color, none)
  | none, none =>
      some (self.changeChild node none pc.parent, if pc.color = .black then pc.parent else none)
  | some tmp, none =>
      let self := self.setParentColor tmp pc.parent pc.color
      some (self.changeChild node (some tmp) pc.parent, none)
  | some _, some child =>
      match (self.node child).left with
      | none => some (self.eraseReplace node child child (self.node child).right)
      | some tmp =>
          (Loop.run self.successorRound fuel (child, tmp)).map fun (parent, successor) =>
            let child2 := (self.node successor).right
            let self := self.setChild .left parent child2
            let self := self.setChild .right successor (some child)
            let self := self.setParent child (some successor)
            self.eraseReplace node parent successor child2

/-- The last case of `_hev_rbtree_erase_color`: the sibling is turned above the parent. -/
def eraseColorRotate (side : Side) (self : RBTree α) (parent sibling tmp1 : α) : RBTree α :=
  let tmp2 := (self.node sibling).child side
  let self := self.setChild side.opposite parent tmp2
  let self := self.setChild side sibling (some parent)
  let self := self.setParentColor tmp1 (some sibling) .black
  let self := self.ifSome tmp2 fun self tmp2 => self.setParent tmp2 (some parent)
  self.rotateSetParents parent sibling .black

/-- A round of `_hev_rbtree_erase_color` from the point where the sibling is black. -/
def eraseColorSibling (side : Side) (self : RBTree α) (parent sibling : α) :
    Option ((RBTree α × Option α × α) ⊕ RBTree α) :=
  let tmp1 := (self.node sibling).child side.opposite
  if self.isRed tmp1 then
    tmp1.map fun tmp1 => .inr (self.eraseColorRotate side parent sibling tmp1)
  else
    let tmp2 := (self.node sibling).child side
    if self.isRed tmp2 then
      tmp2.map fun tmp2 =>
        let tmp1 := (self.node tmp2).child side.opposite
        let self := self.setChild side sibling tmp1
        let self := self.setChild side.opposite tmp2 (some sibling)
        let self := self.setChild side.opposite parent (some tmp2)
        let self := self.ifSome tmp1 fun self tmp1 => self.setParentColor tmp1 (some sibling) .black
        .inr (self.eraseColorRotate side parent tmp2 sibling)
    else
      let self := self.setParentColor sibling (some parent) .red
      if (self.node parent).color = .red then some (.inr (self.setBlack parent))
      else
        match (self.node parent).parent with
        | some gparent => some (.inl (self, some parent, gparent))
        | none => some (.inr self)

/-- A round of `_hev_rbtree_erase_color` for a node on the side `side` of its parent. -/
def eraseColorAt (side : Side) (self : RBTree α) (parent sibling : α) :
    Option ((RBTree α × Option α × α) ⊕ RBTree α) :=
  if (self.node sibling).color = .red then
    ((self.node sibling).child side).bind fun tmp1 =>
      let self := self.setChild side.opposite parent (some tmp1)
      let self := self.setChild side sibling (some parent)
      let self := self.setParentColor tmp1 (some parent) .black
      let self := self.rotateSetParents parent sibling .red
      self.eraseColorSibling side parent tmp1
  else self.eraseColorSibling side parent sibling

/-- A round of the loop of `_hev_rbtree_erase_color`, with `node` and `parent`. -/
def eraseColorRound :
    RBTree α × Option α × α → Option ((RBTree α × Option α × α) ⊕ RBTree α)
  | (self, node, parent) =>
      if node ≠ (self.node parent).right then
        (self.node parent).right.bind fun sibling => self.eraseColorAt .left parent sibling
      else (self.node parent).left.bind fun sibling => self.eraseColorAt .right parent sibling

/-- `_hev_rbtree_erase_color`, cut off after `fuel` rounds. -/
def eraseColor (fuel : ℕ) (self : RBTree α) (parent : α) : Option (RBTree α) :=
  Loop.run eraseColorRound fuel (self, none, parent)

/-- `hev_rbtree_erase`, each of its loops cut off after `fuel` rounds. -/
def erase (fuel : ℕ) (self : RBTree α) (node : α) : Option (RBTree α) :=
  (self.eraseInner fuel node).bind fun
    | (self, some rebalance) => self.eraseColor fuel rebalance
    | (self, none) => some self

/-! ### Restoring the balance -/

/-- Writes to different nodes may change places. -/
theorem write_comm
    (self : RBTree α) {a b : α} (f g : RBTreeNode α → RBTreeNode α) (h : a ≠ b) :
  (self.write a f).write b g = (self.write b g).write a f
  := by
  simp only [write, RBTree.mk.injEq, true_and]
  funext x
  by_cases hxa : x = a
  · simp [hxa, h]
  · simp [hxa]

omit [DecidableEq α] in
/-- The colour of the root of a subtree in the memory. -/
theorem Holds.exists_color {m : α → RBTreeNode α} {up : Option α} {t : ColoredTree α}
    (h : Holds m up t) :
  ∃ c, t.paint c = t ∧ ∀ a, t.root = some a → (m a).color = c
  := by
  cases t with
  | leaf => exact ⟨.black, rfl, by simp⟩
  | node c l a r =>
      use c, rfl
      rintro b ⟨⟩
      rw [h.1]

/-- Setting the parent alone keeps the colour. -/
theorem ifSome_setParent
    {self : RBTree α} {tmp : Option α} {c : Color} (parent : Option α)
    (h : ∀ a, tmp = some a → (self.node a).color = c) :
  (self.ifSome tmp fun self tmp => self.setParent tmp parent)
    = self.ifSome tmp fun self tmp => self.setParentColor tmp parent c
  := by
  cases tmp with
  | none => rfl
  | some a =>
      simp only [ifSome, setParent, setParentColor, write, RBTree.mk.injEq, true_and]
      funext b
      by_cases hb : b = a
      · simp [hb, ← h a rfl]
      · simp [hb]

/-- The rotation that ends `_hev_rbtree_erase_color`: the sibling `x` is turned above the parent
`y`, which turns black, as does the outer child of the sibling.  The parent of the sibling and the
child `w` of the parent that was the sibling may be anything. -/
theorem eraseColorRotate_spec
    {self : RBTree α} {side : Side} {t u v : ColoredTree α} {x y b : α} {p : List (Frame α)}
    {c d : Color} {up up' up'' w : Option α}
    (hroot : self.root = top (some y) p)
    (hx : self.node x = nodeOf side up d u.root v.root)
    (hy : self.node y = nodeOf side (Path.up p) c t.root w)
    (ht : Holds self.node (some y) t) (hu : Holds self.node up' u) (hv : Holds self.node up'' v)
    (hp : HoldsPath self.node (some y) p) (hb : v.root = some b)
    (hnodup : (x :: y :: (v.toList ++ (u.toList ++ (t.toList ++ Path.items p)))).Nodup) :
  self.Rebuilt (self.eraseColorRotate side y x b)
    (plug (.join side c (.join side .black t y u) x (v.paint .black)) p)
  := by
  have hdistinct := hnodup
  simp only [List.nodup_cons, List.mem_cons, List.mem_append, not_or, List.nodup_append]
    at hdistinct
  have hbv : b ∈ v.toList := ColoredTree.root_mem_toList hb
  have hbx : b ≠ x := by grind
  have hby : b ≠ y := by grind
  have hux : u.root ≠ some x := ColoredTree.root_ne_some (by tauto)
  have huy : u.root ≠ some y := ColoredTree.root_ne_some (by tauto)
  have hub : u.root ≠ some b := ColoredTree.root_ne_some (by grind)
  obtain ⟨cu, hcu, hcolor⟩ := hu.exists_color
  let painted := self.setParentColor b (some x) .black
  have hpainted : ∀ z, z ≠ b → painted.node z = self.node z :=
    fun z hz => setParentColor_node_ne _ _ _ hz
  have hrotate : self.eraseColorRotate side y x b
      = (((painted.setChild side.opposite y u.root).setChild side x (some y)).ifSome u.root
        fun self tmp => self.setParentColor tmp (some y) cu).rotateSetParents y x .black := by
    rw [eraseColorRotate, hx, nodeOf_child, ifSome_setParent (c := cu)]
    · simp only [painted, setParentColor, setChild]
      rw [write_comm _ _ _ hbx.symm, write_comm _ _ _ hby.symm]
    · intro a ha
      have hau : a ∈ u.toList := ColoredTree.root_mem_toList ha
      have hab : a ≠ b := fun h => hub (by rw [ha, h])
      have hax : a ≠ x := fun h => hux (by rw [ha, h])
      have hay : a ≠ y := fun h => huy (by rw [ha, h])
      simp [hab, hax, hay, hcolor a ha]
  have hpv : Holds painted.node (some x) (v.paint .black) := by
    apply hv.repaint (by tauto)
    · intro a ha
      obtain rfl := Option.some_inj.mp (hb.symm.trans ha)
      apply setParentColor_node_self
    · intro a _ ha
      apply hpainted a
      rintro rfl
      exact ha hb
  have hpu : Holds painted.node up' u := by
    apply hu.congr
    intro a ha
    apply hpainted a
    grind
  have hpt : Holds painted.node (some y) t := by
    apply ht.congr
    intro a ha
    apply hpainted a
    grind
  have hpp : HoldsPath painted.node (some y) p := by
    apply hp.congr
    intro a ha
    apply hpainted a
    grind
  have hpx : painted.node x = nodeOf side.opposite up d (v.paint .black).root u.root := by
    rw [hpainted x hbx.symm, hx, nodeOf_opposite, ColoredTree.root_paint]
  have hpy : painted.node y = nodeOf side.opposite (Path.up p) c w t.root := by
    rw [hpainted y hby.symm, hy, nodeOf_opposite]
  obtain ⟨hmodels, hframe⟩ := rotate_spec cu .black (by simpa [painted] using hroot) hpx hpy hpv hpu
    hpt hpp (by simpa using hnodup)
  rw [hcu, Side.opposite_opposite, ← hrotate, ColoredTree.join_opposite,
    ColoredTree.join_opposite] at hmodels
  rw [hcu, Side.opposite_opposite, ← hrotate, ColoredTree.join_opposite,
    ColoredTree.join_opposite] at hframe
  use hmodels
  intro a ha
  rw [hframe a ha]
  apply hpainted a
  rintro rfl
  apply ha
  simp [mem_toList_plug, hbv]

/-- A black sibling `x` with a red outer child. -/
theorem eraseColorSibling_outer
    {self : RBTree α} {side : Side} {t u v : ColoredTree α} {x y : α} {c d : Color}
    {p : List (Frame α)}
    (h : self.Models (plug t (⟨side, c, y, .join side d u x v⟩ :: p)))
    (hv : self.isRed v.root) :
  ∃ s, self.eraseColorSibling side y x = some (.inr s)
    ∧ self.Rebuilt s (plug (.join side c (.join side .black t y u) x (v.paint .black)) p)
  := by
  obtain ⟨hroot, ht, ⟨hy, hsib, hp⟩, hnodup⟩ := models_plug.mp h
  simp only [Path.up_cons, Path.items] at ht hy hsib hp hnodup
  obtain ⟨hx, hu, hv'⟩ := holds_join.mp hsib
  have hnodup' : (x :: y :: (v.toList ++ (u.toList ++ (t.toList ++ Path.items p)))).Nodup := by
    rw [List.nodup_iff_count_le_one] at hnodup ⊢
    intro b
    have := hnodup b
    simp only [List.count_append, List.count_cons, ColoredTree.count_toList_join] at this ⊢
    omega
  cases v with
  | leaf => simp [isRed] at hv
  | node e l b r =>
      refine ⟨_, ?_, eraseColorRotate_spec hroot hx hy ht hu hv' hp rfl hnodup'⟩
      simp [eraseColorSibling, hx, show self.isRed (some b) = true from hv]

/-- A black sibling `x` with a red inner child `z` and a black outer child. -/
theorem eraseColorSibling_inner
    {self : RBTree α} {side : Side} {t a b v : ColoredTree α} {x y z : α} {c d : Color}
    {p : List (Frame α)}
    (h : self.Models
      (plug t (⟨side, c, y, .join side .black (.join side d a z b) x v⟩ :: p)))
    (hv : ¬self.isRed v.root) (hz : self.isRed (some z)) :
  ∃ s, self.eraseColorSibling side y x = some (.inr s)
    ∧ self.Rebuilt s (plug (.join side c (.join side .black t y a) z
        (.join side .black (b.paint .black) x v)) p)
  := by
  obtain ⟨hroot, ht, ⟨hy, hsib, hp⟩, hnodup⟩ := models_plug.mp h
  simp only [Path.up_cons, Path.items] at ht hy hsib hp hnodup
  obtain ⟨hx, hin, hv'⟩ := holds_join.mp hsib
  obtain ⟨hzn, ha, hb⟩ := holds_join.mp hin
  rw [ColoredTree.root_join] at hx hy
  have hnodup' : (z :: y :: ((ColoredTree.join side .black (b.paint .black) x v).toList ++
      (a.toList ++ (t.toList ++ Path.items p)))).Nodup := by
    rw [List.nodup_iff_count_le_one] at hnodup ⊢
    intro b
    have := hnodup b
    simp only [List.count_append, List.count_cons, ColoredTree.toList_paint,
      ColoredTree.count_toList_join] at this ⊢
    omega
  have hdistinct : (x :: y :: z :: (a.toList ++ (b.toList ++ (v.toList ++ (t.toList ++
      Path.items p))))).Nodup := by
    rw [List.nodup_iff_count_le_one] at hnodup ⊢
    intro b
    have := hnodup b
    simp only [List.count_append, List.count_cons, ColoredTree.count_toList_join] at this ⊢
    omega
  simp only [List.nodup_cons, List.mem_cons, List.mem_append, not_or, List.nodup_append]
    at hdistinct
  have hxy : x ≠ y := hdistinct.1.1
  have hxz : x ≠ z := hdistinct.1.2.1
  have hyz : y ≠ z := hdistinct.2.1.1
  have hbx : b.root ≠ some x := ColoredTree.root_ne_some (by tauto)
  have hby : b.root ≠ some y := ColoredTree.root_ne_some (by tauto)
  have hbz : b.root ≠ some z := ColoredTree.root_ne_some (by tauto)
  let linked := ((self.setChild side x b.root).setChild side.opposite z (some x)).setChild
    side.opposite y (some z)
  let turned := linked.ifSome b.root fun self tmp => self.setParentColor tmp (some x) .black
  have hlinked : ∀ w, w ≠ x → w ≠ y → w ≠ z → linked.node w = self.node w := by
    intro w hwx hwy hwz
    simp [linked, hwx, hwy, hwz]
  have hturned : ∀ w, w ≠ x → w ≠ y → w ≠ z → w ∉ b.toList → turned.node w = self.node w := by
    intro w hwx hwy hwz hwb
    rw [← hlinked w hwx hwy hwz]
    exact ifSome_setParentColor_ne _ _ _ (ColoredTree.root_ne_some hwb)
  have htx : turned.node x = nodeOf side (some y) .black b.root v.root := by
    simp [turned, linked, hbx, hxy, hxz, hx]
  have hty : turned.node y = nodeOf side (Path.up p) c t.root (some z) := by
    simp [turned, linked, hby, hxy.symm, hyz, hy]
  have htz : turned.node z = nodeOf side (some x) d a.root (some x) := by
    simp [turned, linked, hbz, hxz.symm, hyz.symm, hzn]
  have htb : Holds turned.node (some x) (b.paint .black) := by
    apply Holds.ifSome_setParentColor (u := some z) _ (by tauto)
    apply hb.congr
    intro w hw
    apply hlinked w <;> grind
  have hta : Holds turned.node (some z) a := by
    apply ha.congr
    intro w hw
    apply hturned w <;> grind
  have htv : Holds turned.node (some x) v := by
    apply hv'.congr
    intro w hw
    apply hturned w <;> grind
  have htt : Holds turned.node (some y) t := by
    apply ht.congr
    intro w hw
    apply hturned w <;> grind
  have htp : HoldsPath turned.node (some y) p := by
    apply hp.congr
    intro w hw
    apply hturned w <;> grind
  obtain ⟨hmodels, hframe⟩ := eraseColorRotate_spec (v := .join side .black
    (b.paint .black) x v) (by simpa [turned, linked] using hroot) (by simpa using htz) hty htt hta
    (holds_join.mpr ⟨by simpa using htx, htb, htv⟩) htp (ColoredTree.root_join _ _ _ _ _) hnodup'
  rw [ColoredTree.paint_join] at hmodels hframe
  refine ⟨turned.eraseColorRotate side y z x, ?_, hmodels, ?_⟩
  · simp [eraseColorSibling, hx, hv, hz, hzn, turned, linked]
  · intro w hw
    rw [hframe w hw]
    simp only [mem_toList_plug, ColoredTree.mem_toList_join, ColoredTree.toList_paint, not_or] at hw
    apply hturned w <;> tauto

/-- A black sibling `x` whose children are black turns red, and the parent black. -/
theorem eraseColorSibling_flip
    {self : RBTree α} {side : Side} {t u v : ColoredTree α} {x y : α} {c d : Color}
    {p : List (Frame α)}
    (h : self.Models (plug t (⟨side, c, y, .join side d u x v⟩ :: p)))
    (hu : ¬self.isRed u.root) (hv : ¬self.isRed v.root) :
  ∃ s, self.Rebuilt s (plug (.join side .black t y (.join side .red u x v)) p)
    ∧ self.eraseColorSibling side y x = some
      (match c, Path.up p with
      | .black, some z => .inl (s, some y, z)
      | _, _ => .inr s)
  := by
  obtain ⟨hroot, ht, ⟨hy, hsib, hp⟩, hnodup⟩ := models_plug.mp h
  simp only [Path.up_cons, Path.items] at ht hy hsib hp hnodup
  obtain ⟨hx, hu', hv'⟩ := holds_join.mp hsib
  rw [ColoredTree.root_join] at hy
  have hnodup' : ((ColoredTree.join side .black t y (.join side .red u x v)).toList
      ++ Path.items p).Nodup := by
    rw [List.nodup_iff_count_le_one] at hnodup ⊢
    intro b
    have := hnodup b
    simp only [List.count_append, List.count_cons, ColoredTree.count_toList_join] at this ⊢
    omega
  have hdistinct : (x :: y :: (t.toList ++ (u.toList ++ (v.toList ++ Path.items p)))).Nodup := by
    rw [List.nodup_iff_count_le_one] at hnodup ⊢
    intro b
    have := hnodup b
    simp only [List.count_append, List.count_cons, ColoredTree.count_toList_join] at this ⊢
    omega
  simp only [List.nodup_cons, List.mem_cons, List.mem_append, not_or, List.nodup_append]
    at hdistinct
  have hxy : x ≠ y := hdistinct.1.1
  let flipped := self.setParentColor x (some y) .red
  let s := if c = .red then flipped.setBlack y else flipped
  have hsx : s.node x = nodeOf side (some y) .red u.root v.root := by
    by_cases hc : c = .red <;> simp [s, flipped, hc, setBlack, hxy, hx]
  have hsy : s.node y = nodeOf side (Path.up p) .black t.root (some x) := by
    cases c with
    | red => simp [s, flipped, setBlack, hxy.symm, hy]
    | black => simp [s, flipped, hxy.symm, hy]
  have hs : ∀ b, b ≠ x → b ≠ y → s.node b = self.node b := by
    intro b hbx hby
    by_cases hc : c = .red <;> simp [s, flipped, hc, setBlack, hbx, hby]
  refine ⟨s, ⟨models_plug.mpr ⟨?_, holds_join.mpr ⟨by simpa using hsy, ?_, holds_join.mpr
    ⟨hsx, ?_, ?_⟩⟩, ?_, hnodup'⟩, ?_⟩, ?_⟩
  · by_cases hc : c = .red <;> simpa [s, flipped, hc, setBlack] using hroot
  · apply ht.congr
    intro b hb
    apply hs b <;> grind
  · apply hu'.congr
    intro b hb
    apply hs b <;> grind
  · apply hv'.congr
    intro b hb
    apply hs b <;> grind
  · rw [ColoredTree.root_join]
    apply hp.congr
    intro b hb
    apply hs b <;> grind
  · intro b hb
    simp only [mem_toList_plug, ColoredTree.mem_toList_join, not_or] at hb
    apply hs b <;> tauto
  · cases c with
    | red => simp [eraseColorSibling, hx, hu, hv, hxy.symm, hy, s, flipped]
    | black =>
        cases hup : Path.up p <;>
          simp [eraseColorSibling, hx, hu, hv, hxy.symm, hy, s, flipped, hup]

/-- What the loop of `_hev_rbtree_erase_color` keeps: the pointers are those of a tree with the items
`items` whose balance is broken only by the subtree at `node`, `k` steps below the root, which lacks
one black node. -/
def Erasing (self : RBTree α) (items : List α) (k : ℕ) (s : RBTree α × Option α × α) : Prop :=
  ∃ n t p, p.length = k ∧ self.Rebuilt s.1 (plug t p) ∧ s.2.1 = t.root ∧ Path.up p = some s.2.2
    ∧ (plug t p).toList = items ∧ t.Balanced .black n ∧ Path.Balanced .black (n + 1) p

/-- The side a node is on, as the source finds it. -/
theorem eraseColorRound_eq
    {self : RBTree α} {side : Side} {t sib : ColoredTree α} {x y : α} {c : Color} {p : List (Frame α)}
    (h : self.Models (plug t (⟨side, c, y, sib⟩ :: p))) (hsib : sib.root = some x) :
  eraseColorRound (self, t.root, y) = self.eraseColorAt side y x
  := by
  obtain ⟨-, -, ⟨hy, -, -⟩, hnodup⟩ := models_plug.mp h
  simp only [Path.items] at hy hnodup
  cases side with
  | left =>
      have hx : t.root ≠ some x := by
        apply ColoredTree.root_ne_some
        intro hx
        simp only [List.nodup_append] at hnodup
        exact hnodup.2.2 x hx x (by simp [ColoredTree.root_mem_toList hsib]) rfl
      simp [eraseColorRound, hy, nodeOf, hsib, hx]
  | right => simp [eraseColorRound, hy, nodeOf, hsib]

/-- A round of `_hev_rbtree_erase_color` with a black sibling. -/
theorem eraseColorSibling_spec
    {self s : RBTree α} {side : Side} {t u v : ColoredTree α} {x y : α} {c cu cv : Color} {n : ℕ}
    {p : List (Frame α)} {items : List α}
    (h : self.Rebuilt s (plug t (⟨side, c, y, .join side .black u x v⟩ :: p)))
    (hitems : (plug t (⟨side, c, y, .join side .black u x v⟩ :: p)).toList = items)
    (ht : t.Balanced .black n) (hu : u.Balanced cu n) (hv : v.Balanced cv n)
    (hp : Path.Balanced c (ColoredTree.heightOver c (n + 1)) p) :
  Loop.Round (fun s => c = .black ∧ self.Erasing items p.length s) (self.Valid items)
    (s.eraseColorSibling side y x)
  := by
  obtain ⟨-, -, ⟨-, hsib, -⟩, -⟩ := models_plug.mp h.models
  obtain ⟨-, huh, hvh⟩ := holds_join.mp hsib
  cases cv with
  | red =>
      right
      obtain ⟨s', hs', hre⟩ := eraseColorSibling_outer h.models ((isRed_root hvh hv).mpr rfl)
      have hlist : (plug (.join side c (.join side .black t y u) x (v.paint .black)) p).toList
          = (plug t (⟨side, c, y, .join side .black u x v⟩ :: p)).toList := by
        apply toList_plug_congr
        apply (ColoredTree.toList_join_congr side x c c rfl (v.toList_paint .black)).trans
        apply ColoredTree.toList_rotate
      obtain ⟨m, hm⟩ := hp.plug (ColoredTree.Balanced.join_any (a := x) side c
        (.join_black side (a := y) ht hu) hv.paint_black)
      exact ⟨s', hs', m, _, h.trans hre hlist, hlist.trans hitems, hm⟩
  | black =>
      have hvblack : ¬s.isRed v.root := by
        rw [isRed_root hvh hv]
        decide
      cases cu with
      | red =>
          right
          obtain ⟨a, z, b, rfl, ha, hb⟩ := hu.of_red side
          have hz : s.isRed (some z) := by
            rw [← ColoredTree.root_join side .red a z b, isRed_root huh hu]
          obtain ⟨s', hs', hre⟩ := eraseColorSibling_inner h.models hvblack hz
          have hlist := (toList_plug_congr (ColoredTree.toList_double_rotate_far side c .black .red c .black
            .black t a b v y z x) p).symm
          rw [hb.paint_of_black] at hre
          obtain ⟨m, hm⟩ := hp.plug (ColoredTree.Balanced.join_any (a := z) side c
            (.join_black side (a := y) ht ha) (.join_black side (a := x) hb hv))
          exact ⟨s', hs', m, _, h.trans hre hlist, hlist.trans hitems, hm⟩
      | black =>
          have hublack : ¬s.isRed u.root := by
            rw [isRed_root huh hu]
            decide
          obtain ⟨s', hre, hs'⟩ := eraseColorSibling_flip h.models hublack hvblack
          have hlist := toList_plug_congr (ColoredTree.toList_join_congr side y .black c
            (Eq.refl t.toList) (ColoredTree.toList_join_congr side x .red .black
              (Eq.refl u.toList) (Eq.refl v.toList))) p
          have hflip :
              (ColoredTree.join side .black t y (.join side .red u x v)).Balanced .black (n + 1) :=
            .join_black side ht (.join_red side hu hv)
          rw [hs']
          cases c with
          | red =>
              right
              obtain ⟨m, hm⟩ := hp.of_red.plug hflip
              exact ⟨s', rfl, m, _, h.trans hre hlist, hlist.trans hitems, hm⟩
          | black =>
              cases p with
              | nil => exact .inr ⟨s', rfl, n + 1, _, h.trans hre hlist, hlist.trans hitems, hflip⟩
              | cons f p =>
                  left
                  exact ⟨_, rfl, rfl, n + 1, _, f :: p, rfl, h.trans hre hlist,
                    (ColoredTree.root_join _ _ _ _ _).symm, rfl, hlist.trans hitems, hflip, hp⟩

/-- A round with a red sibling `x`: the sibling is turned above the parent, and the round goes on
with the inner child `b` of the sibling. -/
theorem eraseColorAt_red
    {self : RBTree α} {side : Side} {t u v : ColoredTree α} {x y b : α} {c : Color}
    {p : List (Frame α)}
    (h : self.Models (plug t (⟨side, c, y, .join side .red u x v⟩ :: p))) (hb : u.root = some b)
    (hu : u.paint .black = u) :
  ∃ s, self.Rebuilt s (plug t (⟨side, .red, y, u⟩ :: ⟨side, c, x, v⟩ :: p))
    ∧ self.eraseColorAt side y x = s.eraseColorSibling side y b
  := by
  obtain ⟨hroot, ht, ⟨hy, hsib, hp⟩, hnodup⟩ := models_plug.mp h
  simp only [Path.up_cons, Path.items] at ht hy hsib hp hnodup
  obtain ⟨hx, hu', hv'⟩ := holds_join.mp hsib
  rw [ColoredTree.root_join] at hy
  have hnodup' : (x :: y :: (v.toList ++ (u.toList ++ (t.toList ++ Path.items p)))).Nodup := by
    rw [List.nodup_iff_count_le_one] at hnodup ⊢
    intro b
    have := hnodup b
    simp only [List.count_append, List.count_cons, ColoredTree.count_toList_join] at this ⊢
    omega
  rw [← nodeOf_opposite] at hx hy
  have hrotate := rotate_spec .black .red hroot hx hy hv' hu' ht hp hnodup'
  rw [hu, Side.opposite_opposite, ColoredTree.join_opposite, ColoredTree.join_opposite] at hrotate
  refine ⟨_, hrotate, ?_⟩
  rw [nodeOf_opposite] at hx
  simp [eraseColorAt, hx, hb, ifSome]

/-- A round of `_hev_rbtree_erase_color` ends with a red-black tree or goes on nearer to the root. -/
theorem eraseColorRound_spec
    {self : RBTree α} {items : List α} {k : ℕ} {s : RBTree α × Option α × α}
    (h : self.Erasing items k s) :
  Loop.Round (fun t => ∃ j < k, self.Erasing items j t) (self.Valid items) (eraseColorRound s)
  := by
  obtain ⟨s, node, y⟩ := s
  obtain ⟨n, t, p, hk, hs, hnode, hup, hitems, ht, hp⟩ := h
  simp only at hs hnode hup hitems
  subst hnode
  -- with a black sibling the round is that of `eraseColorSibling`
  have hsibling : ∀ c side sib q, p = ⟨side, c, y, sib⟩ :: q → sib.Balanced .black (n + 1) →
      Path.Balanced c (ColoredTree.heightOver c (n + 1)) q →
      Loop.Round (fun t => ∃ j < k, self.Erasing items j t) (self.Valid items)
        (eraseColorRound (s, t.root, y)) := by
    rintro c side sib q rfl hsib hq
    obtain ⟨cu, u, x, cv, v, rfl, hu, hv⟩ := hsib.of_black side
    obtain ⟨-, -, ⟨-, hx, -⟩, -⟩ := models_plug.mp hs.models
    have hblack : (s.node x).color ≠ .red := by
      rw [(holds_join.mp hx).1, nodeOf_color]
      decide
    rw [eraseColorRound_eq hs.models (ColoredTree.root_join _ _ _ _ _), eraseColorAt, if_neg hblack]
    obtain ⟨t', ht', -, her⟩ | hdone := eraseColorSibling_spec hs hitems ht hu hv hq
    · exact .inl ⟨t', ht', q.length, hk ▸ Nat.lt_succ_self _, her⟩
    · exact .inr hdone
  cases hp with
  | nil => cases hup
  | @red _ side a sib q hsib hq =>
      obtain rfl : a = y := Option.some_inj.mp hup
      exact hsibling .red side sib q rfl hsib hq
  | @black _ _ d side a sib q hsib hq =>
      obtain rfl : a = y := Option.some_inj.mp hup
      cases d with
      | black => exact hsibling .black side sib q rfl hsib hq
      | red =>
          obtain ⟨u, x, v, rfl, hu, hv⟩ := hsib.of_red side
          obtain ⟨cl, ul, b, cr, ur, rfl, hul, hur⟩ := hu.of_black side
          rw [eraseColorRound_eq hs.models (ColoredTree.root_join _ _ _ _ _)]
          obtain ⟨s', hre, hs'⟩ := eraseColorAt_red hs.models (ColoredTree.root_join _ _ _ _ _)
            hu.paint_of_black
          have hlist := (toList_plug_congr (ColoredTree.toList_rotate side .black .red .black .red
            t (.join side .black ul b ur) v a x) q)
          have hq' : Path.Balanced .red (n + 1) (⟨side, .black, x, v⟩ :: q) := .black hv hq
          rw [hs']
          obtain ⟨t', -, hcolor, -⟩ | hdone := eraseColorSibling_spec
            (hs.trans hre hlist) (hlist.trans hitems) ht hul hur hq'
          · cases hcolor
          · exact .inr hdone

/-- `_hev_rbtree_erase_color` restores the balance of a tree that lacks a black node at an empty
place. -/
theorem eraseColor_spec
    {self s : RBTree α} {items : List α} {y : α} {p : List (Frame α)} {fuel : ℕ}
    (h : self.Rebuilt s (plug .leaf p)) (hitems : (plug .leaf p).toList = items)
    (hup : Path.up p = some y) (hp : Path.Balanced .black 1 p) (hfuel : p.length < fuel) :
  ∃ s', s.eraseColor fuel y = some s' ∧ self.Valid items s'
  := by
  apply Loop.total (fun k s => eraseColorRound_spec) _ hfuel
  exact ⟨0, .leaf, p, rfl, h, rfl, hup, hitems, .leaf, hp⟩

/-! ### Taking a node out -/

section

omit [DecidableEq α]

/-- The nodes of the part `q` of a way up, which goes on at the node `up`, and of the subtrees
beside it are laid out in the memory. -/
def HoldsSegment (m : α → RBTreeNode α) (up : α) : Option α → List (Frame α) → Prop
  | _, [] => True
  | hole, f :: q =>
      m f.item = nodeOf f.side (some ((Path.up q).getD up)) f.color hole f.sibling.root ∧
        Holds m (some f.item) f.sibling ∧ HoldsSegment m up (some f.item) q

theorem holdsPath_append
    {m : α → RBTreeNode α} {hole : Option α} {q p : List (Frame α)} {f : Frame α} :
  HoldsPath m hole (q ++ f :: p)
    ↔ HoldsSegment m f.item hole q ∧ HoldsPath m (top hole q) (f :: p)
  := by
  induction q generalizing hole with
  | nil => simp [HoldsSegment]
  | cons g q ih =>
      have hup : Path.up (q ++ f :: p) = some ((Path.up q).getD f.item) := by
        cases q <;> simp
      rw [List.cons_append, HoldsPath, HoldsSegment, ih, hup, top_cons]
      tauto

theorem holds_plug_segment {m : α → RBTreeNode α} {up : α} {t : ColoredTree α} {q : List (Frame α)} :
  Holds m (some up) (plug t q)
    ↔ Holds m (some ((Path.up q).getD up)) t ∧ HoldsSegment m up t.root q
  := by
  induction q generalizing t with
  | nil => simp [plug, HoldsSegment]
  | cons f q ih =>
      rw [plug, ih, Frame.fill, holds_join, ColoredTree.root_join, HoldsSegment, Path.up_cons,
        Option.getD_some]
      tauto

theorem top_append (hole : Option α) (q p : List (Frame α)) (f : Frame α) :
  top hole (q ++ f :: p) = top (some f.item) p
  := by
  induction q generalizing hole with
  | nil => rfl
  | cons g q ih => exact ih _

theorem HoldsSegment.congr
    {m m' : α → RBTreeNode α} {up : α} {hole : Option α} {q : List (Frame α)}
    (h : HoldsSegment m up hole q) (hm : ∀ b ∈ Path.items q, m' b = m b) :
  HoldsSegment m' up hole q
  := by
  induction q generalizing hole with
  | nil => trivial
  | cons f q ih =>
      obtain ⟨hf, hs, hq⟩ := h
      refine ⟨(hm _ (by simp [Path.items])).trans hf, hs.congr ?_, ih hq ?_⟩
      · intro b hb
        apply hm b (by simp [Path.items, hb])
      · intro b hb
        apply hm b (by simp [Path.items, hb])

theorem top_mem_items {x : α} {f : Frame α} {q : List (Frame α)}
    (h : top (some f.item) q = some x) :
  x ∈ Path.items (f :: q)
  := by
  induction q generalizing f with
  | nil =>
      obtain rfl := Option.some_inj.mp h
      simp [Path.items]
  | cons g q ih => exact List.mem_cons_of_mem _ (List.mem_append_right _ (ih h))

/-- The upper end of a part of a way up is put below another node. -/
theorem HoldsSegment.reparent
    {m m' : α → RBTreeNode α} {up up' x : α} {hole : Option α} {q : List (Frame α)}
    (h : HoldsSegment m up hole q) (hnodup : (Path.items q).Nodup) (hx : top hole q = some x)
    (hm' : m' x = { m x with parent := some up' })
    (hm : ∀ b ∈ Path.items q, b ≠ x → m' b = m b) :
  HoldsSegment m' up' hole q
  := by
  induction q generalizing hole with
  | nil => trivial
  | cons f q ih =>
      obtain ⟨hf, hs, hq⟩ := h
      simp only [Path.items, List.nodup_cons, List.nodup_append, List.mem_append, not_or] at hnodup
      cases q with
      | nil =>
          obtain rfl := Option.some_inj.mp hx
          refine ⟨?_, hs.congr ?_, trivial⟩
          · rw [hm', hf]
            cases f.side <;> rfl
          · intro b hb
            apply hm b (by simp [Path.items, hb])
            rintro rfl
            exact hnodup.1.1 hb
      | cons g q =>
          have hxq : x ∈ Path.items (g :: q) := top_mem_items hx
          refine ⟨?_, hs.congr ?_, ih hq hnodup.2.2.1 hx ?_⟩
          · rw [hm f.item (by simp [Path.items]) (fun h => hnodup.1.2 (h ▸ hxq)), hf]
            rfl
          · intro b hb
            apply hm b (by simp [Path.items, hb])
            rintro rfl
            exact hnodup.2.2.2 b hb b hxq rfl
          · intro b hb
            apply hm b
            exact List.mem_cons_of_mem _ (List.mem_append_right _ hb)

end

/-- The successor `x`, found at the place with the way up `q` inside the right subtree of `a`, takes
the place of `a`.  Its own place is left to its child, which turns black.  The result tells where a
black node is missing. -/
theorem eraseReplace_spec
    {self : RBTree α} {a x y : α} {c d : Color} {l t : ColoredTree α} {q p : List (Frame α)}
    {up up' w z : Option α}
    (hroot : self.root = top (some a) p)
    (hx : self.node x = ⟨up, d, w, top t.root q⟩)
    (hq : HoldsSegment self.node x t.root q) (ht : Holds self.node up' t)
    (ha : self.node a = ⟨Path.up p, c, l.root, z⟩) (hl : Holds self.node (some a) l)
    (hp : HoldsPath self.node (some a) p)
    (hy : Path.up (q ++ [⟨.right, c, x, l⟩]) = some y)
    (hnodup : (a :: x :: (l.toList ++ (t.toList ++ (Path.items q ++ Path.items p)))).Nodup) :
  ∃ s, self.eraseReplace a y x t.root = (s, if t.root = none ∧ d = .black then some y else none)
    ∧ self.Rebuilt s (plug (t.paint .black) (q ++ ⟨.right, c, x, l⟩ :: p))
  := by
  have hdistinct := hnodup
  simp only [List.nodup_cons, List.mem_cons, List.mem_append, not_or, List.nodup_append]
    at hdistinct
  have hax : a ≠ x := hdistinct.1.1
  have hlx : l.root ≠ some x := ColoredTree.root_ne_some (by tauto)
  have hla : l.root ≠ some a := ColoredTree.root_ne_some (by tauto)
  have htx : t.root ≠ some x := ColoredTree.root_ne_some (by tauto)
  obtain ⟨cl, hcl, hcolor⟩ := hl.exists_color
  let linked := self.setChild .left x l.root
  let adopted := linked.ifSome l.root fun self tmp => self.setParentColor tmp (some x) cl
  have hlinked : ∀ b, b ≠ x → linked.node b = self.node b :=
    fun b hb => setChild_node_ne _ _ _ hb
  have hadopted : ∀ b, b ≠ x → b ∉ l.toList → adopted.node b = self.node b := by
    intro b hbx hbl
    rw [← hlinked b hbx]
    exact ifSome_setParentColor_ne _ _ _ (ColoredTree.root_ne_some hbl)
  have hadopt : (linked.ifSome l.root fun self tmp => self.setParent tmp (some x)) = adopted := by
    apply ifSome_setParent
    intro b hb
    rw [hlinked b (fun h => hlx (by rw [hb, h])), hcolor b hb]
  have haa : adopted.node a = ⟨Path.up p, c, l.root, z⟩ := by
    rw [hadopted a hax (by tauto), ha]
  have hap : HoldsPath adopted.node (some a) p := by
    apply hp.congr
    intro b hb
    apply hadopted b <;> grind
  have hal : Holds adopted.node (some x) l := by
    rw [← hcl]
    apply Holds.ifSome_setParentColor (u := some a) _ (by tauto)
    apply hl.congr
    intro b hb
    apply hlinked b
    grind
  have hax' : adopted.node x = ⟨up, d, l.root, top t.root q⟩ := by
    simp [adopted, linked, hlx, hx, RBTreeNode.setChild]
  obtain ⟨hroot', hpath', hframe⟩ := changeChild_spec adopted (some x)
    (by simpa [adopted, linked] using hroot) hap
    (List.nodup_cons.mpr ⟨by tauto, by tauto⟩)
  let changed := adopted.changeChild a (some x) (Path.up p)
  have hchanged : ∀ b, b ∉ Path.items p → changed.node b = adopted.node b :=
    fun b hb => hframe b (Path.up_ne_some hb)
  let blackened := changed.ifSome t.root fun self tmp => self.setParentColor tmp (some y) .black
  have hblackened : ∀ b, b ∉ t.toList → blackened.node b = changed.node b :=
    fun b hb => ifSome_setParentColor_ne _ _ _ (ColoredTree.root_ne_some hb)
  let placed := blackened.setParentColor x (Path.up p) c
  have hplaced : ∀ b, b ≠ x → placed.node b = blackened.node b :=
    fun b hb => setParentColor_node_ne _ _ _ hb
  have hresult : self.eraseReplace a y x t.root
      = (placed, if t.root = none ∧ d = .black then some y else none) := by
    have hcx : (changed.node x).color = d := by
      rw [hchanged x (by tauto), hax']
    have hlinkeda : (self.node a).left = l.root := by rw [ha]
    cases htr : t.root with
    | none =>
        simp only [eraseReplace, hlinkeda]
        rw [show (self.setChild .left x l.root) = linked from rfl, hadopt, haa]
        have hadopted : adopted.changeChild a (some x) (Path.up p) = changed := rfl
        simp [placed, blackened, htr, ifSome, hadopted, hcx]
    | some b =>
        simp only [eraseReplace, hlinkeda]
        rw [show (self.setChild .left x l.root) = linked from rfl, hadopt, haa]
        simp [placed, blackened, htr, ifSome, changed]
  have hrest : ∀ b, b ≠ x → b ∉ l.toList → b ∉ t.toList → b ∉ Path.items p →
      placed.node b = self.node b := by
    intro b hbx hbl hbt hbp
    rw [hplaced b hbx, hblackened b hbt, hchanged b hbp, hadopted b hbx hbl]
  refine ⟨placed, hresult, models_plug.mpr ⟨?_, ?_, holdsPath_append.mpr ⟨?_, ?_, ?_, ?_⟩, ?_⟩, ?_⟩
  · rw [top_append]
    simpa [placed, blackened] using hroot'
  · have hup : Path.up (q ++ ⟨.right, c, x, l⟩ :: p) = some y := by
      cases q <;> simpa using hy
    rw [hup]
    have hblack : Holds blackened.node (some y) (t.paint .black) := by
      apply Holds.ifSome_setParentColor (u := up') _ (by tauto)
      apply ht.congr
      intro b hb
      rw [hchanged b (by grind), hadopted b (by grind) (by grind)]
    apply hblack.congr
    intro b hb
    apply hplaced b
    grind [ColoredTree.toList_paint]
  · rw [ColoredTree.root_paint]
    apply hq.congr
    intro b hb
    apply hrest b <;> grind
  · simp [placed, blackened, htx, hchanged x (by tauto), hax', nodeOf]
  · apply hal.congr
    intro b hb
    rw [hplaced b (by grind), hblackened b (by grind), hchanged b (by grind)]
  · apply hpath'.congr
    intro b hb
    rw [hplaced b (by grind), hblackened b (by grind)]
  · rw [List.nodup_iff_count_le_one] at hnodup ⊢
    intro b
    have := hnodup b
    simp only [Path.items_append, Path.items, List.count_append, List.count_cons,
      ColoredTree.toList_paint] at this ⊢
    omega
  · intro b hb
    simp only [mem_toList_plug, Path.items_append, Path.items, List.mem_append, List.mem_cons,
      ColoredTree.toList_paint, not_or] at hb
    apply hrest b <;> tauto

omit [DecidableEq α] in
/-- The search for the successor finds the leftmost node `y` of the right subtree `r`, below the node
`x`. -/
theorem successor_spec
    {self : RBTree α} {a x y : α} {c d : Color} {l u v : ColoredTree α} {fuel : ℕ}
    (h : Holds self.node (some a) (.node c (.node d l y u) x v))
    (hfuel : (ColoredTree.node d l y u).height < fuel) :
  ∃ s, Loop.run self.successorRound fuel (x, y) = some s
    ∧ ∃ e t f q, ColoredTree.node c (.node d l y u) x v = plug (.node e .leaf s.2 t) (f :: q)
      ∧ f.item = s.1 ∧ f.side = .left ∧ Path.before (f :: q) = []
  := by
  let inv (k : ℕ) (s : α × α) : Prop := ∃ t f q,
    ColoredTree.node c (.node d l y u) x v = plug t (f :: q) ∧ f.item = s.1 ∧ f.side = .left
      ∧ Path.before (f :: q) = [] ∧ t.root = some s.2 ∧ t.height ≤ k
  have hround : ∀ k s, inv k s → Loop.Round (fun t => ∃ j < k, inv j t) (fun s => ∃ e t f q,
      ColoredTree.node c (.node d l y u) x v = plug (.node e .leaf s.2 t) (f :: q) ∧ f.item = s.1
        ∧ f.side = .left ∧ Path.before (f :: q) = []) (self.successorRound s) := by
    rintro k ⟨x', y'⟩ ⟨t, f, q, heq, hitem, hside, hbefore, hroot, hheight⟩
    rw [heq] at h
    obtain ⟨ht, -⟩ := holds_plug_segment.mp h
    cases t with
    | leaf => cases hroot
    | node e l' z r' =>
        obtain rfl : z = y' := Option.some_inj.mp hroot
        cases l' with
        | leaf =>
            right
            refine ⟨(x', z), ?_, e, r', f, q, heq, hitem, hside, hbefore⟩
            simp [successorRound, ht.1]
        | node e' l'' b r'' =>
            left
            refine ⟨(z, b), ?_, (ColoredTree.node e' l'' b r'').height, ?_, _,
              ⟨.left, e, z, r'⟩, f :: q, heq, rfl, rfl, ?_, rfl, le_rfl⟩
            · simp [successorRound, ht.1]
            · simp only [ColoredTree.height] at hheight ⊢
              omega
            · simpa [Path.before] using hbefore
  apply Loop.total hround _ hfuel
  exact ⟨.node d l y u, ⟨.left, c, x, v⟩, [], rfl, rfl, rfl, rfl, rfl, le_rfl⟩

/-- What `_hev_rbtree_erase` leaves: a red-black tree, or one that lacks a black node at an empty
place less than `k` steps below the root. -/
def Unlinked (self : RBTree α) (items : List α) (k : ℕ) : RBTree α × Option α → Prop
  | (s, none) => self.Valid items s
  | (s, some y) => ∃ q, q.length < k ∧ self.Rebuilt s (plug .leaf q) ∧ Path.up q = some y
      ∧ (plug .leaf q).toList = items ∧ Path.Balanced .black 1 q

/-- Taking out a leaf. -/
theorem eraseInner_leaf
    {self : RBTree α} {a : α} {c : Color} {p : List (Frame α)} {n k : ℕ} (fuel : ℕ)
    (h : self.Models (plug (.node c .leaf a .leaf) p))
    (hb : (plug (.node c .leaf a .leaf) p).Balanced .black n) (hk : p.length < k) :
  ∃ o, self.eraseInner fuel a = some o
    ∧ self.Unlinked (Path.before p ++ Path.after p) k o
  := by
  obtain ⟨hroot, ⟨ha, -, -⟩, hp, hnodup⟩ := models_plug.mp h
  simp only [ColoredTree.toList, List.nil_append, List.cons_append] at hnodup
  obtain ⟨hroot', hpath', hframe⟩ := changeChild_spec self none hroot hp hnodup
  have hre : self.Rebuilt (self.changeChild a none (Path.up p)) (plug .leaf p) := by
    refine ⟨models_plug.mpr ⟨hroot', trivial, hpath', hnodup.of_cons⟩, ?_⟩
    intro b hb
    apply hframe b (Path.up_ne_some (by simpa [mem_toList_plug, ColoredTree.toList] using hb))
  have hitems : (plug .leaf p).toList = Path.before p ++ Path.after p := by
    rw [toList_plug]
    simp [ColoredTree.toList]
  obtain ⟨e, m, hnode, hplace⟩ := ColoredTree.Balanced.of_plug hb
  refine ⟨(self.changeChild a none (Path.up p), if c = .black then Path.up p else none),
    by simp [eraseInner, ha], ?_⟩
  cases hnode with
  | red hl hr =>
      cases hl
      obtain ⟨m, hm⟩ := hplace.of_red.plug .leaf
      exact ⟨m, _, hre, hitems, hm⟩
  | black hl hr =>
      cases hl
      cases p with
      | nil => exact ⟨0, .leaf, hre, hitems, .leaf⟩
      | cons f p => exact ⟨f :: p, hk, hre, rfl, hitems, hplace⟩

theorem changeChild_setParentColor
    (self : RBTree α) (a b : α) (new parent up : Option α) (c : Color) (h : up ≠ some b) :
  (self.changeChild a new up).setParentColor b parent c
    = (self.setParentColor b parent c).changeChild a new up
  := by
  cases up with
  | none => rfl
  | some x =>
      have hx : x ≠ b := fun heq => h (by rw [heq])
      simp only [changeChild, setParentColor_node_ne _ _ _ hx]
      split <;> exact write_comm _ _ _ hx

/-- Taking out a node with one child: the child takes its place and its colour. -/
theorem eraseInner_child
    {self : RBTree α} (side : Side) {a : α} {c : Color} {t : ColoredTree α} {p : List (Frame α)}
    {n : ℕ} (k fuel : ℕ) (h : self.Models (plug (.join side c t a .leaf) p))
    (hb : (plug (.join side c t a .leaf) p).Balanced .black n) (ht : t ≠ .leaf) :
  ∃ o, self.eraseInner fuel a = some o
    ∧ self.Unlinked (Path.before p ++ t.toList ++ Path.after p) k o
  := by
  obtain ⟨hroot, hnode, hp, hnodup⟩ := models_plug.mp h
  obtain ⟨ha, htm, -⟩ := holds_join.mp hnode
  rw [ColoredTree.root_join] at hroot hp
  obtain ⟨b, hbt⟩ : ∃ b, t.root = some b := by
    cases t with
    | leaf => exact absurd rfl ht
    | node d l b r => exact ⟨b, rfl⟩
  have hdistinct : (a :: (t.toList ++ Path.items p)).Nodup := by
    rw [List.nodup_iff_count_le_one] at hnodup ⊢
    intro b
    have := hnodup b
    simp only [List.count_append, List.count_cons, ColoredTree.count_toList_join] at this ⊢
    omega
  simp only [List.nodup_cons, List.mem_append, not_or, List.nodup_append] at hdistinct
  have hbm : b ∈ t.toList := ColoredTree.root_mem_toList hbt
  have hup : Path.up p ≠ some b := Path.up_ne_some (fun hb => hdistinct.2.2.2 b hbm b hb rfl)
  let painted := self.setParentColor b (Path.up p) c
  have hpainted : ∀ x, x ≠ b → painted.node x = self.node x :=
    fun x hx => setParentColor_node_ne _ _ _ hx
  have hround : self.eraseInner fuel a = some (painted.changeChild a (some b) (Path.up p), none) := by
    cases side with
    | left => simp [eraseInner, ha, nodeOf, hbt, painted]
    | right =>
        simp [eraseInner, ha, nodeOf, hbt, painted, changeChild_setParentColor _ _ _ _ _ _ _ hup]
  have hpp : HoldsPath painted.node (some a) p := by
    apply hp.congr
    intro x hx
    apply hpainted x
    rintro rfl
    exact hdistinct.2.2.2 x hbm x hx rfl
  have hpt : Holds painted.node (Path.up p) (t.paint c) := by
    apply htm.repaint hdistinct.2.1
    · intro x hx
      obtain rfl := Option.some_inj.mp (hbt.symm.trans hx)
      apply setParentColor_node_self
    · intro x _ hx
      apply hpainted x
      rintro rfl
      exact hx hbt
  obtain ⟨hroot', hpath', hframe⟩ := changeChild_spec painted (some b) hroot hpp
    (List.nodup_cons.mpr ⟨hdistinct.1.2, hdistinct.2.2.1⟩)
  have hre : self.Rebuilt (painted.changeChild a (some b) (Path.up p)) (plug (t.paint c) p) := by
    refine ⟨models_plug.mpr ⟨?_, hpt.congr ?_, ?_, ?_⟩, ?_⟩
    · rw [hroot', ColoredTree.root_paint, hbt]
    · intro x hx
      apply hframe x (Path.up_ne_some _)
      rw [ColoredTree.toList_paint] at hx
      exact fun hxp => hdistinct.2.2.2 x hx x hxp rfl
    · rw [ColoredTree.root_paint, hbt]
      exact hpath'
    · rw [ColoredTree.toList_paint, List.nodup_append]
      exact hdistinct.2
    · intro x hx
      simp only [mem_toList_plug, ColoredTree.toList_paint, not_or] at hx
      rw [hframe x (Path.up_ne_some hx.2), hpainted x]
      rintro rfl
      exact hx.1 hbm
  have hitems : (plug (t.paint c) p).toList = Path.before p ++ t.toList ++ Path.after p := by
    rw [toList_plug, ColoredTree.toList_paint]
  refine ⟨_, hround, ?_⟩
  obtain ⟨e, m, hnode, hplace⟩ := ColoredTree.Balanced.of_plug hb
  obtain ⟨rfl, rfl, rfl, hred⟩ := hnode.of_single ht
  obtain ⟨m, hm⟩ := hplace.plug hred.paint_black
  exact ⟨m, _, hre, hitems, hm⟩

/-- The leftmost node `y` of the right subtree of `a` is put above that subtree, whose root is `x`, and
its child takes its place. -/
theorem successor_moved
    {self : RBTree α} {a x y : α} {d : Color} {t : ColoredTree α} {f : Frame α} {q : List (Frame α)}
    (h : Holds self.node (some a) (plug (.node d .leaf y t) (f :: q))) (hside : f.side = .left)
    (hx : top (some y) (f :: q) = some x) (hnodup : (y :: (t.toList ++ Path.items (f :: q))).Nodup) :
  let moved := ((self.setChild .left f.item t.root).setChild .right y (some x)).setParent x (some y)
  moved.node y = ⟨some ((Path.up (f :: q)).getD a), d, none, top t.root (f :: q)⟩
    ∧ HoldsSegment moved.node y t.root (f :: q) ∧ Holds moved.node (some y) t
    ∧ ∀ w, w ≠ y → w ∉ Path.items (f :: q) → moved.node w = self.node w
  := by
  intro moved
  obtain ⟨hy, hf, hfs, hfq⟩ := holds_plug_segment.mp h
  have hxq : x ∈ Path.items (f :: q) := top_mem_items hx
  have hfq' : f.item ∈ Path.items (f :: q) := by simp [Path.items]
  simp only [List.nodup_cons, List.mem_append, not_or, List.nodup_append] at hnodup
  obtain ⟨⟨hyt, hyq⟩, -, hq, hd⟩ := hnodup
  have hyx : y ≠ x := fun heq => hyq (heq ▸ hxq)
  have hyf : y ≠ f.item := fun heq => hyq (heq ▸ hfq')
  let linked := self.setChild .left f.item t.root
  have hlinked : ∀ w, w ≠ f.item → linked.node w = self.node w :=
    fun w hw => setChild_node_ne _ _ _ hw
  have hlseg : HoldsSegment linked.node a t.root (f :: q) := by
    simp only [Path.items, List.nodup_cons, List.mem_append, not_or] at hq
    refine ⟨?_, hfs.congr ?_, hfq.congr ?_⟩
    · simp [linked, hf, hside]
    · intro w hw
      apply hlinked w
      rintro rfl
      exact hq.1.1 hw
    · intro w hw
      apply hlinked w
      rintro rfl
      exact hq.1.2 hw
  have hmoved : ∀ w, w ≠ x → w ≠ y → moved.node w = linked.node w := by
    intro w hwx hwy
    simp [moved, setParent, hwx, hwy, linked]
  refine ⟨?_, ?_, hy.2.2.congr ?_, ?_⟩
  · have htop : top t.root (f :: q) = some x := hx
    rw [htop]
    simp [moved, setParent, hyx, hyf, hy.1, RBTreeNode.setChild]
  · apply hlseg.reparent hq hx
    · simp [moved, setParent, hyx.symm, linked]
    · intro w hw hwx
      apply hmoved w hwx
      rintro rfl
      exact hyq hw
  · intro w hw
    rw [hmoved w, hlinked w]
    · exact fun heq => hd w hw _ hfq' heq
    · exact fun heq => hd w hw _ hxq heq
    · rintro rfl
      exact hyt hw
  · intro w hwy hwq
    rw [hmoved w _ hwy, hlinked w]
    · exact fun heq => hwq (heq ▸ hfq')
    · exact fun heq => hwq (heq ▸ hxq)

/-- The successor `x` of a node with two children, found in the right subtree at the place with the way
up `q`, takes the place of the node. -/
theorem eraseInner_successor
    {self : RBTree α} {a : α} {c : Color} {l r : ColoredTree α} {p : List (Frame α)} {fuel : ℕ}
    (h : self.Models (plug (.node c l a r) p)) (hl : l ≠ .leaf) (hr : r ≠ .leaf)
    (hfuel : r.height ≤ fuel) :
  ∃ d x t q y s, r = plug (.node d .leaf x t) q ∧ Path.before q = []
    ∧ Path.up (q ++ [⟨.right, c, x, l⟩]) = some y
    ∧ self.eraseInner fuel a = some (s, if t.root = none ∧ d = .black then some y else none)
    ∧ self.Rebuilt s (plug (t.paint .black) (q ++ ⟨.right, c, x, l⟩ :: p))
  := by
  obtain ⟨hroot, ⟨ha, hlm, hrm⟩, hp, hnodup⟩ := models_plug.mp h
  have hdistinct : ∀ d x t q, r = plug (.node d .leaf x t) q →
      (a :: x :: (l.toList ++ (t.toList ++ (Path.items q ++ Path.items p)))).Nodup := by
    rintro d x t q rfl
    rw [List.nodup_iff_count_le_one] at hnodup ⊢
    intro b
    have := hnodup b
    have hplug := (toList_plug_perm (.node d .leaf x t) q).count_eq b
    simp only [ColoredTree.toList, List.count_append, List.count_cons, List.count_nil] at this hplug ⊢
    omega
  obtain ⟨b, hb⟩ : ∃ b, l.root = some b := by
    cases l with
    | leaf => exact absurd rfl hl
    | node d l' b r' => exact ⟨b, rfl⟩
  cases r with
  | leaf => exact absurd rfl hr
  | node d w x t =>
      cases w with
      | leaf =>
          obtain ⟨s, hs, hre⟩ := eraseReplace_spec (q := []) hroot hrm.1 trivial hrm.2.2 ha hlm hp
            rfl (hdistinct d x t [] rfl)
          refine ⟨d, x, t, [], x, s, rfl, rfl, rfl, ?_, hre⟩
          simp [eraseInner, ha, hb, hrm.1, hs]
      | node e l' z u =>
          have hz : (ColoredTree.node e l' z u).height < fuel := by
            simp only [ColoredTree.height] at hfuel ⊢
            omega
          obtain ⟨⟨x', y⟩, hrun, d', t', f, q, heq, rfl, hside, hbefore⟩ :=
            successor_spec hrm hz
          simp only at heq hrun
          have hxtop : top (some y) (f :: q) = some x := by
            have hroot := congrArg ColoredTree.root heq
            rw [root_plug] at hroot
            exact hroot.symm
          have hxl : (self.node x).left = some z := by rw [hrm.1]; rfl
          have hd := hdistinct d' y t' (f :: q) heq
          rw [heq] at hrm
          have hd' := hd
          simp only [List.nodup_cons, List.mem_cons, List.mem_append, not_or,
            List.nodup_append] at hd'
          obtain ⟨hmy, hmseg, hmt, hframe⟩ := successor_moved hrm hside hxtop (by
            simp only [List.nodup_cons, List.mem_append, not_or, List.nodup_append]
            grind)
          have hy := (holds_plug_segment.mp hrm).1.1
          let moved := ((self.setChild .left f.item t'.root).setChild .right y (some x)).setParent x
            (some y)
          have hround : self.eraseInner fuel a = some (moved.eraseReplace a f.item y t'.root) := by
            simp [eraseInner, ha, hb, hxl, hrun, hy, moved]
          have hma : moved.node a = ⟨Path.up p, c, l.root, some x⟩ := by
            rw [hframe a (by tauto) (by tauto), ha]
            rfl
          have hml : Holds moved.node (some a) l := by
            apply hlm.congr
            intro w hw
            apply hframe w <;> grind
          have hmp : HoldsPath moved.node (some a) p := by
            apply hp.congr
            intro w hw
            apply hframe w <;> grind
          obtain ⟨s, hs, hmodels, hrest⟩ := eraseReplace_spec
            (show moved.root = top (some a) p from hroot) hmy hmseg hmt hma hml hmp rfl hd
          refine ⟨d', y, t', f :: q, f.item, s, heq, hbefore, rfl, by rw [hround, hs], hmodels, ?_⟩
          intro w hw
          rw [hrest w hw]
          simp only [mem_toList_plug, Path.items_append, List.mem_append, Path.items, List.mem_cons,
            not_or] at hw
          apply hframe w (by tauto)
          simp only [Path.items, List.mem_cons, List.mem_append, not_or]
          tauto

/-- Taking out a node with two children. -/
theorem eraseInner_both
    {self : RBTree α} {a : α} {c : Color} {l r : ColoredTree α} {p : List (Frame α)} {n k fuel : ℕ}
    (h : self.Models (plug (.node c l a r) p)) (hb : (plug (.node c l a r) p).Balanced .black n)
    (hl : l ≠ .leaf) (hr : r ≠ .leaf) (hfuel : r.height ≤ fuel) (hk : p.length + r.height < k) :
  ∃ o, self.eraseInner fuel a = some o
    ∧ self.Unlinked (Path.before p ++ (l.toList ++ r.toList) ++ Path.after p) k o
  := by
  obtain ⟨d, x, t, q, y, s, rfl, hbefore, hy, hs, hre⟩ := eraseInner_successor h hl hr hfuel
  have hitems : (plug (t.paint .black) (q ++ ⟨.right, c, x, l⟩ :: p)).toList
      = Path.before p ++ (l.toList ++ (plug (.node d .leaf x t) q).toList) ++ Path.after p := by
    rw [toList_plug, toList_plug, Path.before_append, Path.after_append, hbefore]
    simp [ColoredTree.toList, Path.before, Path.after]
  have hplug : plug (.node c l a (plug (.node d .leaf x t) q)) p
      = plug (.node d .leaf x t) (q ++ ⟨.right, c, a, l⟩ :: p) := by
    rw [plug_append]
    rfl
  rw [hplug] at hb
  obtain ⟨e, m, hnode, hplace⟩ := ColoredTree.Balanced.of_plug hb
  have hplace' := hplace.rename x
  refine ⟨_, hs, ?_⟩
  obtain ⟨rfl, rfl, rfl, rfl⟩ | ⟨rfl, rfl, rfl, rfl | ht⟩ := hnode.of_leaf_left
  · obtain ⟨m, hm⟩ := hplace'.of_red.plug .leaf
    exact ⟨m, _, hre, hitems, hm⟩
  · refine ⟨_, ?_, hre, ?_, hitems, hplace'⟩
    · have := length_add_height_le (.node .black .leaf x .leaf) q
      simp only [ColoredTree.height] at this
      simp only [List.length_append, List.length_cons]
      omega
    · cases q <;> simpa using hy
  · obtain ⟨b, hbt⟩ : ∃ b, t.root = some b := by
      cases ht
      exact ⟨_, rfl⟩
    rw [if_neg (by simp [hbt])]
    obtain ⟨m, hm⟩ := hplace'.plug ht.paint_black
    exact ⟨m, _, hre, hitems, hm⟩

/-- `_hev_rbtree_erase` takes exactly the node out. -/
theorem eraseInner_spec
    {self : RBTree α} {a : α} {c : Color} {l r : ColoredTree α} {p : List (Frame α)} {n fuel : ℕ}
    (h : self.Models (plug (.node c l a r) p)) (hb : (plug (.node c l a r) p).Balanced .black n)
    (hfuel : (plug (.node c l a r) p).height ≤ fuel) :
  ∃ o, self.eraseInner fuel a = some o
    ∧ self.Unlinked (Path.before p ++ (l.toList ++ r.toList) ++ Path.after p) fuel o
  := by
  have hlength := length_add_height_le (.node c l a r) p
  simp only [ColoredTree.height] at hlength
  by_cases hl : l = .leaf
  · subst hl
    by_cases hr : r = .leaf
    · subst hr
      simpa [ColoredTree.toList] using eraseInner_leaf fuel h hb (by omega)
    · exact eraseInner_child .right fuel fuel h hb hr
  · by_cases hr : r = .leaf
    · subst hr
      simpa [ColoredTree.toList] using eraseInner_child .left fuel fuel h hb hl
    · exact eraseInner_both h hb hl hr (by omega) (by omega)

/-- `hev_rbtree_erase` takes exactly the node out and leaves a red-black tree.  No null pointer is
followed, and as many rounds of each loop as the tree is high are enough. -/
theorem erase_spec
    {self : RBTree α} {a : α} {t : ColoredTree α} {n fuel : ℕ} (h : self.Models t)
    (hb : t.Balanced .black n) (ha : a ∈ t.toList) (hfuel : t.height ≤ fuel) :
  ∃ s, self.erase fuel a = some s ∧ self.Valid (t.toList.erase a) s
  := by
  obtain ⟨c, l, r, p, rfl⟩ := exists_plug ha
  have herase : (plug (.node c l a r) p).toList.erase a
      = Path.before p ++ (l.toList ++ r.toList) ++ Path.after p := by
    have hnodup := h.nodup
    simp only [toList_plug, ColoredTree.toList, List.append_assoc, List.nodup_append] at hnodup ⊢
    have hbefore : a ∉ Path.before p := fun hb => hnodup.2.2 a hb a (by simp) rfl
    have hl : a ∉ l.toList := fun hl => hnodup.2.1.2.2 a hl a (by simp) rfl
    rw [List.erase_append_right _ hbefore, List.erase_append_right _ hl, List.cons_append,
      List.erase_cons_head]
  rw [herase, erase]
  obtain ⟨⟨s, rebalance⟩, ho, hun⟩ := eraseInner_spec h hb hfuel
  rw [ho, Option.bind_some]
  cases rebalance with
  | none => exact ⟨s, rfl, hun⟩
  | some y =>
      obtain ⟨q, hq, hre, hup, hitems, hplace⟩ := hun
      exact eraseColor_spec hre hitems hup hplace hq

end Hev.RBTree
