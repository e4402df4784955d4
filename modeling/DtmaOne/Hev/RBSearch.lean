import Mathlib.Order.Basic
import DtmaOne.Hev.RBErase

/-!
# Search in the red-black tree of the tunnel

The users of the tree search it by a key: a node whose key is less than the key searched for sends
the search to the left, so that the keys of a tree decrease from left to right.  The search for the
place of a new node and the search for a node are loops over the pointers.
-/

namespace Hev.RBTree

open RedBlack

variable {α κ : Type}

/-- The pointer a link holds: the root, or a child of a node. -/
def follow (self : RBTree α) : Option (α × Side) → Option α
  | none => self.root
  | some (parent, side) => (self.node parent).child side

/-- A round of the search for the place of a new node, with the link `new`; `res` is the result of
the comparison of the key of a node with the key of the new one, absent if the node has no key to
compare.  The search ends at a link that is null, or at a node with the same key. -/
def placeRound (res : α → Option Ordering) (self : RBTree α) (new : Option (α × Side)) :
    Option (Option (α × Side) ⊕ (Option (α × Side) ⊕ α)) :=
  match self.follow new with
  | none => some (.inr (.inl new))
  | some node =>
      (res node).map fun
        | .lt => .inl (some (node, .left))
        | .gt => .inl (some (node, .right))
        | .eq => .inr (.inr node)

/-- The search for the place of a new node, cut off after `fuel` rounds. -/
def place (fuel : ℕ) (res : α → Option Ordering) (self : RBTree α) :
    Option (Option (α × Side) ⊕ α) :=
  Loop.run (self.placeRound res) fuel none

/-- A round of the search for a node. -/
def searchRound (res : α → Ordering) (self : RBTree α) :
    Option α → Option (Option α ⊕ Option α)
  | none => some (.inr none)
  | some node =>
      match res node with
      | .lt => some (.inl (self.node node).left)
      | .gt => some (.inl (self.node node).right)
      | .eq => some (.inr (some node))

/-- The search for a node, cut off after `fuel` rounds. -/
def search (fuel : ℕ) (res : α → Ordering) (self : RBTree α) : Option (Option α) :=
  Loop.run (self.searchRound res) fuel self.root

/-- The comparison sends the search for its key from every node towards the node with the key: to
the left of a node with a smaller key, to the right of a node with a greater one. -/
def Directs (res : α → Ordering) (items : List α) : Prop :=
  items.Pairwise fun a b => (res a = .lt → res b = .lt) ∧ (res b = .gt → res a = .gt)
    ∧ ¬(res a = .eq ∧ res b = .eq)

/-- A place of a tree that the search for a key comes to: the keys on the left are greater, those on
the right are smaller. -/
structure Leads (res : α → Ordering) (p : List (Frame α)) : Prop where
  before : ∀ b ∈ Path.before p, res b = .gt
  after : ∀ b ∈ Path.after p, res b = .lt

@[simp]
theorem link_cons (f : Frame α) (p : List (Frame α)) :
  link (f :: p) = some (f.item, f.side)
  := rfl

theorem follow_link {self : RBTree α} {t : ColoredTree α} {p : List (Frame α)}
    (h : self.Models (plug t p)) :
  self.follow (link p) = t.root
  := by
  obtain ⟨hroot, -, hpath, -⟩ := models_plug.mp h
  cases p with
  | nil => exact hroot
  | cons f p => simp [follow, link, hpath.1]

/-- The search goes on to the left of a node with a smaller key. -/
theorem Leads.left
    {res : α → Ordering} {c : Color} {l r : ColoredTree α} {a : α} {p : List (Frame α)}
    (h : Leads res p) (hd : Directs res (plug (.node c l a r) p).toList) (ha : res a = .lt) :
  Leads res (⟨.left, c, a, r⟩ :: p)
  := by
  rw [toList_plug] at hd
  simp only [Directs, ColoredTree.toList, List.append_assoc, List.cons_append, List.pairwise_append,
    List.pairwise_cons] at hd
  obtain ⟨-, ⟨-, ⟨hr, -⟩, -⟩, -⟩ := hd
  constructor
  · simpa [Path.before] using h.before
  · intro b hb
    simp only [Path.after, List.cons_append, List.mem_cons, List.mem_append] at hb
    obtain rfl | hb | hb := hb
    · exact ha
    · exact (hr b (by simp [hb])).1 ha
    · exact h.after b hb

/-- The search goes on to the right of a node with a greater key. -/
theorem Leads.right
    {res : α → Ordering} {c : Color} {l r : ColoredTree α} {a : α} {p : List (Frame α)}
    (h : Leads res p) (hd : Directs res (plug (.node c l a r) p).toList) (ha : res a = .gt) :
  Leads res (⟨.right, c, a, l⟩ :: p)
  := by
  rw [toList_plug] at hd
  simp only [Directs, ColoredTree.toList, List.append_assoc, List.cons_append, List.pairwise_append,
    List.pairwise_cons] at hd
  obtain ⟨-, ⟨-, -, hl⟩, -⟩ := hd
  constructor
  · intro b hb
    simp only [Path.before, List.mem_append, List.mem_singleton] at hb
    obtain hb | hb | rfl := hb
    · exact h.before b hb
    · exact (hl b hb a (by simp)).2.1 ha
    · exact ha
  · simpa [Path.after] using h.after

/-- The search for the place of a new node ends at an empty place the search leads to, or at a node
with the same key. -/
theorem place_spec
    {self : RBTree α} {t : ColoredTree α} {res : α → Ordering} {res' : α → Option Ordering} {fuel : ℕ}
    (h : self.Models t) (hres : ∀ b ∈ t.toList, res' b = some (res b)) (hd : Directs res t.toList)
    (hfuel : t.height < fuel) :
  ∃ o, self.place fuel res' = some o ∧
    ((∃ p, o = .inl (link p) ∧ t = plug .leaf p ∧ Leads res p)
      ∨ ∃ a, o = .inr a ∧ a ∈ t.toList ∧ res a = .eq)
  := by
  let inv (k : ℕ) (new : Option (α × Side)) : Prop := ∃ u p,
    new = link p ∧ t = plug u p ∧ Leads res p ∧ u.height = k
  have hstart : inv t.height none :=
    ⟨t, [], rfl, rfl, ⟨by simp [Path.before], by simp [Path.after]⟩, rfl⟩
  apply Loop.total _ hstart hfuel
  rintro k new ⟨u, p, rfl, rfl, hp, rfl⟩
  have hfollow := follow_link h
  cases u with
  | leaf => exact .inr ⟨_, by rw [placeRound, hfollow]; rfl, .inl ⟨p, rfl, rfl, hp⟩⟩
  | node c l a r =>
      have hres' : res' a = some (res a) := hres a (by simp [mem_toList_plug, ColoredTree.toList])
      cases ha : res a with
      | lt =>
          left
          refine ⟨link (⟨.left, c, a, r⟩ :: p), by simp [placeRound, hfollow, hres', ha], l.height,
            ?_, l, _, rfl, rfl, hp.left hd ha, rfl⟩
          simp only [ColoredTree.height]
          omega
      | gt =>
          left
          refine ⟨link (⟨.right, c, a, l⟩ :: p), by simp [placeRound, hfollow, hres', ha], r.height,
            ?_, r, _, rfl, rfl, hp.right hd ha, rfl⟩
          simp only [ColoredTree.height]
          omega
      | eq =>
          right
          refine ⟨_, by simp [placeRound, hfollow, hres', ha], .inr ⟨a, rfl, ?_, ha⟩⟩
          simp [mem_toList_plug, ColoredTree.toList]

/-- The search for a node finds the node with the key, or there is none. -/
theorem search_spec
    {self : RBTree α} {t : ColoredTree α} {res : α → Ordering} {fuel : ℕ} (h : self.Models t)
    (hd : Directs res t.toList) (hfuel : t.height < fuel) :
  ∃ o, self.search fuel res = some o ∧
    ((o = none ∧ ∀ b ∈ t.toList, res b ≠ .eq) ∨ ∃ a, o = some a ∧ a ∈ t.toList ∧ res a = .eq)
  := by
  let inv (k : ℕ) (node : Option α) : Prop := ∃ u p,
    node = u.root ∧ t = plug u p ∧ Leads res p ∧ u.height = k
  have hstart : inv t.height self.root :=
    ⟨t, [], h.root, rfl, ⟨by simp [Path.before], by simp [Path.after]⟩, rfl⟩
  apply Loop.total _ hstart hfuel
  rintro k node ⟨u, p, rfl, rfl, hp, rfl⟩
  obtain ⟨-, hu, -, -⟩ := models_plug.mp h
  cases u with
  | leaf =>
      right
      refine ⟨none, rfl, .inl ⟨rfl, ?_⟩⟩
      intro b hb
      rw [toList_plug] at hb
      simp only [ColoredTree.toList, List.append_nil, List.mem_append] at hb
      obtain hb | hb := hb
      · simp [hp.before b hb]
      · simp [hp.after b hb]
  | node c l a r =>
      cases ha : res a with
      | lt =>
          left
          refine ⟨l.root, by simp [searchRound, hu.1, ha], l.height, ?_, l, _, rfl, rfl,
            hp.left hd ha, rfl⟩
          simp only [ColoredTree.height]
          omega
      | gt =>
          left
          refine ⟨r.root, by simp [searchRound, hu.1, ha], r.height, ?_, r, _, rfl, rfl,
            hp.right hd ha, rfl⟩
          simp only [ColoredTree.height]
          omega
      | eq =>
          right
          refine ⟨some a, by simp [searchRound, ha], .inr ⟨a, rfl, ?_, ha⟩⟩
          simp [mem_toList_plug, ColoredTree.toList]

/-- The keys of the items decrease from left to right. -/
def Decreasing (cmp : κ → κ → Ordering) (key : α → κ) (items : List α) : Prop :=
  items.Pairwise fun a b => cmp (key a) (key b) = .gt

/-- Comparing the keys of a tree with a key leads to the place of that key. -/
theorem Decreasing.directs
    {cmp : κ → κ → Ordering} [Std.TransCmp cmp] {key : α → κ} {items : List α}
    (h : Decreasing cmp key items) (k : κ) :
  Directs (fun a => cmp (key a) k) items
  := by
  apply h.imp
  intro a b hab
  refine ⟨?_, ?_, ?_⟩
  · intro ha
    exact Std.TransCmp.lt_trans (Std.OrientedCmp.gt_iff_lt.mp hab) ha
  · exact Std.TransCmp.gt_trans hab
  · rintro ⟨ha, hb⟩
    rw [Std.TransCmp.congr_left ha, Std.OrientedCmp.eq_comm.mp hb] at hab
    cases hab

theorem Decreasing.congr
    {cmp : κ → κ → Ordering} {key key' : α → κ} {items : List α} (h : Decreasing cmp key items)
    (hkey : ∀ a ∈ items, key' a = key a) :
  Decreasing cmp key' items
  := by
  apply List.Pairwise.imp_of_mem _ h
  intro a b ha hb hab
  rw [hkey a ha, hkey b hb]
  exact hab

/-- A new node at the place its key leads to keeps the order of the keys. -/
theorem Decreasing.insert
    {cmp : κ → κ → Ordering} [Std.OrientedCmp cmp] {key : α → κ} {a : α} {p : List (Frame α)}
    (h : Decreasing cmp key (Path.before p ++ Path.after p))
    (hp : Leads (fun b => cmp (key b) (key a)) p) :
  Decreasing cmp key (Path.before p ++ a :: Path.after p)
  := by
  simp only [Decreasing, List.pairwise_append, List.pairwise_cons, List.mem_cons] at h ⊢
  obtain ⟨hbefore, hafter, hboth⟩ := h
  refine ⟨hbefore, ⟨fun b hb => Std.OrientedCmp.gt_iff_lt.mpr (hp.after b hb), hafter⟩, ?_⟩
  rintro b hb c (rfl | hc)
  · exact hp.before b hb
  · exact hboth b hb c hc

/-- The search for the place of a new node, `hev_rbtree_node_link` and `hev_rbtree_insert_color`. -/
theorem insert_spec
    [DecidableEq α] {self : RBTree α} {t : ColoredTree α} {res : α → Ordering}
    {res' : α → Option Ordering} {n fuel : ℕ}
    (h : self.Models t) (hb : t.Balanced .black n) (hres : ∀ b ∈ t.toList, res' b = some (res b))
    (hd : Directs res t.toList) (hfuel : t.height < fuel) :
  (∃ b ∈ t.toList, res b = .eq ∧ self.place fuel res' = some (.inr b))
    ∨ ∃ p, self.place fuel res' = some (.inl (link p)) ∧ Leads res p
      ∧ t.toList = Path.before p ++ Path.after p
      ∧ ∀ a, a ∉ t.toList → ∃ s, insertColor fuel (self.nodeLink a (link p)) a = some s
        ∧ self.Valid (Path.before p ++ a :: Path.after p) s
  := by
  obtain ⟨o, ho, ⟨p, rfl, rfl, hp⟩ | ⟨b, rfl, hbt, hbres⟩⟩ := place_spec h hres hd hfuel
  · right
    have hlength := length_add_height_le .leaf p
    refine ⟨p, ho, hp, ?_, ?_⟩
    · rw [toList_plug]
      simp [ColoredTree.toList]
    · intro a ha
      exact insertColor_spec h hb ha (show p.length < fuel by omega)
  · exact .inl ⟨b, hbt, hbres, ho⟩

/-- The height of a red-black tree of the tunnel, from the number of its nodes. -/
theorem height_lt {t : ColoredTree α} {n m fuel : ℕ} (hb : t.Balanced .black n)
    (hm : t.toList.length ≤ m) (hfuel : 2 * Nat.log 2 (m + 1) < fuel) :
  t.height < fuel
  := by
  have hheight := hb.height_le_log
  have hlog : Nat.log 2 (t.toList.length + 1) ≤ Nat.log 2 (m + 1) :=
    Nat.log_mono_right (by omega)
  omega

end Hev.RBTree
