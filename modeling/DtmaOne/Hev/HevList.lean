import Mathlib.Data.List.Basic
import Mathlib.Data.List.Induction
import Mathlib.Data.List.Nodup

/-!
# The doubly linked list of the tunnel

A list has a head and a tail, its nodes are linked both ways.  `Models self l` says that the links
of `self` are those of the list `l` of addresses.  Adding at the tail and taking a node out are
`l ++ [a]` and `l.erase a`.
-/

namespace Hev

/-- `HevListNode`. -/
structure HevListNode (α : Type) where
  prev : Option α
  next : Option α
deriving DecidableEq, Repr

/-- `HevList`, with the memory the nodes live in. -/
structure HevList (α : Type) where
  head : Option α
  tail : Option α
  node : α → HevListNode α

namespace HevList

variable {α : Type} [DecidableEq α]

/-- Writes to the node at an address. -/
def write (self : HevList α) (a : α) (f : HevListNode α → HevListNode α) : HevList α :=
  { self with node := fun b => if b = a then f (self.node b) else self.node b }

/-- `hev_list_first`. -/
def first (self : HevList α) : Option α := self.head

/-- `hev_list_add_tail`. -/
def addTail (self : HevList α) (new : α) : HevList α :=
  let self := self.write new fun _ => ⟨self.tail, none⟩
  let self := match self.tail with
    | some tail => self.write tail fun node => { node with next := some new }
    | none => { self with head := some new }
  { self with tail := some new }

/-- The first half of `hev_list_del`: `node->prev` is linked to `node->next`. -/
def linkPrev (self : HevList α) (prev next : Option α) : HevList α :=
  match prev with
  | some prev => self.write prev fun node => { node with next := next }
  | none => { self with head := next }

/-- The second half of `hev_list_del`: `node->next` is linked to `node->prev`. -/
def linkNext (self : HevList α) (prev next : Option α) : HevList α :=
  match next with
  | some next => self.write next fun node => { node with prev := prev }
  | none => { self with tail := prev }

/-- `hev_list_del`. -/
def del (self : HevList α) (node : α) : HevList α :=
  let prev := (self.node node).prev
  let next := (self.node node).next
  (self.linkPrev prev next).linkNext prev next

section

omit [DecidableEq α]

/-- The nodes of `l` are linked, with the node `prev` before them and the node `next` after. -/
def Linked (m : α → HevListNode α) : Option α → List α → Option α → Prop
  | _, [], _ => True
  | prev, a :: l, next => m a = ⟨prev, l.head?.or next⟩ ∧ Linked m (some a) l next

/-- The links are those of the list. -/
structure Models (list : HevList α) (l : List α) : Prop where
  head : list.head = l.head?
  tail : list.tail = l.getLast?
  linked : Linked list.node none l none
  nodup : l.Nodup

theorem linked_append {m : α → HevListNode α} {prev next : Option α} {l l' : List α} :
  Linked m prev (l ++ l') next
    ↔ Linked m prev l (l'.head?.or next) ∧ Linked m (l.getLast?.or prev) l' next
  := by
  induction l generalizing prev with
  | nil => simp [Linked]
  | cons a l ih =>
      cases l with
      | nil => simp [Linked]
      | cons b l =>
          rw [List.cons_append, Linked, ih, List.getLast?_cons_cons]
          simp [Linked, List.getLast?_cons, and_assoc]

/-- The links depend on the nodes of the list only. -/
theorem Linked.congr {m m' : α → HevListNode α} {prev next : Option α} {l : List α}
    (h : Linked m prev l next) (hm : ∀ b ∈ l, m' b = m b) :
  Linked m' prev l next
  := by
  induction l generalizing prev with
  | nil => trivial
  | cons a l ih =>
      obtain ⟨ha, hl⟩ := h
      use (hm a List.mem_cons_self).trans ha
      apply ih hl
      intro b hb
      apply hm b (List.mem_cons_of_mem a hb)

/-- Another node is linked after the last one. -/
theorem Linked.relink_last {m m' : α → HevListNode α} {prev next next' : Option α} {l : List α}
    {a : α} (h : Linked m prev (l ++ [a]) next)
    (ha : m' a = { m a with next := next' }) (hm : ∀ b ∈ l, m' b = m b) :
  Linked m' prev (l ++ [a]) next'
  := by
  obtain ⟨hl, hlast, -⟩ := linked_append.mp h
  refine linked_append.mpr ⟨?_, ?_, trivial⟩
  · exact hl.congr hm
  · rw [ha, hlast]
    rfl

/-- Another node is linked before the first one. -/
theorem Linked.relink_first {m m' : α → HevListNode α} {prev prev' next : Option α} {l : List α}
    {a : α} (h : Linked m prev (a :: l) next) (ha : m' a = { m a with prev := prev' })
    (hm : ∀ b ∈ l, m' b = m b) :
  Linked m' prev' (a :: l) next
  := by
  obtain ⟨hfirst, hl⟩ := h
  use by rw [ha, hfirst]
  exact hl.congr hm

end

@[simp]
theorem write_head (self : HevList α) (a : α) (f : HevListNode α → HevListNode α) :
  (self.write a f).head = self.head
  := rfl

@[simp]
theorem write_tail (self : HevList α) (a : α) (f : HevListNode α → HevListNode α) :
  (self.write a f).tail = self.tail
  := rfl

@[simp]
theorem write_node_self (self : HevList α) (a : α) (f : HevListNode α → HevListNode α) :
  (self.write a f).node a = f (self.node a)
  := by
  simp [write]

@[simp]
theorem write_node_ne (self : HevList α) {a b : α} (f : HevListNode α → HevListNode α)
    (h : b ≠ a) :
  (self.write a f).node b = self.node b
  := by
  simp [write, h]

/-- `hev_list_add_tail` adds a node that is not in the list at its end. -/
theorem addTail_spec {self : HevList α} {l : List α} {a : α} (h : self.Models l) (ha : a ∉ l) :
  (self.addTail a).Models (l ++ [a])
  := by
  have hnodup : (l ++ [a]).Nodup := by
    simpa [List.nodup_append] using ⟨h.nodup, fun b hb heq => ha (heq ▸ hb)⟩
  cases l using List.reverseRecOn with
  | nil =>
      have htail : self.tail = none := h.tail
      refine ⟨?_, ?_, ?_, hnodup⟩
      · simp [addTail, htail]
      · simp [addTail]
      · simp [addTail, htail, Linked]
  | append_singleton l b =>
      have htail : self.tail = some b := by simpa using h.tail
      have hab : a ≠ b := fun heq => ha (by simp [heq])
      refine ⟨?_, ?_, ?_, hnodup⟩
      · have hhead := h.head
        cases l <;> simpa [addTail, htail, write] using hhead
      · simp [addTail]
      · let fresh := self.write a fun _ => ⟨some b, none⟩
        have hfresh : ∀ c ∈ l ++ [b], fresh.node c = self.node c := by
          intro c hc
          apply write_node_ne
          rintro rfl
          exact ha hc
        have hbl : b ∉ l := by
          intro hb
          have := h.nodup
          simp only [List.nodup_append] at this
          exact this.2.2 b hb b (by simp) rfl
        have hnode : (self.addTail a).node
            = (fresh.write b fun node => { node with next := some a }).node := by
          simp [addTail, htail, fresh, write]
        rw [hnode]
        refine linked_append.mpr ⟨?_, ?_, trivial⟩
        · apply (h.linked.congr hfresh).relink_last (write_node_self _ _ _)
          intro c hc
          apply write_node_ne
          rintro rfl
          exact hbl hc
        · rw [write_node_ne _ _ hab, List.getLast?_concat]
          simp [fresh]

theorem linkPrev_spec
    {self : HevList α} {l₁ l₂ : List α} {a : α} (h : self.Models (l₁ ++ a :: l₂)) :
  (self.linkPrev l₁.getLast? l₂.head?).head = (l₁ ++ l₂).head?
    ∧ (self.linkPrev l₁.getLast? l₂.head?).tail = self.tail
    ∧ Linked (self.linkPrev l₁.getLast? l₂.head?).node none l₁ l₂.head?
    ∧ ∀ b, b ∉ l₁ → (self.linkPrev l₁.getLast? l₂.head?).node b = self.node b
  := by
  obtain ⟨hhead, -, hlinked, hnodup⟩ := h
  obtain ⟨hl₁, -⟩ := linked_append.mp hlinked
  cases l₁ using List.reverseRecOn with
  | nil => simp [linkPrev, Linked]
  | append_singleton l₁ p =>
      rw [List.getLast?_concat, linkPrev]
      refine ⟨?_, rfl, ?_, ?_⟩
      · rw [write_head, hhead]
        cases l₁ <;> rfl
      · apply hl₁.relink_last (write_node_self _ _ _)
        intro b hb
        apply write_node_ne
        rintro rfl
        simp only [List.append_assoc, List.nodup_append] at hnodup
        exact hnodup.2.2 b hb b (by simp) rfl
      · intro b hb
        apply write_node_ne
        rintro rfl
        simp at hb

theorem linkNext_spec
    {self : HevList α} {l₁ l₂ : List α} {a : α} (htail : self.tail = (l₁ ++ a :: l₂).getLast?)
    (hl₂ : Linked self.node (some a) l₂ none) (hnodup : l₂.Nodup) :
  (self.linkNext l₁.getLast? l₂.head?).head = self.head
    ∧ (self.linkNext l₁.getLast? l₂.head?).tail = (l₁ ++ l₂).getLast?
    ∧ Linked (self.linkNext l₁.getLast? l₂.head?).node l₁.getLast? l₂ none
    ∧ ∀ b, b ∉ l₂ → (self.linkNext l₁.getLast? l₂.head?).node b = self.node b
  := by
  cases l₂ with
  | nil => simp [linkNext, Linked]
  | cons n l₂ =>
      rw [List.head?_cons, linkNext]
      refine ⟨rfl, ?_, ?_, ?_⟩
      · rw [write_tail, htail]
        simp [List.getLast?_append, List.getLast?_cons]
      · apply hl₂.relink_first (write_node_self _ _ _)
        intro b hb
        apply write_node_ne
        rintro rfl
        exact (List.nodup_cons.mp hnodup).1 hb
      · intro b hb
        apply write_node_ne
        rintro rfl
        simp at hb

/-- `hev_list_del` takes a node of the list out. -/
theorem del_spec {self : HevList α} {l : List α} {a : α} (h : self.Models l) (ha : a ∈ l) :
  (self.del a).Models (l.erase a)
  := by
  obtain ⟨l₁, l₂, rfl⟩ := List.append_of_mem ha
  have hnodup := h.nodup
  simp only [List.nodup_append, List.nodup_cons, List.mem_cons] at hnodup
  obtain ⟨hn₁, ⟨ha₂, hn₂⟩, hd⟩ := hnodup
  have ha₁ : a ∉ l₁ := fun ha => hd a ha a (.inl rfl) rfl
  obtain ⟨-, hnode, hl₂⟩ := linked_append.mp h.linked
  have hdel : self.del a
      = (self.linkPrev l₁.getLast? l₂.head?).linkNext l₁.getLast? l₂.head? := by
    simp [del, hnode]
  obtain ⟨hhead, htail, hlinked, hrest⟩ := linkPrev_spec h
  have hl₂' : Linked (self.linkPrev l₁.getLast? l₂.head?).node (some a) l₂ none := by
    apply hl₂.congr
    intro b hb
    exact hrest b (fun hb₁ => hd b hb₁ b (.inr hb) rfl)
  obtain ⟨hhead', htail', hlinked', hrest'⟩ := linkNext_spec (htail.trans h.tail) hl₂' hn₂
  rw [List.erase_append_right _ ha₁, List.erase_cons_head, hdel]
  refine ⟨hhead'.trans hhead, htail', linked_append.mpr ⟨?_, ?_⟩, ?_⟩
  · rw [Option.or_none]
    apply hlinked.congr
    intro b hb
    exact hrest' b (fun hb₂ => hd b hb b (.inr hb₂) rfl)
  · rw [Option.or_none]
    exact hlinked'
  · exact List.nodup_append.mpr ⟨hn₁, hn₂, fun b hb c hc => hd b hb c (.inr hc)⟩

end HevList

end Hev
