import DtmaOne.Hev.HevList
import DtmaOne.Hev.RBSearch
import DtmaOne.Library.LruCache
import DtmaOne.Library.Run

/-!
# The names behind mapped addresses

The tunnel can answer a query for a name with an address of a network of its own, and turns the
address back into the name when a connection to it comes.  `MappedDns` is the table of
`hev-mapped-dns.c`: the nodes are in a red-black tree by their names, in a list by their last use and
in an array by the number that is the lower part of their address.

`find` and `lookup` follow the pointers.  Their answers are those of a cache that forgets the least
recently used name.
-/

namespace Hev

open RedBlack

/-- `strcmp`, on the bytes before the final zero. -/
def strcmp (a b : List UInt8) : Ordering := compare a b

instance : Std.TransCmp strcmp := inferInstanceAs (Std.TransCmp (compare : List UInt8 → _ → _))

instance : Std.LawfulEqCmp strcmp :=
  inferInstanceAs (Std.LawfulEqCmp (compare : List UInt8 → _ → _))

/-- `HevMappedDNS`, with the memory its nodes live in: their names and numbers beside the links of
the tree and of the list.  A name is null when it could not be copied. -/
structure MappedDns (α : Type) where
  use : ℕ
  max : ℕ
  net : BitVec 32
  mask : BitVec 32
  list : HevList α
  tree : RBTree α
  records : ℕ → Option α
  name : α → Option (List UInt8)
  idx : α → ℕ

namespace MappedDns

variable {α : Type} [DecidableEq α]

/-- `hev_mapped_dns_construct`, on memory that is zero; the result is null when the network has no
room for `max` addresses. -/
def construct (node : α → RBTreeNode α) (listNode : α → HevListNode α)
    (name : α → Option (List UInt8)) (idx : α → ℕ) (net mask : BitVec 32) (max : ℕ) :
    Option (MappedDns α) :=
  if (~~~mask).toInt < max then none
  else some ⟨0, max, net, mask, ⟨none, none, listNode⟩, ⟨none, node⟩, fun _ => none, name, idx⟩

/-- The assignment `self->records[idx] = node; node->idx = idx`. -/
def record (self : MappedDns α) (idx : ℕ) (node : α) : MappedDns α :=
  { self with
    records := fun i => if i = idx then some node else self.records i
    idx := fun a => if a = node then idx else self.idx a }

/-- `hev_mapped_dns_node_alloc`, when the allocator has returned the block `node`; `strdup` says
whether the name is copied, which is not checked. -/
def nodeAlloc (self : MappedDns α) (node : α) (name : List UInt8) (strdup : Bool) : MappedDns α :=
  { self with
    name := fun a => if a = node then if strdup then some name else none else self.name a
    idx := fun a => if a = node then 0 else self.idx a }

/-- The node becomes the last of the list. -/
def touch (self : MappedDns α) (node : α) : MappedDns α :=
  { self with list := (self.list.del node).addTail node }

/-- The end of `hev_mapped_dns_find`: the new node, already in the tree and in the list, gets the next
free number, or that of the first node of the list, which goes out. -/
def store (fuel : ℕ) (self : MappedDns α) (node : α) : Option (MappedDns α × Option ℕ) :=
  if self.use < self.max then
    some ({ self.record self.use node with use := self.use + 1 }, some self.use)
  else
    self.list.first.bind fun nf =>
      let idx := self.idx nf
      (self.tree.erase fuel nf).map fun tree =>
        let self := { self with tree := tree, list := self.list.del nf }
        (self.record idx node, some idx)

/-- `hev_mapped_dns_find`, its loops cut off after `fuel` rounds; `alloc` and `strdup` are what the
allocator returns and whether the name is copied, if they are asked.  A name that is null cannot be
compared.  The number is absent for the result `-1`. -/
def find (fuel : ℕ) (self : MappedDns α) (name : List UInt8) (alloc : Option α) (strdup : Bool) :
    Option (MappedDns α × Option ℕ) :=
  (self.tree.place fuel fun node => (self.name node).map fun n => strcmp n name).bind fun
    | .inr node => some (self.touch node, some (self.idx node))
    | .inl new =>
        match alloc with
        | none => some (self, none)
        | some node =>
            let self := self.nodeAlloc node name strdup
            (RBTree.insertColor fuel (self.tree.nodeLink node new) node).bind fun tree =>
              store fuel { self with tree := tree, list := self.list.addTail node } node

/-- `hev_mapped_dns_lookup`: the array is read at a number that is not negative and less than
`max`. -/
def lookup (self : MappedDns α) (ip : BitVec 32) : Option (MappedDns α × Option (List UInt8)) :=
  let idx := ip &&& ~~~self.mask
  if (self.max : ℤ) ≤ idx.toInt then some (self, none)
  else if idx.toInt < 0 then none
  else
    match self.records idx.toNat with
    | none => some (self, none)
    | some node => some (self.touch node, self.name node)

/-! ### The table as a cache -/

/-- The name of a node, if it has one. -/
def nameOf (self : MappedDns α) (a : α) : List UInt8 := (self.name a).getD []

/-- The name of a new node is the copy. -/
theorem name_nodeAlloc_self (self : MappedDns α) (a : α) (name : List UInt8) :
  (self.nodeAlloc a name true).name a = some name
  := if_pos rfl

/-- The other nodes keep their names. -/
theorem name_nodeAlloc_of_ne (self : MappedDns α) {a b : α} (h : b ≠ a) (name : List UInt8)
    (strdup : Bool) :
  (self.nodeAlloc a name strdup).name b = self.name b
  := if_neg h

/-- The entries of the table in the order of the list. -/
def entries (self : MappedDns α) (l : List α) : List (List UInt8 × ℕ) :=
  l.map fun a => (self.nameOf a, self.idx a)

/-- The tree and the list are over the nodes `l`, which have names, the array has the nodes at their
numbers. -/
structure Represents (dns : MappedDns α) (l : List α) : Prop where
  list : dns.list.Models l
  named : ∀ a ∈ l, dns.name a = some (dns.nameOf a)
  tree : ∃ n t, dns.tree.Models t ∧ t.Balanced .black n ∧ t.toList.Perm l
    ∧ RBTree.Decreasing strcmp dns.nameOf t.toList
  records : ∀ i a, dns.records i = some a ↔ a ∈ l ∧ dns.idx a = i
  idx_lt : ∀ a ∈ l, dns.idx a < l.length
  use : dns.use = l.length
  use_le : dns.use ≤ dns.max
  max_pos : 0 < dns.max
  max_le : (dns.max : ℤ) ≤ (~~~dns.mask).toInt

section

omit [DecidableEq α]

theorem Represents.idx_inj {self : MappedDns α} {l : List α} (h : self.Represents l) {a b : α}
    (ha : a ∈ l) (hb : b ∈ l) (hab : self.idx a = self.idx b) :
  a = b
  := by
  have hra := (h.records (self.idx a) a).mpr ⟨ha, rfl⟩
  have hrb := (h.records (self.idx a) b).mpr ⟨hb, hab.symm⟩
  exact Option.some_inj.mp (hra.symm.trans hrb)

/-- The nodes have different names. -/
theorem Represents.names {self : MappedDns α} {l : List α} (h : self.Represents l) :
  (l.map self.nameOf).Nodup
  := by
  obtain ⟨n, t, -, -, hperm, hdecreasing⟩ := h.tree
  rw [← (hperm.map self.nameOf).nodup_iff, List.Nodup, List.pairwise_map]
  apply hdecreasing.imp
  intro a b hab heq
  have hself : strcmp (self.nameOf b) (self.nameOf b) = .eq := Std.ReflCmp.compare_self
  rw [heq, hself] at hab
  cases hab

theorem map_fst_entries (self : MappedDns α) (l : List α) :
  (self.entries l).map Prod.fst = l.map self.nameOf
  := by
  simp [entries]

/-- The table is a well-formed cache. -/
theorem Represents.wellFormed {self : MappedDns α} {l : List α} (h : self.Represents l) :
  LruCache.WellFormed self.max (self.entries l)
  := by
  refine ⟨?_, ?_, ?_, ?_⟩
  · rw [map_fst_entries]
    exact h.names
  · rw [entries, List.map_map]
    exact h.list.nodup.map_on fun a ha b hb hab => h.idx_inj ha hb hab
  · intro e he
    obtain ⟨a, ha, rfl⟩ := List.mem_map.mp he
    rw [entries, List.length_map]
    exact h.idx_lt a ha
  · rw [entries, List.length_map, ← h.use]
    exact h.use_le

end

/-- The list of the nodes after one of them has been used. -/
theorem entries_touch {self : MappedDns α} {l : List α} {a : α} (ha : a ∈ l)
    (h : (self.entries l).Nodup) :
  self.entries (l.erase a ++ [a]) = LruCache.touch (self.entries l) (self.nameOf a, self.idx a)
  := by
  obtain ⟨l₁, l₂, rfl⟩ := List.append_of_mem ha
  have hnot : (self.nameOf a, self.idx a) ∉ self.entries l₁ := by
    simp only [entries, List.map_append, List.map_cons, List.nodup_append] at h
    intro hmem
    exact h.2.2 _ hmem _ (List.mem_cons_self) rfl
  have ha₁ : a ∉ l₁ := fun ha => hnot (List.mem_map_of_mem ha)
  have hcons : self.entries (l₁ ++ a :: l₂)
      = self.entries l₁ ++ (self.nameOf a, self.idx a) :: self.entries l₂ := by
    simp [entries]
  rw [hcons, LruCache.touch_append_right hnot, LruCache.touch_cons_self,
    List.erase_append_right _ ha₁, List.erase_cons_head]
  simp [entries]

/-- A use of a node makes it the last of the list. -/
theorem Represents.touch {self : MappedDns α} {l : List α} (h : self.Represents l) {a : α}
    (ha : a ∈ l) :
  (self.touch a).Represents (l.erase a ++ [a])
  := by
  have hnot : a ∉ l.erase a := by
    rw [h.list.nodup.mem_erase_iff]
    simp
  have hperm : (l.erase a ++ [a]).Perm l :=
    (List.perm_append_singleton a _).trans (List.perm_cons_erase ha).symm
  obtain ⟨n, t, hmodels, hbalanced, htl, hdecreasing⟩ := h.tree
  exact {
    list := HevList.addTail_spec (HevList.del_spec h.list ha) hnot
    named := fun b hb => h.named b (hperm.mem_iff.mp hb)
    tree := ⟨n, t, hmodels, hbalanced, htl.trans hperm.symm, hdecreasing⟩
    records := fun i b => by
      rw [hperm.mem_iff]
      exact h.records i b
    idx_lt := fun b hb => by
      rw [hperm.length_eq]
      exact h.idx_lt b (hperm.mem_iff.mp hb)
    use := h.use.trans hperm.length_eq.symm
    use_le := h.use_le
    max_pos := h.max_pos
    max_le := h.max_le }

omit [DecidableEq α] in
theorem entries_congr {self self' : MappedDns α} {l : List α}
    (hname : ∀ a ∈ l, self'.nameOf a = self.nameOf a) (hidx : ∀ a ∈ l, self'.idx a = self.idx a) :
  self'.entries l = self.entries l
  := by
  apply List.map_congr_left
  intro a ha
  rw [hname a ha, hidx a ha]

/-- A node `a` with a name of its own is added: the tree holds it, and it is the last of the list. -/
structure Added (dns dns' : MappedDns α) (l : List α) (a : α) (name : List UInt8) : Prop where
  list : dns'.list.Models (l ++ [a])
  tree : ∃ n t, dns'.tree.Models t ∧ t.Balanced .black n ∧ t.toList.Perm (l ++ [a])
    ∧ RBTree.Decreasing strcmp dns'.nameOf t.toList
  named : ∀ b ∈ l ++ [a], dns'.name b = some (dns'.nameOf b)
  name_self : dns'.nameOf a = name
  name_other : ∀ b ∈ l, dns'.nameOf b = dns.nameOf b
  idx_other : ∀ b ∈ l, dns'.idx b = dns.idx b
  records : dns'.records = dns.records
  use : dns'.use = dns.use
  max : dns'.max = dns.max
  mask : dns'.mask = dns.mask

/-- The search for a name ends at the node with the name, or a new node is added for it. -/
theorem find_cases
    {self : MappedDns α} {l : List α} (name : List UInt8) {fuel : ℕ} (h : self.Represents l)
    (hfuel : 2 * Nat.log 2 (self.max + 2) < fuel) :
  (∃ a ∈ l, self.nameOf a = name
      ∧ self.tree.place fuel (fun node => (self.name node).map fun n => strcmp n name)
        = some (.inr a))
    ∨ name ∉ l.map self.nameOf ∧ ∃ new,
      self.tree.place fuel (fun node => (self.name node).map fun n => strcmp n name)
        = some (.inl new)
      ∧ ∀ a, a ∉ l → ∃ tree,
        RBTree.insertColor fuel ((self.nodeAlloc a name true).tree.nodeLink a new) a = some tree
        ∧ self.Added { self.nodeAlloc a name true with tree := tree, list := self.list.addTail a }
          l a name
  := by
  obtain ⟨n, t, hmodels, hbalanced, hperm, hdecreasing⟩ := h.tree
  have hlength : t.toList.length ≤ self.max + 1 := by
    rw [hperm.length_eq, ← h.use]
    exact Nat.le_succ_of_le h.use_le
  have hcompared : ∀ b ∈ t.toList, ((self.name b).map fun n => strcmp n name)
      = some (strcmp (self.nameOf b) name) := by
    intro b hb
    rw [h.named b (hperm.mem_iff.mp hb), Option.map_some]
  obtain ⟨a, ha, hname, hplace⟩ | ⟨p, hplace, hleads, hitems, hinsert⟩ :=
    RBTree.insert_spec hmodels hbalanced hcompared (hdecreasing.directs name)
      (RBTree.height_lt hbalanced hlength hfuel)
  · exact .inl ⟨a, hperm.mem_iff.mp ha, Std.LawfulEqCmp.eq_of_compare hname, hplace⟩
  · right
    constructor
    · rintro hmem
      obtain ⟨b, hb, rfl⟩ := List.mem_map.mp hmem
      have hbself : strcmp (self.nameOf b) (self.nameOf b) = .eq := Std.ReflCmp.compare_self
      rw [← hperm.mem_iff, hitems, List.mem_append] at hb
      obtain hb | hb := hb
      · exact absurd ((hleads.before b hb).symm.trans hbself) (by decide)
      · exact absurd ((hleads.after b hb).symm.trans hbself) (by decide)
    · refine ⟨RBTree.link p, hplace, ?_⟩
      intro a ha
      obtain ⟨s, hs, m, t', hre, hitems', hbalanced'⟩ :=
        hinsert a (fun hat => ha (hperm.mem_iff.mp hat))
      have hother : ∀ b ∈ l, b ≠ a := fun b hb heq => ha (heq ▸ hb)
      have hname : ∀ b ∈ l, (self.nodeAlloc a name true).nameOf b = self.nameOf b :=
        fun b hb => by rw [nameOf, nameOf, self.name_nodeAlloc_of_ne (hother b hb)]
      have hnamea : (self.nodeAlloc a name true).nameOf a = name := by
        rw [nameOf, self.name_nodeAlloc_self, Option.getD_some]
      have hparts : ∀ b, b ∈ RedBlack.Path.before p ∨ b ∈ RedBlack.Path.after p → b ∈ l := by
        intro b hb
        rw [← hperm.mem_iff, hitems, List.mem_append]
        exact hb
      refine ⟨s, hs, ?_⟩
      exact {
        list := HevList.addTail_spec h.list ha
        tree := by
          refine ⟨m, t', hre.models, hbalanced', ?_, ?_⟩
          · rw [hitems']
            apply List.perm_middle.trans
            rw [← hitems]
            exact (hperm.cons a).trans (List.perm_append_singleton a l).symm
          · rw [hitems']
            apply RBTree.Decreasing.insert
            · rw [← hitems]
              apply hdecreasing.congr
              intro b hb
              exact hname b (hperm.mem_iff.mp hb)
            · constructor
              · intro b hb
                show strcmp ((self.nodeAlloc a name true).nameOf b)
                  ((self.nodeAlloc a name true).nameOf a) = .gt
                rw [hname b (hparts b (.inl hb)), hnamea]
                exact hleads.before b hb
              · intro b hb
                show strcmp ((self.nodeAlloc a name true).nameOf b)
                  ((self.nodeAlloc a name true).nameOf a) = .lt
                rw [hname b (hparts b (.inr hb)), hnamea]
                exact hleads.after b hb
        named := by
          intro b hb
          obtain hb | hb := List.mem_append.mp hb
          · exact (self.name_nodeAlloc_of_ne (hother b hb) name true).trans
              ((h.named b hb).trans (congrArg some (hname b hb).symm))
          · obtain rfl := List.mem_singleton.mp hb
            exact (self.name_nodeAlloc_self b name).trans (congrArg some hnamea.symm)
        name_self := hnamea
        name_other := hname
        idx_other := fun b hb => if_neg (hother b hb)
        records := rfl
        use := rfl
        max := rfl
        mask := rfl }

/-- A new node takes the next free number. -/
theorem Added.represents_free
    {self self' : MappedDns α} {l : List α} {a : α} {name : List UInt8} (h : self.Represents l)
    (hadd : self.Added self' l a name) (ha : a ∉ l) (hlt : self.use < self.max) :
  ({ self'.record self'.use a with use := self'.use + 1 } : MappedDns α).Represents (l ++ [a])
    ∧ ({ self'.record self'.use a with use := self'.use + 1 } : MappedDns α).entries (l ++ [a])
      = self.entries l ++ [(name, l.length)]
  := by
  have hother : ∀ b ∈ l, b ≠ a := fun b hb heq => ha (heq ▸ hb)
  have huse : self'.use = l.length := hadd.use.trans h.use
  let new : MappedDns α := { self'.record self'.use a with use := self'.use + 1 }
  have hidxa : new.idx a = l.length := (if_pos rfl).trans huse
  have hidx : ∀ b ∈ l, new.idx b = self.idx b :=
    fun b hb => (if_neg (hother b hb)).trans (hadd.idx_other b hb)
  constructor
  · exact {
      list := hadd.list
      named := hadd.named
      tree := hadd.tree
      records := fun i b => by
        have hrecords : new.records i = if i = l.length then some a else self.records i := by
          rw [← huse, ← hadd.records]
          rfl
        rw [hrecords, List.mem_append, List.mem_singleton]
        by_cases hi : i = l.length
        · subst hi
          rw [if_pos rfl, Option.some_inj]
          constructor
          · rintro rfl
            exact ⟨.inr rfl, hidxa⟩
          · rintro ⟨hb | rfl, hbi⟩
            · rw [hidx b hb] at hbi
              exact absurd (h.idx_lt b hb) (by omega)
            · rfl
        · rw [if_neg hi, h.records]
          constructor
          · rintro ⟨hb, hbi⟩
            exact ⟨.inl hb, (hidx b hb).trans hbi⟩
          · rintro ⟨hb | rfl, hbi⟩
            · exact ⟨hb, (hidx b hb).symm.trans hbi⟩
            · exact absurd (hbi.symm.trans hidxa) hi
      idx_lt := fun b hb => by
        rw [List.length_append, List.length_singleton]
        obtain hb | hb := List.mem_append.mp hb
        · rw [hidx b hb]
          exact Nat.lt_succ_of_lt (h.idx_lt b hb)
        · rw [List.mem_singleton.mp hb, hidxa]
          exact Nat.lt_succ_self _
      use := by
        rw [List.length_append, ← huse]
        rfl
      use_le := by
        have hmax := hadd.max
        have huse' := hadd.use
        show self'.use + 1 ≤ self'.max
        omega
      max_pos := hadd.max ▸ h.max_pos
      max_le := by
        show (self'.max : ℤ) ≤ (~~~self'.mask).toInt
        rw [hadd.max, hadd.mask]
        exact h.max_le }
  · have hrest : new.entries l = self.entries l := entries_congr hadd.name_other hidx
    have hlast : new.entries [a] = [(name, l.length)] := by
      rw [entries, List.map_singleton, hidxa]
      exact congrArg (fun x => [(x, l.length)]) hadd.name_self
    rw [← hrest, ← hlast]
    exact List.map_append

/-- A new node takes the number of the first node of the list, which goes out. -/
theorem Added.represents_full
    {self self' : MappedDns α} {l : List α} {a b : α} {name : List UInt8} {fuel : ℕ}
    (h : self.Represents (b :: l)) (hadd : self.Added self' (b :: l) a name) (ha : a ∉ b :: l)
    (hfuel : 2 * Nat.log 2 (self.max + 2) < fuel) :
  ∃ tree, self'.tree.erase fuel b = some tree
    ∧ (({ self' with tree := tree, list := self'.list.del b } : MappedDns α).record
        (self'.idx b) a).Represents (l ++ [a])
    ∧ (({ self' with tree := tree, list := self'.list.del b } : MappedDns α).record
        (self'.idx b) a).entries (l ++ [a]) = self.entries l ++ [(name, self.idx b)]
  := by
  obtain ⟨n, t, hmodels, hbalanced, hperm, hdecreasing⟩ := hadd.tree
  have hother : ∀ c ∈ b :: l, c ≠ a := fun c hc heq => ha (heq ▸ hc)
  have hlength : t.toList.length ≤ self.max + 1 := by
    rw [hperm.length_eq, List.length_append, List.length_singleton, ← h.use]
    exact Nat.succ_le_succ h.use_le
  have hbt : b ∈ t.toList := hperm.mem_iff.mpr (by simp)
  obtain ⟨s, hs, m, t', hre, hitems, hbalanced'⟩ := RBTree.erase_spec hmodels hbalanced hbt
    (RBTree.height_lt hbalanced hlength hfuel).le
  have hbl : b ∉ l := (List.nodup_cons.mp h.list.nodup).1
  let new := ({ self' with tree := s, list := self'.list.del b } : MappedDns α).record
    (self'.idx b) a
  have hidxb : self'.idx b = self.idx b := hadd.idx_other b List.mem_cons_self
  have hidxa : new.idx a = self.idx b := (if_pos rfl).trans hidxb
  have hidx : ∀ c ∈ l, new.idx c = self.idx c := fun c hc =>
    (if_neg (hother c (List.mem_cons_of_mem b hc))).trans
      (hadd.idx_other c (List.mem_cons_of_mem b hc))
  refine ⟨s, hs, ?_, ?_⟩
  · exact {
      list := by
        have hdel := HevList.del_spec hadd.list (a := b) (by simp)
        rw [List.cons_append, List.erase_cons_head] at hdel
        exact hdel
      named := fun c hc => hadd.named c (List.mem_cons_of_mem b hc)
      tree := by
        refine ⟨m, t', hre.models, hbalanced', ?_, ?_⟩
        · rw [hitems]
          have herase := hperm.erase b
          rw [List.cons_append, List.erase_cons_head] at herase
          exact herase
        · rw [hitems]
          exact hdecreasing.sublist List.erase_sublist
      records := fun i c => by
        have hrecords : new.records i = if i = self.idx b then some a else self.records i := by
          rw [← hidxb, ← hadd.records]
          rfl
        rw [hrecords, List.mem_append, List.mem_singleton]
        by_cases hi : i = self.idx b
        · subst hi
          rw [if_pos rfl, Option.some_inj]
          constructor
          · rintro rfl
            exact ⟨.inr rfl, hidxa⟩
          · rintro ⟨hc | rfl, hci⟩
            · have hcb := h.idx_inj (List.mem_cons_of_mem b hc) List.mem_cons_self
                ((hidx c hc).symm.trans hci)
              exact absurd (hcb ▸ hc) hbl
            · rfl
        · rw [if_neg hi, h.records, List.mem_cons]
          constructor
          · rintro ⟨rfl | hc, hci⟩
            · exact absurd hci.symm hi
            · exact ⟨.inl hc, (hidx c hc).trans hci⟩
          · rintro ⟨hc | rfl, hci⟩
            · exact ⟨.inr hc, (hidx c hc).symm.trans hci⟩
            · exact absurd (hci.symm.trans hidxa) hi
      idx_lt := fun c hc => by
        rw [List.length_append, List.length_singleton]
        obtain hc | hc := List.mem_append.mp hc
        · rw [hidx c hc]
          exact h.idx_lt c (List.mem_cons_of_mem b hc)
        · rw [List.mem_singleton.mp hc, hidxa]
          exact h.idx_lt b List.mem_cons_self
      use := by
        rw [List.length_append, List.length_singleton]
        exact hadd.use.trans h.use
      use_le := by
        show self'.use ≤ self'.max
        rw [hadd.use, hadd.max]
        exact h.use_le
      max_pos := hadd.max ▸ h.max_pos
      max_le := by
        show (self'.max : ℤ) ≤ (~~~self'.mask).toInt
        rw [hadd.max, hadd.mask]
        exact h.max_le }
  · have hrest : new.entries l = self.entries l :=
      entries_congr (fun c hc => hadd.name_other c (List.mem_cons_of_mem b hc)) hidx
    have hlast : new.entries [a] = [(name, self.idx b)] := by
      rw [entries, List.map_singleton, hidxa]
      exact congrArg (fun x => [(x, self.idx b)]) hadd.name_self
    rw [← hrest, ← hlast]
    exact List.map_append

/-- The added node gets its number: that of a request to the cache. -/
theorem Added.store_eq
    {self self' : MappedDns α} {l : List α} {a : α} {name : List UInt8} {fuel : ℕ}
    (h : self.Represents l) (hadd : self.Added self' l a name) (ha : a ∉ l)
    (hnew : name ∉ l.map self.nameOf) (hnet : self'.net = self.net)
    (hfuel : 2 * Nat.log 2 (self.max + 2) < fuel) :
  ∃ dns l' r, store fuel self' a = some (dns, r) ∧ dns.Represents l'
    ∧ dns.max = self.max ∧ dns.net = self.net ∧ dns.mask = self.mask
    ∧ (r, dns.entries l') = LruCache.request self.max (self.entries l) name
  := by
  have hentry : LruCache.entry (self.entries l) name = none := by
    rw [LruCache.entry_eq_none, map_fst_entries]
    exact hnew
  have hlength : (self.entries l).length = self.use := by
    rw [entries, List.length_map, h.use]
  by_cases hlt : self.use < self.max
  · obtain ⟨hrep, hentries⟩ := hadd.represents_free h ha hlt
    have hstore : store fuel self' a
        = some ({ self'.record self'.use a with use := self'.use + 1 }, some self'.use) := by
      rw [store, if_pos (by rw [hadd.use, hadd.max]; exact hlt)]
    refine ⟨_, l ++ [a], _, hstore, hrep, hadd.max, hnet, hadd.mask, ?_⟩
    rw [LruCache.request_of_lt hentry (hlength.symm ▸ hlt), hentries, hlength, hadd.use, h.use]
  · cases l with
    | nil => exact absurd (h.use ▸ h.max_pos) hlt
    | cons b l =>
        obtain ⟨tree, htree, hrep, hentries⟩ := hadd.represents_full h ha hfuel
        have hfirst : self'.list.first = some b := hadd.list.head
        have hstore : store fuel self' a = some
            (({ self' with tree := tree, list := self'.list.del b } : MappedDns α).record
              (self'.idx b) a, some (self'.idx b)) := by
          rw [store, if_neg (by rw [hadd.use, hadd.max]; exact hlt), hfirst, Option.bind_some, htree]
          rfl
        refine ⟨_, l ++ [a], _, hstore, hrep, hadd.max, hnet, hadd.mask, ?_⟩
        have hcons : self.entries (b :: l) = (self.nameOf b, self.idx b) :: self.entries l := rfl
        rw [hcons] at hentry hlength ⊢
        rw [LruCache.request_of_full hentry (hlength.symm ▸ hlt), hentries,
          hadd.idx_other b List.mem_cons_self]

/-- `hev_mapped_dns_find` is a request to a cache that forgets the least recently used name; without
memory for a new node it changes nothing. -/
theorem find_spec
    {self : MappedDns α} {l : List α} (name : List UInt8) {alloc : Option α} {fuel : ℕ}
    (h : self.Represents l) (halloc : ∀ a, alloc = some a → a ∉ l)
    (hfuel : 2 * Nat.log 2 (self.max + 2) < fuel) :
  ∃ self' l' r, self.find fuel name alloc true = some (self', r) ∧ self'.Represents l'
    ∧ self'.max = self.max ∧ self'.net = self.net ∧ self'.mask = self.mask
    ∧ (r, self'.entries l') = if alloc = none ∧ LruCache.entry (self.entries l) name = none
      then (none, self.entries l) else LruCache.request self.max (self.entries l) name
  := by
  obtain ⟨a, ha, hname, hplace⟩ | ⟨hnew, new, hplace, hinsert⟩ := find_cases name h hfuel
  · have hentry : LruCache.entry (self.entries l) name = some (name, self.idx a) := by
      rw [← hname]
      exact h.wellFormed.entry_eq (List.mem_map_of_mem ha)
    refine ⟨self.touch a, l.erase a ++ [a], some (self.idx a), by simp [find, hplace], h.touch ha,
      rfl, rfl, rfl, ?_⟩
    rw [if_neg (by simp [hentry]), LruCache.request_of_entry hentry, ← hname,
      ← entries_touch ha h.wellFormed.nodup]
    rfl
  · have hentry : LruCache.entry (self.entries l) name = none := by
      rw [LruCache.entry_eq_none, map_fst_entries]
      exact hnew
    cases alloc with
    | none =>
        exact ⟨self, l, none, by simp [find, hplace], h, rfl, rfl, rfl, by rw [if_pos ⟨rfl, hentry⟩]⟩
    | some a =>
        have ha := halloc a rfl
        obtain ⟨tree, htree, hadd⟩ := hinsert a ha
        have hfind : self.find fuel name (some a) true = store fuel
            { self.nodeAlloc a name true with tree := tree, list := self.list.addTail a } a := by
          simp only [find, hplace, Option.bind_some, htree]
          rfl
        rw [if_neg (by simp), hfind]
        exact hadd.store_eq h ha hnew rfl hfuel

/-- A node whose name could not be copied is compared all the same: when it is the root of the tree, no
name can be asked for. -/
theorem find_of_nameless {self : MappedDns α} {a : α} (hroot : self.tree.root = some a)
    (hname : self.name a = none) (fuel : ℕ) (name : List UInt8) (alloc : Option α) (strdup : Bool) :
  self.find fuel name alloc strdup = none
  := by
  have hround : self.tree.placeRound (fun node => (self.name node).map fun n => strcmp n name) none
      = none := by
    rw [RBTree.placeRound, RBTree.follow, hroot]
    dsimp only
    rw [hname]
    rfl
  have hplace : self.tree.place fuel (fun node => (self.name node).map fun n => strcmp n name)
      = none := by
    rw [RBTree.place]
    cases fuel with
    | zero => rfl
    | succ fuel => rw [Loop.run, hround]; rfl
  rw [find, hplace, Option.bind_none]

/-- `hev_mapped_dns_lookup` reads a slot of the cache: the lower part of the address.  The array is
not read outside its bounds. -/
theorem lookup_spec {self : MappedDns α} {l : List α} (h : self.Represents l) (ip : BitVec 32) :
  ∃ self' l', self.lookup ip
      = some (self', (LruCache.keyAt (self.entries l) (ip &&& ~~~self.mask).toNat).1)
    ∧ self'.Represents l' ∧ self'.max = self.max ∧ self'.net = self.net ∧ self'.mask = self.mask
    ∧ self'.entries l' = (LruCache.keyAt (self.entries l) (ip &&& ~~~self.mask).toNat).2
  := by
  have hmax : 0 ≤ (~~~self.mask).toInt := (Int.natCast_nonneg _).trans h.max_le
  have hmsb : (ip &&& ~~~self.mask).msb = false := by
    rw [BitVec.msb_and, Bool.and_eq_false_iff]
    exact .inr (BitVec.msb_eq_false_iff_two_mul_lt.mpr (by
      rw [BitVec.toInt_eq_toNat_cond] at hmax
      split at hmax <;> omega))
  have hint : (ip &&& ~~~self.mask).toInt = (ip &&& ~~~self.mask).toNat :=
    BitVec.toInt_eq_toNat_of_msb hmsb
  have hle := h.wellFormed.length_le
  by_cases hout : (self.max : ℤ) ≤ (ip &&& ~~~self.mask).toInt
  · have hnone : LruCache.entryAt (self.entries l) (ip &&& ~~~self.mask).toNat = none := by
      rw [LruCache.entryAt, List.find?_eq_none]
      intro e he
      have hlt := h.wellFormed.slot_lt e he
      rw [decide_eq_true_eq]
      omega
    refine ⟨self, l, ?_, h, rfl, rfl, rfl, ?_⟩
    · rw [lookup, if_pos hout, LruCache.keyAt, hnone]
    · rw [LruCache.keyAt, hnone]
  · have hlookup : self.lookup ip = match self.records (ip &&& ~~~self.mask).toNat with
        | none => some (self, none)
        | some node => some (self.touch node, self.name node) := by
      rw [lookup, if_neg hout, if_neg (by omega)]
    cases hrecord : self.records (ip &&& ~~~self.mask).toNat with
    | none =>
        have hnone : LruCache.entryAt (self.entries l) (ip &&& ~~~self.mask).toNat = none := by
          rw [LruCache.entryAt, List.find?_eq_none]
          intro e he
          obtain ⟨a, ha, rfl⟩ := List.mem_map.mp he
          rw [decide_eq_true_eq]
          intro hidx
          have hsome := (h.records _ a).mpr ⟨ha, hidx⟩
          rw [hrecord] at hsome
          cases hsome
        refine ⟨self, l, ?_, h, rfl, rfl, rfl, ?_⟩
        · rw [hlookup, hrecord, LruCache.keyAt, hnone]
        · rw [LruCache.keyAt, hnone]
    | some a =>
        obtain ⟨ha, hidx⟩ := (h.records _ a).mp hrecord
        have hat : LruCache.entryAt (self.entries l) (ip &&& ~~~self.mask).toNat
            = some (self.nameOf a, self.idx a) := by
          rw [← hidx]
          exact h.wellFormed.entryAt_eq (List.mem_map_of_mem ha)
        refine ⟨self.touch a, l.erase a ++ [a], ?_, h.touch ha, rfl, rfl, rfl, ?_⟩
        · rw [hlookup, hrecord, LruCache.keyAt, hat]
          dsimp only
          rw [h.named a ha]
        · rw [LruCache.keyAt, hat]
          exact entries_touch ha h.wellFormed.nodup

end MappedDns

end Hev
