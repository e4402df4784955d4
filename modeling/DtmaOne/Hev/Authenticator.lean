import DtmaOne.Hev.RBSearch
import DtmaOne.Library.Run

/-!
# The users of a SOCKS5 server

`Authenticator` is the table of `hev-socks5-authenticator.c`: a red-black tree of users, ordered by
the length of their names and then by the names.  Along every run it is a finite map from names to
users.
-/

namespace Hev

open RedBlack

/-- The comparison of two names with their lengths: the lengths first, then `memcmp`. -/
def nameCmp (a b : List UInt8) : Ordering :=
  compareLex (compareOn List.length) compare a b

instance : Std.TransCmp nameCmp :=
  inferInstanceAs (Std.TransCmp (compareLex (compareOn List.length) (compare (α := List UInt8))))

instance : Std.LawfulEqCmp nameCmp where
  eq_of_compare {a b} h := by
    rw [nameCmp, compareLex, Ordering.then_eq_eq] at h
    exact Std.LawfulEqCmp.eq_of_compare h.2

/-- `HevSocks5Authenticator`, with the memory its users live in. -/
structure Authenticator (α : Type) where
  tree : RBTree α
  name : α → List UInt8
  pass : α → List UInt8

namespace Authenticator

variable {α : Type} [DecidableEq α]

/-- `hev_socks5_authenticator_new`, on any memory. -/
def new (node : α → RBTreeNode α) (name pass : α → List UInt8) : Authenticator α :=
  ⟨⟨none, node⟩, name, pass⟩

/-- `hev_socks5_user_new`, when the allocator has returned the block `user`. -/
def userNew (self : Authenticator α) (user : α) (name pass : List UInt8) : Authenticator α :=
  { self with
    name := fun a => if a = user then name else self.name a
    pass := fun a => if a = user then pass else self.pass a }

/-- `hev_socks5_authenticator_add`, its loops cut off after `fuel` rounds. -/
def add (fuel : ℕ) (self : Authenticator α) (user : α) : Option (Authenticator α × ℤ) :=
  (self.tree.place fuel fun this => some (nameCmp (self.name this) (self.name user))).bind fun
    | .inr _ => some (self, -1)
    | .inl new =>
        (RBTree.insertColor fuel (self.tree.nodeLink user new) user).map fun tree =>
          ({ self with tree := tree }, 0)

/-- `hev_socks5_authenticator_get` -/
def get (fuel : ℕ) (self : Authenticator α) (name : List UInt8) : Option (Option α) :=
  self.tree.search fuel fun this => nameCmp (self.name this) name

/-- `hev_socks5_authenticator_del` -/
def del (fuel : ℕ) (self : Authenticator α) (name : List UInt8) : Option (Authenticator α × ℤ) :=
  (self.tree.search fuel fun this => nameCmp (self.name this) name).bind fun
    | none => some (self, -1)
    | some this => (self.tree.erase fuel this).map fun tree => ({ self with tree := tree }, 0)

/-- `hev_socks5_user_checker` -/
def userChecker (self : Authenticator α) (user : α) (pass : List UInt8) : ℤ :=
  if self.pass user ≠ pass then -1 else 0

/-- The end of `hev_socks5_server_read_auth_user`: the user with the name, if the password is right. -/
def login (fuel : ℕ) (self : Authenticator α) (name pass : List UInt8) : Option (Option α) :=
  (self.get fuel name).map fun user => user.filter fun user => self.userChecker user pass = 0

/-- `hev_rbtree_first` -/
def first (fuel : ℕ) (self : RBTree α) : Option (Option α) :=
  match self.root with
  | none => some none
  | some n =>
      (Loop.run (fun n => some ((self.node n).left.elim (.inr n) .inl)) fuel n).map some

/-- `hev_socks5_authenticator_clear`, which makes at most `rounds` rounds. -/
def clear (fuel rounds : ℕ) (self : Authenticator α) : Option (Authenticator α) :=
  Loop.run (fun self => (first fuel self.tree).bind fun
    | none => some (.inr self)
    | some n => (self.tree.erase fuel n).map fun tree => .inl { self with tree := tree }) rounds self

/-! ### The table as a map -/

/-- Users by their names: the block of a user, and the password. -/
abbrev Users (α : Type) : Type := List UInt8 → Option (α × List UInt8)

/-- The tree holds the users of the map, at most `k` of them. -/
def Represents (auth : Authenticator α) (users : Users α) (k : ℕ) : Prop :=
  ∃ n t, auth.tree.Models t ∧ t.Balanced .black n ∧ t.toList.length ≤ k
    ∧ RBTree.Decreasing nameCmp auth.name t.toList
    ∧ ∀ name user pass, users name = some (user, pass)
      ↔ user ∈ t.toList ∧ auth.name user = name ∧ auth.pass user = pass

omit [DecidableEq α] in
/-- The search for a name finds its user. -/
theorem get_spec {self : Authenticator α} {users : Users α} {k fuel : ℕ} (name : List UInt8)
    (h : self.Represents users k) (hfuel : 2 * Nat.log 2 (k + 1) < fuel) :
  self.get fuel name = some ((users name).map Prod.fst)
  := by
  obtain ⟨n, t, hmodels, hbalanced, hlength, hdecreasing, husers⟩ := h
  obtain ⟨o, ho, ⟨rfl, hne⟩ | ⟨user, rfl, huser, heq⟩⟩ := RBTree.search_spec hmodels
    (hdecreasing.directs name) (RBTree.height_lt hbalanced hlength hfuel)
  · have hnone : users name = none := by
      rw [Option.eq_none_iff_forall_ne_some]
      rintro ⟨user, pass⟩ hsome
      obtain ⟨huser, hname, -⟩ := (husers name user pass).mp hsome
      apply hne user huser
      rw [hname]
      exact Std.ReflCmp.compare_self
    rw [get, ho, hnone]
    rfl
  · have hname : self.name user = name := Std.LawfulEqCmp.eq_of_compare heq
    have hsome := (husers name user (self.pass user)).mpr ⟨huser, hname, rfl⟩
    rw [get, ho, hsome]
    rfl

omit [DecidableEq α] in
/-- A user logs in with the password of the name. -/
theorem login_spec {self : Authenticator α} {users : Users α} {k fuel : ℕ} (name pass : List UInt8)
    (h : self.Represents users k) (hfuel : 2 * Nat.log 2 (k + 1) < fuel) :
  self.login fuel name pass = some (((users name).filter fun u => u.2 = pass).map Prod.fst)
  := by
  rw [login, get_spec name h hfuel, Option.map_some, Option.some_inj]
  cases hname : users name with
  | none => rfl
  | some u =>
      obtain ⟨user, pass'⟩ := u
      obtain ⟨_, _, -, -, -, -, husers⟩ := h
      have hpass : self.pass user = pass' := ((husers name user pass').mp hname).2.2
      by_cases heq : pass' = pass
      · simp [Option.filter, userChecker, hpass, heq]
      · simp [Option.filter, userChecker, hpass, heq]

/-- A new block is not in the tree. -/
theorem Represents.userNew {self : Authenticator α} {users : Users α} {k : ℕ} {user : α}
    (name pass : List UInt8) (h : self.Represents users k)
    (hfresh : ∀ name pass, users name ≠ some (user, pass)) :
  (self.userNew user name pass).Represents users k
  := by
  obtain ⟨n, t, hmodels, hbalanced, hlength, hdecreasing, husers⟩ := h
  have hne : ∀ b ∈ t.toList, b ≠ user := by
    rintro b hb rfl
    exact hfresh _ _ ((husers _ _ _).mpr ⟨hb, rfl, rfl⟩)
  have hname : ∀ b ∈ t.toList, (self.userNew user name pass).name b = self.name b :=
    fun b hb => if_neg (hne b hb)
  have hpass : ∀ b ∈ t.toList, (self.userNew user name pass).pass b = self.pass b :=
    fun b hb => if_neg (hne b hb)
  refine ⟨n, t, hmodels, hbalanced, hlength, hdecreasing.congr hname, ?_⟩
  intro name' b pass'
  rw [husers]
  constructor
  · rintro ⟨hb, hbname, hbpass⟩
    exact ⟨hb, (hname b hb).trans hbname, (hpass b hb).trans hbpass⟩
  · rintro ⟨hb, hbname, hbpass⟩
    exact ⟨hb, (hname b hb).symm.trans hbname, (hpass b hb).symm.trans hbpass⟩

/-- A user is added under a name that no user has. -/
theorem add_spec {self : Authenticator α} {users : Users α} {k fuel : ℕ} {user : α}
    (h : self.Represents users k) (hfresh : ∀ name pass, users name ≠ some (user, pass))
    (hfuel : 2 * Nat.log 2 (k + 1) < fuel) :
  ∃ self', self.add fuel user
      = some (self', if (users (self.name user)).isSome then -1 else 0)
    ∧ self'.Represents
      (if (users (self.name user)).isSome then users
        else Function.update users (self.name user) (some (user, self.pass user))) (k + 1)
  := by
  obtain ⟨n, t, hmodels, hbalanced, hlength, hdecreasing, husers⟩ := h
  have huser : user ∉ t.toList := fun hmem => hfresh _ _ ((husers _ _ _).mpr ⟨hmem, rfl, rfl⟩)
  obtain ⟨b, hb, heq, hplace⟩ | ⟨p, hplace, hleads, hitems, hinsert⟩ := RBTree.insert_spec hmodels
    hbalanced (fun _ _ => rfl) (hdecreasing.directs (self.name user))
    (RBTree.height_lt hbalanced hlength hfuel)
  · have hname : self.name b = self.name user := Std.LawfulEqCmp.eq_of_compare heq
    have hsome := (husers _ b _).mpr ⟨hb, hname, rfl⟩
    refine ⟨self, ?_, ?_⟩
    · rw [add, hplace, hsome]
      rfl
    · rw [hsome]
      exact ⟨n, t, hmodels, hbalanced, hlength.trans (Nat.le_succ k), hdecreasing, husers⟩
  · have hnone : users (self.name user) = none := by
      rw [Option.eq_none_iff_forall_ne_some]
      rintro ⟨b, pass⟩ hsome
      obtain ⟨hb, hname, -⟩ := (husers _ b pass).mp hsome
      have hself : nameCmp (self.name b) (self.name user) = .eq := by
        rw [hname]
        exact Std.ReflCmp.compare_self
      rw [hitems, List.mem_append] at hb
      obtain hb | hb := hb
      · exact absurd ((hleads.before b hb).symm.trans hself) (by decide)
      · exact absurd ((hleads.after b hb).symm.trans hself) (by decide)
    obtain ⟨tree, htree, m, t', hre, hitems', hbalanced'⟩ := hinsert user huser
    have hmem : ∀ b, b ∈ t'.toList ↔ b = user ∨ b ∈ t.toList := by
      intro b
      rw [hitems', hitems]
      simp only [List.mem_append, List.mem_cons]
      tauto
    refine ⟨{ self with tree := tree }, ?_, m, t', hre.models, hbalanced', ?_, ?_, ?_⟩
    · rw [add, hplace, hnone]
      dsimp only [Option.bind_some]
      rw [htree]
      rfl
    · rw [hitems', List.length_append, List.length_cons]
      rw [hitems, List.length_append] at hlength
      omega
    · rw [hitems']
      apply RBTree.Decreasing.insert
      · rw [← hitems]
        exact hdecreasing
      · exact hleads
    · intro name b pass
      rw [hnone, hmem]
      simp only [Option.isSome_none, Bool.false_eq_true, if_false]
      by_cases hname : name = self.name user
      · subst hname
        rw [Function.update_self, Option.some_inj, Prod.mk.injEq]
        constructor
        · rintro ⟨rfl, rfl⟩
          exact ⟨.inl rfl, rfl, rfl⟩
        · rintro ⟨rfl | hb, hbname, rfl⟩
          · exact ⟨rfl, rfl⟩
          · have hsome := (husers _ b _).mpr ⟨hb, hbname, rfl⟩
            rw [hnone] at hsome
            cases hsome
      · rw [Function.update_of_ne hname, husers]
        constructor
        · rintro ⟨hb, hrest⟩
          exact ⟨.inr hb, hrest⟩
        · rintro ⟨rfl | hb, hbname, hbpass⟩
          · exact absurd hbname.symm hname
          · exact ⟨hb, hbname, hbpass⟩

/-- Without one of its nodes the tree holds the other users. -/
theorem Represents.erase {self : Authenticator α} {users : Users α} {k fuel : ℕ} {user : α}
    {name pass : List UInt8} (h : self.Represents users k)
    (huser : users name = some (user, pass)) (hfuel : 2 * Nat.log 2 (k + 1) < fuel) :
  ∃ tree, self.tree.erase fuel user = some tree
    ∧ ({ self with tree := tree } : Authenticator α).Represents
      (Function.update users name none) (k - 1)
  := by
  obtain ⟨n, t, hmodels, hbalanced, hlength, hdecreasing, husers⟩ := h
  obtain ⟨hmem, hname, hpass⟩ := (husers name user pass).mp huser
  obtain ⟨tree, htree, m, t', hre, hitems, hbalanced'⟩ := RBTree.erase_spec hmodels hbalanced hmem
    (RBTree.height_lt hbalanced hlength hfuel).le
  refine ⟨tree, htree, m, t', hre.models, hbalanced', ?_, ?_, ?_⟩
  · rw [hitems, List.length_erase_of_mem hmem]
    omega
  · rw [hitems]
    exact hdecreasing.sublist List.erase_sublist
  · intro name' b pass'
    rw [hitems, hmodels.nodup.mem_erase_iff]
    by_cases heq : name' = name
    · subst heq
      rw [Function.update_self]
      apply iff_of_false nofun
      rintro ⟨⟨hne, hb⟩, hbname, rfl⟩
      have hsome := (husers name' b _).mpr ⟨hb, hbname, rfl⟩
      rw [huser, Option.some_inj, Prod.mk.injEq] at hsome
      exact hne hsome.1.symm
    · rw [Function.update_of_ne heq, husers]
      constructor
      · rintro ⟨hb, hbname, hbpass⟩
        refine ⟨⟨?_, hb⟩, hbname, hbpass⟩
        rintro rfl
        exact heq (hbname.symm.trans hname)
      · rintro ⟨⟨-, hb⟩, hbname, hbpass⟩
        exact ⟨hb, hbname, hbpass⟩

/-- The user with a name goes out. -/
theorem del_spec {self : Authenticator α} {users : Users α} {k fuel : ℕ} (name : List UInt8)
    (h : self.Represents users k) (hfuel : 2 * Nat.log 2 (k + 1) < fuel) :
  ∃ self', self.del fuel name = some (self', if (users name).isSome then 0 else -1)
    ∧ self'.Represents (Function.update users name none) k
  := by
  have hget : self.tree.search fuel (fun this => nameCmp (self.name this) name)
      = some ((users name).map Prod.fst) := get_spec name h hfuel
  cases huser : users name with
  | none =>
      rw [huser] at hget
      refine ⟨self, ?_, ?_⟩
      · rw [del, hget]
        rfl
      · rwa [Function.update_eq_self_iff.mpr huser.symm]
  | some u =>
      obtain ⟨user, pass⟩ := u
      rw [huser] at hget
      obtain ⟨tree, htree, n, t, hmodels, hbalanced, hlength, hrest⟩ := h.erase huser hfuel
      refine ⟨{ self with tree := tree }, ?_, n, t, hmodels, hbalanced, by omega, hrest⟩
      rw [del, hget]
      dsimp only [Option.map_some, Option.bind_some]
      rw [htree]
      rfl

/-! ### The removal of all users -/

omit [DecidableEq α] in
/-- `hev_rbtree_first` finds the first node of the tree. -/
theorem first_spec {self : RBTree α} {t : ColoredTree α} {fuel : ℕ} (h : self.Models t)
    (hfuel : t.height < fuel) :
  first fuel self = some t.toList.head?
  := by
  cases t with
  | leaf =>
      rw [first, h.root]
      rfl
  | node c l a r =>
      let inv (k : ℕ) (n : α) : Prop := ∃ c' l' r' p,
        ColoredTree.node c l a r = plug (.node c' l' n r') p ∧ Path.before p = [] ∧ l'.height = k
      have hstart : inv l.height a := ⟨c, l, r, [], rfl, rfl, rfl⟩
      have hheight : l.height < fuel := by
        simp only [ColoredTree.height] at hfuel
        omega
      have hround : ∀ k n, inv k n → Loop.Round (fun b => ∃ j < k, inv j b)
          (fun n => (ColoredTree.node c l a r).toList.head? = some n)
          (some ((self.node n).left.elim (.inr n) .inl)) := by
        rintro k n ⟨c', l', r', p, ht, hp, rfl⟩
        rw [ht] at h
        obtain ⟨-, hu, -, -⟩ := RBTree.models_plug.mp h
        cases l' with
        | leaf =>
            right
            refine ⟨n, by simp [hu.1, ColoredTree.root], ?_⟩
            rw [ht, toList_plug, hp]
            rfl
        | node d l'' b r'' =>
            left
            refine ⟨b, by simp [hu.1, ColoredTree.root], l''.height, ?_, d, l'', r'',
              ⟨.left, c', n, r'⟩ :: p, ht, by simpa [Path.before] using hp, rfl⟩
            simp only [ColoredTree.height]
            omega
      obtain ⟨n, hn, hpost⟩ := Loop.total hround hstart hheight
      rw [first, h.root]
      dsimp only [ColoredTree.root]
      rw [hn, hpost]
      rfl

/-- All users go out. -/
theorem clear_spec {self : Authenticator α} {users : Users α} {k fuel rounds : ℕ}
    (h : self.Represents users k) (hfuel : 2 * Nat.log 2 (k + 1) < fuel) (hrounds : k < rounds) :
  ∃ self', self.clear fuel rounds = some self' ∧ self'.Represents (fun _ => none) k
  := by
  let inv (j : ℕ) (auth : Authenticator α) : Prop := j ≤ k ∧ ∃ users, auth.Represents users j
  have hstart : inv k self := ⟨le_rfl, users, h⟩
  apply Loop.total _ hstart hrounds
  rintro j auth ⟨hj, users', hauth⟩
  have hlog : Nat.log 2 (j + 1) ≤ Nat.log 2 (k + 1) := Nat.log_mono_right (by omega)
  have hfuel' : 2 * Nat.log 2 (j + 1) < fuel := by omega
  obtain ⟨n, t, hmodels, hbalanced, hlength, hdecreasing, husers⟩ := id hauth
  have hfirst := first_spec hmodels (RBTree.height_lt hbalanced hlength hfuel')
  cases hitems : t.toList with
  | nil =>
      right
      rw [hitems] at hfirst husers
      refine ⟨auth, by simp [hfirst], n, t, hmodels, hbalanced, hlength.trans hj, hdecreasing, ?_⟩
      simp [hitems]
  | cons a items =>
      left
      rw [hitems] at hfirst hlength
      have huser : users' (auth.name a) = some (a, auth.pass a) :=
        (husers _ _ _).mpr ⟨by rw [hitems]; exact List.mem_cons_self, rfl, rfl⟩
      obtain ⟨tree, htree, herased⟩ := hauth.erase huser hfuel'
      rw [List.length_cons] at hlength
      exact ⟨{ auth with tree := tree }, by simp [hfirst, htree], j - 1, by omega, by omega, _, herased⟩

/-! ### Runs -/

/-- A call of the table; a user that is added is new, in a block of the allocator. -/
inductive Call (α : Type) where
  | add (user : α) (name pass : List UInt8)
  | del (name : List UInt8)
  | get (name : List UInt8)
  | login (name pass : List UInt8)
  | clear

/-- What a call returns. -/
inductive Answer (α : Type) where
  | result (r : ℤ)
  | user (user : Option α)
  | done
deriving DecidableEq

/-- A call, with the answers so far. -/
def step (fuel rounds : ℕ) (s : Authenticator α × List (Answer α)) :
    Call α → Option (Authenticator α × List (Answer α))
  | .add user name pass =>
      ((s.1.userNew user name pass).add fuel user).map fun (self, r) => (self, s.2 ++ [.result r])
  | .del name => (s.1.del fuel name).map fun (self, r) => (self, s.2 ++ [.result r])
  | .get name => (s.1.get fuel name).map fun user => (s.1, s.2 ++ [.user user])
  | .login name pass => (s.1.login fuel name pass).map fun user => (s.1, s.2 ++ [.user user])
  | .clear => (s.1.clear fuel rounds).map fun self => (self, s.2 ++ [.done])

/-- A call of the map. -/
def Users.step (s : Users α × List (Answer α)) : Call α → Option (Users α × List (Answer α))
  | .add user name pass =>
      if (s.1 name).isSome then some (s.1, s.2 ++ [.result (-1)])
      else some (Function.update s.1 name (some (user, pass)), s.2 ++ [.result 0])
  | .del name =>
      some (Function.update s.1 name none,
        s.2 ++ [.result (if (s.1 name).isSome then 0 else -1)])
  | .get name => some (s.1, s.2 ++ [.user ((s.1 name).map Prod.fst)])
  | .login name pass =>
      some (s.1, s.2 ++ [.user (((s.1 name).filter fun u => u.2 = pass).map Prod.fst)])
  | .clear => some (fun _ => none, s.2 ++ [.done])

/-- The block of a new user is not in use. -/
def Fresh (s : Users α × List (Answer α)) : Call α → Prop
  | .add user _ _ => ∀ name pass, s.1 name ≠ some (user, pass)
  | _ => True

omit [DecidableEq α] in
theorem Represents.succ {self : Authenticator α} {users : Users α} {k : ℕ}
    (h : self.Represents users k) :
  self.Represents users (k + 1)
  := by
  obtain ⟨n, t, hmodels, hbalanced, hlength, hrest⟩ := h
  exact ⟨n, t, hmodels, hbalanced, hlength.trans (Nat.le_succ k), hrest⟩

/-- A call of the table is the call of the map. -/
theorem step_spec {fuel rounds k : ℕ} {self : Authenticator α} {users : Users α}
    (answers : List (Answer α)) {call : Call α} (h : self.Represents users k)
    (hfresh : Fresh (users, answers) call) (hfuel : 2 * Nat.log 2 (k + 1) < fuel)
    (hrounds : k < rounds) :
  ∃ self' users' answers', step fuel rounds (self, answers) call = some (self', answers')
    ∧ Users.step (users, answers) call = some (users', answers') ∧ self'.Represents users' (k + 1)
  := by
  cases call with
  | add user name pass =>
      obtain ⟨self', hadd, h'⟩ := add_spec (h.userNew name pass hfresh) hfresh hfuel
      have hname : (self.userNew user name pass).name user = name := if_pos rfl
      have hpass : (self.userNew user name pass).pass user = pass := if_pos rfl
      rw [hname, hpass] at h'
      rw [hname] at hadd
      refine ⟨self', _, _, by rw [step, hadd]; rfl, ?_, h'⟩
      rw [Users.step]
      split <;> rfl
  | del name =>
      obtain ⟨self', hdel, h'⟩ := del_spec name h hfuel
      exact ⟨self', _, _, by rw [step, hdel]; rfl, rfl, h'.succ⟩
  | get name => exact ⟨self, _, _, by rw [step, get_spec name h hfuel]; rfl, rfl, h.succ⟩
  | login name pass =>
      exact ⟨self, _, _, by rw [step, login_spec name pass h hfuel]; rfl, rfl, h.succ⟩
  | clear =>
      obtain ⟨self', hclear, h'⟩ := clear_spec h hfuel hrounds
      exact ⟨self', _, _, by rw [step, hclear]; rfl, rfl, h'.succ⟩

/-- A run of the table is the run of the map. -/
theorem exec_spec {fuel rounds k : ℕ} {self : Authenticator α} {users : Users α}
    (answers : List (Answer α)) {calls : List (Call α)} (h : self.Represents users k)
    (hfresh : Run.Meets Users.step Fresh (users, answers) calls)
    (hfuel : 2 * Nat.log 2 (k + calls.length + 1) < fuel) (hrounds : k + calls.length < rounds) :
  ∃ self' users' answers', Run.exec (step fuel rounds) (self, answers) calls = some (self', answers')
    ∧ Run.exec Users.step (users, answers) calls = some (users', answers')
    ∧ self'.Represents users' (k + calls.length)
  := by
  induction calls generalizing self users answers k with
  | nil => exact ⟨self, users, answers, rfl, rfl, h⟩
  | cons call calls ih =>
      rw [List.length_cons] at hfuel hrounds
      have hlog : Nat.log 2 (k + 1) ≤ Nat.log 2 (k + (calls.length + 1) + 1) :=
        Nat.log_mono_right (by omega)
      have hk : k + (calls.length + 1) = k + 1 + calls.length := by omega
      have hfuel₁ : 2 * Nat.log 2 (k + 1) < fuel := by omega
      have hrounds₁ : k < rounds := by omega
      obtain ⟨self₁, users₁, answers₁, hstep, hcall, h₁⟩ :=
        step_spec answers h hfresh.1 hfuel₁ hrounds₁
      rw [hk] at hfuel hrounds
      obtain ⟨self', users', answers', hrun, hcalls, h'⟩ :=
        ih answers₁ h₁ (hfresh.2 _ hcall) hfuel hrounds
      refine ⟨self', users', answers', ?_, ?_, ?_⟩
      · rw [Run.exec, hstep]
        exact hrun
      · rw [Run.exec, hcall]
        exact hcalls
      · rw [List.length_cons, hk]
        exact h'

/-- Along every run from a new table, in which no block that is in use is added again, no null pointer
is followed and no search takes more than logarithmically many rounds; the answers are those of a
finite map from names to users, and the pointers stay those of a red-black tree. -/
theorem run_is_map_run
    {node : α → RBTreeNode α} {name pass : α → List UInt8} {calls : List (Call α)} {fuel rounds : ℕ}
    (hfresh : Run.Meets Users.step Fresh (fun _ => none, []) calls)
    (hfuel : 2 * Nat.log 2 (calls.length + 1) < fuel) (hrounds : calls.length < rounds) :
  ∃ self users answers,
    Run.exec (step fuel rounds) (new node name pass, []) calls = some (self, answers)
    ∧ Run.exec Users.step (fun _ => none, []) calls = some (users, answers)
    ∧ self.Represents users calls.length
  := by
  have hnew : (new node name pass).Represents (fun _ => none) 0 := by
    refine ⟨0, .leaf, ⟨rfl, trivial, List.nodup_nil⟩, .leaf, le_rfl, List.Pairwise.nil, ?_⟩
    simp [ColoredTree.toList]
  have hlength : 0 + calls.length = calls.length := Nat.zero_add _
  rw [← hlength] at hfuel hrounds ⊢
  exact exec_spec [] hnew hfresh hfuel hrounds

/-- Two users are added, and one of them logs in. -/
def addAndLogin : List (Call ℕ) :=
  [.add 1 [97] [98], .add 2 [99] [100], .login [99] [100], .clear]

theorem run_is_map_run_login :
  ∃ self users answers,
    Run.exec (step 5 5)
        (new (fun _ : ℕ => ⟨none, .black, none, none⟩) (fun _ => []) (fun _ => []), []) addAndLogin
      = some (self, answers)
    ∧ Run.exec Users.step (fun _ => none, []) addAndLogin = some (users, answers)
    ∧ self.Represents users 4
  := by
  have hfresh : Run.Meets Users.step Fresh (fun _ => none, []) addAndLogin := by
    refine ⟨nofun, ?_⟩
    rintro s hs
    obtain rfl := Option.some.inj hs
    constructor
    · -- the second block is not that of the first user
      intro name pass hsome
      dsimp only [Function.update] at hsome
      split at hsome
      · simp at hsome
      · cases hsome
    · rintro s -
      refine ⟨trivial, ?_⟩
      rintro s' -
      exact ⟨trivial, fun _ _ => trivial⟩
  exact run_is_map_run hfresh (by decide) (by decide)

end Authenticator

end Hev
