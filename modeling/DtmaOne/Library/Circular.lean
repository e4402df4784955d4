import Mathlib.Data.List.Basic
import Mathlib.Data.List.Nodup
import Mathlib.Data.List.Range
import Mathlib.Data.Nat.ModEq
import Mathlib.Logic.Function.Basic

/-!
# Circular memory

A circular buffer uses the cells `0, …, max - 1` of a memory again and again: the `i`-th item of a
stream is in the cell `i % max`.  As long as at most `max` items are kept at a time, they are in
different cells.
-/

namespace Circular

universe u

/-- The cells of the items `start, …, start + len - 1`. -/
def cells (max start len : ℕ) : List ℕ := (List.range' start len).map (· % max)

@[simp]
theorem length_cells (max start len : ℕ) :
  (cells max start len).length = len
  := by
  simp [cells]

theorem cells_add (max start m n : ℕ) :
  cells max start (m + n) = cells max start m ++ cells max (start + m) n
  := by
  rw [cells, cells, cells, ← List.map_append, List.range'_append_1]

theorem take_cells {max start k n : ℕ} (h : k ≤ n) :
  (cells max start n).take k = cells max start k
  := by
  obtain ⟨m, rfl⟩ := Nat.exists_eq_add_of_le h
  rw [cells_add, List.take_left' (length_cells max start k)]

theorem drop_cells {max start k n : ℕ} (h : k ≤ n) :
  (cells max start n).drop k = cells max (start + k) (n - k)
  := by
  obtain ⟨m, rfl⟩ := Nat.exists_eq_add_of_le h
  rw [cells_add, List.drop_left' (length_cells max start k), Nat.add_sub_cancel_left]

/-- Only the cell of the first item matters. -/
theorem cells_mod (max start len : ℕ) :
  cells max (start % max) len = cells max start len
  := by
  simp only [cells, List.range'_eq_map_range, List.map_map]
  apply List.map_congr_left
  intro i _
  simp

/-- Different items with one cell are at least `max` apart. -/
theorem eq_of_mod_eq {max i j : ℕ} (hle : i ≤ j) (hlt : j < i + max) (hij : i % max = j % max) :
  i = j
  := by
  have hdvd : max ∣ j - i := (Nat.modEq_iff_dvd' hle).mp hij
  have hzero : j - i = 0 := Nat.eq_zero_of_dvd_of_lt hdvd (by omega)
  omega

/-- Items that are kept at a time are in different cells. -/
theorem nodup_cells {max start len : ℕ} (h : len ≤ max) :
  (cells max start len).Nodup
  := by
  apply List.Nodup.map_on
  · intro i hi j hj hij
    rw [List.mem_range'_1] at hi hj
    obtain hle | hle := le_total i j
    · exact eq_of_mod_eq hle (by omega) hij
    · exact (eq_of_mod_eq hle (by omega) hij.symm).symm
  · exact List.nodup_range'

/-- The cells up to the end of the memory. -/
theorem cells_of_le {max start len : ℕ} (h : start + len ≤ max) :
  cells max start len = List.range' start len
  := by
  have hmod : ∀ i ∈ List.range' start len, i % max = id i := by
    intro i hi
    rw [List.mem_range'_1] at hi
    exact Nat.mod_eq_of_lt (by omega)
  rw [cells, List.map_congr_left hmod, List.map_id]

/-- The cells at the end of the memory and those at its start. -/
theorem cells_wrap {max start len : ℕ} (hstart : start ≤ max) (hlen : max - start ≤ len)
    (hmax : len ≤ max) :
  cells max start len = List.range' start (max - start) ++ List.range' 0 (len - (max - start))
  := by
  have hsum : len = (max - start) + (len - (max - start)) := by omega
  conv_lhs => rw [hsum, cells_add]
  have hend : start + (max - start) = max := Nat.add_sub_cancel' hstart
  rw [cells_of_le (by omega), hend, ← cells_mod, Nat.mod_self, cells_of_le (by omega)]

variable {β : Type u}

/-- Items are written to cells, one after the other. -/
def store (mem : ℕ → β) : List ℕ → List β → ℕ → β
  | p :: ps, b :: bs => store (Function.update mem p b) ps bs
  | _, _ => mem

/-- The other cells keep their items. -/
theorem store_of_notMem {mem : ℕ → β} {ps : List ℕ} {bs : List β} {p : ℕ} (h : p ∉ ps) :
  store mem ps bs p = mem p
  := by
  induction ps generalizing mem bs with
  | nil => rfl
  | cons q ps ih =>
      rw [List.mem_cons, not_or] at h
      cases bs with
      | nil => rfl
      | cons b bs => rw [store, ih h.2, Function.update_of_ne h.1]

/-- The items that have been written are read back. -/
theorem map_store {mem : ℕ → β} {ps : List ℕ} {bs : List β} (hps : ps.Nodup)
    (hlen : bs.length ≤ ps.length) :
  (ps.take bs.length).map (store mem ps bs) = bs
  := by
  induction ps generalizing mem bs with
  | nil => simpa using hlen
  | cons p ps ih =>
      cases bs with
      | nil => rfl
      | cons b bs =>
          obtain ⟨hp, hps⟩ := List.nodup_cons.mp hps
          rw [List.length_cons, List.take_succ_cons, List.map_cons, store, store_of_notMem hp,
            Function.update_self, ih hps (by simpa using hlen)]

end Circular
