import Mathlib.Algebra.Order.Ring.Int
import Mathlib.Data.List.Basic

/-!
# Input streams

A stream of bytes as it arrives: a list of chunks, of which some may be empty.  A call of `read`
for one byte gives its value, or -1 at the end of the stream.  A call of `read` for a block gives
what is left of the first chunk that is not empty, but not more than was asked for.

What is read does not depend on how the stream is split into chunks: it is said in terms of the
concatenation of the chunks.
-/

namespace InputStream

/-- The chunks that have not been read yet. -/
abbrev Source : Type := List (List UInt8)

/-- `input.read()` -/
def read : Source → ℤ × Source
  | [] => (-1, [])
  | [] :: chunks => read chunks
  | (b :: chunk) :: chunks => (b.toNat, chunk :: chunks)

/-- `input.read(buf, off, len)` for a positive `len`: the bytes that are stored, or none at the
end of the stream. -/
def readBlock (len : ℕ) : Source → Option (List UInt8 × Source)
  | [] => none
  | [] :: chunks => readBlock len chunks
  | (b :: chunk) :: chunks => some ((b :: chunk).take len, (b :: chunk).drop len :: chunks)

/-- Read blocks until `remaining` bytes have been stored, in at most `rounds` rounds; the end of
the stream is an exception, here none. -/
def readLoop : ℕ → ℕ → Source → Option (List UInt8 × Source)
  | _, 0, input => some ([], input)
  | 0, _ + 1, _ => none
  | rounds + 1, remaining + 1, input => do
      let (stored, input) ← readBlock (remaining + 1) input
      let (more, input) ← readLoop rounds (remaining + 1 - stored.length) input
      return (stored ++ more, input)

/-- Read a block of `size` bytes.  Every round stores a byte, so that there are at most as many
rounds as bytes. -/
def readFully (size : ℕ) (input : Source) : Option (List UInt8 × Source) :=
  readLoop size size input

/-- The value of the first byte, or -1 if there is none. -/
def headValue : List UInt8 → ℤ
  | [] => -1
  | b :: _ => b.toNat

/-- The first byte of the stream is read. -/
theorem read_spec (input : Source) :
  ∃ next, read input = (headValue input.flatten, next) ∧ next.flatten = input.flatten.tail
  := by
  induction input with
  | nil => exact ⟨[], rfl, rfl⟩
  | cons chunk chunks ih =>
      cases chunk with
      | nil => apply ih
      | cons b chunk => exact ⟨chunk :: chunks, rfl, rfl⟩

theorem headValue_eq_iff {s : List UInt8} {b : UInt8} :
  headValue s = b.toNat ↔ s.head? = some b
  := by
  cases s with
  | nil =>
      rw [headValue, List.head?_nil]
      constructor
      · intro h
        omega
      · intro h
        cases h
  | cons c s =>
      rw [headValue, List.head?_cons, Option.some.injEq, Int.ofNat_inj, UInt8.toNat_inj]

theorem headValue_ne {s : List UInt8} {b : UInt8} (h : s.head? ≠ some b) :
  headValue s ≠ b.toNat
  := mt headValue_eq_iff.mp h

/-- The first byte is no positive number exactly if it is zero, or there is none. -/
theorem headValue_nonpos_iff {s : List UInt8} :
  headValue s ≤ 0 ↔ s.head? = none ∨ s.head? = some 0
  := by
  cases s with
  | nil =>
      apply iff_of_true (Int.le_of_lt (Int.negSucc_lt_zero 0))
      exact Or.inl rfl
  | cons b s =>
      rw [List.head?_cons, Option.some_inj, ← UInt8.toNat_inj, headValue]
      constructor
      · intro h
        right
        change b.toNat = 0
        omega
      · rintro (hnone | hzero)
        · cases hnone
        · rw [hzero]
          exact le_refl _

theorem not_headValue_nonpos {b : UInt8} (hb : b ≠ 0) (s : List UInt8) :
  ¬ headValue (b :: s) ≤ 0
  := by
  rw [headValue_nonpos_iff]
  rintro (hnone | hzero)
  · cases hnone
  · exact hb (Option.some.inj hzero)

theorem readBlock_of_flatten_eq_nil {input : Source} (h : input.flatten = []) (len : ℕ) :
  readBlock len input = none
  := by
  induction input with
  | nil => rfl
  | cons chunk chunks ih =>
      rw [List.flatten_cons, List.append_eq_nil_iff] at h
      obtain ⟨rfl, h⟩ := h
      apply ih h

/-- A block is read from the front of the stream, and is not empty. -/
theorem readBlock_of_flatten_ne_nil {input : Source} (h : input.flatten ≠ []) {len : ℕ}
    (hlen : 0 < len) :
  ∃ stored next, readBlock len input = some (stored, next) ∧ 0 < stored.length ∧
    stored.length ≤ len ∧ input.flatten = stored ++ next.flatten
  := by
  induction input with
  | nil => exact absurd rfl h
  | cons chunk chunks ih =>
      cases chunk with
      | nil => apply ih h
      | cons b chunk =>
          refine ⟨_, _, rfl, ?_, List.length_take_le _ _, ?_⟩
          · rw [List.length_take, List.length_cons]
            omega
          · rw [List.flatten_cons, List.flatten_cons, ← List.append_assoc, List.take_append_drop]

/-- The loop stores the bytes it should, if the stream has them. -/
theorem readLoop_of_le {rounds remaining : ℕ} (hrounds : remaining ≤ rounds) {input : Source}
    (h : remaining ≤ input.flatten.length) :
  ∃ next, readLoop rounds remaining input = some (input.flatten.take remaining, next) ∧
    next.flatten = input.flatten.drop remaining
  := by
  induction rounds generalizing remaining input with
  | zero =>
      obtain rfl := Nat.le_zero.mp hrounds
      exact ⟨input, rfl, rfl⟩
  | succ rounds ih =>
      cases remaining with
      | zero => exact ⟨input, rfl, rfl⟩
      | succ remaining =>
          have hne : input.flatten ≠ [] := by
            intro hnil
            rw [hnil] at h
            cases h
          obtain ⟨stored, next, hread, hpos, hle, hflat⟩ :=
            readBlock_of_flatten_ne_nil hne (Nat.succ_pos remaining)
          rw [hflat, List.length_append] at h
          have hfewer : remaining + 1 - stored.length ≤ rounds := by
            omega
          have hleft : remaining + 1 - stored.length ≤ next.flatten.length := by
            omega
          obtain ⟨last, hloop, hlast⟩ := ih hfewer hleft
          use last
          constructor
          · rw [readLoop, hread]
            simp only [Option.bind_eq_bind, Option.bind_some, hloop]
            rw [hflat, List.take_append, List.take_of_length_le hle]
            rfl
          · rw [hlast, hflat, List.drop_append, List.drop_of_length_le hle, List.nil_append]

/-- The loop fails, if the stream ends before. -/
theorem readLoop_of_lt {rounds remaining : ℕ} {input : Source}
    (h : input.flatten.length < remaining) :
  readLoop rounds remaining input = none
  := by
  induction rounds generalizing remaining input with
  | zero =>
      cases remaining with
      | zero => cases h
      | succ remaining => rfl
  | succ rounds ih =>
      cases remaining with
      | zero => cases h
      | succ remaining =>
          by_cases hnil : input.flatten = []
          · rw [readLoop, readBlock_of_flatten_eq_nil hnil]
            rfl
          · obtain ⟨stored, next, hread, hpos, hle, hflat⟩ :=
              readBlock_of_flatten_ne_nil hnil (Nat.succ_pos remaining)
            rw [hflat, List.length_append] at h
            have hleft : next.flatten.length < remaining + 1 - stored.length := by
              omega
            have hloop := ih hleft
            rw [readLoop, hread]
            simp only [Option.bind_eq_bind, Option.bind_some, hloop]
            rfl

/-- A block at the front of the stream is read. -/
theorem readFully_of_flatten_eq_append {input : Source} {block rest : List UInt8}
    (h : input.flatten = block ++ rest) :
  ∃ next, readFully block.length input = some (block, next) ∧ next.flatten = rest
  := by
  have hle : block.length ≤ input.flatten.length := by
    rw [h, List.length_append]
    omega
  obtain ⟨next, hread, hnext⟩ := readLoop_of_le (Nat.le_refl block.length) hle
  rw [h, List.take_left] at hread
  rw [h, List.drop_left] at hnext
  exact ⟨next, hread, hnext⟩

/-- A block that the stream does not have is not read. -/
theorem readFully_of_lt {input : Source} {size : ℕ} (h : input.flatten.length < size) :
  readFully size input = none
  := readLoop_of_lt h

theorem readFully_of_not {input : Source} {size : ℕ}
    (h : ∀ block rest, input.flatten = block ++ rest → block.length ≠ size) :
  readFully size input = none
  := by
  apply readFully_of_lt
  by_contra hlen
  apply h _ _ (List.take_append_drop size input.flatten).symm
  rw [List.length_take]
  omega

end InputStream
