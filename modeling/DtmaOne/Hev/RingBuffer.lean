import DtmaOne.Library.Circular

/-!
# The ring buffer of the tunnel

`RingBuffer` is the buffer of `hev-ring-buffer.c`.  Its bytes are in three states: those that wait
to be read, those that have been read but are still held, because the reader may come back to them,
and the free ones.  The bytes are read and written in place, through vectors of the memory.
-/

namespace Hev

open Circular

/-- `struct iovec`, with the place of its bytes in the data of the buffer. -/
structure Iovec where
  base : ℕ
  len : ℕ
deriving DecidableEq

/-- The places of the bytes of a vector. -/
def Iovec.places (iov : Iovec) : List ℕ := List.range' iov.base iov.len

/-- `HevRingBuffer` -/
structure RingBuffer where
  rp : ℕ
  wp : ℕ
  rdaSize : ℕ
  useSize : ℕ
  maxSize : ℕ
  data : ℕ → UInt8

namespace RingBuffer

/-- `hev_ring_buffer_alloca`, on a memory with the bytes `data`. -/
def alloca (data : ℕ → UInt8) (s : ℕ) : RingBuffer := ⟨0, 0, 0, 0, s, data⟩

/-- `hev_ring_buffer_reading` -/
def reading (self : RingBuffer) : List Iovec :=
  if self.rdaSize = 0 then []
  else if self.rdaSize ≤ self.maxSize - self.rp then [⟨self.rp, self.rdaSize⟩]
  else [⟨self.rp, self.maxSize - self.rp⟩, ⟨0, self.rdaSize - (self.maxSize - self.rp)⟩]

/-- `hev_ring_buffer_read_finish` -/
def readFinish (self : RingBuffer) (size : ℕ) : RingBuffer :=
  { self with
    rp := (self.rp + size) % self.maxSize
    rdaSize := self.rdaSize - size }

/-- `hev_ring_buffer_read_release` -/
def readRelease (self : RingBuffer) (size : ℕ) : RingBuffer :=
  if self.useSize - size = 0 then { self with useSize := 0, rp := 0, wp := 0 }
  else { self with useSize := self.useSize - size }

/-- `hev_ring_buffer_writing` -/
def writing (self : RingBuffer) : List Iovec :=
  if self.useSize = self.maxSize then []
  else if self.maxSize - self.useSize ≤ self.maxSize - self.wp then
    [⟨self.wp, self.maxSize - self.useSize⟩]
  else
    [⟨self.wp, self.maxSize - self.wp⟩,
      ⟨0, self.maxSize - self.useSize - (self.maxSize - self.wp)⟩]

/-- `hev_ring_buffer_write_finish` -/
def writeFinish (self : RingBuffer) (size : ℕ) : RingBuffer :=
  { self with
    wp := (self.wp + size) % self.maxSize
    useSize := self.useSize + size
    rdaSize := self.rdaSize + size }

/-- The bytes that `readv` puts into vectors of the buffer. -/
def fill (self : RingBuffer) (iov : List Iovec) (bytes : List UInt8) : RingBuffer :=
  { self with data := store self.data (iov.flatMap Iovec.places) bytes }

/-- The buffer holds the bytes `held` from the item `b` of a stream on, and then the bytes `ready`
wait to be read. -/
structure Models (ring : RingBuffer) (b : ℕ) (held ready : List UInt8) : Prop where
  use : ring.useSize = held.length + ready.length
  rda : ring.rdaSize = ready.length
  le : ring.useSize ≤ ring.maxSize
  rp : ring.rp = (b + held.length) % ring.maxSize
  wp : ring.wp = (b + held.length + ready.length) % ring.maxSize
  data : (cells ring.maxSize b (held.length + ready.length)).map ring.data = held ++ ready

variable {self : RingBuffer} {b : ℕ} {held ready : List UInt8}

theorem models_alloca (data : ℕ → UInt8) (s : ℕ) :
  (alloca data s).Models 0 [] []
  := by
  exact ⟨rfl, rfl, Nat.zero_le s, (Nat.zero_mod s).symm, (Nat.zero_mod s).symm, rfl⟩

/-- The vectors are those of the bytes that wait, and within the data. -/
theorem reading_spec (h : self.Models b held ready) :
  self.reading.flatMap Iovec.places = cells self.maxSize (b + held.length) ready.length
    ∧ ∀ iov ∈ self.reading, iov.base + iov.len ≤ self.maxSize
  := by
  have huse := h.use
  have hle := h.le
  have hrda := h.rda
  have hcells := cells_mod self.maxSize (b + held.length) ready.length
  rw [← h.rp] at hcells
  rw [← hcells, reading]
  by_cases hzero : self.rdaSize = 0
  · rw [if_pos hzero]
    have hready : ready.length = 0 := hrda ▸ hzero
    rw [hready]
    exact ⟨rfl, by simp⟩
  · have hrp : self.rp < self.maxSize := h.rp ▸ Nat.mod_lt _ (by omega)
    rw [if_neg hzero]
    by_cases hupper : self.rdaSize ≤ self.maxSize - self.rp
    · rw [if_pos hupper, cells_of_le (by omega), ← hrda]
      refine ⟨by simp [Iovec.places], ?_⟩
      simp only [List.mem_singleton, forall_eq]
      omega
    · rw [if_neg hupper, cells_wrap hrp.le (by omega) (by omega), ← hrda]
      refine ⟨by simp [Iovec.places], ?_⟩
      simp only [List.mem_cons, List.not_mem_nil, or_false, forall_eq_or_imp, forall_eq]
      omega

/-- The vectors are those of the free bytes, and within the data. -/
theorem writing_spec (h : self.Models b held ready) :
  self.writing.flatMap Iovec.places
      = cells self.maxSize (b + held.length + ready.length) (self.maxSize - self.useSize)
    ∧ ∀ iov ∈ self.writing, iov.base + iov.len ≤ self.maxSize
  := by
  have hle := h.le
  have hcells := cells_mod self.maxSize (b + held.length + ready.length)
    (self.maxSize - self.useSize)
  rw [← h.wp] at hcells
  rw [← hcells, writing]
  by_cases hfull : self.useSize = self.maxSize
  · rw [if_pos hfull, hfull, Nat.sub_self]
    exact ⟨rfl, by simp⟩
  · have hwp : self.wp < self.maxSize := h.wp ▸ Nat.mod_lt _ (by omega)
    rw [if_neg hfull]
    by_cases hupper : self.maxSize - self.useSize ≤ self.maxSize - self.wp
    · rw [if_pos hupper, cells_of_le (by omega)]
      refine ⟨by simp [Iovec.places], ?_⟩
      simp only [List.mem_singleton, forall_eq]
      omega
    · rw [if_neg hupper, cells_wrap hwp.le (by omega) (by omega)]
      refine ⟨by simp [Iovec.places], ?_⟩
      simp only [List.mem_cons, List.not_mem_nil, or_false, forall_eq_or_imp, forall_eq]
      omega

/-- The bytes that are written wait to be read. -/
theorem writeFinish_spec (h : self.Models b held ready) {bytes : List UInt8}
    (hbytes : bytes.length ≤ self.maxSize - self.useSize) :
  ((self.fill self.writing bytes).writeFinish bytes.length).Models b held (ready ++ bytes)
  := by
  have huse := h.use
  have hle := h.le
  have hplaces := (writing_spec h).1
  have hbounds : bytes.length ≤ (self.writing.flatMap Iovec.places).length := by
    rw [hplaces, length_cells]
    exact hbytes
  -- the free cells are other cells than those in use
  have hnodup : (cells self.maxSize b (held.length + ready.length)
      ++ cells self.maxSize (b + held.length + ready.length) (self.maxSize - self.useSize)).Nodup := by
    rw [Nat.add_assoc, ← cells_add]
    exact nodup_cells (by omega)
  have hold : (cells self.maxSize b (held.length + ready.length)).map
      (self.fill self.writing bytes).data = held ++ ready := by
    rw [← h.data]
    apply List.map_congr_left
    intro p hp
    apply store_of_notMem
    rw [hplaces]
    exact fun hp' => (List.nodup_append.mp hnodup).2.2 p hp p hp' rfl
  have hnew : (cells self.maxSize (b + held.length + ready.length) bytes.length).map
      (self.fill self.writing bytes).data = bytes := by
    rw [← take_cells hbytes, ← hplaces]
    apply map_store _ hbounds
    rw [hplaces]
    exact (List.nodup_append.mp hnodup).2.1
  constructor
  · rw [List.length_append, ← Nat.add_assoc, ← huse]
    rfl
  · rw [List.length_append, ← h.rda]
    rfl
  · show self.useSize + bytes.length ≤ self.maxSize
    omega
  · exact h.rp
  · show (self.wp + bytes.length) % self.maxSize = _
    rw [h.wp, Nat.mod_add_mod, List.length_append, ← Nat.add_assoc]
    rfl
  · rw [List.length_append, ← Nat.add_assoc, cells_add, List.map_append, ← List.append_assoc]
    exact congrArg₂ _ hold (by rw [← Nat.add_assoc]; exact hnew)

/-- The bytes that are read are held. -/
theorem readFinish_spec (h : self.Models b held ready) {size : ℕ} (hsize : size ≤ ready.length) :
  (self.readFinish size).Models b (held ++ ready.take size) (ready.drop size)
  := by
  have htake : (ready.take size).length = size := List.length_take_of_le hsize
  constructor
  · rw [List.length_append, htake, List.length_drop]
    have huse := h.use
    show self.useSize = _
    omega
  · rw [List.length_drop, ← h.rda]
    rfl
  · exact h.le
  · show (self.rp + size) % self.maxSize = _
    rw [h.rp, Nat.mod_add_mod, List.length_append, htake, ← Nat.add_assoc]
    rfl
  · have hlength : b + (held ++ ready.take size).length + (ready.drop size).length
        = b + held.length + ready.length := by
      rw [List.length_append, htake, List.length_drop]
      omega
    rw [hlength]
    exact h.wp
  · have hlength : (held ++ ready.take size).length + (ready.drop size).length
        = held.length + ready.length := by
      rw [List.length_append, htake, List.length_drop]
      omega
    rw [hlength, List.append_assoc, List.take_append_drop]
    exact h.data

@[simp]
theorem maxSize_readRelease (self : RingBuffer) (size : ℕ) :
  (self.readRelease size).maxSize = self.maxSize
  := by
  rw [readRelease]
  split <;> rfl

/-- The first bytes that are held are free again. -/
theorem readRelease_spec (h : self.Models b held ready) {size : ℕ} (hsize : size ≤ held.length) :
  ∃ b', (self.readRelease size).Models b' (held.drop size) ready
    ∧ ∀ k, size + k ≤ held.length → cells self.maxSize b' k = cells self.maxSize (b + size) k
  := by
  have huse := h.use
  have hlength : (held.drop size).length = held.length - size := List.length_drop
  rw [readRelease]
  by_cases hzero : self.useSize - size = 0
  · -- nothing is in use, and the buffer starts again at its first cell
    have hheld : held.length = size := by omega
    have hready : ready = [] := List.length_eq_zero_iff.mp (by omega)
    rw [if_pos hzero, hready, List.drop_of_length_le hheld.le]
    refine ⟨0, ⟨rfl, ?_, Nat.zero_le _, ?_, ?_, rfl⟩, ?_⟩
    · rw [← hready]
      exact h.rda
    · exact (Nat.zero_mod _).symm
    · exact (Nat.zero_mod _).symm
    · intro k hk
      obtain rfl : k = 0 := by omega
      rfl
  · rw [if_neg hzero]
    refine ⟨b + size, ?_, fun k _ => rfl⟩
    have hstart : b + size + (held.drop size).length = b + held.length := by omega
    constructor
    · show self.useSize - size = _
      omega
    · exact h.rda
    · show self.useSize - size ≤ self.maxSize
      have := h.le
      omega
    · rw [hstart]
      exact h.rp
    · rw [hstart]
      exact h.wp
    · have hdata := congrArg (List.drop size) h.data
      rw [← List.map_drop, drop_cells (by omega), List.drop_append_of_le_length hsize] at hdata
      have hcount : (held.drop size).length + ready.length = held.length + ready.length - size := by
        omega
      rw [hcount]
      exact hdata

end RingBuffer

end Hev
