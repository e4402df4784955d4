import DtmaOne.Hev.MappedDns
import DtmaOne.Dns.Answer
import Mathlib.Data.List.TakeWhile

/-!
# The answers with mapped addresses

`handle` is `hev_mapped_dns_handle`: it copies the request to the response, asks the table for the
name of every question for an address, and adds one record for each.  The request is the first `qlen`
bytes of a memory, and a read or a write outside a memory is an error.

The table is a parameter of `handle`: it is run over the table with its pointers, and over the cache
the table stands for.
-/

namespace Hev

namespace MappedDns

open DnsMessage

/-! ### The handler -/

/-- The bytes from `i` up to the first zero. -/
def cString (mem : List UInt8) (i : ℕ) : Option (List UInt8) :=
  let s := (mem.drop i).takeWhile (· ≠ 0)
  if i + s.length < mem.length then some s else none

/-- `read_u16` -/
def readU16 (p : List UInt8) (i : ℕ) : Option UInt16 :=
  match p[i]?, p[i + 1]? with
  | some hi, some lo => some (uint16Of hi lo)
  | _, _ => none

/-- The loop over the labels of a name, which writes dots over their lengths; the inner result is
absent when the name leaves the request. -/
def skipLabels (qlen : ℕ) (rb : List UInt8) (off : ℕ) : Option (Option (List UInt8 × ℕ)) :=
  match rb[off]? with
  | none => none
  | some n =>
      if n = 0 then some (some (rb, off))
      else if qlen ≤ off + 1 + n.toNat then some none
      else skipLabels qlen (rb.set off 46) (off + 1 + n.toNat)
  termination_by qlen - off

/-- What a round of the loop over the questions reads from the request, from the offset `off` on: the
request with the dots in it, the offset after the question, and its name if it is for an address; the
inner result is absent when the question leaves the request. -/
def readQuestion (qlen : ℕ) (rb : List UInt8) (off : ℕ) :
    Option (Option (List UInt8 × ℕ × Option (List UInt8))) :=
  (skipLabels qlen rb off).bind fun
    | none => some none
    | some (rb, last) =>
        if qlen ≤ last + 1 + 3 then some none
        else
          (readU16 rb (last + 1)).bind fun type => (readU16 rb (last + 3)).bind fun cls =>
            if type = 1 ∧ cls = 1 then
              (cString rb (off + 1)).map fun name => some (rb, last + 5, some name)
            else some (some (rb, last + 5, none))

/-- The state of the loop over the questions: the request, the offset, and the arrays `ipo` and
`ips`. -/
structure Scan where
  rb : List UInt8
  off : ℕ
  ips : List (ℕ × BitVec 32)

section

variable {σ : Type} (find : ℕ → σ → List UInt8 → Option (σ × Option ℕ)) (net : BitVec 32)

/-- One round of the loop over the questions. -/
def question (qlen i : ℕ) (self : σ) (s : Scan) : Option (σ × Option Scan) :=
  (readQuestion qlen s.rb s.off).bind fun
    | none => some (self, none)
    | some (rb, off, none) => some (self, some { s with rb := rb, off := off })
    | some (rb, off, some name) =>
        (find i self name).map fun
          | (self, some idx) =>
              (self, some ⟨rb, off, s.ips ++ [(s.off, net ||| BitVec.ofNat 32 idx)]⟩)
          | (self, none) => (self, some { s with rb := rb, off := off })

/-- The loop over `n` questions, the first of which has the number `i`. -/
def questions (qlen : ℕ) : ℕ → ℕ → σ → Scan → Option (σ × Option Scan)
  | 0, _, self, s => some (self, some s)
  | n + 1, i, self, s =>
      (question find net qlen i self s).bind fun
        | (self, none) => some (self, none)
        | (self, some s) => questions qlen n (i + 1) self s

/-- The answer for the question at `ipo`. -/
def record16 (ipo : ℕ) (ip : BitVec 32) : List UInt8 :=
  [0xc0, UInt8.ofNat ipo] ++ uint16Bytes 1 ++ uint16Bytes 1 ++ uint32Bytes 1 ++ uint16Bytes 4
    ++ uint32Bytes (UInt32.ofBitVec ip)

/-- The loop over the answers; the result is absent when the response has no room for them. -/
def answers : List (ℕ × BitVec 32) → List UInt8 → ℕ → Option (List UInt8 × ℕ)
  | [], sb, off => some (sb, off)
  | (ipo, ip) :: ips, sb, off =>
      if sb.length ≤ off + 15 then none
      else answers ips (sb.take off ++ record16 ipo ip ++ sb.drop (off + 16)) (off + 16)

/-- The flags of the response: it is one, and recursion is available if it was desired. -/
def responseFlags (fl : UInt16) : UInt16 :=
  fl ||| (0x8000 : UInt16) ||| ((fl &&& (0x100 : UInt16)) >>> (1 : UInt16))

/-- `hev_mapped_dns_handle`: `req` is the memory from the request on, of which it has `qlen` bytes,
and `res` is the memory of the response.  The response is absent for the result `-1`. -/
def handle (self : σ) (req : List UInt8) (qlen : ℕ) (res : List UInt8) :
    Option (σ × Option (List UInt8)) :=
  if res.length < qlen then some (self, none)
  else if req.length < qlen ∨ res.length < 12 then none
  else
    (readU16 req 4).bind fun qd =>
      let sb := req.take qlen ++ res.drop qlen
      (readU16 sb 2).bind fun fl =>
        if 32 < qd.toNat then some (self, none)
        else
          (questions find net qlen qd.toNat 0 self ⟨req, 12, []⟩).map fun
            | (self, none) => (self, none)
            | (self, some s) =>
                (self, (answers s.ips sb s.off).map fun (sb, off) =>
                  (sb.take 2 ++ uint16Bytes (responseFlags fl) ++ (sb.drop 4).take 2
                    ++ uint16Bytes (UInt16.ofNat s.ips.length) ++ [0, 0, 0, 0]
                    ++ sb.drop 12).take off)

end

/-! ### The memories are large enough -/

/-- The bytes of a string that ends in a zero. -/
theorem cString_append {pre str post : List UInt8} (hstr : 0 ∉ str) :
  cString (pre ++ str ++ 0 :: post) pre.length = some str
  := by
  have hne : ∀ b ∈ str, decide (b ≠ 0) = true := by
    rintro b hb
    rw [decide_eq_true_eq]
    rintro rfl
    exact hstr hb
  have htake : ((pre ++ str ++ 0 :: post).drop pre.length).takeWhile (· ≠ 0) = str := by
    rw [List.append_assoc, List.drop_left, List.takeWhile_append_of_pos hne]
    simp
  rw [cString, htake, if_pos (by simp)]

/-- A string with a zero after it can be read. -/
theorem cString_isSome {mem : List UInt8} {i j : ℕ} (hij : i ≤ j) (hj : mem[j]? = some 0) :
  ∃ str, cString mem i = some str
  := by
  obtain ⟨hlt, hget⟩ := List.getElem?_eq_some_iff.mp hj
  have hdrop : (mem.drop i).takeWhile (· ≠ 0)
      = ((mem.drop i).take (j - i) ++ 0 :: mem.drop (j + 1)).takeWhile (· ≠ 0) := by
    congr 1
    rw [← hget, ← List.drop_eq_getElem_cons, ← Nat.add_sub_cancel' hij, ← List.drop_drop,
      Nat.add_sub_cancel_left, List.take_append_drop]
  have hshort : ((mem.drop i).takeWhile (· ≠ 0)).length ≤ j - i := by
    have htake := List.length_take_le (j - i) (mem.drop i)
    rw [hdrop, List.takeWhile_append]
    split
    · simp
    · exact (List.takeWhile_prefix _).length_le.trans htake
  exact ⟨_, if_pos (by omega)⟩

/-- The loop over the labels begins in the memory, stays in the request and ends at a zero. -/
theorem skipLabels_isSome {qlen : ℕ} {rb : List UInt8} {off : ℕ} (hoff : off < rb.length)
    (hlen : qlen ≤ rb.length) :
  ∃ r, skipLabels qlen rb off = some r ∧ ∀ rb' off', r = some (rb', off') →
    off ≤ off' ∧ rb'.length = rb.length ∧ rb'[off']? = some 0
  := by
  induction rb, off using skipLabels.induct qlen with
  | case1 rb off hnone =>
      rw [List.getElem?_eq_none_iff] at hnone
      omega
  | case2 rb off hzero =>
      rw [skipLabels, hzero]
      refine ⟨_, rfl, ?_⟩
      rintro rb' off' ⟨⟩
      exact ⟨le_rfl, rfl, hzero⟩
  | case3 rb off n hn hne hle =>
      rw [skipLabels, hn]
      dsimp only
      rw [if_neg hne, if_pos hle]
      exact ⟨none, rfl, nofun⟩
  | case4 rb off n hn hne hlt ih =>
      rw [skipLabels, hn]
      dsimp only
      rw [if_neg hne, if_neg hlt]
      obtain ⟨r, hr, hspec⟩ := ih (by rw [List.length_set]; omega) (by rwa [List.length_set])
      refine ⟨r, hr, ?_⟩
      intro rb' off' heq
      obtain ⟨hle, hlength, hzero⟩ := hspec rb' off' heq
      rw [List.length_set] at hlength
      exact ⟨by omega, hlength, hzero⟩

/-- A number in the memory can be read; the first byte of a one is zero. -/
theorem readU16_isSome {p : List UInt8} {i : ℕ} (hi : i + 1 < p.length) :
  ∃ v, readU16 p i = some v ∧ (v = 1 → p[i]? = some 0)
  := by
  refine ⟨uint16Of p[i] p[i + 1], ?_, ?_⟩
  · rw [readU16, List.getElem?_eq_getElem (by omega), List.getElem?_eq_getElem hi]
  · intro hv
    have hnat := congrArg UInt16.toNat hv
    rw [toNat_uint16Of] at hnat
    have hzero : p[i].toNat = (0 : UInt8).toNat := by
      have hone : (1 : UInt16).toNat = 1 := rfl
      have hzero : (0 : UInt8).toNat = 0 := rfl
      omega
    rw [List.getElem?_eq_getElem (by omega), UInt8.toNat_inj.mp hzero]

/-- A question that begins in the memory is read from the bytes of the request. -/
theorem readQuestion_isSome {qlen : ℕ} {rb : List UInt8} {off : ℕ} (hoff : off < rb.length)
    (hlen : qlen ≤ rb.length) :
  ∃ r, readQuestion qlen rb off = some r ∧ ∀ rb' off' name, r = some (rb', off', name) →
    off' ≤ qlen ∧ rb'.length = rb.length
  := by
  obtain ⟨r, hr, hspec⟩ := skipLabels_isSome hoff hlen
  rw [readQuestion, hr, Option.bind_some]
  obtain _ | ⟨rb', last⟩ := r
  · exact ⟨none, rfl, nofun⟩
  · obtain ⟨hle, hlength, hzero⟩ := hspec rb' last rfl
    dsimp only
    by_cases hend : qlen ≤ last + 1 + 3
    · rw [if_pos hend]
      exact ⟨none, rfl, nofun⟩
    · obtain ⟨type, htype, hone⟩ := readU16_isSome (p := rb') (i := last + 1) (by omega)
      obtain ⟨cls, hcls, -⟩ := readU16_isSome (p := rb') (i := last + 3) (by omega)
      rw [if_neg hend, htype, Option.bind_some, hcls, Option.bind_some]
      by_cases haddress : type = 1 ∧ cls = 1
      · -- the name ends at the zero of the root, or at the type when it is the root itself
        obtain ⟨j, hj, hjzero⟩ : ∃ j, off + 1 ≤ j ∧ rb'[j]? = some 0 := by
          rcases Nat.lt_or_eq_of_le hle with hlt | rfl
          · exact ⟨last, hlt, hzero⟩
          · exact ⟨off + 1, le_rfl, hone haddress.1⟩
        obtain ⟨name, hname⟩ := cString_isSome hj hjzero
        rw [if_pos haddress, hname]
        refine ⟨_, rfl, ?_⟩
        rintro rb'' off' name' ⟨⟩
        exact ⟨by omega, hlength⟩
      · rw [if_neg haddress]
        refine ⟨_, rfl, ?_⟩
        rintro rb'' off' name' ⟨⟩
        exact ⟨by omega, hlength⟩

/-- A question that begins behind the memory cannot be read. -/
theorem readQuestion_eq_none {rb : List UInt8} {off : ℕ} (hoff : rb.length ≤ off) (qlen : ℕ) :
  readQuestion qlen rb off = none
  := by
  have hnone : rb[off]? = none := List.getElem?_eq_none_iff.mpr hoff
  rw [readQuestion, skipLabels, hnone]
  rfl

/-- Each of `n` questions from the offset `off` on begins in the memory, if none before it leaves the
request.  The source does not check it. -/
def Begins (qlen : ℕ) : ℕ → List UInt8 → ℕ → Prop
  | 0, _, _ => True
  | n + 1, rb, off =>
      off < rb.length ∧
        match readQuestion qlen rb off with
        | some (some (rb, off, _)) => Begins qlen n rb off
        | _ => True

/-- The memories hold the request, the headers and the first byte of each question that the request
announces; a request with more than 32 questions is not read, and one that is longer than the response
not at all. -/
def Covered (req : List UInt8) (qlen : ℕ) (res : List UInt8) : Prop :=
  res.length < qlen ∨ qlen ≤ req.length ∧ 12 ≤ res.length
    ∧ ∃ qd, readU16 req 4 = some qd ∧ (qd.toNat ≤ 32 → Begins qlen qd.toNat req 12)

/-- A byte behind the request is enough. -/
theorem begins_of_lt {qlen : ℕ} (n : ℕ) {rb : List UInt8} {off : ℕ} (hoff : off < rb.length)
    (hlen : qlen < rb.length) :
  Begins qlen n rb off
  := by
  induction n generalizing rb off with
  | zero => trivial
  | succ n ih =>
      obtain ⟨r, hr, hspec⟩ := readQuestion_isSome hoff hlen.le
      refine ⟨hoff, ?_⟩
      rw [hr]
      obtain _ | ⟨rb', off', name⟩ := r
      · trivial
      · obtain ⟨hle, hlength⟩ := hspec rb' off' name rfl
        exact ih (by omega) (by omega)

theorem covered_of_lt {req : List UInt8} {qlen : ℕ} {res : List UInt8} (hreq : 12 < req.length)
    (hqlen : qlen < req.length) (hres : 12 ≤ res.length) :
  Covered req qlen res
  := by
  obtain ⟨qd, hqd, -⟩ := readU16_isSome (p := req) (i := 4) (by omega)
  exact .inr ⟨hqlen.le, hres, qd, hqd, fun _ => begins_of_lt qd.toNat hreq hqlen⟩

/-- A header that announces a question is not enough. -/
example : ¬ Covered [0, 7, 1, 0, 0, 1, 0, 0, 0, 0, 0, 0] 12 (List.replicate 64 0)
  := by
  rintro (h | ⟨-, -, qd, hqd, h⟩)
  · simp at h
  · obtain rfl := Option.some.inj hqd
    exact absurd (h (by decide)).1 (by decide)

/-- A table without pointers, as one that never fails. -/
def always {τ : Type} (request : ℕ → τ → List UInt8 → τ × Option ℕ) (i : ℕ) (t : τ)
    (name : List UInt8) : Option (τ × Option ℕ) :=
  some (request i t name)

section

variable {τ : Type} {request : ℕ → τ → List UInt8 → τ × Option ℕ} {net : BitVec 32}

/-- A round over the questions goes where the question that is read ends. -/
theorem question_always (request : ℕ → τ → List UInt8 → τ × Option ℕ) (net : BitVec 32) (i : ℕ)
    (t : τ) {qlen : ℕ} {s : Scan} {r : Option (List UInt8 × ℕ × Option (List UInt8))}
    (hr : readQuestion qlen s.rb s.off = some r) :
  ∃ t' r', question (always request) net qlen i t s = some (t', r')
    ∧ r'.map (fun s => (s.rb, s.off)) = r.map fun q => (q.1, q.2.1)
  := by
  rw [question, hr, Option.bind_some]
  obtain _ | ⟨rb, off, _ | name⟩ := r
  · exact ⟨t, none, rfl, rfl⟩
  · exact ⟨t, some { s with rb := rb, off := off }, rfl, rfl⟩
  · dsimp only [always, Option.map_some]
    obtain ⟨t', _ | idx⟩ := request i t name
    · exact ⟨t', some { s with rb := rb, off := off }, rfl, rfl⟩
    · exact ⟨t', some ⟨rb, off, _⟩, rfl, rfl⟩

/-- The loop over the questions stays in the memory exactly if they begin in it. -/
theorem questions_isSome_iff {qlen n i : ℕ} {t : τ} {s : Scan} (hlen : qlen ≤ s.rb.length) :
  (questions (always request) net qlen n i t s).isSome ↔ Begins qlen n s.rb s.off
  := by
  induction n generalizing i t s with
  | zero => simp [questions, Begins]
  | succ n ih =>
      by_cases hoff : s.off < s.rb.length
      · obtain ⟨r, hr, hspec⟩ := readQuestion_isSome hoff hlen
        obtain ⟨t', r', hround, hmap⟩ := question_always request net i t hr
        rw [questions, hround, Option.bind_some, Begins, hr]
        obtain _ | ⟨rb, off, name⟩ := r
        · obtain rfl := Option.map_eq_none_iff.mp hmap
          simp [hoff]
        · obtain ⟨s', rfl, hs'⟩ := Option.map_eq_some_iff.mp hmap
          obtain ⟨hrb, hoff'⟩ := Prod.mk.inj hs'
          obtain ⟨-, hlength⟩ := hspec rb off name rfl
          dsimp only at hrb hoff' ⊢
          rw [ih (by rw [hrb, hlength]; exact hlen), hrb, hoff', and_iff_right hoff]
      · rw [questions, question, readQuestion_eq_none (not_lt.mp hoff)]
        simp [Begins, hoff]

/-- The handler reads and writes no byte but those of the request and of the response exactly if they
hold the headers and the beginnings of the questions. -/
theorem handle_isSome_iff (request : ℕ → τ → List UInt8 → τ × Option ℕ) (net : BitVec 32) (t : τ)
    (req : List UInt8) (qlen : ℕ) (res : List UInt8) :
  (handle (always request) net t req qlen res).isSome ↔ Covered req qlen res
  := by
  rw [handle, Covered]
  by_cases hroom : res.length < qlen
  · simp [hroom]
  · rw [if_neg hroom, or_iff_right hroom]
    by_cases hout : req.length < qlen ∨ res.length < 12
    · rw [if_pos hout]
      refine iff_of_false nofun ?_
      rintro ⟨hreq, hres, -⟩
      omega
    · rw [if_neg hout]
      cases hqd : readU16 req 4 with
      | none => exact iff_of_false nofun fun h => by simp at h
      | some qd =>
          obtain ⟨fl, hfl, -⟩ := readU16_isSome (p := req.take qlen ++ res.drop qlen) (i := 2) (by
            simp only [List.length_append, List.length_take, List.length_drop]
            omega)
          have hmemories : qlen ≤ req.length ∧ 12 ≤ res.length := by omega
          rw [Option.bind_some]
          dsimp only
          rw [hfl, Option.bind_some]
          by_cases hmany : 32 < qd.toNat
          · rw [if_pos hmany]
            refine iff_of_true rfl ⟨hmemories.1, hmemories.2, qd, rfl, ?_⟩
            intro hfew
            omega
          · rw [if_neg hmany, Option.isSome_map, questions_isSome_iff hmemories.1]
            constructor
            · intro hbegins
              exact ⟨hmemories.1, hmemories.2, qd, rfl, fun _ => hbegins⟩
            · rintro ⟨-, -, qd', hqd', hbegins⟩
              obtain rfl := Option.some.inj hqd'
              exact hbegins (by omega)

/-! ### The handler over two tables -/

/-- The table that `find` is asked of answers as the one that `request` is asked of, and stays related
to it. -/
def Simulates {σ : Type} (R : σ → τ → Prop) (find : ℕ → σ → List UInt8 → Option (σ × Option ℕ))
    (request : ℕ → τ → List UInt8 → τ × Option ℕ) : Prop :=
  ∀ i s t name, R s t →
    ∃ s', find i s name = some (s', (request i t name).2) ∧ R s' (request i t name).1

variable {σ : Type} {R : σ → τ → Prop} {find : ℕ → σ → List UInt8 → Option (σ × Option ℕ)}

theorem Simulates.question (h : Simulates R find request) {qlen i : ℕ} {s : σ} {t t' : τ}
    {scan : Scan} {r : Option Scan} (hst : R s t)
    (ht : question (always request) net qlen i t scan = some (t', r)) :
  ∃ s', MappedDns.question find net qlen i s scan = some (s', r) ∧ R s' t'
  := by
  rw [MappedDns.question, Option.bind_eq_some_iff] at ht
  obtain ⟨_ | ⟨rb, off, _ | name⟩, hread, ht⟩ := ht
  · cases ht
    exact ⟨s, by rw [MappedDns.question, hread]; rfl, hst⟩
  · cases ht
    exact ⟨s, by rw [MappedDns.question, hread]; rfl, hst⟩
  · obtain ⟨s', hs', hst'⟩ := h i s t name hst
    dsimp only [always, Option.map_some] at ht
    rw [MappedDns.question, hread, Option.bind_some]
    dsimp only
    rw [hs']
    generalize request i t name = answer at ht hst' ⊢
    obtain ⟨t'', _ | idx⟩ := answer
    · cases ht
      exact ⟨s', rfl, hst'⟩
    · cases ht
      exact ⟨s', rfl, hst'⟩

theorem Simulates.questions (h : Simulates R find request) {qlen n i : ℕ} {s : σ} {t t' : τ}
    {scan : Scan} {r : Option Scan} (hst : R s t)
    (ht : questions (always request) net qlen n i t scan = some (t', r)) :
  ∃ s', MappedDns.questions find net qlen n i s scan = some (s', r) ∧ R s' t'
  := by
  induction n generalizing i s t scan with
  | zero =>
      cases ht
      exact ⟨s, rfl, hst⟩
  | succ n ih =>
      rw [MappedDns.questions, Option.bind_eq_some_iff] at ht
      obtain ⟨⟨t₁, _ | scan'⟩, hround, ht⟩ := ht
      · cases ht
        obtain ⟨s₁, hs₁, hst₁⟩ := h.question hst hround
        exact ⟨s₁, by rw [MappedDns.questions, hs₁]; rfl, hst₁⟩
      · obtain ⟨s₁, hs₁, hst₁⟩ := h.question hst hround
        obtain ⟨s', hs', hst'⟩ := ih hst₁ ht
        exact ⟨s', by rw [MappedDns.questions, hs₁]; exact hs', hst'⟩

/-- Over related tables the handler gives the same response. -/
theorem Simulates.handle (h : Simulates R find request) {req : List UInt8} {qlen : ℕ}
    {res : List UInt8} {s : σ} {t t' : τ} {r : Option (List UInt8)} (hst : R s t)
    (ht : handle (always request) net t req qlen res = some (t', r)) :
  ∃ s', MappedDns.handle find net s req qlen res = some (s', r) ∧ R s' t'
  := by
  rw [MappedDns.handle] at ht ⊢
  by_cases hroom : res.length < qlen
  · rw [if_pos hroom] at ht ⊢
    cases ht
    exact ⟨s, rfl, hst⟩
  · rw [if_neg hroom] at ht ⊢
    by_cases hout : req.length < qlen ∨ res.length < 12
    · rw [if_pos hout] at ht
      cases ht
    · rw [if_neg hout] at ht ⊢
      obtain ⟨qd, hqd, ht⟩ := Option.bind_eq_some_iff.mp ht
      obtain ⟨fl, hfl, ht⟩ := Option.bind_eq_some_iff.mp ht
      rw [hqd, Option.bind_some]
      dsimp only
      rw [hfl, Option.bind_some]
      by_cases hmany : 32 < qd.toNat
      · rw [if_pos hmany] at ht ⊢
        cases ht
        exact ⟨s, rfl, hst⟩
      · rw [if_neg hmany, Option.map_eq_some_iff] at ht
        obtain ⟨⟨t₁, _ | scan⟩, hscan, ht⟩ := ht
        · cases ht
          obtain ⟨s₁, hs₁, hst₁⟩ := h.questions hst hscan
          exact ⟨s₁, by rw [if_neg hmany, hs₁]; rfl, hst₁⟩
        · cases ht
          obtain ⟨s₁, hs₁, hst₁⟩ := h.questions hst hscan
          exact ⟨s₁, by rw [if_neg hmany, hs₁]; rfl, hst₁⟩

end

/-! ### A request with one question -/

/-- The labels of a name with a dot before each. -/
def dots (labels : List (Label 63)) : List UInt8 := labels.flatMap fun l => 46 :: l.text

/-- The name that the table is asked for. -/
def dotted (labels : List (Label 63)) : List UInt8 := (dots labels).tail

/-- The loop over the labels of a name writes a dot over the length of each. -/
theorem skipLabels_encode {labels : List (Label 63)} {qlen : ℕ} {pre post : List UInt8}
    (hqlen : pre.length + (labels.flatMap Label.encode).length < qlen) :
  skipLabels qlen (pre ++ labels.flatMap Label.encode ++ 0 :: post) pre.length
    = some (some (pre ++ dots labels ++ 0 :: post,
        pre.length + (labels.flatMap Label.encode).length))
  := by
  induction labels generalizing pre with
  | nil =>
      rw [skipLabels]
      simp [dots]
  | cons l ls ih =>
      have hbound := l.bounded
      have hpos := l.nonempty
      have hlength : (UInt8.ofNat l.text.length).toNat = l.text.length :=
        Label.toNat_length (by decide) l
      have hne : UInt8.ofNat l.text.length ≠ 0 := by
        intro hzero
        rw [hzero] at hlength
        simp at hlength
        omega
      rw [List.flatMap_cons, List.length_append, Label.encode, List.length_cons] at hqlen
      have hmem : pre ++ (l :: ls).flatMap Label.encode ++ 0 :: post
          = pre ++ UInt8.ofNat l.text.length :: (l.text ++ ls.flatMap Label.encode ++ 0 :: post) := by
        simp [Label.encode]
      have hset : (pre ++ UInt8.ofNat l.text.length ::
            (l.text ++ ls.flatMap Label.encode ++ 0 :: post)).set pre.length 46
          = (pre ++ 46 :: l.text) ++ ls.flatMap Label.encode ++ 0 :: post := by
        simp
      have hoff : pre.length + 1 + l.text.length = (pre ++ 46 :: l.text).length := by
        simp
        omega
      rw [hmem, skipLabels, List.getElem?_append_right le_rfl, Nat.sub_self,
        List.getElem?_cons_zero]
      dsimp only
      rw [if_neg hne, hlength, if_neg (by omega), hset, hoff, ih (by rw [← hoff]; omega)]
      simp [dots, Label.encode]
      omega

/-- A number reads back from its bytes. -/
theorem readU16_append (pre post : List UInt8) (v : UInt16) :
  readU16 (pre ++ uint16Bytes v ++ post) pre.length = some v
  := by
  have hv := v.toNat_lt
  have hhi : (pre ++ uint16Bytes v ++ post)[pre.length]? = some (UInt8.ofNat (v.toNat / 256)) := by
    simp [uint16Bytes]
  have hlo : (pre ++ uint16Bytes v ++ post)[pre.length + 1]?
      = some (UInt8.ofNat (v.toNat % 256)) := by
    simp [uint16Bytes]
  rw [readU16, hhi, hlo]
  dsimp only
  rw [Option.some_inj, ← UInt16.toNat_inj, toNat_uint16Of, UInt8.toNat_ofNat', UInt8.toNat_ofNat']
  omega

/-- The name of a question is read with dots between its labels. -/
theorem cString_dots {labels : List (Label 63)} {pre post : List UInt8}
    (hzero : ∀ l ∈ labels, 0 ∉ l.text) :
  cString (pre ++ dots labels ++ 0 :: 0 :: post) (pre.length + 1) = some (dotted labels)
  := by
  cases labels with
  | nil =>
      have hmem : pre ++ dots [] ++ 0 :: 0 :: post = (pre ++ [0]) ++ [] ++ 0 :: post := by
        simp [dots]
      have hlen : pre.length + 1 = (pre ++ [(0 : UInt8)]).length := by simp
      rw [hmem, hlen, cString_append (by simp)]
      rfl
  | cons l ls =>
      have hmem : pre ++ dots (l :: ls) ++ 0 :: 0 :: post
          = (pre ++ [46]) ++ dotted (l :: ls) ++ 0 :: 0 :: post := by
        simp [dotted, dots]
      have hlen : pre.length + 1 = (pre ++ [(46 : UInt8)]).length := by simp
      have hnot : 0 ∉ dotted (l :: ls) := by
        intro h
        have h := List.mem_of_mem_tail h
        simp only [dots, List.mem_flatMap, List.mem_cons] at h
        obtain ⟨l', hl', h | h⟩ := h
        · cases h
        · exact hzero l' (List.mem_cons.mpr hl') h
      rw [hmem, hlen, cString_append hnot]

/-- A question for an address is read to its end. -/
theorem readQuestion_encode {labels : List (Label 63)} (qlen : ℕ) (pre post : List UInt8)
    (hzero : ∀ l ∈ labels, 0 ∉ l.text)
    (hqlen : pre.length + (labels.flatMap Label.encode).length + 5 ≤ qlen) :
  ∃ rb, readQuestion qlen
      (pre ++ (labels.flatMap Label.encode ++ 0 :: (uint16Bytes 1 ++ uint16Bytes 1 ++ post)))
      pre.length
    = some (some (rb, pre.length + (labels.flatMap Label.encode).length + 5,
        some (dotted labels)))
  := by
  have hlen : (dots labels).length = (labels.flatMap Label.encode).length := by
    simp [dots, Label.encode, List.length_flatMap]
  have hbytes : uint16Bytes 1 ++ uint16Bytes 1 ++ post = 0 :: 1 :: 0 :: 1 :: post := rfl
  let rb := pre ++ dots labels ++ 0 :: (uint16Bytes 1 ++ uint16Bytes 1 ++ post)
  have htype : readU16 rb (pre.length + (labels.flatMap Label.encode).length + 1) = some 1 := by
    have h := readU16_append (pre ++ dots labels ++ [0]) (uint16Bytes 1 ++ post) 1
    simp only [List.length_append, List.length_singleton, hlen] at h
    rw [← h]
    simp [rb]
  have hcls : readU16 rb (pre.length + (labels.flatMap Label.encode).length + 3) = some 1 := by
    have h := readU16_append (pre ++ dots labels ++ 0 :: uint16Bytes 1) post 1
    simp only [List.length_append, List.length_cons, hlen] at h
    rw [← h]
    simp [rb, uint16Bytes]
  refine ⟨rb, ?_⟩
  rw [readQuestion, ← List.append_assoc, skipLabels_encode (by omega), Option.bind_some]
  dsimp only
  rw [if_neg (by omega), htype, Option.bind_some, hcls, Option.bind_some, if_pos ⟨rfl, rfl⟩, hbytes,
    cString_dots hzero]
  rfl

/-- The first byte of a pointer to a name. -/
theorem pointer_tagged : 192 ≤ (0xc0 : UInt8).toNat
  := by decide

/-- The answer with an address for the name of the question. -/
def mapped (ip : BitVec 32) : Record 63 where
  owner := ⟨[], .pointer 0xc0 12 pointer_tagged⟩
  type := 1
  cls := 1
  ttl := 1
  rdata := uint32Bytes (UInt32.ofBitVec ip)
  size := by simp [uint32Bytes]

/-- The response to a request with one question. -/
def respond (m : Message) (ip : BitVec 32) : Message :=
  { m with
    flags := responseFlags m.flags
    answers := [mapped ip]
    nsCount := 0
    arCount := 0
    rest := []
    counted := by simp }

/-- The record of the answer to a first question. -/
theorem encode_mapped (ip : BitVec 32) :
  (mapped ip).encode = record16 12 ip
  := by
  simp [mapped, Record.encode, Record.head, Record.fixed, Name.encode, NameEnd.encode, record16,
    uint16Bytes, uint32Bytes]

/-- The loop over the questions of a request with one. -/
theorem questions_encode
    {σ : Type} {find : ℕ → σ → List UInt8 → Option (σ × Option ℕ)} (net : BitVec 32) {m : Message}
    (hq : m.qtype = 1 ∧ m.qclass = 1) (hzero : ∀ l ∈ m.question, 0 ∉ l.text) {s s' : σ} {idx : ℕ}
    (hfind : find 0 s (dotted m.question) = some (s', some idx)) (after : List UInt8) :
  ∃ rb, questions find net m.encode.length 1 0 s ⟨m.encode ++ after, 12, []⟩
    = some (s', some ⟨rb, m.preamble.length, [(12, net ||| BitVec.ofNat 32 idx)]⟩)
  := by
  have hlength : m.preamble.length
      = 12 + (m.question.flatMap Label.encode).length + 5 := by
    simp [Message.preamble, Message.questionBytes, Name.encode, NameEnd.encode, uint16Bytes]
    omega
  have hencode : m.encode ++ after = m.header ++ (m.question.flatMap Label.encode
      ++ 0 :: (uint16Bytes 1 ++ uint16Bytes 1
        ++ (m.answers.flatMap Record.encode ++ m.rest ++ after))) := by
    simp [Message.encode, Message.preamble, Message.questionBytes, Name.encode, NameEnd.encode, hq]
  have hqlen : m.preamble.length ≤ m.encode.length := by
    simp [Message.encode]
  obtain ⟨rb, hread⟩ := readQuestion_encode m.encode.length m.header
    (m.answers.flatMap Record.encode ++ m.rest ++ after) hzero (by rw [m.length_header]; omega)
  rw [← hencode, m.length_header, ← hlength] at hread
  use rb
  rw [questions, question, hread, Option.bind_some]
  dsimp only
  rw [hfind]
  rfl

theorem encode_respond (m : Message) (ip : BitVec 32) :
  (respond m ip).encode = uint16Bytes m.id ++ uint16Bytes (responseFlags m.flags) ++ uint16Bytes 1
    ++ uint16Bytes 1 ++ [0, 0, 0, 0] ++ m.questionBytes ++ record16 12 ip
  := by
  have hquestion : (respond m ip).questionBytes = m.questionBytes := rfl
  rw [Message.encode, Message.preamble, hquestion]
  simp [respond, Message.header, encode_mapped, uint16Bytes]

/-- The header of the response is written over that of the request. -/
theorem finish_encode (m : Message) (ip : BitVec 32) (rest : List UInt8) :
  ((m.preamble ++ record16 12 ip ++ rest).take 2 ++ uint16Bytes (responseFlags m.flags)
      ++ ((m.preamble ++ record16 12 ip ++ rest).drop 4).take 2 ++ uint16Bytes (UInt16.ofNat 1)
      ++ [0, 0, 0, 0] ++ (m.preamble ++ record16 12 ip ++ rest).drop 12).take (m.preamble.length + 16)
    = (respond m ip).encode
  := by
  have hlength : (respond m ip).encode.length = m.preamble.length + 16 := by
    simp [encode_respond, Message.preamble, record16, uint16Bytes, uint32Bytes]
    omega
  have hbytes : (m.preamble ++ record16 12 ip ++ rest).take 2 ++ uint16Bytes (responseFlags m.flags)
        ++ ((m.preamble ++ record16 12 ip ++ rest).drop 4).take 2 ++ uint16Bytes (UInt16.ofNat 1)
        ++ [0, 0, 0, 0] ++ (m.preamble ++ record16 12 ip ++ rest).drop 12
      = (respond m ip).encode ++ rest := by
    rw [encode_respond]
    simp [Message.preamble, Message.header, uint16Bytes]
  rw [← hlength, hbytes, List.take_left]

/-- The response to a request for the address of one name: the number that the table gives it, in the
network. -/
theorem handle_encode
    {σ : Type} {find : ℕ → σ → List UInt8 → Option (σ × Option ℕ)} (net : BitVec 32) {m : Message}
    (hq : m.qtype = 1 ∧ m.qclass = 1) (hzero : ∀ l ∈ m.question, 0 ∉ l.text) {s s' : σ} {idx : ℕ}
    (hfind : find 0 s (dotted m.question) = some (s', some idx)) (after : List UInt8)
    {res : List UInt8}
    (hroom : m.encode.length ≤ res.length) (hspace : m.preamble.length + 16 ≤ res.length) :
  handle find net s (m.encode ++ after) m.encode.length res
    = some (s', some (respond m (net ||| BitVec.ofNat 32 idx)).encode)
  := by
  obtain ⟨rb, hquestions⟩ := questions_encode net hq hzero hfind after
  have hqd : readU16 (m.encode ++ after) 4 = some 1 := by
    have h := readU16_append (uint16Bytes m.id ++ uint16Bytes m.flags)
      (uint16Bytes (UInt16.ofNat m.answers.length) ++ uint16Bytes m.nsCount
        ++ uint16Bytes m.arCount ++ m.questionBytes ++ m.answers.flatMap Record.encode ++ m.rest
        ++ after) 1
    rw [← h]
    simp [Message.encode, Message.preamble, Message.header, uint16Bytes]
  let rest := m.answers.flatMap Record.encode ++ m.rest ++ res.drop m.encode.length
  have hsb : (m.encode ++ after).take m.encode.length ++ res.drop m.encode.length
      = m.preamble ++ rest := by
    rw [List.take_left]
    simp [Message.encode, rest]
  have hfl : readU16 (m.preamble ++ rest) 2 = some m.flags := by
    have h := readU16_append (uint16Bytes m.id)
      (uint16Bytes 1 ++ uint16Bytes (UInt16.ofNat m.answers.length) ++ uint16Bytes m.nsCount
        ++ uint16Bytes m.arCount ++ m.questionBytes ++ rest) m.flags
    rw [← h]
    simp [Message.preamble, Message.header, uint16Bytes]
  have hanswers : answers [(12, net ||| BitVec.ofNat 32 idx)] (m.preamble ++ rest) m.preamble.length
      = some (m.preamble ++ record16 12 (net ||| BitVec.ofNat 32 idx) ++ rest.drop 16,
          m.preamble.length + 16) := by
    have hlen : (m.preamble ++ rest).length = res.length := by
      rw [← hsb]
      simp
      omega
    rw [answers, if_neg (by omega), List.take_left, ← List.drop_drop, List.drop_left]
    rfl
  have hheader : 12 ≤ m.preamble.length := by
    simp [Message.preamble]
  have hout : ¬ ((m.encode ++ after).length < m.encode.length ∨ res.length < 12) := by
    rw [List.length_append]
    omega
  have hone : (1 : UInt16).toNat = 1 := rfl
  rw [handle, if_neg (by omega), if_neg hout, hqd, Option.bind_some]
  dsimp only
  rw [hsb, hfl, Option.bind_some, if_neg (by decide), hone, hquestions, Option.map_some]
  dsimp only
  rw [hanswers, Option.map_some]
  dsimp only
  rw [List.length_singleton, finish_encode]

end MappedDns

end Hev
