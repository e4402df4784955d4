import DtmaOne.Warp.ConfText

/-!
# The endpoint of a registered device

`WarpEndpoint.resolve` makes an endpoint from the two fields of the registration answer.  The
result is a name or an address, a colon and a port, as long as the field it is taken from is
written with ASCII digits and has something before its colon, and the address is not an IPv6 one.
-/

namespace Warp.WarpEndpoint

/-! ### The form of an endpoint -/

/-- The string is `h:p`, where `h` is non-empty and has no colon, and `p` is a port in ASCII
digits. -/
def HasPort (s : String) : Prop :=
  ∃ h p : List Char, s.toList = h ++ ':' :: p ∧ h ≠ [] ∧ ':' ∉ h ∧ (∀ c ∈ p, c.isDigit = true) ∧
    1 ≤ Nat.ofDigitChars 10 p 0 ∧ Nat.ofDigitChars 10 p 0 ≤ 65535

theorem not_mem_of_isDigit {p : List Char} (hp : ∀ c ∈ p, c.isDigit = true) :
  ':' ∉ p
  := by
  intro hc
  have hdigit := hp ':' hc
  revert hdigit
  decide

theorem HasPort.count {s : String} (h : HasPort s) :
  s.toList.count ':' = 1
  := by
  obtain ⟨h, p, hs, -, hh, hp, -⟩ := h
  rw [hs, List.count_append, List.count_cons_self, List.count_eq_zero.mpr hh,
    List.count_eq_zero.mpr (not_mem_of_isDigit hp)]

/-- A name or an address with a port after a colon, if it has no colon itself. -/
theorem hasPort_append {host : String} {port : ℤ} (hhost : host ≠ "")
    (hport : validPort (some port) = true) :
  HasPort (host ++ ":" ++ toString port) ↔ ':' ∉ host.toList
  := by
  simp only [validPort, Option.any_some, decide_eq_true_eq] at hport
  obtain ⟨hlo, hhi⟩ := hport
  have hdigits : (toString port).toList = Nat.toDigits 10 port.toNat := by
    rw [Int.toString_eq_repr, Int.repr_eq_if, if_pos (by omega), Nat.toList_repr]
  have hlist : (host ++ ":" ++ toString port).toList
      = host.toList ++ ':' :: Nat.toDigits 10 port.toNat := by
    rw [String.toList_append, String.toList_append, hdigits]
    simp
  have hdigit : ∀ c ∈ Nat.toDigits 10 port.toNat, c.isDigit = true := by
    intro c hc
    apply Nat.isDigit_of_mem_toDigits (by omega) (by omega) hc
  constructor
  · intro h
    have hcount := h.count
    rw [hlist, List.count_append, List.count_cons_self] at hcount
    apply List.count_eq_zero.mp
    omega
  · intro hnone
    refine ⟨host.toList, Nat.toDigits 10 port.toNat, hlist, ?_, hnone, hdigit, ?_⟩
    · simpa using hhost
    · rw [Nat.ofDigitChars_ten_toDigits]
      omega

/-! ### The fields -/

/-- The port in the host field. -/
def portFromHost (host : String) : Option ℤ :=
  if host.toList.count ':' = 1 then
    (Text.splitLast ':' host).bind fun parts => Text.toIntOrNull parts.2
  else none

/-- The host has a name before its colon, and ASCII digits after it. -/
def HostFits (host : String) : Prop :=
  ∃ name port, Text.splitLast ':' host = some (name, port) ∧ name ≠ "" ∧
    ∀ c ∈ port.toList, c.isDigit = true

/-- The address has no colon, or one with something before it and a number after it. -/
def AddressFits (address : String) : Prop :=
  ':' ∉ address.toList ∨
    address.toList.count ':' = 1 ∧ ∃ ip port, Text.splitLast ':' address = some (ip, port) ∧
      ip ≠ "" ∧ (Text.toIntOrNull port).isSome = true

/-- If the host has a valid port, it is well formed; if there is no name alone either, the address
is. -/
def FieldsFit (hostField v4Field : String) : Prop :=
  let host := Text.trim hostField
  if validPort (portFromHost host) then HostFits host
  else
    (¬ Text.isBlank host ∧ ':' ∉ host.toList) ∨
      AddressFits (Text.trim (Text.substringBefore '/' (Text.trim v4Field)))

/-! ### The branches -/

theorem isBlank_of_mem {c : Char} {s : String} (hc : c ∈ s.toList)
    (hwhite : Text.isWhitespace c = false) :
  Text.isBlank s = false
  := by
  rw [Text.isBlank, List.all_eq_false]
  use c, hc
  rw [hwhite]
  decide

/-- A host with a valid port has one colon and is read as the number after it. -/
theorem validPort_portFromHost {host : String} (h : validPort (portFromHost host) = true) :
  ∃ name port n, Text.splitLast ':' host = some (name, port) ∧ ':' ∉ name.toList ∧
    Text.toIntOrNull port = some n ∧ 1 ≤ n ∧ n ≤ 65535
  := by
  rw [portFromHost] at h
  split at h
  case isFalse => cases h
  case isTrue hcount =>
    cases hlast : Text.splitLast ':' host with
    | none =>
        rw [hlast] at h
        cases h
    | some parts =>
        obtain ⟨name, port⟩ := parts
        rw [hlast, Option.bind_some] at h
        obtain ⟨hlist, hport⟩ := Text.splitLast_eq_some.mp hlast
        rw [hlist, List.count_append, List.count_cons_self] at hcount
        cases hnumber : Text.toIntOrNull port with
        | none =>
            rw [hnumber] at h
            cases h
        | some n =>
            simp only [hnumber, validPort, Option.any_some, decide_eq_true_eq] at h
            refine ⟨name, port, n, rfl, ?_, hnumber, h⟩
            apply List.count_eq_zero.mp
            omega

/-- A number in ASCII digits is what the digits stand for. -/
theorem toIntOrNull_of_isDigit {port : String} {n : ℤ} (h : Text.toIntOrNull port = some n)
    (hport : ∀ c ∈ port.toList, c.isDigit = true) :
  n = Nat.ofDigitChars 10 port.toList 0
  := by
  have hsigned : Text.signed port.toList = Text.magnitude port.toList := by
    cases hlist : port.toList with
    | nil => rfl
    | cons c cs =>
        have hc : c.isDigit = true := hport c (hlist ▸ List.mem_cons_self)
        rw [Text.signed]
        · rintro cs' ⟨⟩
          revert hc
          decide
        · rintro cs' ⟨⟩
          revert hc
          decide
  rw [Text.toIntOrNull, Text.number, hsigned, Option.filter_eq_some_iff] at h
  obtain ⟨hmagnitude, -⟩ := h
  rw [Text.magnitude, Text.digits_of_isDigit _ _ hport] at hmagnitude
  split at hmagnitude
  · cases hmagnitude
  · simpa using hmagnitude.symm

/-- A host that is returned as it is. -/
theorem hasPort_host {host : String} (h : validPort (portFromHost host) = true) :
  HasPort host ↔ HostFits host
  := by
  obtain ⟨name, port, n, hlast, hname, hnumber, hlo, hhi⟩ := validPort_portFromHost h
  obtain ⟨hlist, hport⟩ := Text.splitLast_eq_some.mp hlast
  constructor
  · rintro ⟨h, p, hs, hne, hh, hp, -⟩
    rw [hlist] at hs
    obtain ⟨rfl, -, rfl⟩ := (List.append_cons_inj_of_notMem hname hport).mp hs
    use name, port, hlast
    constructor
    · simpa using hne
    · exact hp
  · rintro ⟨name', port', hlast', hne, hdigits⟩
    obtain ⟨rfl, rfl⟩ : name = name' ∧ port = port' := by
      simpa using hlast.symm.trans hlast'
    rw [toIntOrNull_of_isDigit hnumber hdigits] at hlo hhi
    use name.toList, port.toList, hlist
    refine ⟨by simpa using hne, hname, hdigits, ?_⟩
    omega

/-- `splitIpv4AndPort` returns an address without a colon, unless the text has colons it does not
take for the one before a port. -/
theorem not_mem_splitIpv4AndPort (raw : String) :
  ':' ∉ (splitIpv4AndPort raw).1.toList ↔ AddressFits (Text.trim raw)
  := by
  simp only [splitIpv4AndPort, AddressFits]
  cases hlast : Text.splitLast ':' (Text.trim raw) with
  | none => simp [Text.splitLast_eq_none.mp hlast]
  | some parts =>
      obtain ⟨ip, after⟩ := parts
      obtain ⟨hlist, hafter⟩ := Text.splitLast_eq_some.mp hlast
      have hmem : ':' ∈ (Text.trim raw).toList := by
        rw [hlist]
        simp
      have hcount : (Text.trim raw).toList.count ':' = 1 ↔ ':' ∉ ip.toList := by
        rw [hlist, List.count_append, List.count_cons_self, List.count_eq_zero.mpr hafter,
          ← List.count_eq_zero]
        omega
      rw [hcount]
      by_cases hempty : ip = ""
      · simp [hempty, hmem]
      · cases hnumber : Text.toIntOrNull after with
        | none => simp [hempty, hmem, hnumber]
        | some n =>
            by_cases hcolon : ':' ∈ ip.toList
            · simp [hempty, hmem, hnumber, hcolon]
            · simp [hempty, hmem, hnumber, hcolon]

/-! ### The result -/

/-- The branches of `resolve`. -/
theorem resolve_eq (hostField v4Field : String) :
  resolve hostField v4Field =
    let host := Text.trim hostField
    let v4 := Text.substringBefore '/' (Text.trim v4Field)
    if !Text.isBlank host && validPort (portFromHost host) then host
    else if !Text.isBlank host && ':' ∉ host.toList then host ++ ":2408"
    else
      let port :=
        if validPort (splitIpv4AndPort v4).2 then (splitIpv4AndPort v4).2.getD 2408
        else if validPort (portFromHost host) then (portFromHost host).getD 2408
        else 2408
      if !Text.isBlank v4 && !Text.isBlank (splitIpv4AndPort v4).1 then
        (splitIpv4AndPort v4).1 ++ ":" ++ toString port
      else "engage.cloudflareclient.com:2408"
  := by
  delta resolve portFromHost
  dsimp only

theorem isDigit_defaultPort :
  ∀ c ∈ "2408".toList, c.isDigit = true
  := List.all_eq_true.mp (by decide +kernel)

theorem hasPort_name {host : String} (hhost : host ≠ "") (hcolon : ':' ∉ host.toList) :
  HasPort (host ++ ":2408")
  := by
  refine ⟨host.toList, "2408".toList, ?_, ?_, hcolon, isDigit_defaultPort, ?_⟩
  · rw [String.toList_append]
    rfl
  · simpa using hhost
  · decide +kernel

theorem hasPort_default :
  HasPort "engage.cloudflareclient.com:2408"
  := by
  have hdefault : "engage.cloudflareclient.com:2408" = "engage.cloudflareclient.com" ++ ":2408" := by
    decide +kernel
  rw [hdefault]
  apply hasPort_name (by decide) (by decide +kernel)

theorem validPort_getD {p : Option ℤ} {n : ℤ} (h : validPort p = true) :
  validPort (some (p.getD n)) = true
  := by
  cases p with
  | none => cases h
  | some m => exact h

/-- What `splitIpv4AndPort` returns of a blank text has no colon. -/
theorem not_mem_of_isBlank {s : String} (h : Text.isBlank s = true) :
  ':' ∉ s.toList
  := by
  intro hc
  rw [isBlank_of_mem hc (by decide)] at h
  cases h

/-- An endpoint made of the address field, or the default one. -/
theorem hasPort_address {v4 : String} {port : ℤ} (hport : validPort (some port) = true) :
  HasPort (if !Text.isBlank v4 && !Text.isBlank (splitIpv4AndPort v4).1 then
      (splitIpv4AndPort v4).1 ++ ":" ++ toString port
    else "engage.cloudflareclient.com:2408")
    ↔ AddressFits (Text.trim v4)
  := by
  rw [← not_mem_splitIpv4AndPort]
  split
  case isTrue h =>
    rw [Bool.and_eq_true, Bool.not_eq_true', Bool.not_eq_true'] at h
    apply hasPort_append _ hport
    intro hempty
    rw [hempty] at h
    cases h.2
  case isFalse h =>
    apply iff_of_true hasPort_default
    by_cases hip : Text.isBlank (splitIpv4AndPort v4).1 = true
    · apply not_mem_of_isBlank hip
    · have hv4 : Text.isBlank v4 = true := by
        simpa [hip] using h
      rw [not_mem_splitIpv4AndPort]
      left
      intro hc
      apply not_mem_of_isBlank hv4
      apply Text.mem_of_mem_trim hc

/-- `resolve` returns a name or an address with a port in ASCII digits exactly for the fields that
fit. -/
theorem hasPort_resolve_iff (hostField v4Field : String) :
  HasPort (resolve hostField v4Field) ↔ FieldsFit hostField v4Field
  := by
  rw [resolve_eq, FieldsFit]
  dsimp only
  by_cases hvalid : validPort (portFromHost (Text.trim hostField)) = true
  · have hblank : Text.isBlank (Text.trim hostField) = false := by
      obtain ⟨name, port, -, hlast, -⟩ := validPort_portFromHost hvalid
      obtain ⟨hlist, -⟩ := Text.splitLast_eq_some.mp hlast
      apply isBlank_of_mem (c := ':')
      · rw [hlist]
        simp
      · decide
    rw [if_pos (by rw [hblank, hvalid]; rfl), if_pos hvalid]
    apply hasPort_host hvalid
  · rw [if_neg (by simp [hvalid])]
    by_cases hname : Text.isBlank (Text.trim hostField) = false ∧
        ':' ∉ (Text.trim hostField).toList
    · rw [if_pos (by simp [hname])]
      apply iff_of_true
      · apply hasPort_name _ hname.2
        intro hempty
        rw [hempty] at hname
        cases hname.1
      · rw [if_neg hvalid]
        left
        simpa using hname
    · rw [if_neg (by simpa using hname), if_neg hvalid, if_neg hvalid, hasPort_address]
      · simp only [Bool.not_eq_true]
        rw [or_iff_right hname]
      · split
        case isTrue h => exact validPort_getD h
        case isFalse h => decide

/-- An IPv6 address is joined with the default port. -/
theorem not_hasPort_resolve :
  resolve "" "2606:4700:d0::a29f:c001" = "2606:4700:d0::a29f:c001:2408" ∧
    ¬ HasPort (resolve "" "2606:4700:d0::a29f:c001")
  := by
  constructor
  · decide +kernel
  · intro h
    have hcount := h.count
    revert hcount
    decide +kernel

end Warp.WarpEndpoint
