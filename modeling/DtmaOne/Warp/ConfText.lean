import DtmaOne.Dns.Bootstrap
import DtmaOne.Library.Regex
import DtmaOne.Warp.Config

/-!
# The text of a WARP configuration

`WarpConfigGenerator.confFor` writes a configuration as eleven lines, and `fromConfText` finds the
fields in a text again, each by a multi-line pattern.  `parseResponse`, `fromConfText`,
`expandEndpoints` and `withEndpoint` keep the text and the fields of a configuration in step.  The
text can be read back, with the same fields, unless the bootstrap resolver raises an exception for
the host of the endpoint: a dotted number that is not an address.
-/

namespace Warp

/-! ### The resolver and the patterns of the platform -/

/-- The text functions of the platform. -/
structure TextPlatform extends Platform where
  regex : Regex.Engine
  sameIgnoringCase_self : ∀ c, sameIgnoringCase c c = true

/-- The bootstrap resolver during a call of `expandEndpoints`, with its answers for every name. -/
structure Bootstrap where
  net : Dns.WarpBootstrapDns.Net
  state : Dns.WarpBootstrapDns.State
  answers : String → Dns.WarpBootstrapDns.Answers

/-- `WarpBootstrapDns.allCandidates`; `none` is an exception. -/
def Bootstrap.allCandidates (b : Bootstrap) (hostname : String) : Option (List String) :=
  (Dns.WarpBootstrapDns.allCandidates b.net b.state hostname (b.answers hostname)).1

/-- Why no configuration is returned: `require` fails, or a name is not resolved. -/
inductive Refusal where
  | illegalArgument (message : String)
  | unknownHost
  deriving DecidableEq, Repr

/-- `require(condition) { message }` -/
def require (condition : Bool) (message : String) : Except Refusal Unit :=
  if condition then .ok () else .error (.illegalArgument message)

/-- `s.length` -/
def utf16Length (s : String) : ℕ :=
  (s.toList.flatMap Text.utf16Units).length

namespace WarpEndpoint

/-- `WarpEndpoint.validPort` -/
def validPort (p : Option ℤ) : Bool :=
  p.any fun n => 1 ≤ n ∧ n ≤ 65535

/-- `WarpEndpoint.resolve` -/
def resolve (hostField v4Field : String) : String :=
  let host := Text.trim hostField
  let v4 := Text.substringBefore '/' (Text.trim v4Field)
  let portFromHost :=
    if host.toList.count ':' = 1 then
      (Text.splitLast ':' host).bind fun parts => Text.toIntOrNull parts.2
    else none
  if !Text.isBlank host && validPort portFromHost then host
  else if !Text.isBlank host && ':' ∉ host.toList then host ++ ":2408"
  else
    let (ip, portInV4) := splitIpv4AndPort v4
    let port :=
      if validPort portInV4 then portInV4.getD 2408
      else if validPort portFromHost then portFromHost.getD 2408
      else 2408
    if !Text.isBlank v4 && !Text.isBlank ip then ip ++ ":" ++ toString port
    else "engage.cloudflareclient.com:2408"

end WarpEndpoint

namespace WarpConfigGenerator

/-! ### Writing and reading -/

/-- An address with a prefix length. -/
def cidr (address : String) : String :=
  if '/' ∈ address.toList then address else address ++ "/32"

/-- The names `expandEndpoints` looks up. -/
def lookedUp (platform : Platform) (endpoint : String) : List String :=
  let hostOrIp := (WarpEndpoint.splitIpv4AndPort endpoint).1
  if looksLikeIpv4 platform hostOrIp then []
  else
    let host := Text.substringBefore ':' hostOrIp
    [if Text.isBlank host then engageHost else host, engageHost]

/-- `expandEndpoints` with the bootstrap resolver, whose exceptions it does not catch. -/
def expandWith (platform : Platform) (b : Bootstrap) (base : WarpConfig) : Option WarpConfig :=
  if (lookedUp platform base.endpoint).all fun host => (b.allCandidates host).isSome then
    some (expandEndpoints platform (fun host => (b.allCandidates host).getD []) base)
  else none

/-- The pattern of a field. -/
def fieldPattern (E : Regex.Engine) (name : String) : Regex.Matcher (List Char) :=
  Regex.bol E <| Regex.star E.space <| Regex.word E.same name.toList <| Regex.star E.space <|
    Regex.char (E.same '=') <| Regex.star E.space <| Regex.capture (fun c => !E.lineEnd c) <|
      Regex.star E.space <| Regex.eol E Regex.done

/-- The value of a field in a text, empty if there is none. -/
def field (E : Regex.Engine) (text name : String) : String :=
  match Regex.find (fieldPattern E name) none text.toList with
  | some value => Text.trim (String.ofList value)
  | none => ""

/-- The configuration that `fromConfText` makes of the fields of a text. -/
def confResult (privateKey address peerPublicKey endpoint : String) : WarpConfig where
  confText := confFor privateKey address peerPublicKey endpoint
  addressV4 := address
  endpoint := endpoint
  clientId := ""
  privateKey := privateKey
  publicKey := ""
  endpointCandidates := [endpoint]
  peerPublicKey := peerPublicKey
  source := "conf"

/-- `WarpConfigGenerator.fromConfText` -/
def fromConfText (platform : TextPlatform) (b : Bootstrap) (confText : String) :
    Except Refusal WarpConfig := do
  let text := Text.trim confText
  require (Text.contains platform.sameIgnoringCase "[Interface]" text) "Нет [Interface]"
  require (Text.contains platform.sameIgnoringCase "[Peer]" text) "Нет [Peer]"
  let privateKey := field platform.regex text "PrivateKey"
  require (utf16Length privateKey ≥ 40) "PrivateKey не найден"
  let addressRaw := Text.trim (Text.substringBefore ',' (field platform.regex text "Address"))
  require (!Text.isBlank addressRaw) "Address не найден"
  let address := cidr addressRaw
  let peerPublicKey := field platform.regex text "PublicKey"
  require (utf16Length peerPublicKey ≥ 40) "Peer PublicKey не найден"
  let endpoint := field platform.regex text "Endpoint"
  require (':' ∈ endpoint.toList) "Endpoint не найден (host:port)"
  match expandWith platform.toPlatform b (confResult privateKey address peerPublicKey endpoint) with
  | some conf => .ok conf
  | none => .error .unknownHost

/-- A peer of the answer of the registration API. -/
structure ApiPeer where
  publicKey : String
  host : String
  v4 : String

/-- The fields that `parseResponse` reads from the answer of the registration API. -/
structure ApiConfig where
  clientId : String
  v4 : String
  peers : List ApiPeer

/-- `WarpConfigGenerator.resolveEndpoint` -/
def resolveEndpoint (peer : ApiPeer) : String :=
  WarpEndpoint.resolve (Text.trim peer.host) (Text.substringBefore '/' (Text.trim peer.v4))

/-- `WarpConfigGenerator.parseResponse`, from the decoded answer on. -/
def parseResponse (platform : Platform) (b : Bootstrap) (config : ApiConfig)
    (privateKeyB64 publicKeyB64 : String) : Option WarpConfig :=
  let v4 := cidr (Text.trim config.v4)
  match config.peers with
  | [] => none
  | peer :: _ =>
      let primary := resolveEndpoint peer
      expandWith platform b
        { confText := confFor privateKeyB64 v4 peer.publicKey primary
          addressV4 := v4
          endpoint := primary
          clientId := config.clientId
          privateKey := privateKeyB64
          publicKey := publicKeyB64
          endpointCandidates := [primary]
          peerPublicKey := peer.publicKey
          source := "api" }

/-- The configurations that can be obtained: from the API or from a text, with any answers of the
resolver, and then by any changes of the endpoints. -/
inductive Obtained (platform : TextPlatform) : WarpConfig → Prop where
  | parsed {b : Bootstrap} {config : ApiConfig} {privateKey publicKey : String} {r : WarpConfig}
      (h : parseResponse platform.toPlatform b config privateKey publicKey = some r) :
      Obtained platform r
  | imported {b : Bootstrap} {text : String} {r : WarpConfig}
      (h : fromConfText platform b text = .ok r) : Obtained platform r
  | expanded {b : Bootstrap} {r r' : WarpConfig} (hr : Obtained platform r)
      (h : expandWith platform.toPlatform b r = some r') : Obtained platform r'
  | moved {r : WarpConfig} (hr : Obtained platform r) (endpoint : String) :
      Obtained platform (withEndpoint r endpoint)

/-! ### Text and fields in step -/

/-- The text of a configuration is the one of its fields, and its address has a prefix length. -/
structure InStep (r : WarpConfig) : Prop where
  text : r.confText = confFor r.privateKey r.addressV4 r.peerPublicKey r.endpoint
  slash : '/' ∈ r.addressV4.toList

/-- The first endpoint is the own one. -/
theorem expandEndpoints_eq (platform : Platform) (dns : String → List String) (base : WarpConfig) :
  ∃ candidates, expandEndpoints platform dns base
    = { base with
        confText := confFor base.privateKey base.addressV4 base.peerPublicKey base.endpoint
        endpointCandidates := candidates }
  := by
  delta expandEndpoints
  simp only [List.cons_append, List.eraseDups_cons, List.take_succ_cons, List.headD_cons]
  exact ⟨_, rfl⟩

/-- Expanding the endpoints changes only the text and the list of endpoints. -/
theorem expandWith_eq_some {platform : Platform} {b : Bootstrap} {base r : WarpConfig}
    (h : expandWith platform b base = some r) :
  ∃ candidates, r
    = { base with
        confText := confFor base.privateKey base.addressV4 base.peerPublicKey base.endpoint
        endpointCandidates := candidates }
  := by
  rw [expandWith] at h
  split_ifs at h
  obtain ⟨candidates, heq⟩ := expandEndpoints_eq platform
    (fun host => (b.allCandidates host).getD []) base
  use candidates
  rw [← Option.some.inj h, heq]

theorem inStep_expandWith {platform : Platform} {b : Bootstrap} {base r : WarpConfig}
    (hslash : '/' ∈ base.addressV4.toList) (h : expandWith platform b base = some r) :
  InStep r
  := by
  obtain ⟨candidates, rfl⟩ := expandWith_eq_some h
  exact ⟨rfl, hslash⟩

theorem mem_cidr (s : String) :
  '/' ∈ (cidr s).toList
  := by
  rw [cidr]
  split_ifs with h
  · apply h
  · rw [String.toList_append, List.mem_append]
    right
    decide +kernel

theorem require_bind {α : Type} (condition : Bool) (message : String)
    (f : Unit → Except Refusal α) :
  (require condition message >>= f)
    = if condition then f () else .error (.illegalArgument message)
  := by
  cases condition with
  | false => rfl
  | true => rfl

/-- What an imported configuration is made of. -/
theorem fromConfText_eq_ok {platform : TextPlatform} {b : Bootstrap} {text : String}
    {r : WarpConfig} (h : fromConfText platform b text = .ok r) :
  ∃ base : WarpConfig, '/' ∈ base.addressV4.toList
    ∧ expandWith platform.toPlatform b base = some r
  := by
  delta fromConfText at h
  simp only [require_bind] at h
  split_ifs at h
  split at h
  · next conf hconf =>
      rw [Except.ok.inj h] at hconf
      refine ⟨_, ?_, hconf⟩
      dsimp only [confResult]
      apply mem_cidr
  · cases h

/-- Every configuration that can be obtained has text and fields in step. -/
theorem inStep_of_obtained {platform : TextPlatform} {r : WarpConfig}
    (h : Obtained platform r) :
  InStep r
  := by
  induction h with
  | parsed h =>
      delta parseResponse at h
      split at h
      · contradiction
      · refine inStep_expandWith ?_ h
        dsimp only
        apply mem_cidr
  | imported h =>
      obtain ⟨base, hslash, hexpand⟩ := fromConfText_eq_ok h
      apply inStep_expandWith hslash hexpand
  | expanded hr h ih => apply inStep_expandWith ih.slash h
  | moved hr endpoint ih =>
      delta withEndpoint
      exact ⟨rfl, ih.slash⟩

/-! ### The lines of a text -/

/-- A line that gives a field a value. -/
def lineOf (name value : String) : List Char :=
  name.toList ++ (" = ".toList ++ value.toList)

/-- A line that gives a field a value, with blanks around its parts. -/
def entryLine (indent before after : ℕ) (key value : String) : List Char :=
  Regex.blanks indent ++ (key.toList ++ (Regex.blanks before
    ++ '=' :: (Regex.blanks after ++ value.toList)))

/-- The lines of a text, each with its terminator. -/
def lines (ls : List (List Char)) : List Char :=
  ls.flatMap fun l => l ++ ['\n']

/-- The lines of `confFor` but the last one. -/
def confLines (privateKey address peerPublicKey endpoint : String) : List (List Char) :=
  ["[Interface]".toList, lineOf "PrivateKey" privateKey, lineOf "Address" address,
    "DNS = 1.1.1.1".toList, "MTU = 1280".toList, [], "[Peer]".toList,
    lineOf "PublicKey" peerPublicKey, "AllowedIPs = 0.0.0.0/0".toList, lineOf "Endpoint" endpoint]

theorem toList_confFor (k a p e : String) :
  (confFor k a p e).toList
    = lines (confLines k a p e) ++ ("PersistentKeepalive = 25".toList ++ ['\n'])
  := by
  have h1 : "[Interface]\n".toList = "[Interface]".toList ++ ['\n'] := by decide +kernel
  have h2 : "PrivateKey = ".toList = "PrivateKey".toList ++ " = ".toList := by decide +kernel
  have h3 : "Address = ".toList = "Address".toList ++ " = ".toList := by decide +kernel
  have h4 : "DNS = 1.1.1.1\n".toList = "DNS = 1.1.1.1".toList ++ ['\n'] := by decide +kernel
  have h5 : "MTU = 1280\n".toList = "MTU = 1280".toList ++ ['\n'] := by decide +kernel
  have h6 : "\n".toList = ['\n'] := by decide +kernel
  have h7 : "[Peer]\n".toList = "[Peer]".toList ++ ['\n'] := by decide +kernel
  have h8 : "PublicKey = ".toList = "PublicKey".toList ++ " = ".toList := by decide +kernel
  have h9 : "AllowedIPs = 0.0.0.0/0\n".toList = "AllowedIPs = 0.0.0.0/0".toList ++ ['\n'] := by
    decide +kernel
  have h10 : "Endpoint = ".toList = "Endpoint".toList ++ " = ".toList := by decide +kernel
  have h11 : "PersistentKeepalive = 25\n".toList
      = "PersistentKeepalive = 25".toList ++ ['\n'] := by
    decide +kernel
  delta confFor
  simp only [String.toList_append, h1, h2, h3, h4, h5, h6, h7, h8, h9, h10, h11, lines, confLines,
    lineOf, List.flatMap_cons, List.flatMap_nil, List.append_assoc, List.nil_append,
    List.append_nil]

/-- The text without the last line terminator. -/
theorem trim_confFor (k a p e : String) :
  (Text.trim (confFor k a p e)).toList
    = lines (confLines k a p e) ++ "PersistentKeepalive = 25".toList
  := by
  have htext : confFor k a p e
      = String.ofList ((lines (confLines k a p e) ++ "PersistentKeepalive = 25".toList)
        ++ ['\n']) := by
    rw [← String.ofList_toList (s := confFor k a p e), toList_confFor, List.append_assoc]
  have hfirst : ∃ c t, lines (confLines k a p e) ++ "PersistentKeepalive = 25".toList = c :: t ∧
      Text.isWhitespace c = false := ⟨'[', _, rfl, rfl⟩
  have hlast : ∃ t c, lines (confLines k a p e) ++ "PersistentKeepalive = 25".toList = t ++ [c] ∧
      Text.isWhitespace c = false := by
    use lines (confLines k a p e) ++ "PersistentKeepalive = 2".toList, '5'
    rw [List.append_assoc]
    exact ⟨rfl, rfl⟩
  have hspace : ∀ c ∈ ['\n'], Text.isWhitespace c = true := by
    intro c hc
    obtain rfl := List.mem_singleton.mp hc
    rfl
  rw [htext, Text.trim_ofList_append hfirst hlast hspace, String.toList_ofList]

/-! ### Finding a field -/

section Fields

variable {E : Regex.Engine} {name : String}

/-- The search for a field passes over a part of the text that ends a line. -/
def Skips (E : Regex.Engine) (name : String) (chunk : List Char) : Prop :=
  ∀ prev rest, Regex.find (fieldPattern E name) prev (chunk ++ rest)
    = Regex.find (fieldPattern E name) (some '\n') rest

/-- A line that starts with something else, without separators except blanks. -/
structure Foreign (name : String) (line : List Char) : Prop where
  first : ∃ c t, line = c :: t ∧ Regex.isSeparator c = false
  plain : ∀ c ∈ line, c = ' ' ∨ Regex.isSeparator c = false
  differ : Regex.differ name.toList line = true

theorem Foreign.lineEnd {line : List Char} (h : Foreign name line) :
  ∀ c ∈ line, E.lineEnd c = false
  := by
  intro c hc
  obtain rfl | hplain := h.plain c hc
  · apply E.lineEnd_blank
  · apply Regex.lineEnd_eq_false hplain

/-- At a foreign line the pattern does not match after the leading blanks. -/
theorem Foreign.star_eq_none {line : List Char} (h : Foreign name line)
    {k : Regex.Matcher (List Char)} {prev : Option Char} {rest : List Char} :
  Regex.star E.space (Regex.word E.same name.toList k) prev (line ++ rest) = none
  := by
  obtain ⟨c, t, rfl, hc⟩ := h.first
  rw [List.cons_append, Regex.star_of_not (Regex.space_eq_false hc), ← List.cons_append]
  apply Regex.word_of_differ h.differ

theorem skips_line {line : List Char} (h : Foreign name line) :
  Skips E name (line ++ ['\n'])
  := by
  intro prev rest
  rw [List.append_assoc, List.singleton_append]
  apply Regex.find_bol_line h.lineEnd
  rw [Regex.bol]
  split_ifs
  · apply h.star_eq_none
  · rfl

/-- A blank line is passed over. -/
theorem find_blank (hblank : Regex.differ name.toList [' '] = true)
    (hnewline : Regex.differ name.toList ['\n'] = true) (n : ℕ) (prev : Option Char)
    (rest : List Char) :
  Regex.find (fieldPattern E name) prev (Regex.blanks n ++ '\n' :: rest)
    = Regex.find (fieldPattern E name) (some '\n') rest
  := by
  apply Regex.find_bol_blank
  · intro prev
    cases hcons : name.toList with
    | nil =>
        rw [hcons] at hblank
        cases hblank
    | cons c t => rfl
  · intro prev cs
    rw [← List.singleton_append]
    apply Regex.word_of_differ hblank
  · intro prev cs
    rw [← List.singleton_append]
    apply Regex.word_of_differ hnewline

/-- An empty line before a foreign line is passed over with it. -/
theorem skips_blank {line : List Char} (h : Foreign name line)
    (hblank : Regex.differ name.toList [' '] = true)
    (hnewline : Regex.differ name.toList ['\n'] = true) :
  Skips E name ('\n' :: (line ++ ['\n']))
  := by
  intro prev rest
  have hskip := find_blank (E := E) hblank hnewline 0 prev (line ++ ['\n'] ++ rest)
  rw [Regex.blanks_zero, List.nil_append] at hskip
  rw [List.cons_append, hskip, skips_line h]

/-- The search passes over such parts one after the other. -/
theorem find_chunks {chunks : List (List Char)} (h : ∀ chunk ∈ chunks, Skips E name chunk)
    (rest : List Char) (prev : Option Char) (hprev : prev = none ∨ prev = some '\n') :
  ∃ prev', (prev' = none ∨ prev' = some '\n')
    ∧ Regex.find (fieldPattern E name) prev (chunks.flatten ++ rest)
      = Regex.find (fieldPattern E name) prev' rest
  := by
  induction chunks generalizing prev with
  | nil => exact ⟨prev, hprev, rfl⟩
  | cons chunk chunks ih =>
      have hskip := h chunk List.mem_cons_self
      obtain ⟨prev', hprev', heq⟩ := ih (fun c hc => h c (List.mem_cons_of_mem chunk hc))
        (some '\n') (Or.inr rfl)
      refine ⟨prev', hprev', ?_⟩
      rw [List.flatten_cons, List.append_assoc, hskip, heq]

theorem atLineStart_of_newline {prev : Option Char} (hprev : prev = none ∨ prev = some '\n')
    {cs : List Char} (hcs : cs ≠ []) :
  E.atLineStart prev cs = true
  := by
  obtain ⟨c, cs, rfl⟩ := List.exists_cons_of_ne_nil hcs
  obtain rfl | rfl := hprev
  · rfl
  · rw [Regex.Engine.atLineStart, E.lineEnd_newline]
    rfl

/-- The pattern takes the value of the field from a line with its name, up to case and to blanks
around the parts of the line. -/
theorem fieldPattern_entryLine {key value : String} {rest : List Char} {prev : Option Char}
    (indent before after trailing : ℕ)
    (hprev : prev = none ∨ prev = some '\n') (hname : ∀ c ∈ name.toList, c.toNat < 128)
    (hkey : ∀ c ∈ key.toList, c.toNat < 128)
    (hsame : name.toList.map Char.toLower = key.toList.map Char.toLower)
    (hfirst : ∃ c t, key.toList = c :: t ∧ Regex.isSeparator c = false)
    (hvalue : Regex.Plain value.toList) (hrest : rest = [] ∨ ∃ r, rest = '\n' :: r) :
  fieldPattern E name prev
      (entryLine indent before after key value ++ (Regex.blanks trailing ++ rest))
    = some value.toList
  := by
  obtain ⟨v, vs, hvalueEq, hv⟩ := hvalue.first
  have hafter : ∀ prev, Regex.star E.space (Regex.capture (fun c => !E.lineEnd c)
      (Regex.star E.space (Regex.eol E Regex.done))) prev
      (Regex.blanks after ++ (value.toList ++ (Regex.blanks trailing ++ rest)))
      = some value.toList := by
    intro prev
    have hgroup : ∀ prev, Regex.capture (fun c => !E.lineEnd c)
        (Regex.star E.space (Regex.eol E Regex.done)) prev
        (value.toList ++ (Regex.blanks trailing ++ rest)) = some value.toList := by
      intro prev
      apply Regex.capture_plain trailing hvalue.inner hvalue.last hrest
    rw [hvalueEq, List.cons_append] at hgroup ⊢
    apply Regex.star_blanks_of_match after (Regex.space_eq_false hv) hgroup
  have hequals : ∀ prev, Regex.star E.space (Regex.char (E.same '=') (Regex.star E.space
      (Regex.capture (fun c => !E.lineEnd c) (Regex.star E.space (Regex.eol E Regex.done))))) prev
      (Regex.blanks before ++ '=' :: (Regex.blanks after ++ (value.toList
        ++ (Regex.blanks trailing ++ rest)))) = some value.toList := by
    intro prev
    apply Regex.star_blanks_of_match before (Regex.space_eq_false (by decide))
    intro prev
    rw [Regex.char, E.same_ascii '=' '=' (by decide) (by decide), if_pos (by decide), hafter]
  obtain ⟨c, t, hkeyEq, hc⟩ := hfirst
  have hword := Regex.word_of_sameLetters (E := E) hname hkey hsame hequals
  rw [fieldPattern, Regex.bol, if_pos, entryLine]
  · rw [hkeyEq] at hword ⊢
    simp only [List.append_assoc, List.cons_append]
    apply Regex.star_blanks_of_match indent (Regex.space_eq_false hc) hword
  · apply atLineStart_of_newline hprev
    rw [entryLine]
    simp

theorem lineOf_eq_entryLine (key value : String) :
  lineOf key value = entryLine 0 1 1 key value
  := by
  have hsep : " = ".toList = [' ', '=', ' '] := by decide +kernel
  rw [lineOf, hsep, entryLine]
  simp [Regex.blanks]

/-- The pattern takes the value of the field from its line. -/
theorem fieldPattern_lineOf {value : String} {rest : List Char} {prev : Option Char}
    (hprev : prev = none ∨ prev = some '\n') (hname : ∀ c ∈ name.toList, c.toNat < 128)
    (hfirst : ∃ c t, name.toList = c :: t ∧ Regex.isSeparator c = false)
    (hvalue : value ≠ "") (hplain : ∀ c ∈ value.toList, Regex.isSeparator c = false) :
  fieldPattern E name prev (lineOf name value ++ '\n' :: rest) = some value.toList
  := by
  have hne : value.toList ≠ [] := by
    simpa using hvalue
  rw [lineOf_eq_entryLine]
  apply fieldPattern_entryLine 0 1 1 0 hprev hname hname rfl hfirst _ (.inr ⟨rest, rfl⟩)
  apply Regex.plain_of_not_isSeparator hne hplain

/-- A field is read from a text in which its line comes after parts that are passed over. -/
theorem field_of_chunks {text value : String} {chunks : List (List Char)} {rest : List Char}
    (htext : text.toList = chunks.flatten ++ (lineOf name value ++ '\n' :: rest))
    (hchunks : ∀ chunk ∈ chunks, Skips E name chunk)
    (hname : ∀ c ∈ name.toList, c.toNat < 128)
    (hfirst : ∃ c t, name.toList = c :: t ∧ Regex.isSeparator c = false)
    (hvalue : value ≠ "") (hplain : ∀ c ∈ value.toList, Regex.isSeparator c = false) :
  field E text name = value
  := by
  obtain ⟨prev, hprev, hskip⟩ := find_chunks hchunks (lineOf name value ++ '\n' :: rest) none
    (Or.inl rfl)
  have hfound : Regex.find (fieldPattern E name) none text.toList = some value.toList := by
    rw [htext, hskip]
    apply Regex.find_of_match
    apply fieldPattern_lineOf hprev hname hfirst hvalue hplain
  have htrim : Text.trim value = value := by
    apply Text.trim_of_not_isWhitespace
    intro c hc
    apply (Bool.or_eq_false_iff.mp (hplain c hc)).1
  rw [field, hfound]
  dsimp only
  rw [String.ofList_toList, htrim]

end Fields

/-! ### Reading a text back -/

/-- The fields can be written: keys of at least forty characters, an address without a comma, an
endpoint with a port, and no separators in any of them. -/
structure Writable (r : WarpConfig) : Prop where
  privateKey : 40 ≤ utf16Length r.privateKey
  peerPublicKey : 40 ≤ utf16Length r.peerPublicKey
  address : r.addressV4 ≠ ""
  comma : ',' ∉ r.addressV4.toList
  port : ':' ∈ r.endpoint.toList
  plain : ∀ s ∈ [r.privateKey, r.addressV4, r.peerPublicKey, r.endpoint], ∀ c ∈ s.toList,
    Regex.isSeparator c = false

/-- A fixed line is foreign to a pattern, by inspection. -/
theorem foreign_of_decide {name line : String}
    (h : (line.toList.head?.any fun c => !Regex.isSeparator c)
      ∧ (line.toList.all fun c => c = ' ' || !Regex.isSeparator c)
      ∧ Regex.differ name.toList line.toList) :
  Foreign name line.toList
  := by
  obtain ⟨hfirst, hplain, hdiffer⟩ := h
  constructor
  · cases hline : line.toList with
    | nil =>
        rw [hline] at hfirst
        cases hfirst
    | cons c t =>
        rw [hline] at hfirst
        exact ⟨c, t, rfl, by simpa using hfirst⟩
  · intro c hc
    have hc' := List.all_eq_true.mp hplain c hc
    simpa using hc'
  · apply hdiffer

/-- The line of a field is foreign to a pattern that its name is foreign to. -/
theorem foreign_lineOf {name other value : String} (h : Foreign name other.toList)
    (hvalue : ∀ c ∈ value.toList, Regex.isSeparator c = false) :
  Foreign name (lineOf other value)
  := by
  have hsep : " = ".toList = [' ', '=', ' '] := by decide +kernel
  obtain ⟨c, t, hcons, hc⟩ := h.first
  constructor
  · exact ⟨c, t ++ (" = ".toList ++ value.toList), by rw [lineOf, hcons]; rfl, hc⟩
  · intro d hd
    rw [lineOf, hsep] at hd
    simp only [List.mem_append, List.mem_cons, List.not_mem_nil, or_false] at hd
    obtain hd | (rfl | rfl | rfl) | hd := hd
    · apply h.plain d hd
    · left
      rfl
    · right
      decide
    · left
      rfl
    · right
      apply hvalue d hd
  · rw [lineOf]
    apply Regex.differ_append h.differ

/-- The parts of the text of `confFor` up to the line of the endpoint. -/
def confChunks (k a p : String) : List (List Char) :=
  ["[Interface]".toList ++ ['\n'], lineOf "PrivateKey" k ++ ['\n'], lineOf "Address" a ++ ['\n'],
    "DNS = 1.1.1.1".toList ++ ['\n'], "MTU = 1280".toList ++ ['\n'],
    '\n' :: ("[Peer]".toList ++ ['\n']), lineOf "PublicKey" p ++ ['\n'],
    "AllowedIPs = 0.0.0.0/0".toList ++ ['\n']]

section Reading

variable {E : Regex.Engine} {k a p e : String}

/-- What comes before and after a part of the text of `confFor`. -/
theorem trim_confFor_chunks (before after : List (List Char)) (chunk : List Char)
    (hchunks : before ++ chunk :: after = confChunks k a p ++ [lineOf "Endpoint" e ++ ['\n']]) :
  (Text.trim (confFor k a p e)).toList
    = before.flatten ++ (chunk ++ (after.flatten ++ "PersistentKeepalive = 25".toList))
  := by
  have hflat : before.flatten ++ (chunk ++ after.flatten)
      = (confChunks k a p ++ [lineOf "Endpoint" e ++ ['\n']]).flatten := by
    rw [← hchunks, List.flatten_append, List.flatten_cons]
  rw [trim_confFor, ← List.append_assoc chunk, ← List.append_assoc before.flatten, hflat]
  simp only [lines, confLines, confChunks, List.flatMap_cons, List.flatMap_nil, List.flatten_cons,
    List.flatten_nil, List.cons_append, List.append_assoc, List.nil_append, List.append_nil]

/-- A field is found in the text of `confFor` if everything before its line is passed over. -/
theorem field_of_confChunks {name value : String} (before : List (List Char))
    {after : List (List Char)}
    (hchunks : before ++ (lineOf name value ++ ['\n']) :: after
      = confChunks k a p ++ [lineOf "Endpoint" e ++ ['\n']])
    (hbefore : ∀ chunk ∈ before, Skips E name chunk)
    (hname : (name.toList.head?.any fun c => !Regex.isSeparator c)
      ∧ name.toList.all fun c => c.toNat < 128)
    (hvalue : value ≠ "") (hplain : ∀ c ∈ value.toList, Regex.isSeparator c = false) :
  field E (Text.trim (confFor k a p e)) name = value
  := by
  have htext := trim_confFor_chunks before after (lineOf name value ++ ['\n']) hchunks
  rw [List.append_assoc, List.singleton_append] at htext
  apply field_of_chunks htext hbefore
  · intro c hc
    simpa using List.all_eq_true.mp hname.2 c hc
  · cases hcons : name.toList with
    | nil =>
        rw [hcons] at hname
        cases hname.1
    | cons c t =>
        rw [hcons] at hname
        exact ⟨c, t, rfl, by simpa using hname.1⟩
  · apply hvalue
  · apply hplain

/-- The fields are found in the text of `confFor`. -/
theorem field_confFor (hk : k ≠ "") (ha : a ≠ "") (hp : p ≠ "") (he : e ≠ "")
    (hplain : ∀ s ∈ [k, a, p, e], ∀ c ∈ s.toList, Regex.isSeparator c = false) :
  field E (Text.trim (confFor k a p e)) "PrivateKey" = k
    ∧ field E (Text.trim (confFor k a p e)) "Address" = a
    ∧ field E (Text.trim (confFor k a p e)) "PublicKey" = p
    ∧ field E (Text.trim (confFor k a p e)) "Endpoint" = e
  := by
  simp only [List.forall_mem_cons, List.not_mem_nil, false_implies, implies_true, and_true]
    at hplain
  obtain ⟨hk', ha', hp', he'⟩ := hplain
  refine ⟨?_, ?_, ?_, ?_⟩
  · apply field_of_confChunks ((confChunks k a p).take 1) rfl _ (by decide +kernel) hk hk'
    simp only [confChunks, List.take_succ_cons, List.take_zero, List.forall_mem_cons,
      List.not_mem_nil, false_implies, implies_true, and_true]
    apply skips_line (foreign_of_decide (by decide +kernel))
  · apply field_of_confChunks ((confChunks k a p).take 2) rfl _ (by decide +kernel) ha ha'
    simp only [confChunks, List.take_succ_cons, List.take_zero, List.forall_mem_cons,
      List.not_mem_nil, false_implies, implies_true, and_true]
    constructor
    · apply skips_line (foreign_of_decide (by decide +kernel))
    · apply skips_line (foreign_lineOf (foreign_of_decide (by decide +kernel)) hk')
  · apply field_of_confChunks ((confChunks k a p).take 6) rfl _ (by decide +kernel) hp hp'
    simp only [confChunks, List.take_succ_cons, List.take_zero, List.forall_mem_cons,
      List.not_mem_nil, false_implies, implies_true, and_true]
    refine ⟨?_, ?_, ?_, ?_, ?_, ?_⟩
    · apply skips_line (foreign_of_decide (by decide +kernel))
    · apply skips_line (foreign_lineOf (foreign_of_decide (by decide +kernel)) hk')
    · apply skips_line (foreign_lineOf (foreign_of_decide (by decide +kernel)) ha')
    · apply skips_line (foreign_of_decide (by decide +kernel))
    · apply skips_line (foreign_of_decide (by decide +kernel))
    · apply skips_blank (foreign_of_decide (by decide +kernel)) (by decide +kernel) (by decide +kernel)
  · apply field_of_confChunks (confChunks k a p) rfl _ (by decide +kernel) he he'
    simp only [confChunks, List.forall_mem_cons, List.not_mem_nil, false_implies, implies_true,
      and_true]
    refine ⟨?_, ?_, ?_, ?_, ?_, ?_, ?_, ?_⟩
    · apply skips_line (foreign_of_decide (by decide +kernel))
    · apply skips_line (foreign_lineOf (foreign_of_decide (by decide +kernel)) hk')
    · apply skips_line (foreign_lineOf (foreign_of_decide (by decide +kernel)) ha')
    · apply skips_line (foreign_of_decide (by decide +kernel))
    · apply skips_line (foreign_of_decide (by decide +kernel))
    · apply skips_blank (foreign_of_decide (by decide +kernel)) (by decide +kernel) (by decide +kernel)
    · apply skips_line (foreign_lineOf (foreign_of_decide (by decide +kernel)) hp')
    · apply skips_line (foreign_of_decide (by decide +kernel))

end Reading

/-- The text of the configuration can be read, and gives the same fields again. -/
def Reloads (platform : TextPlatform) (b : Bootstrap) (r : WarpConfig) : Prop :=
  ∃ r', fromConfText platform b r.confText = .ok r' ∧ r'.privateKey = r.privateKey
    ∧ r'.addressV4 = r.addressV4 ∧ r'.peerPublicKey = r.peerPublicKey ∧ r'.endpoint = r.endpoint

/-- One of the names that are looked up for the endpoint is a dotted number, and the platform does
not take it for an address. -/
def Refused (platform : Platform) (b : Bootstrap) (endpoint : String) : Prop :=
  ∃ host ∈ lookedUp platform endpoint,
    let name := Dns.WarpBootstrapDns.lookupName b.net (b.net.lowercase (Text.trim host))
    Dns.WarpBootstrapDns.looksNumeric b.net name = true
      ∧ Dns.WarpBootstrapDns.getByName b.net name = none

/-- The endpoints can be expanded exactly if no name is refused. -/
theorem isSome_expandWith_iff (platform : Platform) (b : Bootstrap) (base : WarpConfig) :
  (expandWith platform b base).isSome ↔ ¬ Refused platform b base.endpoint
  := by
  have hall : (lookedUp platform base.endpoint).all (fun host => (b.allCandidates host).isSome)
      ↔ ¬ Refused platform b base.endpoint := by
    rw [← Bool.not_eq_false, not_iff_not, List.all_eq_false, Refused]
    simp only [Bool.not_eq_true, Option.isSome_eq_false_iff, Option.isNone_iff_eq_none,
      Bootstrap.allCandidates, Dns.WarpBootstrapDns.allCandidates_eq_none_iff]
  rw [expandWith, ← hall]
  split_ifs with h
  · simp [h]
  · simp [h]

/-- Both section headers stand in the text. -/
theorem contains_header (platform : TextPlatform) (k a p e : String) :
  Text.contains platform.sameIgnoringCase "[Interface]" (Text.trim (confFor k a p e)) = true
    ∧ Text.contains platform.sameIgnoringCase "[Peer]" (Text.trim (confFor k a p e)) = true
  := by
  constructor
  · have htext := trim_confFor_chunks (k := k) (a := a) (p := p) (e := e) []
      _ ("[Interface]".toList ++ ['\n']) rfl
    rw [List.append_assoc] at htext
    apply Text.contains_of_eq_append platform.sameIgnoringCase_self htext
  · have htext := trim_confFor_chunks (k := k) (a := a) (p := p) (e := e)
      ((confChunks k a p).take 5) _ ('\n' :: ("[Peer]".toList ++ ['\n'])) rfl
    rw [List.cons_append, List.append_assoc, ← List.singleton_append,
      ← List.append_assoc (List.flatten _)] at htext
    apply Text.contains_of_eq_append platform.sameIgnoringCase_self htext

/-- Reading the text of writable fields is expanding the endpoints of a configuration with these
fields. -/
theorem fromConfText_of_writable (platform : TextPlatform) (b : Bootstrap) {r : WarpConfig}
    (hr : InStep r) (hw : Writable r) :
  fromConfText platform b r.confText
    = match expandWith platform.toPlatform b
        (confResult r.privateKey r.addressV4 r.peerPublicKey r.endpoint) with
      | some conf => .ok conf
      | none => .error .unknownHost
  := by
  have hkey : ∀ s : String, 40 ≤ utf16Length s → s ≠ "" := by
    rintro s hs rfl
    exact absurd hs (by decide)
  have hendpoint : r.endpoint ≠ "" := by
    intro hempty
    have hport := hw.port
    rw [hempty] at hport
    cases hport
  obtain ⟨hk, ha, hp, he⟩ := field_confFor (E := platform.regex) (hkey _ hw.privateKey) hw.address
    (hkey _ hw.peerPublicKey) hendpoint hw.plain
  obtain ⟨hinterface, hpeer⟩ :=
    contains_header platform r.privateKey r.addressV4 r.peerPublicKey r.endpoint
  have haddress : ∀ c ∈ r.addressV4.toList, Text.isWhitespace c = false := by
    intro c hc
    apply (Bool.or_eq_false_iff.mp (hw.plain r.addressV4 (by simp) c hc)).1
  have hblank : Text.isBlank r.addressV4 = false := by
    rw [Text.isBlank, List.all_eq_false]
    exact ⟨'/', hr.slash, by decide⟩
  have hcidr : cidr r.addressV4 = r.addressV4 := by
    rw [cidr, if_pos hr.slash]
  delta fromConfText
  rw [hr.text]
  simp only [require_bind, hinterface, hpeer, hk, ha, hp, he,
    Text.substringBefore_of_not_mem hw.comma, Text.trim_of_not_isWhitespace haddress, hblank, hcidr,
    ge_iff_le, hw.privateKey, hw.peerPublicKey, hw.port, decide_true, Bool.not_false, if_true]

/-- A writable configuration with text and fields in step can be reloaded exactly if no name is
refused. -/
theorem reloads_of_inStep (platform : TextPlatform) (b : Bootstrap) {r : WarpConfig}
    (hr : InStep r) (hw : Writable r) :
  Reloads platform b r ↔ ¬ Refused platform.toPlatform b r.endpoint
  := by
  have hread := fromConfText_of_writable platform b hr hw
  have hiff := isSome_expandWith_iff platform.toPlatform b
    (confResult r.privateKey r.addressV4 r.peerPublicKey r.endpoint)
  have hendpoint : (confResult r.privateKey r.addressV4 r.peerPublicKey r.endpoint).endpoint
      = r.endpoint := by dsimp only [confResult]
  rw [hendpoint] at hiff
  rw [← hiff, Reloads, hread]
  cases hexpand : expandWith platform.toPlatform b
      (confResult r.privateKey r.addressV4 r.peerPublicKey r.endpoint) with
  | none =>
      constructor
      · rintro ⟨r', hr', -⟩
        cases hr'
      · intro hsome
        cases hsome
  | some conf =>
      constructor
      · intro _
        rfl
      · intro _
        obtain ⟨candidates, heq⟩ := expandWith_eq_some hexpand
        refine ⟨conf, rfl, ?_⟩
        rw [heq]
        dsimp only [confResult]
        exact ⟨rfl, rfl, rfl, rfl⟩

/-- Every configuration that can be obtained has the text of its fields; and if the fields are
writable, then the text can be read back, with the same fields, exactly if no name that is looked
up for the endpoint is a dotted number that the platform does not take for an address. -/
theorem reloads_iff (platform : TextPlatform) (r : WarpConfig) (hr : Obtained platform r) :
  r.confText = confFor r.privateKey r.addressV4 r.peerPublicKey r.endpoint
    ∧ (Writable r → ∀ b, Reloads platform b r ↔ ¬ Refused platform.toPlatform b r.endpoint)
  := by
  have hstep := inStep_of_obtained hr
  refine ⟨hstep.text, ?_⟩
  intro hw b
  apply reloads_of_inStep platform b hstep hw

/-- An engine for ASCII text. -/
def asciiEngine : Regex.Engine where
  space c := c ∈ [' ', '\t', '\n', '\r']
  lineEnd c := c ∈ ['\n', '\r']
  same a b := a.toLower == b.toLower
  space_blank := by decide
  lineEnd_newline := by decide
  lineEnd_blank := by decide
  isSeparator_of_space := by
    intro c hc
    simp only [List.mem_cons, List.not_mem_nil, or_false, decide_eq_true_eq] at hc
    obtain rfl | rfl | rfl | rfl := hc <;> decide
  isSeparator_of_lineEnd := by
    intro c hc
    simp only [List.mem_cons, List.not_mem_nil, or_false, decide_eq_true_eq] at hc
    obtain rfl | rfl := hc <;> decide
  same_ascii _ _ _ _ := rfl

/-- A platform for ASCII text. -/
def asciiPlatform : TextPlatform where
  toPlatform := Platform.ascii
  regex := asciiEngine
  sameIgnoringCase_self := by simp [Platform.ascii]

/-- The resolver when nothing answers. -/
def silentBootstrap : Bootstrap where
  net := Dns.WarpBootstrapDns.plainNet
  state := Dns.WarpBootstrapDns.init
  answers := fun _ => ⟨0, [], [], none, 0⟩

/-- A key in base 64. -/
def sampleKey : String := "bmXOC+F1FxEMF9dyiK2H5/1SUtzH0JuVo51h2wPfgyo="

/-- The endpoint of the sample. -/
def sampleEndpoint : String := "engage.cloudflareclient.com:2408"

/-- An answer of the registration API. -/
def sampleApi : ApiConfig :=
  ⟨"", "172.16.0.2", [⟨sampleKey, sampleEndpoint, "162.159.192.1:0"⟩]⟩

/-- A configuration with the fields of the sample, and with the given endpoint. -/
def IsSample (r : WarpConfig) (endpoint : String) : Prop :=
  r.privateKey = sampleKey ∧ r.addressV4 = "172.16.0.2/32" ∧ r.peerPublicKey = sampleKey
    ∧ r.endpoint = endpoint

/-- No name that is looked up for the endpoint of the sample is refused. -/
theorem not_refused_sample :
  ¬ Refused Platform.ascii silentBootstrap sampleEndpoint
  := by
  rintro ⟨host, hhost, hnumeric, -⟩
  have hall : ∀ host ∈ lookedUp Platform.ascii sampleEndpoint,
      Dns.WarpBootstrapDns.looksNumeric silentBootstrap.net (Dns.WarpBootstrapDns.lookupName
        silentBootstrap.net (silentBootstrap.net.lowercase (Text.trim host))) = false := by
    decide +kernel
  rw [hall host hhost] at hnumeric
  cases hnumeric

/-- The sample can be obtained from the API. -/
theorem exists_registered :
  ∃ r, Obtained asciiPlatform r ∧ IsSample r sampleEndpoint
  := by
  have haddress : cidr (Text.trim "172.16.0.2") = "172.16.0.2/32" := by decide +kernel
  have hendpoint : resolveEndpoint ⟨sampleKey, sampleEndpoint, "162.159.192.1:0"⟩
      = sampleEndpoint := by decide +kernel
  have hsome : (parseResponse asciiPlatform.toPlatform silentBootstrap sampleApi sampleKey
      sampleKey).isSome := by
    delta parseResponse sampleApi
    dsimp only
    rw [isSome_expandWith_iff]
    dsimp only
    rw [hendpoint]
    apply not_refused_sample
  obtain ⟨r, hr⟩ := Option.isSome_iff_exists.mp hsome
  refine ⟨r, Obtained.parsed hr, ?_⟩
  delta parseResponse sampleApi at hr
  dsimp only at hr
  obtain ⟨candidates, rfl⟩ := expandWith_eq_some hr
  exact ⟨rfl, haddress, rfl, hendpoint⟩

/-- A fixed text has no separator, by inspection. -/
theorem plain_of_all {s : String} (h : (s.toList.all fun c => !Regex.isSeparator c) = true) :
  ∀ c ∈ s.toList, Regex.isSeparator c = false
  := by
  intro c hc
  simpa using List.all_eq_true.mp h c hc

/-- The sample is writable with any endpoint that is. -/
theorem IsSample.writable {r : WarpConfig} {endpoint : String} (h : IsSample r endpoint)
    (hport : ':' ∈ endpoint.toList)
    (hplain : (endpoint.toList.all fun c => !Regex.isSeparator c) = true) :
  Writable r
  := by
  obtain ⟨hprivate, haddress, hpublic, hendpoint⟩ := h
  constructor
  · rw [hprivate]
    decide +kernel
  · rw [hpublic]
    decide +kernel
  · rw [haddress]
    decide +kernel
  · rw [haddress]
    decide +kernel
  · rw [hendpoint]
    apply hport
  · rw [hprivate, haddress, hpublic, hendpoint]
    simp only [List.forall_mem_cons, List.not_mem_nil, false_implies, implies_true, and_true]
    exact ⟨plain_of_all (by decide +kernel), plain_of_all (by decide +kernel),
      plain_of_all (by decide +kernel), plain_of_all hplain⟩

/-- With an endpoint whose host is a dotted number but no address, the text is not read back. -/
theorem not_reloads_misnumbered :
  ∃ r, Obtained asciiPlatform r ∧ Writable r ∧ r.endpoint = "1.2.3.999:x"
    ∧ ¬ Reloads asciiPlatform silentBootstrap r
  := by
  obtain ⟨r, hr, hprivate, haddress, hpublic, -⟩ := exists_registered
  have hmoved : Obtained asciiPlatform (withEndpoint r "1.2.3.999:x") := hr.moved "1.2.3.999:x"
  have hsample : IsSample (withEndpoint r "1.2.3.999:x") "1.2.3.999:x" := by
    delta withEndpoint
    exact ⟨hprivate, haddress, hpublic, rfl⟩
  have hwritable := hsample.writable (by decide +kernel) (by decide +kernel)
  refine ⟨_, hmoved, hwritable, hsample.2.2.2, ?_⟩
  rw [reloads_of_inStep asciiPlatform silentBootstrap (inStep_of_obtained hmoved) hwritable,
    not_not, hsample.2.2.2]
  refine ⟨"1.2.3.999", by decide +kernel, ?_⟩
  decide +kernel

/-- The text of the registered configuration is read back. -/
theorem reloads_registered :
  ∃ r, IsSample r sampleEndpoint ∧ Reloads asciiPlatform silentBootstrap r
  := by
  obtain ⟨r, hr, hsample⟩ := exists_registered
  have hwritable := hsample.writable (by decide +kernel) (by decide +kernel)
  refine ⟨r, hsample, ?_⟩
  apply ((reloads_iff asciiPlatform r hr).2 hwritable silentBootstrap).mpr
  rw [hsample.2.2.2]
  apply not_refused_sample

end WarpConfigGenerator

end Warp
