import DtmaOne.Library.Collections
import DtmaOne.Library.Regex
import DtmaOne.Library.Run
import DtmaOne.Library.Text
import DtmaOne.Socks.Address
import Mathlib.Logic.Function.Basic

/-!
# The bootstrap resolver

`WarpBootstrapDns`: a host is looked up in a cache, over UDP, over HTTPS, in a table of hints and
by the system, in this order.  The table starts with the bundled addresses of three hosts, and
`remember` writes into it whatever was resolved.  As long as every answer that is remembered for a
host with bundled addresses contains these, `allCandidates` returns all of them; the first answer
that does not replaces them.

A call comes with what happens during it: the clock, and the answers of the resolvers.
-/

namespace Dns.WarpBootstrapDns

open Socks (Bytes InetAddress)

/-! ### Names and addresses -/

/-- What the resolver takes from the platform. -/
structure Net where
  /-- `s.lowercase()` -/
  lowercase : String → String
  /-- `InetAddress.getByName` for what is not an IPv4 address in decimal notation. -/
  resolve : String → Option InetAddress
  /-- The text of an IPv6 address. -/
  v6Text : Bytes → String
  /-- The class `\d` of regular expressions. -/
  regexDigit : Char → Bool
  regexDigit_ascii : ∀ c : Char, c.toNat < 128 → regexDigit c = c.isDigit

/-- A number below 256 in decimal notation. -/
def octet (s : String) : Option UInt8 :=
  ((Text.toIntOrNull s).filter fun n => 0 ≤ n ∧ n < 256 ∧ (toString n : String) = s).map
    fun n => UInt8.ofNat n.toNat

/-- An IPv4 address in decimal notation. -/
def parseIpv4 (s : String) : Option InetAddress :=
  match (Text.split '.' s).map octet with
  | [some a, some b, some c, some d] => some ⟨[a, b, c, d], Or.inl rfl⟩
  | _ => none

/-- `InetAddress.getByName`; `none` is `UnknownHostException`. -/
def getByName (net : Net) (s : String) : Option InetAddress :=
  match parseIpv4 s with
  | some a => some a
  | none => net.resolve s

/-- The text of an IPv4 address. -/
def v4Text (b : Bytes) : String :=
  Text.joinToString '.' (b.map fun x => (toString x.toNat : String))

/-- `a.hostAddress` -/
def hostAddress (net : Net) (a : InetAddress) : String :=
  if a.address.length = 4 then v4Text a.address else net.v6Text a.address

/-- `s.trimEnd('.')` -/
def trimEndDots (s : String) : String :=
  String.ofList (s.toList.reverse.dropWhile (· = '.')).reverse

/-- The name under which a host is looked up. -/
def lookupName (net : Net) (hostname : String) : String :=
  trimEndDots (net.lowercase (Text.trim hostname))

/-- The name matches `\d+\.\d+\.\d+\.\d+`. -/
def looksNumeric (net : Net) (host : String) : Bool :=
  Regex.dottedNumber net.regexDigit host

/-! ### The resolver -/

/-- `CACHE_MS` -/
def cacheMs : ℤ := 15 * 60000

/-- The hosts and addresses that `init` puts into `staticHints`. -/
def bundles : List (String × List String) :=
  [("api.cloudflareclient.com",
      ["104.16.192.82", "104.16.24.84", "104.16.132.229", "104.16.133.229", "104.18.25.176",
        "104.18.24.176", "104.19.192.29", "104.19.193.29"]),
    ("api.devices.cloudflare.com", ["162.159.137.105", "162.159.138.105"]),
    ("engage.cloudflareclient.com",
      ["162.159.192.1", "162.159.193.1", "162.159.195.1", "162.159.192.2", "162.159.193.5"])]

/-- The bundled addresses of a host. -/
def bundled (host : String) : Option (List String) :=
  bundles.lookup host

/-- The two maps of the object. -/
structure State where
  staticHints : String → Option (List String)
  cache : String → Option (ℤ × List InetAddress)

/-- The maps after `init`. -/
def init : State where
  staticHints := bundled
  cache := fun _ => none

/-- What happens during a lookup. -/
structure Answers where
  /-- `System.currentTimeMillis()` at the look into the cache -/
  now : ℤ
  /-- What `parallelUdpResolve` returns. -/
  udp : List InetAddress
  /-- What `dohResolve` returns. -/
  doh : List InetAddress
  /-- What `Dns.SYSTEM.lookup` returns, if it does. -/
  system : Option (List InetAddress)
  /-- `System.currentTimeMillis()` in `remember` -/
  storedAt : ℤ

/-- `remember` -/
def remember (net : Net) (s : State) (host : String) (list : List InetAddress) (storedAt : ℤ) :
    List InetAddress × State :=
  if list ≠ [] then
    (list,
      { staticHints := Function.update s.staticHints host (some (list.map (hostAddress net)))
        cache := Function.update s.cache host (some (storedAt, list)) })
  else (list, s)

/-- The entry of the cache that is still used. -/
def liveEntry (s : State) (host : String) (now : ℤ) : Option (ℤ × List InetAddress) :=
  (s.cache host).filter fun e => now - e.1 < cacheMs ∧ e.2 ≠ []

/-- The addresses of the hints for a host. -/
def hintAddresses (net : Net) (s : State) (host : String) : List InetAddress :=
  ((s.staticHints host).getD []).filterMap (getByName net)

/-- The stages after the cache. -/
def resolve (net : Net) (s : State) (host : String) (a : Answers) : List InetAddress × State :=
  if a.udp ≠ [] then remember net s host a.udp a.storedAt
  else if a.doh ≠ [] then remember net s host a.doh a.storedAt
  else if hintAddresses net s host ≠ [] then
    remember net s host (hintAddresses net s host) a.storedAt
  else
    match a.system with
    | some list => remember net s host list a.storedAt
    | none => ([], s)

/-- `lookup`; `none` is an exception. -/
def lookup (net : Net) (s : State) (hostname : String) (a : Answers) :
    Option (List InetAddress) × State :=
  let host := lookupName net hostname
  if host.isEmpty then (some [], s)
  else if looksNumeric net host then ((getByName net host).map fun x => [x], s)
  else
    match liveEntry s host a.now with
    | some e => (some e.2, s)
    | none => ((resolve net s host a).1, (resolve net s host a).2)

/-- `cache.remove` -/
def forget (s : State) (host : String) : State :=
  { s with cache := Function.update s.cache host none }

/-- `resolveFresh` -/
def resolveFresh (net : Net) (s : State) (hostname : String) (a : Answers) :
    Option (List InetAddress) × State :=
  lookup net (forget s (lookupName net hostname)) hostname a

/-- `allCandidates` -/
def allCandidates (net : Net) (s : State) (hostname : String) (a : Answers) :
    Option (List String) × State :=
  let host := net.lowercase (Text.trim hostname)
  match lookup net s host a with
  | (none, t) => (none, t)
  | (some list, t) =>
      (some (list.map (hostAddress net) ++ (t.staticHints host).getD []).eraseDups, t)

/-! ### Calls -/

/-- The functions that can be called. -/
inductive Op where
  | lookup
  | resolveFresh
  | allCandidates
  deriving DecidableEq

/-- A call, with what happens during it. -/
structure Call where
  op : Op
  hostname : String
  answers : Answers

/-- The maps after a call. -/
def step (net : Net) (s : State) (c : Call) : Option State :=
  match c.op with
  | .lookup => some (lookup net s c.hostname c.answers).2
  | .resolveFresh => some (resolveFresh net s c.hostname c.answers).2
  | .allCandidates => some (allCandidates net s c.hostname c.answers).2

/-- The name a call looks up. -/
def Call.host (net : Net) (c : Call) : String :=
  match c.op with
  | .allCandidates => lookupName net (net.lowercase (Text.trim c.hostname))
  | _ => lookupName net c.hostname

/-- The call is not answered from the cache. -/
def Call.Consults (net : Net) (s : State) (c : Call) : Prop :=
  match c.op with
  | .resolveFresh => True
  | _ => liveEntry s (c.host net) c.answers.now = none

/-- The answer of the resolvers that counts: that over UDP, or else that over HTTPS. -/
def Answers.resolved (a : Answers) : List InetAddress :=
  if a.udp ≠ [] then a.udp else a.doh

/-- If the call asks the resolvers for a host with bundled addresses, then they do not answer, or
their answer has all these addresses. -/
def Faithful (net : Net) (s : State) (c : Call) : Prop :=
  ∀ bundle, bundled (c.host net) = some bundle → c.Consults net s →
    c.answers.resolved ≠ [] → bundle ⊆ c.answers.resolved.map (hostAddress net)

/-- The call is answered with a list without duplicates that has all the bundled addresses. -/
def OffersBundle (net : Net) (s : State) (c : Call) (bundle : List String) : Prop :=
  ∃ out, (allCandidates net s c.hostname c.answers).1 = some out ∧ out.Nodup ∧ bundle ⊆ out

/-! ### The bundled addresses -/

theorem mem_bundles {host : String} {bundle : List String} (h : bundled host = some bundle) :
  (host, bundle) ∈ bundles
  := by
  obtain ⟨before, after, heq, -⟩ := List.lookup_eq_some_iff.mp h
  rw [heq]
  simp

/-- A host with bundled addresses is neither empty nor numeric. -/
theorem named_of_bundled (net : Net) {host : String} {bundle : List String}
    (h : bundled host = some bundle) :
  host.isEmpty = false ∧ looksNumeric net host = false
  := by
  have hall : ∀ b ∈ bundles, b.1.isEmpty = false ∧ 'c' ∈ b.1.toList := by decide +kernel
  obtain ⟨hempty, hc⟩ := hall _ (mem_bundles h)
  have hdigit : net.regexDigit 'c' = false := net.regexDigit_ascii 'c' (by decide)
  exact ⟨hempty, Regex.dottedNumber_eq_false hc (by decide) hdigit⟩

theorem ne_nil_of_bundled {host : String} {bundle : List String} (h : bundled host = some bundle) :
  bundle ≠ []
  := by
  have hall : ∀ b ∈ bundles, b.2 ≠ [] := by decide +kernel
  apply hall _ (mem_bundles h)

/-- The bundled addresses are IPv4 addresses, written as `hostAddress` writes them. -/
theorem getByName_of_bundled (net : Net) {host x : String} {bundle : List String}
    (h : bundled host = some bundle) (hx : x ∈ bundle) :
  ∃ a, getByName net x = some a ∧ hostAddress net a = x
  := by
  have hall : ∀ b ∈ bundles, ∀ y ∈ b.2,
      (parseIpv4 y).any fun a => a.address.length = 4 ∧ v4Text a.address = y := by
    decide +kernel
  have hany := hall _ (mem_bundles h) x hx
  rw [Option.any_eq_true] at hany
  obtain ⟨a, ha, htext⟩ := hany
  obtain ⟨hfour, htext⟩ := of_decide_eq_true htext
  refine ⟨a, ?_, ?_⟩
  · rw [getByName, ha]
  · rw [hostAddress, if_pos hfour, htext]

/-! ### One call -/

/-- No bundled address is lost: the hints of a host have all of its bundled addresses, and so has
what is cached for it. -/
structure Kept (net : Net) (s : State) : Prop where
  hints : ∀ host bundle, bundled host = some bundle →
    ∃ hints, s.staticHints host = some hints ∧ bundle ⊆ hints
  entries : ∀ host bundle e, bundled host = some bundle → s.cache host = some e →
    bundle ⊆ e.2.map (hostAddress net)

section Step

variable {net : Net} {s : State} {host : String}

theorem kept_init (net : Net) :
  Kept net init
  := by
  constructor
  · intro host bundle hbundle
    exact ⟨bundle, hbundle, List.Subset.refl bundle⟩
  · intro host bundle e _ he
    cases he

theorem kept_forget (h : Kept net s) (host : String) :
  Kept net (forget s host)
  := by
  use h.hints
  intro host' bundle e hbundle he
  change Function.update s.cache host none host' = some e at he
  by_cases heq : host' = host
  · subst heq
    rw [Function.update_self] at he
    cases he
  · rw [Function.update_of_ne heq] at he
    apply h.entries host' bundle e hbundle he

/-- Remembering a list keeps the bundled addresses if the list has them. -/
theorem kept_remember (h : Kept net s) {list : List InetAddress} {storedAt : ℤ}
    (hlist : ∀ bundle, bundled host = some bundle → list ≠ [] →
      bundle ⊆ list.map (hostAddress net)) :
  Kept net (remember net s host list storedAt).2
  := by
  rw [remember]
  split_ifs with hempty
  · constructor
    · intro host' bundle hbundle
      by_cases heq : host' = host
      · subst heq
        exact ⟨_, Function.update_self _ _ _, hlist bundle hbundle hempty⟩
      · obtain ⟨hints, hhints, hsub⟩ := h.hints host' bundle hbundle
        refine ⟨hints, ?_, hsub⟩
        rw [← hhints]
        apply Function.update_of_ne heq
    · intro host' bundle e hbundle he
      change Function.update s.cache host (some (storedAt, list)) host' = some e at he
      by_cases heq : host' = host
      · subst heq
        rw [Function.update_self, Option.some.injEq] at he
        rw [← he]
        apply hlist bundle hbundle hempty
      · rw [Function.update_of_ne heq] at he
        apply h.entries host' bundle e hbundle he
  · apply h

theorem remember_fst (list : List InetAddress) (storedAt : ℤ) :
  (remember net s host list storedAt).1 = list
  := by
  rw [remember]
  split_ifs <;> rfl

/-- The addresses of the hints have all the bundled ones. -/
theorem bundle_subset_hintAddresses (h : Kept net s) {bundle : List String}
    (hbundle : bundled host = some bundle) :
  bundle ⊆ (hintAddresses net s host).map (hostAddress net)
  := by
  intro x hx
  obtain ⟨hints, hhints, hsub⟩ := h.hints host bundle hbundle
  obtain ⟨a, ha, htext⟩ := getByName_of_bundled net hbundle hx
  rw [List.mem_map]
  refine ⟨a, ?_, htext⟩
  rw [hintAddresses, hhints, List.mem_filterMap]
  exact ⟨x, hsub hx, ha⟩

/-- The stages after the cache, when the resolvers answer faithfully or not at all. -/
theorem resolve_spec (h : Kept net s) {a : Answers}
    (ha : ∀ bundle, bundled host = some bundle → a.resolved ≠ [] →
      bundle ⊆ a.resolved.map (hostAddress net)) :
  Kept net (resolve net s host a).2
    ∧ ∀ bundle, bundled host = some bundle →
        bundle ⊆ (resolve net s host a).1.map (hostAddress net)
  := by
  rw [Answers.resolved] at ha
  rw [resolve]
  split_ifs with hudp hdoh hhints
  · rw [if_pos hudp] at ha
    refine ⟨kept_remember h ha, ?_⟩
    intro bundle hbundle
    rw [remember_fst]
    apply ha bundle hbundle hudp
  · rw [if_neg hudp] at ha
    refine ⟨kept_remember h ha, ?_⟩
    intro bundle hbundle
    rw [remember_fst]
    apply ha bundle hbundle hdoh
  · constructor
    · apply kept_remember h
      intro bundle hbundle _
      apply bundle_subset_hintAddresses h hbundle
    · intro bundle hbundle
      rw [remember_fst]
      apply bundle_subset_hintAddresses h hbundle
  · have hplain : bundled host = none := by
      by_contra hsome
      obtain ⟨bundle, hbundle⟩ := Option.ne_none_iff_exists'.mp hsome
      have hsub := bundle_subset_hintAddresses h hbundle
      rw [not_not.mp hhints, List.map_nil, List.subset_nil] at hsub
      apply ne_nil_of_bundled hbundle hsub
    constructor
    · cases a.system with
      | none => apply h
      | some list =>
          apply kept_remember h
          intro bundle hbundle
          rw [hplain] at hbundle
          cases hbundle
    · intro bundle hbundle
      rw [hplain] at hbundle
      cases hbundle

/-- A lookup keeps the bundled addresses, and returns those of the host it looks up. -/
theorem lookup_spec (h : Kept net s) {hostname : String} {a : Answers}
    (ha : ∀ bundle, bundled (lookupName net hostname) = some bundle →
      liveEntry s (lookupName net hostname) a.now = none → a.resolved ≠ [] →
      bundle ⊆ a.resolved.map (hostAddress net)) :
  Kept net (lookup net s hostname a).2
    ∧ ∀ bundle, bundled (lookupName net hostname) = some bundle →
        ∃ list, (lookup net s hostname a).1 = some list ∧ bundle ⊆ list.map (hostAddress net)
  := by
  rw [lookup]
  split_ifs with hempty hnumeric
  · refine ⟨h, ?_⟩
    intro bundle hbundle
    rw [(named_of_bundled net hbundle).1] at hempty
    cases hempty
  · refine ⟨h, ?_⟩
    intro bundle hbundle
    rw [(named_of_bundled net hbundle).2] at hnumeric
    cases hnumeric
  · cases hlive : liveEntry s (lookupName net hostname) a.now with
    | some e =>
        refine ⟨h, ?_⟩
        intro bundle hbundle
        obtain ⟨hentry, -⟩ := Option.filter_eq_some_iff.mp hlive
        exact ⟨e.2, rfl, h.entries _ bundle e hbundle hentry⟩
    | none =>
        have hanswer : ∀ bundle, bundled (lookupName net hostname) = some bundle →
            a.resolved ≠ [] → bundle ⊆ a.resolved.map (hostAddress net) := by
          intro bundle hbundle
          apply ha bundle hbundle hlive
        obtain ⟨hkept, hsub⟩ := resolve_spec h hanswer
        refine ⟨hkept, ?_⟩
        intro bundle hbundle
        exact ⟨_, rfl, hsub bundle hbundle⟩

theorem allCandidates_snd (hostname : String) (a : Answers) :
  (allCandidates net s hostname a).2
    = (lookup net s (net.lowercase (Text.trim hostname)) a).2
  := by
  rw [allCandidates]
  rcases lookup net s (net.lowercase (Text.trim hostname)) a with ⟨_ | list, t⟩
  · rfl
  · rfl

/-- A faithful call keeps the bundled addresses. -/
theorem kept_step {t : State} {c : Call} (h : Kept net s) (hc : Faithful net s c)
    (hstep : step net s c = some t) :
  Kept net t
  := by
  obtain ⟨op, hostname, a⟩ := c
  cases op with
  | lookup =>
      obtain rfl := Option.some.inj hstep
      exact (lookup_spec h hc).1
  | resolveFresh =>
      obtain rfl := Option.some.inj hstep
      apply (lookup_spec (kept_forget h _) _).1
      intro bundle hbundle _
      apply hc bundle hbundle trivial
  | allCandidates =>
      obtain rfl := Option.some.inj hstep
      rw [allCandidates_snd]
      exact (lookup_spec h hc).1

/-- A faithful call of `allCandidates` offers the bundled addresses. -/
theorem offersBundle_of_kept {c : Call} {bundle : List String} (h : Kept net s)
    (hop : c.op = .allCandidates) (hc : Faithful net s c)
    (hbundle : bundled (c.host net) = some bundle) :
  OffersBundle net s c bundle
  := by
  obtain ⟨op, hostname, a⟩ := c
  obtain rfl : op = .allCandidates := hop
  obtain ⟨list, hlist, hsub⟩ := (lookup_spec h hc).2 bundle hbundle
  rw [OffersBundle, allCandidates]
  rcases hlookup : lookup net s (net.lowercase (Text.trim hostname)) a with ⟨_ | list', t⟩
  · rw [hlookup] at hlist
    cases hlist
  · rw [hlookup, Option.some.injEq] at hlist
    refine ⟨_, rfl, Collections.nodup_eraseDups _, ?_⟩
    intro x hx
    rw [List.mem_eraseDups, List.mem_append]
    left
    rw [hlist]
    apply hsub hx

/-- An exception is raised exactly for a dotted number that is no address. -/
theorem allCandidates_eq_none_iff (hostname : String) (a : Answers) :
  (allCandidates net s hostname a).1 = none
    ↔ looksNumeric net (lookupName net (net.lowercase (Text.trim hostname))) = true
      ∧ getByName net (lookupName net (net.lowercase (Text.trim hostname))) = none
  := by
  have hsame : (allCandidates net s hostname a).1 = none
      ↔ (lookup net s (net.lowercase (Text.trim hostname)) a).1 = none := by
    rw [allCandidates]
    rcases lookup net s (net.lowercase (Text.trim hostname)) a with ⟨_ | list, t⟩
    · simp
    · simp
  rw [hsame, lookup]
  generalize lookupName net (net.lowercase (Text.trim hostname)) = host
  split_ifs with hempty hnumeric
  · rw [String.isEmpty_iff.mp hempty]
    simp [looksNumeric, Regex.dottedNumber_empty]
  · simp [hnumeric]
  · cases liveEntry s host a.now with
    | some e => simp [hnumeric]
    | none => simp [hnumeric]

end Step

/-! ### Whole runs -/

/-- In every run of faithful calls, every call of `allCandidates` for a host with bundled addresses
returns a list without duplicates that has all of them. -/
theorem offersBundle_run (net : Net) (calls : List Call)
    (hok : Run.Meets (step net) (Faithful net) init calls) (earlier : List Call) (c : Call)
    (hc : earlier ++ [c] <+: calls) (s : State)
    (hrun : Run.exec (step net) init earlier = some s) (hop : c.op = .allCandidates)
    (bundle : List String) (hbundle : bundled (c.host net) = some bundle) :
  OffersBundle net s c bundle
  := by
  have hstep : ∀ s c t, Kept net s → Faithful net s c → step net s c = some t → Kept net t := by
    intro s c t h hc hstep
    apply kept_step h hc hstep
  have hearlier : earlier <+: calls := (List.prefix_append earlier [c]).trans hc
  have hkept := Run.invariant_of_meets_prefix hstep (kept_init net) hok hearlier hrun
  apply offersBundle_of_kept hkept hop (Run.ok_of_meets hok hc hrun) hbundle

/-- A platform for names in lower case. -/
def plainNet : Net where
  lowercase := id
  resolve := fun _ => none
  v6Text := fun _ => ""
  regexDigit := Char.isDigit
  regexDigit_ascii := fun _ _ => rfl

/-- An address that no host has bundled. -/
def poison : InetAddress :=
  ⟨[6, 6, 6, 6], Or.inl rfl⟩

/-- A lookup of the registration host that is answered over UDP with a wrong address. -/
def poisonedLookup : Call :=
  ⟨.lookup, "api.cloudflareclient.com", ⟨1000, [poison], [], none, 1100⟩⟩

/-- A call of `allCandidates` for the registration host, when nothing answers. -/
def silentCandidates : Call :=
  ⟨.allCandidates, "api.cloudflareclient.com", ⟨2000, [], [], none, 2100⟩⟩

/-- After the wrong answer the bundled addresses are gone. -/
theorem not_offersBundle_poisoned :
  ∃ s, Run.exec (step plainNet) init [poisonedLookup] = some s
    ∧ (allCandidates plainNet s silentCandidates.hostname silentCandidates.answers).1
      = some ["6.6.6.6"]
    ∧ ∃ bundle, bundled (silentCandidates.host plainNet) = some bundle
      ∧ ¬ OffersBundle plainNet s silentCandidates bundle
  := by
  have hresult : (allCandidates plainNet
      (lookup plainNet init poisonedLookup.hostname poisonedLookup.answers).2
      silentCandidates.hostname silentCandidates.answers).1 = some ["6.6.6.6"] := by
    decide +kernel
  refine ⟨_, rfl, hresult, _, rfl, ?_⟩
  rintro ⟨out, hout, -, hsub⟩
  rw [hresult, Option.some.injEq] at hout
  have hmem : "104.16.192.82" ∈ out := hsub (by decide +kernel)
  rw [← hout] at hmem
  revert hmem
  decide +kernel

/-- Without an answer the bundled addresses are offered. -/
theorem offersBundle_silent :
  ∃ bundle, bundled (silentCandidates.host plainNet) = some bundle
    ∧ OffersBundle plainNet init silentCandidates bundle
  := by
  refine ⟨_, rfl, ?_⟩
  have hok : Run.Meets (step plainNet) (Faithful plainNet) init [silentCandidates] := by
    refine ⟨?_, fun _ _ => trivial⟩
    intro bundle _ _ hanswer
    exact absurd rfl hanswer
  apply offersBundle_run plainNet [silentCandidates] hok [] silentCandidates
    (List.prefix_refl _) init rfl rfl
  rfl

end Dns.WarpBootstrapDns
