import DtmaOne.Library.Regex
import DtmaOne.Warp.Status

/-!
# WARP configurations

A configuration of `WarpConfigGenerator` with the endpoints it may be tried with.
`expandEndpoints` puts the own endpoint of a configuration first, and after it the known
addresses of the WARP gateways with the ports they listen on.
-/

namespace Warp

/-- `WarpConfigGenerator.Result` -/
structure WarpConfig where
  confText : String
  addressV4 : String
  endpoint : String
  clientId : String
  privateKey : String
  publicKey : String
  endpointCandidates : List String
  peerPublicKey : String := ""
  source : String := "api"
  deriving DecidableEq, Repr

namespace WarpEndpoint

/-- `WarpEndpoint.splitIpv4AndPort` -/
def splitIpv4AndPort (raw : String) : String × Option ℤ :=
  let s := Text.trim raw
  match Text.splitLast ':' s with
  | none => (s, none)
  | some (ip, after) =>
      if ip.isEmpty then (s, none)
      else
        match Text.toIntOrNull after with
        | none => (s, none)
        | some maybePort => if ':' ∈ ip.toList then (s, none) else (ip, some maybePort)

end WarpEndpoint

namespace WarpConfigGenerator

/-- `WarpConfigGenerator.PEER_PORTS` -/
def peerPorts : List ℤ := [2408, 443, 500, 1701, 4500, 4443, 8443, 8095]

/-- `WarpConfigGenerator.confFor` -/
def confFor (privateKeyB64 addressCidr peerPublicKey endpoint : String) : String :=
  "[Interface]\n" ++
  "PrivateKey = " ++ privateKeyB64 ++ "\n" ++
  "Address = " ++ addressCidr ++ "\n" ++
  "DNS = 1.1.1.1\n" ++
  "MTU = 1280\n" ++
  "\n" ++
  "[Peer]\n" ++
  "PublicKey = " ++ peerPublicKey ++ "\n" ++
  "AllowedIPs = 0.0.0.0/0\n" ++
  "Endpoint = " ++ endpoint ++ "\n" ++
  "PersistentKeepalive = 25\n"

/-- `WarpConfigGenerator.withEndpoint` -/
def withEndpoint (base : WarpConfig) (endpoint : String) : WarpConfig :=
  { base with
    confText := confFor base.privateKey base.addressV4 base.peerPublicKey endpoint
    endpoint := endpoint }

/-- The host name of the WARP gateways. -/
def engageHost : String := "engage.cloudflareclient.com"

/-- The addresses of the gateways that are always tried. -/
def engageHints : List String :=
  ["162.159.192.1", "162.159.193.1", "162.159.195.1", "162.159.192.2", "162.159.193.5"]

/-- The string matches `\d+\.\d+\.\d+\.\d+`. -/
def looksLikeIpv4 (platform : Platform) (s : String) : Bool :=
  Regex.dottedNumber platform.regexDigit s

/-- The addresses `expandEndpoints` combines with the ports; `allCandidates` is
`WarpBootstrapDns.allCandidates`. -/
def expandIps (platform : Platform) (allCandidates : String → List String) (hostOrIp : String) :
    List String :=
  let own :=
    if looksLikeIpv4 platform hostOrIp then [hostOrIp]
    else
      let host := Text.substringBefore ':' hostOrIp
      allCandidates (if Text.isBlank host then engageHost else host) ++ allCandidates engageHost
  (own ++ engageHints).eraseDups

/-- `WarpConfigGenerator.expandEndpoints` -/
@[irreducible]
def expandEndpoints (platform : Platform) (allCandidates : String → List String)
    (base : WarpConfig) : WarpConfig :=
  let (hostOrIp, portHint) := WarpEndpoint.splitIpv4AndPort base.endpoint
  let basePort :=
    match portHint with
    | some port => if 1 ≤ port ∧ port ≤ 65535 then port else 2408
    | none => 2408
  let ports := (basePort :: peerPorts).eraseDups
  let combined := (expandIps platform allCandidates hostOrIp).flatMap fun ip =>
    ports.map fun p => ip ++ ":" ++ toString p
  let out := base.endpoint :: combined ++ peerPorts.map fun p => engageHost ++ ":" ++ toString p
  let candidates := out.eraseDups.take 10
  let primary := candidates.headD base.endpoint
  { base with
    confText := confFor base.privateKey base.addressV4 base.peerPublicKey primary
    endpoint := primary
    endpointCandidates := candidates }

end WarpConfigGenerator

end Warp
