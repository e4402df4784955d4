import DtmaOne.Library.Text

/-!
# The state WARP shows

The data of `WarpStatus.kt`, `VpnStateHolder.kt` and of the WireGuard backend, as far as
`WarpController` reads and writes it.  The time of an update is not read by any function of
the controller and is left out, as are the flow count and the network context of the VPN
status, which WARP never sets.
-/

namespace Warp

/-- `WarpMode` -/
inductive WarpMode where
  | off
  | starting
  | on
  | unhealthy
  | error
  deriving DecidableEq, Repr

/-- `WarpLiveStatus` -/
structure WarpLiveStatus where
  mode : WarpMode := .off
  message : String := "WARP выключен"
  endpoint : Option String := none
  address : Option String := none
  rxBytes : ℤ := 0
  txBytes : ℤ := 0
  lastError : Option String := none
  startAttempts : ℕ := 0
  autoRegenUsed : ℕ := 0
  deriving DecidableEq, Repr

/-- `VpnUiState` -/
inductive VpnUiState where
  | off
  | starting
  | active
  | limited
  | unstable
  | error
  deriving DecidableEq, Repr

/-- `VpnRuntimeStatus` -/
structure VpnRuntimeStatus where
  state : VpnUiState := .off
  message : String := ""
  ipv4 : Bool := false
  ipv6 : Bool := false
  limitedMode : Bool := false
  deriving DecidableEq, Repr

/-- `Tunnel.State` -/
inductive TunnelState where
  | down
  | toggle
  | up
  deriving DecidableEq, Repr

/-- The name of a tunnel state, as `toString` gives it. -/
def TunnelState.name : TunnelState → String
  | .down => "DOWN"
  | .toggle => "TOGGLE"
  | .up => "UP"

/-- Functions of the platform the messages depend on. -/
structure Platform where
  /-- `WarpLiveStatus.formatBytes` -/
  formatBytes : ℤ → String
  /-- `Char.equals(ignoreCase = true)` -/
  sameIgnoringCase : Char → Char → Bool
  /-- The class `\d` of regular expressions. -/
  regexDigit : Char → Bool

/-- A platform for ASCII text that does not round byte counts. -/
def Platform.ascii : Platform where
  formatBytes n := toString n ++ " B"
  sameIgnoringCase a b := a.toLower = b.toLower
  regexDigit := Char.isDigit

end Warp
