import DtmaOne.Hev.Socks5Addr
import DtmaOne.Library.Network

/-!
# The client of the SOCKS5 protocol

The handshake of `hev-socks5-client.c`, in its two modes: the standard one waits for every answer
before it goes on, and the pipelined one writes all it has to say first.  What is written is written
in full, and the timeouts do not expire.

Every function is given what comes after it as `next`.
-/

namespace Hev

open Network

/-- `HevSocks5Type` -/
inductive Socks5Type where
  | none
  | tcp
  | udpInTcp
  | udpInUdp
  deriving DecidableEq

/-- `HevSocks5Client`: the credentials, the type, and the two functions of the class: the address that
is asked for, and whether the address in the response can be used. -/
structure Socks5Client where
  user : Option (List UInt8)
  pass : Option (List UInt8)
  type : Socks5Type
  upstreamAddr : Socks5Addr
  setUpstreamAddr : Socks5Addr → Bool

namespace Socks5Client

variable {ρ : Type}

/-- The credentials, if there are both. -/
def creds (client : Socks5Client) : Option (List UInt8 × List UInt8) :=
  match client.user, client.pass with
  | some user, some pass => some (user, pass)
  | _, _ => none

/-- `hev_socks5_client_write_auth_methods` -/
def writeAuthMethods (client : Socks5Client) (next : Proc UInt8 ρ) : Proc UInt8 ρ :=
  .send [5, 1, if client.creds.isSome then 2 else 0] next

/-- A string with its length in front.  The length is one byte, and as many bytes are sent. -/
def counted (text : List UInt8) : List UInt8 :=
  let len := UInt8.ofNat text.length
  len :: text.take len.toNat

/-- `hev_socks5_client_write_auth_creds` -/
def writeAuthCreds (client : Socks5Client) (next : Proc UInt8 ρ) : Proc UInt8 ρ :=
  match client.creds with
  | none => next
  | some (user, pass) => .send (1 :: (counted user ++ counted pass)) next

/-- The command of a request. -/
def cmd : Socks5Type → Option UInt8
  | .none => none
  | .tcp => some 1
  | .udpInTcp => some 5
  | .udpInUdp => some 3

/-- `hev_socks5_client_write_request` -/
def writeRequest (client : Socks5Client) (next : Proc UInt8 ρ) : Proc UInt8 ρ :=
  match cmd client.type with
  | none => .fail
  | some cmd => .send ([5, cmd, 0] ++ client.upstreamAddr.bytes) next

/-- `hev_socks5_client_read_auth_method` -/
def readAuthMethod (next : UInt8 → Proc UInt8 ρ) : Proc UInt8 ρ :=
  .recv 2 fun
    | [ver, method] => if ver ≠ 5 then .fail else next method
    | _ => .fail

/-- `hev_socks5_client_read_auth_creds` -/
def readAuthCreds (next : Proc UInt8 ρ) : Proc UInt8 ρ :=
  .recv 2 fun
    | [ver, rep] => if ver ≠ 1 then .fail else if rep ≠ 0 then .fail else next
    | _ => .fail

/-- How many bytes of an address follow its type in a response. -/
def addrlen (atype : UInt8) : Option ℕ :=
  if atype = 1 then some 6 else if atype = 4 then some 18 else none

/-- `hev_socks5_client_read_response` -/
def readResponse (client : Socks5Client) (next : Socks5Addr → Proc UInt8 ρ) : Proc UInt8 ρ :=
  .recv 4 fun
    | [ver, rep, _, atype] =>
        if ver ≠ 5 then .fail
        else if rep ≠ 0 then .fail
        else
          match addrlen atype with
          | none => .fail
          | some addrlen => .recv addrlen fun body =>
              match Socks5Addr.ofBody atype body with
              | none => .fail
              | some addr => if client.setUpstreamAddr addr then next addr else .fail
    | _ => .fail

/-- What `hev_socks5_client_handshake_standard` does with the method of the server. -/
def authStandard (client : Socks5Client) (next : Proc UInt8 ρ) (method : UInt8) : Proc UInt8 ρ :=
  if method = 2 then client.writeAuthCreds <| readAuthCreds next
  else if method ≠ 0 then .fail
  else next

/-- `hev_socks5_client_handshake_standard` -/
def handshakeStandard (client : Socks5Client) : Proc UInt8 Socks5Addr :=
  client.writeAuthMethods <| readAuthMethod <| client.authStandard <|
    client.writeRequest <| client.readResponse .done

/-- What `hev_socks5_client_handshake_pipeline` does with the method of the server. -/
def authPipeline (next : Proc UInt8 ρ) (method : UInt8) : Proc UInt8 ρ :=
  if method = 2 then readAuthCreds next else if method ≠ 0 then .fail else next

/-- `hev_socks5_client_handshake_pipeline` -/
def handshakePipeline (client : Socks5Client) : Proc UInt8 Socks5Addr :=
  client.writeAuthMethods <| client.writeAuthCreds <| client.writeRequest <|
    readAuthMethod <| authPipeline <| client.readResponse .done

/-- `hev_socks5_client_handshake`, which ends with the address of the response. -/
def handshake (client : Socks5Client) (pipeline : Bool) : Proc UInt8 Socks5Addr :=
  if pipeline then client.handshakePipeline else client.handshakeStandard

end Socks5Client

end Hev
