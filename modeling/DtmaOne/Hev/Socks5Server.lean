import DtmaOne.Hev.Socks5Client

/-!
# The server of the SOCKS5 protocol

The handshake of `hev-socks5-server.c`: the method, the credentials, the request and the response.
The authenticator, the resolution of names and the sockets are fields of the server.
-/

namespace Hev

open Network

/-- `HevSocks5Server`: the check of a name and a password, if there is an authenticator; the result of
`hev_socks5_name_into_sockaddr6`; the results of `hev_socks5_server_connect` and of
`hev_socks5_server_bind`, which may change the address, or gets none; and what is in the memory of
the address before it is written. -/
structure Socks5Server where
  auth : Option (List UInt8 → List UInt8 → Bool)
  nameInto : List UInt8 → List.Vector UInt8 2 → Except SockaddrIn6 SockaddrIn6
  connect : SockaddrIn6 → Bool
  bind : SockaddrIn6 → Bool × SockaddrIn6
  bindNull : Bool
  addr₀ : SockaddrIn6

namespace Socks5Server

variable {ρ : Type}

/-- `hev_socks5_server_read_auth_method` -/
def readAuthMethod (server : Socks5Server) (next : ℤ → Proc UInt8 ρ) : Proc UInt8 ρ :=
  .recv 2 fun
    | [ver, methodLen] =>
        if ver ≠ 5 then next (-1)
        else .recv methodLen.toNat fun methods =>
          if methods.length ≠ methodLen.toNat then next (-1)
          else
            let method : UInt8 := if server.auth.isSome then 2 else 0
            if method ∈ methods then next method.toNat else next (-1)
    | _ => next (-1)

/-- `hev_socks5_server_write_auth_method` -/
def writeAuthMethod (method : ℤ) (next : Proc UInt8 ρ) : Proc UInt8 ρ :=
  .send [5, UInt8.ofInt method] next

/-- `hev_socks5_authenticator_get` and `hev_socks5_user_check` -/
def checkUser (server : Socks5Server) (name pass : List UInt8) : Bool :=
  match server.auth with
  | none => false
  | some login => login name pass

/-- `hev_socks5_server_read_auth_user` -/
def readAuthUser (server : Socks5Server) (next : ℤ → Proc UInt8 ρ) : Proc UInt8 ρ :=
  .recv 2 fun
    | [ver, nlen] =>
        if ver ≠ 1 then next (-1)
        else if nlen = 0 then next (-1)
        else .recv (nlen.toNat + 1) fun name =>
          if name.length ≠ nlen.toNat + 1 then next (-1)
          else
            let plen := name.getD nlen.toNat 0
            if plen = 0 then next (-1)
            else .recv plen.toNat fun pass =>
              if pass.length ≠ plen.toNat then next (-1)
              else if server.checkUser (name.take nlen.toNat) pass then next 0
              else next (-1)
    | _ => next (-1)

/-- `hev_socks5_server_write_auth_user` -/
def writeAuthUser (res : ℤ) (next : Proc UInt8 ρ) : Proc UInt8 ρ :=
  .send [1, UInt8.ofInt res] next

/-- The case `HEV_SOCKS5_AUTH_METHOD_USER` of `hev_socks5_server_auth`. -/
def authUser (server : Socks5Server) (next : Proc UInt8 ρ) : Proc UInt8 ρ :=
  server.readAuthUser fun res => writeAuthUser res <| if res < 0 then .fail else next

/-- `hev_socks5_server_auth` -/
def authenticate (server : Socks5Server) (next : Proc UInt8 ρ) : Proc UInt8 ρ :=
  server.readAuthMethod fun method => writeAuthMethod method <|
    if method = 0 then next else if method = 2 then server.authUser next else .fail

/-- How many bytes follow the type and the first byte of an address in a request. -/
def addrlen (atype first : UInt8) : Option ℕ :=
  if atype = 1 then some 5
  else if atype = 4 then some 17
  else if atype = 3 then some (2 + first.toNat)
  else none

/-- `hev_socks5_server_read_request`: the reply of a request that is refused or the command of one
that is accepted, and the address. -/
def readRequest (server : Socks5Server) (next : Except UInt8 UInt8 → SockaddrIn6 → Proc UInt8 ρ) :
    Proc UInt8 ρ :=
  .recv 5 fun
    | [ver, cmd, _, atype, first] =>
        if ver ≠ 5 then next (.error 1) server.addr₀
        else
          match addrlen atype first with
          | none => next (.error 8) server.addr₀
          | some addrlen => .recv addrlen fun rest =>
              match Socks5Addr.ofBody atype (first :: rest) with
              | none => next (.error 8) server.addr₀
              | some addr =>
                  match addr.intoSockaddr6 server.nameInto with
                  | .error addr => next (.error 8) addr
                  | .ok addr => next (.ok cmd) addr
    | _ => .fail

/-- `hev_socks5_server_write_response` -/
def writeResponse (rep : UInt8) (addr : SockaddrIn6) (next : Proc UInt8 ρ) : Proc UInt8 ρ :=
  .send ([5, rep, 0] ++ (Socks5Addr.fromSockaddr6 addr).bytes) next

/-- The reply to a command, the type of the service, and the address. -/
def serve (server : Socks5Server) (cmd : UInt8) (addr : SockaddrIn6) :
    UInt8 × Socks5Type × SockaddrIn6 :=
  if cmd = 1 then (if server.connect addr then 0 else 4, .tcp, addr)
  else if cmd = 3 then
    let (bound, addr) := server.bind addr
    (if bound then 0 else 1, .udpInUdp, addr)
  else if cmd = 5 then (if server.bindNull then 0 else 1, .udpInTcp, addr)
  else (7, .none, addr)

/-- The end of `hev_socks5_server_handshake`, after the request. -/
def respond (server : Socks5Server) (request : Except UInt8 UInt8) (addr : SockaddrIn6) :
    Proc UInt8 (Socks5Type × SockaddrIn6) :=
  let (rep, type, addr) :=
    match request with
    | .error rep => (rep, .none, addr)
    | .ok cmd => server.serve cmd addr
  writeResponse rep addr <| if rep ≠ 0 then .fail else .done (type, addr)

/-- `hev_socks5_server_handshake`, which ends with the type of the service and the address. -/
def handshake (server : Socks5Server) : Proc UInt8 (Socks5Type × SockaddrIn6) :=
  server.authenticate <| server.readRequest server.respond

end Socks5Server

end Hev
