import DtmaOne.Hev.Socks5Server

/-!
# The handshake of client and server

The client and the server of the SOCKS5 protocol over one connection: whatever the order of their
steps, and whether the client waits for the answers or not, both come to the same end, which
`agreed` says.
-/

namespace Hev.Socks5Handshake

open Network Socks5Client

/-- The part of a string that is sent with its length. -/
def sent (text : List UInt8) : List UInt8 :=
  text.take (UInt8.ofNat text.length).toNat

/-- The credentials that are sent satisfy the server. -/
def satisfies (server : Socks5Server) (user password : List UInt8) : Prop :=
  sent user ≠ [] ∧ sent password ≠ [] ∧ server.checkUser (sent user) (sent password)

instance (server : Socks5Server) (user password : List UInt8) :
    Decidable (satisfies server user password) :=
  inferInstanceAs (Decidable (_ ∧ _ ∧ _))

/-- The server lets the client in. -/
def accepts (client : Socks5Client) (server : Socks5Server) : Bool :=
  match client.creds, server.auth with
  | none, none => true
  | some (user, password), some _ => satisfies server user password
  | _, _ => false

/-- The reply to the request of the client, the type of the service and the address. -/
def answer (cmd : UInt8) (addr : Socks5Addr) (server : Socks5Server) :
    UInt8 × Socks5Type × SockaddrIn6 :=
  match addr.intoSockaddr6 server.nameInto with
  | .error addr => (8, .none, addr)
  | .ok addr => server.serve cmd addr

/-- The service the two agree on: its type and its address. -/
def agreed (client : Socks5Client) (server : Socks5Server) : Option (Socks5Type × SockaddrIn6) :=
  match cmd client.type with
  | none => none
  | some cmd =>
      let (rep, service) := answer cmd client.upstreamAddr server
      if accepts client server ∧ rep = 0 then some service else none

/-- How the client ends: with the address of the service, if it can use it. -/
def clientEnd (client : Socks5Client) (server : Socks5Server) : Proc UInt8 Socks5Addr :=
  match agreed client server with
  | none => .fail
  | some (_, addr) =>
      if client.setUpstreamAddr (Socks5Addr.fromSockaddr6 addr) then
        .done (Socks5Addr.fromSockaddr6 addr)
      else .fail

/-- How the server ends. -/
def serverEnd (client : Socks5Client) (server : Socks5Server) :
    Proc UInt8 (Socks5Type × SockaddrIn6) :=
  match agreed client server with
  | none => .fail
  | some service => .done service

/-! ### The texts -/

theorem counted_eq (text : List UInt8) : counted text = UInt8.ofNat text.length :: sent text
  := rfl

theorem length_sent (text : List UInt8) : (sent text).length = (UInt8.ofNat text.length).toNat
  := by
  rw [sent, List.length_take, Nat.min_eq_left]
  rw [UInt8.toNat_ofNat']
  apply Nat.mod_le

theorem sent_eq_nil_iff (text : List UInt8) : sent text = [] ↔ UInt8.ofNat text.length = 0
  := by
  rw [← List.length_eq_zero_iff, length_sent, ← UInt8.toNat_inj, UInt8.toNat_zero]

/-- What follows the type of an address in a request, as the server reads it. -/
theorem exists_body (addr : Socks5Addr) :
  ∃ first rest, addr.body = first :: rest
    ∧ Socks5Server.addrlen addr.atype first = some rest.length
  := by
  cases addr with
  | ipv4 addr port =>
      obtain ⟨_ | ⟨first, addr⟩, haddr⟩ := addr
      · cases haddr
      · refine ⟨first, addr ++ port.toList, rfl, ?_⟩
        rw [List.length_append, Nat.succ.inj haddr, List.Vector.toList_length]
        rfl
  | ipv6 addr port =>
      obtain ⟨_ | ⟨first, addr⟩, haddr⟩ := addr
      · cases haddr
      · refine ⟨first, addr ++ port.toList, rfl, ?_⟩
        rw [List.length_append, Nat.succ.inj haddr, List.Vector.toList_length]
        rfl
  | name addr len port =>
      refine ⟨_, _, rfl, ?_⟩
      have hlen : (UInt8.ofNat addr.length).toNat = addr.length := UInt8.toNat_ofNat_of_lt' len
      rw [List.length_append, List.Vector.toList_length, Nat.add_comm]
      simp [Socks5Server.addrlen, Socks5Addr.atype, hlen]

/-! ### The steps of the server -/

section Server

variable {ρ τ : Type} {p : Proc UInt8 ρ} {l r : List UInt8} (server : Socks5Server)

/-- The greeting of a client is read; its method is the one the server asks for, or refused. -/
theorem server_readAuthMethod (next : ℤ → Proc UInt8 τ) (method : UInt8) :
  Reaches Net.step ⟨p, server.readAuthMethod next, l, 5 :: 1 :: method :: r⟩
    ⟨p, next (if method = if server.auth.isSome then 2 else 0 then method.toNat else -1), l, r⟩
  := by
  have hhead : 5 :: 1 :: method :: r = [5, 1] ++ method :: r := rfl
  have hmethods : method :: r = [method] ++ r := rfl
  apply (Net.reaches_recv_right hhead rfl).trans
  apply (Net.reaches_recv_right hmethods rfl).trans
  by_cases hmethod : method = if server.auth.isSome then 2 else 0
  · simp [← hmethod, Reaches.refl]
  · have hnot : (if server.auth.isSome then (2 : UInt8) else 0) ≠ method := Ne.symm hmethod
    simp [hmethod, hnot, Reaches.refl]

/-- The credentials are read to their end, unless one of them is empty. -/
theorem server_readAuthUser (next : ℤ → Proc UInt8 τ) (user password : List UInt8) :
  ∃ unread, Reaches Net.step
      ⟨p, server.readAuthUser next, l, 1 :: (counted user ++ counted password) ++ r⟩
      ⟨p, next (if sent user ≠ [] ∧ sent password ≠ []
          ∧ server.checkUser (sent user) (sent password) then 0 else -1), l, unread⟩
    ∧ (sent user ≠ [] → sent password ≠ [] → unread = r)
  := by
  have hhead : 1 :: (counted user ++ counted password) ++ r
      = [1, UInt8.ofNat user.length] ++ (sent user ++ counted password ++ r) := by
    simp [counted_eq]
  have hname : sent user ++ counted password ++ r
      = (sent user ++ [UInt8.ofNat password.length]) ++ (sent password ++ r) := by
    simp [counted_eq]
  by_cases huser : sent user = []
  · refine ⟨sent user ++ counted password ++ r, ?_, fun h => absurd huser h⟩
    apply (Net.reaches_recv_right hhead rfl).trans
    simp [(sent_eq_nil_iff user).mp huser, huser, Reaches.refl]
  · have hnlen : UInt8.ofNat user.length ≠ 0 := mt (sent_eq_nil_iff user).mpr huser
    have hblock : (sent user ++ [UInt8.ofNat password.length]).length
        = (UInt8.ofNat user.length).toNat + 1 := by
      rw [List.length_append, length_sent, List.length_singleton]
    have hplen : (sent user ++ [UInt8.ofNat password.length]).getD
        (UInt8.ofNat user.length).toNat 0 = UInt8.ofNat password.length := by
      rw [← length_sent, List.getD_eq_getElem?_getD, List.getElem?_concat_length]
      rfl
    have htake : (sent user ++ [UInt8.ofNat password.length]).take (UInt8.ofNat user.length).toNat
        = sent user := List.take_left' (length_sent user)
    by_cases hpass : sent password = []
    · refine ⟨sent password ++ r, ?_, fun _ h => absurd hpass h⟩
      apply (Net.reaches_recv_right hhead rfl).trans
      simp only [ne_eq, not_true_eq_false, if_false, hnlen]
      apply (Net.reaches_recv_right hname hblock).trans
      simp only [hblock, hplen, not_true_eq_false, if_false]
      simp [(sent_eq_nil_iff password).mp hpass, hpass, Reaches.refl]
    · have hplen' : UInt8.ofNat password.length ≠ 0 := mt (sent_eq_nil_iff password).mpr hpass
      refine ⟨r, ?_, fun _ _ => rfl⟩
      apply (Net.reaches_recv_right hhead rfl).trans
      simp only [ne_eq, not_true_eq_false, if_false, hnlen]
      apply (Net.reaches_recv_right hname hblock).trans
      simp only [hblock, hplen, htake, not_true_eq_false, if_false, hplen']
      apply (Net.reaches_recv_right rfl (length_sent password)).trans
      simp only [length_sent, not_true_eq_false, if_false, huser, hpass, not_false_eq_true,
        true_and]
      cases server.checkUser (sent user) (sent password) <;> exact Reaches.refl _

/-- The request of a client is read to its end. -/
theorem server_readRequest
    (next : Except UInt8 UInt8 → SockaddrIn6 → Proc UInt8 τ) (cmd : UInt8) (addr : Socks5Addr) :
  Reaches Net.step ⟨p, server.readRequest next, l, [5, cmd, 0] ++ addr.bytes ++ r⟩
    ⟨p, match addr.intoSockaddr6 server.nameInto with
      | .error addr => next (.error 8) addr
      | .ok addr => next (.ok cmd) addr, l, r⟩
  := by
  obtain ⟨first, rest, hbody, hlen⟩ := exists_body addr
  have hhead : [5, cmd, 0] ++ addr.bytes ++ r = [5, cmd, 0, addr.atype, first] ++ (rest ++ r) := by
    simp [Socks5Addr.bytes, hbody]
  apply (Net.reaches_recv_right hhead rfl).trans
  simp only [ne_eq, not_true_eq_false, if_false, hlen]
  apply (Net.reaches_recv_right rfl rfl).trans
  rw [← hbody, Socks5Addr.ofBody_body]
  dsimp only
  cases addr.intoSockaddr6 server.nameInto <;> exact Reaches.refl _

end Server

/-! ### The steps of the client -/

section Client

variable {ρ τ : Type} {q : Proc UInt8 τ} {l r : List UInt8}

theorem client_readAuthMethod (next : UInt8 → Proc UInt8 ρ) (method : UInt8) :
  Reaches Net.step ⟨readAuthMethod next, q, 5 :: method :: l, r⟩ ⟨next method, q, l, r⟩
  := by
  have hhead : 5 :: method :: l = [5, method] ++ l := rfl
  apply (Net.reaches_recv_left hhead rfl).trans
  simp [Reaches.refl]

theorem client_readAuthCreds (next : Proc UInt8 ρ) (rep : UInt8) :
  Reaches Net.step ⟨readAuthCreds next, q, 1 :: rep :: l, r⟩
    ⟨if rep = 0 then next else .fail, q, l, r⟩
  := by
  have hhead : 1 :: rep :: l = [1, rep] ++ l := rfl
  apply (Net.reaches_recv_left hhead rfl).trans
  simp [Reaches.refl]

/-- What follows the type of an address that is no name, as the client reads it. -/
theorem addrlen_of_not_name {addr : Socks5Addr} (h : addr.atype ≠ 3) :
  addrlen addr.atype = some addr.body.length
  := by
  cases addr with
  | ipv4 addr port => simp [addrlen, Socks5Addr.atype, Socks5Addr.body]
  | ipv6 addr port => simp [addrlen, Socks5Addr.atype, Socks5Addr.body]
  | name addr len port => exact absurd rfl h

/-- A response is read: to its end if it grants the request. -/
theorem client_readResponse
    (client : Socks5Client) (next : Socks5Addr → Proc UInt8 ρ) (rep : UInt8) {addr : Socks5Addr}
    (haddr : addr.atype ≠ 3) :
  ∃ unread, Reaches Net.step ⟨client.readResponse next, q, [5, rep, 0] ++ addr.bytes ++ l, r⟩
      ⟨if rep = 0 ∧ client.setUpstreamAddr addr then next addr else .fail, q, unread, r⟩
    ∧ (rep = 0 → unread = l)
  := by
  have hhead : [5, rep, 0] ++ addr.bytes ++ l = [5, rep, 0, addr.atype] ++ (addr.body ++ l) := by
    simp [Socks5Addr.bytes]
  by_cases hrep : rep = 0
  · refine ⟨l, ?_, fun _ => rfl⟩
    apply (Net.reaches_recv_left hhead rfl).trans
    simp only [ne_eq, not_true_eq_false, if_false, hrep, addrlen_of_not_name haddr, true_and]
    apply (Net.reaches_recv_left rfl rfl).trans
    rw [Socks5Addr.ofBody_body]
    exact Reaches.refl _
  · refine ⟨addr.body ++ l, ?_, fun h => absurd h hrep⟩
    apply (Net.reaches_recv_left hhead rfl).trans
    simp [hrep, Reaches.refl]

end Client

/-! ### The authentication -/

section Authentication

variable {ρ τ : Type} {p : Proc UInt8 ρ} {l r : List UInt8} {server : Socks5Server}
  {client : Socks5Client}

/-- A server without credentials lets a client without them in. -/
theorem authenticate_none (hauth : server.auth = none) (next : Proc UInt8 τ) :
  Reaches Net.step ⟨p, server.authenticate next, l, 5 :: 1 :: 0 :: r⟩ ⟨p, next, l ++ [5, 0], r⟩
  := by
  apply (server_readAuthMethod server _ 0).trans
  simp only [hauth, Option.isSome_none, if_true, Bool.false_eq_true, if_false]
  apply Net.reaches_send_right [5, 0]

/-- A server with credentials asks a client with them. -/
theorem authenticate_user (hauth : server.auth.isSome) (next : Proc UInt8 τ) :
  Reaches Net.step ⟨p, server.authenticate next, l, 5 :: 1 :: 2 :: r⟩
    ⟨p, server.authUser next, l ++ [5, 2], r⟩
  := by
  apply (server_readAuthMethod server _ 2).trans
  simp only [hauth, if_true]
  apply Net.reaches_send_right [5, 2]

/-- A server refuses a client whose method is another one. -/
theorem authenticate_refused
    {method : UInt8} (hmethod : method ≠ if server.auth.isSome then 2 else 0)
    (next : Proc UInt8 τ) :
  Reaches Net.step ⟨p, server.authenticate next, l, 5 :: 1 :: method :: r⟩
    ⟨p, .fail, l ++ [5, 255], r⟩
  := by
  apply (server_readAuthMethod server _ method).trans
  rw [if_neg hmethod]
  apply Net.reaches_send_right [5, 255]

/-- The credentials are read and answered. -/
theorem authUser_reaches
    (server : Socks5Server) (user password : List UInt8) (next : Proc UInt8 τ) :
  ∃ unread, Reaches Net.step
      ⟨p, server.authUser next, l, 1 :: (counted user ++ counted password) ++ r⟩
      ⟨p, if satisfies server user password then next else .fail,
        l ++ [1, if satisfies server user password then 0 else 255], unread⟩
    ∧ (satisfies server user password → unread = r)
  := by
  obtain ⟨unread, hreach, hunread⟩ := server_readAuthUser (p := p) (l := l) (r := r) server
    (fun res => Socks5Server.writeAuthUser res <| if res < 0 then .fail else next) user password
  refine ⟨unread, hreach.trans ?_, fun h => hunread h.1 h.2.1⟩
  by_cases hcheck : satisfies server user password
  · rw [if_pos hcheck, if_pos hcheck]
    have hcheck' := hcheck
    unfold satisfies at hcheck'
    rw [if_pos hcheck']
    apply Net.reaches_send_right [1, 0]
  · rw [if_neg hcheck, if_neg hcheck]
    unfold satisfies at hcheck
    rw [if_neg hcheck]
    apply Net.reaches_send_right [1, 255]

/-- The standard client and the server come through the authentication together, or both fail. -/
theorem standard_reaches
    (client : Socks5Client) (server : Socks5Server) (next : Proc UInt8 ρ) (next' : Proc UInt8 τ) :
  ∃ unreadL unreadR, Reaches Net.step
      ⟨client.writeAuthMethods <| readAuthMethod <| client.authStandard next,
        server.authenticate next', [], []⟩
      ⟨if accepts client server then next else .fail,
        if accepts client server then next' else .fail, unreadL, unreadR⟩
    ∧ (accepts client server → unreadL = [] ∧ unreadR = [])
  := by
  cases hcreds : client.creds with
  | none =>
      cases hauth : server.auth with
      | none =>
          have haccepts : accepts client server = true := by
            simp [accepts, hcreds, hauth]
          refine ⟨[], [], ?_, fun _ => ⟨rfl, rfl⟩⟩
          apply (Net.reaches_send_left _).trans
          simp only [hcreds, haccepts, if_true, Option.isSome_none, Bool.false_eq_true, if_false]
          apply (authenticate_none hauth next').trans
          apply (client_readAuthMethod _ 0).trans
          simp [authStandard, Reaches.refl]
      | some login =>
          have haccepts : accepts client server = false := by
            simp [accepts, hcreds, hauth]
          have hmethod : (0 : UInt8) ≠ if server.auth.isSome then 2 else 0 := by
            simp [hauth]
          refine ⟨[], [], ?_, fun h => absurd h (by simp [haccepts])⟩
          apply (Net.reaches_send_left _).trans
          simp only [hcreds, haccepts, Option.isSome_none, Bool.false_eq_true, if_false]
          apply (authenticate_refused hmethod next').trans
          apply (client_readAuthMethod _ 255).trans
          simp [authStandard, Reaches.refl]
  | some creds =>
      obtain ⟨user, password⟩ := creds
      cases hauth : server.auth with
      | none =>
          have haccepts : accepts client server = false := by
            simp [accepts, hcreds, hauth]
          have hmethod : (2 : UInt8) ≠ if server.auth.isSome then 2 else 0 := by
            simp [hauth]
          refine ⟨[], [], ?_, fun h => absurd h (by simp [haccepts])⟩
          apply (Net.reaches_send_left _).trans
          simp only [hcreds, haccepts, Option.isSome_some, Bool.false_eq_true, if_true, if_false]
          apply (authenticate_refused hmethod next').trans
          apply (client_readAuthMethod _ 255).trans
          simp [authStandard, Reaches.refl]
      | some login =>
          have hasks : server.auth.isSome := by
            rw [hauth]
            rfl
          have haccepts : accepts client server = satisfies server user password := by
            simp [accepts, hcreds, hauth]
          obtain ⟨unread, hreach, hunread⟩ := authUser_reaches (p := readAuthCreds next) (l := [])
            (r := []) server user password next'
          refine ⟨[], unread, ?_, fun h => ⟨rfl, hunread (by simpa [haccepts] using h)⟩⟩
          apply (Net.reaches_send_left _).trans
          simp only [hcreds, Option.isSome_some, if_true]
          apply (authenticate_user hasks next').trans
          apply (client_readAuthMethod _ 2).trans
          simp only [authStandard, if_true, writeAuthCreds, hcreds]
          apply (Net.reaches_send_left _).trans
          rw [List.append_nil] at hreach
          apply hreach.trans
          apply (client_readAuthCreds next _).trans
          by_cases hcheck : satisfies server user password <;>
            simp [haccepts, hcheck, Reaches.refl]

/-- What the server writes during the authentication. -/
def replies (client : Socks5Client) (server : Socks5Server) : List UInt8 :=
  match client.creds, server.auth with
  | none, none => [5, 0]
  | some (user, password), some _ => [5, 2, 1, if satisfies server user password then 0 else 255]
  | _, _ => [5, 255]

/-- What a pipelined client writes during the authentication. -/
def offer (client : Socks5Client) : List UInt8 :=
  match client.creds with
  | none => [5, 1, 0]
  | some (user, password) => [5, 1, 2] ++ 1 :: (counted user ++ counted password)

/-- The server goes through the authentication with all that the client has written. -/
theorem server_authenticate
    (client : Socks5Client) (server : Socks5Server) (next : Proc UInt8 τ) :
  ∃ unread, Reaches Net.step ⟨p, server.authenticate next, [], offer client ++ r⟩
      ⟨p, if accepts client server then next else .fail, replies client server, unread⟩
    ∧ (accepts client server → unread = r)
  := by
  cases hcreds : client.creds with
  | none =>
      cases hauth : server.auth with
      | none =>
          refine ⟨r, ?_, fun _ => rfl⟩
          simp only [offer, accepts, replies, hcreds, hauth, if_true]
          apply authenticate_none hauth next
      | some login =>
          have hmethod : (0 : UInt8) ≠ if server.auth.isSome then 2 else 0 := by
            simp [hauth]
          refine ⟨r, ?_, fun _ => rfl⟩
          simp only [offer, accepts, replies, hcreds, hauth, Bool.false_eq_true, if_false]
          apply authenticate_refused hmethod next
  | some creds =>
      obtain ⟨user, password⟩ := creds
      cases hauth : server.auth with
      | none =>
          have hmethod : (2 : UInt8) ≠ if server.auth.isSome then 2 else 0 := by
            simp [hauth]
          have hrefused : accepts client server = false := by
            simp [accepts, hcreds, hauth]
          refine ⟨1 :: (counted user ++ counted password) ++ r, ?_, by simp [hrefused]⟩
          simp only [offer, accepts, replies, hcreds, hauth, Bool.false_eq_true, if_false]
          apply authenticate_refused hmethod next
      | some login =>
          have hasks : server.auth.isSome := by
            rw [hauth]
            rfl
          obtain ⟨unread, hreach, hunread⟩ := authUser_reaches (p := p) (l := [5, 2]) (r := r)
            server user password next
          refine ⟨unread, ?_, fun h => hunread (by simpa [accepts, hcreds, hauth] using h)⟩
          simp only [offer, accepts, replies, hcreds, hauth, decide_eq_true_eq]
          apply (authenticate_user hasks next).trans
          exact hreach

/-- The pipelined client reads what the server has written during the authentication. -/
theorem client_authPipeline
    (client : Socks5Client) (server : Socks5Server) {q : Proc UInt8 τ} (next : Proc UInt8 ρ) :
  Reaches Net.step ⟨readAuthMethod <| authPipeline next, q, replies client server, r⟩
    ⟨if accepts client server then next else .fail, q, [], r⟩
  := by
  cases hcreds : client.creds with
  | none =>
      cases hauth : server.auth with
      | none =>
          simp only [accepts, replies, hcreds, hauth, if_true]
          apply (client_readAuthMethod _ 0).trans
          simp [authPipeline, Reaches.refl]
      | some login =>
          simp only [accepts, replies, hcreds, hauth]
          apply (client_readAuthMethod _ 255).trans
          simp [authPipeline, Reaches.refl]
  | some creds =>
      obtain ⟨user, password⟩ := creds
      cases hauth : server.auth with
      | none =>
          simp only [accepts, replies, hcreds, hauth]
          apply (client_readAuthMethod _ 255).trans
          simp [authPipeline, Reaches.refl]
      | some login =>
          simp only [accepts, replies, hcreds, hauth, decide_eq_true_eq]
          apply (client_readAuthMethod _ 2).trans
          apply (client_readAuthCreds next _).trans
          by_cases hcheck : satisfies server user password <;> simp [hcheck, Reaches.refl]

end Authentication

/-! ### The request -/

section Request

variable {server : Socks5Server} {client : Socks5Client}

/-- The server ends its handshake with the answer. -/
theorem respond_eq (cmd : UInt8) (addr : Socks5Addr) :
  (match addr.intoSockaddr6 server.nameInto with
    | .error addr => server.respond (.error 8) addr
    | .ok addr => server.respond (.ok cmd) addr)
  = Socks5Server.writeResponse (answer cmd addr server).1 (answer cmd addr server).2.2
      (if (answer cmd addr server).1 ≠ 0 then .fail else .done (answer cmd addr server).2)
  := by
  unfold answer
  cases addr.intoSockaddr6 server.nameInto with
  | error addr => rfl
  | ok addr => rfl

/-- A client that was let in and has written its request comes to its end, and so does the server. -/
theorem request_reaches
    {cmd : UInt8} (hcmd : Socks5Client.cmd client.type = some cmd)
    (haccepts : accepts client server = true) :
  ∃ unread, Reaches Net.step
      ⟨client.readResponse .done, server.readRequest server.respond, [],
        [5, cmd, 0] ++ client.upstreamAddr.bytes⟩
      ⟨clientEnd client server, serverEnd client server, unread, []⟩
    ∧ ((agreed client server).isSome → unread = [])
  := by
  have hread := server_readRequest (p := client.readResponse .done) (l := []) (r := []) server
    server.respond cmd client.upstreamAddr
  rw [List.append_nil, respond_eq] at hread
  have hagreed : agreed client server = if (answer cmd client.upstreamAddr server).1 = 0
      then some (answer cmd client.upstreamAddr server).2 else none := by
    simp [agreed, hcmd, haccepts]
  rw [clientEnd, serverEnd, hagreed]
  generalize answer cmd client.upstreamAddr server = reply at hread ⊢
  obtain ⟨rep, type, saddr⟩ := reply
  obtain ⟨unread, hresponse, hunread⟩ := client_readResponse (l := []) (r := [])
    (q := if rep ≠ 0 then .fail else .done (type, saddr)) client .done rep
    (Socks5Addr.atype_fromSockaddr6 saddr)
  rw [List.append_nil] at hresponse
  refine ⟨unread, ?_, ?_⟩
  · apply hread.trans
    apply (Net.reaches_send_right _).trans
    apply hresponse.trans
    by_cases hrep : rep = 0 <;> simp [hrep, Reaches.refl]
  · intro hsome
    apply hunread
    by_contra hrep
    simp [hrep] at hsome

/-- A server waits for no request of a client that has failed. -/
theorem readRequest_closed {l : List UInt8} {ρ τ : Type}
    (next : Except UInt8 UInt8 → SockaddrIn6 → Proc UInt8 τ) :
  Reaches Net.step ⟨(.fail : Proc UInt8 ρ), server.readRequest next, l, []⟩ ⟨.fail, .fail, l, []⟩
  := Net.reaches_recv_right_closed (Nat.zero_le 5)

theorem ends_of_refused (h : agreed client server = none) :
  clientEnd client server = .fail ∧ serverEnd client server = .fail
  := by
  simp [clientEnd, serverEnd, h]

theorem agreed_of_refused (h : accepts client server = false) : agreed client server = none
  := by
  cases hcmd : Socks5Client.cmd client.type <;> simp [agreed, hcmd, h]

theorem agreed_of_cmd (server : Socks5Server) (h : Socks5Client.cmd client.type = none) :
  agreed client server = none
  := by
  simp [agreed, h]

/-- A request that is granted is served as the type of its command. -/
theorem type_of_answer
    {cmd : UInt8} (hcmd : Socks5Client.cmd client.type = some cmd) {addr : Socks5Addr}
    {service : Socks5Type × SockaddrIn6} (hrep : (answer cmd addr server).1 = 0)
    (hservice : (answer cmd addr server).2 = service) :
  service.1 = client.type
  := by
  subst hservice
  unfold answer at hrep ⊢
  cases hinto : addr.intoSockaddr6 server.nameInto with
  | error saddr =>
      rw [hinto] at hrep
      cases hrep
  | ok saddr =>
      cases htype : client.type with
      | none =>
          rw [htype] at hcmd
          cases hcmd
      | tcp =>
          rw [htype] at hcmd
          cases hcmd
          rfl
      | udpInTcp =>
          rw [htype] at hcmd
          cases hcmd
          rfl
      | udpInUdp =>
          rw [htype] at hcmd
          cases hcmd
          rfl

/-- The service is of the type the client has asked for. -/
theorem type_of_agreed
    {type : Socks5Type} {addr : SockaddrIn6} (h : agreed client server = some (type, addr)) :
  type = client.type
  := by
  cases hcmd : Socks5Client.cmd client.type with
  | none =>
      rw [agreed_of_cmd server hcmd] at h
      cases h
  | some cmd =>
      simp only [agreed, hcmd] at h
      rw [ite_eq_iff] at h
      obtain ⟨⟨-, hrep⟩, hservice⟩ | ⟨-, h⟩ := h
      · exact type_of_answer hcmd hrep (Option.some.inj hservice)
      · cases h

theorem ended_clientEnd : (clientEnd client server).ended
  := by
  unfold clientEnd
  cases agreed client server with
  | none => rfl
  | some service =>
      dsimp only
      split_ifs <;> rfl

theorem ended_serverEnd : (serverEnd client server).ended
  := by
  unfold serverEnd
  cases agreed client server with
  | none => rfl
  | some service => rfl

/-! ### The handshake -/

theorem standard_handshake_reaches :
  ∃ unreadL unreadR, Reaches Net.step ⟨client.handshakeStandard, server.handshake, [], []⟩
      ⟨clientEnd client server, serverEnd client server, unreadL, unreadR⟩
    ∧ ((agreed client server).isSome → unreadL = [] ∧ unreadR = [])
  := by
  obtain ⟨unreadL, unreadR, hauth, hunread⟩ := standard_reaches client server
    (client.writeRequest <| client.readResponse .done)
    (server.readRequest server.respond)
  cases haccepts : accepts client server with
  | false =>
      have hagreed := agreed_of_refused haccepts
      obtain ⟨hclient, hserver⟩ := ends_of_refused hagreed
      rw [hclient, hserver]
      refine ⟨unreadL, unreadR, ?_, by simp [hagreed]⟩
      simp only [haccepts, Bool.false_eq_true, if_false] at hauth
      exact hauth
  | true =>
      obtain ⟨rfl, rfl⟩ := hunread haccepts
      simp only [haccepts, if_true] at hauth
      cases hcmd : Socks5Client.cmd client.type with
      | none =>
          have hagreed := agreed_of_cmd server hcmd
          obtain ⟨hclient, hserver⟩ := ends_of_refused hagreed
          rw [hclient, hserver]
          refine ⟨[], [], hauth.trans ?_, by simp [hagreed]⟩
          simp only [writeRequest, hcmd]
          apply readRequest_closed
      | some cmd =>
          obtain ⟨unread, hrequest, hunread'⟩ := request_reaches hcmd haccepts
          refine ⟨unread, [], hauth.trans ?_, fun h => ⟨hunread' h, rfl⟩⟩
          simp only [writeRequest, hcmd]
          exact (Net.reaches_send_left _).trans hrequest

/-- A pipelined client writes its credentials at once. -/
theorem reaches_offer
    (client : Socks5Client) {ρ τ : Type} (next : Proc UInt8 ρ) (q : Proc UInt8 τ) :
  Reaches Net.step ⟨client.writeAuthMethods <| client.writeAuthCreds next, q, [], []⟩
    ⟨next, q, [], offer client⟩
  := by
  apply (Net.reaches_send_left _).trans
  cases hcreds : client.creds with
  | none =>
      simp only [writeAuthCreds, offer, hcreds]
      apply Reaches.refl
  | some creds =>
      simp only [writeAuthCreds, offer, hcreds]
      apply Net.reaches_send_left

theorem pipeline_handshake_reaches :
  ∃ unreadL unreadR, Reaches Net.step ⟨client.handshakePipeline, server.handshake, [], []⟩
      ⟨clientEnd client server, serverEnd client server, unreadL, unreadR⟩
    ∧ ((agreed client server).isSome → unreadL = [] ∧ unreadR = [])
  := by
  have hoffer := reaches_offer client
    (client.writeRequest <| readAuthMethod <| authPipeline <| client.readResponse .done)
    server.handshake
  cases hcmd : Socks5Client.cmd client.type with
  | none =>
      have hagreed := agreed_of_cmd server hcmd
      obtain ⟨hclient, hserver⟩ := ends_of_refused hagreed
      obtain ⟨unread, hauth, hunread⟩ := server_authenticate client server
        (p := (.fail : Proc UInt8 Socks5Addr)) (r := []) (server.readRequest server.respond)
      rw [hclient, hserver]
      rw [List.append_nil] at hauth
      refine ⟨replies client server, unread, hoffer.trans ?_, by simp [hagreed]⟩
      simp only [writeRequest, hcmd]
      apply hauth.trans
      cases haccepts : accepts client server with
      | false => exact Reaches.refl _
      | true =>
          obtain rfl := hunread haccepts
          apply readRequest_closed
  | some cmd =>
      obtain ⟨unread, hauth, hunread⟩ := server_authenticate client server
        (p := readAuthMethod <| authPipeline <| client.readResponse .done)
        (r := [5, cmd, 0] ++ client.upstreamAddr.bytes) (server.readRequest server.respond)
      have hreplied := hauth.trans (client_authPipeline client server (client.readResponse .done))
      cases haccepts : accepts client server with
      | false =>
          have hagreed := agreed_of_refused haccepts
          obtain ⟨hclient, hserver⟩ := ends_of_refused hagreed
          rw [hclient, hserver]
          refine ⟨[], unread, hoffer.trans ?_, by simp [hagreed]⟩
          simp only [writeRequest, hcmd]
          simp only [haccepts, Bool.false_eq_true, if_false] at hreplied
          exact (Net.reaches_send_left _).trans hreplied
      | true =>
          obtain rfl := hunread haccepts
          simp only [haccepts, if_true] at hreplied
          obtain ⟨unread', hrequest, hunread'⟩ := request_reaches hcmd haccepts
          refine ⟨unread', [], hoffer.trans ?_, fun h => ⟨hunread' h, rfl⟩⟩
          simp only [writeRequest, hcmd]
          exact (Net.reaches_send_left _).trans (hreplied.trans hrequest)

/-- The handshake ends, and in only one way, whatever the order of the steps and in both modes of the
client: with the service the two agree on, which is of the type the client has asked for, and nothing
left unread on the connection; or with the failure of both.  A client that cannot use the address it is
given fails alone. -/
theorem handshake_settles (client : Socks5Client) (server : Socks5Server) (pipeline : Bool) :
  ∃ unreadL unreadR,
    Settles Net.step ⟨client.handshake pipeline, server.handshake, [], []⟩
      ⟨clientEnd client server, serverEnd client server, unreadL, unreadR⟩
    ∧ ∀ type addr, agreed client server = some (type, addr) →
      type = client.type ∧ unreadL = [] ∧ unreadR = []
  := by
  have hreaches : ∃ unreadL unreadR, Reaches Net.step
        ⟨client.handshake pipeline, server.handshake, [], []⟩
        ⟨clientEnd client server, serverEnd client server, unreadL, unreadR⟩
      ∧ ((agreed client server).isSome → unreadL = [] ∧ unreadR = []) := by
    cases pipeline with
    | true => exact pipeline_handshake_reaches
    | false => exact standard_handshake_reaches
  obtain ⟨unreadL, unreadR, hreach, hunread⟩ := hreaches
  refine ⟨unreadL, unreadR, ?_, ?_⟩
  · apply Net.diamond.settles _ hreach
    exact Net.terminal_of_ended ended_clientEnd ended_serverEnd
  · intro type addr hagreed
    have hsome : (agreed client server).isSome := by
      rw [hagreed]
      rfl
    exact ⟨type_of_agreed hagreed, hunread hsome⟩

end Request

end Hev.Socks5Handshake
