import NetGuard.Engine.Session

/-! # What the engine sees and does

Every call that leaves the engine is one entry of a trace: writes to the tun,
socket calls, upcalls into the service. The environment answers each call as a
function of the trace of the current dispatch, so a theorem over all environments
covers every result of every call, equal calls with different results included.
-/
namespace NetGuard.Engine

/-- `struct arguments`, the log level and the global SOCKS5 settings. `sdk` is at least the
`minSdk` of the app. -/
structure Arguments where
  observeOnly : Bool
  logTraffic : Bool
  sdk : {n : Int // 22 ≤ n}
  loglevel : Int
  socks5Addr : List UInt8
  socks5Port : Int
  socks5Username : {s : List UInt8 // s.length ≤ 127}
  socks5Password : {s : List UInt8 // s.length ≤ 127}

def Arguments.proxy (args : Arguments) : Bool :=
  !args.socks5Addr.isEmpty && args.socks5Port != 0

structure Query where
  version : IpVersion
  protocol : UInt8
  saddr : Address
  sport : UInt16
  daddr : Address
  dport : UInt16
  deriving DecidableEq, Repr

/-- A packet built for the tun: the session it is built from and its payload. -/
inductive TunPacket
  | tcp (cur : TcpSession) (data : List UInt8) (syn ack fin rst : Bool)
  | udp (cur : UdpSession) (data : List UInt8)
  | icmp (cur : IcmpSession) (data : List UInt8)

inductive Upcall
  | isQuicBlocked (uid : Int)
  | isAddressAllowed (q : Query) (uid : Int)
  | isDomainBlocked (uid : Int) (name : List UInt8)
  | sniResolved (name : List UInt8) (q : Query) (uid : Int)
  | getUid (q : Query)
  | getUidCached (q : Query)
  | cacheUid (q : Query) (uid : Int)
  | dnsResponse (data : List UInt8) (uid : Int)
  | logTraffic (q : Query) (length : Nat) (uid : Int) (allowed outgoing : Bool)

/-- One call with what came of it. For `send` the first argument after the socket
is the sequence number the app gave the first byte offered, and the last one the
number of bytes accepted; `none` is an error. -/
inductive Output
  | tun (packet : TunPacket) (written : Bool)
  | socket (fd : Int)
  | protect (fd : Int) (ok : Bool)
  | nonBlocking (fd : Int) (ok : Bool)
  | connect (fd : Int) (daddr : Address) (dest : UInt16) (ok : Bool)
  | epollCtl (fd : Int) (events : Events) (ok : Bool)
  | probe (fd : Int)
  | send (fd : Int) (seq : UInt32) (offered : List UInt8) (accepted : Option Nat)
  | socksSend (fd : Int) (message : List UInt8) (accepted : Option Nat)
  | sendto (fd : Int) (daddr : Address) (dest : UInt16) (message : List UInt8) (ok : Bool)
  | recv (fd : Int) (bytes : List UInt8)
  | socksRecv (fd : Int) (bytes : List UInt8)
  | close (fd : Int)
  | upcall (u : Upcall)
  | hang

abbrev Trace := List Output

/-- The result of `send` for `len` offered bytes; `retry` is `EINTR` or `EAGAIN`. -/
inductive SendResult (len : Nat)
  | accepted (n : Fin (len + 1))
  | retry
  | failed

inductive RecvResult (size : Nat)
  | data (bytes : List UInt8) (bound : bytes ≠ [] ∧ bytes.length ≤ size)
  | eof
  | retry
  | failed

inductive SendtoResult
  | complete
  | retry
  | failed

/-- The answers of the kernel and of the service, given the trace so far.
`sendBuf` is `SO_SNDBUF` and `unsent` is `SIOCOUTQ`, both non-negative `int`s. -/
structure Env where
  time : Trace → Int
  ms : Trace → Int
  rand : Trace → UInt32
  tunWrite : Trace → Bool
  socket : Trace → Int
  protect : Trace → Bool
  nonBlocking : Trace → Bool
  connect : Trace → Bool
  epollCtl : Trace → Bool
  sendBuf : Trace → Fin (2 ^ 31)
  unsent : Trace → Fin (2 ^ 31)
  send : Trace → (len : Nat) → SendResult len
  sendto : Trace → SendtoResult
  recv : Trace → (size : Nat) → RecvResult size
  isQuicBlocked : Trace → Int → Bool
  isAddressAllowed : Trace → Query → Int → Bool
  isDomainBlocked : Trace → Int → List UInt8 → Bool
  getUid : Trace → Query → Int
  getUidCached : Trace → Query → Int

/-- The environment as seen after the calls `pre` of the same dispatch. -/
def Env.after (env : Env) (pre : Trace) : Env where
  time t := env.time (pre ++ t)
  ms t := env.ms (pre ++ t)
  rand t := env.rand (pre ++ t)
  tunWrite t := env.tunWrite (pre ++ t)
  socket t := env.socket (pre ++ t)
  protect t := env.protect (pre ++ t)
  nonBlocking t := env.nonBlocking (pre ++ t)
  connect t := env.connect (pre ++ t)
  epollCtl t := env.epollCtl (pre ++ t)
  sendBuf t := env.sendBuf (pre ++ t)
  unsent t := env.unsent (pre ++ t)
  send t := env.send (pre ++ t)
  sendto t := env.sendto (pre ++ t)
  recv t := env.recv (pre ++ t)
  isQuicBlocked t := env.isQuicBlocked (pre ++ t)
  isAddressAllowed t := env.isAddressAllowed (pre ++ t)
  isDomainBlocked t := env.isDomainBlocked (pre ++ t)
  getUid t := env.getUid (pre ++ t)
  getUidCached t := env.getUidCached (pre ++ t)

/-- An environment in which every call succeeds: `send` takes all it is offered, the
server has said nothing yet and every rule allows. -/
def Env.calm : Env where
  time _ := 0
  ms _ := 0
  rand _ := 0
  tunWrite _ := true
  socket _ := 7
  protect _ := true
  nonBlocking _ := true
  connect _ := true
  epollCtl _ := true
  sendBuf _ := 0
  unsent _ := 0
  send _ len := .accepted (Fin.last len)
  sendto _ := .complete
  recv _ _ := .retry
  isQuicBlocked _ _ := false
  isAddressAllowed _ _ _ := true
  isDomainBlocked _ _ _ := false
  getUid _ _ := 1000
  getUidCached _ _ := -1

def Env.byte (env : Env) (b : UInt8) : Env :=
  { env with recv := fun _ size =>
      if h : 1 ≤ size then .data [b] ⟨List.cons_ne_nil _ _, h⟩ else .retry }

def Env.taking (env : Env) (n : Nat) : Env :=
  { env with send := fun _ len => .accepted ⟨min n len, by omega⟩ }

/-- `protect_socket`: whether the caller goes on, and the calls made. -/
def protectSocket (env : Env) (args : Arguments) (sock : Int) (out : Trace) : Bool × Trace :=
  if args.sdk.val ≥ 21 then (true, out)
  else
    let isProtected := env.protect out
    (isProtected, out ++ [.protect sock isProtected])

/-- No Android that the app runs on is asked. -/
@[simp] theorem protectSocket_eq (env : Env) (args : Arguments) (sock : Int) (out : Trace) :
    protectSocket env args sock out = (true, out) :=
  if_pos (Int.le_trans (by decide) args.sdk.property)

def Arguments.direct : Arguments where
  observeOnly := false
  logTraffic := false
  sdk := ⟨30, by decide⟩
  loglevel := 5
  socks5Addr := []
  socks5Port := 0
  socks5Username := ⟨[], by decide⟩
  socks5Password := ⟨[], by decide⟩

structure Context where
  ngSession : List NgSession
  out : Trace

def Context.emit (ctx : Context) (o : Output) : Context := { ctx with out := ctx.out ++ [o] }

end NetGuard.Engine
