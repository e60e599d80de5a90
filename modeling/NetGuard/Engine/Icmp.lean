import NetGuard.Engine.TcpSocket

/-! # ICMP sessions

`icmp.c`. One session carries all echo requests between two hosts; the identifier
is complemented on the way out and put back on the way in.
-/
namespace NetGuard.Engine

def getIcmpTimeout (sessions maxsessions : Int) : Int := scaleTimeout 5 sessions maxsessions

structure Echo where
  icmp : IcmpSession
  socket : Int
  out : Trace

def Echo.emit (e : Echo) (o : Output) : Echo := { e with out := e.out ++ [o] }

def hostWord (w : UInt16) : List UInt8 := [UInt8.ofNat w.toNat, UInt8.ofNat (w.toNat / 256)]

def netWord (w : UInt16) : List UInt8 := [UInt8.ofNat (w.toNat / 256), UInt8.ofNat w.toNat]

/-- An ICMP message with the bytes of its checksum (2 and 3) and of its identifier
(4 and 5) overwritten, as far as the message reaches. -/
def patchIcmp (cksum id : List UInt8) (message : List UInt8) : List UInt8 :=
  (message.take 2 ++ cksum ++ id ++ message.drop 6).take message.length

def rewriteIcmp (csum id : UInt16) (message : List UInt8) : List UInt8 :=
  let zeroed := patchIcmp [0, 0] (netWord id) message
  patchIcmp (hostWord (~~~ calcChecksum csum zeroed)) (netWord id) message

/-- `struct ip6_hdr_pseudo`, whose length field is the four bytes `len`. -/
def ip6Pseudo (src dst : Address) (len : List UInt8) (nxt : UInt8) : List UInt8 :=
  src ++ dst ++ len ++ [0, 0, 0, nxt]

section Entry
variable (env : Env) (args : Arguments)

def checkIcmpSession (sessions maxsessions : Int) (e : Echo) : Echo × Bool :=
  let now := env.time e.out
  let timeout := getIcmpTimeout sessions maxsessions
  if e.icmp.stop ∨ e.icmp.time + timeout < now then
    ({ e.emit (.close e.socket) with socket := -1 }, true)
  else (e, false)

def IcmpSession.query (cur : IcmpSession) : Query :=
  ⟨cur.version, if cur.version = .v4 then ipprotoIcmp else ipprotoIcmpV6,
    cur.saddr, 0, cur.daddr, 0⟩

/-- The partial sum a reply's checksum starts from. The source stores
`bytes - sizeof(struct ip6_hdr)` in the length field in host order. -/
def replyChecksum (cur : IcmpSession) (bytes : Nat) : UInt16 :=
  match cur.version with
  | .v4 => 0
  | .v6 =>
    let len := UInt32.ofNat bytes - 40
    let len := hostWord len.toUInt16 ++ hostWord (len >>> 16).toUInt16
    calcChecksum 0 (ip6Pseudo cur.daddr cur.saddr len ipprotoIcmpV6)

def writeIcmp (data : List UInt8) (e : Echo) : Echo × Bool :=
  let written := env.tunWrite e.out
  (e.emit (.tun (.icmp e.icmp data) written), written)

def readReply (buffer : List UInt8) (e : Echo) : Echo :=
  let message := rewriteIcmp (replyChecksum e.icmp buffer.length) e.icmp.id buffer
  let (e, written) := writeIcmp env message e
  let e := if written then e else { e with icmp.stop := true }
  { e with out := logIncoming env args e.icmp.query buffer.length e.icmp.uid e.out }

def checkIcmpSocket (ev : Events) (e : Echo) : Echo :=
  if ev.epollErr then { e with icmp.time := env.time e.out, icmp.stop := true }
  else if ev.epollIn then
    let e := { e with icmp.time := env.time e.out }
    match env.recv e.out (if e.icmp.version = .v4 then 65535 - 20 - 8 else 65535 - 40 - 8) with
    | .data bytes _ => readReply env args bytes (e.emit (.recv e.socket bytes))
    | .eof | .failed => { e.emit (.recv e.socket []) with icmp.stop := true }
    | .retry => e.emit (.recv e.socket [])
  else e

def openIcmpSocket (out : Trace) : Int × Trace :=
  let sock := env.socket out
  let out := out ++ [.socket sock]
  if sock < 0 then (-1, out)
  else
    let (isProtected, out) := protectSocket env args sock out
    (if isProtected then sock else -1, out)

theorem openIcmpSocket_eq (out : Trace) : openIcmpSocket env args out =
    (if env.socket out < 0 then -1 else env.socket out, out ++ [.socket (env.socket out)]) := by
  simp only [openIcmpSocket, protectSocket_eq]
  split <;> rfl

theorem openIcmpSocket_nonneg {out : Trace} :
    0 ≤ (openIcmpSocket env args out).1 ↔ 0 ≤ env.socket out := by
  rw [openIcmpSocket_eq]
  split <;> omega

end Entry

section Handle
variable (env : Env) (args : Arguments)

def icmpEcho : UInt8 := 8

def NgSession.isIcmp (ends : Endpoints) : NgSession → Bool
  | .icmp s _ => !s.stop && s.toEndpoints = ends
  | _ => false

def newIcmpSession (ends : Endpoints) (id : UInt16) (uid : Int) (out : Trace) :
    Option Echo × Trace :=
  let s : IcmpSession := { ends with
    time := env.time out
    uid := uid
    id := id
    stop := false }
  let (sock, out) := openIcmpSocket env args out
  if sock < 0 then (none, out)
  else
    let events : Events := ⟨true, false, true⟩
    let out := out ++ [.epollCtl sock events (env.epollCtl out)]
    (some ⟨s, sock, out⟩, out)

/-- The partial sum a request's checksum starts from: the pseudo header takes its
length and its next header from the packet's own IP header. -/
def requestChecksum (p : Packet) : IpVersion → UInt16
  | .v4 => 0
  | .v6 =>
    calcChecksum 0 (ip6Pseudo (p.daddr .v6) (p.saddr .v6) (p.slice 4 2 ++ [0, 0]) (p.mem 6))

def sendRequest (daddr : Address) (message : List UInt8) (e : Echo) : Echo :=
  let e := { e with icmp.time := env.time e.out }
  let emitted (ok : Bool) := e.emit (.sendto e.socket daddr 0 message ok)
  match env.sendto e.out with
  | .complete => emitted true
  | .retry => emitted false
  | .failed => { emitted false with icmp.stop := true }

def handleIcmp (p : Packet) (version : IpVersion) (payload : Nat) (uid : Int) (ctx : Context) :
    Context :=
  let ends : Endpoints := ⟨version, p.saddr version, p.daddr version⟩
  let icmplen := (p.sizeFrom payload).toNat
  let id := p.be16 (payload + 4)
  let message :=
    rewriteIcmp (requestChecksum p version) (~~~ id) (p.slice payload icmplen)
  if p.mem payload ≠ icmpEcho then ctx
  else
    match ctx.ngSession.span (fun s => !s.isIcmp ends) with
    | (before, .icmp s sock :: rest) =>
      let s := if s.uid = -1 ∧ uid > 0 then { s with uid := uid } else s
      let e := sendRequest (env.after ctx.out) ends.daddr message ⟨s, sock, []⟩
      ⟨before ++ .icmp e.icmp e.socket :: rest, ctx.out ++ e.out⟩
    | _ =>
      match newIcmpSession (env.after ctx.out) args ends id uid [] with
      | (none, out) => { ctx with out := ctx.out ++ out }
      | (some e, _) =>
        let e := sendRequest (env.after ctx.out) ends.daddr message e
        ⟨.icmp e.icmp e.socket :: ctx.ngSession, ctx.out ++ e.out⟩

end Handle

end NetGuard.Engine
