import NetGuard.Firewall.Verdict
import NetGuard.Library.Footprint

/-! # What `handle_ip` reads of a packet

The bytes that `handle_ip` and what it calls read, in the order of the source and under its
conditions, with the slices they derive from the payload pointer. The addresses of the IP
header, once read, are not listed again.
-/
namespace NetGuard.Engine
open Footprint

section Headers
variable (args : Arguments) (p : Packet)

def ip4Reads : List Range :=
  if p.length < 20 then []
  else [⟨9, 1⟩, ⟨6, 2⟩] ++
    if p.fragOff &&& ipMf ≠ 0 then []
    else [⟨0, 1⟩, ⟨2, 2⟩] ++
      if (p.be16 2).toNat ≠ p.length then []
      else (if args.loglevel < androidLogWarn then [⟨0, 20⟩] else []) ++ [⟨12, 4⟩, ⟨16, 4⟩]

/-- The loop over the extension headers: the type of each one it looks at, and the length of
those it skips. -/
def extensionReads : Nat → UInt16 → UInt8 → List Range
  | 0, _, _ => []
  | fuel + 1, off, protocol =>
    let nxt := p.mem off.toNat
    ⟨off.toNat, 1⟩ ::
      if isLowerLayer nxt && !isUpperLayer protocol then
        ⟨off.toNat + 1, 1⟩ ::
          extensionReads fuel (off + (8 + (p.mem (off.toNat + 1)).toUInt16)) nxt
      else []

def ip6Reads : List Range :=
  if p.length < 40 then []
  else [⟨6, 1⟩] ++
    (if isUpperLayer (p.mem 6) then [] else extensionReads p 65537 40 (p.mem 6)) ++
      [⟨8, 16⟩, ⟨24, 16⟩]

def parseReads : List Range :=
  ⟨0, 1⟩ ::
    if p.versionNibble = 4 then ip4Reads args p
    else if p.versionNibble = 6 then ip6Reads p
    else []

end Headers

section Payload
variable (env : Env) (args : Arguments) (p : Packet) (h : IpHdr)

def portReads : List Range :=
  if h.tooShort p then []
  else if h.isIcmp then [⟨h.payload, 2⟩, ⟨h.payload + 4, 2⟩]
  else if h.protocol = ipprotoUdp then [⟨h.payload, 2⟩, ⟨h.payload + 2, 2⟩]
  else if h.protocol = ipprotoTcp then
    [⟨h.payload, 2⟩, ⟨h.payload + 2, 2⟩, ⟨h.payload + 13, 1⟩]
  else []

def limitReads (sessions maxsessions : Int) : List Range :=
  if sessions ≥ maxsessions ∧ h.protocol = ipprotoUdp then [⟨h.payload, 2⟩, ⟨h.payload + 2, 2⟩]
  else []

/-- `get_uid_from_session` takes the payload for the ports when it meets a TCP or UDP session
of the version. -/
def uidReads (version : IpVersion) (payload : Nat) : List NgSession → List Range
  | [] => []
  | cur :: rest =>
    let ports (flow : Flow) : List Range :=
      if flow.version = version then
        ⟨payload, 2⟩ :: if flow.source = p.be16 payload then [⟨payload + 2, 2⟩] else []
      else []
    let read := match cur with
      | .icmp _ _ => []
      | .udp s _ => ports s.toFlow
      | .tcp s _ _ => ports s.toFlow
    read ++ if cur.matchesUid p version payload then [] else uidReads version payload rest

def tcpSlice : Range := ⟨p.tcpData h.payload, (p.datalen (p.tcpData h.payload)).toNat⟩

def sniReads : List Range :=
  if h.protocol = ipprotoTcp then [⟨h.payload + 12, 1⟩, tcpSlice p h] else []

/-- The options the loop of `handle_tcp` looks at. -/
def optionPointers (options : Nat) (optlen : Int) : List Nat :=
  if optlen > 0 then
    let len := (p.mem (options + 1)).toNat
    options ::
      if p.mem options = 0 then []
      else if p.mem options = 1 then optionPointers (options + 1) (optlen - 1)
      else if len = 0 then []
      else optionPointers (options + len) (optlen - len)
  else []
termination_by optlen.toNat

def optionReads (options : Nat) : List Range :=
  [⟨options, 1⟩, ⟨options + 1, 1⟩] ++
    if p.mem options = 2 ∧ p.mem (options + 1) = 4 then [⟨options + 2, 2⟩]
    else if p.mem options = 3 ∧ p.mem (options + 1) = 3 then [⟨options + 2, 1⟩]
    else []

/-- The segment is a SYN without a session, so that `handle_tcp` decodes its options. -/
def decodesOptions (list : List NgSession) : Bool :=
  !(p.tcphdr h.payload).urg && (p.tcphdr h.payload).syn &&
    !list.any (NgSession.isTcp (p.flow h.payload h.version))

def tcpReads (list : List NgSession) : List Range :=
  [⟨h.payload, 16⟩, tcpSlice p h] ++
    if decodesOptions p h list then
      (optionPointers p (h.payload + 20) (p.tcphdr h.payload).tcpoptlen.toNat).flatMap
        (optionReads p)
    else []

def udpSlice : Range := ⟨h.payload + 8, (p.sizeFrom (h.payload + 8)).toNat⟩

def icmpSlice : Range := ⟨h.payload, (p.sizeFrom h.payload).toNat⟩

def icmpReads : List Range :=
  [⟨h.payload, 1⟩, ⟨h.payload + 4, 2⟩, icmpSlice p h] ++
    if h.version = .v6 then [⟨4, 2⟩, ⟨6, 1⟩] else []

def handlerReads (ctx : Context) : List Range :=
  if letThrough env args p h ctx then
    if h.isIcmp then icmpReads p h
    else if h.protocol = ipprotoUdp then
      [⟨h.payload, 2⟩, ⟨h.payload + 2, 2⟩, udpSlice p h]
    else if h.protocol = ipprotoTcp then tcpReads p h ctx.ngSession
    else []
  else if h.protocol = ipprotoUdp then [⟨h.payload, 2⟩, ⟨h.payload + 2, 2⟩]
  else if h.protocol = ipprotoTcp then tcpReads p h ctx.ngSession
  else []

end Payload

def handleIpReads (env : Env) (args : Arguments) (p : Packet) (sessions maxsessions : Int)
    (ctx : Context) : List Range :=
  parseReads args p ++
    match parseIp args p with
    | .ok h =>
      portReads p h ++
        if h.tooShort p then []
        else limitReads h sessions maxsessions ++
          if overLimit p h sessions maxsessions ctx.ngSession then []
          else uidReads p h.version h.payload ctx.ngSession ++ sniReads p h ++
            handlerReads env args p h ctx
    | _ => []

end NetGuard.Engine
