import NetGuard.Engine.Ip
import NetGuard.Service.Names

/-! # The service behind the engine

The engine leaves the answers of its upcalls open. Here the service gives them, from the
state that the upcalls of the same dispatch have led it to, and the verdict of `handle_ip`
on a TCP packet is the one that the runs of packets are about.
-/
namespace NetGuard.Service
open Engine (Address Context Env IpHdr IpVersion Output Query Trace Upcall)

/-- How the native side hands its bytes over: `inet_ntop` and `NewStringUTF`. -/
structure Rendering where
  address : Address → Text
  text : List UInt8 → Text
  isEmpty_text : ∀ bytes, (text bytes).isEmpty = bytes.isEmpty

def versionNumber : IpVersion → Int
  | .v4 => 4
  | .v6 => 6

def Rendering.connection (r : Rendering) (q : Query) : Connection where
  version := versionNumber q.version
  protocol := q.protocol.toNat
  saddr := r.address q.saddr
  sport := q.sport.toNat
  daddr := r.address q.daddr
  dport := q.dport.toNat

/-- What the upcalls of a packet share: the maps of the service and the remembered uids. -/
structure Served where
  service : MyVpnService
  mapIPKeyUid : UidCache

namespace Served

def upcall (db : Database) (r : Rendering) (s : Served) : Upcall → Served
  | .isAddressAllowed q uid =>
    let c := r.connection q
    { s with service := (s.service.isAddressAllowed db c.version c.protocol c.saddr c.sport
        c.daddr c.dport uid).2 }
  | .isDomainBlocked uid name =>
    { s with service := (s.service.isDomainBlocked db uid (r.text name)).2 }
  | .sniResolved name q uid =>
    { s with service := s.service.sniResolved (r.text name) (r.connection q) uid }
  | .cacheUid q uid => { s with mapIPKeyUid := cacheUid (r.connection q) (.ofInt uid) s.mapIPKeyUid }
  | _ => s

def output (db : Database) (r : Rendering) (s : Served) : Output → Served
  | .upcall u => s.upcall db r u
  | _ => s

def after (db : Database) (r : Rendering) (s : Served) (t : Trace) : Served :=
  t.foldl (output db r) s

variable {db : Database} {r : Rendering} {s : Served}

theorem after_emit (ctx : Context) (o : Output) :
    s.after db r (ctx.emit o).out = (s.after db r ctx.out).output db r o := by
  simp only [after, Context.emit, List.foldl_append, List.foldl_cons, List.foldl_nil]

theorem after_isAddressAllowed (db : Database) (r : Rendering) (s : Served) (ctx : Context) (q : Query) (uid : Int) :
    (s.after db r (ctx.emit (.upcall (.isAddressAllowed q uid))).out).service =
      ((s.after db r ctx.out).service.isAddressAllowed db (r.connection q).version
        (r.connection q).protocol (r.connection q).saddr (r.connection q).sport
        (r.connection q).daddr (r.connection q).dport uid).2 := by
  rw [after_emit]
  rfl

end Served

/-- The environment answers the upcalls of a dispatch as the service does. -/
structure Answers (env : Env) (db : Database) (r : Rendering) (s : Served) : Prop where
  isQuicBlocked : ∀ t uid, env.isQuicBlocked t uid = (s.after db r t).service.isQuicBlocked uid
  isAddressAllowed : ∀ t q uid, env.isAddressAllowed t q uid =
    ((s.after db r t).service.isAddressAllowed db (r.connection q).version
      (r.connection q).protocol (r.connection q).saddr (r.connection q).sport
      (r.connection q).daddr (r.connection q).dport uid).1
  isDomainBlocked : ∀ t uid name, env.isDomainBlocked t uid name =
    ((s.after db r t).service.isDomainBlocked db uid (r.text name)).1
  getUidCached : ∀ t q, env.getUidCached t q =
    getUidCached (r.connection q) (s.after db r t).mapIPKeyUid

/-- Any environment with the upcalls answered by the service. -/
def Served.env (db : Database) (r : Rendering) (s : Served) (env : Env) : Env :=
  { env with
    isQuicBlocked := fun t uid => (s.after db r t).service.isQuicBlocked uid
    isAddressAllowed := fun t q uid =>
      let c := r.connection q
      ((s.after db r t).service.isAddressAllowed db c.version c.protocol c.saddr c.sport c.daddr
        c.dport uid).1
    isDomainBlocked := fun t uid name =>
      ((s.after db r t).service.isDomainBlocked db uid (r.text name)).1
    getUidCached := fun t q => Service.getUidCached (r.connection q) (s.after db r t).mapIPKeyUid }

theorem Served.answers_env {db : Database} {r : Rendering} {s : Served} (env : Env) :
    Answers (s.env db r env) db r s := by
  constructor
  · intro t uid
    rfl
  · intro t q uid
    rfl
  · intro t uid name
    rfl
  · intro t q
    rfl

section Packet
variable {env : Env} {db : Database} {r : Rendering} {s : Served} (p : Engine.Packet) (h : IpHdr)

def Rendering.server (r : Rendering) (p : Engine.Packet) (h : IpHdr) : Server :=
  ⟨versionNumber h.version, r.address (p.daddr h.version), ((h.ports p).2).toNat⟩

/-- The packet with the name that `parse_sni` finds in it. -/
def Rendering.packet (r : Rendering) (p : Engine.Packet) (h : IpHdr) : Packet where
  source := (r.address (p.saddr h.version), (h.ports p).1.toNat)
  name := (Engine.parseSni (fun i => p.mem (p.tcpData h.payload + i))
    (p.datalen (p.tcpData h.payload))).map fun name => r.text (Engine.cString name)

theorem connection_query (htcp : h.protocol = Engine.ipprotoTcp) :
    r.connection (h.query p) = (r.server p h).connection (r.packet p h).source := by
  simp only [Rendering.connection, IpHdr.query, htcp]
  rfl

/-- A packet without a session gets the uid that the system knows, which is then cached, or
the uid that the cache holds for its key. -/
theorem packetUid_getUidCached (hanswers : Answers env db r s) (ctx : Context)
    (hsession : Engine.getUidFromSession p h.version h.payload ctx.ngSession < 0) :
    (Engine.packetUid env p h ctx).1 =
        (if env.getUid ctx.out (h.query p) < 0 then
          getUidCached (r.connection (h.query p)) (s.after db r ctx.out).mapIPKeyUid
        else env.getUid ctx.out (h.query p)) ∧
      (s.after db r (Engine.packetUid env p h ctx).2.out).mapIPKeyUid =
        if env.getUid ctx.out (h.query p) < 0 then (s.after db r ctx.out).mapIPKeyUid
        else cacheUid (r.connection (h.query p)) (.ofInt (env.getUid ctx.out (h.query p)))
          (s.after db r ctx.out).mapIPKeyUid := by
  simp only [Engine.packetUid, if_pos hsession]
  by_cases hunknown : env.getUid ctx.out (h.query p) < 0
  · simp only [if_pos hunknown, hanswers.getUidCached, Served.after_emit]
    exact ⟨rfl, rfl⟩
  · simp only [if_neg hunknown, Served.after_emit]
    exact ⟨trivial, rfl⟩

/-- The name is stored before the packet is judged, and the engine keeps it as it is. -/
theorem serverName_parsedSni (db : Database) (r : Rendering) (s : Served)
    (htcp : h.protocol = Engine.ipprotoTcp) (uid : Int) (ctx : Context) :
    r.text (Engine.serverName p h uid ctx).1 = (r.packet p h).name.getD [] ∧
      (s.after db r (Engine.serverName p h uid ctx).2.out).service =
        (s.after db r ctx.out).service.parsedSni (r.packet p h).name
          ((r.server p h).connection (r.packet p h).source) uid := by
  have hempty : r.text [] = [] := by
    have hlength := r.isEmpty_text []
    simpa using hlength
  simp only [Engine.serverName, if_pos htcp]
  cases hname : Engine.parseSni (fun i => p.mem (p.tcpData h.payload + i))
      (p.datalen (p.tcpData h.payload)) with
  | none =>
    simp only [Rendering.packet, hname, Option.map_none]
    exact ⟨hempty, rfl⟩
  | some name =>
    rw [← connection_query p h htcp]
    simp only [Rendering.packet, hname, Option.map_some, Served.after_emit]
    exact ⟨rfl, rfl⟩

/-- The verdict of the engine and what it leaves of the service are those of `judgeTcp`. -/
theorem checkAllowedPacket_judgeTcp (hanswers : Answers env db r s)
    (htcp : h.protocol = Engine.ipprotoTcp) (uid : Int) (ctx : Context) :
    (Engine.checkAllowedPacket env p h uid (Engine.serverName p h uid ctx).1
        (Engine.serverName p h uid ctx).2).1 =
      ((s.after db r ctx.out).service.judgeTcp db (r.server p h) uid
        (r.packet p h)).1 ∧
    (s.after db r (Engine.checkAllowedPacket env p h uid (Engine.serverName p h uid ctx).1
        (Engine.serverName p h uid ctx).2).2.2.out).service =
      (s.after db r ctx.out).service.handlePacket db (r.server p h) uid
        (r.packet p h) := by
  obtain ⟨hname, hstate⟩ := serverName_parsedSni p h db r s htcp uid ctx
  generalize Engine.serverName p h uid ctx = named at hname hstate
  obtain ⟨name, ctx'⟩ := named
  simp only at hname hstate
  have hnot : ¬ (h.protocol = Engine.ipprotoUdp ∧ (h.query p).dport = 443 ∧ uid > 0) :=
    fun hudp => IpHdr.not_udp htcp hudp.1
  have hempty : ((r.packet p h).name.getD []).isEmpty = name.isEmpty := by
    rw [← hname]
    exact r.isEmpty_text name
  have hallowed := hanswers.isAddressAllowed ctx'.out (h.query p) uid
  rw [connection_query p h htcp, hstate] at hallowed
  simp only [Engine.checkAllowedPacket, if_neg hnot, decide_eq_false hnot, Bool.false_and,
    Bool.false_eq_true, if_false, MyVpnService.handlePacket, MyVpnService.judgeTcp, hempty]
  rw [hallowed]
  have hafter := Served.after_isAddressAllowed db r s ctx' (h.query p) uid
  rw [connection_query p h htcp, hstate] at hafter
  split
  · constructor
    · rw [hanswers.isDomainBlocked, hafter, hname]
    · rw [Served.after_emit]
      simp only [Served.output, Served.upcall, hafter, hname]
  · exact ⟨rfl, hafter⟩

end Packet

end NetGuard.Service
