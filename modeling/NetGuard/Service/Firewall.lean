import NetGuard.Engine.Dns
import NetGuard.Loop.Openers
import NetGuard.Loop.Refused
import NetGuard.Service.Enforcement
import NetGuard.Service.Lists

/-! # The engine and the service together

Here nothing of what the two sides tell each other is left open: the service answers the upcalls
of the engine from what the calls before them have led it to. Only the kernel, the clock, the
packets and the database are the surroundings. A start loads the settings and the rules anew and
rechecks the sessions; the global lists are asked for as they are at each event.
-/
namespace NetGuard.Service
open Engine (Arguments Buffer Context Env EventLoop IpHdr LoopEvent Output Trace Upcall
  judgePacket letThrough parseDnsResponse)

section Native

/-- The native side, which makes the texts of addresses with `inet_ntop`. -/
structure Native extends Rendering where
  inetNtop : List UInt8 → List UInt8
  address_eq : ∀ address, toRendering.address address = text (inetNtop address)

/-- What answers the other calls of a dispatch, its clock, the database that its queries find,
and what lies on the stack where `parse_dns_response` puts its names. -/
structure Surroundings where
  env : Env
  clock : Int
  database : Database
  stack : Buffer

variable (r : Native) (o : Surroundings)

/-- The calls that an upcall makes: one for each address of a DNS response. -/
def Native.calls : Upcall → List NativeCall
  | .isQuicBlocked uid => [.isQuicBlocked (.ofInt uid)]
  | .isAddressAllowed q uid => [.isAddressAllowed (r.connection q) (.ofInt uid)]
  | .isDomainBlocked uid name => [.isDomainBlocked (.ofInt uid) (r.text name)]
  | .sniResolved name q uid => [.sniResolved (r.text name) (r.connection q) (.ofInt uid)]
  | .getUid _ => []
  | .getUidCached q => [.getUidCached (r.connection q)]
  | .cacheUid q uid => [.cacheUid (r.connection q) (.ofInt uid)]
  | .dnsResponse data uid =>
    (parseDnsResponse (fun i => data.getD i 0) data.length r.inetNtop o.stack uid).map fun rr =>
      .dnsResolved (r.text rr.qname) (r.text rr.resource) (.ofInt rr.uid)
  | .logTraffic q length uid allowed outgoing =>
    [.logTraffic o.clock (r.connection q) length (.ofInt uid) allowed outgoing]

def Native.outputCalls : Output → List NativeCall
  | .upcall u => r.calls o u
  | _ => []

def Native.traceCalls (t : Trace) : List (Database × NativeCall) :=
  (t.flatMap (r.outputCalls o)).map fun call => (o.database, call)

def Session.after (s : Session) (t : Trace) : Session := (r.traceCalls o t).foldl Session.step s

/-- The surroundings with the answers of the service. -/
def Session.env (s : Session) : Env :=
  { o.env with
    isQuicBlocked := fun t uid => (s.after r o t).service.isQuicBlocked uid
    isAddressAllowed := fun t q uid =>
      let c := r.connection q
      ((s.after r o t).service.isAddressAllowed o.database c.version c.protocol c.saddr c.sport
        c.daddr c.dport uid).1
    isDomainBlocked := fun t uid name =>
      ((s.after r o t).service.isDomainBlocked o.database uid (r.text name)).1
    getUidCached := fun t q => Service.getUidCached (r.connection q) (s.after r o t).mapIPKeyUid }

end Native

section Machine
variable (r : Native)

/-- Both sides, with the installation that was loaded last and the calls since then. -/
structure Firewall where
  installation : Installation
  calls : List (Database × NativeCall)
  session : Session
  loop : EventLoop

inductive FirewallEvent
  | start (i : Installation) (args : Arguments) (soft : Option UInt64)
  | loop (e : LoopEvent)

/-- What the engine does when it handles an event. -/
def Firewall.outputs (o : Surroundings) (e : LoopEvent) (w : Firewall) : Trace :=
  w.loop.emitted (w.session.env r o, e)

/-- The engine handles an event, and its upcalls go to the service. -/
def Firewall.dispatch (o : Surroundings) (e : LoopEvent) (w : Firewall) : Firewall :=
  { w with
    calls := w.calls ++ r.traceCalls o (w.outputs r o e)
    session := w.session.after r o (w.outputs r o e)
    loop := w.loop.step (w.session.env r o, e) }

def Firewall.step (w : Firewall) : Surroundings × FirewallEvent → Firewall
  | (o, .start i args soft) =>
    let loaded : Firewall :=
      { w with installation := i, calls := [], session := w.session.startNative i }
    loaded.dispatch r o (.start args soft)
  | (o, .loop e) => w.dispatch r o e

def Firewall.run (w : Firewall) (es : List (Surroundings × FirewallEvent)) : Firewall :=
  es.foldl (Firewall.step r) w

end Machine

section Kept
variable {r : Native} {o : Surroundings} {i : Installation} {myUid : Int}
  {past : List (Database × NativeCall)} {s : Session} {w : Firewall}

theorem Kept.run (h : Kept i myUid past s) (calls : List (Database × NativeCall)) :
    Kept i myUid (past ++ calls) (calls.foldl Session.step s) := by
  have hrun : Run.Along Session.step (fun _ _ => True) s calls :=
    .of_forall (fun _ _ => trivial) _ _
  exact hrun.history (fun _ _ e _ h => h.step e) past h

theorem Kept.after (h : Kept i myUid past s) (t : Trace) :
    Kept i myUid (past ++ r.traceCalls o t) (s.after r o t) :=
  h.run (r.traceCalls o t)

theorem Kept.refuses (h : Kept i myUid past s) : (s.env r o).Refuses i.BlocksAll :=
  fun t q uid hall => ((h.after t).enforced o.database).blocked (r.connection q) uid hall

/-- The service is where the calls have led it to, and no live session is of an app that is set
to be blocked. -/
structure Firewall.Kept (myUid : Int) (w : Firewall) : Prop where
  session : Service.Kept w.installation myUid w.calls w.session
  loop : w.loop.Bars w.installation.BlocksAll

theorem Firewall.kept_start (w : Firewall) (o : Surroundings) (i : Installation) (args : Arguments)
    (soft : Option UInt64) :
    (w.step r (o, .start i args soft)).Kept w.session.service.myUid := by
  have hloaded := kept_startNative i w.session
  exact ⟨hloaded.after _, EventLoop.bars_start hloaded.refuses args soft⟩

theorem Firewall.Kept.step (h : w.Kept myUid) (e : Surroundings × FirewallEvent) :
    (w.step r e).Kept myUid := by
  obtain ⟨o, event⟩ := e
  cases event with
  | start i args soft =>
    have hstart := w.kept_start (r := r) o i args soft
    rwa [h.session.myUid] at hstart
  | loop e => exact ⟨h.session.after _, h.loop.step _ h.session.refuses⟩

theorem Firewall.kept_run (w : Firewall) (o : Surroundings) (i : Installation) (args : Arguments)
    (soft : Option UInt64) (es : List (Surroundings × FirewallEvent)) :
    ((w.step r (o, .start i args soft)).run r es).Kept w.session.service.myUid :=
  Run.invariant (fun _ e h => h.step e) es (w.kept_start o i args soft)

end Kept

section Silent

/-- A call that tells no name. -/
def NativeCall.silent : NativeCall → Bool
  | .dnsResolved _ _ _ | .sniResolved _ _ _ => false
  | _ => true

variable {past calls : List (Database × NativeCall)}

theorem told_silent (hsilent : ∀ e ∈ calls, e.2.silent = true) (c : Connection) (uid : Int) :
    told (past ++ calls) c uid = told past c uid := by
  induction calls using List.reverseRecOn with
  | nil => rw [List.append_nil]
  | append_singleton calls e ih =>
    obtain ⟨db, call⟩ := e
    rw [List.forall_mem_append, List.forall_mem_singleton] at hsilent
    have hsni : NativeCall.sniAt c uid call = none := by
      cases call <;> first | rfl | exact absurd hsilent.2 Bool.false_ne_true
    have hdns : ∀ uid, NativeCall.dnsAt c.daddr uid call = none := by
      intro uid
      cases call <;> first | rfl | exact absurd hsilent.2 Bool.false_ne_true
    rw [← ih hsilent.1, ← List.append_assoc]
    simp only [told, Recent.last_concat, hsni, hdns, Option.none_or]

end Silent

section Judge
variable {r : Native} {o : Surroundings} {i : Installation} {myUid : Int}
  {past : List (Database × NativeCall)} {s : Session} {w : Firewall} {p : Engine.Packet} {h : IpHdr}
  {uid : Int32} {ctx : Context}

def Firewall.judge (r : Native) (o : Surroundings) (w : Firewall) (p : Engine.Packet) (h : IpHdr) :
    Int × Bool × Bool × Context :=
  judgePacket (w.session.env r o) p h ⟨w.loop.ngSession, []⟩

/-- `handle_ip` hands the packet on, on the verdict or because it only observes. -/
def Firewall.passes (r : Native) (o : Surroundings) (w : Firewall) (p : Engine.Packet) (h : IpHdr) :
    Bool :=
  letThrough (w.session.env r o) w.loop.args p h ⟨w.loop.ngSession, []⟩

/-- The name in a packet that is asked about. -/
def Native.sni (r : Native) (p : Engine.Packet) (h : IpHdr) : Option Text :=
  if h.protocol = Engine.ipprotoTcp then (r.packet p h).name.filter fun name => !name.isEmpty
  else none

/-- The packet is QUIC, and of an app that is to fall back to TLS. -/
def Installation.StopsQuic (i : Installation) (p : Engine.Packet) (h : IpHdr) (uid : Int) : Prop :=
  h.protocol = Engine.ipprotoUdp ∧ (h.query p).dport = 443 ∧ 0 < uid ∧ i.BlocksQuic uid

/-- A packet of the app is allowed: by the settings and rules that were loaded, by the lists of
the database, and by the names that its server is known by. -/
structure Installation.Permits (i : Installation) (db : Database) (r : Native)
    (calls : List (Database × NativeCall)) (p : Engine.Packet) (h : IpHdr) (uid : Int) : Prop where
  app : ¬ i.BlocksAll uid
  quic : ¬ i.StopsQuic p h uid
  address : db.lists .ip (r.connection (h.query p)).daddr = false
  told : ∀ name, told calls (r.connection (h.query p)) uid = some name → isBlank name = false →
    ¬ i.RefusesName db uid (cleanDomain name)
  sni : ∀ name, r.sni p h = some name → ¬ i.RefusesName db uid (cleanDomain name)

/-- Whoever asked for the address so far was told of it what the database says. -/
def Steady (past : List (Database × NativeCall)) (db : Database) (ip : Text) : Prop :=
  ∀ db' c uid, (db', .isAddressAllowed c uid) ∈ past → c.daddr = ip →
    db'.lists .ip ip = db.lists .ip ip

theorem Steady.lists {db : Database} {ip : Text} {listed : Bool} (h : Steady past db ip)
    (hanswered : Answered past db ip listed) : db.lists .ip ip = listed := by
  rcases hanswered with hnow | ⟨db', c, uid, hmem, hip, hearlier⟩
  · exact hnow
  · exact (h db' c uid hmem hip).symm.trans hearlier

theorem Native.sni_serverName (r : Native) (uid : Int) (ctx : Context) :
    r.sni p h = if (Engine.serverName p h uid ctx).1.isEmpty then none
      else some (r.text (Engine.serverName p h uid ctx).1) := by
  unfold Native.sni Engine.serverName Rendering.packet
  split
  · rcases Option.eq_none_or_eq_some (Engine.parseSni (fun i => p.mem (p.tcpData h.payload + i))
      (p.datalen (p.tcpData h.payload))) with hnone | ⟨name, hname⟩
    · simp [hnone]
    · have hempty := r.isEmpty_text (Engine.cString name)
      cases hbytes : (Engine.cString name).isEmpty <;> simp [hname, Option.filter, hempty, hbytes]
  · rfl

/-- The calls that ask for the verdict on a packet. -/
def Asks (q : Engine.Query) (uid : Int) (name : List UInt8) (t : Trace) : Prop :=
  ∀ out ∈ t, out = .upcall (.isQuicBlocked uid) ∨ out = .upcall (.isAddressAllowed q uid) ∨
    out = .upcall (.isDomainBlocked uid name)

theorem checkAllowedPacket_out (env : Env) (uid : Int) (name : List UInt8) (ctx : Context) :
    ∃ t, (Engine.checkAllowedPacket env p h uid name ctx).2.2.out = ctx.out ++ t ∧
      Asks (h.query p) uid name t := by
  simp only [Engine.checkAllowedPacket]
  generalize hquic : (if h.protocol = Engine.ipprotoUdp ∧ (h.query p).dport = 443 ∧ uid > 0 then
    ctx.emit (.upcall (.isQuicBlocked uid)) else ctx) = asked
  obtain ⟨t, ht, hasks⟩ : ∃ t, asked.out = ctx.out ++ t ∧ Asks (h.query p) uid name t := by
    rw [← hquic]
    split
    · exact ⟨[.upcall (.isQuicBlocked uid)], rfl, by simp [Asks]⟩
    · exact ⟨[], by simp, by simp [Asks]⟩
  split
  · exact ⟨t, ht, hasks⟩
  · split
    · refine ⟨t ++ [.upcall (.isAddressAllowed (h.query p) uid),
        .upcall (.isDomainBlocked uid name)], by simp [Context.emit, ht], ?_⟩
      simpa [Asks, or_imp, forall_and] using hasks
    · refine ⟨t ++ [.upcall (.isAddressAllowed (h.query p) uid)], by simp [Context.emit, ht], ?_⟩
      simpa [Asks, or_imp, forall_and] using hasks

/-- The verdict where the answers do not change while the packet is judged. -/
theorem checkAllowedPacket_iff {env : Env} {uid : Int} {name : List UInt8} {ctx : Context}
    {quic allowed blocked : Prop}
    (hquic : env.isQuicBlocked ctx.out uid = true ↔ quic)
    (hallowed : ∀ t, Asks (h.query p) uid name t →
      (env.isAddressAllowed (ctx.out ++ t) (h.query p) uid = true ↔ allowed))
    (hblocked : name.isEmpty = false → ∀ t, Asks (h.query p) uid name t →
      (env.isDomainBlocked (ctx.out ++ t) uid name = true ↔ blocked)) :
    (Engine.checkAllowedPacket env p h uid name ctx).1 = true ↔
      (h.protocol = Engine.ipprotoUdp → (h.query p).dport = 443 → 0 < uid → ¬ quic) ∧
        allowed ∧ (name.isEmpty = false → ¬ blocked) := by
  have hasked : ∀ t, Asks (h.query p) uid name t →
      ((if (env.isAddressAllowed (ctx.out ++ t) (h.query p) uid && !name.isEmpty) = true then
          !env.isDomainBlocked (ctx.out ++ (t ++ [.upcall (.isAddressAllowed (h.query p) uid)]))
            uid name
        else env.isAddressAllowed (ctx.out ++ t) (h.query p) uid) = true ↔
          allowed ∧ (name.isEmpty = false → ¬ blocked)) := by
    intro t ht
    have ht' : Asks (h.query p) uid name (t ++ [.upcall (.isAddressAllowed (h.query p) uid)]) := by
      simpa [Asks, or_imp, forall_and] using ht
    rw [← hallowed t ht]
    cases hname : name.isEmpty with
    | true => simp
    | false =>
      rw [← hblocked hname _ ht']
      cases env.isAddressAllowed (ctx.out ++ t) (h.query p) uid <;> simp
  by_cases hcond : h.protocol = Engine.ipprotoUdp ∧ (h.query p).dport = 443 ∧ 0 < uid
  · have hquic' : (h.protocol = Engine.ipprotoUdp → (h.query p).dport = 443 → 0 < uid → ¬ quic) ↔
        ¬ quic := ⟨fun h => h hcond.1 hcond.2.1 hcond.2.2, fun h _ _ _ => h⟩
    rw [hquic', ← hquic]
    cases hblockedQuic : env.isQuicBlocked ctx.out uid with
    | true => simp [Engine.checkAllowedPacket, hcond, hblockedQuic]
    | false =>
      rw [← hasked [.upcall (.isQuicBlocked uid)] (by simp [Asks])]
      simp only [Engine.checkAllowedPacket, gt_iff_lt, if_pos hcond, decide_eq_true hcond,
        hblockedQuic, Bool.and_false, Bool.false_eq_true, if_false, Context.emit, List.append_assoc]
      split <;> simp
  · have hquic' : h.protocol = Engine.ipprotoUdp → (h.query p).dport = 443 → 0 < uid → ¬ quic :=
      fun hudp hport huid => absurd ⟨hudp, hport, huid⟩ hcond
    rw [and_iff_right hquic', ← hasked [] (by simp [Asks])]
    simp only [Engine.checkAllowedPacket, gt_iff_lt, if_neg hcond, decide_eq_false hcond,
      Bool.false_and, Bool.false_eq_true, if_false, Context.emit, List.append_nil, List.nil_append]
    split <;> simp

theorem Native.mem_traceCalls {t : Trace} {db : Database} {call : NativeCall} :
    (db, call) ∈ r.traceCalls o t ↔ db = o.database ∧ ∃ out ∈ t, call ∈ r.outputCalls o out := by
  simp only [Native.traceCalls, List.mem_map, List.mem_flatMap, Prod.mk.injEq]
  constructor
  · rintro ⟨call', hcall, rfl, rfl⟩
    exact ⟨rfl, hcall⟩
  · rintro ⟨rfl, hcall⟩
    exact ⟨call, hcall, rfl, rfl⟩

theorem Asks.silent {q : Engine.Query} {uid : Int} {name : List UInt8} {t : Trace}
    (h : Asks q uid name t) : ∀ e ∈ r.traceCalls o t, e.2.silent = true := by
  rintro ⟨db, call⟩ he
  obtain ⟨-, out, hout, hcall⟩ := Native.mem_traceCalls.mp he
  change call.silent = true
  rcases h out hout with rfl | rfl | rfl
  · rw [List.mem_singleton.mp hcall]
    rfl
  · rw [List.mem_singleton.mp hcall]
    rfl
  · rw [List.mem_singleton.mp hcall]
    rfl

theorem Asks.asked {q : Engine.Query} {uid : Int32} {name : List UInt8} {t : Trace} {text : Text}
    (h : Asks q uid.toInt name t) (hasked : Asked (past ++ r.traceCalls o t) text) :
    Asked past text ∨ (r.connection q).daddr = text := by
  obtain ⟨db, c, uid', hmem, ht⟩ := hasked
  rcases List.mem_append.mp hmem with hpast | hcall
  · exact .inl ⟨db, c, uid', hpast, ht⟩
  · obtain ⟨-, out, hout, hcall⟩ := Native.mem_traceCalls.mp hcall
    rcases h out hout with rfl | rfl | rfl
    · exact absurd (List.mem_singleton.mp hcall) NativeCall.noConfusion
    · have hcall' := List.mem_singleton.mp hcall
      injection hcall' with hc huid
      subst hc
      exact .inr ht
    · exact absurd (List.mem_singleton.mp hcall) NativeCall.noConfusion

theorem Native.traceCalls_append (t t' : Trace) :
    r.traceCalls o (t ++ t') = r.traceCalls o t ++ r.traceCalls o t' := by
  simp [Native.traceCalls]

theorem Steady.traceCalls {ip : Text} (h : Steady past o.database ip) (t : Trace) :
    Steady (past ++ r.traceCalls o t) o.database ip := by
  intro db' c uid hmem hip
  rcases List.mem_append.mp hmem with hpast | hcall
  · exact h db' c uid hpast hip
  · rw [(Native.mem_traceCalls.mp hcall).1]

theorem checkAllowedPacket_quic (env : Env) (uid : Int) (name : List UInt8) (ctx : Context) :
    (Engine.checkAllowedPacket env p h uid name ctx).2.1 = true ↔
      h.protocol = Engine.ipprotoUdp ∧ (h.query p).dport = 443 ∧ 0 < uid ∧
        env.isQuicBlocked ctx.out uid = true := by
  rw [← and_assoc, ← and_assoc, and_assoc (a := h.protocol = Engine.ipprotoUdp)]
  simp only [Engine.checkAllowedPacket]
  generalize (if h.protocol = Engine.ipprotoUdp ∧ (h.query p).dport = 443 ∧ uid > 0 then
    ctx.emit (.upcall (.isQuicBlocked uid)) else ctx) = asked
  split
  next hblocked => exact iff_of_true rfl (by simpa using hblocked)
  next hblocked =>
    refine iff_of_false ?_ (by simpa using hblocked)
    split
    · exact Bool.false_ne_true
    · exact Bool.false_ne_true

/-- What the service answers about the address of a packet, after the upcalls `t`. -/
theorem Kept.isAddressAllowed_iff {i : Installation} (hkept : Kept i myUid past s) (t : Trace)
    (q : Engine.Query) (hself : uid.toInt ≠ myUid)
    (hrules : (i.verdict uid.toInt .ip (r.connection q).daddr).checkFinished = false)
    (hsteady : Steady (past ++ r.traceCalls o t) o.database (r.connection q).daddr)
    (hnot : ∀ name,
      Service.told (past ++ r.traceCalls o t) (r.connection q) uid.toInt = some name →
        ¬ Asked (past ++ r.traceCalls o t) (cleanDomain name)) :
    (s.env r o).isAddressAllowed t q uid.toInt = true ↔ ¬ i.BlocksAll uid.toInt ∧
      o.database.lists .ip (r.connection q).daddr = false ∧
      ∀ name, Service.told (past ++ r.traceCalls o t) (r.connection q) uid.toInt = some name →
        isBlank name = false → ¬ i.RefusesName o.database uid.toInt (cleanDomain name) := by
  have henforced := (hkept.after (r := r) (o := o) t).enforced o.database
  by_cases hall : i.BlocksAll uid.toInt
  · have hrefused := henforced.blocked (r.connection q) uid.toInt hall
    exact iff_of_false (fun hyes => absurd (hyes.symm.trans hrefused) Bool.noConfusion)
      fun hnotall => hnotall.1 hall
  · obtain ⟨listed, hlisted, hanswer⟩ :=
      henforced.address (r.connection q) uid hall hself hrules hnot
    rw [← hsteady.lists hlisted] at hanswer
    rw [and_iff_right hall]
    exact hanswer

/-- The verdict on a packet of an app on whose rules the address does not depend. The names are
none that was asked for as an address. -/
theorem Firewall.Kept.judge_iff (hkept : w.Kept myUid) (huid : (w.judge r o p h).1 = uid.toInt)
    (hself : uid.toInt ≠ myUid)
    (hrules : (w.installation.verdict uid.toInt .ip
      (r.connection (h.query p)).daddr).checkFinished = false)
    (hsteady : Steady w.calls o.database (r.connection (h.query p)).daddr)
    (hnames : ∀ name, told (w.calls ++ r.traceCalls o (w.judge r o p h).2.2.2.out)
          (r.connection (h.query p)) uid.toInt = some name ∨ r.sni p h = some name →
      cleanDomain name ≠ (r.connection (h.query p)).daddr ∧
        ¬ Asked (w.calls ++ r.traceCalls o (w.judge r o p h).2.2.2.out) (cleanDomain name)) :
    ((w.judge r o p h).2.1 = true ↔ w.installation.Permits o.database r
      (w.calls ++ r.traceCalls o (w.judge r o p h).2.2.2.out) p h uid.toInt) ∧
    ((w.judge r o p h).2.2.1 = true ↔ w.installation.StopsQuic p h uid.toInt) := by
  let env := w.session.env r o
  let named := Engine.serverName p h uid.toInt
    (Engine.packetUid env p h ⟨w.loop.ngSession, []⟩).2
  have hjudge : (w.judge r o p h).2 =
      Engine.checkAllowedPacket env p h uid.toInt named.1 named.2 := by
    have hfound : (Engine.packetUid env p h ⟨w.loop.ngSession, []⟩).1 = uid.toInt := huid
    simp only [Firewall.judge, judgePacket, named, ← hfound]
    rfl
  rw [hjudge] at hnames ⊢
  obtain ⟨t, hout, hasks⟩ := checkAllowedPacket_out (p := p) (h := h) env uid.toInt named.1 named.2
  rw [hout, r.traceCalls_append, ← List.append_assoc] at hnames ⊢
  generalize hpast : w.calls ++ r.traceCalls o named.2.out = past at hnames ⊢
  -- what is told does not change while the questions are asked
  have htold : ∀ t', Asks (h.query p) uid.toInt named.1 t' → ∀ name,
      Service.told (past ++ r.traceCalls o t') (r.connection (h.query p)) uid.toInt = some name ↔
        Service.told past (r.connection (h.query p)) uid.toInt = some name := by
    intro t' ht' name
    rw [told_silent ht'.silent]
  have hnot : ∀ t', Asks (h.query p) uid.toInt named.1 t' → ∀ name,
      Service.told past (r.connection (h.query p)) uid.toInt = some name ∨ r.sni p h = some name →
        ¬ Asked (past ++ r.traceCalls o t') (cleanDomain name) := by
    intro t' ht' name hname hasked
    rw [← htold t hasks] at hname
    obtain ⟨hdaddr, hfresh⟩ := hnames name hname
    rcases ht'.asked hasked with ⟨db, c, uid', hmem, htext⟩ | hown
    · exact hfresh ⟨db, c, uid', List.mem_append_left _ hmem, htext⟩
    · exact hdaddr hown.symm
  have hcalls : ∀ t', w.calls ++ r.traceCalls o (named.2.out ++ t') =
      past ++ r.traceCalls o t' := by
    intro t'
    rw [r.traceCalls_append, ← List.append_assoc, hpast]
  have hafter : ∀ t', Enforced w.installation myUid (past ++ r.traceCalls o t')
      (w.session.after r o (named.2.out ++ t')) o.database := by
    intro t'
    rw [← hcalls]
    exact (hkept.session.after (named.2.out ++ t')).enforced o.database
  have hsni : named.1.isEmpty = false → r.sni p h = some (r.text named.1) := by
    intro hname
    rw [r.sni_serverName uid.toInt (Engine.packetUid env p h ⟨w.loop.ngSession, []⟩).2, if_neg]
    exact fun hempty => absurd (hempty.symm.trans hname) Bool.noConfusion
  have hquic : env.isQuicBlocked named.2.out uid.toInt = true ↔
      w.installation.BlocksQuic uid.toInt := by
    have hanswer := (hafter []).quic uid.toInt
    rwa [List.append_nil] at hanswer
  have hallowed : ∀ t', Asks (h.query p) uid.toInt named.1 t' →
      (env.isAddressAllowed (named.2.out ++ t') (h.query p) uid.toInt = true ↔
        ¬ w.installation.BlocksAll uid.toInt ∧
          o.database.lists .ip (r.connection (h.query p)).daddr = false ∧
          ∀ name, Service.told past (r.connection (h.query p)) uid.toInt = some name →
            isBlank name = false →
              ¬ w.installation.RefusesName o.database uid.toInt (cleanDomain name)) := by
    intro t' ht'
    have hanswer := hkept.session.isAddressAllowed_iff (r := r) (o := o) (named.2.out ++ t')
      (h.query p) hself hrules (hsteady.traceCalls _)
    simp only [hcalls, htold t' ht'] at hanswer
    exact hanswer fun name hname => hnot t' ht' name (.inl hname)
  have hblocked : named.1.isEmpty = false → ∀ t', Asks (h.query p) uid.toInt named.1 t' →
      (env.isDomainBlocked (named.2.out ++ t') uid.toInt named.1 = true ↔
        w.installation.BlocksAll uid.toInt ∨
          w.installation.RefusesName o.database uid.toInt (cleanDomain (r.text named.1))) := by
    intro hname t' ht'
    exact (hafter t').domain uid (r.text named.1) (hnot t' ht' _ (.inr (hsni hname)))
  have hstops : w.installation.StopsQuic p h uid.toInt ↔ ¬ (h.protocol = Engine.ipprotoUdp →
      (h.query p).dport = 443 → 0 < uid.toInt → ¬ w.installation.BlocksQuic uid.toInt) := by
    simp [Installation.StopsQuic]
  refine ⟨?_, (checkAllowedPacket_quic env uid.toInt named.1 named.2).trans ?_⟩
  · rw [checkAllowedPacket_iff hquic hallowed hblocked]
    constructor
    · rintro ⟨hquic, ⟨happ, haddress, htold'⟩, hname⟩
      refine ⟨happ, fun hstop => hstops.mp hstop hquic, haddress,
        fun name hname => htold' name ((htold t hasks name).mp hname), ?_⟩
      intro name hsni'
      rw [r.sni_serverName uid.toInt (Engine.packetUid env p h ⟨w.loop.ngSession, []⟩).2] at hsni'
      obtain ⟨hempty, hsni'⟩ := Option.ite_none_left_eq_some.mp hsni'
      rw [← Option.some.inj hsni']
      exact fun hrefused => hname (Bool.not_eq_true _ ▸ hempty) (.inr hrefused)
    · intro hpermits
      refine ⟨not_not.mp fun hquic => hpermits.quic (hstops.mpr hquic),
        ⟨hpermits.app, hpermits.address,
          fun name hname => hpermits.told name ((htold t hasks name).mpr hname)⟩, ?_⟩
      intro hname hblocks
      rcases hblocks with hall | hrefused
      · exact hpermits.app hall
      · exact hpermits.sni _ (hsni hname) hrefused
  · rw [Installation.StopsQuic, hquic]

theorem Firewall.passes_iff : w.passes r o p h = true ↔ (w.judge r o p h).2.1 = true ∨
    w.loop.args.observeOnly = true ∧ ¬ (w.judge r o p h).2.2.1 = true := by
  change ((w.judge r o p h).2.1 || (w.loop.args.observeOnly && !(w.judge r o p h).2.2.1)) = true ↔ _
  simp

end Judge

section Runs
variable (r : Native) (w : Firewall) (o : Surroundings) (i : Installation) (args : Arguments)
  (soft : Option UInt64) (es : List (Surroundings × FirewallEvent))

/-- From a start on, with reloads and whatever happens, no live session is of an app that the
settings loaded last block. -/
theorem Firewall.keeps_out : ((w.step r (o, .start i args soft)).run r es).loop.Bars
    ((w.step r (o, .start i args soft)).run r es).installation.BlocksAll :=
  (w.kept_run o i args soft es).loop

/-- From a start on, the verdict on every packet is the policy of what was loaded last, of the
lists as they are, and of the names told since then. A packet that is refused passes only where
the firewall observes, and it is not QUIC that is to be stopped. -/
theorem Firewall.decides (o' : Surroundings) (p : Engine.Packet) (h : IpHdr) (uid : Int32)
    (past : List (Database × NativeCall)) (w' : Firewall)
    (hrun : w' = (w.step r (o, .start i args soft)).run r es)
    (hpast : past = w'.calls ++ r.traceCalls o' (w'.judge r o' p h).2.2.2.out)
    (huid : (w'.judge r o' p h).1 = uid.toInt) (hself : uid.toInt ≠ w.session.service.myUid)
    (hrules : (w'.installation.verdict uid.toInt .ip
      (r.connection (h.query p)).daddr).checkFinished = false)
    (hsteady : Steady w'.calls o'.database (r.connection (h.query p)).daddr)
    (hnames : ∀ name, told past (r.connection (h.query p)) uid.toInt = some name ∨
        r.sni p h = some name →
      cleanDomain name ≠ (r.connection (h.query p)).daddr ∧ ¬ Asked past (cleanDomain name)) :
    ((w'.judge r o' p h).2.1 = true ↔
        w'.installation.Permits o'.database r past p h uid.toInt) ∧
      (w'.passes r o' p h = true ↔ w'.installation.Permits o'.database r past p h uid.toInt ∨
        w'.loop.args.observeOnly = true ∧ ¬ w'.installation.StopsQuic p h uid.toInt) := by
  subst hpast
  have hkept : w'.Kept w.session.service.myUid := hrun ▸ w.kept_run o i args soft es
  obtain ⟨hverdict, hquic⟩ := hkept.judge_iff huid hself hrules hsteady hnames
  refine ⟨hverdict, ?_⟩
  rw [Firewall.passes_iff, hverdict, hquic]

end Runs

section Sample

def ipText (address : List UInt8) : List UInt8 :=
  [46].intercalate (address.map fun b => (Nat.toDigits 10 b.toNat).map fun c => UInt8.ofNat c.toNat)

def asciiText (bytes : List UInt8) : Text := bytes.map fun b => Char.ofNat b.toNat

def Native.sample : Native where
  address a := asciiText (ipText a)
  text := asciiText
  isEmpty_text bytes := by cases bytes <;> rfl
  inetNtop := ipText
  address_eq _ := rfl

def Surroundings.calm : Surroundings := ⟨.calm, 0, .empty, fun _ => 0⟩

def Installation.sample : Installation where
  filteredPackages := ["app".toList]
  packageNameToUid name := if name = "app".toList then 1000 else -1
  settings := [⟨"app".toList, true, false, false⟩]
  tables := ⟨[], [⟨none, "93.184.216.34".toList, .ip⟩]⟩

def Surroundings.listing : Surroundings :=
  { Surroundings.calm with database := .ofHosts Installation.sample.tables.hosts }

def Firewall.sample : Firewall where
  installation := .sample
  calls := []
  session := ⟨⟨.ofTables ⟨[], []⟩, fun _ => none⟩, fun _ => none⟩
  loop := .init .direct

def Firewall.started : Firewall :=
  (Firewall.sample.step .sample (.calm, .start .sample .direct none)).run .sample []

/-- The address was not listed at the start and is when the packet comes. -/
theorem Firewall.decides_sample :
    Firewall.started.passes .sample .listing .sampleSyn ⟨.v4, Engine.ipprotoTcp, 20⟩ ≠ true := by
  have hdecides := Firewall.decides .sample .sample .calm .sample .direct none [] .listing
    .sampleSyn ⟨.v4, Engine.ipprotoTcp, 20⟩ 1000 _ .started rfl rfl rfl (by decide) rfl ?_ ?_
  · intro hpasses
    rcases hdecides.2.mp hpasses with hpermits | ⟨hobserves, -⟩
    · exact absurd hpermits.address (by decide)
    · exact absurd hobserves Bool.false_ne_true
  · rintro db c uid hmem -
    exact absurd hmem List.not_mem_nil
  · rintro name (htold | hsni)
    · have hnone : (none : Option Text) = some name := htold
      exact absurd hnone.symm (Option.some_ne_none _)
    · have hnone : (none : Option Text) = some name := hsni
      exact absurd hnone.symm (Option.some_ne_none _)

end Sample

end NetGuard.Service
