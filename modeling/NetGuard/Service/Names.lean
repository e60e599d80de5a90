import NetGuard.Library.Recent
import NetGuard.Library.Run
import NetGuard.Service.Lists

/-! # Names that connections announce

A ClientHello stores its server name under a key that all connections of an app to one
server share, and every later packet of each of them is judged by the name stored last.
A run of packets therefore acts on a verdict through one value only.
-/
namespace NetGuard.Service

/-- The address and port that connections go to. -/
structure Server where
  version : Int
  daddr : Text
  dport : Int

def Server.connection (server : Server) (source : Text × Int) : Connection :=
  ⟨server.version, 6, source.1, source.2, server.daddr, server.dport⟩

/-- A TCP packet: the end it comes from, and the server name if it is a ClientHello. -/
structure Packet where
  source : Text × Int
  name : Option Text

namespace MyVpnService

def sniResolved (sni : Text) (c : Connection) (uid : Int) (s : MyVpnService) : MyVpnService :=
  { s with mapIPKeySni := s.mapIPKeySni.put (c.key uid).identity (cleanDomain sni) }

def parsedSni (name : Option Text) (c : Connection) (uid : Int) (s : MyVpnService) :
    MyVpnService :=
  match name with
  | some name => s.sniResolved name c uid
  | none => s

/-- The verdict of `handle_ip` on a TCP packet, with the upcalls that it makes. -/
def judgeTcp (db : Database) (server : Server) (uid : Int) (p : Packet) (s : MyVpnService) :
    Bool × MyVpnService :=
  let c := server.connection p.source
  let serverName := p.name.getD []
  let (allowed, s) := (s.parsedSni p.name c uid).isAddressAllowed db c.version c.protocol c.saddr
    c.sport c.daddr c.dport uid
  if allowed && !serverName.isEmpty then
    let (blocked, s) := s.isDomainBlocked db uid serverName
    (!blocked, s)
  else (allowed, s)

def handlePacket (db : Database) (server : Server) (uid : Int) (s : MyVpnService) (p : Packet) :
    MyVpnService :=
  (s.judgeTcp db server uid p).2

end MyVpnService

section Run
variable {db : Database} {server : Server} {uid : Int} {s₀ s : MyVpnService} {es : List Packet}

def Server.slot (server : Server) (uid : Int) : IPKey.Identity :=
  ⟨server.version, 6, server.daddr, server.dport, uid⟩

theorem Server.identity_connection (source : Text × Int) :
    ((server.connection source).key uid).identity = server.slot uid := rfl

/-- The name that was stored last, if a packet of `es` announced one. -/
def heard (es : List Packet) : Option Text := Recent.last (fun p => p.name.map cleanDomain) es

theorem heard_concat {p : Packet} :
    heard (es ++ [p]) = (p.name.map cleanDomain).or (heard es) :=
  Recent.last_concat

/-- The state after the packets `es`: the rules stand, the cache of addresses has at most
the server's address more and that of hosts only answers of the database, and the slot of
the server holds the name heard last. -/
structure Known (db : Database) (server : Server) (uid : Int) (s₀ : MyVpnService)
    (es : List Packet) (s : MyVpnService) : Prop where
  myUid : s.myUid = s₀.myUid
  blockAll : s.setUidBlockAll = s₀.setUidBlockAll
  rules : s.mapUidRules = s₀.mapUidRules
  ips : ∀ ip, s.mapGlobalBlockedIPs ip = s₀.mapGlobalBlockedIPs ip ∨
    (ip = server.daddr ∧ s.mapGlobalBlockedIPs ip = some (s₀.ipListed db ip))
  hosts : ∀ host, s.mapGlobalBlockedHosts host = s₀.mapGlobalBlockedHosts host ∨
    (s₀.mapGlobalBlockedIPs host = none ∧
      s.mapGlobalBlockedHosts host = some (queryBoolean (db.containsHost host)))
  sni : s.mapIPKeySni (server.slot uid) = (heard es).or (s₀.mapIPKeySni (server.slot uid))

theorem Known.nil : Known db server uid s₀ [] s₀ where
  myUid := rfl
  blockAll := rfl
  rules := rfl
  ips _ := Or.inl rfl
  hosts _ := Or.inl rfl
  sni := rfl

theorem Known.ipListed (h : Known db server uid s₀ es s) (ip : Text) :
    s.ipListed db ip = s₀.ipListed db ip := by
  rcases h.ips ip with hip | ⟨-, hip⟩
  · simp only [MyVpnService.ipListed, hip]
  · rw [MyVpnService.ipListed, hip]

theorem Known.uncached (h : Known db server uid s₀ es s) {host : Text}
    (hnone : s.mapGlobalBlockedIPs host = none) : s₀.mapGlobalBlockedIPs host = none := by
  rcases h.ips host with hsame | ⟨-, hsome⟩
  · exact hsame ▸ hnone
  · simp [hnone] at hsome

theorem Known.askedHosts (h : Known db server uid s₀ es s) {hosts : Map Text Bool}
    (hasked : s.AskedHosts db hosts) :
    Known db server uid s₀ es { s with mapGlobalBlockedHosts := hosts } where
  myUid := h.myUid
  blockAll := h.blockAll
  rules := h.rules
  ips := h.ips
  hosts host := by
    rcases hasked with rfl | ⟨asked, hnone, rfl⟩
    · exact h.hosts host
    · by_cases hhost : host = asked
      · subst hhost
        exact Or.inr ⟨h.uncached hnone, Function.update_self _ _ _⟩
      · simp only [Map.put, Function.update_of_ne hhost]
        exact h.hosts host
  sni := h.sni

theorem Known.askedIp (h : Known db server uid s₀ es s) :
    Known db server uid s₀ es
      { s with mapGlobalBlockedIPs := s.askedIp db server.daddr } where
  myUid := h.myUid
  blockAll := h.blockAll
  rules := h.rules
  ips ip := by
    by_cases hip : ip = server.daddr
    · subst hip
      refine Or.inr ⟨rfl, ?_⟩
      rw [← h.ipListed]
      exact Function.update_self _ _ _
    · rcases h.ips ip with hsame | ⟨hdaddr, -⟩
      · refine Or.inl (Eq.trans ?_ hsame)
        exact Function.update_of_ne hip _ _
      · exact (hip hdaddr).elim
  hosts := h.hosts
  sni := h.sni

theorem Known.parsedSni (h : Known db server uid s₀ es s) (p : Packet) :
    Known db server uid s₀ (es ++ [p])
      (s.parsedSni p.name (server.connection p.source) uid) := by
  cases hname : p.name with
  | none =>
    refine ⟨h.myUid, h.blockAll, h.rules, h.ips, h.hosts, ?_⟩
    rw [heard_concat, hname]
    exact h.sni
  | some name =>
    refine ⟨h.myUid, h.blockAll, h.rules, h.ips, h.hosts, ?_⟩
    rw [heard_concat, hname]
    exact Function.update_self _ _ _

theorem Known.isAddressAllowed (h : Known db server uid s₀ es s) (source : Text × Int) :
    Known db server uid s₀ es
      (s.isAddressAllowed db (server.connection source).version (server.connection source).protocol
        (server.connection source).saddr (server.connection source).sport
        (server.connection source).daddr (server.connection source).dport uid).2 := by
  obtain ⟨hosts, ips, hasked, hstate, hips⟩ := MyVpnService.isAddressAllowed_snd s db uid
    (server.connection source)
  rw [hstate]
  rcases hips with rfl | rfl
  · exact h.askedHosts hasked
  · exact (h.askedHosts hasked).askedIp

theorem Known.step (h : Known db server uid s₀ es s) (p : Packet) :
    Known db server uid s₀ (es ++ [p]) (s.handlePacket db server uid p) := by
  have hallowed := (h.parsedSni p).isAddressAllowed p.source
  simp only [MyVpnService.handlePacket, MyVpnService.judgeTcp]
  split
  · obtain ⟨hosts, hasked, hstate⟩ := MyVpnService.isDomainBlocked_snd
      ((s.parsedSni p.name (server.connection p.source) uid).isAddressAllowed db
        server.version 6 p.source.1 p.source.2 server.daddr server.dport uid).2 db uid
      (p.name.getD [])
    have hdomain := hallowed.askedHosts hasked
    exact hstate ▸ hdomain
  · exact hallowed

theorem known_run (es : List Packet) :
    Known db server uid s₀ es (es.foldl (MyVpnService.handlePacket db server uid) s₀) := by
  have hrun : Run.Along (MyVpnService.handlePacket db server uid) (fun _ _ => True) s₀ es :=
    .of_forall (fun _ _ => trivial) _ _
  exact hrun.history (fun _ _ p _ h => h.step p) [] Known.nil

end Run

namespace MyVpnService

section Verdict
variable (s : MyVpnService) (db : Database) (uid : Int) (daddr : Text)

/-- The rules on addresses, or the global list of them, leave nothing to a name. -/
def Decided : Prop :=
  uid ∈ s.setUidBlockAll ∨ uid = s.myUid ∨
    (s.blockedByRule uid daddr .ip).checkFinished = true ∨ s.ipListed db daddr = true

/-- The verdict on a connection that is known by `name`. -/
def verdict (name : Text) : Bool :=
  if uid ∈ s.setUidBlockAll then false
  else if uid = s.myUid then true
  else if (s.blockedByRule uid daddr .ip).checkFinished then
    (s.blockedByRule uid daddr .ip).blocked
  else !(s.checkDomain db uid (some name)).1 && !s.ipListed db daddr

end Verdict

variable {s : MyVpnService} {db : Database} {uid : Int} {daddr : Text} {c : Connection}

theorem verdict_eq_iff {name name' : Text} :
    s.verdict db uid daddr name = s.verdict db uid daddr name' ↔
      s.Decided db uid daddr ∨
        (s.checkDomain db uid (some name)).1 = (s.checkDomain db uid (some name')).1 := by
  unfold verdict Decided
  by_cases hall : uid ∈ s.setUidBlockAll
  · simp [hall]
  by_cases hself : uid = s.myUid
  · simp [hself]
  cases hfinished : (s.blockedByRule uid daddr .ip).checkFinished with
  | true => simp
  | false =>
    cases hlisted : s.ipListed db daddr with
    | true => simp
    | false => simp [hall, hself]

theorem isAddressAllowed_verdict {name : Text} (hname : s.getDomainName (c.key uid) = some name) :
    (s.isAddressAllowed db c.version c.protocol c.saddr c.sport c.daddr c.dport uid).1 =
      s.verdict db uid c.daddr name := by
  unfold verdict
  by_cases hall : uid ∈ s.setUidBlockAll
  · rw [isAddressAllowed_blockAll hall, if_pos hall]
  · rw [if_neg hall]
    by_cases hself : uid = s.myUid
    · rw [isAddressAllowed_self hall hself, if_pos hself]
    · rw [isAddressAllowed_fst hall hself, if_neg hself, hname]

theorem isDomainBlocked_congr {t : MyVpnService} {name : Text}
    (hall : t.setUidBlockAll = s.setUidBlockAll) (hrules : t.mapUidRules = s.mapUidRules)
    (hlisted : t.hostListed db (cleanDomain name) = s.hostListed db (cleanDomain name)) :
    (t.isDomainBlocked db uid name).1 = (s.isDomainBlocked db uid name).1 := by
  have hrule : t.blockedByRule uid (cleanDomain name) .host =
      s.blockedByRule uid (cleanDomain name) .host := by
    simp only [blockedByRule, hrules]
  simp only [isDomainBlocked, hall, hrule, apply_ite Prod.fst, hostBlockedGlobally_fst, hlisted]

end MyVpnService

section Run
variable {db : Database} {server : Server} {uid : Int} {s₀ s : MyVpnService} {es : List Packet}

/-- A string that is looked up as a host with one answer before and after the address of
the server is cached. -/
def Server.Steady (server : Server) (db : Database) (s₀ : MyVpnService) (name : Text) : Prop :=
  name = server.daddr → s₀.hostListed db name = (s₀.mapGlobalBlockedHosts name == some true)

theorem Known.hostListed (h : Known db server uid s₀ es s) {name : Text}
    (hname : server.Steady db s₀ name) : s.hostListed db name = s₀.hostListed db name := by
  rcases h.ips name with hsame | ⟨hdaddr, hsome⟩
  · simp only [MyVpnService.hostListed, hsame]
    by_cases hcached : (s₀.mapGlobalBlockedIPs name).isSome
    · rcases h.hosts name with hhosts | ⟨hnone, -⟩
      · rw [if_pos hcached, if_pos hcached, hhosts]
      · simp [hnone] at hcached
    · rw [if_neg hcached, if_neg hcached]
  · have hcached : (s.mapGlobalBlockedIPs name).isSome = true := by rw [hsome]; rfl
    rw [MyVpnService.hostListed, if_pos hcached]
    rcases h.hosts name with hhosts | ⟨hnone, hhosts⟩
    · rw [hhosts]
      exact (hname hdaddr).symm
    · simp [MyVpnService.hostListed, hnone, hhosts]

theorem Known.checkDomain (h : Known db server uid s₀ es s) {name : Text}
    (hname : server.Steady db s₀ (cleanDomain name)) :
    (s.checkDomain db uid (some name)).1 = (s₀.checkDomain db uid (some name)).1 := by
  by_cases hblank : (!isBlank name) = true
  · rw [MyVpnService.checkDomain, MyVpnService.checkDomain, if_pos hblank, if_pos hblank]
    exact MyVpnService.isDomainBlocked_congr h.blockAll h.rules (h.hostListed hname)
  · rw [MyVpnService.checkDomain, MyVpnService.checkDomain, if_neg hblank, if_neg hblank]

theorem Known.verdict (h : Known db server uid s₀ es s) {name : Text}
    (hname : server.Steady db s₀ (cleanDomain name)) :
    s.verdict db uid server.daddr name = s₀.verdict db uid server.daddr name := by
  have hrule : s.blockedByRule uid server.daddr .ip = s₀.blockedByRule uid server.daddr .ip := by
    simp only [MyVpnService.blockedByRule, h.rules]
  simp only [MyVpnService.verdict, h.blockAll, h.myUid, hrule, h.checkDomain hname, h.ipListed]

/-- A verdict in a run is a function of the state before the run and the name heard last. -/
theorem Known.judgeTcp (h : Known db server uid s₀ es s) {p : Packet} {name : Text}
    (hheard : heard (es ++ [p]) = some name) (hname : server.Steady db s₀ (cleanDomain name))
    (hown : ∀ n, p.name = some n → server.Steady db s₀ (cleanDomain n)) :
    (s.judgeTcp db server uid p).1 =
      (s₀.verdict db uid server.daddr name &&
        ((p.name.getD []).isEmpty || !(s₀.isDomainBlocked db uid (p.name.getD [])).1)) := by
  have hparsed := h.parsedSni p
  have hdomain : (s.parsedSni p.name (server.connection p.source) uid).getDomainName
      ((server.connection p.source).key uid) = some name := by
    rw [MyVpnService.getDomainName, Server.identity_connection, hparsed.sni, hheard]
    rfl
  have hallowed := hparsed.isAddressAllowed p.source
  have hverdict : (s.parsedSni p.name (server.connection p.source) uid).verdict db uid
      (server.connection p.source).daddr name = s₀.verdict db uid server.daddr name :=
    hparsed.verdict hname
  simp only [MyVpnService.judgeTcp, MyVpnService.isAddressAllowed_verdict hdomain, hverdict]
  cases hp : p.name with
  | none => simp
  | some n =>
    have hblocked : ((MyVpnService.isAddressAllowed db (server.connection p.source).version
        (server.connection p.source).protocol (server.connection p.source).saddr
        (server.connection p.source).sport (server.connection p.source).daddr
        (server.connection p.source).dport uid
        (s.parsedSni p.name (server.connection p.source) uid)).2.isDomainBlocked db uid n).1 =
          (s₀.isDomainBlocked db uid n).1 :=
      MyVpnService.isDomainBlocked_congr hallowed.blockAll hallowed.rules
        (hallowed.hostListed (hown n hp))
    rw [hp] at hblocked
    cases s₀.verdict db uid server.daddr name with
    | false => simp
    | true => cases hempty : n.isEmpty <;> simp [hempty, hblocked]

end Run

section Alone
variable {db : Database} {server : Server} {s₀ : MyVpnService} {es : List Packet}
  {first : Text × Int}

/-- The packets of one connection. -/
def packetsOf (first : Text × Int) (es : List Packet) : List Packet :=
  es.filter fun p => p.source = first

theorem isSome_heard_iff : (heard es).isSome ↔ ∃ p ∈ es, p.name.isSome := by
  rw [heard, Recent.isSome_last_iff]
  simp only [Option.isSome_map]

theorem exists_of_heard {name : Text} (h : heard es = some name) :
    ∃ p ∈ es, p.name.map cleanDomain = some name := by
  obtain ⟨pre, p, post, rfl, hname, -⟩ := Recent.last_eq_some_iff.mp h
  exact ⟨p, by simp, hname⟩

theorem heard_packetsOf_isSome_iff :
    (heard (packetsOf first es)).isSome ↔ ∃ p ∈ es, p.source = first ∧ p.name.isSome := by
  rw [isSome_heard_iff]
  simp only [packetsOf, List.mem_filter, decide_eq_true_eq, and_assoc]

def Server.NamesSteady (server : Server) (db : Database) (s₀ : MyVpnService)
    (es : List Packet) : Prop :=
  ∀ p ∈ es, ∀ n, p.name = some n →
    server.Steady db s₀ (cleanDomain n) ∧ server.Steady db s₀ (cleanDomain (cleanDomain n))

theorem Server.NamesSteady.of_heard (h : server.NamesSteady db s₀ es) {name : Text}
    (hheard : heard es = some name) : server.Steady db s₀ (cleanDomain name) := by
  obtain ⟨p, hp, hname⟩ := exists_of_heard hheard
  obtain ⟨n, hn, rfl⟩ := Option.map_eq_some_iff.mp hname
  exact (h p hp n hn).2

theorem Server.NamesSteady.mono {es' : List Packet} (h : server.NamesSteady db s₀ es)
    (hsub : ∀ p ∈ es', p ∈ es) : server.NamesSteady db s₀ es' :=
  fun p hp => h p (hsub p hp)

/-- The verdict on the last packet of a run, from the state before the run. -/
theorem Server.NamesSteady.judgeTcp {uid : Int} {p : Packet} (name : Text)
    (h : server.NamesSteady db s₀ (es ++ [p])) (hheard : heard (es ++ [p]) = some name) :
    ((es.foldl (MyVpnService.handlePacket db server uid) s₀).judgeTcp db server uid p).1 =
      (s₀.verdict db uid server.daddr name &&
        ((p.name.getD []).isEmpty || !(s₀.isDomainBlocked db uid (p.name.getD [])).1)) := by
  apply (known_run es).judgeTcp hheard (h.of_heard hheard)
  intro n hn
  exact (h p (by simp) n hn).1

end Alone

/-- The verdicts on one connection after its own ClientHello are those of the run without
the others exactly if the name that was stored last always gets the answer of its own.
A name that is the server's address must not be a host whose answer depends on what was
looked up before. -/
theorem judgeTcp_alone_iff (db : Database) (server : Server) (uid : Int) (s₀ : MyVpnService)
    (es : List Packet) (first : Text × Int) (hsteady : server.NamesSteady db s₀ es) :
    (∀ pre p post, es = pre ++ p :: post → p.source = first →
      (∃ q ∈ pre, q.source = first ∧ q.name.isSome) →
      ((pre.foldl (MyVpnService.handlePacket db server uid) s₀).judgeTcp db server uid p).1 =
        (((packetsOf first pre).foldl (MyVpnService.handlePacket db server uid) s₀).judgeTcp
          db server uid p).1) ↔
    ∀ pre p post, es = pre ++ p :: post → p.source = first → p.name = none →
      ∀ own last, heard (packetsOf first pre) = some own → heard pre = some last →
        s₀.Decided db uid server.daddr ∨
          (s₀.checkDomain db uid (some last)).1 = (s₀.checkDomain db uid (some own)).1 := by
  have hparts (pre : List Packet) (p : Packet) (post : List Packet) (heq : es = pre ++ p :: post) :
      server.NamesSteady db s₀ (pre ++ [p]) ∧
        server.NamesSteady db s₀ (packetsOf first pre ++ [p]) := by
    constructor
    · apply hsteady.mono
      intro q hq
      simp only [heq, List.mem_append, List.mem_cons] at hq ⊢
      tauto
    · apply hsteady.mono
      intro q hq
      simp only [heq, packetsOf, List.mem_append, List.mem_cons, List.mem_filter] at hq ⊢
      tauto
  constructor
  · intro hsame pre p post heq hsource hname own last hheardOwn hheard
    obtain ⟨hmixed, halone⟩ := hparts pre p post heq
    have hq := heard_packetsOf_isSome_iff.mp (by rw [hheardOwn]; rfl)
    have hverdict := hsame pre p post heq hsource hq
    rw [hmixed.judgeTcp last (by rw [heard_concat, hname]; exact hheard),
      halone.judgeTcp own (by rw [heard_concat, hname]; exact hheardOwn), hname]
      at hverdict
    simp only [Option.getD_none, List.isEmpty_nil, Bool.true_or, Bool.and_true] at hverdict
    exact MyVpnService.verdict_eq_iff.mp hverdict
  · intro hagree pre p post heq hsource hq
    obtain ⟨hmixed, halone⟩ := hparts pre p post heq
    cases hname : p.name with
    | some n =>
      -- the packet stores its own name before it is judged
      rw [hmixed.judgeTcp (cleanDomain n) (by rw [heard_concat, hname]; rfl),
        halone.judgeTcp (cleanDomain n) (by rw [heard_concat, hname]; rfl)]
    | none =>
      obtain ⟨own, hheardOwn⟩ := Option.isSome_iff_exists.mp (heard_packetsOf_isSome_iff.mpr hq)
      obtain ⟨q, hmem, -, hsome⟩ := hq
      obtain ⟨last, hheard⟩ := Option.isSome_iff_exists.mp
        (isSome_heard_iff.mpr ⟨q, hmem, hsome⟩)
      rw [hmixed.judgeTcp last (by rw [heard_concat, hname]; exact hheard),
        halone.judgeTcp own (by rw [heard_concat, hname]; exact hheardOwn),
        MyVpnService.verdict_eq_iff.mpr (hagree pre p post heq hsource hname own last hheardOwn
          hheard)]

section Samples

def Server.sample : Server := ⟨4, "93.184.216.34".toList, 443⟩

/-- A packet from a port of the app, with the name it announces if it is not empty. -/
def Packet.sample (sport : Int) (name : String) : Packet :=
  ⟨("10.1.10.1".toList, sport), if name.isEmpty then none else some name.toList⟩

def MyVpnService.refusingSample : MyVpnService :=
  .ofTables (.sample .blacklist false [("bad.b".toList, .host)])

theorem Server.namesSteady_sample (es : List Packet) :
    Server.sample.NamesSteady .empty .refusingSample es := by
  intro p _ n _
  exact ⟨fun _ => rfl, fun _ => rfl⟩

end Samples

theorem judgeTcp_alone_sample :
    ((([Packet.sample 40000 "good.a", .sample 40001 "ok.c"].foldl
      (MyVpnService.handlePacket .empty .sample 10001) .refusingSample).judgeTcp
        .empty .sample 10001 (.sample 40000 "")).1 =
      (((packetsOf ("10.1.10.1".toList, 40000)
        [.sample 40000 "good.a", .sample 40001 "ok.c"]).foldl
          (MyVpnService.handlePacket .empty .sample 10001) .refusingSample).judgeTcp
            .empty .sample 10001 (.sample 40000 "")).1) := by
  refine (judgeTcp_alone_iff .empty .sample 10001 .refusingSample
    [.sample 40000 "good.a", .sample 40001 "ok.c", .sample 40000 ""] _
    (Server.namesSteady_sample _)).mpr ?_ [_, _] _ [] rfl rfl ⟨_, List.mem_cons_self, rfl, rfl⟩
  intro pre p post heq _ _ own last hown hlast
  have hallowed (name : Text) (hname : heard pre = some name ∨
      heard (packetsOf ("10.1.10.1".toList, 40000) pre) = some name) :
      (MyVpnService.refusingSample.checkDomain .empty 10001 (some name)).1 = false := by
    obtain ⟨q, hq, hn⟩ : ∃ q ∈ pre, q.name.map cleanDomain = some name := by
      rcases hname with hname | hname
      · exact exists_of_heard hname
      · obtain ⟨q, hq, hn⟩ := exists_of_heard hname
        exact ⟨q, List.mem_of_mem_filter hq, hn⟩
    have hmem : q ∈ [Packet.sample 40000 "good.a", .sample 40001 "ok.c", .sample 40000 ""] := by
      simp [heq, hq]
    simp only [List.mem_cons, List.not_mem_nil, or_false] at hmem
    rcases hmem with rfl | rfl | rfl
    · obtain rfl := Option.some.inj hn
      decide
    · obtain rfl := Option.some.inj hn
      decide
    · exact absurd hn (Option.some_ne_none name).symm
  exact Or.inr ((hallowed last (Or.inl hlast)).trans (hallowed own (Or.inr hown)).symm)

/-- Another connection's refused name refuses a connection that announced an allowed one. -/
theorem not_judgeTcp_alone :
    packetsOf ("10.1.10.1".toList, 40000) [.sample 40000 "good.a", .sample 40001 "bad.b"] =
        [.sample 40000 "good.a"] ∧
      (([Packet.sample 40000 "good.a", .sample 40001 "bad.b"].foldl
        (MyVpnService.handlePacket .empty .sample 10001) .refusingSample).judgeTcp
          .empty .sample 10001 (.sample 40000 "")).1 = false ∧
      (([Packet.sample 40000 "good.a"].foldl
        (MyVpnService.handlePacket .empty .sample 10001) .refusingSample).judgeTcp
          .empty .sample 10001 (.sample 40000 "")).1 = true := by
  refine ⟨?_, ?_, ?_⟩
  · rfl
  · decide
  · decide

end NetGuard.Service
