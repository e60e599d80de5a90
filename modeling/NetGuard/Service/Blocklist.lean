import NetGuard.Service.Firewall
import NetGuard.Storage.BlockedIps
import NetGuard.Storage.Rescan
import NetGuard.Tls.Hello

/-! # From a hosts file to a packet

The app reads hosts files and stores what it finds in them, and the engine asks about each packet,
for which the service queries the tables. Here the whole way is one statement: which packets of an
app without rules of its own pass, in terms of the lines of the files.
-/
namespace NetGuard.Service
open Engine (Arguments IpHdr)
open Storage (Contents GlobalRuleSource GlobalRulesCubit GlobalTables HostsLine ReadsAddress Tools
  hostsText withoutWww words)

section Refresh
variable {tools : Tools} {contents : Contents} {g : GlobalRulesCubit} {source : GlobalRuleSource}
  {type : HostType} {target : Text}

/-- The lists are deleted, the page is opened again, and its sources are scanned. -/
def refresh (tools : Tools) (contents : Contents) (g : GlobalRulesCubit) : GlobalRulesCubit :=
  g.clearHashes.clearGeneric.load.scan tools contents

theorem sources_cleared (g : GlobalRulesCubit) : g.clearHashes.clearGeneric.load.sources =
    g.db.getAll.map fun source => { source with contentHash := none } := by
  simp [GlobalRulesCubit.load, GlobalRulesCubit.clearGeneric, GlobalRulesCubit.clearHashes,
    GlobalTables.getAll, GlobalTables.clearGeneric, GlobalTables.clearHashes,
    OrderedMap.mapValues, GlobalRuleSource.ofRow, Function.comp_def]

/-- Without a hash nothing that the source has is left out. -/
theorem changed_cleared (h : Storage.Lists contents source ⟨none, target, type⟩) :
    Storage.Changed tools contents { source with contentHash := none } := by
  obtain ⟨hostsfile, hcontent, hhas⟩ := h
  refine ⟨hostsfile, hcontent, ?_, Option.some_ne_none _⟩
  rintro rfl
  exact Storage.not_has_empty hhas

theorem isGeneric_refresh : IsGeneric (refresh tools contents g).db.hostsTable type target ↔
    ∃ source ∈ g.db.getAll, Storage.Lists contents source ⟨none, target, type⟩ := by
  have hgone : ∀ h ∈ (g.clearHashes.clearGeneric.load).db.hostsTable, h.ruleId ≠ none := by
    intro h hmem
    simpa using (List.mem_filter.mp hmem).2
  have hmem : IsGeneric (refresh tools contents g).db.hostsTable type target ↔
      ⟨none, target, type⟩ ∈ (refresh tools contents g).db.hostsTable := by
    constructor
    · rintro ⟨⟨ruleId, target', type'⟩, hmem, rfl, rfl, rfl⟩
      exact hmem
    · exact fun hmem => ⟨_, hmem, rfl, rfl, rfl⟩
  rw [hmem, refresh, GlobalRulesCubit.scan, Storage.mem_scanSources,
    or_iff_right fun h => hgone _ h rfl, sources_cleared]
  simp only [List.mem_map, exists_exists_and_eq_and]
  constructor
  · rintro ⟨source, hsource, -, hlists⟩
    exact ⟨source, hsource, hlists⟩
  · rintro ⟨source, hsource, hlists⟩
    exact ⟨source, hsource, changed_cleared hlists, hlists⟩

end Refresh

section Files
variable {tools : Tools} {contents : Contents} {g : GlobalRulesCubit}
  {files : GlobalRuleSource → Option (List HostsLine)}

/-- A line of a file names the host, up to `www.`, where the parser looks for names. -/
def NamesHost (sources : List GlobalRuleSource) (files : GlobalRuleSource → Option (List HostsLine))
    (name : Text) : Prop :=
  ∃ source ∈ sources, ∃ lines, files source = some lines ∧
    ∃ line ∈ lines, ∃ own, line.Reads own ∧ cleanDomain own = name

/-- A word of a file has the address in it. -/
def NamesAddress (sources : List GlobalRuleSource)
    (files : GlobalRuleSource → Option (List HostsLine)) (address : Text) : Prop :=
  ∃ source ∈ sources, ∃ lines, files source = some lines ∧
    ∃ w ∈ words (hostsText lines), ReadsAddress w address

theorem isGeneric_host_iff
    (hfiles : ∀ source ∈ g.db.getAll, contents.of source = (files source).map hostsText)
    (name : Text) : IsGeneric (refresh tools contents g).db.hostsTable .host name ↔
      NamesHost g.db.getAll files name := by
  rw [isGeneric_refresh, NamesHost]
  refine exists_congr fun source => and_congr_right fun hsource => ?_
  have hlists : ∀ lines, (Storage.parseHosts (hostsText lines) .empty).Has ⟨none, name, .host⟩ ↔
      ∃ line ∈ lines, ∃ own, line.Reads own ∧ cleanDomain own = name := by
    intro lines
    have hhosts := Storage.mem_hosts_iff lines name
    simp only [Storage.HostsParsingResult.Has, true_and, hhosts, eq_comm (a := name)]
    rfl
  simp [Storage.Lists, hfiles source hsource, hlists]

theorem isGeneric_ip_iff
    (hfiles : ∀ source ∈ g.db.getAll, contents.of source = (files source).map hostsText)
    (address : Text) : IsGeneric (refresh tools contents g).db.hostsTable .ip address ↔
      NamesAddress g.db.getAll files address := by
  rw [isGeneric_refresh, NamesAddress]
  refine exists_congr fun source => and_congr_right fun hsource => ?_
  simp [Storage.Lists, hfiles source hsource, Storage.HostsParsingResult.Has, Storage.mem_ips_iff]

end Files

section Judge
variable (r : Native) (w : Firewall) (o : Surroundings) (i : Installation) (args : Arguments)
  (soft : Option UInt64) (es : List (Surroundings × FirewallEvent))

/-- The queries find what is in the table; a query that fails finds nothing. -/
def Database.Holds (db : Database) (hosts : List HostEntry) : Prop :=
  ∀ type target, db.lists type target = true ↔ IsGeneric hosts type target

theorem Database.holds_ofHosts (hosts : List HostEntry) : (Database.ofHosts hosts).Holds hosts :=
  fun _ _ => MyVpnService.lists_ofHosts_iff

theorem Installation.verdict_without_rules {i : Installation} {uid : Int}
    (hrules : i.rulesOf uid = none) (kind : HostType) (value : Text) :
    i.verdict uid kind value = ⟨false, false⟩ := by
  rw [Installation.verdict, hrules]

theorem Installation.refusesName_without_rules {i : Installation} {db : Database} {uid : Int}
    (hrules : i.rulesOf uid = none) (name : Text) :
    i.RefusesName db uid name ↔ db.lists .host name = true := by
  rw [Installation.RefusesName, i.verdict_without_rules hrules, if_neg]
  exact fun h => absurd h.2 Bool.false_ne_true

/-- What the settings and the files leave of the packets of an app without rules. -/
structure Installation.Spares (i : Installation) (sources : List GlobalRuleSource)
    (files : GlobalRuleSource → Option (List HostsLine)) (r : Native)
    (calls : List (Database × NativeCall)) (p : Engine.Packet) (h : IpHdr) (uid : Int) : Prop where
  app : ¬ i.BlocksAll uid
  quic : ¬ i.StopsQuic p h uid
  address : ¬ NamesAddress sources files (r.connection (h.query p)).daddr
  told : ∀ name, told calls (r.connection (h.query p)) uid = some name → isBlank name = false →
    ¬ NamesHost sources files (cleanDomain name)
  sni : ∀ name, r.sni p h = some name → ¬ NamesHost sources files (cleanDomain name)

/-- The queries of a packet find what the app has read from hosts files. Then the packet, of an app
without rules, passes exactly if the settings allow it and the files name neither its address, nor
the name that its server was told to have, nor the one that it carries, or if the firewall only
observes and the packet is not QUIC that is to be stopped. -/
theorem Firewall.blocks_listed (o' : Surroundings) (p : Engine.Packet) (h : IpHdr) (uid : Int32)
    (past : List (Database × NativeCall)) (w' : Firewall) (tools : Tools) (contents : Contents)
    (g : GlobalRulesCubit) (files : GlobalRuleSource → Option (List HostsLine))
    (hrun : w' = (w.step r (o, .start i args soft)).run r es)
    (hpast : past = w'.calls ++ r.traceCalls o' (w'.judge r o' p h).2.2.2.out)
    (hfiles : ∀ source ∈ g.db.getAll, contents.of source = (files source).map hostsText)
    (hholds : o'.database.Holds (refresh tools contents g).db.hostsTable)
    (huid : (w'.judge r o' p h).1 = uid.toInt) (hself : uid.toInt ≠ w.session.service.myUid)
    (hrules : w'.installation.rulesOf uid.toInt = none)
    (hsteady : Steady w'.calls o'.database (r.connection (h.query p)).daddr)
    (hnames : ∀ name, told past (r.connection (h.query p)) uid.toInt = some name ∨
        r.sni p h = some name →
      cleanDomain name ≠ (r.connection (h.query p)).daddr ∧ ¬ Asked past (cleanDomain name)) :
    w'.passes r o' p h = true ↔
      w'.installation.Spares g.db.getAll files r past p h uid.toInt ∨
        w'.loop.args.observeOnly = true ∧ ¬ w'.installation.StopsQuic p h uid.toInt := by
  have hundecided : (w'.installation.verdict uid.toInt .ip
      (r.connection (h.query p)).daddr).checkFinished = false := by
    rw [Installation.verdict_without_rules hrules]
  have hdecides := Firewall.decides r w o i args soft es o' p h uid past w' hrun hpast huid hself
    hundecided hsteady hnames
  have hhost : ∀ name, w'.installation.RefusesName o'.database uid.toInt name ↔
      NamesHost g.db.getAll files name := by
    intro name
    rw [Installation.refusesName_without_rules hrules, hholds, isGeneric_host_iff hfiles]
  have hip : o'.database.lists .ip (r.connection (h.query p)).daddr = false ↔
      ¬ NamesAddress g.db.getAll files (r.connection (h.query p)).daddr := by
    rw [← Bool.not_eq_true, hholds, isGeneric_ip_iff hfiles]
  rw [hdecides.2]
  refine or_congr_left ?_
  constructor
  · rintro ⟨happ, hquic, haddress, htold, hsni⟩
    exact ⟨happ, hquic, hip.mp haddress,
      fun name hname hblank hnamed => htold name hname hblank ((hhost _).mpr hnamed),
      fun name hname hnamed => hsni name hname ((hhost _).mpr hnamed)⟩
  · rintro ⟨happ, hquic, haddress, htold, hsni⟩
    exact ⟨happ, hquic, hip.mpr haddress,
      fun name hname hblank hrefused => htold name hname hblank ((hhost _).mp hrefused),
      fun name hname hrefused => hsni name hname ((hhost _).mp hrefused)⟩

end Judge

section Sample

theorem isSpace_blank : ∀ c ∈ [' '], Storage.isSpace c = true ∧ c ≠ '\n' := by
  intro c hc
  obtain rfl := List.mem_singleton.mp hc
  decide

theorem isAddress_sample : Storage.IsAddress "93.184.216.34".toList :=
  .inl ⟨"93".toList, "184".toList, "216".toList, "34".toList,
    by simp [Storage.IsOctet, Storage.digit, Storage.numberOf],
    by simp [Storage.IsOctet, Storage.digit, Storage.numberOf],
    by simp [Storage.IsOctet, Storage.digit, Storage.numberOf],
    by simp [Storage.IsOctet, Storage.digit, Storage.numberOf], by decide⟩

/-- A file with the one line `93.184.216.34 ab`. -/
def HostsLine.sample : HostsLine where
  entry := .hosts ⟨[], nofun⟩ ⟨_, isAddress_sample⟩ ⟨⟨[' '], isSpace_blank⟩, List.cons_ne_nil _ _⟩
    ⟨"ab".toList, ["ab".toList], by decide, by simp [Storage.isLabel, Storage.isWord], rfl⟩ []
  trail := ⟨[], nofun⟩
  comment := none

def Contents.naming : Contents := ⟨fun _ => some (hostsText [HostsLine.sample]), fun _ => none⟩

/-- What a scan leaves of it. -/
def scannedHosts : List HostEntry :=
  [⟨none, "ab".toList, .host⟩, ⟨none, "93.184.216.34".toList, .ip⟩]

theorem hostsTable_naming :
    (refresh .sample Contents.naming .sample).db.hostsTable = scannedHosts := by
  decide +kernel

def Surroundings.scanned : Surroundings :=
  { Surroundings.calm with database := .ofHosts scannedHosts }

/-- A packet of a connection to `93.184.216.last`. -/
def packetTo (last : UInt8) (payload : List UInt8) : Engine.Packet :=
  .ofBytes ([0x45, 0, 0, UInt8.ofNat (40 + payload.length), 0, 0, 0, 0, 64, 6, 0, 0, 10, 0, 0, 2,
    93, 184, 216, last, 156, 64, 1, 187, 0, 0, 0, 100, 0, 0, 0, 9, 0x50, 24, 3, 232, 0, 0, 0, 0] ++
    payload)

/-- It asks a server that is not listed for the name `ab`. -/
def helloPacket : Engine.Packet :=
  packetTo 35 (Engine.ClientHello.sample Engine.isHostName_ab [Engine.padding]).record

def tcpHdr : IpHdr := ⟨.v4, Engine.ipprotoTcp, 20⟩

theorem sni_helloPacket : Native.sample.sni helloPacket tcpHdr = some "ab".toList := by
  decide +kernel

/-- The calls when a packet has been judged by a service that was just started. -/
def callsAfter (p : Engine.Packet) : List (Database × NativeCall) :=
  Firewall.started.calls ++ Native.sample.traceCalls .scanned
    (Firewall.started.judge .sample .scanned p tcpHdr).2.2.2.out

theorem callsAfter_helloPacket : (callsAfter helloPacket).map Prod.snd =
    [.cacheUid (Native.sample.connection (tcpHdr.query helloPacket)) 1000,
      .sniResolved "ab".toList (Native.sample.connection (tcpHdr.query helloPacket)) 1000,
      .isAddressAllowed (Native.sample.connection (tcpHdr.query helloPacket)) 1000] := by
  decide +kernel

theorem not_asked_helloPacket : ¬ Asked (callsAfter helloPacket) "ab".toList := by
  rintro ⟨db, c, uid, hmem, hc⟩
  have hcall := List.mem_map_of_mem (f := Prod.snd) hmem
  rw [callsAfter_helloPacket] at hcall
  simp only [List.mem_cons, List.not_mem_nil, NativeCall.isAddressAllowed.injEq, reduceCtorEq,
    or_false, false_or] at hcall
  rw [hcall.1] at hc
  exact absurd hc (by decide)

/-- The packets without data name nothing. -/
theorem unnamed_packetTo {last : UInt8} (hlast : last = 34 ∨ last = 35) (name : Text) :
    ¬ (told (callsAfter (packetTo last [])) (Native.sample.connection
        (tcpHdr.query (packetTo last []))) 1000 = some name ∨
      Native.sample.sni (packetTo last []) tcpHdr = some name) := by
  have hnone : told (callsAfter (packetTo last [])) (Native.sample.connection
        (tcpHdr.query (packetTo last []))) 1000 = none ∧
      Native.sample.sni (packetTo last []) tcpHdr = none := by
    rcases hlast with rfl | rfl
    · exact ⟨by decide +kernel, by decide +kernel⟩
    · exact ⟨by decide +kernel, by decide +kernel⟩
  simp [hnone.1, hnone.2]

theorem not_namesAddress_sample : ¬ NamesAddress GlobalRulesCubit.sample.db.getAll
    (fun _ => some [HostsLine.sample]) "93.184.216.35".toList := by
  rintro ⟨source, -, lines, hlines, hnamed⟩
  obtain rfl := Option.some.inj hlines
  have hips := (Storage.mem_ips_iff _ _).mpr hnamed
  exact absurd hips (by decide +kernel)

theorem namesAddress_sample : NamesAddress GlobalRulesCubit.sample.db.getAll
    (fun _ => some [HostsLine.sample]) "93.184.216.34".toList := by
  refine ⟨_, List.mem_singleton_self _, _, rfl, ?_⟩
  rw [← Storage.mem_ips_iff]
  decide +kernel

theorem namesHost_sample : NamesHost GlobalRulesCubit.sample.db.getAll
    (fun _ => some [HostsLine.sample]) "ab".toList :=
  ⟨_, List.mem_singleton_self _, _, rfl, _, List.mem_singleton_self _, "ab".toList, ⟨rfl, rfl⟩, rfl⟩

/-- The address and the name on that line are refused, and what is not on it passes. -/
theorem Firewall.blocks_listed_sample :
    Firewall.started.passes .sample .scanned (packetTo 34 []) tcpHdr ≠ true ∧
      Firewall.started.passes .sample .scanned helloPacket tcpHdr ≠ true ∧
      Firewall.started.passes .sample .scanned (packetTo 35 []) tcpHdr = true := by
  have hblocks := fun (p : Engine.Packet) => Firewall.blocks_listed .sample .sample .calm .sample
    .direct none [] .scanned p tcpHdr 1000 (callsAfter p) .started .sample Contents.naming .sample
    (fun _ => some [HostsLine.sample]) rfl rfl
    (fun source hsource => by rw [List.mem_singleton.mp hsource]; rfl)
    (hostsTable_naming ▸ Database.holds_ofHosts scannedHosts)
  have hquiet : ∀ db c uid, (db, .isAddressAllowed c uid) ∉ Firewall.started.calls :=
    fun db c uid => List.not_mem_nil
  have hobserves : ¬ Firewall.started.loop.args.observeOnly = true := Bool.false_ne_true
  refine ⟨?_, ?_, ?_⟩
  · have hlisted := hblocks (packetTo 34 []) (by decide +kernel) (by decide) rfl
      (fun db c uid hmem => absurd hmem (hquiet db c uid))
      fun name hname => absurd hname (unnamed_packetTo (.inl rfl) name)
    intro hpasses
    rcases hlisted.mp hpasses with hspares | ⟨hobserve, -⟩
    · exact hspares.address namesAddress_sample
    · exact hobserves hobserve
  · have hnamed := hblocks helloPacket (by decide +kernel) (by decide) rfl
      (fun db c uid hmem => absurd hmem (hquiet db c uid)) ?_
    · intro hpasses
      rcases hnamed.mp hpasses with hspares | ⟨hobserve, -⟩
      · exact hspares.sni _ sni_helloPacket namesHost_sample
      · exact hobserves hobserve
    · have htold : told (callsAfter helloPacket) (Native.sample.connection
          (tcpHdr.query helloPacket)) 1000 = some "ab".toList := by decide +kernel
      rintro name (hname | hname)
      · obtain rfl := Option.some.inj (htold.symm.trans hname)
        exact ⟨by decide, not_asked_helloPacket⟩
      · obtain rfl := Option.some.inj (sni_helloPacket.symm.trans hname)
        exact ⟨by decide, not_asked_helloPacket⟩
  · have hfree := hblocks (packetTo 35 []) (by decide +kernel) (by decide) rfl
      (fun db c uid hmem => absurd hmem (hquiet db c uid))
      fun name hname => absurd hname (unnamed_packetTo (.inr rfl) name)
    refine hfree.mpr (.inl ⟨?_, fun hquic => absurd hquic.1 (by decide), not_namesAddress_sample,
      fun name htold => absurd (.inl htold) (unnamed_packetTo (.inr rfl) name),
      fun name hsni => absurd (.inr hsni) (unnamed_packetTo (.inr rfl) name)⟩)
    rintro ⟨setting, ⟨hmem, -⟩, hall⟩
    rw [List.mem_singleton.mp hmem] at hall
    exact absurd hall Bool.false_ne_true

end Sample

end NetGuard.Service
