import NetGuard.Library.Run
import NetGuard.Library.OrderedMap
import NetGuard.Storage.Parser
import NetGuard.Storage.Rules

/-! # The scan of the global lists

A scan reads the sources whose content has changed, stores the hashes of the contents and
then the hosts and addresses in batches. The page holds a copy of the sources as they were
when it was opened; the scan works on a copy of that.
-/
namespace NetGuard.Storage
open Service (Text HostType HostEntry)

inductive SourceType
  | online
  | localFile
  deriving DecidableEq, Repr

structure GlobalRuleSource where
  id : Text
  source : Text
  type : SourceType
  contentHash : Option Text
  deriving DecidableEq, Repr

/-- A row of `global_rule_source_table` under its id. -/
structure SourceRow where
  source : Text
  type : SourceType
  contentHash : Option Text
  deriving DecidableEq, Repr

structure GlobalTables where
  globalRuleSourceTable : OrderedMap Text SourceRow
  hostsTable : List HostEntry

def GlobalRuleSource.companion (s : GlobalRuleSource) : Text × SourceRow :=
  (s.id, ⟨s.source, s.type, s.contentHash⟩)

def GlobalRuleSource.ofRow (r : Text × SourceRow) : GlobalRuleSource :=
  ⟨r.1, r.2.source, r.2.type, r.2.contentHash⟩

/-- What a scan leaves of a source. -/
def GlobalRuleSource.site (s : GlobalRuleSource) : Text × Text × SourceType :=
  (s.id, s.source, s.type)

namespace GlobalTables

def getAll (db : GlobalTables) : List GlobalRuleSource :=
  db.globalRuleSourceTable.entries.map .ofRow

def updateAll (db : GlobalTables) (entities : List GlobalRuleSource) : GlobalTables :=
  let companions := entities.map GlobalRuleSource.companion
  { db with
    globalRuleSourceTable :=
      companions.foldl (fun table r => table.add r.1 r.2) db.globalRuleSourceTable }

def clearHashes (db : GlobalTables) : GlobalTables :=
  { db with
    globalRuleSourceTable :=
      db.globalRuleSourceTable.mapValues fun r => { r with contentHash := none } }

def getGeneric (db : GlobalTables) : List HostEntry :=
  db.hostsTable.filter fun h => h.ruleId = none

def getGenericCount (db : GlobalTables) : Nat := db.getGeneric.length

def clearGeneric (db : GlobalTables) : GlobalTables :=
  { db with hostsTable := db.hostsTable.filter fun h => h.ruleId ≠ none }

def insertOnConflictUpdate (hosts : List HostEntry) (entity : HostEntry) : List HostEntry :=
  if hosts.any fun r => Database.Conflicts entity r then
    hosts.map fun r => if Database.Conflicts entity r then entity else r
  else hosts ++ [entity]

def insertAll (db : GlobalTables) (entries : List HostEntry) : GlobalTables :=
  { db with hostsTable := entries.foldl insertOnConflictUpdate db.hostsTable }

end GlobalTables

/-- What the sources hold. A page that cannot be fetched and a file that does not exist
have no content. -/
structure Contents where
  getRawWebsite : Text → Option Text
  readAsString : Text → Option Text

def Contents.of (contents : Contents) (s : GlobalRuleSource) : Option Text :=
  match s.type with
  | .online => contents.getRawWebsite s.source
  | .localFile => contents.readAsString s.source

/-- The hash function, and the order in which a `HashSet` is iterated. -/
structure Tools where
  generateMd5 : Text → Text
  iterate : HashSet → List Text
  perm : ∀ s, (iterate s).Perm s.elems

section Scan

def parseContent (tools : Tools) (hostsfile : Option Text) (source : GlobalRuleSource)
    (result : HostsParsingResult) : GlobalRuleSource × HostsParsingResult :=
  match hostsfile with
  | none => (source, result)
  | some hostsfile =>
    if hostsfile.isEmpty then (source, result)
    else
      let contentHash := tools.generateMd5 hostsfile
      if some contentHash = source.contentHash then (source, result)
      else ({ source with contentHash := some contentHash }, parseHosts hostsfile result)

def parseOnlineSource (tools : Tools) (contents : Contents) (source : GlobalRuleSource)
    (result : HostsParsingResult) : GlobalRuleSource × HostsParsingResult :=
  parseContent tools (contents.getRawWebsite source.source) source result

def parseLocalSource (tools : Tools) (contents : Contents) (source : GlobalRuleSource)
    (result : HostsParsingResult) : GlobalRuleSource × HostsParsingResult :=
  parseContent tools (contents.readAsString source.source) source result

def parseSource (tools : Tools) (contents : Contents) (source : GlobalRuleSource)
    (result : HostsParsingResult) : GlobalRuleSource × HostsParsingResult :=
  match source.type with
  | .online => parseOnlineSource tools contents source result
  | .localFile => parseLocalSource tools contents source result

def parseSources (tools : Tools) (contents : Contents) :
    List GlobalRuleSource → HostsParsingResult → List GlobalRuleSource × HostsParsingResult
  | [], result => ([], result)
  | source :: sources, result =>
    let (source, result) := parseSource tools contents source result
    let (sources, result) := parseSources tools contents sources result
    (source :: sources, result)

def HostsParsingResult.entries (tools : Tools) (result : HostsParsingResult) : List HostEntry :=
  ((tools.iterate result.hosts).map fun s => ⟨none, s, .host⟩) ++
    (tools.iterate result.ips).map fun s => ⟨none, s, .ip⟩

def chunkSize : Nat := 5000

/-- A transaction of the scan. -/
inductive Write
  | updateAll (entities : List GlobalRuleSource)
  | insertAll (entries : List HostEntry)

def Write.run (db : GlobalTables) : Write → GlobalTables
  | .updateAll entities => db.updateAll entities
  | .insertAll entries => db.insertAll entries

/-- The transactions of a scan. One that is stopped in its loop over the sources has made
none of them. -/
def scanWrites (tools : Tools) (contents : Contents) (sources : List GlobalRuleSource) :
    List Write :=
  let (sources, result) := parseSources tools contents sources .empty
  .updateAll sources :: ((result.entries tools).toChunks chunkSize).map .insertAll

def scanSources (tools : Tools) (contents : Contents) (sources : List GlobalRuleSource)
    (db : GlobalTables) : GlobalTables :=
  (scanWrites tools contents sources).foldl Write.run db

end Scan

section Sources
variable {tools : Tools} {contents : Contents} {source : GlobalRuleSource}
  {sources : List GlobalRuleSource} {result : HostsParsingResult} {h : HostEntry}

/-- The content of the source is not the one its hash was taken from. -/
def Changed (tools : Tools) (contents : Contents) (source : GlobalRuleSource) : Prop :=
  ∃ hostsfile, contents.of source = some hostsfile ∧ hostsfile ≠ [] ∧
    some (tools.generateMd5 hostsfile) ≠ source.contentHash

/-- `h` is one of the entries of the source. -/
def Lists (contents : Contents) (source : GlobalRuleSource) (h : HostEntry) : Prop :=
  ∃ hostsfile, contents.of source = some hostsfile ∧ (parseHosts hostsfile .empty).Has h

theorem parseSource_eq (tools : Tools) (contents : Contents) (source : GlobalRuleSource)
    (result : HostsParsingResult) : parseSource tools contents source result =
      parseContent tools (contents.of source) source result := by
  rw [parseSource, Contents.of]
  split <;> rfl

/-- What a scan does with a source: nothing, or it has changed and is parsed. -/
theorem parseSource_cases (tools : Tools) (contents : Contents) (source : GlobalRuleSource)
    (result : HostsParsingResult) :
    (¬ Changed tools contents source ∧
        parseSource tools contents source result = (source, result)) ∨
      ∃ hostsfile, contents.of source = some hostsfile ∧ Changed tools contents source ∧
        parseSource tools contents source result =
          ({ source with contentHash := some (tools.generateMd5 hostsfile) },
            parseHosts hostsfile result) := by
  rw [parseSource_eq]
  cases hcontent : contents.of source with
  | none =>
    refine .inl ⟨?_, rfl⟩
    rintro ⟨hostsfile, hsome, -⟩
    exact absurd (hcontent.symm.trans hsome) nofun
  | some hostsfile =>
    have honly : Changed tools contents source ↔
        hostsfile ≠ [] ∧ some (tools.generateMd5 hostsfile) ≠ source.contentHash := by
      simp [Changed, hcontent]
    rw [parseContent, honly]
    by_cases hempty : hostsfile = []
    · exact .inl ⟨fun hchanged => hchanged.1 hempty, by rw [if_pos (List.isEmpty_iff.mpr hempty)]⟩
    · rw [if_neg (by rwa [List.isEmpty_iff])]
      by_cases hhash : some (tools.generateMd5 hostsfile) = source.contentHash
      · exact .inl ⟨fun hchanged => hchanged.2 hhash, if_pos hhash⟩
      · exact .inr ⟨hostsfile, rfl, ⟨hempty, hhash⟩, if_neg hhash⟩

theorem site_parseSource : (parseSource tools contents source result).1.site = source.site := by
  rcases parseSource_cases tools contents source result with ⟨-, heq⟩ | ⟨hostsfile, -, -, heq⟩
  · rw [heq]
  · rw [heq]
    rfl

theorem not_changed_parseSource :
    ¬ Changed tools contents (parseSource tools contents source result).1 := by
  rcases parseSource_cases tools contents source result with ⟨hsame, heq⟩ | ⟨hostsfile, hcontent, -, heq⟩
  · rwa [heq]
  · rw [heq]
    rintro ⟨hostsfile', hcontent', -, hhash⟩
    obtain rfl : hostsfile = hostsfile' := Option.some.inj (hcontent.symm.trans hcontent')
    exact hhash rfl

theorem has_parseSource : (parseSource tools contents source result).2.Has h ↔
    result.Has h ∨ Changed tools contents source ∧ Lists contents source h := by
  rcases parseSource_cases tools contents source result with
    ⟨hsame, heq⟩ | ⟨hostsfile, hcontent, hchanged, heq⟩
  · rw [heq, or_iff_left fun hboth => hsame hboth.1]
  · have hlists : Lists contents source h ↔ (parseHosts hostsfile .empty).Has h := by
      simp [Lists, hcontent]
    rw [heq, has_parseHosts, and_iff_right hchanged, hlists]

theorem site_parseSources :
    (parseSources tools contents sources result).1.map GlobalRuleSource.site =
      sources.map GlobalRuleSource.site := by
  induction sources generalizing result with
  | nil => rfl
  | cons source sources ih =>
    simp only [parseSources, List.map_cons, site_parseSource, ih]

theorem not_changed_parseSources :
    ∀ source ∈ (parseSources tools contents sources result).1, ¬ Changed tools contents source := by
  induction sources generalizing result with
  | nil => exact List.forall_mem_nil _
  | cons source sources ih =>
    simp only [parseSources, List.forall_mem_cons]
    exact ⟨not_changed_parseSource, ih⟩

theorem has_parseSources : (parseSources tools contents sources result).2.Has h ↔
    result.Has h ∨ ∃ source ∈ sources, Changed tools contents source ∧ Lists contents source h := by
  induction sources generalizing result with
  | nil => simp [parseSources]
  | cons source sources ih =>
    simp only [parseSources, ih, has_parseSource, or_assoc, List.exists_mem_cons_iff]

theorem mem_entries : h ∈ result.entries tools ↔ result.Has h := by
  obtain ⟨ruleId, target, type⟩ := h
  cases type with
  | host =>
    simp [HostsParsingResult.entries, HostsParsingResult.Has, (tools.perm _).mem_iff, and_comm,
      eq_comm]
  | ip =>
    simp [HostsParsingResult.entries, HostsParsingResult.Has, (tools.perm _).mem_iff, and_comm,
      eq_comm]

theorem entries_nodup (tools : Tools) (result : HostsParsingResult) :
    (result.entries tools).Nodup := by
  have hset : ∀ (s : HashSet) (type : HostType),
      ((tools.iterate s).map fun t => (⟨none, t, type⟩ : HostEntry)).Nodup := by
    intro s type
    exact ((tools.perm s).nodup_iff.mpr s.nodup).map fun t u heq => congrArg HostEntry.target heq
  refine List.nodup_append.mpr ⟨hset _ _, hset _ _, ?_⟩
  rintro h hhost h' hip rfl
  obtain ⟨t, -, rfl⟩ := List.mem_map.mp hhost
  obtain ⟨u, -, hu⟩ := List.mem_map.mp hip
  exact absurd (congrArg HostEntry.type hu) nofun

end Sources

section Writes
variable {tools : Tools} {contents : Contents} {sources entities : List GlobalRuleSource}
  {db : GlobalTables} {entries : List HostEntry}

theorem flatten_toChunks {α : Type*} (n : Nat) (l : List α) : (l.toChunks n).flatten = l := by
  have hgo : ∀ (xs : List α) (acc₁ : Array α) (acc₂ : Array (List α)),
      (List.toChunks.go n xs acc₁ acc₂).flatten = acc₂.toList.flatten ++ acc₁.toList ++ xs := by
    intro xs
    induction xs with
    | nil => simp [List.toChunks.go]
    | cons x xs ih =>
      intro acc₁ acc₂
      rw [List.toChunks.go]
      split
      · simp [ih]
      · simp [ih]
  cases l with
  | nil => rfl
  | cons x l =>
    cases n with
    | zero => simp [List.toChunks]
    | succ n => simp [List.toChunks, hgo]

/-- The entries of a scan that are stored after `n` of its transactions. -/
def committed (tools : Tools) (contents : Contents) (sources : List GlobalRuleSource) (n : Nat) :
    List HostEntry :=
  let entries := (parseSources tools contents sources .empty).2.entries tools
  ((entries.toChunks chunkSize).take (n - 1)).flatten

theorem entries_ruleId {result : HostsParsingResult} {h : HostEntry}
    (hmem : h ∈ result.entries tools) : h.ruleId = none := (mem_entries.mp hmem).1

/-- A row without a rule conflicts with no row and is always added. -/
theorem insertAll_eq (hnone : ∀ e ∈ entries, e.ruleId = none) :
    db.insertAll entries = { db with hostsTable := db.hostsTable ++ entries } := by
  have hinsert : ∀ hosts : List HostEntry,
      entries.foldl GlobalTables.insertOnConflictUpdate hosts = hosts ++ entries := by
    induction entries with
    | nil => simp
    | cons e entries ih =>
      intro hosts
      rw [List.forall_mem_cons] at hnone
      have hadd : GlobalTables.insertOnConflictUpdate hosts e = hosts ++ [e] := by
        apply if_neg
        simp [Database.Conflicts, hnone.1]
      rw [List.foldl_cons, hadd, ih hnone.2, List.append_assoc, List.singleton_append]
  rw [GlobalTables.insertAll, hinsert]

theorem insertChunks_eq {chunks : List (List HostEntry)}
    (hnone : ∀ chunk ∈ chunks, ∀ e ∈ chunk, e.ruleId = none) :
    (chunks.map Write.insertAll).foldl Write.run db =
      { db with hostsTable := db.hostsTable ++ chunks.flatten } := by
  induction chunks generalizing db with
  | nil => simp
  | cons chunk chunks ih =>
    rw [List.forall_mem_cons] at hnone
    rw [List.map_cons, List.foldl_cons, ih hnone.2, Write.run, insertAll_eq hnone.1]
    simp

theorem run_take_succ (tools : Tools) (contents : Contents) (sources : List GlobalRuleSource)
    (db : GlobalTables) (n : Nat) :
    ((scanWrites tools contents sources).take (n + 1)).foldl Write.run db =
      { db.updateAll (parseSources tools contents sources .empty).1 with
        hostsTable := db.hostsTable ++ committed tools contents sources (n + 1) } := by
  have hnone : ∀ chunk ∈ (((parseSources tools contents sources .empty).2.entries tools).toChunks
      chunkSize).take n, ∀ e ∈ chunk, e.ruleId = none := by
    intro chunk hchunk e he
    have hmem := List.mem_flatten_of_mem (List.mem_of_mem_take hchunk) he
    rw [flatten_toChunks] at hmem
    exact entries_ruleId hmem
  simp only [scanWrites, List.take_succ_cons, ← List.map_take, List.foldl_cons, insertChunks_eq hnone]
  rfl

theorem scanSources_eq : scanSources tools contents sources db =
    { db.updateAll (parseSources tools contents sources .empty).1 with
      hostsTable := db.hostsTable ++ (parseSources tools contents sources .empty).2.entries tools } := by
  have hall := run_take_succ tools contents sources db (scanWrites tools contents sources).length
  rw [List.take_of_length_le (Nat.le_succ _)] at hall
  have hlength : (((parseSources tools contents sources .empty).2.entries tools).toChunks
      chunkSize).length ≤ (scanWrites tools contents sources).length := by
    simp [scanWrites]
  rw [scanSources, hall, committed, Nat.add_sub_cancel, List.take_of_length_le hlength,
    flatten_toChunks]

theorem mem_parsed {h : HostEntry} :
    h ∈ (parseSources tools contents sources .empty).2.entries tools ↔
      ∃ source ∈ sources, Changed tools contents source ∧ Lists contents source h := by
  rw [mem_entries, has_parseSources, or_iff_right not_has_empty]

/-- A scan adds the entries of the sources that have changed. -/
theorem mem_scanSources {h : HostEntry} :
    h ∈ (scanSources tools contents sources db).hostsTable ↔ h ∈ db.hostsTable ∨
      ∃ source ∈ sources, Changed tools contents source ∧ Lists contents source h := by
  rw [scanSources_eq, List.mem_append, mem_parsed]

theorem getAll_updateAll (hsite : entities.map GlobalRuleSource.site =
    db.getAll.map GlobalRuleSource.site) : (db.updateAll entities).getAll = entities := by
  have hkeys : (entities.map GlobalRuleSource.companion).map Prod.fst =
      db.globalRuleSourceTable.keys := by
    have hids := congrArg (List.map Prod.fst) hsite
    simpa [GlobalTables.getAll, Function.comp_def, GlobalRuleSource.site, GlobalRuleSource.companion,
      GlobalRuleSource.ofRow, OrderedMap.keys] using hids
  rw [GlobalTables.getAll, GlobalTables.updateAll, OrderedMap.entries_addAll hkeys, List.map_map]
  exact List.map_id _

end Writes

end NetGuard.Storage
