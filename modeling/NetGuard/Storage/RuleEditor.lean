import NetGuard.Library.Run
import NetGuard.Storage.HostsEditor

/-! # The rule on the page and in the database

Each setter of a rule's page emits the new state at once and leaves the statements for the
database to a queue. The targets take two statements, and the second one is queued when the first
is done, behind whatever was queued meanwhile.
-/
namespace NetGuard.Storage
open Service (Text HostType HostEntry RuleType)
open Database (targetMap)

namespace RuleState
variable (s : RuleState)

def setName (name : Text) : RuleState := { s with name := some name }

def setDescription (description : Text) : RuleState := { s with description := some description }

def setType (type : RuleType) : RuleState := { s with type := type }

def setWhitelistExclusive (whitelistExclusive : Bool) : RuleState :=
  { s with whitelistExclusive := whitelistExclusive }

def setActive (active : Bool) : RuleState := { s with active := active }

end RuleState

section Statements

/-- A column of a rule's row and its new value. -/
inductive Column
  | name (name : Text)
  | description (description : Text)
  | type (type : RuleType)
  | whitelistExclusive (whitelistExclusive : Bool)
  | active (active : Bool)

def Column.emit : Column → RuleState → RuleState
  | .name value, s => s.setName value
  | .description value, s => s.setDescription value
  | .type value, s => s.setType value
  | .whitelistExclusive value, s => s.setWhitelistExclusive value
  | .active value, s => s.setActive value

/-- What `updateName` and the other updates of one column write. -/
def Column.write : Column → RuleRow → RuleRow
  | .name value, row => { row with name := some value }
  | .description value, row => { row with description := some value }
  | .type value, row => { row with type := value }
  | .whitelistExclusive value, row => { row with whitelistExclusive := value }
  | .active value, row => { row with active := value }

def Database.updateRule (id : Text) (f : RuleRow → RuleRow) (db : Database) : Database :=
  match db.rulesTable.get id with
  | some row => { db with rulesTable := db.rulesTable.add id (f row) }
  | none => db

/-- The statements for one rule: an update of a column, and the two of `updateHosts`. -/
inductive Statement
  | update (c : Column)
  | clear (hosts : List HostEntry)
  | insert (hosts : List HostEntry)

def Statement.isHosts : Statement → Bool
  | .update _ => false
  | .clear _ | .insert _ => true

def hostCompanions (id : Text) (hosts : List HostEntry) : List HostEntry :=
  hosts.map fun h => { h with ruleId := some id }

/-- The database after a statement, and the statement that is queued then. A batch that fails is
rolled back. -/
def Statement.execute (id : Text) : Statement → Database → Database × List Statement
  | .update c, db => (db.updateRule id c.write, [])
  | .clear hosts, db => (db.deleteHosts id, [.insert hosts])
  | .insert hosts, db => ((db.batch [] (hostCompanions id hosts)).getD db, [])

variable {db : Database} {id id' : Text} {hosts : List HostEntry} {f : RuleRow → RuleRow}

/-- The two statements are the update of the targets. -/
theorem execute_updateHosts {db' : Database}
    (h : db.updateHosts (fun _ => false) id hosts = .ok db') :
    (Statement.execute id (.insert hosts) (Statement.execute id (.clear hosts) db).1).1 = db' := by
  have hcommit : db.updateHosts (fun _ => false) id hosts =
      Database.commit (fun _ => false) 1 [] (hostCompanions id hosts) (db.deleteHosts id) := rfl
  rw [hcommit, Database.commit, if_neg Bool.false_ne_true] at h
  cases hbatch : (db.deleteHosts id).batch [] (hostCompanions id hosts) with
  | none => simp [hbatch] at h
  | some db'' =>
    obtain rfl : db'' = db' := by simpa [hbatch] using h
    simp [Statement.execute, hbatch]

@[simp] theorem hostsTable_updateRule : (db.updateRule id f).hostsTable = db.hostsTable := by
  rw [Database.updateRule]
  split <;> rfl

theorem get_updateRule : (db.updateRule id f).rulesTable.get id' =
    if id' = id then (db.rulesTable.get id).map f else db.rulesTable.get id' := by
  rw [Database.updateRule]
  split
  next row hrow =>
    rw [OrderedMap.add, OrderedMap.get_upsert, hrow]
    rfl
  next hnone =>
    split
    next heq => rw [heq, hnone]; rfl
    next => rfl

theorem filter_hostCompanions_same (id : Text) (hosts : List HostEntry) :
    ((hostCompanions id hosts).filter fun h => h.ruleId = some id) = hostCompanions id hosts := by
  rw [List.filter_eq_self]
  intro h hh
  obtain ⟨h', -, rfl⟩ := List.mem_map.mp hh
  simp

theorem filter_hostCompanions_other (hne : id' ≠ id) (hosts : List HostEntry) :
    ((hostCompanions id' hosts).filter fun h => h.ruleId = some id) = [] := by
  rw [List.filter_eq_nil_iff]
  intro h hh
  obtain ⟨h', -, rfl⟩ := List.mem_map.mp hh
  simpa using hne

theorem filter_deleteHosts_other (hne : id' ≠ id) (db : Database) :
    ((db.deleteHosts id').hostsTable.filter fun h => h.ruleId = some id) =
      db.hostsTable.filter fun h => h.ruleId = some id := by
  rw [Database.deleteHosts, List.filter_filter]
  refine List.filter_congr fun h _ => ?_
  by_cases hrule : h.ruleId = some id
  · simp [hrule, Ne.symm hne]
  · simp [hrule]

theorem batch_eq_some {db' : Database} {companions : List HostEntry}
    (h : db.batch [] companions = some db') :
    db'.rulesTable = db.rulesTable ∧ db'.hostsTable = db.hostsTable ++ companions := by
  obtain ⟨hosts, hinsert, rfl⟩ := Option.map_eq_some_iff.mp h
  exact ⟨rfl, (insertHosts_eq_some_iff.mp hinsert).1⟩

/-- A statement for another rule leaves the row and the targets of this one. -/
theorem execute_other (hne : id' ≠ id) (st : Statement) (db : Database) :
    (st.execute id' db).1.rulesTable.get id = db.rulesTable.get id ∧
      ((st.execute id' db).1.hostsTable.filter fun h => h.ruleId = some id) =
        db.hostsTable.filter fun h => h.ruleId = some id := by
  cases st with
  | update c =>
    refine ⟨?_, by rw [Statement.execute, hostsTable_updateRule]⟩
    rw [Statement.execute, get_updateRule, if_neg (Ne.symm hne)]
  | clear hosts => exact ⟨rfl, filter_deleteHosts_other hne db⟩
  | insert hosts =>
    rw [Statement.execute]
    cases hbatch : db.batch [] (hostCompanions id' hosts) with
    | none => exact ⟨rfl, rfl⟩
    | some db' =>
      obtain ⟨hrules, hhosts⟩ := batch_eq_some hbatch
      rw [Option.getD_some, hrules, hhosts, List.filter_append, filter_hostCompanions_other hne,
        List.append_nil]
      exact ⟨rfl, rfl⟩

/-- The targets are written when none of the rule is there and none comes twice. -/
theorem batch_hostCompanions (hnodup : (hostCompanions id hosts).Nodup)
    (hcleared : (db.hostsTable.filter fun h => h.ruleId = some id) = []) :
    db.batch [] (hostCompanions id hosts) =
      some ⟨db.rulesTable, db.hostsTable ++ hostCompanions id hosts⟩ := by
  have hrule : ∀ c ∈ hostCompanions id hosts, c.ruleId = some id := by
    intro c hc
    obtain ⟨h, -, rfl⟩ := List.mem_map.mp hc
    rfl
  have hinsert : (hostCompanions id hosts).foldlM Database.insertHost db.hostsTable =
      some (db.hostsTable ++ hostCompanions id hosts) := by
    rw [insertHosts_eq_some_iff, companions_pairwise_iff fun c hc => by simp [hrule c hc]]
    refine ⟨rfl, fun c hc h hh hconflict => ?_, hnodup⟩
    have hsame : h.ruleId = some id := hconflict.2.1.trans (hrule c hc)
    have hmem : h ∈ db.hostsTable.filter fun h => h.ruleId = some id :=
      List.mem_filter.mpr ⟨hh, decide_eq_true hsame⟩
    rw [hcleared] at hmem
    exact List.not_mem_nil hmem
  rw [Database.batch, hinsert]
  rfl

end Statements

section Editor

/-- The page of a rule: what it shows, and what the database has still to do for it. -/
structure RuleEditor where
  state : RuleState
  queue : List Statement
  db : Database

inductive EditorEvent
  | emit (c : Column)
  | setHosts (hosts : List HostEntry)
  | execute
  | other (id : Text) (st : Statement)

/-- A setter of the page, the next statement, or one for another rule. -/
def RuleEditor.step (s : RuleEditor) : EditorEvent → RuleEditor
  | .emit c => { s with state := c.emit s.state, queue := s.queue ++ [.update c] }
  | .setHosts hosts =>
    { s with state := s.state.setHosts hosts, queue := s.queue ++ [.clear hosts] }
  | .execute =>
    match s.queue with
    | [] => s
    | st :: rest =>
      let (db, more) := st.execute s.state.id s.db
      { s with queue := rest ++ more, db := db }
  | .other id st => if id = s.state.id then s else { s with db := (st.execute id s.db).1 }

/-- The page shows what `getForPackage` reads of the rule. -/
def RuleEditor.Shows (s : RuleEditor) : Prop :=
  ∃ row, s.db.rulesTable.get s.state.id = some row ∧
    s.db.readRule (s.state.id, row) = s.state.rule

/-- The targets are set when no earlier ones are on their way, and each of them once. -/
def RuleEditor.Patient (s : RuleEditor) (e : EditorEvent) : Prop :=
  ∀ hosts, e = .setHosts hosts →
    s.queue.filter Statement.isHosts = [] ∧ (hostCompanions s.state.id hosts).Nodup

/-- The row is the one on the page but for its targets. -/
structure RuleState.Stored (s : RuleState) (row : RuleRow) : Prop where
  packageName : s.packageName = some row.packageName
  targetVersion : s.targetVersion = row.targetVersion
  name : s.name = row.name
  description : s.description = row.description
  active : s.active = row.active
  type : s.type = row.type
  shouldBlockQuic : s.shouldBlockQuic = row.shouldBlockQuic
  whitelistExclusive : s.whitelistExclusive = row.whitelistExclusive

/-- The targets on the page are those of the rows. -/
def RuleState.HasTargets (s : RuleState) (rows : List HostEntry) : Prop :=
  targetMap s.hosts = targetMap ((rows.filter fun h => h.type = .host).map fun h => h.target) ∧
    targetMap s.ips = targetMap ((rows.filter fun h => h.type = .ip).map fun h => h.target)

/-- How far the update of the targets has come. -/
inductive Targets (s : RuleState) (rows : List HostEntry) : List Statement → Prop
  | settled (h : s.HasTargets rows) : Targets s rows []
  | clearing {hosts : List HostEntry} (h : s.HasTargets (hostCompanions s.id hosts))
    (hnodup : (hostCompanions s.id hosts).Nodup) : Targets s rows [.clear hosts]
  | inserting {hosts : List HostEntry} (h : s.HasTargets (hostCompanions s.id hosts))
    (hnodup : (hostCompanions s.id hosts).Nodup) (hcleared : rows = []) :
    Targets s rows [.insert hosts]

def Statement.write : Statement → RuleRow → RuleRow
  | .update c => c.write
  | .clear _ | .insert _ => id

/-- The database becomes what the page shows when the queue is done. -/
structure RuleEditor.Coherent (s : RuleEditor) : Prop where
  row : ∃ row, s.db.rulesTable.get s.state.id = some row ∧
    s.state.Stored (s.queue.foldl (fun row st => st.write row) row)
  targets : Targets s.state (s.db.hostsTable.filter fun h => h.ruleId = some s.state.id)
    (s.queue.filter Statement.isHosts)

variable {s : RuleEditor} {e : EditorEvent}

theorem RuleState.Stored.emit {s : RuleState} {row : RuleRow} (h : s.Stored row) (c : Column) :
    (c.emit s).Stored (c.write row) := by
  obtain ⟨hpackage, hversion, hname, hdescription, hactive, htype, hquic, hexclusive⟩ := h
  cases c with
  | name value => exact ⟨hpackage, hversion, rfl, hdescription, hactive, htype, hquic, hexclusive⟩
  | description value => exact ⟨hpackage, hversion, hname, rfl, hactive, htype, hquic, hexclusive⟩
  | type value => exact ⟨hpackage, hversion, hname, hdescription, hactive, rfl, hquic, hexclusive⟩
  | whitelistExclusive value =>
    exact ⟨hpackage, hversion, hname, hdescription, hactive, htype, hquic, rfl⟩
  | active value => exact ⟨hpackage, hversion, hname, hdescription, rfl, htype, hquic, hexclusive⟩

/-- A column leaves the targets and the id alone. -/
theorem Targets.emit {s : RuleState} {rows : List HostEntry} {pending : List Statement}
    (h : Targets s rows pending) (c : Column) : Targets (c.emit s) rows pending := by
  cases c <;> cases h with
  | settled h => exact .settled h
  | clearing h hnodup => exact .clearing h hnodup
  | inserting h hnodup hcleared => exact .inserting h hnodup hcleared

@[simp] theorem emit_id (c : Column) (s : RuleState) : (c.emit s).id = s.id := by
  cases c <;> rfl

theorem hasTargets_setHosts (s : RuleState) (hosts : List HostEntry) :
    (s.setHosts hosts).HasTargets (hostCompanions (s.setHosts hosts).id hosts) := by
  simp [RuleState.HasTargets, RuleState.setHosts, hostCompanions, List.filter_map,
    Function.comp_def]

theorem RuleEditor.Coherent.shows (h : s.Coherent) (hdone : s.queue = []) : s.Shows := by
  obtain ⟨row, hrow, hstored⟩ := h.row
  have hpending := h.targets
  rw [hdone] at hstored hpending
  obtain ⟨hpackage, hversion, hname, hdescription, hactive, htype, hquic, hexclusive⟩ := hstored
  cases hpending with
  | settled htargets =>
    refine ⟨row, hrow, ?_⟩
    simp only [Database.readRule, RuleState.rule, htargets.1, htargets.2, hpackage, hversion, hname,
      hdescription, hactive, htype, hquic, hexclusive]
    rfl

theorem RuleEditor.Shows.coherent (h : s.Shows) (hqueue : s.queue = []) : s.Coherent := by
  obtain ⟨row, hrow, hread⟩ := h
  rw [Database.readRule, RuleState.rule] at hread
  injection hread with hid hversion hname hdescription hactive htype hquic hexclusive hpackage
    hhosts hips
  refine ⟨⟨row, hrow, ?_⟩, ?_⟩
  · rw [hqueue]
    exact ⟨hpackage.symm, hversion.symm, hname.symm, hdescription.symm, hactive.symm, htype.symm,
      hquic.symm, hexclusive.symm⟩
  · rw [hqueue]
    exact .settled ⟨hhosts.symm, hips.symm⟩

theorem RuleState.Stored.setHosts {s : RuleState} {row : RuleRow} (h : s.Stored row)
    (hosts : List HostEntry) : (s.setHosts hosts).Stored row :=
  ⟨h.packageName, h.targetVersion, h.name, h.description, h.active, h.type, h.shouldBlockQuic,
    h.whitelistExclusive⟩

theorem RuleEditor.Coherent.emit (h : s.Coherent) (c : Column) : (s.step (.emit c)).Coherent := by
  obtain ⟨row, hrow, hstored⟩ := h.row
  refine ⟨⟨row, ?_, ?_⟩, ?_⟩
  · rw [RuleEditor.step, emit_id]
    exact hrow
  · rw [RuleEditor.step, List.foldl_append]
    exact hstored.emit c
  · rw [RuleEditor.step, emit_id, List.filter_append]
    have hnone : [Statement.update c].filter Statement.isHosts = [] := rfl
    rw [hnone, List.append_nil]
    exact h.targets.emit c

theorem RuleEditor.Coherent.setHosts (h : s.Coherent) {hosts : List HostEntry}
    (hnone : s.queue.filter Statement.isHosts = [])
    (hnodup : (hostCompanions s.state.id hosts).Nodup) : (s.step (.setHosts hosts)).Coherent := by
  obtain ⟨row, hrow, hstored⟩ := h.row
  refine ⟨⟨row, hrow, ?_⟩, ?_⟩
  · rw [RuleEditor.step, List.foldl_append]
    exact hstored.setHosts hosts
  · rw [RuleEditor.step, List.filter_append, hnone, List.nil_append]
    exact .clearing (hasTargets_setHosts s.state hosts) hnodup

/-- What is next in the queue takes the database one statement further. -/
theorem RuleEditor.Coherent.execute (h : s.Coherent) : (s.step .execute).Coherent := by
  obtain ⟨state, queue, db⟩ := s
  obtain ⟨row, hrow, hstored⟩ := h.row
  have htargets := h.targets
  cases queue with
  | nil => exact h
  | cons st rest =>
    cases st with
    | update c =>
      have hget : (db.updateRule state.id c.write).rulesTable.get state.id =
          some (c.write row) := by
        rw [get_updateRule, if_pos rfl, hrow, Option.map_some]
      rw [List.filter_cons_of_neg (by simp [Statement.isHosts])] at htargets
      refine ⟨⟨c.write row, hget, ?_⟩, ?_⟩
      · simpa [RuleEditor.step, Statement.execute, Statement.write] using hstored
      · simpa [RuleEditor.step, Statement.execute] using htargets
    | clear hosts =>
      rw [List.filter_cons_of_pos rfl] at htargets
      generalize hpending : rest.filter Statement.isHosts = pending at htargets
      cases htargets with
      | clearing hlists hnodup =>
        refine ⟨⟨row, hrow, ?_⟩, ?_⟩
        · simpa [RuleEditor.step, Statement.execute, Statement.write] using hstored
        · simp only [RuleEditor.step, Statement.execute, List.filter_append, hpending]
          exact .inserting hlists hnodup (filter_deleteAll (List.mem_singleton_self state.id))
    | insert hosts =>
      rw [List.filter_cons_of_pos rfl] at htargets
      generalize hpending : rest.filter Statement.isHosts = pending at htargets
      generalize hrows : (db.hostsTable.filter fun h => h.ruleId = some state.id) = rows at htargets
      cases htargets with
      | inserting hlists hnodup hcleared =>
        have hbatch := batch_hostCompanions hnodup (hrows.trans hcleared)
        refine ⟨⟨row, ?_, ?_⟩, ?_⟩
        · simpa [RuleEditor.step, Statement.execute, hbatch] using hrow
        · simpa [RuleEditor.step, Statement.execute, Statement.write] using hstored
        · simp only [RuleEditor.step, Statement.execute, hbatch, Option.getD_some, List.append_nil,
            List.filter_append, hrows, hcleared, hpending, filter_hostCompanions_same,
            List.nil_append]
          exact .settled hlists

theorem RuleEditor.Coherent.other (h : s.Coherent) (id : Text) (st : Statement) :
    (s.step (.other id st)).Coherent := by
  by_cases hid : id = s.state.id
  · rw [RuleEditor.step, if_pos hid]
    exact h
  · obtain ⟨row, hrow, hstored⟩ := h.row
    obtain ⟨hget, hrows⟩ := execute_other hid st s.db
    rw [RuleEditor.step, if_neg hid]
    refine ⟨⟨row, hget.trans hrow, hstored⟩, ?_⟩
    rw [hrows]
    exact h.targets

theorem RuleEditor.Coherent.step (s : RuleEditor) (e : EditorEvent) (hpatient : s.Patient e)
    (h : s.Coherent) : (s.step e).Coherent := by
  cases e with
  | emit c => exact h.emit c
  | setHosts hosts =>
    obtain ⟨hnone, hnodup⟩ := hpatient hosts rfl
    exact h.setHosts hnone hnodup
  | execute => exact h.execute
  | other id st => exact h.other id st

/-- What the database has of another rule. -/
def Database.ofRule (db : Database) (id : Text) : Option RuleRow × List HostEntry :=
  (db.rulesTable.get id, db.hostsTable.filter fun h => h.ruleId = some id)

theorem RuleEditor.step_id (s : RuleEditor) (e : EditorEvent) :
    (s.step e).state.id = s.state.id := by
  cases e with
  | emit c => exact emit_id c s.state
  | setHosts hosts => rfl
  | execute =>
    rw [RuleEditor.step]
    split <;> rfl
  | other id st =>
    rw [RuleEditor.step]
    split <;> rfl

theorem RuleEditor.step_ofRule {id : Text} (s : RuleEditor) (e : EditorEvent)
    (hid : s.state.id ≠ id) (hother : ∀ st, e ≠ .other id st) :
    (s.step e).db.ofRule id = s.db.ofRule id := by
  cases e with
  | emit c => rfl
  | setHosts hosts => rfl
  | execute =>
    rw [RuleEditor.step]
    split
    next => rfl
    next st rest _ =>
      obtain ⟨hget, hrows⟩ := execute_other hid st s.db
      exact Prod.ext hget hrows
  | other id' st =>
    rw [RuleEditor.step]
    split
    next => rfl
    next =>
      have hne : id' ≠ id := by
        rintro rfl
        exact hother st rfl
      obtain ⟨hget, hrows⟩ := execute_other hne st s.db
      exact Prod.ext hget hrows

theorem RuleEditor.run_ofRule {id : Text} {es : List EditorEvent} (hid : s.state.id ≠ id)
    (hother : ∀ st, .other id st ∉ es) :
    (es.foldl RuleEditor.step s).db.ofRule id = s.db.ofRule id := by
  induction es generalizing s with
  | nil => rfl
  | cons e es ih =>
    have hnext : (s.step e).state.id ≠ id := by rwa [RuleEditor.step_id]
    rw [List.foldl_cons, ih hnext fun st hst => hother st (List.mem_cons_of_mem _ hst)]
    exact s.step_ofRule e hid fun st heq => hother st (heq ▸ List.mem_cons_self)

/-- A page that shows its rule shows it again whenever its queue is done, whatever was set in
between and whatever else the database did, if no targets were set while others were on their
way. And it leaves every other rule as it is. -/
theorem RuleEditor.settles {es : List EditorEvent} (hqueue : s.queue = []) (hshows : s.Shows)
    (hrun : Run.Along RuleEditor.step RuleEditor.Patient s es)
    (hdone : (es.foldl RuleEditor.step s).queue = []) :
    (es.foldl RuleEditor.step s).Shows ∧
      ∀ id ≠ s.state.id, (∀ st, .other id st ∉ es) →
        (es.foldl RuleEditor.step s).db.ofRule id = s.db.ofRule id := by
  have hcoherent : (es.foldl RuleEditor.step s).Coherent :=
    hrun.invariant (P := RuleEditor.Coherent) RuleEditor.Coherent.step (hshows.coherent hqueue)
  refine ⟨hcoherent.shows hdone, fun id hid hother => ?_⟩
  exact RuleEditor.run_ofRule (Ne.symm hid) hother

end Editor

section Sample

/-- A page of the rule `r` of the app `a`, which has no targets yet. -/
def RuleEditor.sample : RuleEditor where
  state := ⟨['r'], some ['a'], none, none, none, .blacklist, true, false, true, [], []⟩
  queue := []
  db := ⟨OrderedMap.empty.add ['r'] ⟨['a'], none, none, none, true, .blacklist, false, true⟩, []⟩

def HostEntry.sample (target : Text) : HostEntry := ⟨none, target, .host⟩

theorem RuleEditor.settles_sample :
    ([.setHosts [HostEntry.sample ['x']], .emit (.active false), .execute, .execute,
      .execute].foldl RuleEditor.step RuleEditor.sample).Shows := by
  have hrun : Run.Along RuleEditor.step RuleEditor.Patient RuleEditor.sample
      [.setHosts [HostEntry.sample ['x']], .emit (.active false), .execute, .execute,
        .execute] := by
    refine ⟨?_, nofun, nofun, nofun, nofun, trivial⟩
    rintro hosts ⟨⟩
    exact ⟨rfl, List.nodup_singleton _⟩
  exact (RuleEditor.settles rfl ⟨_, rfl, rfl⟩ hrun rfl).1

/-- Targets set twice in a hurry are both stored. -/
example :
    ([.setHosts [HostEntry.sample ['x']], .setHosts [HostEntry.sample ['y']], .execute, .execute,
      .execute, .execute].foldl RuleEditor.step RuleEditor.sample).db.hostsTable.map
        (fun h => h.target) = [['x'], ['y']] := by decide

end Sample

end NetGuard.Storage
