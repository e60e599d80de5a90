import NetGuard.Library.Run
import NetGuard.Library.Tally
import NetGuard.Service.Policy

/-! # The traffic statistics

`addLog` adds a log to the row of its IP and then to the row of its host. Each time it
first asks whether there is a row and then inserts or updates one, and nobody awaits it,
so the database operations of several calls interleave. A step is one such operation.
-/
namespace NetGuard.Statistics
open Service (Text)

inductive EndpointType
  | ip
  | host
  deriving DecidableEq, Repr

/-- The columns that a row is looked up by. -/
structure Key where
  packageName : Option Text
  endpoint : Text
  endpointType : EndpointType
  deriving DecidableEq, Repr

@[ext] structure Counts where
  packetCountAllowed : Int
  packetSizeAllowed : Int
  packetCountBlocked : Int
  packetSizeBlocked : Int
  deriving DecidableEq, Repr

namespace Counts

instance : Zero Counts := ⟨0, 0, 0, 0⟩

instance : Add Counts where
  add a b := ⟨a.packetCountAllowed + b.packetCountAllowed,
    a.packetSizeAllowed + b.packetSizeAllowed, a.packetCountBlocked + b.packetCountBlocked,
    a.packetSizeBlocked + b.packetSizeBlocked⟩

instance : AddCommMonoid Counts where
  nsmul := nsmulRec
  add_assoc a b c := by
    apply Counts.ext <;> exact Int.add_assoc _ _ _
  zero_add a := by
    apply Counts.ext <;> exact Int.zero_add _
  add_zero a := by
    apply Counts.ext <;> exact Int.add_zero _
  add_comm a b := by
    apply Counts.ext <;> exact Int.add_comm _ _

end Counts

structure TrafficStatistics extends Key where
  counts : Counts
  deriving DecidableEq, Repr

abbrev Rows := List TrafficStatistics

/-- A log of the engine as far as it is counted. -/
structure TrafficLog where
  packageName : Option Text
  ip : Text
  host : Option Text
  size : Int
  allowed : Bool
  deriving DecidableEq, Repr

namespace Rows
variable (rows : Rows)

def get (k : Key) : Option TrafficStatistics := rows.find? fun r => r.toKey = k

/-- The primary key is the package and the endpoint. NULL is distinct from NULL in it. -/
def Conflicts (entity r : Key) : Prop :=
  entity.packageName ≠ none ∧ r.packageName = entity.packageName ∧ r.endpoint = entity.endpoint

instance (entity r : Key) : Decidable (Conflicts entity r) := inferInstanceAs (Decidable (_ ∧ _))

/-- `insertOnConflictUpdate`: a row in conflict takes every column of the entity. -/
def insert (entity : TrafficStatistics) : Rows :=
  if rows.any fun r => Conflicts entity.toKey r.toKey then
    rows.map fun r => if Conflicts entity.toKey r.toKey then entity else r
  else rows ++ [entity]

def update (k : Key) (counts : Counts) : Rows :=
  Tally.atKey TrafficStatistics.toKey k (fun r => { r with counts := r.counts + counts }) rows

def counted (k : Key) : Counts :=
  Tally.total TrafficStatistics.toKey TrafficStatistics.counts k rows

end Rows

/-- What one `_updateCount` adds. -/
structure Addition where
  key : Key
  counts : Counts
  deriving DecidableEq, Repr

section AddLog
variable (log : TrafficLog)

def TrafficLog.counts : Counts :=
  if log.allowed then ⟨1, log.size, 0, 0⟩ else ⟨0, 0, 1, log.size⟩

/-- The calls of `_updateCount` in `addLog`. -/
def TrafficLog.additions : List Addition :=
  ⟨⟨log.packageName, log.ip, .ip⟩, log.counts⟩ ::
    match log.host with
    | none => []
    | some host =>
      if host.isEmpty then [] else [⟨⟨log.packageName, host, .host⟩, log.counts⟩]

/-- The log is for this package, endpoint and type. -/
def TrafficLog.Concerns (k : Key) : Prop :=
  log.packageName = k.packageName ∧
    match k.endpointType with
    | .ip => log.ip = k.endpoint
    | .host => log.host = some k.endpoint ∧ k.endpoint ≠ []

instance (k : Key) : Decidable (log.Concerns k) := by
  unfold TrafficLog.Concerns
  cases k.endpointType <;> exact inferInstanceAs (Decidable (_ ∧ _))

end AddLog

/-- A call of `addLog`: what it still adds, and whether the row of the first of these was
found if it has asked. -/
structure Call where
  found : Option Bool
  todo : List Addition
  deriving DecidableEq, Repr

structure Repository where
  rows : Rows
  calls : List Call
  deriving DecidableEq, Repr

namespace Repository

/-- The next database operation of a call. -/
def operate (rows : Rows) (call : Call) : Rows × Call :=
  match call.todo, call.found with
  | [], _ => (rows, call)
  | a :: _, none => (rows, { call with found := some (rows.get a.key).isSome })
  | a :: rest, some false => (rows.insert ⟨a.key, a.counts⟩, ⟨none, rest⟩)
  | a :: rest, some true => (rows.update a.key a.counts, ⟨none, rest⟩)

def step (s : Repository) (i : Nat) : Repository :=
  match s.calls[i]? with
  | none => s
  | some call => ⟨(operate s.rows call).1, s.calls.set i (operate s.rows call).2⟩

def start (rows : Rows) (logs : List TrafficLog) : Repository :=
  ⟨rows, logs.map fun log => ⟨none, log.additions⟩⟩

def Completed (s : Repository) : Prop := ∀ call ∈ s.calls, call.todo = []

instance (s : Repository) : Decidable s.Completed := inferInstanceAs (Decidable (∀ _ ∈ _, _))

/-- A write of `i` that the primary key leaves alone: an insert meets neither a row of its
own key nor one that is in conflict with it. -/
def Fits (s : Repository) (i : Nat) : Prop :=
  ∀ call, s.calls[i]? = some call → ∀ a rest, call.todo = a :: rest → call.found = some false →
    ∀ r ∈ s.rows, r.toKey ≠ a.key ∧ ¬ Rows.Conflicts a.key r.toKey

end Repository

section Operations
variable {rows : Rows} {k : Key} {call : Call} {a : Addition} {rest : List Addition}

theorem get_isSome_iff : (rows.get k).isSome ↔ k ∈ rows.map TrafficStatistics.toKey := by
  rw [Rows.get, List.find?_isSome, List.mem_map]
  simp only [decide_eq_true_eq]

theorem insert_of_free {entity : TrafficStatistics}
    (h : ∀ r ∈ rows, ¬ Rows.Conflicts entity.toKey r.toKey) :
    rows.insert entity = rows ++ [entity] := by
  apply if_neg
  rw [List.any_eq_true]
  rintro ⟨r, hr, hconflict⟩
  exact h r hr (by simpa using hconflict)

def Call.open (k : Key) (call : Call) : Counts :=
  Tally.total Addition.key Addition.counts k call.todo

/-- What an operation does where it fits: no row goes, no key comes twice, and what the
call still adds and what is counted have the same sum before and after. -/
structure Operated (rows : Rows) (call : Call) (after : Rows × Call) : Prop where
  keys : (after.1.map TrafficStatistics.toKey).Nodup
  stays : ∀ k ∈ rows.map TrafficStatistics.toKey, k ∈ after.1.map TrafficStatistics.toKey
  found : after.2.found = some true → ∀ a rest, after.2.todo = a :: rest →
    a.key ∈ after.1.map TrafficStatistics.toKey
  total : ∀ k, after.1.counted k + after.2.open k = rows.counted k + call.open k

theorem operated_get (hkeys : (rows.map TrafficStatistics.toKey).Nodup)
    (htodo : call.todo = a :: rest) (hfound : call.found = none) :
    Operated rows call (Repository.operate rows call) := by
  obtain ⟨found, todo⟩ := call
  obtain rfl : todo = a :: rest := htodo
  obtain rfl : found = none := hfound
  refine ⟨hkeys, fun _ hk => hk, ?_, fun _ => rfl⟩
  intro hsome a' rest' hcons
  obtain ⟨rfl, -⟩ := List.cons.inj hcons
  exact get_isSome_iff.mp (Option.some.inj hsome)

theorem operated_insert (hkeys : (rows.map TrafficStatistics.toKey).Nodup)
    (htodo : call.todo = a :: rest) (hfound : call.found = some false)
    (hfree : ∀ r ∈ rows, r.toKey ≠ a.key ∧ ¬ Rows.Conflicts a.key r.toKey) :
    Operated rows call (Repository.operate rows call) := by
  obtain ⟨found, todo⟩ := call
  obtain rfl : todo = a :: rest := htodo
  obtain rfl : found = some false := hfound
  have hinsert : rows.insert ⟨a.key, a.counts⟩ = rows ++ [⟨a.key, a.counts⟩] :=
    insert_of_free fun r hr => (hfree r hr).2
  have hnew : a.key ∉ rows.map TrafficStatistics.toKey := by
    intro hmem
    obtain ⟨r, hr, hkey⟩ := List.mem_map.mp hmem
    exact (hfree r hr).1 hkey
  simp only [Repository.operate, hinsert]
  constructor
  · rw [List.map_append, List.map_singleton, List.nodup_append]
    refine ⟨hkeys, List.nodup_singleton _, ?_⟩
    rintro k hk k' hk' rfl
    have hkey : k = a.key := List.mem_singleton.mp hk'
    exact hnew (hkey ▸ hk)
  · intro k hk
    rw [List.map_append]
    exact List.mem_append_left _ hk
  · intro hsome
    exact absurd hsome (by simp)
  · intro k
    simp only [Rows.counted, Call.open, Tally.total_append, Tally.total_cons, Tally.total_nil,
      add_zero, add_assoc]

theorem operated_update (hkeys : (rows.map TrafficStatistics.toKey).Nodup)
    (htodo : call.todo = a :: rest) (hfound : call.found = some true)
    (hmem : a.key ∈ rows.map TrafficStatistics.toKey) :
    Operated rows call (Repository.operate rows call) := by
  obtain ⟨found, todo⟩ := call
  obtain rfl : todo = a :: rest := htodo
  obtain rfl : found = some true := hfound
  have hsame : (rows.update a.key a.counts).map TrafficStatistics.toKey =
      rows.map TrafficStatistics.toKey :=
    Tally.keys_atKey (f := fun r => { r with counts := r.counts + a.counts }) (fun _ => rfl) rows
  simp only [Repository.operate]
  constructor
  · rw [hsame]
    exact hkeys
  · intro k hk
    rw [hsame]
    exact hk
  · intro hsome
    exact absurd hsome (by simp)
  · intro k
    have htotal : (rows.update a.key a.counts).counted k =
        rows.counted k + if a.key = k then a.counts else 0 :=
      Tally.total_atKey k (fun _ => rfl) (fun _ => rfl) hkeys hmem
    simp only [htotal, Call.open, Tally.total_cons, add_assoc]

end Operations

section Run
variable {rows₀ : Rows} {logs : List TrafficLog} {s : Repository} {i : Nat}

def due (logs : List TrafficLog) (k : Key) : Counts :=
  ((logs.filter fun log => log.Concerns k).map TrafficLog.counts).sum

def Repository.pending (s : Repository) (k : Key) : Counts := (s.calls.map (Call.open k)).sum

/-- No key comes twice, what was found is still there, and what is counted and what is
still to be added make the initial values and the logs. -/
structure Books (rows₀ : Rows) (logs : List TrafficLog) (s : Repository) : Prop where
  keys : (s.rows.map TrafficStatistics.toKey).Nodup
  found : ∀ call ∈ s.calls, call.found = some true → ∀ a rest, call.todo = a :: rest →
    a.key ∈ s.rows.map TrafficStatistics.toKey
  total : ∀ k, s.rows.counted k + s.pending k = rows₀.counted k + due logs k

theorem additions_open (log : TrafficLog) (k : Key) :
    (Call.mk none log.additions).open k = if log.Concerns k then log.counts else 0 := by
  obtain ⟨packageName, endpoint, endpointType⟩ := k
  cases endpointType with
  | ip =>
    cases hhost : log.host with
    | none =>
      simp [Call.open, TrafficLog.additions, Tally.total_cons, TrafficLog.Concerns, hhost]
    | some host =>
      cases hempty : host.isEmpty with
      | true =>
        simp [Call.open, TrafficLog.additions, Tally.total_cons, TrafficLog.Concerns, hhost,
          hempty]
      | false =>
        simp [Call.open, TrafficLog.additions, Tally.total_cons, TrafficLog.Concerns, hhost,
          hempty]
  | host =>
    cases hhost : log.host with
    | none =>
      simp [Call.open, TrafficLog.additions, Tally.total_cons, TrafficLog.Concerns, hhost]
    | some host =>
      cases host with
      | nil =>
        simp [Call.open, TrafficLog.additions, Tally.total_cons, TrafficLog.Concerns, hhost]
      | cons c rest =>
        have hiff : (c :: rest = endpoint ∧ ¬ endpoint = []) ↔ c :: rest = endpoint := by
          apply and_iff_left_of_imp
          rintro rfl
          exact List.cons_ne_nil c rest
        simp [Call.open, TrafficLog.additions, Tally.total_cons, TrafficLog.Concerns, hhost, hiff]

theorem books_start (hkeys : (rows₀.map TrafficStatistics.toKey).Nodup) :
    Books rows₀ logs (.start rows₀ logs) where
  keys := hkeys
  found call hcall hfound := by
    obtain ⟨log, -, rfl⟩ := List.mem_map.mp hcall
    exact absurd hfound (by simp)
  total k := by
    have hpending : (Repository.start rows₀ logs).pending k = due logs k := by
      simp only [Repository.pending, Repository.start, List.map_map, due]
      induction logs with
      | nil => rfl
      | cons log logs ih =>
        rw [List.map_cons, List.sum_cons, ih, Function.comp_apply, additions_open]
        by_cases hlog : log.Concerns k
        · simp [hlog]
        · simp [hlog]
    rw [hpending]
    rfl

theorem Books.operated (h : Books rows₀ logs s) (hfits : s.Fits i) {call : Call}
    (hcall : s.calls[i]? = some call) :
    Operated s.rows call (Repository.operate s.rows call) := by
  cases htodo : call.todo with
  | nil =>
    have hidle : Repository.operate s.rows call = (s.rows, call) := by
      simp [Repository.operate, htodo]
    rw [hidle]
    exact ⟨h.keys, fun _ hk => hk, h.found call (List.mem_of_getElem? hcall), fun _ => rfl⟩
  | cons a rest =>
    cases hfound : call.found with
    | none => exact operated_get h.keys htodo hfound
    | some found =>
      cases found with
      | false =>
        exact operated_insert h.keys htodo hfound (hfits call hcall a rest htodo hfound)
      | true =>
        exact operated_update h.keys htodo hfound
          (h.found call (List.mem_of_getElem? hcall) hfound a rest htodo)

theorem Books.step (h : Books rows₀ logs s) (hfits : s.Fits i) : Books rows₀ logs (s.step i) := by
  cases hcall : s.calls[i]? with
  | none =>
    have hsame : s.step i = s := by simp [Repository.step, hcall]
    rwa [hsame]
  | some call =>
    obtain ⟨hkeys, hstays, hfound, htotal⟩ := h.operated hfits hcall
    have hstep : s.step i = ⟨(Repository.operate s.rows call).1,
        s.calls.set i (Repository.operate s.rows call).2⟩ := by
      simp [Repository.step, hcall]
    rw [hstep]
    refine ⟨hkeys, ?_, ?_⟩
    · intro call' hmem
      rcases List.mem_or_eq_of_mem_set hmem with hold | rfl
      · intro hsome a rest htodo
        exact hstays _ (h.found call' hold hsome a rest htodo)
      · exact hfound
    · intro k
      obtain ⟨hbound, hget⟩ := List.getElem?_eq_some_iff.mp hcall
      obtain ⟨before, after, hcalls, -, hset⟩ :=
        @List.exists_of_set Call i (Repository.operate s.rows call).2 s.calls hbound
      have hbooks := h.total k
      rw [hget] at hcalls
      rw [Repository.pending, hcalls] at hbooks
      rw [← hbooks, Repository.pending, hset]
      simp only [List.map_append, List.map_cons, List.sum_append, List.sum_cons]
      rw [add_left_comm, ← add_assoc _ (Call.open k _), htotal k, add_assoc, add_left_comm]

theorem pending_completed (h : s.Completed) (k : Key) : s.pending k = 0 := by
  apply List.sum_eq_zero
  intro counts hcounts
  obtain ⟨call, hcall, rfl⟩ := List.mem_map.mp hcounts
  rw [Call.open, h call hcall, Tally.total_nil]

/-- In every interleaving in which each insert finds the primary key free, the counters of
every package, endpoint and type are complete once all calls are. -/
theorem addLog_run_exact (rows₀ : Rows) (logs : List TrafficLog) (schedule : List Nat)
    (hkeys : (rows₀.map TrafficStatistics.toKey).Nodup)
    (hfits : ∀ pre i post, schedule = pre ++ i :: post →
      (pre.foldl Repository.step (.start rows₀ logs)).Fits i)
    (hcompleted : (schedule.foldl Repository.step (.start rows₀ logs)).Completed) :
    ((schedule.foldl Repository.step (.start rows₀ logs)).rows.map
        TrafficStatistics.toKey).Nodup ∧
      ∀ k, (schedule.foldl Repository.step (.start rows₀ logs)).rows.counted k =
        rows₀.counted k + ((logs.filter fun log => log.Concerns k).map TrafficLog.counts).sum := by
  have hrun := (Run.along_iff_forall Repository.step Repository.Fits).mpr hfits
  have hbooks : Books rows₀ logs (schedule.foldl Repository.step (.start rows₀ logs)) :=
    hrun.invariant (fun _ _ hfits h => h.step hfits) (books_start hkeys)
  refine ⟨hbooks.keys, ?_⟩
  intro k
  have htotal := hbooks.total k
  rwa [pending_completed hcompleted, add_zero] at htotal

end Run

section Samples

theorem fits_of_found {s : Repository} {i : Nat}
    (h : (s.calls[i]?.bind Call.found) ≠ some false) : s.Fits i := by
  intro call hcall a rest htodo hfound
  rw [hcall, Option.bind_some, hfound] at h
  exact (h rfl).elim

theorem fits_of_nil {s : Repository} {i : Nat} (h : s.rows = []) : s.Fits i := by
  intro call hcall a rest htodo hfound r hr
  rw [h] at hr
  exact absurd hr List.not_mem_nil

def TrafficLog.sample (packageName : Option String) (host : Option String) : TrafficLog where
  packageName := packageName.map String.toList
  ip := "1.1.1.1".toList
  host := host.map String.toList
  size := 60
  allowed := true

def Key.sample (packageName : Option String) : Key :=
  ⟨packageName.map String.toList, "1.1.1.1".toList, .ip⟩

end Samples

theorem addLog_run_sample :
    (([0, 0, 1, 1].foldl Repository.step
        (.start [] [.sample (some "app") none, .sample (some "app") none])).rows.map
        TrafficStatistics.toKey).Nodup ∧
      ∀ k, ([0, 0, 1, 1].foldl Repository.step
          (.start [] [.sample (some "app") none, .sample (some "app") none])).rows.counted k =
        Rows.counted [] k +
          (([TrafficLog.sample (some "app") none, .sample (some "app") none].filter
            fun log => log.Concerns k).map TrafficLog.counts).sum := by
  apply addLog_run_exact
  · exact List.nodup_nil
  · apply (Run.along_iff_forall Repository.step Repository.Fits).mp
    refine ⟨fits_of_found ?_, fits_of_nil ?_, fits_of_found ?_, fits_of_found ?_, trivial⟩
    · decide
    · rfl
    · decide
    · decide
  · decide

/-- Two calls that ask before either inserts lose one log; without a package they leave
two rows; and one call alone loses its IP to a host of the same text. -/
theorem not_addLog_run_exact :
    ([0, 1, 0, 1].foldl Repository.step
        (.start [] [.sample (some "app") none, .sample (some "app") none])).rows.counted
          (.sample (some "app")) = ⟨1, 60, 0, 0⟩ ∧
      (([TrafficLog.sample (some "app") none, .sample (some "app") none].filter
        fun log => log.Concerns (.sample (some "app"))).map TrafficLog.counts).sum =
          ⟨2, 120, 0, 0⟩ ∧
    ([0, 1, 0, 1].foldl Repository.step
        (.start [] [.sample none none, .sample none none])).rows.map
          TrafficStatistics.toKey = [.sample none, .sample none] ∧
    ([0, 0, 0, 0].foldl Repository.step
        (.start [] [.sample (some "app") (some "1.1.1.1")])).rows.counted
          (.sample (some "app")) = 0 := by
  decide

end NetGuard.Statistics
