import NetGuard.Storage.Rules

/-! # The import of rules

Rules are imported from a JSON document, which is one object or a list of them. An object
that is not a rule is skipped. What is not an object is cast to one before it is tried.
-/
namespace NetGuard.Storage
open Service (Text RuleType)

/-- A decoded document. An object keeps its keys in the order in which they came first. -/
inductive Json
  | null
  | bool (value : Bool)
  | number (literal : Text)
  | string (value : Text)
  | list (elements : List Json)
  | object (entries : List (Text × Json))

namespace Json

section Tokens

inductive Token
  | beginList
  | endList
  | beginObject
  | endObject
  | comma
  | colon
  | value (v : Json)

def isDigits (s : Text) : Bool := !s.isEmpty && s.all Char.isDigit

def isExponent : Text → Bool
  | [] => true
  | e :: s =>
    (e = 'e' || e = 'E') &&
      match s with
      | '+' :: s => isDigits s
      | '-' :: s => isDigits s
      | s => isDigits s

def isFraction : Text → Bool
  | '.' :: s => !(s.takeWhile Char.isDigit).isEmpty && isExponent (s.dropWhile Char.isDigit)
  | s => isExponent s

/-- A number has no leading zeros. -/
def isNumber (s : Text) : Bool :=
  let s := match s with
    | '-' :: s => s
    | s => s
  let whole := s.takeWhile Char.isDigit
  (whole = ['0'] || whole.head?.any (· ≠ '0')) && isFraction (s.dropWhile Char.isDigit)

def ofLiteral (s : Text) : Option Json :=
  if s = "null".toList then some .null
  else if s = "true".toList then some (.bool true)
  else if s = "false".toList then some (.bool false)
  else if isNumber s then some (.number s)
  else none

def charOf (n : Nat) : Char := if n.isValidChar then .ofNat n else '\uFFFD'

/-- The text of code units. A surrogate that is not half of a pair has no character. -/
def ofUnits : List Nat → Text
  | [] => []
  | [n] => [charOf n]
  | high :: low :: rest =>
    if (0xD800 ≤ high && high < 0xDC00) && (0xDC00 ≤ low && low < 0xE000) then
      charOf (0x10000 + (high - 0xD800) * 0x400 + (low - 0xDC00)) :: ofUnits rest
    else charOf high :: ofUnits (low :: rest)

/-- What is being read: nothing, a name or a number, or a string of which the code units
are known, maybe in the middle of an escape. -/
inductive Lexer
  | idle
  | literal (s : Text)
  | string (units : List Nat)
  | escape (units : List Nat)
  | unicode (units : List Nat) (unit digits : Nat)

def isLiteral (c : Char) : Bool := c.isAlphanum || c = '+' || c = '-' || c = '.'

def start (c : Char) : Option (List Token × Lexer) :=
  if c = ' ' || c = '\t' || c = '\n' || c = '\r' then some ([], .idle)
  else if c = '[' then some ([.beginList], .idle)
  else if c = ']' then some ([.endList], .idle)
  else if c = '\x7b' then some ([.beginObject], .idle)
  else if c = '\x7d' then some ([.endObject], .idle)
  else if c = ',' then some ([.comma], .idle)
  else if c = ':' then some ([.colon], .idle)
  else if c = '"' then some ([], .string [])
  else if isLiteral c then some ([], .literal [c])
  else none

def escaped (c : Char) : Option Nat :=
  if c = '"' || c = '\\' || c = '/' then some c.toNat
  else if c = 'b' then some 8
  else if c = 'f' then some 12
  else if c = 'n' then some 10
  else if c = 'r' then some 13
  else if c = 't' then some 9
  else none

def hexDigit (c : Char) : Option Nat :=
  if c.isDigit then some (c.toNat - '0'.toNat)
  else if 'a' ≤ c && c ≤ 'f' then some (c.toNat - 'a'.toNat + 10)
  else if 'A' ≤ c && c ≤ 'F' then some (c.toNat - 'A'.toNat + 10)
  else none

def Lexer.step (l : Lexer) (c : Char) : Option (List Token × Lexer) :=
  match l with
  | .idle => start c
  | .literal s =>
    if isLiteral c then some ([], .literal (s ++ [c]))
    else do
      let v ← ofLiteral s
      let (tokens, l) ← start c
      some (.value v :: tokens, l)
  | .string units =>
    if c = '"' then some ([.value (.string (ofUnits units))], .idle)
    else if c = '\\' then some ([], .escape units)
    else if c.toNat < 0x20 then none
    else some ([], .string (units ++ [c.toNat]))
  | .escape units =>
    if c = 'u' then some ([], .unicode units 0 0)
    else do some ([], .string (units ++ [← escaped c]))
  | .unicode units unit digits => do
    let unit := 16 * unit + (← hexDigit c)
    if digits = 3 then some ([], .string (units ++ [unit])) else some ([], .unicode units unit (digits + 1))

def tokens : Lexer → Text → Option (List Token)
  | .idle, [] => some []
  | .literal s, [] => do some [.value (← ofLiteral s)]
  | _, [] => none
  | l, c :: rest => do
    let (first, l) ← l.step c
    some (first ++ (← tokens l rest))

end Tokens

section Decode

/-- An open list or object, and for an object the key whose value is read. -/
inductive Frame
  | list (elements : List Json)
  | object (entries : List (Text × Json)) (key : Text)

/-- What may come next. -/
inductive Reader
  | value (frames : List Frame)
  | first (frames : List Frame)
  | key (entries : List (Text × Json)) (first : Bool) (frames : List Frame)
  | colon (entries : List (Text × Json)) (key : Text) (frames : List Frame)
  | behind (frame : Frame) (frames : List Frame)
  | done (v : Json)

/-- A value is complete. A key that comes again gets the new value. -/
def Reader.complete (v : Json) : List Frame → Reader
  | [] => .done v
  | .list elements :: frames => .behind (.list (elements ++ [v])) frames
  | .object entries k :: frames =>
    .behind (.object (OrderedMap.change k v (fun _ => v) entries) k) frames

def Reader.begin (frames : List Frame) : Token → Option Reader
  | .value v => some (complete v frames)
  | .beginList => some (.first frames)
  | .beginObject => some (.key [] true frames)
  | _ => none

def Reader.step : Reader → Token → Option Reader
  | .value frames, t => begin frames t
  | .first frames, .endList => some (complete (.list []) frames)
  | .first frames, t => begin (.list [] :: frames) t
  | .key entries _ frames, .value (.string k) => some (.colon entries k frames)
  | .key _ true frames, .endObject => some (complete (.object []) frames)
  | .colon entries k frames, .colon => some (.value (.object entries k :: frames))
  | .behind (.list elements) frames, .comma => some (.value (.list elements :: frames))
  | .behind (.list elements) frames, .endList => some (complete (.list elements) frames)
  | .behind (.object entries _) frames, .comma => some (.key entries false frames)
  | .behind (.object entries _) frames, .endObject => some (complete (.object entries) frames)
  | _, _ => none

/-- `json.decode`. A text that is no document throws. -/
def decode (text : Text) : Option Json := do
  match ← (← tokens .idle text).foldlM Reader.step (.value []) with
  | .done v => some v
  | _ => none

end Decode

section Casts

def asString : Json → Option Text
  | .string value => some value
  | _ => none

def asBool : Json → Option Bool
  | .bool value => some value
  | _ => none

def asObject : Json → Option (List (Text × Json))
  | .object entries => some entries
  | _ => none

/-- A cast to a nullable type. -/
def orNull {α : Type} (cast : Json → Option α) : Json → Option (Option α)
  | .null => some none
  | v => (cast v).map some

def ofNullable : Option Text → Json
  | none => .null
  | some s => .string s

/-- `json[key]`, which is null for a key that is not there. -/
def member (json : List (Text × Json)) (key : String) : Json :=
  (OrderedMap.lookup key.toList json).getD .null

end Casts

end Json

section RuleJson

def ruleTypeEnumMap : RuleType → Text
  | .blacklist => "blacklist".toList
  | .whitelist => "whitelist".toList

/-- `$enumDecode`. -/
def ruleTypeOf : Json → Option RuleType
  | .string s => [RuleType.blacklist, .whitelist].find? fun type => ruleTypeEnumMap type = s
  | _ => none

def targetsOf (json : List (Text × Json)) : Option (OrderedMap Text Bool) :=
  json.foldlM (fun m e => (Json.asBool e.2).map (m.add e.1)) .empty

def targetsFromJson (v : Json) : Option (OrderedMap Text Bool) := do
  match ← v.orNull Json.asObject with
  | none => some .empty
  | some json => targetsOf json

def Rule.fromJson (json : List (Text × Json)) : Option Rule := do
  let id ← (Json.member json "id").asString
  let targetVersion ← (Json.member json "targetVersion").orNull Json.asString
  let name ← (Json.member json "name").orNull Json.asString
  let description ← (Json.member json "description").orNull Json.asString
  let active ← (Json.member json "active").orNull Json.asBool
  let type ← ruleTypeOf (Json.member json "type")
  let shouldBlockQuic ← (Json.member json "shouldBlockQuic").orNull Json.asBool
  let whitelistExclusive ← (Json.member json "whitelistExclusive").orNull Json.asBool
  let packageName ← (Json.member json "packageName").orNull Json.asString
  let hosts ← targetsFromJson (Json.member json "hosts")
  let ips ← targetsFromJson (Json.member json "ips")
  some {
    id := id
    targetVersion := targetVersion
    name := name
    description := description
    active := active.getD true
    type := type
    shouldBlockQuic := shouldBlockQuic.getD false
    whitelistExclusive := whitelistExclusive.getD true
    packageName := packageName
    hosts := hosts
    ips := ips }

def targetsToJson (m : OrderedMap Text Bool) : Json :=
  .object (m.entries.map fun e => (e.1, .bool e.2))

def Rule.toJson (r : Rule) : List (Text × Json) :=
  [("packageName".toList, .ofNullable r.packageName),
    ("type".toList, .string (ruleTypeEnumMap r.type)),
    ("shouldBlockQuic".toList, .bool r.shouldBlockQuic),
    ("whitelistExclusive".toList, .bool r.whitelistExclusive),
    ("hosts".toList, targetsToJson r.hosts),
    ("ips".toList, targetsToJson r.ips),
    ("id".toList, .string r.id),
    ("name".toList, .ofNullable r.name),
    ("targetVersion".toList, .ofNullable r.targetVersion),
    ("description".toList, .ofNullable r.description),
    ("active".toList, .bool r.active)]

theorem orNull_ofNullable (s : Option Text) : (Json.ofNullable s).orNull Json.asString = some s := by
  cases s <;> rfl

theorem ruleTypeOf_enumMap (type : RuleType) :
    ruleTypeOf (.string (ruleTypeEnumMap type)) = some type := by
  cases type <;> decide

theorem add_new {m : OrderedMap Text Bool} {k : Text} (hk : k ∉ m.keys) (v : Bool) :
    (m.add k v).entries = m.entries ++ [(k, v)] := by
  have happend := OrderedMap.change_append (d := v) (f := fun _ => v) (l := []) hk
  rwa [List.append_nil] at happend

theorem targetsFromJson_toJson (m : OrderedMap Text Bool) :
    targetsFromJson (targetsToJson m) = some m := by
  have hfill : ∀ (l : List (Text × Bool)) (filled : OrderedMap Text Bool),
      (filled.entries ++ l).map Prod.fst = m.keys → filled.entries ++ l = m.entries →
      (l.map fun e => (e.1, Json.bool e.2)).foldlM
        (fun m e => (Json.asBool e.2).map (m.add e.1)) filled = some m := by
    intro l
    induction l with
    | nil =>
      intro filled _ hm
      rw [List.append_nil] at hm
      exact congrArg some (OrderedMap.ext hm)
    | cons e l ih =>
      intro filled hkeys hm
      have hnew : e.1 ∉ filled.keys := by
        have hnodup : (filled.entries ++ e :: l).map Prod.fst |>.Nodup := hkeys ▸ m.nodup
        rw [List.map_append, List.map_cons, List.nodup_append] at hnodup
        intro hmem
        exact hnodup.2.2 _ hmem _ List.mem_cons_self rfl
      have hentries : (filled.add e.1 e.2).entries ++ l = filled.entries ++ e :: l := by
        rw [add_new hnew, List.append_assoc, List.singleton_append]
      rw [List.map_cons, List.foldlM_cons]
      exact ih _ (hentries ▸ hkeys) (hentries.trans hm)
  exact hfill m.entries .empty rfl rfl

/-- A rule is read from what is written of it. -/
theorem fromJson_toJson (r : Rule) : Rule.fromJson r.toJson = some r := by
  have hid : Json.member r.toJson "id" = .string r.id := rfl
  have hversion : Json.member r.toJson "targetVersion" = .ofNullable r.targetVersion := rfl
  have hname : Json.member r.toJson "name" = .ofNullable r.name := rfl
  have hdescription : Json.member r.toJson "description" = .ofNullable r.description := rfl
  have hactive : Json.member r.toJson "active" = .bool r.active := rfl
  have htype : Json.member r.toJson "type" = .string (ruleTypeEnumMap r.type) := rfl
  have hquic : Json.member r.toJson "shouldBlockQuic" = .bool r.shouldBlockQuic := rfl
  have hexclusive : Json.member r.toJson "whitelistExclusive" = .bool r.whitelistExclusive := rfl
  have hpackage : Json.member r.toJson "packageName" = .ofNullable r.packageName := rfl
  have hhosts : Json.member r.toJson "hosts" = targetsToJson r.hosts := rfl
  have hips : Json.member r.toJson "ips" = targetsToJson r.ips := rfl
  simp only [Rule.fromJson, hid, hversion, hname, hdescription, hactive, htype, hquic, hexclusive,
    hpackage, hhosts, hips, orNull_ofNullable, ruleTypeOf_enumMap, targetsFromJson_toJson]
  rfl

end RuleJson

section Import
variable {α : Type} {jsonToModel : List (Text × Json) → Option α} {elements : List Json}

inductive ParsingError
  | format
  | type
  deriving DecidableEq, Repr

def parseToResults (jsonToModel : List (Text × Json) → Option α) (results : List α)
    (json : List (Text × Json)) : List α := results ++ (jsonToModel json).toList

/-- One turn of the loop over a list. The cast is outside of the `try`. -/
def parseElement (jsonToModel : List (Text × Json) → Option α) (results : List α) (json : Json) :
    Except ParsingError (List α) :=
  match json.asObject with
  | some json => .ok (parseToResults jsonToModel results json)
  | none => .error .type

def parseJsonToList (jsonString : Text) (jsonToModel : List (Text × Json) → Option α) :
    Except ParsingError (List α) :=
  match Json.decode jsonString with
  | none => .error .format
  | some (.list elements) => elements.foldlM (parseElement jsonToModel) []
  | some (.object json) => .ok (parseToResults jsonToModel [] json)
  | some _ => .ok []

def parseRules (rulesRaw : Text) : Except ParsingError (List Rule) :=
  parseJsonToList rulesRaw Rule.fromJson

/-- What an element decodes as. -/
def Json.model (jsonToModel : List (Text × Json) → Option α) (v : Json) : Option α :=
  v.asObject.bind jsonToModel

theorem parseElement_object {v : Json} (h : v.asObject.isSome) (results : List α) :
    parseElement jsonToModel results v = .ok (results ++ (v.model jsonToModel).toList) := by
  obtain ⟨json, hjson⟩ := Option.isSome_iff_exists.mp h
  rw [parseElement, Json.model, hjson]
  rfl

theorem foldlM_objects (h : ∀ v ∈ elements, v.asObject.isSome) (results : List α) :
    elements.foldlM (parseElement jsonToModel) results =
      .ok (results ++ elements.filterMap (Json.model jsonToModel)) := by
  induction elements generalizing results with
  | nil => simp [pure, Except.pure]
  | cons v elements ih =>
    rw [List.forall_mem_cons] at h
    have happend : (v.model jsonToModel).toList ++ elements.filterMap (Json.model jsonToModel) =
        (v :: elements).filterMap (Json.model jsonToModel) := by
      rw [List.filterMap_cons]
      cases v.model jsonToModel <;> rfl
    rw [List.foldlM_cons, parseElement_object h.1, ← happend, ← List.append_assoc]
    exact ih h.2 _

theorem foldlM_error (h : ∃ v ∈ elements, v.asObject = none) (results : List α) :
    elements.foldlM (parseElement jsonToModel) results = .error .type := by
  induction elements generalizing results with
  | nil => simp at h
  | cons v elements ih =>
    rw [List.foldlM_cons]
    cases hv : v.asObject with
    | none =>
      rw [parseElement, hv]
      rfl
    | some json =>
      obtain ⟨w, hw, hnone⟩ := h
      rcases List.mem_cons.mp hw with rfl | hw
      · rw [hv] at hnone
        exact absurd hnone nofun
      · rw [parseElement_object (by rw [hv]; rfl)]
        exact ih ⟨w, hw, hnone⟩ _

/-- A list is imported without its bad elements exactly if none of them is something other
than an object. -/
theorem parseRules_skips_iff {rulesRaw : Text}
    (hlist : Json.decode rulesRaw = some (.list elements)) :
    parseRules rulesRaw = .ok (elements.filterMap (Json.model Rule.fromJson)) ↔
      ∀ v ∈ elements, v.asObject.isSome := by
  have hparse : parseRules rulesRaw = elements.foldlM (parseElement Rule.fromJson) [] := by
    simp only [parseRules, parseJsonToList, hlist]
  rw [hparse]
  constructor
  · intro hok v hv
    by_contra hnone
    rw [Option.not_isSome_iff_eq_none] at hnone
    rw [foldlM_error ⟨v, hv, hnone⟩] at hok
    exact absurd hok nofun
  · intro hobjects
    rw [foldlM_objects hobjects, List.nil_append]

/-- An object that is a rule, and one that has no type. -/
theorem parseRules_skips_sample :
    parseRules "[\x7b\"id\":\"r\",\"type\":\"blacklist\"\x7d,\x7b\"id\":\"s\"\x7d]".toList =
      .ok ([[("id".toList, .string ['r']), ("type".toList, .string "blacklist".toList)],
        [("id".toList, .string ['s'])]].filterMap Rule.fromJson) := by
  have hlist : Json.decode
      "[\x7b\"id\":\"r\",\"type\":\"blacklist\"\x7d,\x7b\"id\":\"s\"\x7d]".toList =
      some (.list [.object [("id".toList, .string ['r']), ("type".toList, .string "blacklist".toList)],
        .object [("id".toList, .string ['s'])]]) := rfl
  refine (parseRules_skips_iff hlist).mpr ?_
  simp [Json.asObject]

/-- A number behind a rule, and the rule is lost. -/
theorem not_parseRules_skips :
    Json.decode "[\x7b\"id\":\"r\",\"type\":\"blacklist\"\x7d,1]".toList =
        some (.list [.object [("id".toList, .string ['r']),
          ("type".toList, .string "blacklist".toList)], .number ['1']]) ∧
      (Rule.fromJson [("id".toList, .string ['r']),
        ("type".toList, .string "blacklist".toList)]).isSome ∧
      parseRules "[\x7b\"id\":\"r\",\"type\":\"blacklist\"\x7d,1]".toList = .error .type :=
  ⟨rfl, rfl, rfl⟩

/-- The rules that were written as a list are the rules that are read. -/
theorem foldlM_toJson (rules : List Rule) :
    (rules.map fun r => Json.object r.toJson).foldlM (parseElement Rule.fromJson) [] = .ok rules := by
  have hobjects : ∀ v ∈ rules.map fun r => Json.object r.toJson, v.asObject.isSome := by
    intro v hv
    obtain ⟨r, -, rfl⟩ := List.mem_map.mp hv
    rfl
  have hmodel : (Json.model Rule.fromJson ∘ fun r : Rule => Json.object r.toJson) = some := by
    funext r
    exact fromJson_toJson r
  rw [foldlM_objects hobjects, List.filterMap_map, hmodel, List.filterMap_some, List.nil_append]

end Import

end NetGuard.Storage
