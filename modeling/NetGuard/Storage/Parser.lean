import NetGuard.Library.Regex
import NetGuard.Service.Tables
import Mathlib.Data.List.Nodup

/-! # The parser of hosts files

A hosts file gives the hosts of its lines and the addresses found in them, as two sets.
The parser adds to the sets it is given, so that one result collects many files.
-/
namespace NetGuard.Storage
open Service (Text HostType HostEntry)

/-- A `HashSet`, with the newest element first. -/
structure HashSet where
  elems : List Text
  nodup : elems.Nodup

namespace HashSet
variable {s : HashSet} {t u : Text} {l : List Text}

def empty : HashSet := ⟨[], List.nodup_nil⟩

def add (s : HashSet) (t : Text) : HashSet := ⟨s.elems.insert t, s.nodup.insert⟩

def addAll (s : HashSet) (l : List Text) : HashSet := l.foldl add s

theorem mem_add : u ∈ (s.add t).elems ↔ u ∈ s.elems ∨ u = t := by
  rw [add, List.mem_insert_iff, or_comm]

theorem mem_addAll : u ∈ (s.addAll l).elems ↔ u ∈ s.elems ∨ u ∈ l := by
  induction l generalizing s with
  | nil => simp [addAll]
  | cons t l ih =>
    rw [addAll, List.foldl_cons, ← addAll, ih, mem_add, List.mem_cons, or_assoc]

end HashSet

structure HostsParsingResult where
  hosts : HashSet
  ips : HashSet

def HostsParsingResult.empty : HostsParsingResult := ⟨.empty, .empty⟩

section Patterns
open Regex

def ipv4Pattern : Text :=
  "\\b(?:(?:25[0-5]|2[0-4]\\d|1?\\d\x7b1,2\x7d)\\.)\x7b3\x7d(?:25[0-5]|2[0-4]\\d|1?\\d\x7b1,2\x7d)\\b".toList

def ipv6Pattern : Text :=
  ("\\b(?:(?:[A-Fa-f0-9]\x7b1,4\x7d:)\x7b1,7\x7d:|:(:[A-Fa-f0-9]\x7b1,4\x7d)\x7b1,7\x7d|" ++
    "(?:[A-Fa-f0-9]\x7b1,4\x7d:)\x7b1,6\x7d:[A-Fa-f0-9]\x7b1,4\x7d)\\b").toList

def chr (c : Char) : Regex Char := .one fun a => a = c

def range (first last : Char) : Regex Char := .one fun a => first ≤ a && a ≤ last

/-- `\b`: word characters are the letters, the digits and the underscore of ASCII. -/
def wordBoundary : Regex Char := .boundary fun a => a.isAlphanum || a = '_'

def octet : Regex Char :=
  .alt (.seq (chr '2') (.seq (chr '5') (range '0' '5')))
    (.alt (.seq (chr '2') (.seq (range '0' '4') (range '0' '9')))
      (.seq (between 0 1 (chr '1')) (between 1 2 (range '0' '9'))))

def ipv4 : Regex Char :=
  .seq wordBoundary (.seq (exactly 3 (.seq octet (chr '.'))) (.seq octet wordBoundary))

/-- `[A-Fa-f0-9]` one to four times. -/
def hexGroup : Regex Char :=
  between 1 4 (.one fun a => ('A' ≤ a && a ≤ 'F') || ('a' ≤ a && a ≤ 'f') || ('0' ≤ a && a ≤ '9'))

def ipv6 : Regex Char :=
  .seq wordBoundary (.seq
    (.alt (.seq (between 1 7 (.seq hexGroup (chr ':'))) (chr ':'))
      (.alt (.seq (chr ':') (between 1 7 (.seq (chr ':') hexGroup)))
        (.seq (between 1 6 (.seq hexGroup (chr ':'))) (.seq (chr ':') hexGroup))))
    wordBoundary)

end Patterns

section Lines

/-- `\s`. -/
def isSpace (c : Char) : Bool :=
  let n := c.toNat
  (0x09 ≤ n && n ≤ 0x0d) || n == 0x20 || n == 0xa0 || n == 0x1680 || (0x2000 ≤ n && n ≤ 0x200a) ||
    n == 0x2028 || n == 0x2029 || n == 0x202f || n == 0x205f || n == 0x3000 || n == 0xfeff

/-- The parts between runs of blanks. A text that starts or ends with blanks has an empty
part there. -/
def splitSpaces (inBlanks : Bool) : Text → List Text
  | [] => [[]]
  | c :: rest =>
    if isSpace c then
      if inBlanks then splitSpaces true rest else [] :: splitSpaces true rest
    else
      match splitSpaces false rest with
      | [] => [[c]]
      | part :: parts => (c :: part) :: parts

/-- `matchAsPrefix` has the pattern as the text: what matches is a prefix of the pattern's
own characters. -/
def matchAny (text : Text) (patterns : List Text) : Bool := patterns.any text.isPrefixOf

def hostOfParts : List Text → Text
  | first :: second :: rest =>
    if !matchAny first [ipv4Pattern, ipv6Pattern] then second
    else if rest.isEmpty then second
    else []
  | _ => []

def lineHost (line : Text) : Text :=
  let host := hostOfParts (splitSpaces false line)
  if "www.".toList.isPrefixOf host then host.drop 4 else host

def parseLineForHosts (line : Text) (result : HostsParsingResult) : HostsParsingResult :=
  if (lineHost line).isEmpty then result
  else { result with hosts := result.hosts.add (lineHost line) }

def lineIps (line : Text) : List Text :=
  (ipv4.allMatches line ++ ipv6.allMatches line).filter fun s => !s.isEmpty

def parseLineForIPs (line : Text) (result : HostsParsingResult) : HostsParsingResult :=
  { result with ips := result.ips.addAll (lineIps line) }

/-- A line without its comment. -/
def parseLine (result : HostsParsingResult) (line : Text) : HostsParsingResult :=
  let line := line.takeWhile (· ≠ '#')
  if line.isEmpty then result else parseLineForIPs line (parseLineForHosts line result)

def parseHosts (source : Text) (result : HostsParsingResult) : HostsParsingResult :=
  (source.splitOn '\n').foldl parseLine result

end Lines

section Results
variable {result : HostsParsingResult} {h : HostEntry}

/-- `h` is one of the entries of the result, which belong to no rule. -/
def HostsParsingResult.Has (result : HostsParsingResult) (h : HostEntry) : Prop :=
  h.ruleId = none ∧
    match h.type with
    | .host => h.target ∈ result.hosts.elems
    | .ip => h.target ∈ result.ips.elems

/-- The host or an address of a line. -/
def LineHas (line : Text) (h : HostEntry) : Prop :=
  h.ruleId = none ∧
    match h.type with
    | .host => h.target = lineHost line ∧ lineHost line ≠ []
    | .ip => h.target ∈ lineIps line

theorem not_has_empty : ¬ HostsParsingResult.empty.Has h := by
  obtain ⟨ruleId, target, type⟩ := h
  cases type with
  | host => exact fun hhas => List.not_mem_nil hhas.2
  | ip => exact fun hhas => List.not_mem_nil hhas.2

theorem has_parseLineOf (line : Text) (result : HostsParsingResult) :
    (parseLineForIPs line (parseLineForHosts line result)).Has h ↔ result.Has h ∨ LineHas line h := by
  obtain ⟨ruleId, target, type⟩ := h
  have hips : (parseLineForHosts line result).ips = result.ips := by
    rw [parseLineForHosts]
    split <;> rfl
  have hhosts : target ∈ (parseLineForHosts line result).hosts.elems ↔
      target ∈ result.hosts.elems ∨ target = lineHost line ∧ lineHost line ≠ [] := by
    rw [parseLineForHosts]
    split
    next hempty => simp [List.isEmpty_iff.mp hempty]
    next hhost =>
      rw [List.isEmpty_iff] at hhost
      rw [HashSet.mem_add, and_iff_left hhost]
  cases type with
  | host =>
    simp only [HostsParsingResult.Has, LineHas, parseLineForIPs, hhosts]
    exact and_or_left
  | ip =>
    simp only [HostsParsingResult.Has, LineHas, parseLineForIPs, HashSet.mem_addAll, hips]
    exact and_or_left

theorem lineHas_nil : ¬ LineHas [] h := by
  obtain ⟨ruleId, target, type⟩ := h
  cases type with
  | host => exact fun hhas => hhas.2.2 rfl
  | ip =>
    have hnone : lineIps [] = [] := by decide
    exact fun hhas => List.not_mem_nil (hnone ▸ hhas.2)

theorem has_parseLine (result : HostsParsingResult) (line : Text) :
    (parseLine result line).Has h ↔ result.Has h ∨ LineHas (line.takeWhile (· ≠ '#')) h := by
  rw [parseLine]
  split
  next hempty =>
    rw [List.isEmpty_iff] at hempty
    rw [hempty, or_iff_left lineHas_nil]
  next => exact has_parseLineOf _ result

theorem has_parseHosts_iff (source : Text) (result : HostsParsingResult) :
    (parseHosts source result).Has h ↔
      result.Has h ∨ ∃ line ∈ source.splitOn '\n', LineHas (line.takeWhile (· ≠ '#')) h := by
  have hlines : ∀ (lines : List Text) (result : HostsParsingResult),
      (lines.foldl parseLine result).Has h ↔
        result.Has h ∨ ∃ line ∈ lines, LineHas (line.takeWhile (· ≠ '#')) h := by
    intro lines
    induction lines with
    | nil => simp
    | cons line lines ih =>
      intro result
      rw [List.foldl_cons, ih, has_parseLine, or_assoc, List.exists_mem_cons_iff]
  exact hlines _ result

/-- A file adds its own entries to a result. -/
theorem has_parseHosts (source : Text) (result : HostsParsingResult) :
    (parseHosts source result).Has h ↔ result.Has h ∨ (parseHosts source .empty).Has h := by
  rw [has_parseHosts_iff, has_parseHosts_iff source .empty, or_iff_right not_has_empty]

end Results

end NetGuard.Storage
