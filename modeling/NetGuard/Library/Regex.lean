import Mathlib.Data.List.Basic

/-! # Regular expressions under backtracking

A matcher that backtracks tries the ends of a match in an order: the left side of an
alternative before the right one, one more repetition before none. The match it reports is
the first of them.
-/

inductive Regex (α : Type*)
  | empty
  | one (p : α → Bool)
  | boundary (word : α → Bool)
  | seq (r s : Regex α)
  | alt (r s : Regex α)

namespace Regex
variable {α : Type*}

def exactly : Nat → Regex α → Regex α
  | 0, _ => .empty
  | n + 1, r => .seq r (exactly n r)

def upTo : Nat → Regex α → Regex α
  | 0, _ => .empty
  | n + 1, r => .alt (.seq r (upTo n r)) .empty

/-- `r{m,n}`. -/
def between (m n : Nat) (r : Regex α) : Regex α := .seq (exactly m r) (upTo (n - m) r)

/-- A position in a text: the symbol before it, and what follows. -/
structure Cursor (α : Type*) where
  previous : Option α
  rest : List α

def Cursor.isBoundary (word : α → Bool) (c : Cursor α) : Bool :=
  c.previous.any word != c.rest.head?.any word

/-- Where a match from `c` can end, the preferred end first. -/
def ends : Regex α → Cursor α → List (Cursor α)
  | .empty, c => [c]
  | .one _, ⟨_, []⟩ => []
  | .one p, ⟨_, a :: rest⟩ => if p a then [⟨some a, rest⟩] else []
  | .boundary word, c => if c.isBoundary word then [c] else []
  | .seq r s, c => (r.ends c).flatMap s.ends
  | .alt r s, c => r.ends c ++ s.ends c

def matchLength (r : Regex α) (c : Cursor α) : Option Nat :=
  (r.ends c).head?.map fun e => c.rest.length - e.rest.length

/-- The matches from left to right. The next `skip` symbols belong to the last match. -/
def matchesFrom (r : Regex α) : Option α → Nat → List α → List (List α)
  | previous, skip, [] =>
    match skip, r.matchLength ⟨previous, []⟩ with
    | 0, some _ => [[]]
    | _, _ => []
  | _, skip + 1, a :: rest => matchesFrom r (some a) skip rest
  | previous, 0, a :: rest =>
    match r.matchLength ⟨previous, a :: rest⟩ with
    | some n => (a :: rest).take n :: matchesFrom r (some a) (n - 1) rest
    | none => matchesFrom r (some a) 0 rest

def allMatches (r : Regex α) (text : List α) : List (List α) := r.matchesFrom none 0 text

end Regex
