import Mathlib.Data.Nat.Notation
/-!
# Regular expressions

Expressions in the syntax of RE2 that match leftmost and, among the ways to
match from there, prefer the first: the earlier alternative, the longer
repetition of a greedy star and the shorter one of a lazy star.
-/

namespace HardenLlm

inductive Regex
  | empty
  | char (p : Char → Bool)
  | seq (r s : Regex)
  | alt (r s : Regex)
  | star (lazy : Bool) (r : Regex)
  /-- `\b`, between an ASCII word character and none. -/
  | boundary
  | start
  | stop

namespace Regex

/-- A place in a text: the character before and what follows. -/
structure Place where
  prev : Option Char
  rest : List Char

def wordChar (c : Char) : Bool := c.isAlphanum || c = '_'

/-- The places a star reaches from one, in order of preference. A round
that consumes nothing is not repeated. -/
def rounds (lazy : Bool) (step : Place → List Place) : ℕ → Place → List Place
  | 0, p => [p]
  | n + 1, p =>
    let more := ((step p).filter fun p' => p'.rest.length < p.rest.length).flatMap
      (rounds lazy step n)
    if lazy then p :: more else more ++ [p]

/-- **Where a match from a place can end**, the preferred end first. -/
def ends : Regex → Place → List Place
  | empty, p => [p]
  | char q, p =>
    match p.rest with
    | c :: rest => if q c then [⟨some c, rest⟩] else []
    | [] => []
  | seq r s, p => (r.ends p).flatMap s.ends
  | alt r s, p => r.ends p ++ s.ends p
  | star lazy r, p => rounds lazy r.ends p.rest.length p
  | boundary, p => if p.prev.any wordChar != p.rest.head?.any wordChar then [p] else []
  | start, p => if p.prev.isNone then [p] else []
  | stop, p => if p.rest.isEmpty then [p] else []

/-- The length of the match at a place, `0` if there is none. -/
def length (r : Regex) (prev : Option Char) (t : List Char) : ℕ :=
  match r.ends ⟨prev, t⟩ with
  | p :: _ => t.length - p.rest.length
  | [] => 0

/-- `MatchString`: a match at any place. -/
def search (r : Regex) : Option Char → List Char → Bool
  | prev, [] => !(r.ends ⟨prev, []⟩).isEmpty
  | prev, c :: rest => !(r.ends ⟨prev, c :: rest⟩).isEmpty || search r (some c) rest

def isMatch (r : Regex) (t : List Char) : Bool := r.search none t

/-! ## Shorthands -/

/-- The expression of a text. -/
def text (s : String) : Regex := s.toList.foldr (fun c r => seq (char (· == c)) r) empty

/-- Letters that differ by case only, as `(?i)` reads them. -/
def sameLetter (c d : Char) : Bool :=
  c.toLower == d.toLower
    || (c.toLower == 'k' && d.toNat == 0x212A) || (c.toLower == 's' && d.toNat == 0x17F)

/-- The expression of an ASCII text under `(?i)`. -/
def textFold (s : String) : Regex := s.toList.foldr (fun c r => seq (char (sameLetter c)) r) empty

/-- Any of the expressions, the first preferred. -/
def oneOf (rs : List Regex) : Regex := rs.foldr alt (char fun _ => false)

/-- The expressions in turn. -/
def allOf (rs : List Regex) : Regex := rs.foldr seq empty

def opt (r : Regex) : Regex := alt r empty

def plus (r : Regex) : Regex := seq r (star false r)

/-- At least `n` times. -/
def atLeast (n : ℕ) (r : Regex) : Regex := allOf (List.replicate n r ++ [star false r])

/-- `\s`. -/
def space (c : Char) : Bool := c = ' ' || c = '\t' || c = '\n' || c = '\r' || c.toNat = 12

end Regex

end HardenLlm
