import Mathlib.Data.List.Basic

/-!
# Regular expressions

Matching by derivatives: `r.derivative c` matches what may follow `c` in a text
that `r` matches. Expressions are anchored at both ends.
-/

namespace Qubicl.Foundation

inductive Regex
  | never
  | done
  | char (p : Char → Bool)
  | seq (r s : Regex)
  | alt (r s : Regex)
  | star (r : Regex)

namespace Regex

def nullable : Regex → Bool
  | never => false
  | done => true
  | char _ => false
  | seq r s => r.nullable && s.nullable
  | alt r s => r.nullable || s.nullable
  | star _ => true

/- `seq` and `alt` without the parts that cannot match. -/
def andThen : Regex → Regex → Regex
  | never, _ => never
  | done, s => s
  | r, s => seq r s

def orElse : Regex → Regex → Regex
  | never, s => s
  | r, never => r
  | r, s => alt r s

def derivative (c : Char) : Regex → Regex
  | never => never
  | done => never
  | char p => if p c then done else never
  | seq r s =>
    if r.nullable then ((r.derivative c).andThen s).orElse (s.derivative c)
    else (r.derivative c).andThen s
  | alt r s => (r.derivative c).orElse (s.derivative c)
  | star r => (r.derivative c).andThen (star r)

def test (r : Regex) (text : String) : Bool :=
  (text.toList.foldl (fun r c => r.derivative c) r).nullable

/- `/text/` -/
def text (t : String) : Regex :=
  t.toList.foldr (fun c r => seq (char (· == c)) r) done

/- `[a-z]` -/
def range (a z : Char) : Regex := char fun c => a≤c && c≤z

/- `[...]`, the characters of a text -/
def oneOf (t : String) : Regex := char fun c => t.toList.contains c

def oneOrMore (r : Regex) : Regex := seq r (star r)

def maybe (r : Regex) : Regex := alt done r

/- `r{n}` -/
def times : ℕ → Regex → Regex
  | 0, _ => done
  | n+1, r => seq r (times n r)

/- `r{0,n}` -/
def upTo : ℕ → Regex → Regex
  | 0, _ => done
  | n+1, r => maybe (seq r (upTo n r))

def sequence (rs : List Regex) : Regex := rs.foldr seq done

def choice (rs : List Regex) : Regex := rs.foldr alt never

end Regex
end Qubicl.Foundation
