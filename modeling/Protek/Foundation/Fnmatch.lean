import Mathlib.Data.List.Basic

/-! # Python's `fnmatch.fnmatchcase`

`*` stands for any run of characters, `?` for one, `[…]` for one of a set and `[!…]`
for one outside it. A bracket without its end stands for itself.
-/
namespace Foundation.Fnmatch

inductive Item
  | run
  | one
  | oneOf (negated : Bool) (ranges : List (Char × Char))
  | literal (c : Char)
  deriving DecidableEq, Repr

/-- The ranges between two brackets; a hyphen that starts or ends the text is itself. -/
def ranges : List Char → List (Char × Char)
  | c :: '-' :: d :: rest => (c,d) :: ranges rest
  | c :: rest => (c,c) :: ranges rest
  | [] => []

/-- The text after `[`, cut at its closing bracket; a bracket that comes first is part of the set. -/
def closeBracket (cs : List Char) : Option (Item × List Char) :=
  let negated := cs.head? = some '!'
  let body := if negated then cs.tail else cs
  let first := if body.head? = some ']' then [']'] else []
  let (inside,rest) := (body.drop first.length).span (fun c => c ≠ ']')
  if rest = [] then none else some (.oneOf negated (ranges (first ++ inside)),rest.tail)

/-- The items of a pattern; each takes a character at least, so its length is fuel enough. -/
def items : ℕ → List Char → List Item
  | 0, _ => []
  | _, [] => []
  | fuel + 1, c :: rest =>
    if c = '*' then .run :: items fuel rest
    else if c = '?' then .one :: items fuel rest
    else if c = '[' then
      match closeBracket rest with
      | some (set,rest') => set :: items fuel rest'
      | none => .literal '[' :: items fuel rest
    else .literal c :: items fuel rest

def Item.accepts : Item → Char → Bool
  | .run, _ => false
  | .one, _ => true
  | .oneOf negated rs, c => rs.any (fun r => r.1 ≤ c ∧ c ≤ r.2) != negated
  | .literal d, c => c = d

def accepts : List Item → List Char → Bool
  | [], cs => cs.isEmpty
  | .run :: is, cs => cs.tails.any (accepts is)
  | i :: is, cs =>
    match cs with
    | [] => false
    | c :: rest => i.accepts c && accepts is rest

def fnmatchcase (name pat : String) : Bool := accepts (items pat.toList.length pat.toList) name.toList

example : ["lists:*","lists:fire?ol","[k-m]ists:*","lists[!;]fir*"].all (fnmatchcase "lists:firehol") = true := by decide
example : ["list","[!l]*","lists:","[lists:firehol"].any (fnmatchcase "lists:firehol") = false := by decide
example : fnmatchcase "]-" "[]][a-]" = true := by decide

end Foundation.Fnmatch
