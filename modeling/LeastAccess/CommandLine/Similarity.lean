import LeastAccess.Text.Units

/-!
# Similar words

The distance of two words is the least number of edits that lead from one to the other: a character is
taken out, put in, or replaced, or two neighbours change places, no character being edited twice. The
distances of all prefixes are computed row by row.

`closest` lists the words that are nearest to a mistyped one, if they are near enough. `suggestions` does
so for a word that may be an option.
-/

namespace LeastAccess.Similarity

variable {α : Type} [DecidableEq α]

/-- The distances between a prefix and all prefixes of another word: `row` belongs to the prefix without its
last item `x`, and `earlier` to the one without its last two, `before` and `x`. -/
def nextRow (word : List α) (earlier row : List Nat) (before : Option α) (x : α) : List Nat :=
  let step (built : List Nat × Option α) (item : α × Nat) : List Nat × Option α :=
    let (next, previous) := built
    let (y, j) := item
    let taken := row.getD (j + 1) 0 + 1
    let given := next.getD j 0 + 1
    let replaced := row.getD j 0 + if x = y then 0 else 1
    let exchanged :=
      if before = some y ∧ previous = some x then [earlier.getD (j - 1) 0 + 1] else []
    (next ++ [exchanged.foldl min (min (min taken given) replaced)], some y)
  (word.zipIdx.foldl step ([row.getD 0 0 + 1], none)).1

/-- Extends the rows by the items of a word, and answers the last row. -/
def lastRow (word : List α) (earlier row : List Nat) (before : Option α) : List α → List Nat
  | [] => row
  | x :: rest => lastRow word row (nextRow word earlier row before x) (some x) rest

/-- The least number of edits between two words. -/
def distance (a b : List α) : Nat :=
  (lastRow b [] (List.range (b.length + 1)) none a).getLast?.getD 0

/-- Words further away than this are not similar. -/
def maxDistance : Nat := 3

/-- The distance of a similar word, counted in UTF-16 units: a word of at least two units, with few edits,
which leave more than two fifths of the longer word alone. -/
def similar? (word candidate : String) : Option Nat :=
  let a := Text.units word.toList
  let b := Text.units candidate.toList
  let longer := max a.length b.length
  if b.length ≤ 1 ∨ maxDistance < longer - min a.length b.length then none
  else
    let d := distance a b
    if d ≤ maxDistance ∧ 2 * longer < 5 * (longer - d) then some d else none

/-- The similar words that are nearest, in alphabetical order. -/
def closest (word : String) (candidates : List String) : List String :=
  let found := candidates.eraseDups.filterMap fun c => (similar? word c).map fun d => (c, d)
  match (found.map Prod.snd).min? with
  | none => []
  | some least => ((found.filter (·.2 == least)).map Prod.fst).mergeSort (· ≤ ·)

/-- What may have been meant by a word. If it starts with two dashes, only what follows them is compared,
with the candidates from their third character on, and every suggestion is given two dashes. -/
def suggestions (word : String) (candidates : List String) : List String :=
  match word.toList with
  | '-' :: '-' :: rest =>
    let names := candidates.eraseDups.map fun c => String.ofList (c.toList.drop 2)
    (closest (String.ofList rest) names).map ("--" ++ ·)
  | _ => closest word candidates

end LeastAccess.Similarity
