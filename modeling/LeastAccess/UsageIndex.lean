import LeastAccess.Token
import LeastAccess.UsageSite

/-!
# The usage index

For every declaration the index holds two lists of usage sites: its ordinary usages, and for a functional
type the lambdas that adopt it. Readers go through a list one request at a time. A request looks at the
reader's token first, so a cancelled reader hands out nothing more; a reader that has ended stays ended.

`Reading` is the state of any number of readers, each opened with a token of its own or a shared one.
-/

namespace LeastAccess

/-- Which of the two lists. -/
inductive UsageSection where
  | ordinary
  | functional
  deriving DecidableEq, Repr

/-- The usage sites of a program, by the id of what they refer to. -/
structure UsageIndex where
  ordinary : List (String × List UsageSite) := []
  functional : List (String × List UsageSite) := []
  deriving DecidableEq

namespace UsageIndex

def entries (index : UsageIndex) : UsageSection → List (String × List UsageSite)
  | .ordinary => index.ordinary
  | .functional => index.functional

/-- The sites of a declaration; none for an id that is not listed. -/
def sites (index : UsageIndex) (part : UsageSection) (id : String) : List UsageSite :=
  ((index.entries part).lookup id).getD []

end UsageIndex

/-- The next site and the sites after it. -/
def nextSite (cancelled : Bool) : List UsageSite → Option (UsageSite × List UsageSite)
  | [] => none
  | site :: rest => if cancelled then none else some (site, rest)

theorem eq_cons_of_nextSite {cancelled : Bool} {sites rest : List UsageSite} {site : UsageSite}
    (h : nextSite cancelled sites = some (site, rest)) : sites = site :: rest := by
  cases sites with
  | nil => simp [nextSite] at h
  | cons s r =>
    cases cancelled <;> simp [nextSite] at h
    rw [h.1, h.2]

@[simp] theorem nextSite_cancelled (sites : List UsageSite) : nextSite true sites = none := by
  cases sites <;> rfl

/-- A reader: the sites it has still to hand out, and the number of its token. -/
structure Reader where
  rest : List UsageSite
  token : Nat

/-- All readers that were opened, and the tokens. -/
structure Reading where
  readers : List Reader := []
  tokens : Nat → Token := fun _ => .live

namespace Reading

/-- Opens a reader; its number is the number of readers before. -/
def openReader (r : Reading) (index : UsageIndex) (part : UsageSection) (id : String) (token : Nat) :
    Reading :=
  { r with readers := r.readers ++ [⟨index.sites part id, token⟩] }

/-- The site a reader hands out next. A reader that has none to hand out has ended. -/
def request (r : Reading) (n : Nat) : Option UsageSite × Reading :=
  match r.readers[n]? with
  | none => (none, r)
  | some reader =>
    match nextSite (r.tokens reader.token).isCancelled reader.rest with
    | some (site, rest) => (some site, { r with readers := r.readers.set n { reader with rest } })
    | none => (none, { r with readers := r.readers.set n { reader with rest := [] } })

/-- Cancels a token. -/
def cancel (r : Reading) (token : Nat) (reason : Option String) : Reading :=
  { r with tokens := fun t => if t = token then (r.tokens t).cancel reason else r.tokens t }

end Reading

end LeastAccess
