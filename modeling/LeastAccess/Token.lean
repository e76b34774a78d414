/-!
# Cancellation

A token says whether a run was cancelled, and why. Once cancelled it stays so, with its first reason. The
token `never` belongs to runs that cannot be cancelled.
-/

namespace LeastAccess

/-- A cancellation token. -/
inductive Token where
  | never
  | live
  | cancelled (reason : Option String)
  deriving DecidableEq, Repr

namespace Token

def isCancelled : Token → Bool
  | .cancelled _ => true
  | _ => false

/-- Why the token was cancelled. -/
def reason? : Token → Option String
  | .cancelled reason => reason
  | _ => none

/-- Cancels a live token. -/
def cancel (reason : Option String) : Token → Token
  | .live => .cancelled reason
  | t => t

@[simp] theorem cancel_never (r : Option String) : cancel r .never = .never := rfl

@[simp] theorem isCancelled_cancel_live (r : Option String) : (cancel r .live).isCancelled = true := rfl

/-- A second cancellation changes nothing. -/
@[simp] theorem cancel_cancel (r r' : Option String) (t : Token) :
    (t.cancel r).cancel r' = t.cancel r := by cases t <;> rfl

theorem isCancelled_cancel {t : Token} (r : Option String) (h : t.isCancelled = true) :
    (t.cancel r).isCancelled = true := by cases t <;> simp_all [isCancelled, cancel]

end Token

end LeastAccess
