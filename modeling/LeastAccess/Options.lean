import LeastAccess.Declaration

/-!
# Options

Which levels may be suggested, and where. Wherever package access would do but may not be suggested,
the level is public.
-/

namespace LeastAccess

/-- What may be suggested. -/
structure Options where
  /-- Package access for top-level types. -/
  packageForTopLevelTypes : Bool := true
  /-- Package access for members. -/
  packageForMembers : Bool := true
  /-- Private access for the members of nested types. -/
  privateForInners : Bool := false
  /-- Any level for constants. -/
  constants : Bool := true
  deriving DecidableEq, Repr

namespace Options

/-- Package access if it may be suggested for a declaration, otherwise public access. -/
def packageLocal (o : Options) (d : Declaration) : Level :=
  let allowed := if d.isTopLevelType then o.packageForTopLevelTypes else o.packageForMembers
  if allowed then .pkg else .pub

theorem pkg_le_packageLocal (o : Options) (d : Declaration) : Level.pkg ≤ o.packageLocal d := by
  rw [packageLocal]
  split <;> split <;> decide

end Options

end LeastAccess
