import LeastAccess.Text.Blank

/-!
# Access levels

Four levels, ordered by how much of a program may reach a declaration: its own top-level type, its
package, also its subtypes, everyone. The join of levels is their maximum.

Main statements: `le_join`, `join_le_iff` (the join is the least upper bound of the levels and the seed),
and `join_perm` (their order does not matter).
-/

namespace LeastAccess

/-- An access level. -/
inductive Level where
  | priv
  | pkg
  | prot
  | pub
  deriving DecidableEq, Repr, Inhabited

namespace Level

/-- The place in the order, from one. -/
def rank : Level → Nat
  | .priv => 1
  | .pkg => 2
  | .prot => 3
  | .pub => 4

/-- The level of a rank. -/
def ofRank? : Nat → Option Level
  | 1 => some .priv
  | 2 => some .pkg
  | 3 => some .prot
  | 4 => some .pub
  | _ => none

instance : LE Level := ⟨fun a b => a.rank ≤ b.rank⟩
instance : LT Level := ⟨fun a b => a.rank < b.rank⟩
instance (a b : Level) : Decidable (a ≤ b) := inferInstanceAs (Decidable (a.rank ≤ b.rank))
instance (a b : Level) : Decidable (a < b) := inferInstanceAs (Decidable (a.rank < b.rank))
instance : Max Level := ⟨fun a b => if a ≤ b then b else a⟩

@[simp] theorem ofRank?_rank (a : Level) : ofRank? a.rank = some a := by cases a <;> rfl

theorem rank_injective {a b : Level} (h : a.rank = b.rank) : a = b := by
  cases a <;> cases b <;> first | rfl | exact absurd h (by decide)

protected theorem le_refl (a : Level) : a ≤ a := Nat.le_refl _

protected theorem le_trans {a b c : Level} (h : a ≤ b) (h' : b ≤ c) : a ≤ c := Nat.le_trans h h'

instance : Trans (LE.le : Level → Level → Prop) (LE.le : Level → Level → Prop) LE.le := ⟨Level.le_trans⟩

protected theorem le_antisymm {a b : Level} (h : a ≤ b) (h' : b ≤ a) : a = b :=
  rank_injective (Nat.le_antisymm h h')

protected theorem le_total (a b : Level) : a ≤ b ∨ b ≤ a := Nat.le_total _ _

protected theorem not_le {a b : Level} : ¬ a ≤ b ↔ b < a := Nat.not_le

protected theorem not_lt {a b : Level} : ¬ a < b ↔ b ≤ a := Nat.not_lt

theorem priv_le (a : Level) : priv ≤ a := by cases a <;> decide

theorem le_pub (a : Level) : a ≤ pub := by cases a <;> decide

/-! ## Joins -/

theorem max_le_iff {a b c : Level} : max a b ≤ c ↔ a ≤ c ∧ b ≤ c := by
  cases a <;> cases b <;> cases c <;> decide

theorem le_max_left (a b : Level) : a ≤ max a b := (max_le_iff.1 (Level.le_refl _)).1

theorem le_max_right (a b : Level) : b ≤ max a b := (max_le_iff.1 (Level.le_refl _)).2

protected theorem max_comm (a b : Level) : max a b = max b a := by cases a <;> cases b <;> rfl

protected theorem max_assoc (a b c : Level) : max (max a b) c = max a (max b c) := by
  cases a <;> cases b <;> cases c <;> rfl

@[simp] theorem max_pub (a : Level) : max a pub = pub := by cases a <;> rfl

@[simp] theorem pub_max (a : Level) : max pub a = pub := by cases a <;> rfl

@[simp] theorem priv_max (a : Level) : max priv a = a := by cases a <;> rfl

/-- The broadest of a seed and some levels. -/
def join (seed : Level) (levels : List Level) : Level := levels.foldl max seed

@[simp] theorem join_nil (seed : Level) : join seed [] = seed := rfl

@[simp] theorem join_cons (seed a : Level) (levels : List Level) :
    join seed (a :: levels) = join (max seed a) levels := rfl

theorem join_append (seed : Level) (as bs : List Level) :
    join seed (as ++ bs) = join (join seed as) bs := List.foldl_append

/-- The join is the least level that is above the seed and all levels. -/
theorem join_le_iff {seed c : Level} {levels : List Level} :
    join seed levels ≤ c ↔ seed ≤ c ∧ ∀ a ∈ levels, a ≤ c := by
  induction levels generalizing seed with
  | nil => simp
  | cons a rest ih => simp [ih, max_le_iff, and_assoc]

theorem seed_le_join (seed : Level) (levels : List Level) : seed ≤ join seed levels :=
  (join_le_iff.1 (Level.le_refl _)).1

theorem le_join {seed a : Level} {levels : List Level} (h : a ∈ levels) : a ≤ join seed levels :=
  (join_le_iff.1 (Level.le_refl _)).2 a h

/-- A broader seed and broader levels have a broader join. -/
theorem join_map_mono {α : Type} {xs : List α} {f f' : α → Level} {seed seed' : Level}
    (hseed : seed ≤ seed') (h : ∀ x ∈ xs, f x ≤ f' x) :
    join seed (xs.map f) ≤ join seed' (xs.map f') := by
  refine join_le_iff.2 ⟨Level.le_trans hseed (seed_le_join _ _), fun a ha => ?_⟩
  obtain ⟨x, hx, rfl⟩ := List.mem_map.1 ha
  exact Level.le_trans (h x hx) (le_join (List.mem_map_of_mem hx))

/-- A join is the seed or one of the levels. -/
theorem join_eq_or_mem (seed : Level) (levels : List Level) :
    join seed levels = seed ∨ join seed levels ∈ levels := by
  induction levels generalizing seed with
  | nil => exact Or.inl rfl
  | cons a levels ih =>
    rw [join_cons]
    rcases ih (max seed a) with h | h
    · rw [h]
      by_cases hle : seed ≤ a
      · exact Or.inr (List.mem_cons.mpr (Or.inl (if_pos hle)))
      · exact Or.inl (if_neg hle)
    · exact Or.inr (List.mem_cons_of_mem _ h)

/-- Levels with the same upper bounds have the same join. -/
theorem join_eq_of_forall {seed seed' : Level} {as bs : List Level}
    (h : ∀ c, (seed ≤ c ∧ ∀ a ∈ as, a ≤ c) ↔ (seed' ≤ c ∧ ∀ b ∈ bs, b ≤ c)) :
    join seed as = join seed' bs :=
  Level.le_antisymm (join_le_iff.2 ((h _).2 (join_le_iff.1 (Level.le_refl _))))
    (join_le_iff.2 ((h _).1 (join_le_iff.1 (Level.le_refl _))))

theorem join_perm {seed : Level} {as bs : List Level} (h : as.Perm bs) :
    join seed as = join seed bs :=
  join_eq_of_forall fun _ => by simp [h.mem_iff]

/-- The broadest of some levels, if there are any. -/
def broadest? : List Level → Option Level
  | [] => none
  | a :: rest => some (join a rest)

/-! ## Names -/

/-- The name in snapshot and configuration files. -/
def name : Level → String
  | .priv => "private"
  | .pkg => "package"
  | .prot => "protected"
  | .pub => "public"

/-- The names in ascending order. -/
def names : List String := [priv, pkg, prot, pub].map name

def ofName? (s : String) : Option Level := [priv, pkg, prot, pub].find? (·.name == s)

@[simp] theorem ofName?_name (a : Level) : ofName? a.name = some a := by cases a <;> decide

/-- The name in messages and reports. -/
def presentable : Level → String
  | .pkg => "package-private"
  | a => a.name

/-- The modifier that gives a level; package access is the absence of one. -/
def keyword? : Level → Option String
  | .pkg => none
  | a => some a.name

/-- The level that a text written by hand names: case and blanks at the ends do not count, and
package access goes by both of its names. -/
def parse (s : String) : Option Level :=
  let word := Text.lower (Text.trim s)
  (ofName? word).or (if word = pkg.presentable then some pkg else none)

end Level

end LeastAccess
