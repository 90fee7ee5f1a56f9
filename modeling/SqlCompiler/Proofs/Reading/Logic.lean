import SqlCompiler.Proofs.Reading.Tests

/-!
# Three-valued logic

What conditions mean in SQL, where a comparison with null is unknown. Columns, parameters and
functions may be anything (`Valuation`). The laws at the end are the ones that reading conditions
back rests on: sums, conjunctions and disjunctions may be grouped in any way, and a membership test
may be split.
-/

namespace SqlCompiler.Reading

/-- A value of an expression. -/
inductive Value where
  | null
  | integer (n : Int)
  | string (s : String)
  | truth (b : Bool)
  deriving DecidableEq, Inhabited

/-- A truth value: true, false, or unknown. -/
abbrev Truth := Option Bool

namespace Truth

/-- Both hold. What is false is false, whatever the other one is. -/
def and : Truth → Truth → Truth
  | some false, _ => some false
  | _, some false => some false
  | some true, some true => some true
  | _, _ => none

/-- One of both holds. -/
def or : Truth → Truth → Truth
  | some true, _ => some true
  | _, some true => some true
  | some false, some false => some false
  | _, _ => none

/-- The opposite, where it is wanted. -/
def negateIf (negated : Bool) (t : Truth) : Truth :=
  if negated then t.map not else t

/-- All hold. -/
def all (ts : List Truth) : Truth :=
  ts.foldr and (some true)

/-- One of all holds. -/
def any (ts : List Truth) : Truth :=
  ts.foldr or (some false)

/-- Conjunctions may be grouped in any way. -/
theorem and_assoc (a b c : Truth) : (a.and b).and c = a.and (b.and c) := by
  obtain _ | _ | _ := a <;> obtain _ | _ | _ := b <;> obtain _ | _ | _ := c <;> rfl

/-- Disjunctions may be grouped in any way. -/
theorem or_assoc (a b c : Truth) : (a.or b).or c = a.or (b.or c) := by
  obtain _ | _ | _ := a <;> obtain _ | _ | _ := b <;> obtain _ | _ | _ := c <;> rfl

/-- True on the left changes no conjunction. -/
theorem true_and (a : Truth) : and (some true) a = a := by
  obtain _ | _ | _ := a <;> rfl

/-- True on the right changes no conjunction. -/
theorem and_true (a : Truth) : a.and (some true) = a := by
  obtain _ | _ | _ := a <;> rfl

/-- False on the left changes no disjunction. -/
theorem false_or (a : Truth) : or (some false) a = a := by
  obtain _ | _ | _ := a <;> rfl

/-- The opposite of one of both is the opposite of each. -/
theorem map_not_or (a b : Truth) : (a.or b).map not = Truth.and (a.map not) (b.map not) := by
  obtain _ | _ | _ := a <;> obtain _ | _ | _ := b <;> rfl

/-- All of a list is the first and all of the rest. -/
theorem all_cons (t : Truth) (ts : List Truth) : all (t :: ts) = t.and (all ts) :=
  rfl

/-- All of one is the one. -/
theorem all_singleton (t : Truth) : all [t] = t :=
  and_true t

/-- Any of a list is the first or any of the rest. -/
theorem any_cons (t : Truth) (ts : List Truth) : any (t :: ts) = t.or (any ts) :=
  rfl

/-- All of two lists is all of each. -/
theorem all_append (ts us : List Truth) : all (ts ++ us) = (all ts).and (all us) := by
  induction ts with
  | nil => exact (true_and (all us)).symm
  | cons t ts ih => rw [List.cons_append, all_cons, ih, all_cons, and_assoc]

/-- Any of two lists is any of either. -/
theorem any_append (ts us : List Truth) : any (ts ++ us) = (any ts).or (any us) := by
  induction ts with
  | nil => exact (false_or (any us)).symm
  | cons t ts ih => rw [List.cons_append, any_cons, ih, any_cons, or_assoc]

end Truth

namespace Value

/-- The truth of a value. What is no truth value is unknown. -/
def truth? : Value → Truth
  | .truth b => some b
  | _ => none

/-- A truth value as a value; null is unknown. -/
def ofTruth : Truth → Value
  | some b => .truth b
  | none => .null

/-- The truth of a value that was made from a truth is that truth. -/
@[simp]
theorem truth?_ofTruth (t : Truth) : (ofTruth t).truth? = t := by
  cases t <;> rfl

/-- The order of two values of one kind. -/
def order? : Value → Value → Option Ordering
  | .integer m, .integer n => some (compare m n)
  | .string s, .string t => some (compare s t)
  | .truth a, .truth b => some (compare a b)
  | _, _ => none

/-- A comparison of two values, unknown unless they are of one kind. -/
def test (holds : Ordering → Bool) (v w : Value) : Truth :=
  (order? v w).map holds

/-- An operation on numbers. -/
def number (f : Int → Int → Int) : Value → Value → Value
  | .integer m, .integer n => .integer (f m n)
  | _, _ => .null

end Value

/-- What columns, parameters and functions are taken to be. -/
structure Valuation where
  /-- The columns of the row at hand. -/
  column : Option String → String → Value
  /-- The parameters. -/
  param : String → Option Literal → Value
  /-- The number of the row at hand. -/
  rowNumber : Nat
  /-- The functions, with or without duplicates among the arguments. -/
  call : String → Bool → List Value → Value
  /-- A string is like a pattern. -/
  like : String → String → Bool
  deriving Inhabited

namespace Valuation

open Value (test number ofTruth)

/-- A string against a pattern. -/
def likeness (ν : Valuation) : Value → Value → Truth
  | .string s, .string t => some (ν.like s t)
  | _, _ => none

/-- What an infix operator means. -/
def operate (ν : Valuation) (v : Value) (op : BinaryOp) (w : Value) : Value :=
  match op with
  | .eq => ofTruth (test (· == .eq) v w)
  | .notEq => ofTruth (test (· != .eq) v w)
  | .lt => ofTruth (test (· == .lt) v w)
  | .ltEq => ofTruth (test (· != .gt) v w)
  | .gt => ofTruth (test (· == .gt) v w)
  | .gtEq => ofTruth (test (· != .lt) v w)
  | .and => ofTruth (v.truth?.and w.truth?)
  | .or => ofTruth (v.truth?.or w.truth?)
  | .like => ofTruth (ν.likeness v w)
  | .notLike => ofTruth ((ν.likeness v w).map not)
  | .add => number (· + ·) v w
  | .sub => number (· - ·) v w
  | .mul => number (· * ·) v w
  | .div => number Int.tdiv v w
  | .mod => number Int.tmod v w
  | .concat => .null

/-- The meaning that conditions have in three-valued logic. -/
def meaning (ν : Valuation) : Meaning Value where
  column := ν.column
  integer := .integer
  string := .string
  null := .null
  rowNumber := .integer ν.rowNumber
  param := ν.param
  call := ν.call
  binary := ν.operate
  unary op v :=
    match op with
    | .neg => number (· - ·) (.integer 0) v
    | .not => ofTruth (v.truth?.map not)
  isNull v negated := .truth ((v == .null) != negated)
  between v low high negated :=
    ofTruth (Truth.negateIf negated ((test (· != .lt) v low).and (test (· != .gt) v high)))
  among v items negated :=
    ofTruth (Truth.negateIf negated (Truth.any (items.map fun w => test (· == .eq) v w)))

/-- The truth of an expression. -/
def truth (ν : Valuation) (e : Expr) : Truth :=
  (mean ν.meaning e).truth?

/-- The negative of an amount is the negative number. -/
theorem neg_integer (ν : Valuation) (n : Nat) :
    ν.meaning.unary .neg (ν.meaning.integer n) = ν.meaning.integer (-n) := by
  show Value.integer (0 - (n : Int)) = Value.integer (-n)
  rw [Int.zero_sub]

/-- Sums and differences in a sum may be grouped in any way. -/
theorem associates_add (ν : Valuation) {op : BinaryOp} (h : op = .add ∨ op = .sub) :
    Associates ν.meaning .add op := by
  intro x y z
  obtain rfl | rfl := h
  · show number _ (number _ x y) z = number _ x (number _ y z)
    cases x <;> cases y <;> cases z <;> simp [number, Int.add_assoc]
  · show number _ (number _ x y) z = number _ x (number _ y z)
    cases x <;> cases y <;> cases z <;> simp [number, Int.add_sub_assoc]

/-- Conjunctions may be grouped in any way. -/
theorem associates_and (ν : Valuation) : Associates ν.meaning .and .and := by
  intro x y z
  show ofTruth ((ofTruth _).truth?.and _) = ofTruth (Truth.and _ (ofTruth _).truth?)
  rw [Value.truth?_ofTruth, Value.truth?_ofTruth, Truth.and_assoc]

/-- Disjunctions may be grouped in any way. -/
theorem associates_or (ν : Valuation) : Associates ν.meaning .or .or := by
  intro x y z
  show ofTruth ((ofTruth _).truth?.or _) = ofTruth (Truth.or _ (ofTruth _).truth?)
  rw [Value.truth?_ofTruth, Value.truth?_ofTruth, Truth.or_assoc]

/-- Nothing is in an empty list, not even what is unknown. -/
theorem among_nil (ν : Valuation) (v : Value) (negated : Bool) :
    ν.meaning.among v [] negated
      = ν.meaning.binary (ν.meaning.integer 1) .eq
          (ν.meaning.integer (if negated then 1 else 0)) := by
  cases negated <;> rfl

/-- A membership test may be split, by `OR`, or by `AND` if it is negated. -/
theorem among_append (ν : Valuation) (negated : Bool) (v : Value) (xs ys : List Value) :
    ν.meaning.binary (ν.meaning.among v xs negated) (splitOp negated)
      (ν.meaning.among v ys negated) = ν.meaning.among v (xs ++ ys) negated := by
  -- Tests are joined by OR, and negated ones by AND.
  cases negated with
  | false =>
    show ofTruth ((ofTruth _).truth?.or (ofTruth _).truth?) = ofTruth (Truth.any _)
    rw [Value.truth?_ofTruth, Value.truth?_ofTruth, List.map_append, Truth.any_append]
    rfl
  | true =>
    show ofTruth ((ofTruth _).truth?.and (ofTruth _).truth?) = ofTruth ((Truth.any _).map not)
    rw [Value.truth?_ofTruth, Value.truth?_ofTruth, List.map_append, Truth.any_append,
      Truth.map_not_or]
    rfl

end Valuation

end SqlCompiler.Reading
