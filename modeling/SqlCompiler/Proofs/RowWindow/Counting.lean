import SqlCompiler.Proofs.Outcome

/-!
# Counting rows

What the pseudo-column `ROWNUM` means. Rows come one after the other; each is tried with the next
number, and uses the number up only if it passes the conditions of the query (`countRows`). So a
condition that bounds the number cuts the counted rows off (`countRows_and_le`), and the queries
that count the rows of another one (`RowQuery`) return a window of its rows (`rows_ofBounds`).
-/

namespace SqlCompiler

variable {ρ : Type}

/-- The rows that pass a condition on a row and its number, each with its number; `next` is the
number of the next row that passes. -/
def countRows (passes : ρ → Nat → Bool) (next : Nat) : List ρ → List (ρ × Nat)
  | [] => []
  | r :: rs =>
    if passes r next then (r, next) :: countRows passes (next + 1) rs
    else countRows passes next rs

/-- Where every row passes, the rows are numbered in order. -/
theorem countRows_true (next : Nat) (rs : List ρ) :
    countRows (fun _ _ => true) next rs = rs.zipIdx next := by
  induction rs generalizing next with
  | nil => rfl
  | cons r rs ih => simp [countRows, ih]

/-- The first rows are numbered as all rows are. -/
theorem zipIdx_take (next count : Nat) (rs : List ρ) :
    (rs.take count).zipIdx next = (rs.zipIdx next).take count := by
  induction rs generalizing next count with
  | nil => simp
  | cons r rs ih =>
    cases count with
    | zero => rfl
    | succ count => rw [List.take_succ_cons, List.zipIdx_cons, ih, List.zipIdx_cons,
        List.take_succ_cons]

/-- No row passes once the numbers have gone past a bound. -/
theorem countRows_and_le_of_lt (passes : ρ → Nat → Bool) (bound next : Nat) (h : bound < next)
    (rs : List ρ) : countRows (fun r n => passes r n && n ≤ bound) next rs = [] := by
  induction rs with
  | nil => rfl
  | cons r rs ih =>
    have hnot : ¬ next ≤ bound := by omega
    simp only [countRows, hnot, decide_false, Bool.and_false]
    exact ih

/-- A bound on the number keeps the first rows that pass. -/
theorem countRows_and_le (passes : ρ → Nat → Bool) (bound next : Nat) (rs : List ρ) :
    countRows (fun r n => passes r n && n ≤ bound) next rs
      = (countRows passes next rs).take (bound + 1 - next) := by
  -- The next number grows only with rows that pass.
  induction rs generalizing next with
  | nil => simp [countRows]
  | cons r rs ih =>
    rcases Nat.lt_or_ge bound next with hlt | hle
    · -- The numbers up to the bound are used up.
      have hzero : bound + 1 - next = 0 := by omega
      rw [countRows_and_le_of_lt passes bound next hlt, hzero, List.take_zero]
    · cases hp : passes r next with
      | false =>
        simp only [countRows, hp, Bool.false_and]
        exact ih next
      | true =>
        -- The row passes under both conditions and takes one number with it.
        have hsucc : bound + 1 - next = bound + 1 - (next + 1) + 1 := by omega
        simp only [countRows, hp, hle, decide_true, Bool.and_self, if_true]
        rw [hsucc, List.take_succ_cons, ih]

/-- The rows whose number is at most a bound are the first ones. -/
theorem countRows_le (bound : Nat) (rs : List ρ) :
    countRows (fun _ n => n ≤ bound) 1 rs = (rs.take bound).zipIdx 1 := by
  have h := countRows_and_le (fun (_ : ρ) _ => true) bound 1 rs
  simp only [Bool.true_and, countRows_true, Nat.add_sub_cancel] at h
  rw [h, zipIdx_take]

/-- The numbers of consecutive rows that lie behind a bound are those of the rows after as many as
the bound still covers. -/
theorem filter_lt_zipIdx (bound next : Nat) (rs : List ρ) :
    (rs.zipIdx next).filter (fun r => bound < r.2) = (rs.zipIdx next).drop (bound + 1 - next) := by
  induction rs generalizing next with
  | nil => simp
  | cons r rs ih =>
    rw [List.zipIdx_cons]
    rcases Nat.lt_or_ge bound next with hlt | hle
    · -- All numbers from here on lie behind the bound, so nothing is dropped.
      have hzero : bound + 1 - next = 0 := by omega
      have hzero' : bound + 1 - (next + 1) = 0 := by omega
      rw [List.filter_cons_of_pos (by simpa using hlt), ih, hzero, hzero', List.drop_zero,
        List.drop_zero]
    · have hsucc : bound + 1 - next = bound + 1 - (next + 1) + 1 := by omega
      rw [List.filter_cons_of_neg (by simpa using hle), ih, hsucc, List.drop_succ_cons]

/-- The rows after the first `offset` ones, and at most `limit` of them. -/
def window (limit offset : Option Nat) (rs : List ρ) : List ρ :=
  match limit with
  | some l => (rs.drop (offset.getD 0)).take l
  | none => rs.drop (offset.getD 0)

/-- A row bound as a query states it: an integer literal that is not negative, or a parameter. -/
inductive Bound where
  | literal (n : Int64) (nonneg : 0 ≤ n)
  | param (name : String) (value : Option Literal)

namespace Bound

/-- The bound as an expression. -/
def expr : Bound → Expr
  | .literal n _ => .literal (.integer n)
  | .param name value => .param name value

/-- The bound as it is written: decimal digits, or the placeholder at `position`. -/
def text (style : ParamStyle) (position : Nat) : Bound → String
  | .literal n _ => toString n.toInt
  | .param _ _ => style.marker position

/-- The parameters that the bound binds, the first one at `position`. -/
def params (style : ParamStyle) (position : Nat) : Bound → List BoundParam
  | .literal _ _ => []
  | .param name value => [⟨style.marker position, name, value⟩]

/-- How many parameters the bound binds. -/
def paramCount : Bound → Nat
  | .literal _ _ => 0
  | .param _ _ => 1

/-- The number of rows that the bound stands for, where `env` gives the parameters' values. -/
def value (env : String → Option Literal → Nat) : Bound → Nat
  | .literal n _ => n.toInt.toNat
  | .param name value => env name value

/-- An offset and a limit are literals whose sum is no 64-bit integer. -/
def overflow? : Bound → Bound → Option Fault
  | .literal o _, .literal l _ =>
    if o.toInt + l.toInt ≤ Int64.maxValue.toInt then none else some (.boundOverflow o l)
  | _, _ => none

end Bound

/-- The last row number of a window, as a query states it. -/
inductive LastRow where
  /-- The limit itself. -/
  | limit (l : Bound)
  /-- The offset and the limit together. -/
  | offsetPlus (o l : Bound)

namespace LastRow

/-- The number as it is written. The sum of two literals is worked out. -/
def text (style : ParamStyle) (position : Nat) : LastRow → String
  | .limit l => l.text style position
  | .offsetPlus (.literal o _) (.literal l _) => toString (o.toInt + l.toInt)
  | .offsetPlus o l =>
    "(" ++ o.text style position ++ " + " ++ l.text style (position + o.paramCount) ++ ")"

/-- The parameters that the number binds, in the order of their placeholders. -/
def params (style : ParamStyle) (position : Nat) : LastRow → List BoundParam
  | .limit l => l.params style position
  | .offsetPlus o l => o.params style position ++ l.params style (position + o.paramCount)

/-- How many parameters the number binds. -/
def paramCount : LastRow → Nat
  | .limit l => l.paramCount
  | .offsetPlus o l => o.paramCount + l.paramCount

/-- The row number meant. -/
def value (env : String → Option Literal → Nat) : LastRow → Nat
  | .limit l => l.value env
  | .offsetPlus o l => o.value env + l.value env

end LastRow

/-- A query that counts the rows of an inner one. -/
inductive RowQuery where
  /-- The rows up to a number. -/
  | upTo (last : LastRow)
  /-- The rows behind an offset, and up to a number if there is one. -/
  | behind (offset : Bound) (last : Option LastRow)

namespace RowQuery

/-- The text around an inner query, whose next parameter would stand at `position`. -/
def text (style : ParamStyle) (position : Nat) (inner : String) : RowQuery → String
  | .upTo last => "SELECT * FROM (" ++ inner ++ ") WHERE ROWNUM <= " ++ last.text style position
  | .behind offset (some last) =>
    "SELECT * FROM (SELECT raw_sql_.*, rownum raw_rnum_ FROM (" ++ inner
      ++ ") raw_sql_ WHERE rownum <= " ++ last.text style position
      ++ ") WHERE raw_rnum_ > " ++ offset.text style (position + last.paramCount)
  | .behind offset none =>
    "SELECT * FROM (SELECT raw_sql_.*, rownum raw_rnum_ FROM (" ++ inner
      ++ ") raw_sql_) WHERE raw_rnum_ > " ++ offset.text style position

/-- A query up to a row bounds the number of the rows. -/
theorem text_upTo (style : ParamStyle) (position : Nat) (inner : String) (last : LastRow) :
    (upTo last).text style position inner
      = "SELECT * FROM (" ++ inner ++ ") WHERE ROWNUM <= " ++ last.text style position :=
  rfl

/-- A query between two rows numbers the rows inside and skips them outside. -/
theorem text_behind_some (style : ParamStyle) (position : Nat) (inner : String) (offset : Bound)
    (last : LastRow) :
    (behind offset (some last)).text style position inner
      = "SELECT * FROM (SELECT raw_sql_.*, rownum raw_rnum_ FROM (" ++ inner
        ++ ") raw_sql_ WHERE rownum <= " ++ last.text style position
        ++ ") WHERE raw_rnum_ > " ++ offset.text style (position + last.paramCount) :=
  rfl

/-- A query behind a row numbers all rows and skips the first ones. -/
theorem text_behind_none (style : ParamStyle) (position : Nat) (inner : String) (offset : Bound) :
    (behind offset none).text style position inner
      = "SELECT * FROM (SELECT raw_sql_.*, rownum raw_rnum_ FROM (" ++ inner
        ++ ") raw_sql_) WHERE raw_rnum_ > " ++ offset.text style position :=
  rfl

/-- The parameters of the text around an inner query, in the order of their placeholders. -/
def params (style : ParamStyle) (position : Nat) : RowQuery → List BoundParam
  | .upTo last => last.params style position
  | .behind offset (some last) =>
    last.params style position ++ offset.params style (position + last.paramCount)
  | .behind offset none => offset.params style position

/-- The query around a compiled one. -/
def around (style : ParamStyle) (w : RowQuery) (inner : Compiled) : Compiled :=
  let position := inner.params.length + 1
  ⟨w.text style position inner.sql, inner.params ++ w.params style position⟩

/-- The rows that the query returns, where `rs` are those of the inner query and `env` gives the
parameters' values. A row comes with its number if the query selects that too. -/
def rows (env : String → Option Literal → Nat) (rs : List ρ) : RowQuery → List (ρ × Option Nat)
  | .upTo last =>
    (countRows (fun _ n => n ≤ last.value env) 1 rs).map fun r => (r.1, none)
  | .behind offset last =>
    ((countRows (fun _ n => last.all fun l => n ≤ l.value env) 1 rs).filter
      fun r => offset.value env < r.2).map fun r => (r.1, some r.2)

/-- The query for a limit and an offset, unless both are absent. -/
def ofBounds : (limit offset : Option Bound) → Option RowQuery
  | none, none => none
  | some l, none => some (.upTo (.limit l))
  | some l, some o => some (.behind o (some (.offsetPlus o l)))
  | none, some o => some (.behind o none)

/-- The rows up to a number, without their own numbers. -/
theorem rows_upTo (env : String → Option Literal → Nat) (rs : List ρ) (last : LastRow) :
    ((RowQuery.upTo last).rows env rs).map Prod.fst = rs.take (last.value env) := by
  rw [rows, countRows_le, List.map_map]
  exact List.zipIdx_map_fst 1 _

/-- The rows behind an offset are those after as many rows. -/
theorem rows_behind_none (env : String → Option Literal → Nat) (rs : List ρ) (o : Bound) :
    ((RowQuery.behind o none).rows env rs).map Prod.fst = rs.drop (o.value env) := by
  simp only [rows, Option.all_none, countRows_true]
  rw [filter_lt_zipIdx, Nat.add_sub_cancel, List.map_map, List.map_drop]
  exact congrArg _ (List.zipIdx_map_fst 1 _)

/-- The rows behind an offset and up to a number are those between. -/
theorem rows_behind_some (env : String → Option Literal → Nat) (rs : List ρ) (o : Bound)
    (last : LastRow) :
    ((RowQuery.behind o (some last)).rows env rs).map Prod.fst
      = (rs.take (last.value env)).drop (o.value env) := by
  simp only [rows, Option.all_some]
  rw [countRows_le, filter_lt_zipIdx, Nat.add_sub_cancel, List.map_map, List.map_drop]
  exact congrArg _ (List.zipIdx_map_fst 1 _)

/-- The query for a limit and an offset returns the rows after the first `offset` ones, and at most
`limit` of them. -/
theorem rows_ofBounds (env : String → Option Literal → Nat) (rs : List ρ)
    {limit offset : Option Bound} {w : RowQuery} (h : ofBounds limit offset = some w) :
    (w.rows env rs).map Prod.fst
      = window (limit.map (·.value env)) (offset.map (·.value env)) rs := by
  match limit, offset, h with
  | some l, none, rfl => exact rows_upTo env rs (.limit l)
  | none, some o, rfl => exact rows_behind_none env rs o
  | some l, some o, rfl =>
    -- Of the first `o + l` rows, dropping `o` leaves the first `l` of the rest.
    rw [rows_behind_some, List.drop_take]
    simp [LastRow.value, window]

end RowQuery

end SqlCompiler
