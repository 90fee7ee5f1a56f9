import SqlCompiler.Proofs.Reading.Token

/-!
# Reading conditions back

How a database reads the tokens of a condition. Operators bind by level, those of equal level group
to the left, and parentheses come first. The reader keeps a stack of what waits for its right-hand
side: an infix operator first closes all that binds at least as strong (`reduce`), then waits
itself. What the parts of a condition mean is left open (`Meaning`), so the reader evaluates as it
goes.

The levels are the ones of the SQL standard as the usual databases have them. They are stated here
and nowhere taken from how conditions are written.
-/

namespace SqlCompiler.Reading

/-- What the parts of a condition mean. -/
structure Meaning (α : Type) where
  /-- A column, possibly of a relation. -/
  column : Option String → String → α
  integer : Int → α
  string : String → α
  null : α
  /-- The number of the row at hand. -/
  rowNumber : α
  /-- A parameter by its name and the value that it is bound to. -/
  param : String → Option Literal → α
  /-- A function's value for its arguments, possibly without duplicates. -/
  call : String → Bool → List α → α
  binary : α → BinaryOp → α → α
  unary : UnaryOp → α → α
  /-- Whether a value is null, or is not. -/
  isNull : α → Bool → α
  /-- Whether a value lies between two others, or does not. -/
  between : α → α → α → Bool → α
  /-- Whether a value is among others, or is not. -/
  among : α → List α → Bool → α

/-- The level of an infix operator. -/
def infixLevel : BinaryOp → Nat
  | .or => 2
  | .and => 3
  | .eq | .notEq | .lt | .ltEq | .gt | .gtEq => 6
  | .like | .notLike => 7
  | .concat => 9
  | .add | .sub => 10
  | .mul | .div | .mod => 11

/-- The level of an operator before its operand. -/
def prefixLevel : UnaryOp → Nat
  | .not => 4
  | .neg => 13

/-- The level of `IS NULL`. -/
def isLevel : Nat :=
  5

/-- The level of `BETWEEN`, `IN` and `LIKE`. -/
def membershipLevel : Nat :=
  7

/-- What waits for its right-hand side. -/
inductive Frame (α : Type) where
  | binary (left : α) (op : BinaryOp)
  | unary (op : UnaryOp)
  /-- `BETWEEN` before its `AND`. -/
  | between (operand : α) (negated : Bool)
  /-- `BETWEEN` after its `AND`. -/
  | betweenAnd (operand low : α) (negated : Bool)
  /-- A parenthesis. -/
  | group
  /-- A call, with the arguments so far. -/
  | call (name : String) (distinct : Bool) (args : List α)
  /-- A membership test, with the items so far. -/
  | among (operand : α) (negated : Bool) (items : List α)

variable {α : Type}

/-- The value of what waits, once its right-hand side is there and an operator of level `q`
follows. What does not bind that strong goes on waiting. -/
def Frame.close? (M : Meaning α) (q : Nat) (v : α) : Frame α → Option α
  | .binary left op => if q ≤ infixLevel op then some (M.binary left op v) else none
  | .unary op => if q ≤ prefixLevel op then some (M.unary op v) else none
  | .betweenAnd operand low negated =>
    if q ≤ membershipLevel then some (M.between operand low v negated) else none
  | _ => none

/-- Closes all that binds at least as strong as level `q`. -/
def reduce (M : Meaning α) (q : Nat) : List (Frame α) → α → List (Frame α) × α
  | [], v => ([], v)
  | f :: fs, v =>
    match f.close? M q v with
    | some v' => reduce M q fs v'
    | none => (f :: fs, v)

/-- What the reader expects next. -/
inductive Mode (α : Type) where
  | operand
  /-- A name has been read; it may turn out to be that of a function or of a relation. -/
  | named (name : String)
  /-- A relation and a dot have been read. -/
  | qualified (relation : String)
  /-- An operand has been read. -/
  | operator (v : α)
  /-- An operand and `IS` or `IS NOT` have been read. -/
  | is (v : α) (negated : Bool)
  /-- An operand and `NOT` have been read. -/
  | negated (v : α)
  /-- An operand and `IN` or `NOT IN` have been read. -/
  | among (v : α) (negated : Bool)
  /-- The text is no condition. -/
  | failed

/-- The state of the reader. -/
structure Reader (α : Type) where
  /-- The parameters whose placeholders have not been read. -/
  params : List BoundParam
  /-- What waits, the innermost first. -/
  frames : List (Frame α)
  /-- What is expected. -/
  mode : Mode α

namespace Reader

/-- An infix operator after an operand. -/
def push (M : Meaning α) (params : List BoundParam) (fs : List (Frame α)) (v : α)
    (op : BinaryOp) : Reader α :=
  let (fs, v) := reduce M (infixLevel op) fs v
  ⟨params, .binary v op :: fs, .operand⟩

/-- The token after an operand. -/
def afterOperand (M : Meaning α) (params : List BoundParam) (fs : List (Frame α)) (v : α) :
    Token → Reader α
  | .operator op => push M params fs v op
  | .keyword .or => push M params fs v .or
  | .keyword .like => push M params fs v .like
  | .keyword .and =>
    -- The `AND` of a `BETWEEN` that waits for it.
    match reduce M (infixLevel .and) fs v with
    | (.between operand negated :: fs, v) => ⟨params, .betweenAnd operand v negated :: fs, .operand⟩
    | (fs, v) => ⟨params, .binary v .and :: fs, .operand⟩
  | .keyword .is =>
    let (fs, v) := reduce M isLevel fs v
    ⟨params, fs, .is v false⟩
  | .keyword .between =>
    let (fs, v) := reduce M membershipLevel fs v
    ⟨params, .between v false :: fs, .operand⟩
  | .keyword .among =>
    let (fs, v) := reduce M membershipLevel fs v
    ⟨params, fs, .among v false⟩
  | .keyword .not => ⟨params, fs, .negated v⟩
  | .closing =>
    match reduce M 0 fs v with
    | (.group :: fs, v) => ⟨params, fs, .operator v⟩
    | (.call name distinct args :: fs, v) =>
      ⟨params, fs, .operator (M.call name distinct (args ++ [v]))⟩
    | (.among operand negated items :: fs, v) =>
      ⟨params, fs, .operator (M.among operand (items ++ [v]) negated)⟩
    | (fs, _) => ⟨params, fs, .failed⟩
  | .comma =>
    match reduce M 0 fs v with
    | (.call name distinct args :: fs, v) =>
      ⟨params, .call name distinct (args ++ [v]) :: fs, .operand⟩
    | (.among operand negated items :: fs, v) =>
      ⟨params, .among operand negated (items ++ [v]) :: fs, .operand⟩
    | (fs, _) => ⟨params, fs, .failed⟩
  | _ => ⟨params, fs, .failed⟩

/-- The token where an operand is expected. -/
def atOperand (M : Meaning α) (params : List BoundParam) (fs : List (Frame α)) :
    Token → Reader α
  | .integer n => ⟨params, fs, .operator (M.integer n)⟩
  | .string s => ⟨params, fs, .operator (M.string s)⟩
  | .keyword .null => ⟨params, fs, .operator M.null⟩
  | .keyword .rowNumber => ⟨params, fs, .operator M.rowNumber⟩
  | .placeholder marker =>
    match params with
    | p :: ps =>
      if p.marker = marker then ⟨ps, fs, .operator (M.param p.name p.value)⟩
      else ⟨params, fs, .failed⟩
    | [] => ⟨params, fs, .failed⟩
  | .name n => ⟨params, fs, .named n⟩
  | .quoted n => ⟨params, fs, .named n⟩
  | .operator .sub => ⟨params, .unary .neg :: fs, .operand⟩
  | .keyword .not => ⟨params, .unary .not :: fs, .operand⟩
  | .opening => ⟨params, .group :: fs, .operand⟩
  | .keyword .distinct =>
    match fs with
    | .call name false [] :: fs => ⟨params, .call name true [] :: fs, .operand⟩
    | fs => ⟨params, fs, .failed⟩
  | .closing =>
    -- A call without arguments.
    match fs with
    | .call name distinct [] :: fs => ⟨params, fs, .operator (M.call name distinct [])⟩
    | fs => ⟨params, fs, .failed⟩
  | _ => ⟨params, fs, .failed⟩

/-- The next token. -/
def step (M : Meaning α) (r : Reader α) (t : Token) : Reader α :=
  match r.mode with
  | .operand => atOperand M r.params r.frames t
  | .operator v => afterOperand M r.params r.frames v t
  | .named n =>
    match t with
    | .opening => ⟨r.params, .call n false [] :: r.frames, .operand⟩
    | .dot => ⟨r.params, r.frames, .qualified n⟩
    | t => afterOperand M r.params r.frames (M.column none n) t
  | .qualified relation =>
    match t with
    | .name n => ⟨r.params, r.frames, .operator (M.column (some relation) n)⟩
    | .quoted n => ⟨r.params, r.frames, .operator (M.column (some relation) n)⟩
    | _ => ⟨r.params, r.frames, .failed⟩
  | .is v negated =>
    match t with
    | .keyword .null => ⟨r.params, r.frames, .operator (M.isNull v negated)⟩
    | .keyword .not => ⟨r.params, r.frames, if negated then .failed else .is v true⟩
    | _ => ⟨r.params, r.frames, .failed⟩
  | .negated v =>
    match t with
    | .keyword .like => push M r.params r.frames v .notLike
    | .keyword .between =>
      let (fs, v) := reduce M membershipLevel r.frames v
      ⟨r.params, .between v true :: fs, .operand⟩
    | .keyword .among =>
      let (fs, v) := reduce M membershipLevel r.frames v
      ⟨r.params, fs, .among v true⟩
    | _ => ⟨r.params, r.frames, .failed⟩
  | .among v negated =>
    match t with
    | .opening => ⟨r.params, .among v negated [] :: r.frames, .operand⟩
    | _ => ⟨r.params, r.frames, .failed⟩
  | .failed => r

/-- The value at the end of the tokens, if nothing waits and every parameter has been read. -/
def finish (M : Meaning α) (r : Reader α) : Option α :=
  match r.mode, r.params with
  | .operator v, [] =>
    match reduce M 0 r.frames v with
    | ([], v) => some v
    | _ => none
  | .named n, [] =>
    match reduce M 0 r.frames (M.column none n) with
    | ([], v) => some v
    | _ => none
  | _, _ => none

/-- At the end all that waits is closed. -/
theorem finish_of_reduce {M : Meaning α} {frames : List (Frame α)} {v w : α}
    (h : reduce M 0 frames v = ([], w)) : finish M ⟨[], frames, .operator v⟩ = some w := by
  simp only [finish, h]

/-- The value at the end of a text. -/
def run (M : Meaning α) (style : ParamStyle) (r : Reader α) (cs : List Char) : Option α :=
  ((scan style cs).foldl (step M) r).finish M

end Reader

/-- The value that a text has, where `params` are bound to its placeholders in order. -/
def read (M : Meaning α) (style : ParamStyle) (text : String) (params : List BoundParam) :
    Option α :=
  Reader.run M style ⟨params, [], .operand⟩ text.toList

end SqlCompiler.Reading
