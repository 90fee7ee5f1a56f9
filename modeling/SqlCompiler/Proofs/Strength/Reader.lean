import Mathlib
import SqlCompiler.Proofs.Strength.Visible

/-!
# Reading operators

The operators of a text are read from what is visible of it. Runs of word characters and of
relational signs are lexemes, and so is any other sign (`lexemes`). A reader goes over them and
knows whether an operand or an operator is due (`Mode`), since a minus, a star and `NOT` mean
different things in either place, and how many `CASE` expressions are open, since nothing counts
inside them.

What reading a text does is found from its parts (`Passes.append`), as the parts meet in a character
that goes on with no lexeme (`isLoose`).
-/

namespace SqlCompiler.Strength

/-! ## Operators -/

/-- An operator of SQL. -/
inductive Operator where
  | or
  | and
  | not
  | is
  | comparison
  | between
  /-- `IN` and `LIKE`. -/
  | membership
  | concat
  | additive
  | multiplicative
  /-- A sign before its operand. -/
  | sign
  deriving DecidableEq

/-- How strong an operator binds. -/
def Operator.strength : Operator → Nat
  | .or => 2
  | .and => 3
  | .not => 4
  | .is => 5
  | .comparison => 6
  | .between | .membership => 7
  | .concat => 9
  | .additive => 10
  | .multiplicative => 11
  | .sign => 13

/-! ## Lexemes -/

/-- What a text is read from. -/
inductive Lexeme where
  /-- A name, a number, a placeholder, or a hidden character. -/
  | atom
  /-- A number that ends in the letter before its exponent. -/
  | mantissa
  /-- A sign or a word with an operand behind it, and no operator. -/
  | leading
  /-- A plus or a minus. -/
  | sign
  | star
  /-- An operator between operands. -/
  | operator (op : Operator)
  | not
  | is
  | caseStart
  | caseEnd
  deriving DecidableEq

/-- A character of comparisons and of concatenation. -/
def isRelational (c : Char) : Bool :=
  c == '=' || c == '<' || c == '>' || c == '|'

/-- A character that is no part of a longer lexeme. -/
def isSingle (c : Char) : Bool :=
  [',', '.', '+', '-', '*', '/', '%'].contains c || Text.isBlank c

/-- A character of a word. -/
def isWordChar (c : Char) : Bool :=
  !isRelational c && !isSingle c

/-- The words that are no operands, in lower case. -/
def reservedWords : List (String × Lexeme) :=
  [("and", .operator .and), ("or", .operator .or), ("between", .operator .between),
   ("in", .operator .membership), ("like", .operator .membership), ("not", .not), ("is", .is),
   ("distinct", .leading), ("from", .leading), ("when", .leading), ("then", .leading),
   ("else", .leading), ("case", .caseStart), ("end", .caseEnd)]

/-- A number that ends in the letter before its exponent. -/
def isMantissa (cs : List Char) : Bool :=
  cs.head?.any Char.isDigit && cs.getLast?.any fun c => c.toLower == 'e'

/-- The lexeme of a word. -/
def wordLexeme (cs : List Char) : Lexeme :=
  match reservedWords.find? fun w => w.1.toList == cs.map Char.toLower with
  | some w => w.2
  | none => if isMantissa cs then .mantissa else .atom

/-- The lexeme that a character is by itself. Blanks are none. -/
def singleLexeme? : Char → Option Lexeme
  | ',' => some .leading
  | '.' => some .leading
  | '+' => some .sign
  | '-' => some .sign
  | '*' => some .star
  | '/' => some (.operator .multiplicative)
  | '%' => some (.operator .multiplicative)
  | _ => none

/-- The lexeme of a run of marks. -/
def lexeme? : List (Option Char) → Option Lexeme
  | [] => none
  | none :: _ => some .atom
  | some c :: ms =>
    if isWordChar c then some (wordLexeme (c :: ms.reduceOption))
    else if isRelational c then
      some (.operator (if c :: ms.reduceOption = ['|', '|'] then .concat else .comparison))
    else singleLexeme? c

/-- Two marks that belong to one lexeme. -/
def joins : Option Char → Option Char → Bool
  | some c, some d => (isWordChar c && isWordChar d) || (isRelational c && isRelational d)
  | _, _ => false

/-- The lexemes of marks. -/
def lexemes (ms : List (Option Char)) : List Lexeme :=
  (ms.splitBy joins).filterMap lexeme?

/-- A mark that goes on with no lexeme. -/
def isLoose : Option Char → Bool
  | none => true
  | some c => !isWordChar c && !isRelational c

/-- A loose mark joins nothing behind it. -/
theorem joins_of_isLoose_left {m : Option Char} (h : isLoose m = true) (n : Option Char) :
    joins m n = false := by
  cases m with
  | none => rfl
  | some c =>
    obtain ⟨hword, hrelational⟩ := Bool.and_eq_true_iff.mp h
    rw [Bool.not_eq_true'] at hword hrelational
    cases n <;> simp [joins, hword, hrelational]

/-- A loose mark joins nothing before it. -/
theorem joins_of_isLoose_right {n : Option Char} (h : isLoose n = true) (m : Option Char) :
    joins m n = false := by
  cases n with
  | none => cases m <;> rfl
  | some c =>
    obtain ⟨hword, hrelational⟩ := Bool.and_eq_true_iff.mp h
    rw [Bool.not_eq_true'] at hword hrelational
    cases m <;> simp [joins, hword, hrelational]

/-- Two runs of marks that meet in a loose one are read one after the other. -/
theorem lexemes_append {ms ns : List (Option Char)}
    (h : ms.getLast?.all isLoose = true ∨ ns.head?.all isLoose = true) :
    lexemes (ms ++ ns) = lexemes ms ++ lexemes ns := by
  have hmeet : ∀ x ∈ ms.getLast?, ∀ y ∈ ns.head?, joins x y = false := by
    intro x hx y hy
    -- One of the two marks that meet is loose.
    obtain h | h := h
    · rw [hx] at h
      exact joins_of_isLoose_left h y
    · rw [hy] at h
      exact joins_of_isLoose_right h x
  rw [lexemes, List.splitBy_append hmeet, List.filterMap_append]
  rfl

/-- Hidden characters are operands. -/
theorem lexemes_replicate (n : Nat) :
    lexemes (List.replicate n none) = List.replicate n .atom := by
  induction n with
  | zero => rfl
  | succ n ih =>
    rw [List.replicate_succ, ← List.singleton_append, lexemes_append (.inl rfl), ih]
    rfl

/-- A word is one lexeme. -/
theorem lexemes_word {cs : List Char} (hne : cs ≠ []) (h : ∀ c ∈ cs, isWordChar c = true) :
    lexemes (cs.map some) = [wordLexeme cs] := by
  have hchain : (cs.map some).IsChain fun x y => joins x y = true := by
    refine (List.pairwise_of_forall_mem_list fun x hx y hy => ?_).isChain
    obtain ⟨c, hc, rfl⟩ := List.mem_map.mp hx
    obtain ⟨d, hd, rfl⟩ := List.mem_map.mp hy
    simp [joins, h c hc, h d hd]
  rw [lexemes, List.splitBy_of_isChain (by simpa using hne) hchain]
  obtain ⟨c, cs, rfl⟩ := List.exists_cons_of_ne_nil hne
  simp [lexeme?, h c List.mem_cons_self, List.reduceOption, List.filterMap_map]

/-! ## The reader -/

/-- What has been read last. -/
inductive Mode where
  /-- An operand is due. -/
  | operand
  /-- An operand has been read. -/
  | operator
  /-- `IS` has been read. -/
  | test
  /-- A number has been read up to the sign of its exponent. -/
  | exponent
  deriving DecidableEq

/-- What follows a lexeme, and the operator that it is. -/
def Lexeme.read : Mode → Lexeme → Mode × Option Operator
  | _, .mantissa => (.exponent, none)
  | _, .leading => (.operand, none)
  | .exponent, .sign => (.operand, none)
  | .operator, .sign => (.operand, some .additive)
  | _, .sign => (.operand, some .sign)
  | .operator, .star => (.operand, some .multiplicative)
  | _, .operator op => (.operand, some op)
  | .operand, .not => (.operand, some .not)
  | .test, .not => (.operand, none)
  | _, .is => (.test, some .is)
  -- A name or a star is an operand, and `NOT` behind an operand belongs to the next word.
  | _, _ => (.operator, none)

/-- A reader of lexemes. -/
structure Reader where
  /-- The number of `CASE` expressions that are open. -/
  cases : Nat
  /-- What has been read last. -/
  mode : Mode
  /-- The operators outside `CASE` expressions. -/
  found : List Operator
  deriving DecidableEq

/-- Reads one lexeme. -/
def Reader.step (r : Reader) : Lexeme → Reader
  | .caseStart => { r with cases := r.cases + 1, mode := .operand }
  | .caseEnd => { r with cases := r.cases - 1, mode := .operator }
  | l =>
    { r with
      mode := (l.read r.mode).1
      found := r.found ++ if r.cases = 0 then (l.read r.mode).2.toList else [] }

/-- Operands behind an operand change nothing. -/
theorem foldl_step_atoms (cases : Nat) (found : List Operator) (n : Nat) :
    (List.replicate n .atom).foldl Reader.step ⟨cases, .operator, found⟩
      = ⟨cases, .operator, found⟩ := by
  induction n with
  | zero => rfl
  | succ n ih => simpa [List.replicate_succ, Reader.step, Lexeme.read] using ih

/-- The operators of a text outside quotes, parentheses and `CASE` expressions. The `AND` that
belongs to `BETWEEN` is among them. -/
def operators (text : List Char) : List Operator :=
  ((lexemes (marks (.inside 0) text)).foldl Reader.step ⟨0, .operand, []⟩).found

/-- An operator that stands for itself: an `AND` does if there are more than `BETWEEN` takes. -/
def Counts (ops : List Operator) (op : Operator) : Prop :=
  op ∈ ops ∧ (op = .and → ops.count .between < ops.count .and)

instance (ops : List Operator) (op : Operator) : Decidable (Counts ops op) :=
  inferInstanceAs (Decidable (_ ∧ _))

/-! ## Reading a text -/

/-- Where the reader is in a text: inside parentheses, and after what has been read last. -/
structure Spot where
  depth : Nat
  mode : Mode

namespace Spot

/-- An operand is due. -/
abbrev due : Spot :=
  ⟨0, .operand⟩

/-- An operand has been read. -/
abbrev done : Spot :=
  ⟨0, .operator⟩

/-- Inside parentheses. -/
abbrev hidden : Spot :=
  ⟨1, .operator⟩

end Spot

/-- A text leads the reader from one spot to another, over some operators. They are found unless a
`CASE` expression is open. -/
structure Passes (a b : Spot) (ops : List Operator) (cs : List Char) : Prop where
  place : (Place.inside a.depth).after cs = .inside b.depth
  reads : ∀ cases found,
    (lexemes (marks (.inside a.depth) cs)).foldl Reader.step ⟨cases, a.mode, found⟩
      = ⟨cases, b.mode, found ++ if cases = 0 then ops else []⟩

/-- The text begins with a mark that goes on with no lexeme. -/
def StartsLoose (depth : Nat) (cs : List Char) : Prop :=
  (marks (.inside depth) cs).head?.any isLoose = true

/-- The text ends in a mark that goes on with no lexeme. -/
def EndsLoose (depth : Nat) (cs : List Char) : Prop :=
  (marks (.inside depth) cs).getLast?.any isLoose = true

instance (depth : Nat) (cs : List Char) : Decidable (StartsLoose depth cs) :=
  inferInstanceAs (Decidable (_ = true))

instance (depth : Nat) (cs : List Char) : Decidable (EndsLoose depth cs) :=
  inferInstanceAs (Decidable (_ = true))

/-- What holds of an option's value holds of all that there is. -/
theorem all_of_any {α : Type} {p : α → Bool} {x : Option α} (h : x.any p = true) :
    x.all p = true := by
  cases x with
  | none => rfl
  | some a => exact h

namespace Passes

variable {a b c : Spot} {xs ys ops : List Operator} {cs ds : List Char}

/-- A text that passes where an operand is due has the operators that are found. -/
theorem operators_eq (h : Passes .due b ops cs) : operators cs = ops := by
  have hreads := h.reads 0 []
  rw [operators, show Place.inside 0 = .inside Spot.due.depth from rfl]
  exact congrArg Reader.found hreads

/-- The empty text leaves the reader where it is. -/
theorem nil : Passes a a [] [] where
  place := rfl
  reads cases found := by simp [marks, lexemes]

/-- Reading one text and then another that it meets in a loose mark. -/
theorem append (hcs : Passes a b xs cs) (hds : Passes b c ys ds)
    (h : EndsLoose a.depth cs ∨ StartsLoose b.depth ds) : Passes a c (xs ++ ys) (cs ++ ds) where
  place := by rw [Place.after_append, hcs.place, hds.place]
  reads cases found := by
    have hmeet := h.imp (all_of_any (p := isLoose)) (all_of_any (p := isLoose))
    rw [marks_append, hcs.place, lexemes_append hmeet, List.foldl_append, hcs.reads, hds.reads]
    split <;> simp

/-- What matches its quotes and parentheses is passed over inside parentheses. -/
theorem of_crosses (h : Crosses 0 0 cs) : Passes .hidden .hidden [] cs where
  place := (hidden_of_crosses h).1
  reads cases found := by
    rw [show Spot.hidden.depth = 1 from rfl, (hidden_of_crosses h).2, lexemes_replicate]
    simpa using foldl_step_atoms cases found cs.length

end Passes

/-- A text starts loose if its first part does. -/
theorem startsLoose_append (depth : Nat) {cs : List Char} (h : StartsLoose depth cs)
    (ds : List Char) : StartsLoose depth (cs ++ ds) := by
  cases cs with
  | nil => cases h
  | cons c cs => exact h

/-- A text ends loose if its last part does. -/
theorem endsLoose_append {a b : Spot} {ops : List Operator} {cs ds : List Char}
    (hcs : Passes a b ops cs) (h : EndsLoose b.depth ds) : EndsLoose a.depth (cs ++ ds) := by
  unfold EndsLoose at h ⊢
  rw [marks_append, hcs.place, List.getLast?_append]
  cases hlast : (marks (.inside b.depth) ds).getLast? with
  | none =>
    rw [hlast] at h
    cases h
  | some m => rwa [hlast] at h

/-! ## Fixed texts -/

/-- The reader's way over lexemes outside `CASE` expressions. -/
def run : Mode → List Lexeme → Mode × List Operator
  | m, [] => (m, [])
  | m, l :: ls =>
    let (m', op) := l.read m
    let (m'', ops) := run m' ls
    (m'', op.toList ++ ops)

/-- The lexeme opens or closes a `CASE` expression. -/
def Lexeme.isCase : Lexeme → Bool
  | .caseStart => true
  | .caseEnd => true
  | _ => false

/-- A lexeme that opens and closes no case distinction counts only outside of one. -/
theorem step_of_not_isCase {l : Lexeme} (h : l.isCase = false) (cases : Nat) (m : Mode)
    (found : List Operator) :
    Reader.step ⟨cases, m, found⟩ l
      = ⟨cases, (l.read m).1, found ++ if cases = 0 then (l.read m).2.toList else []⟩ := by
  cases l with
  | caseStart => cases h
  | caseEnd => cases h
  | _ => rfl

/-- Lexemes that open and close no case distinction are read as by themselves. -/
theorem foldl_step_run {ls : List Lexeme} (h : ls.all (!·.isCase) = true) (cases : Nat) (m : Mode)
    (found : List Operator) :
    ls.foldl Reader.step ⟨cases, m, found⟩
      = ⟨cases, (run m ls).1, found ++ if cases = 0 then (run m ls).2 else []⟩ := by
  -- Lexeme by lexeme, in the mode that the ones before have left.
  induction ls generalizing m found with
  | nil => simp [run]
  | cons l ls ih =>
    simp only [List.all_cons, Bool.and_eq_true, Bool.not_eq_true'] at h
    rw [List.foldl_cons, step_of_not_isCase h.1, ih (by simpa using h.2), run]
    split <;> simp

/-- A text is read from one spot to another without a `CASE`. -/
structure FixedText (text : List Char) (a b : Spot) (ops : List Operator) : Prop where
  place : (Place.inside a.depth).after text = .inside b.depth
  plain : (lexemes (marks (.inside a.depth) text)).all (!·.isCase) = true
  run : run a.mode (lexemes (marks (.inside a.depth) text)) = (b.mode, ops)

/-- The fields of `FixedText` are tested by reading the text. -/
theorem fixedText_iff {text : List Char} {a b : Spot} {ops : List Operator} :
    (Place.inside a.depth).after text = .inside b.depth ∧
      (lexemes (marks (.inside a.depth) text)).all (!·.isCase) = true ∧
      Strength.run a.mode (lexemes (marks (.inside a.depth) text)) = (b.mode, ops)
      ↔ FixedText text a b ops :=
  ⟨fun h => ⟨h.1, h.2.1, h.2.2⟩, fun h => ⟨h.place, h.plain, h.run⟩⟩

instance (text : List Char) (a b : Spot) (ops : List Operator) :
    Decidable (FixedText text a b ops) :=
  decidable_of_iff _ fixedText_iff

/-- A fixed text passes as it was read. -/
theorem FixedText.passes {text : List Char} {a b : Spot} {ops : List Operator}
    (h : FixedText text a b ops) : Passes a b ops text where
  place := h.place
  reads cases found := by rw [foldl_step_run h.plain, h.run]

end SqlCompiler.Strength
