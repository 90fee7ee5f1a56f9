import Mathlib
import SqlCompiler.Proofs.Agreement.Pieces

/-!
# The number of columns of a counted query

The columns that a query exposes are read off its pieces: a list of projections by its commas,
`SELECT *` by the query that it selects from, and a query that numbers its rows by one column more.
A query with a row limit alone exposes the columns that it selects. With an offset it exposes the
row number too, whatever stands around it, so that it fits nowhere where the number of columns
matters.
-/

namespace SqlCompiler

/-! ## Reading a list of projections -/

/-- Where the reading of a list of projections stands. -/
structure ListState where
  /-- The parentheses that are open. -/
  depth : Nat
  /-- The columns that have begun. -/
  columns : Nat
  /-- The list has ended. -/
  ended : Bool

namespace ListState

/-- Reads a character: a comma outside parentheses begins a column, and a parenthesis that closes
what stands around the list ends it. -/
def char (s : ListState) (c : Char) : ListState :=
  if s.ended then s
  else if c = '(' then { s with depth := s.depth + 1 }
  else if c = ')' then
    if s.depth = 0 then { s with ended := true } else { s with depth := s.depth - 1 }
  else if c = ',' then if s.depth = 0 then { s with columns := s.columns + 1 } else s
  else s

/-- Reads a piece: outside parentheses the words of a clause or a set operator end the list. -/
def piece (s : ListState) : Piece → ListState
  | .sql text =>
    if s.depth = 0 ∧ text ∈ clauseTexts then { s with ended := true } else text.toList.foldl char s
  | _ => s

/-- Reads pieces. -/
def read (s : ListState) (ps : List Piece) : ListState :=
  ps.foldl piece s

/-- Of two lists of pieces, the second is read in the state that the first leaves. -/
theorem read_append (s : ListState) (ps qs : List Piece) :
    s.read (ps ++ qs) = (s.read ps).read qs :=
  List.foldl_append

/-- Behind the end of the list no character is read. -/
theorem foldl_char_of_ended {s : ListState} (h : s.ended = true) (cs : List Char) :
    cs.foldl char s = s := by
  induction cs with
  | nil => rfl
  | cons c cs ih =>
    have hchar : s.char c = s := by
      unfold char
      rw [if_pos h]
    rw [List.foldl_cons, hchar]
    exact ih

/-- After its end a list does not change. -/
theorem read_of_ended {s : ListState} (h : s.ended = true) (ps : List Piece) : s.read ps = s := by
  induction ps with
  | nil => rfl
  | cons p ps ih =>
    have hpiece : s.piece p = s := by
      -- Only fixed texts are read at all.
      cases p with
      | sql text =>
        rw [piece]
        split
        · obtain ⟨depth, columns, ended⟩ := s
          rw [show ended = true from h]
        · exact foldl_char_of_ended h _
      | _ => rfl
    rw [read, List.foldl_cons, hpiece]
    exact ih

end ListState

/-- The number of columns that a query exposes. -/
def columns : List Piece → Option Nat
  | .sql text :: ps =>
    if text = "SELECT * FROM (" then columns ps
    else if text = "SELECT * FROM (SELECT raw_sql_.*, rownum raw_rnum_ FROM (" then
      (columns ps).map (· + 1)
    else if text = "SELECT " ∨ text = "SELECT DISTINCT " then
      some (ListState.read ⟨0, 1, false⟩ ps).columns
    else none
  | _ => none

/-! ## Expressions are items of a list -/

/-- Inside any number of further parentheses, the pieces lead from depth `i` to depth `j` and belong
to one column. -/
def OneColumn (i j : Nat) (ps : List Piece) : Prop :=
  ∀ depth n, ListState.read ⟨depth + i, n, false⟩ ps = ⟨depth + j, n, false⟩

/-- Characters whose parentheses lead from `i` to `j` are read as part of one column. -/
theorem foldl_char_of_nest {cs : List Char} {i j : Nat} (h : cs.foldl nest (some i) = some j)
    (depth n : Nat) :
    cs.foldl ListState.char ⟨depth + i, n, false⟩ = ⟨depth + j, n, false⟩ := by
  refine foldl_of_nest (fun i => ListState.mk (depth + i) n false) (fun {i k c} hk => ?_) h
  obtain ⟨rfl, rfl⟩ | ⟨rfl, rfl⟩ | ⟨rfl, hpos, rfl⟩ | ⟨hopen, hclose, hcomma, rfl⟩ :=
    nest_inversion hk
  · rfl
  · rfl
  · simp [ListState.char, Nat.ne_of_gt hpos]
  · simp [ListState.char, hopen, hclose, hcomma]

/-- Everything that the grammar emits for an expression belongs to one column. -/
theorem pieceLaw_oneColumn (style : ParamStyle) : PieceLaw style OneColumn where
  nil _ _ := rfl
  sql text i j h depth n := by
    -- A word of a clause ends the list only outside parentheses, where it does not fit.
    have hword : ¬ (depth + i = 0 ∧ text ∈ clauseTexts) := by
      rintro ⟨hi, hmem⟩
      exact h.2 (by omega) hmem
    show ListState.piece ⟨depth + i, n, false⟩ (.sql text) = _
    rw [ListState.piece, if_neg hword]
    exact foldl_char_of_nest h.1 depth n
  verbatim _ _ _ := rfl
  ident _ _ _ := rfl
  string _ _ _ := rfl
  param _ _ _ _ _ := rfl
  append hp hq depth n := by rw [ListState.read_append, hp depth n, hq depth n]
  lift {i j ps} h depth n := by
    have hlift := h (depth + 1) n
    rwa [Nat.add_assoc, Nat.add_comm 1, Nat.add_assoc, Nat.add_comm 1] at hlift

/-- A list has as many columns as items. -/
theorem read_join {es : List Emission} (hes : ∀ e ∈ es, Yields OneColumn 0 0 e e) (hne : es ≠ [])
    {ps : List Piece} (h : (Emission.join ", " es).outcome = .ok ps) (n : Nat) :
    ListState.read ⟨0, n, false⟩ ps = ⟨0, n + (es.length - 1), false⟩ := by
  induction es generalizing ps n with
  | nil => exact absurd rfl hne
  | cons e es ih =>
    -- Each further item has a comma before it, which counts one column more.
    cases es with
    | nil => exact hes e List.mem_cons_self ps h 0 n
    | cons e' es =>
      obtain ⟨p, q, hp, hq, rfl⟩ := Emission.outcome_append_ok h
      obtain ⟨q', hq', rfl⟩ := Emission.outcome_sql_append_ok hq
      have hfirst : ListState.read ⟨0, n, false⟩ p = ⟨0, n, false⟩ :=
        hes e List.mem_cons_self p hp 0 n
      have hcomma : ListState.read ⟨0, n, false⟩ [.sql ", "] = ⟨0, n + 1, false⟩ := rfl
      have hrest := ih (fun x hx => hes x (List.mem_cons_of_mem e hx)) (List.cons_ne_nil e' es) hq'
        (n + 1)
      rw [ListState.read_append, hfirst, ← List.singleton_append, ListState.read_append, hcomma,
        hrest]
      simp only [List.length_cons]
      congr 1
      omega

/-! ## What follows a list -/

/-- After a list, the pieces end it. -/
def Ends (ps : List Piece) : Prop :=
  ∀ n, ListState.read ⟨0, n, false⟩ ps = ⟨0, n, true⟩

/-- After a list, the pieces belong to its last column or end it. -/
def Follows (ps : List Piece) : Prop :=
  ∀ n, ∃ ended, ListState.read ⟨0, n, false⟩ ps = ⟨0, n, ended⟩

/-- What ends the list may follow it. -/
theorem Ends.follows {ps : List Piece} (h : Ends ps) : Follows ps :=
  fun n => ⟨true, h n⟩

/-- What comes after the end of a list does not matter. -/
theorem Ends.append {ps : List Piece} (h : Ends ps) (qs : List Piece) : Ends (ps ++ qs) := by
  intro n
  rw [ListState.read_append, h n]
  exact ListState.read_of_ended rfl qs

/-- The word of a clause or a set operator ends the list. -/
theorem ends_word {word : String} (h : word ∈ clauseTexts) : Ends [.sql word] := by
  intro n
  show ListState.piece ⟨0, n, false⟩ (.sql word) = _
  rw [ListState.piece, if_pos ⟨rfl, h⟩]

/-- A parenthesis that closes what stands around the list ends it. -/
theorem ends_closing {text : String} (h : text.toList.head? = some ')')
    (hword : text ∉ clauseTexts) : Ends [.sql text] := by
  intro n
  obtain ⟨cs, hcs⟩ : ∃ cs, text.toList = ')' :: cs := List.head?_eq_some_iff.mp h
  show ListState.piece ⟨0, n, false⟩ (.sql text) = _
  rw [ListState.piece, if_neg fun h => hword h.2, hcs, List.foldl_cons]
  exact ListState.foldl_char_of_ended rfl cs

namespace Follows

/-- Nothing may follow a list. -/
theorem nil : Follows [] :=
  fun _ => ⟨false, rfl⟩

/-- What may follow a list may do so one after the other. -/
theorem append {ps qs : List Piece} (hp : Follows ps) (hq : Follows qs) : Follows (ps ++ qs) := by
  intro n
  obtain ⟨ended, hread⟩ := hp n
  rw [ListState.read_append, hread]
  cases ended with
  | false => exact hq n
  | true => exact ⟨true, ListState.read_of_ended rfl qs⟩

/-- A text whose parentheses match may follow a list. -/
theorem of_fits {text : String} (h : Fits text 0 0) : Follows [.sql text] :=
  fun n => ⟨false, (pieceLaw_oneColumn .inline).sql text 0 0 h 0 n⟩

/-- What is emitted after a word of a clause follows a list. -/
theorem of_word {word : String} (h : word ∈ clauseTexts) {e : Emission} {ps : List Piece}
    (he : (Emission.sql word ++ e).outcome = .ok ps) : Follows ps := by
  obtain ⟨q, -, rfl⟩ := Emission.outcome_sql_append_ok he
  exact ((ends_word h).append q).follows

/-- A clause may follow a list, as its word ends it. -/
theorem clause {word : String} (h : word ∈ clauseTexts) {items : List Emission}
    {ps : List Piece} (he : (Emission.clause word ", " items).outcome = .ok ps) : Follows ps := by
  unfold Emission.clause at he
  split at he
  · obtain rfl := Except.ok.inj he
    exact nil
  · exact of_word h he

/-- A clause of conditions may follow a list, as its word ends it. -/
theorem conditions {word : String} (h : word ∈ clauseTexts) {rs : List Rendered}
    {ps : List Piece} (he : (SqlCompiler.conditions word rs).outcome = .ok ps) : Follows ps := by
  unfold SqlCompiler.conditions at he
  split at he
  · obtain rfl := Except.ok.inj he
    exact nil
  · exact of_word h he

/-- A set operator ends the list before it. -/
theorem setOperator {s : Settings} {op : SetOperator} {e : Emission} {ps : List Piece}
    (h : (Emission.sql " " ++ op.emit s ++ Emission.sql " " ++ e).outcome = .ok ps) :
    Follows ps := by
  obtain ⟨p₁, tail, h₁, -, rfl⟩ := Emission.outcome_append_ok h
  obtain ⟨p₂, h₂, rfl⟩ := Emission.outcome_append_sql_ok h₁
  obtain ⟨word, hword, rfl⟩ := Emission.outcome_sql_append_ok h₂
  have hends : Ends word := by
    unfold SetOperator.emit at hword
    -- Two operators are refused, and the words of all others end the list.
    split at hword
    · cases hword
    · cases hword
    · obtain rfl := Except.ok.inj hword
      exact ends_word (by decide)
    · obtain rfl := Except.ok.inj hword
      refine ends_word ?_
      cases op.kind <;> cases op.all <;> decide
  rw [List.append_assoc]
  exact (of_fits (by decide)).append (hends.append _).follows

/-- The cores after the first may follow a list, as a set operator ends it. -/
theorem laterCores {s : Settings} {index : Nat} {cs : List CoreParts} {ps : List Piece}
    (h : (SqlCompiler.laterCores s index cs).outcome = .ok ps) : Follows ps := by
  induction cs generalizing index ps with
  | nil =>
    obtain rfl := Except.ok.inj h
    exact nil
  | cons c cs ih =>
    obtain ⟨p, q, hp, hq, rfl⟩ := Emission.outcome_append_ok h
    refine append ?_ (ih hq)
    cases hop : c.setOp with
    | none =>
      rw [hop] at hp
      cases hp
    | some op =>
      rw [hop] at hp
      exact setOperator hp

end Follows

/-! ## Queries -/

/-- Every core selects `n` columns. -/
def QueryParts.Selects (q : QueryParts) (n : Nat) : Prop :=
  ∀ c ∈ q.cores, c.projections.length = n ∧ ∀ e ∈ c.projections, Yields OneColumn 0 0 e e

/-- A core exposes its projections. -/
theorem CoreParts.columns_emit {c : CoreParts} {n : Nat} (hn : 0 < n)
    (hlength : c.projections.length = n) (hc : ∀ e ∈ c.projections, Yields OneColumn 0 0 e e)
    {ps : List Piece} (h : c.emit.outcome = .ok ps) {rest : List Piece} (hrest : Follows rest) :
    columns (ps ++ rest) = some n := by
  have hne : c.projections ≠ [] := by
    rw [← List.length_pos_iff, hlength]
    exact hn
  obtain ⟨p₁, havings, h₁, hhavings, rfl⟩ := Emission.outcome_append_ok h
  obtain ⟨p₂, groups, h₂, hgroups, rfl⟩ := Emission.outcome_append_ok h₁
  obtain ⟨p₃, wheres, h₃, hwheres, rfl⟩ := Emission.outcome_append_ok h₂
  obtain ⟨p₄, source, h₄, hsource, rfl⟩ := Emission.outcome_append_ok h₃
  obtain ⟨word, list, hword, hlist, rfl⟩ := Emission.outcome_append_ok h₄
  -- Whatever clauses there are, the first one ends the list of projections.
  have hfollows : Follows (source ++ (wheres ++ (groups ++ (havings ++ rest)))) := by
    refine Follows.append ?_ ((Follows.conditions (by decide) hwheres).append
      ((Follows.clause (by decide) hgroups).append
        ((Follows.conditions (by decide) hhavings).append hrest)))
    cases hs : c.source with
    | none =>
      rw [hs] at hsource
      obtain rfl := Except.ok.inj hsource
      exact Follows.nil
    | some e =>
      rw [hs] at hsource
      exact Follows.of_word (by decide) hsource
  rw [List.isEmpty_eq_false_iff.mpr hne] at hlist
  have hread := read_join hc hne hlist 1
  obtain ⟨ended, htail⟩ := hfollows (1 + (c.projections.length - 1))
  have hcolumns : (ListState.read ⟨0, 1, false⟩
      (list ++ (source ++ (wheres ++ (groups ++ (havings ++ rest)))))).columns = n := by
    rw [ListState.read_append, hread, htail]
    show 1 + (c.projections.length - 1) = n
    omega
  obtain rfl := Except.ok.inj hword
  simp only [List.append_assoc, List.cons_append, List.nil_append]
  rw [columns]
  cases c.distinct with
  | false => exact congrArg some hcolumns
  | true => exact congrArg some hcolumns

namespace QueryParts

/-- A query in standard form without row bounds exposes what its first core selects. -/
theorem columns_standard {s : Settings} {q : QueryParts} {n : Nat} (hn : 0 < n) (hq : q.Selects n)
    (hlimit : q.limit = none) (hoffset : q.offset = none) {ps : List Piece}
    (h : (q.standard s).outcome = .ok ps) {rest : List Piece} (hrest : Follows rest) :
    columns (ps ++ rest) = some n := by
  obtain ⟨p₁, lock, h₁, hlock, rfl⟩ := Emission.outcome_append_ok h
  obtain ⟨p₂, bounds, h₂, hbounds, rfl⟩ := Emission.outcome_append_ok h₁
  obtain ⟨cores, orders, hcores, horders, rfl⟩ := Emission.outcome_append_ok h₂
  have hlockFollows : Follows lock := by
    cases hl : q.lock with
    | none =>
      rw [hl] at hlock
      obtain rfl := Except.ok.inj hlock
      exact Follows.nil
    | some l =>
      rw [hl] at hlock
      obtain rfl := Except.ok.inj hlock
      refine Follows.of_fits ?_
      cases l <;> decide
  -- Without bounds no clause for them is written.
  have hnone : bounds = [] := by
    rw [hlimit, hoffset] at hbounds
    unfold emitBounds at hbounds
    split at hbounds
    · exact (Except.ok.inj hbounds).symm
    · exact (Except.ok.inj hbounds).symm
  subst hnone
  cases hc : q.cores with
  | nil =>
    rw [hc] at hcores
    cases hcores
  | cons c cs =>
    rw [hc] at hcores
    obtain ⟨core, later, hcore, hlater, rfl⟩ := Emission.outcome_append_ok hcores
    obtain ⟨hlength, hproj⟩ := hq c (by rw [hc]; exact List.mem_cons_self)
    have hfollows : Follows (later ++ (orders ++ ([] ++ (lock ++ rest)))) :=
      (Follows.laterCores hlater).append ((Follows.clause (by decide) horders).append
        (hlockFollows.append hrest))
    simp only [List.append_assoc]
    -- The first core has no operator, and its columns are those of the query.
    cases hop : c.setOp with
    | some op =>
      rw [hop] at hcore
      cases hcore
    | none =>
      rw [hop] at hcore
      exact CoreParts.columns_emit hn hlength hproj hcore hfollows

/-- In parentheses after `front`, a query without its row bounds exposes what its first core
selects. -/
theorem columns_enclosed {s : Settings} {q : QueryParts} {n : Nat} (hn : 0 < n) (hq : q.Selects n)
    {m : Note} {front closing : String} {tail : Emission} {ps : List Piece}
    (hclosing : closing.toList.head? = some ')') (hword : closing ∉ clauseTexts)
    (h : (Emission.note m ++ (Emission.sql front ++ (q.unbounded.standard s
      ++ (Emission.sql closing ++ tail)))).outcome = .ok ps) :
    ∃ rest, ps = .sql front :: rest ∧ columns rest = some n := by
  rw [Emission.outcome_note_append] at h
  obtain ⟨p₁, h₁, rfl⟩ := Emission.outcome_sql_append_ok h
  obtain ⟨inner, p₂, hinner, h₂, rfl⟩ := Emission.outcome_append_ok h₁
  obtain ⟨last, -, rfl⟩ := Emission.outcome_sql_append_ok h₂
  have hrest : Follows ([.sql closing] ++ last) :=
    ((ends_closing hclosing hword).append last).follows
  exact ⟨_, rfl, columns_standard (q := q.unbounded) hn hq rfl rfl hinner hrest⟩

/-- A query around another exposes its columns, and the row number if there is an offset. -/
theorem columns_wrapped {s : Settings} {q : QueryParts} {n : Nat} (hn : 0 < n) (hq : q.Selects n)
    {ps : List Piece} (h : (q.wrapped s).outcome = .ok ps) :
    columns ps = some (if q.offset.isSome then n + 1 else n) := by
  unfold wrapped at h
  -- Only the forms with an offset number the rows in a column.
  cases hl : q.limit with
  | none =>
    cases ho : q.offset with
    | none =>
      rw [hl, ho] at h
      have hcolumns := columns_standard hn hq hl ho h Follows.nil
      rwa [List.append_nil] at hcolumns
    | some offset =>
      simp only [hl, ho, Emission.append_assoc] at h
      obtain ⟨rest, rfl, hrest⟩ := columns_enclosed hn hq (by decide) (by decide) h
      rw [columns, if_neg (by decide), if_pos rfl, hrest]
      rfl
  | some limit =>
    cases ho : q.offset with
    | none =>
      simp only [hl, ho, Emission.append_assoc] at h
      obtain ⟨rest, rfl, hrest⟩ := columns_enclosed hn hq (by decide) (by decide) h
      rw [columns, if_pos rfl, hrest]
      rfl
    | some offset =>
      simp only [hl, ho, Emission.append_assoc] at h
      obtain ⟨rest, rfl, hrest⟩ := columns_enclosed hn hq (by decide) (by decide) h
      rw [columns, if_neg (by decide), if_pos rfl, hrest]
      rfl

/-- A limit as a condition leaves the projections as they are. -/
theorem Selects.pushLimit {q : QueryParts} {n : Nat} (h : q.Selects n) (limit : Rendered) :
    (q.pushLimit limit).Selects n := by
  intro c hc
  obtain ⟨c, hmem, rfl⟩ := List.mem_map.mp hc
  exact h c hmem

/-- Where rows are counted, a query exposes the columns that it selects, and with an offset the row
number too. -/
theorem columns_byRowNumber {s : Settings} {q : QueryParts} {n : Nat} (hn : 0 < n)
    (hq : q.Selects n) {ps : List Piece} (h : (q.byRowNumber s).outcome = .ok ps) :
    columns ps = some (if q.offset.isSome then n + 1 else n) := by
  -- A locked query is refused before it is wrapped.
  have hwrapped : (if q.lock.isSome then .fail (.lockedEmulation s.dialect)
      else q.wrapped s : Emission).outcome = .ok ps →
      columns ps = some (if q.offset.isSome then n + 1 else n) := by
    intro h
    split at h
    · cases h
    · exact columns_wrapped hn hq h
  obtain ⟨_, -, h₁⟩ := Traced.outcome_bind_ok h
  obtain ⟨_, -, h₂⟩ := Traced.outcome_bind_ok h₁
  cases hl : q.limit with
  | none =>
    cases ho : q.offset with
    | none =>
      simp only [hl, ho] at h₂
      have hcolumns := columns_standard hn hq hl ho h₂ Follows.nil
      rwa [List.append_nil] at hcolumns
    | some offset =>
      simp only [hl, ho] at h₂
      rw [ho] at hwrapped
      exact hwrapped h₂
  | some limit =>
    cases ho : q.offset with
    | none =>
      simp only [hl, ho] at h₂
      rw [ho] at hwrapped
      split at h₂
      · rw [Emission.outcome_note_append] at h₂
        have hcolumns := columns_standard hn (hq.pushLimit limit) rfl ho h₂ Follows.nil
        rwa [List.append_nil] at hcolumns
      · exact hwrapped h₂
    | some offset =>
      simp only [hl, ho] at h₂
      rw [ho] at hwrapped
      exact hwrapped h₂

end QueryParts

/-- Expressions are emitted one by one. -/
theorem length_emitEach (s : Settings) (es : List Expr) : (emitEach s es).length = es.length := by
  induction es with
  | nil => rfl
  | cons e es ih => rw [emitEach, List.length_cons, List.length_cons, ih]

/-- The parts of a query select as many columns as the query. -/
theorem Select.selects_parts {s : Settings} {q : Select} {n : Nat}
    (h : ∀ c ∈ q.cores, c.projections.length = n) : (q.parts s).Selects n := by
  show ∀ c ∈ emitCores s q.cores, _
  generalize q.cores = cores at h
  induction cores with
  | nil =>
    intro c hc
    cases hc
  | cons c cs ih =>
    obtain ⟨setOp, distinct, projections, source, wheres, groups, havings⟩ := c
    rw [emitCores]
    refine List.forall_mem_cons.mpr ⟨⟨?_, ?_⟩, ih fun c hc => h c (List.mem_cons_of_mem _ hc)⟩
    · rw [length_emitEach]
      exact h _ List.mem_cons_self
    · exact (pieceLaw_oneColumn s.paramStyle).each projections

/-- For Oracle with counted rows, a query exposes the columns that it selects, and with an offset
the row number too. -/
theorem Select.columns_emit {s : Settings} (hd : s.dialect = .oracle)
    (hp : s.capabilities.pagination = .rowNumber) {q : Select} {n : Nat} (hn : 0 < n)
    (hq : ∀ c ∈ q.cores, c.projections.length = n) {ps : List Piece}
    (h : (q.emit s).outcome = .ok ps) :
    columns ps = some (if q.offset.isSome then n + 1 else n) := by
  rw [Select.emit_oracle hd] at h
  obtain ⟨t, ht, hps⟩ := Traced.outcome_bind_ok h
  obtain ⟨orders, rfl⟩ := QueryParts.orderedByAlias_ok ht
  rw [QueryParts.oracle_of_rowNumber hp] at hps
  -- Ordering by aliases leaves the projections alone.
  have hselects : QueryParts.Selects { q.parts s with orders } n := Select.selects_parts hq
  have hoffset : (q.parts s).offset.isSome = q.offset.isSome := by
    show (renderedOption q.offset (emitOption s q.offset)).isSome = _
    cases q.offset with
    | none => rfl
    | some e => rfl
  rw [← hoffset]
  exact QueryParts.columns_byRowNumber hn hselects hps

/-! ## Subqueries -/

namespace Statement

/-- The table and the choice of rows of a statement that changes rows. -/
def rows? : Statement → Option (TableRef × RowChoice)
  | .select _ => none
  | .update u => some (u.relation, u.rows)
  | .delete d => some (d.relation, d.rows)

/-- What stands before the choice of rows. -/
def front (s : Settings) : Statement → Emission
  | .select _ => .empty
  | .update u =>
    .sql "UPDATE " ++ u.relation.emit ++ .sql " SET " ++ .join ", " (u.assignments.map (·.emit s))
  | .delete d => .sql "DELETE FROM " ++ d.relation.emit

/-- A statement that Oracle is given chooses its rows without an ordering. There was none with a
limit, and row bounds come with a key. -/
theorem emit_ok {s : Settings} (hd : s.dialect = .oracle) {st : Statement} {relation : TableRef}
    {r : RowChoice} (hst : st.rows? = some (relation, r)) {ps : List Piece}
    (h : (st.emit s).outcome = .ok ps) :
    ∃ front rest, (st.front s).outcome = .ok front ∧
      (r.unordered.emit s relation).outcome = .ok rest ∧ ps = front ++ rest ∧
      (r.orders = [] ∨ r.limit = none) ∧ (r.limit.isSome ∨ r.offset.isSome → r.key.isSome) := by
  cases st with
  | select q => cases hst
  | update u =>
    obtain ⟨rfl, rfl⟩ := Prod.mk.inj (Option.some.inj hst)
    obtain ⟨rows, hrows, hps⟩ := Traced.outcome_bind_ok h
    obtain ⟨rfl, horders, hkey⟩ := RowChoice.admitted_ok hd hrows
    split at hps
    · cases hps
    · obtain ⟨front, rest, hfront, hrest, rfl⟩ := Emission.outcome_append_ok hps
      exact ⟨front, rest, hfront, hrest, rfl, horders, hkey⟩
  | delete d =>
    obtain ⟨rfl, rfl⟩ := Prod.mk.inj (Option.some.inj hst)
    obtain ⟨rows, hrows, hps⟩ := Traced.outcome_bind_ok h
    obtain ⟨rfl, horders, hkey⟩ := RowChoice.admitted_ok hd hrows
    obtain ⟨front, rest, hfront, hrest, rfl⟩ := Emission.outcome_append_ok hps
    exact ⟨front, rest, hfront, hrest, rfl, horders, hkey⟩

end Statement

/-- The emission holds the query in parentheses, where the number of its columns matters: in a
membership test, as a value, or to choose rows by their key. -/
inductive HoldsQuery (s : Settings) : Emission → Select → Prop where
  | membership (a : Expr) (q : Select) (negated : Bool) :
      HoldsQuery s ((Expr.inSubquery a q negated).emit s) q
  | scalar (q : Select) : HoldsQuery s ((Expr.subquery q).emit s) q
  | change {st : Statement} {relation : TableRef} {r : RowChoice} {key : Expr}
      (hst : st.rows? = some (relation, r)) (hkey : r.key = some key)
      (hneeds : r.unordered.needsSubselect = true) :
      HoldsQuery s (st.emit s) (r.unordered.subselect relation key)

/-- The pieces end with a query in parentheses. -/
def EndsWithQuery (ps inner : List Piece) : Prop :=
  ∃ front, ∃ word ∈ ["(", " IN (", " NOT IN ("], ps = front ++ (.sql word :: (inner ++ [.sql ")"]))

/-- Pieces in front do not change what stands in the parentheses at the end. -/
theorem EndsWithQuery.append {ps inner : List Piece} (h : EndsWithQuery ps inner)
    (front : List Piece) : EndsWithQuery (front ++ ps) inner := by
  obtain ⟨front', word, hword, rfl⟩ := h
  exact ⟨front ++ front', word, hword, (List.append_assoc _ _ _).symm⟩

/-- What an emission in parentheses yields stands in parentheses at the end. -/
theorem endsWithQuery_of_outcome {a e : Emission} {word : String}
    (hword : word ∈ ["(", " IN (", " NOT IN ("]) {ps : List Piece}
    (h : (a ++ Emission.sql word ++ e ++ Emission.sql ")").outcome = .ok ps) :
    ∃ inner, e.outcome = .ok inner ∧ EndsWithQuery ps inner := by
  obtain ⟨p₁, h₁, rfl⟩ := Emission.outcome_append_sql_ok h
  obtain ⟨p₂, inner, h₂, hinner, rfl⟩ := Emission.outcome_append_ok h₁
  obtain ⟨front, -, rfl⟩ := Emission.outcome_append_sql_ok h₂
  refine ⟨inner, hinner, front, word, hword, ?_⟩
  rw [List.append_assoc, List.append_assoc]
  rfl

/-- Rows that are chosen by a key are chosen by a test of the key against a query. -/
theorem RowChoice.emit_keyed {s : Settings} {relation : TableRef} {r : RowChoice} {key : Expr}
    (hkey : r.key = some key) (hneeds : r.needsSubselect = true) :
    r.emit s relation
      = Emission.sql " WHERE " ++ key.emit s ++ Emission.sql " IN ("
        ++ (r.subselect relation key).emit s ++ Emission.sql ")" := by
  simp only [RowChoice.emit, hkey, if_pos hneeds]

/-- Rows that are chosen by a key are chosen by a query in parentheses. -/
theorem RowChoice.endsWithQuery {s : Settings} {relation : TableRef} {r : RowChoice} {key : Expr}
    (hkey : r.key = some key) (hneeds : r.needsSubselect = true) {ps : List Piece}
    (h : (r.emit s relation).outcome = .ok ps) :
    ∃ inner, ((r.subselect relation key).emit s).outcome = .ok inner ∧ EndsWithQuery ps inner := by
  rw [emit_keyed hkey hneeds] at h
  exact endsWithQuery_of_outcome (by decide) h

/-- What holds a query ends with the query in parentheses. -/
theorem HoldsQuery.endsWithQuery {s : Settings} (hd : s.dialect = .oracle) {e : Emission}
    {q : Select} (hq : HoldsQuery s e q) {ps : List Piece} (h : e.outcome = .ok ps) :
    ∃ inner, (q.emit s).outcome = .ok inner ∧ EndsWithQuery ps inner := by
  -- A membership test, a query for one value, or the filter of a change.
  cases hq with
  | membership a q negated =>
    cases negated with
    | false => exact endsWithQuery_of_outcome (by decide) h
    | true => exact endsWithQuery_of_outcome (by decide) h
  | scalar q =>
    have hparens : (Emission.empty ++ Emission.sql "(" ++ q.emit s ++ Emission.sql ")").outcome
        = .ok ps := by
      rw [Emission.empty_append]
      exact h
    exact endsWithQuery_of_outcome (by decide) hparens
  | @change st relation r key hst hkey hneeds =>
    obtain ⟨front, rest, -, hrest, rfl, -⟩ := Statement.emit_ok hd hst h
    obtain ⟨inner, hinner, hends⟩ := RowChoice.endsWithQuery (r := r.unordered) hkey hneeds hrest
    exact ⟨inner, hinner, hends.append front⟩

/-- For Oracle with counted rows, the query that a membership test, a value or a choice of rows by
key holds in parentheses exposes the `n` columns that each of its cores selects if it has no offset,
and one column more if it has one. -/
theorem columns_subquery {s : Settings} (hd : s.dialect = .oracle)
    (hp : s.capabilities.pagination = .rowNumber) {e : Emission} {q : Select}
    (he : HoldsQuery s e q) {n : Nat} (hn : 0 < n)
    (hq : ∀ c ∈ q.cores, c.projections.length = n) {ps : List Piece} (h : e.outcome = .ok ps) :
    ∃ inner, (q.emit s).outcome = .ok inner ∧ EndsWithQuery ps inner ∧
      columns inner = some (if q.offset.isSome then n + 1 else n) ∧
      (columns inner = some n ↔ q.offset = none) := by
  obtain ⟨inner, hinner, hends⟩ := he.endsWithQuery hd h
  have hcolumns := Select.columns_emit hd hp hn hq hinner
  refine ⟨inner, hinner, hends, hcolumns, ?_⟩
  rw [hcolumns]
  -- One column too many is what the offset adds.
  cases q.offset with
  | none => exact iff_of_true rfl rfl
  | some offset =>
    refine iff_of_false (fun hsome => ?_) (fun hnone => by cases hnone)
    have hcount : n + 1 = n := Option.some.inj hsome
    omega

/-- Two cores of two columns each, the first column a call with two arguments: with a limit the
value has two columns, and with an offset it has three. -/
theorem columns_subquery_of_union :
    let s : Settings := Options.choices { target := ⟨some .oracle⟩ }
    let first : Select := .fromTable "t" [.call "coalesce" [.col "a", .col "b"], .col "c"]
    let q : Select :=
      (first.combine .union false (.fromTable "u" [.col "d", .col "e"])).withLimit (.int 5)
    (∃ inner, (q.emit s).outcome = .ok inner ∧ columns inner = some 2) ∧
    ∃ inner, ((q.withOffset (.int 2)).emit s).outcome = .ok inner ∧ columns inner = some 3 := by
  intro s first q
  have hcores : ∀ c ∈ q.cores, c.projections.length = 2 := by
    intro c hc
    obtain rfl | hc := List.mem_cons.mp hc
    · rfl
    · obtain rfl := List.mem_singleton.mp hc
      rfl
  obtain ⟨ps, hps⟩ : ∃ ps, ((Expr.subquery q).emit s).outcome = .ok ps := ⟨_, rfl⟩
  obtain ⟨ps', hps'⟩ : ∃ ps, ((Expr.subquery (q.withOffset (.int 2))).emit s).outcome = .ok ps :=
    ⟨_, rfl⟩
  constructor
  · obtain ⟨inner, hinner, -, hcolumns, -⟩ :=
      columns_subquery rfl rfl (.scalar q) (by decide) hcores hps
    exact ⟨inner, hinner, hcolumns⟩
  · obtain ⟨inner, hinner, -, hcolumns, -⟩ :=
      columns_subquery rfl rfl (.scalar (q.withOffset (.int 2))) (by decide) hcores hps'
    exact ⟨inner, hinner, hcolumns⟩

set_option maxRecDepth 2000 in
/-- A membership test in a query of one column with an offset is a test in a query of two. -/
theorem not_one_column_of_offset :
    let o : Options := { format := false, target := ⟨some .oracle⟩, signatureComment := false }
    let q : Select := (Select.fromTable "u" [.col "b"]).withOffset (.int 1)
    (compile o (.select ((Select.fromTable "t" [.col "a"]).withWhere
        (.inSubquery (.col "a") q false)))).outcome
      = .ok ⟨"SELECT a FROM t WHERE a IN (SELECT * FROM (SELECT raw_sql_.*, rownum raw_rnum_ FROM "
          ++ "(SELECT b FROM u) raw_sql_) WHERE raw_rnum_ > 1)", []⟩ ∧
    ∃ inner, (q.emit o.choices).outcome = .ok inner ∧ columns inner ≠ some 1 := by
  intro o q
  constructor
  · cbv
  · exact ⟨_, rfl, by decide⟩

end SqlCompiler
