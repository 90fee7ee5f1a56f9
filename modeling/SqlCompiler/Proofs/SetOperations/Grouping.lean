import Mathlib
import SqlCompiler.Tree.Literal

/-!
# Grouping set operations

Cores with set operators between them are grouped as the standard says: intersections bind tighter
than unions and differences, and operators that bind alike are grouped from the left (`IsQuery`). So
the rows are those of combining the cores one after the other from the left exactly if every
intersection comes before every union and difference (`rows_eq_leftRows_iff`).
-/

namespace SqlCompiler

section Rows

variable {α : Type} [DecidableEq α]

/-- The rows that a set operator makes of two collections of rows. -/
def SetOperator.rows (op : SetOperator) (a b : Multiset α) : Multiset α :=
  match op.kind, op.all with
  | .union, true => a + b
  | .union, false => (a + b).dedup
  | .intersect, true => a ∩ b
  | .intersect, false => (a ∩ b).dedup
  | .except, true => a - b
  | .except, false => a.dedup.filter (· ∉ b)

/-- Nothing is made of nothing. -/
@[simp]
theorem SetOperator.rows_zero_zero (op : SetOperator) : op.rows (0 : Multiset α) 0 = 0 := by
  obtain ⟨kind, all⟩ := op
  cases kind <;> cases all <;> rfl

/-- Nothing is in an intersection with nothing. -/
theorem SetOperator.rows_zero_of_intersect {op : SetOperator} (h : op.kind = .intersect)
    (a : Multiset α) : op.rows a 0 = 0 := by
  obtain ⟨kind, all⟩ := op
  obtain rfl : kind = .intersect := h
  cases all <;> simp [rows]

/-- A row stays if nothing is added or taken away. -/
theorem SetOperator.rows_singleton_zero {op : SetOperator} (h : op.kind ≠ .intersect) (r : α) :
    op.rows {r} 0 = {r} := by
  obtain ⟨kind, all⟩ := op
  cases kind with
  | union => cases all <;> simp [rows]
  | intersect => exact absurd rfl h
  | except => cases all <;> simp [rows]

/-- A row is in the intersection with itself. -/
theorem SetOperator.rows_singleton_self {op : SetOperator} (h : op.kind = .intersect) (r : α) :
    op.rows {r} {r} = {r} := by
  obtain ⟨kind, all⟩ := op
  obtain rfl : kind = .intersect := h
  have hself : ({r} : Multiset α) ∩ {r} = {r} := by
    ext a
    simp
  cases all <;> simp [rows, hself]

end Rows

/-- Cores, which are known by their positions, combined by set operators. -/
inductive SetTree where
  | core (index : Nat)
  | combine (op : SetOperator) (left right : SetTree)

namespace SetTree

/-! ## The standard's grammar -/

/-- Cores from a position on, with intersections between them, are a term: a core, or a term and a
core intersected. -/
inductive IsTerm (first : Nat) : List SetOperator → SetTree → Prop where
  | core : IsTerm first [] (.core first)
  | intersect {ops : List SetOperator} {t : SetTree} {op : SetOperator} (ht : IsTerm first ops t)
      (hop : op.kind = .intersect) :
      IsTerm first (ops ++ [op]) (.combine op t (.core (first + ops.length + 1)))

/-- Cores with set operators between them are a query: a term, or the union or difference of a query
and a term. -/
inductive IsQuery : List SetOperator → SetTree → Prop where
  | term {ops : List SetOperator} {t : SetTree} (ht : IsTerm 0 ops t) : IsQuery ops t
  | combine {ops ops' : List SetOperator} {q t : SetTree} {op : SetOperator} (hq : IsQuery ops q)
      (hop : op.kind ≠ .intersect) (ht : IsTerm (ops.length + 1) ops' t) :
      IsQuery (ops ++ op :: ops') (.combine op q t)

/-- What has been read: the query in front with the operator behind it, if there is one, and the
term that is being read. -/
def close (front : Option (SetTree × SetOperator)) (term : SetTree) : SetTree :=
  match front with
  | none => term
  | some (q, op) => .combine op q term

/-- Reads operators from the left; `next` is the position of the core behind the next one. -/
def groupFrom (front : Option (SetTree × SetOperator)) (term : SetTree) (next : Nat) :
    List SetOperator → SetTree
  | [] => close front term
  | op :: ops =>
    if op.kind = .intersect then groupFrom front (.combine op term (.core next)) (next + 1) ops
    else groupFrom (some (close front term, op)) (.core next) (next + 1) ops

/-- The tree that operators are read as. -/
def group (ops : List SetOperator) : SetTree :=
  groupFrom none (.core 0) 1 ops

/-- Grouping goes on from a term that has been read. -/
theorem IsTerm.groupFrom_append {first : Nat} {ops : List SetOperator} {t : SetTree}
    (h : IsTerm first ops t) (front : Option (SetTree × SetOperator)) (rest : List SetOperator) :
    groupFrom front (.core first) (first + 1) (ops ++ rest)
      = groupFrom front t (first + ops.length + 1) rest := by
  induction h generalizing rest with
  | core => rfl
  | @intersect ops t op _ hop ih =>
    rw [List.append_assoc, ih, List.singleton_append, groupFrom, if_pos hop, List.length_append]
    rfl

/-- Grouping goes on from a query that has been read, with its last term still open. -/
theorem IsQuery.groupFrom_append {ops : List SetOperator} {t : SetTree} (h : IsQuery ops t) :
    ∃ front term, close front term = t ∧ ∀ rest,
      groupFrom none (.core 0) 1 (ops ++ rest) = groupFrom front term (ops.length + 1) rest := by
  induction h with
  | @term ops t ht =>
    refine ⟨none, t, rfl, fun rest => ?_⟩
    have := ht.groupFrom_append none rest
    rwa [Nat.zero_add, Nat.zero_add] at this
  | @combine ops ops' q t op _ hop ht ih =>
    obtain ⟨front, term, rfl, hgroup⟩ := ih
    refine ⟨some (close front term, op), t, rfl, fun rest => ?_⟩
    rw [List.append_assoc, hgroup, List.cons_append, groupFrom, if_neg hop, ht.groupFrom_append,
      List.length_append, List.length_cons]
    congr 1
    omega

/-- What has been read of a list of operators is a term, or a query and a term. -/
inductive Reached : List SetOperator → Option (SetTree × SetOperator) → SetTree → Prop where
  | term {ops : List SetOperator} {t : SetTree} (ht : IsTerm 0 ops t) : Reached ops none t
  | combine {ops ops' : List SetOperator} {q t : SetTree} {op : SetOperator} (hq : IsQuery ops q)
      (hop : op.kind ≠ .intersect) (ht : IsTerm (ops.length + 1) ops' t) :
      Reached (ops ++ op :: ops') (some (q, op)) t

/-- What has been reached is a query if it ends here. -/
theorem Reached.isQuery {ops : List SetOperator} {front : Option (SetTree × SetOperator)}
    {t : SetTree} (h : Reached ops front t) : IsQuery ops (close front t) := by
  cases h with
  | term ht => exact .term ht
  | combine hq hop ht => exact .combine hq hop ht

/-- An intersection goes into the term. -/
theorem Reached.intersect {ops : List SetOperator} {front : Option (SetTree × SetOperator)}
    {t : SetTree} (h : Reached ops front t) {op : SetOperator} (hop : op.kind = .intersect) :
    Reached (ops ++ [op]) front (.combine op t (.core (ops.length + 1))) := by
  -- The open term grows, with or without a query in front of it.
  cases h with
  | term ht =>
    have := ht.intersect hop
    rw [Nat.zero_add] at this
    exact .term this
  | @combine ops ops' q t op' hq hop' ht =>
    have := Reached.combine hq hop' (ht.intersect hop)
    rw [List.append_assoc, List.cons_append, List.length_append, List.length_cons]
    rwa [show ops.length + 1 + ops'.length + 1 = ops.length + (ops'.length + 1) + 1 by omega]
      at this

/-- Grouping makes a query of what has been reached and the operators behind it. -/
theorem Reached.isQuery_groupFrom {ops : List SetOperator}
    {front : Option (SetTree × SetOperator)} {t : SetTree} (h : Reached ops front t)
    (rest : List SetOperator) :
    IsQuery (ops ++ rest) (groupFrom front t (ops.length + 1) rest) := by
  -- One more operator leads from what has been reached to what is reached with it.
  induction rest generalizing ops front t with
  | nil =>
    rw [List.append_nil]
    exact h.isQuery
  | cons op rest ih =>
    have hlength : ops.length + 1 = (ops ++ [op]).length := by simp
    rw [groupFrom, List.append_cons]
    -- An intersection goes into the open term; any other operator closes it.
    split
    · next hop =>
      have := ih (h.intersect hop)
      rwa [← hlength] at this
    · next hop =>
      have := ih (Reached.combine h.isQuery hop .core)
      rwa [← hlength] at this

/-- Operators are read as one tree and no other. -/
theorem isQuery_iff {ops : List SetOperator} {t : SetTree} : IsQuery ops t ↔ t = group ops := by
  constructor
  · intro h
    obtain ⟨front, term, rfl, hgroup⟩ := h.groupFrom_append
    have := hgroup []
    rw [List.append_nil] at this
    exact this.symm
  · rintro rfl
    exact Reached.isQuery_groupFrom (.term .core) ops

/-! ## Rows -/

section Rows

variable {α : Type} [DecidableEq α]

/-- The rows of a tree, where `rows` gives those of the cores. -/
def rows (rows : Nat → Multiset α) : SetTree → Multiset α
  | .core index => rows index
  | .combine op left right => op.rows (left.rows rows) (right.rows rows)

/-- Cores combined one after the other from the left, from the position `next` on. -/
def leftRows (rows : Nat → Multiset α) : Multiset α → Nat → List SetOperator → Multiset α
  | acc, _, [] => acc
  | acc, next, op :: ops => leftRows rows (op.rows acc (rows next)) (next + 1) ops

/-- Every intersection comes before every union and difference. -/
def IntersectsFirst (ops : List SetOperator) : Prop :=
  ops.Pairwise fun a b => b.kind = .intersect → a.kind = .intersect

instance (ops : List SetOperator) : Decidable (IntersectsFirst ops) :=
  inferInstanceAs (Decidable (ops.Pairwise _))

/-- Without intersections, operators are grouped from the left. -/
theorem rows_groupFrom_of_no_intersect (f : Nat → Multiset α) {ops : List SetOperator}
    (h : ∀ op ∈ ops, op.kind ≠ .intersect) (front : Option (SetTree × SetOperator))
    (term : SetTree) (next : Nat) :
    (groupFrom front term next ops).rows f = leftRows f ((close front term).rows f) next ops := by
  induction ops generalizing front term next with
  | nil => rfl
  | cons op ops ih =>
    obtain ⟨hop, hops⟩ := List.forall_mem_cons.mp h
    rw [groupFrom, if_neg hop, ih hops]
    rfl

/-- Intersections that come first are grouped from the left. -/
theorem rows_groupFrom_of_intersectsFirst (f : Nat → Multiset α) {ops : List SetOperator}
    (h : IntersectsFirst ops) (term : SetTree) (next : Nat) :
    (groupFrom none term next ops).rows f = leftRows f (term.rows f) next ops := by
  induction ops generalizing term next with
  | nil => rfl
  | cons op ops ih =>
    obtain ⟨hop, hops⟩ := List.pairwise_cons.mp h
    -- Behind the first union or difference there is no intersection any more.
    by_cases hkind : op.kind = .intersect
    · rw [groupFrom, if_pos hkind, ih hops]
      rfl
    · have hnone : ∀ op' ∈ op :: ops, op'.kind ≠ .intersect :=
        List.forall_mem_cons.mpr ⟨hkind, fun op' hop' hk => hkind (hop op' hop' hk)⟩
      exact rows_groupFrom_of_no_intersect f hnone none term next

/-! ## One row that an intersection loses -/

/-- From the left, no rows stay no rows if no later core has any. -/
theorem leftRows_zero (f : Nat → Multiset α) {next : Nat} (hf : ∀ i, next ≤ i → f i = 0)
    (ops : List SetOperator) : leftRows f 0 next ops = 0 := by
  induction ops generalizing next with
  | nil => rfl
  | cons op ops ih =>
    rw [leftRows, hf next le_rfl, SetOperator.rows_zero_zero]
    exact ih fun i hi => hf i (by omega)

/-- From the left, an intersection with nothing leaves nothing. -/
theorem leftRows_of_intersect (f : Nat → Multiset α) (r : α) {next : Nat}
    (hf : ∀ i, next ≤ i → f i = 0) {ops : List SetOperator}
    (h : ∃ op ∈ ops, op.kind = .intersect) : leftRows f {r} next ops = 0 := by
  induction ops generalizing next with
  | nil => simp at h
  | cons op ops ih =>
    have hlater : ∀ i, next + 1 ≤ i → f i = 0 := fun i hi => hf i (by omega)
    rw [leftRows, hf next le_rfl]
    -- The row is lost at the first intersection with a core without rows.
    by_cases hkind : op.kind = .intersect
    · rw [SetOperator.rows_zero_of_intersect hkind]
      exact leftRows_zero f hlater ops
    · rw [SetOperator.rows_singleton_zero hkind]
      refine ih hlater ?_
      obtain ⟨op', hop', hk⟩ := h
      obtain rfl | hop' := List.mem_cons.mp hop'
      · exact absurd hk hkind
      · exact ⟨op', hop', hk⟩

/-- By the grammar, intersections behind a union or difference do not reach the rows before it. -/
theorem rows_groupFrom_of_front (f : Nat → Multiset α) (r : α) {q term : SetTree}
    {op : SetOperator} (hq : q.rows f = {r}) (hop : op.kind ≠ .intersect) (hterm : term.rows f = 0)
    {next : Nat} (hf : ∀ i, next ≤ i → f i = 0) (ops : List SetOperator) :
    (groupFrom (some (q, op)) term next ops).rows f = {r} := by
  -- The query in front keeps the row, and the term behind it stays empty.
  induction ops generalizing q term op next with
  | nil =>
    show op.rows (q.rows f) (term.rows f) = {r}
    rw [hq, hterm, SetOperator.rows_singleton_zero hop]
  | cons op' ops ih =>
    have hlater : ∀ i, next + 1 ≤ i → f i = 0 := fun i hi => hf i (by omega)
    have hcore : (SetTree.core next).rows f = 0 := hf next le_rfl
    rw [groupFrom]
    split
    · refine ih hq hop ?_ hlater
      show op'.rows (term.rows f) ((SetTree.core next).rows f) = 0
      rw [hterm, hcore, SetOperator.rows_zero_zero]
    · next hop' =>
      refine ih ?_ hop' hcore hlater
      show op.rows (q.rows f) (term.rows f) = {r}
      rw [hq, hterm, SetOperator.rows_singleton_zero hop]

/-- If an intersection comes after a union or difference, there are rows for which the grammar's
grouping keeps a row that is lost from the left. -/
theorem exists_rows_groupFrom_ne (r : α) {ops : List SetOperator} (h : ¬IntersectsFirst ops)
    (next : Nat) : ∃ k, next ≤ k ∧ ∀ (f : Nat → Multiset α) (term : SetTree),
      term.rows f = {r} → (∀ i, next ≤ i → f i = if i < k then {r} else 0) →
      (groupFrom none term next ops).rows f ≠ leftRows f (term.rows f) next ops := by
  induction ops generalizing next with
  | nil => exact absurd List.Pairwise.nil h
  | cons op ops ih =>
    by_cases hkind : op.kind = .intersect
    · -- An intersection in front: its core has the row, too.
      have hops : ¬IntersectsFirst ops := fun hops =>
        h (List.pairwise_cons.mpr ⟨fun _ _ _ => hkind, hops⟩)
      obtain ⟨k, hk, hne⟩ := ih hops (next + 1)
      refine ⟨k, by omega, fun f term hterm hf => ?_⟩
      have hnext : f next = {r} := by rw [hf next le_rfl, if_pos (by omega)]
      have hboth : (SetTree.combine op term (.core next)).rows f = {r} := by
        show op.rows (term.rows f) (f next) = {r}
        rw [hterm, hnext, SetOperator.rows_singleton_self hkind]
      have := hne f (.combine op term (.core next)) hboth fun i hi => hf i (by omega)
      rw [groupFrom, if_pos hkind]
      exact this
    · -- The first union or difference: from here on no core has rows.
      have hlater : ∃ op' ∈ ops, op'.kind = .intersect := by
        by_contra hnone
        replace hnone : ∀ op' ∈ ops, op'.kind ≠ .intersect := fun op' hop' hk =>
          hnone ⟨op', hop', hk⟩
        refine h (List.pairwise_cons.mpr ⟨fun op' hop' hk => absurd hk (hnone op' hop'), ?_⟩)
        exact List.pairwise_of_forall_mem_list fun a _ b hb hk => absurd hk (hnone b hb)
      refine ⟨next, le_rfl, fun f term hterm hf => ?_⟩
      have hzero : ∀ i, next ≤ i → f i = 0 := fun i hi => by rw [hf i hi, if_neg (by omega)]
      have hgrouped : (groupFrom none term next (op :: ops)).rows f = {r} := by
        rw [groupFrom, if_neg hkind]
        have hcore : (SetTree.core next).rows f = 0 := hzero next le_rfl
        exact rows_groupFrom_of_front f r hterm hkind hcore (fun i hi => hzero i (by omega)) ops
      have hleft : leftRows f (term.rows f) next (op :: ops) = 0 := by
        rw [hterm]
        obtain ⟨op', hop', hk⟩ := hlater
        exact leftRows_of_intersect f r hzero ⟨op', List.mem_cons_of_mem op hop', hk⟩
      rw [hgrouped, hleft]
      exact Multiset.singleton_ne_zero r

/-- The grammar's grouping combines the cores from the left, whatever their rows are, exactly if
every intersection comes before every union and difference. -/
theorem rows_eq_leftRows_iff [Inhabited α] {ops : List SetOperator} {t : SetTree}
    (ht : IsQuery ops t) :
    (∀ f : Nat → Multiset α, t.rows f = leftRows f (f 0) 1 ops) ↔ IntersectsFirst ops := by
  obtain rfl := isQuery_iff.mp ht
  constructor
  · intro heq
    by_contra hnot
    obtain ⟨k, hk, hne⟩ := exists_rows_groupFrom_ne (default : α) hnot 1
    let f : Nat → Multiset α := fun i => if i < k then {default} else 0
    have hfirst : (SetTree.core 0).rows f = {default} := if_pos (by omega)
    exact hne f (.core 0) hfirst (fun _ _ => rfl) (heq f)
  · intro h f
    exact rows_groupFrom_of_intersectsFirst f h (.core 0) 1

end Rows

end SetTree

end SqlCompiler
