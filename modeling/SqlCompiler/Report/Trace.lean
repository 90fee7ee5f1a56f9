import SqlCompiler.Report.Fault

/-!
# Notes on the way

A `Traced` computation leaves notes about the rewrites that it made, and yields a value or ends in a
fault. The notes made before a fault stay.
-/

namespace SqlCompiler

/-- A note about what was done. -/
inductive Note where
  | compiling (dialect : Dialect) (pagination : Pagination)
  | splitInList (values lists : Nat)
  | orderAliases (count : Nat)
  | limitPushed
  | limitAndOffsetWrapped
  | limitWrapped
  | offsetWrapped
  | ordersDropped (change : ChangeKind)
  /-- The compilation failed. -/
  | failed (fault : Fault)

/-- The words for a note. -/
def Note.message : Note → String
  | .compiling dialect pagination =>
    "compiling for " ++ dialect.text ++ " with " ++ pagination.name ++ " pagination"
  | .splitInList values lists =>
    "splitting IN list of " ++ toString values ++ " values into " ++ toString lists ++ " lists"
  | .orderAliases count => "ORDER BY rewritten into " ++ toString count ++ " projection aliases"
  | .limitPushed => "limit pushed into WHERE as a ROWNUM predicate"
  | .limitAndOffsetWrapped => "limit and offset emulated with two nested queries"
  | .limitWrapped => "limit emulated with a wrapping query"
  | .offsetWrapped => "offset emulated with two nested queries"
  | .ordersDropped change => "dropping ORDER BY of " ++ change.text ++ " without a limit"
  | .failed fault => fault.diagnostic.view.inspectLines

/-- A computation that leaves notes, and yields a value or ends in a fault. -/
structure Traced (α : Type) where
  /-- The notes, in order. -/
  notes : List Note
  /-- The value or the fault. -/
  outcome : Except Fault α

namespace Traced

/-- A value without notes. -/
def ok {α : Type} (a : α) : Traced α :=
  ⟨[], .ok a⟩

/-- A fault without notes. -/
def fail {α : Type} (f : Fault) : Traced α :=
  ⟨[], .error f⟩

/-- Leaves one note. -/
def note (n : Note) : Traced Unit :=
  ⟨[n], .ok ()⟩

/-- Goes on with the value, unless there is a fault. -/
def bind {α β : Type} (x : Traced α) (f : α → Traced β) : Traced β :=
  match x.outcome with
  | .ok a =>
    let y := f a
    ⟨x.notes ++ y.notes, y.outcome⟩
  | .error e => ⟨x.notes, .error e⟩

instance : Monad Traced where
  pure := ok
  bind := bind

/-- A computation that leaves no notes. -/
def ofExcept {α : Type} (x : Except Fault α) : Traced α :=
  ⟨[], x⟩

/-- A value is passed on. -/
@[simp]
theorem ok_bind {α β : Type} (a : α) (f : α → Traced β) : (ok a).bind f = f a := by
  simp [ok, bind]

/-- A fault ends the computation. -/
@[simp]
theorem fail_bind {α β : Type} (e : Fault) (f : α → Traced β) : (fail e).bind f = fail e :=
  rfl

/-- Passing the value on unchanged changes nothing. -/
@[simp]
theorem bind_ok {α : Type} (x : Traced α) : x.bind ok = x := by
  obtain ⟨notes, _ | a⟩ := x <;> simp [ok, bind]

/-- Going on twice is going on with both. -/
theorem bind_assoc {α β γ : Type} (x : Traced α) (f : α → Traced β) (g : β → Traced γ) :
    (x.bind f).bind g = x.bind fun a => (f a).bind g := by
  obtain ⟨notes, e | a⟩ := x
  · rfl
  · cases h : (f a).outcome <;> simp [bind, h]

end Traced

end SqlCompiler
