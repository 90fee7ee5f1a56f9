import Mathlib
import SqlCompiler.Proofs.Brackets.Nesting
import SqlCompiler.Proofs.Comments.Scan

/-!
# Text outside quotes

What stands in quotes opens and closes no parentheses. The parentheses of the text outside them are
followed from one depth to another, with its commas inside parentheses (`Leads`) or wherever they
are (`Crosses`). Quoted text and text without quotes, parentheses and commas stay at their depth.
-/

namespace SqlCompiler

/-! ## Zones -/

/-- The characters of a text that stand outside quotes; the text begins in a zone. -/
def outside : Zone → List Char → List Char
  | _, [] => []
  | z, c :: cs =>
    if z = .code ∧ z.next c = .code then c :: outside (z.next c) cs else outside (z.next c) cs

/-- What stands outside quotes in two texts, the second in the zone that the first leaves. -/
theorem outside_append (z : Zone) (cs ds : List Char) :
    outside z (cs ++ ds) = outside z cs ++ outside (z.after cs) ds := by
  induction cs generalizing z with
  | nil => rfl
  | cons c cs ih =>
    rw [List.cons_append, outside, outside, ih, Zone.after_cons]
    split <;> rfl

/-- Text without quotes stands outside them. -/
theorem outside_of_unquoted {cs : List Char} (h : ∀ c ∈ cs, c ≠ '\'' ∧ c ≠ '"') :
    Zone.after .code cs = .code ∧ outside .code cs = cs := by
  induction cs with
  | nil => exact ⟨rfl, rfl⟩
  | cons c cs ih =>
    obtain ⟨⟨hsingle, hdouble⟩, hcs⟩ := List.forall_mem_cons.mp h
    have hnext : Zone.next .code c = .code := by simp [Zone.next, hsingle, hdouble]
    obtain ⟨hzone, houtside⟩ := ih hcs
    rw [Zone.after_cons, outside, hnext, if_pos ⟨rfl, rfl⟩, houtside]
    exact ⟨hzone, rfl⟩

/-- Nothing of a quoted text stands outside its quotes. -/
theorem outside_doubled {quote : Char} {z : Zone} (h : Encloses quote z) (s : String) :
    outside .code (Text.doubled quote s).toList = [] := by
  have hinside : ∀ cs, outside z (Text.double quote cs ++ [quote]) = [] := by
    intro cs
    -- A quote that is written twice leaves the quotes and enters them again.
    induction cs with
    | nil => cases h <;> rfl
    | cons c cs ih =>
      rw [Text.double]
      split
      · cases h <;> simpa [outside, Zone.next] using ih
      · next hc => cases h <;> simpa [outside, Zone.next, hc] using ih
  rw [Text.doubled, String.toList_ofList]
  cases h <;> simpa [outside, Zone.next] using hinside s.toList

/-! ## Commas inside parentheses -/

/-- Outside quotes, which are all closed, the parentheses of a text lead from one depth to
another. -/
structure Leads (i j : Nat) (text : List Char) : Prop where
  zone : Zone.after .code text = .code
  depth : (outside .code text).foldl nest (some i) = some j

/-- Texts that lead from one depth to another do so one after the other. -/
theorem textLaw_leads : TextLaw Leads where
  nil _ := ⟨rfl, rfl⟩
  append hcs hds := {
    zone := by rw [Zone.after_append, hcs.zone, hds.zone]
    depth := by rw [outside_append, hcs.zone, List.foldl_append, hcs.depth, hds.depth] }

/-- A text without quotes leads where its parentheses lead. -/
theorem leads_of_unquoted {text : List Char} (h : ∀ c ∈ text, c ≠ '\'' ∧ c ≠ '"') {i j : Nat}
    (hnest : text.foldl nest (some i) = some j) : Leads i j text := by
  obtain ⟨hzone, houtside⟩ := outside_of_unquoted h
  exact ⟨hzone, by rw [houtside, hnest]⟩

/-- A character that is no quote, no parenthesis and no comma. -/
def isNeutral (c : Char) : Bool :=
  c != '\'' && c != '"' && isFlat c

/-- A class of characters that holds no quote, parenthesis or comma is neutral. -/
theorem isNeutral_of_class {p : Char → Bool}
    (hp : ['\'', '"', '(', ')', ','].all (fun d => !p d) = true) {c : Char} (h : p c = true) :
    isNeutral c = true := by
  have hne : ∀ d ∈ ['\'', '"', '(', ')', ','], c ≠ d := by
    rintro d hd rfl
    simpa [h] using List.all_eq_true.mp hp c hd
  simpa [isNeutral, isFlat, and_assoc] using hne

/-- A neutral character is flat. -/
theorem isFlat_of_isNeutral {c : Char} (h : isNeutral c = true) : isFlat c = true :=
  (Bool.and_eq_true_iff.mp h).2

/-- A text of neutral characters stays at its depth. -/
theorem leads_of_neutral {text : List Char} (h : ∀ c ∈ text, isNeutral c = true) (i : Nat) :
    Leads i i text := by
  refine leads_of_unquoted (fun c hc => ?_)
    (foldl_nest_of_flat (fun c hc => isFlat_of_isNeutral (h c hc)) i)
  simpa using (Bool.and_eq_true_iff.mp (h c hc)).1

/-- A quoted text stays at its depth, whatever is quoted. -/
theorem leads_doubled {quote : Char} {z : Zone} (h : Encloses quote z) (s : String) (i : Nat) :
    Leads i i (Text.doubled quote s).toList where
  zone := (tidy_doubled h s).zone
  depth := by
    rw [outside_doubled h s]
    rfl

/-- A name stays at its depth, bare or quoted. -/
theorem leads_identifier (name : String) (i : Nat) : Leads i i (Identifier.text name).toList := by
  unfold Identifier.text
  split
  · next hbare =>
    exact leads_of_neutral (fun c hc =>
      isNeutral_of_class (by decide) (Identifier.continuesBare_of_isBare hbare c hc)) i
  · exact leads_doubled .name name i

/-- Placeholders are neutral. -/
theorem isNeutral_marker (style : ParamStyle) (position : Nat) :
    ∀ c ∈ (style.marker position).toList, isNeutral c = true := by
  have happend : ∀ mark : String, mark.toList.all isNeutral = true →
      ∀ c ∈ (mark ++ toString position).toList, isNeutral c = true := by
    intro mark hmark
    rw [String.toList_append, Nat.toString_eq_repr, Nat.toList_repr]
    refine List.forall_mem_append.mpr ⟨List.all_eq_true.mp hmark, fun c hc => ?_⟩
    exact isNeutral_of_class (by decide) (Nat.isDigit_of_mem_toDigits (by decide) (by decide) hc)
  -- A numbered placeholder is a fixed sign and digits.
  cases style with
  | inline | questionMark => exact List.all_eq_true.mp (by decide : "?".toList.all isNeutral = true)
  | colon => exact happend ":a" (by decide)
  | dollar => exact happend "$" (by decide)

/-! ## Commas anywhere -/

/-- Outside quotes, which are all closed, the parentheses of a text lead from one depth to another,
wherever its commas stand. -/
structure Crosses (i j : Nat) (text : List Char) : Prop where
  zone : Zone.after .code text = .code
  depth : ((outside .code text).filter (· ≠ ',')).foldl nest (some i) = some j

/-- The fields of `Crosses` are tested by reading the text. -/
theorem crosses_iff {i j : Nat} {text : List Char} :
    Zone.after .code text = .code ∧
      ((outside .code text).filter (· ≠ ',')).foldl nest (some i) = some j ↔ Crosses i j text :=
  ⟨fun h => ⟨h.1, h.2⟩, fun h => ⟨h.zone, h.depth⟩⟩

instance (i j : Nat) (text : List Char) : Decidable (Crosses i j text) :=
  decidable_of_iff _ crosses_iff

/-- Texts that cross depths do so one after the other. -/
theorem Crosses.append {i j k : Nat} {cs ds : List Char} (hcs : Crosses i j cs)
    (hds : Crosses j k ds) : Crosses i k (cs ++ ds) where
  zone := by rw [Zone.after_append, hcs.zone, hds.zone]
  depth := by
    rw [outside_append, hcs.zone, List.filter_append, List.foldl_append, hcs.depth, hds.depth]

/-- A text crosses the same way inside further parentheses. -/
theorem Crosses.lift {i j : Nat} {cs : List Char} (h : Crosses i j cs) :
    Crosses (i + 1) (j + 1) cs where
  zone := h.zone
  depth := by
    rw [Nat.add_comm i, Nat.add_comm j]
    exact foldl_nest_add h.depth 1

/-- The depth stays the same if the commas are left out. -/
theorem foldl_nest_filter {cs : List Char} {i j : Nat} (h : cs.foldl nest (some i) = some j) :
    (cs.filter (· ≠ ',')).foldl nest (some i) = some j := by
  induction cs generalizing i with
  | nil => exact h
  | cons c cs ih =>
    obtain ⟨k, hk, hrest⟩ := foldl_nest_cons h
    by_cases hc : c = ','
    · -- A comma is read only inside parentheses, and changes nothing there.
      obtain ⟨rfl, -⟩ | ⟨rfl, -⟩ | ⟨-, -, rfl⟩ | ⟨-, -, hne, -⟩ := nest_inversion hk
      · cases hc
      · cases hc
      · rw [List.filter_cons_of_neg (by simpa using hc)]
        exact ih hrest
      · exact absurd hc hne
    · rw [List.filter_cons_of_pos (by simpa using hc), List.foldl_cons, hk]
      exact ih hrest

/-- Commas inside parentheses stand somewhere. -/
theorem Leads.crosses {i j : Nat} {text : List Char} (h : Leads i j text) : Crosses i j text where
  zone := h.zone
  depth := foldl_nest_filter h.depth

end SqlCompiler
