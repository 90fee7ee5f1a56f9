import SqlCompiler.Proofs.Exchange.Tokens

/-!
# Documents from their text

From the tokens of a document the document is built again, wherever a value is awaited
(`Document.foldl_tokens`). So the compact text of a plain document is parsed to the document
(`Document.parse_compact`).
-/

namespace SqlCompiler.Json

open Builder (deliver)

/-! ## Building -/

/-- A value may stand here. -/
def Awaited.TakesValue (a : Awaited) : Prop :=
  a = .value ∨ a = .firstItem

/-- A key may stand here. -/
def Awaited.TakesKey (a : Awaited) : Prop :=
  a = .key ∨ a = .firstKey

/-- A token that does not close an array is taken in the same way in every place for a value. -/
theorem step_of_takesValue {a : Awaited} (ha : a.TakesValue) {t : Token} (ht : t ≠ .closeArray)
    (frames : List Frame) :
    Builder.step (.building frames a) t = Builder.takeValue frames t := by
  obtain rfl | rfl := ha
  · rfl
  · exact if_neg ht

/-- A key is taken in every place for one. -/
theorem step_of_takesKey {a : Awaited} (ha : a.TakesKey) (k : Option String) (done : List Member)
    (frames : List Frame) :
    Builder.step (.building (.object done none :: frames) a) (.string k)
      = .building (.object done (some k) :: frames) .colon := by
  obtain rfl | rfl := ha <;> rfl

mutual

/-- The tokens of a document make the document where a value is awaited. -/
theorem Document.foldl_tokens (d : Document) (hd : d.IsPlain) (frames : List Frame) {a : Awaited}
    (ha : a.TakesValue) :
    d.tokens.foldl Builder.step (.building frames a) = deliver frames d := by
  -- Along the document, together with its items and members.
  match d, hd with
  | .null, _ => exact step_of_takesValue (t := .null) ha (by decide) frames
  | .bool b, _ => exact step_of_takesValue (t := .bool b) ha (by rintro ⟨⟩) frames
  | .number n, _ => exact step_of_takesValue (t := .number n) ha (by rintro ⟨⟩) frames
  | .string s, _ => exact step_of_takesValue (t := .string s) ha (by rintro ⟨⟩) frames
  | .array items _, ⟨rfl, hitems⟩ =>
    rw [Document.tokens, List.foldl_cons, step_of_takesValue ha (by decide), List.foldl_append]
    -- An empty array closes where a first value is awaited.
    by_cases hne : items = []
    · rw [hne]
      rfl
    · show List.foldl _ ((itemTokens items).foldl Builder.step
        (.building (.array [] :: frames) .firstItem)) _ = _
      rw [foldl_itemTokens items hitems hne [] frames (.inr rfl)]
      show deliver frames (.array _ true) = _
      rw [List.append_nil, List.reverse_reverse]
  | .object members _, ⟨rfl, hmembers⟩ =>
    rw [Document.tokens, List.foldl_cons, step_of_takesValue ha (by decide), List.foldl_append]
    by_cases hne : members = []
    · rw [hne]
      rfl
    · show List.foldl _ ((memberTokens members).foldl Builder.step
        (.building (.object [] none :: frames) .firstKey)) _ = _
      rw [foldl_memberTokens members hmembers hne [] frames (.inr rfl)]
      show deliver frames (.object _ true) = _
      rw [List.append_nil, List.reverse_reverse]

/-- The tokens of items add them to an array. -/
theorem foldl_itemTokens (ds : List Document) (hds : PlainItems ds) (hne : ds ≠ [])
    (done : List Document) (frames : List Frame) {a : Awaited} (ha : a.TakesValue) :
    (itemTokens ds).foldl Builder.step (.building (.array done :: frames) a)
      = .building (.array (ds.reverse ++ done) :: frames) .next := by
  match ds, hds with
  | [], _ => exact absurd rfl hne
  | [d], ⟨hd, _⟩ => exact d.foldl_tokens hd (.array done :: frames) ha
  | d :: d' :: ds, ⟨hd, hds⟩ =>
    have hne' : d' :: ds ≠ [] := List.cons_ne_nil d' ds
    rw [itemTokens, List.foldl_append, d.foldl_tokens hd _ ha]
    · show (itemTokens (d' :: ds)).foldl Builder.step
        (.building (.array (d :: done) :: frames) .value) = _
      rw [foldl_itemTokens (d' :: ds) hds hne' _ _ (.inl rfl)]
      simp
    · exact hne'

/-- The tokens of members add them to an object. -/
theorem foldl_memberTokens (ms : List Member) (hms : PlainMembers ms) (hne : ms ≠ [])
    (done : List Member) (frames : List Frame) {a : Awaited} (ha : a.TakesKey) :
    (memberTokens ms).foldl Builder.step (.building (.object done none :: frames) a)
      = .building (.object (ms.reverse ++ done) none :: frames) .next := by
  match ms, hms with
  | [], _ => exact absurd rfl hne
  | [⟨k, v⟩], ⟨_, hv, _⟩ =>
    rw [memberTokens, List.foldl_cons, step_of_takesKey ha, List.foldl_cons]
    exact v.foldl_tokens hv (.object done (some k) :: frames) (.inl rfl)
  | ⟨k, v⟩ :: m :: ms, ⟨_, hv, hms⟩ =>
    -- The comma behind a value awaits the next key.
    have hne' : m :: ms ≠ [] := List.cons_ne_nil m ms
    rw [memberTokens, List.foldl_cons, step_of_takesKey ha, List.foldl_cons, List.foldl_append]
    · show List.foldl _ (v.tokens.foldl Builder.step
        (.building (.object done (some k) :: frames) .value)) _ = _
      rw [v.foldl_tokens hv _ (.inl rfl)]
      show (memberTokens (m :: ms)).foldl Builder.step
        (.building (.object (⟨k, v⟩ :: done) none :: frames) .key) = _
      rw [foldl_memberTokens (m :: ms) hms hne' _ _ (.inl rfl)]
      simp
    · exact hne'

end

/-! ## Parsing -/

/-- A text is parsed by building from its tokens. -/
theorem Document.Parser.foldl_step (text : List Char) (p : Parser) :
    (text.foldl step p).finish
      = finish { lexer := .ready, builder := (p.lexer.run text).foldl Builder.step p.builder } := by
  induction text generalizing p with
  | nil => rfl
  | cons c cs ih =>
    rw [List.foldl_cons, ih, Lexer.run_cons, List.foldl_append]
    rfl

/-- The text of a plain document is parsed to the document, and nothing follows it. -/
theorem Document.parse_compact {d : Document} (hd : d.IsPlain) : parse d.compact = ⟨d, true⟩ := by
  have htokens := d.run_compact hd [] rfl
  have hend : Lexer.ready.run [] = [] := rfl
  rw [List.append_nil, hend, List.append_nil] at htokens
  rw [parse, Parser.foldl_step]
  show Parser.finish { lexer := .ready, builder := (Lexer.ready.run d.compact).foldl _ _ } = _
  rw [htokens, d.foldl_tokens hd [] (.inl rfl)]
  rfl

end SqlCompiler.Json
