import Enclave.Proofs.Syntax.Erasure
import Enclave.Proofs.Syntax.Printing
import Enclave.Proofs.Syntax.Stepping
import Mathlib.Order.Nat

/-!
# Reading printed tokens

What a parser does depends on the tokens ahead only through their kinds and the texts of words
(`Cursor.Ahead`). A parser `Arrives` if it reads what it should unless that is nested too deeply,
which is the one fault that may happen to printed tokens. For loops there are two rules: one for a
single round (`Loops.round`), and one for lists with commas between their items
(`loops_separated`).
-/

namespace Enclave

/-- The kind of the first token. -/
def headKind (ks : List TokenKind) : TokenKind := ks.headD .endOfInput

/-- Tokens of these kinds lie ahead, and names and reserved words have their texts. -/
structure Cursor.Ahead (c : Cursor) (ks : List TokenKind) : Prop where
  kinds : c.tokens.map (·.kind) = ks
  texts : ∀ t ∈ c.tokens, t.kind.isWord = true → t.lexeme = t.kind.wordText
  finished : c.finished = false

namespace Cursor.Ahead

variable {c c' : Cursor} {k : TokenKind} {ks : List TokenKind}

/-- There are as many tokens as kinds ahead. -/
theorem length (h : c.Ahead ks) : c.tokens.length = ks.length := by
  rw [← h.kinds, List.length_map]

/-- The next kind is the first ahead. -/
theorem head (h : c.Ahead ks) : c.kind = headKind ks := by
  rw [← h.kinds, kind, nextToken]
  cases c.tokens <;> rfl

/-- The next kind is the first of those ahead. -/
theorem kind (h : c.Ahead (k :: ks)) : c.kind = k := h.head

/-- The next token is of the first kind ahead, and those behind it of the others. -/
theorem tokens_eq (h : c.Ahead (k :: ks)) :
    ∃ rest, c.tokens = c.nextToken :: rest ∧ rest.map (·.kind) = ks := by
  have hkinds := h.kinds
  cases htokens : c.tokens with
  | nil =>
    rw [htokens] at hkinds
    cases hkinds
  | cons t rest =>
    rw [htokens] at hkinds
    rw [nextToken_of_tokens htokens]
    exact ⟨rest, rfl, (List.cons.inj hkinds).2⟩

/-- A word ahead has its own text. -/
theorem text (h : c.Ahead (k :: ks)) (hword : k.isWord = true) :
    c.nextToken.lexeme = k.wordText := by
  obtain ⟨rest, htokens, -⟩ := h.tokens_eq
  have hkind : c.nextToken.kind = k := h.kind
  have htext := h.texts c.nextToken (htokens ▸ List.mem_cons_self)
  rw [hkind] at htext
  exact htext hword

/-- Reading a token leaves the others. -/
theorem behind (h : c.Ahead (k :: ks)) (hk : k ≠ .endOfInput) : c.behind.Ahead ks := by
  obtain ⟨rest, htokens, hrest⟩ := h.tokens_eq
  rw [behind_of_tokens htokens]
  refine ⟨hrest, fun t ht => h.texts t (htokens ▸ List.mem_cons_of_mem _ ht), ?_⟩
  have hkind : c.nextToken.kind = k := h.kind
  change (c.finished || decide (c.nextToken.kind = .endOfInput)) = false
  rw [h.finished, hkind, decide_eq_false hk]
  rfl

/-- A cursor that has not moved has the same ahead. -/
theorem stays (h : c.Ahead ks) (hstays : c.Stays c') : c'.Ahead ks where
  kinds := by rw [hstays.tokens, h.kinds]
  texts := hstays.tokens ▸ h.texts
  finished := by rw [hstays.finished, h.finished]

end Cursor.Ahead

namespace Parser

variable {α β : Type} {c c' : Cursor} {k : TokenKind} {ks ts : List TokenKind}
  {post : β → Cursor → Prop}

/-- The parser gets to a value with a property, unless it finds that it is nested too deeply. -/
def Arrives (p : Parser α) (c : Cursor) (post : α → Cursor → Prop) : Prop :=
  Ends (· = .nestedTooDeeply) p c post

/-! ### Tokens -/

/-- A token of the kind ahead is read. -/
theorem Arrives.next {f : Token → Parser β} (h : c.Ahead (k :: ks)) (hk : k ≠ .endOfInput)
    (hf : ∀ t c', t.kind = k → c'.Ahead ks → Arrives (f t) c' post) :
    Arrives (Parser.next >>= f) c post :=
  Ends.next (hf _ _ h.kind (h.behind hk))

/-- A required mark ahead is read. -/
theorem Arrives.expectMark {sign : Mark} {f : Token → Parser β} (h : c.Ahead (.mark sign :: ks))
    (hf : ∀ t c', c'.Ahead ks → Arrives (f t) c' post) :
    Arrives (Parser.expectMark sign >>= f) c post :=
  Ends.expectMark h.kind (hf _ _ (h.behind nofun))

/-- A required keyword ahead is read. -/
theorem Arrives.expectKeyword {word : Keyword} {f : Token → Parser β}
    (h : c.Ahead (.keyword word :: ks)) (hf : ∀ t c', c'.Ahead ks → Arrives (f t) c' post) :
    Arrives (Parser.expectKeyword word >>= f) c post :=
  Ends.expectKeyword h.kind (hf _ _ (h.behind nofun))

/-- A required identifier ahead is read. -/
theorem Arrives.expectIdentifier {name : String} {f : String × Span → Parser β}
    (h : c.Ahead (.identifier name :: ks))
    (hf : ∀ span c', c'.Ahead ks → Arrives (f (name, span)) c' post) :
    Arrives (Parser.expectIdentifier >>= f) c post := by
  refine Ends.bind (m := fun a c' => (∃ span, a = (name, span)) ∧ c'.Ahead ks) (.peek ?_) ?_
  · rw [h.kind]
    exact .next (.pure ⟨⟨_, rfl⟩, h.behind nofun⟩)
  · rintro _ c' ⟨⟨span, rfl⟩, h'⟩
    exact hf span c' h'

/-- The text of a word is its name. -/
theorem wordText_word (name : String) : (TokenKind.word name).wordText = name := by
  unfold TokenKind.word
  split
  · next word h =>
    have hspelling := List.find?_some (p := fun word : Keyword => decide (word.spelling = name)) h
    exact of_decide_eq_true hspelling
  · rfl

theorem isWord_word (name : String) : (TokenKind.word name).isWord = true := by
  unfold TokenKind.word
  split <;> rfl

theorem word_ne_endOfInput (name : String) : TokenKind.word name ≠ .endOfInput := by
  intro h
  have hword := isWord_word name
  rw [h] at hword
  cases hword

/-- A required property name ahead is read. -/
theorem Arrives.expectPropertyName {name : String} {f : String × Span → Parser β}
    (h : c.Ahead (.word name :: ks))
    (hf : ∀ span c', c'.Ahead ks → Arrives (f (name, span)) c' post) :
    Arrives (Parser.expectPropertyName >>= f) c post := by
  -- any word will do for a name, and its text is the name
  have htext : c.nextToken.lexeme = name := by
    rw [h.text (isWord_word name), wordText_word]
  have hword := isWord_word name
  rw [← h.kind] at hword
  refine Ends.bind (m := fun a c' => (∃ span, a = (name, span)) ∧ c'.Ahead ks) (.peek ?_) ?_
  · split
    · exact .next (.pure ⟨⟨_, by rw [htext]⟩, h.behind (word_ne_endOfInput name)⟩)
    · exact .next (.pure ⟨⟨_, by rw [htext]⟩, h.behind (word_ne_endOfInput name)⟩)
    · next hnot hnot' =>
      cases hkind : c.kind with
      | identifier name => exact absurd hkind (hnot name)
      | keyword word => exact absurd hkind (hnot' word)
      | _ =>
        rw [hkind] at hword
        cases hword
  · rintro _ c' ⟨⟨span, rfl⟩, h'⟩
    exact hf span c' h'

/-- A semicolon ahead ends the statement. -/
theorem Arrives.endStatement {f : Unit → Parser β} (h : c.Ahead (.mark .semicolon :: ks))
    (hf : ∀ c', c'.Ahead ks → Arrives (f ()) c' post) :
    Arrives (Parser.endStatement >>= f) c post := by
  refine Ends.bind (m := fun _ c' => c'.Ahead ks) ?_ fun _ c' => hf c'
  exact .ifSkipMark (fun _ => .pure (h.behind nofun)) fun hnot => absurd h.kind hnot

/-! ### Loops -/

/-- The rest of a loop arrives, however many more rounds than tokens it may make. -/
def Loops (step : α → Parser (Step α β)) (post : β → Cursor → Prop) (a : α) (c : Cursor) : Prop :=
  ∀ budget : List Token, c.tokens.length ≤ budget.length →
    Arrives (repeatWithin step budget a) c post

/-- A loop that ends well is read well. -/
theorem Loops.arrives {step : α → Parser (Step α β)} {a : α} (h : Loops step post a c) :
    Arrives (repeatStep step a) c post :=
  h c.tokens (Nat.le_refl _)

/-- A round that goes on reads a token. -/
theorem Loops.round {step : α → Parser (Step α β)} {a : α}
    (h : Arrives (step a) c (Step.Leaves
      (fun a c' => c'.tokens.length < c.tokens.length ∧ Loops step post a c') post)) :
    Loops step post a c := by
  intro budget hbudget
  -- an empty budget is enough only when no token is left, and then the loop ends
  cases budget with
  | nil =>
    refine Ends.bind h fun s c' hs => ?_
    cases s with
    | done b => exact hs
    | again a' => exact absurd (hs.1.trans_le hbudget) (Nat.not_lt_zero _)
  | cons t budget =>
    refine Ends.bind h fun s c' hs => ?_
    cases s with
    | done b => exact hs
    | again a' => exact hs.2 budget (Nat.le_of_lt_succ (hs.1.trans_le hbudget))

/-- A loop with one round for each of some items, and a last one. -/
theorem Loops.along {ξ : Type} {step : α → Parser (Step α β)} {items : List ξ} {a : α}
    (inv : List ξ → α → Cursor → Prop)
    (hitem : ∀ x rest a c, inv (x :: rest) a c → Arrives (step a) c fun s c' =>
      ∃ a', s = .again a' ∧ c'.tokens.length < c.tokens.length ∧ inv rest a' c')
    (hlast : ∀ a c, inv [] a c → Arrives (step a) c fun s c' => ∃ b, s = .done b ∧ post b c')
    (h : inv items a c) : Loops step post a c := by
  -- a round for each item, and one more that ends the loop
  induction items generalizing a c with
  | nil =>
    refine .round ((hlast a c h).imp ?_)
    rintro _ c' ⟨b, rfl, hb⟩
    exact hb
  | cons x rest ih =>
    refine .round ((hitem x rest a c h).imp ?_)
    rintro _ c' ⟨a', rfl, hlt, h'⟩
    exact ⟨hlt, ih h'⟩

/-- What stands behind an item decides whether another one follows. -/
theorem arrives_separator {xs : List α} {x : α} {sign : Mark} (hc : c.Ahead (.mark sign :: ks)) :
    Arrives (do
      if ← skipMark .comma then return .again (xs ++ [x]) else return .done (xs ++ [x])) c
      fun (s : Step (List α) (List α)) c' =>
        if sign = .comma then s = .again (xs ++ [x]) ∧ c'.Ahead ks
        else s = .done (xs ++ [x]) ∧ c'.Ahead (.mark sign :: ks) := by
  refine .ifSkipMark (fun hcomma => .pure ?_) fun hnot => .pure ?_
  · rw [hc.kind] at hcomma
    cases hcomma
    exact ⟨rfl, hc.behind nofun⟩
  · -- another sign ends the list, and is left where it is
    have hsign : sign ≠ .comma := by
      rintro rfl
      exact hnot hc.kind
    rw [if_neg hsign]
    exact ⟨rfl, hc⟩

/-- A list between marks, with commas between its items: what reads one item up to the mark behind
it reads all of them. -/
theorem loops_separated {γ : Type} {step : List α → Parser (Step (List α) (List α))} (f : α → γ)
    (pr : α → List TokenKind) (close : Mark) {items : List α}
    (hclose : ∀ {ks : List TokenKind} {xs : List α} {c : Cursor}, c.Ahead (.mark close :: ks) →
      Arrives (step xs) c fun s c' => s = .done xs ∧ c'.Ahead (.mark close :: ks))
    (hitem : ∀ {before after xs : List α} {x : α}, items = before ++ x :: after →
      xs.map f = before.map f → ∀ {sign : Mark} {ks : List TokenKind} {c : Cursor},
      (sign = .comma ∨ sign = close) → c.Ahead (pr x ++ .mark sign :: ks) →
      Arrives (step xs) c fun s c' => ∃ x', f x' = f x ∧
        if sign = .comma then s = .again (xs ++ [x']) ∧ c'.Ahead ks
        else s = .done (xs ++ [x']) ∧ c'.Ahead (.mark sign :: ks))
    (hnot : close ≠ .comma)
    (h : c.Ahead (separated (items.map pr) ++ .mark close :: ks)) :
    Arrives (repeatStep step []) c fun xs c' =>
      xs.map f = items.map f ∧ c'.Ahead (.mark close :: ks) := by
  -- on the items that are left; `xs` are copies of those that have been read
  suffices hloop : ∀ (after before xs : List α) (c : Cursor), items = before ++ after →
      xs.map f = before.map f → c.Ahead (separated (after.map pr) ++ .mark close :: ks) →
      Loops step (fun xs c' => xs.map f = items.map f ∧ c'.Ahead (.mark close :: ks)) xs c from
    (hloop items [] [] c rfl rfl h).arrives
  intro after
  induction after with
  | nil =>
    intro before xs c hitems hxs hc
    refine .round ((hclose hc).imp ?_)
    rintro _ c' ⟨rfl, hc'⟩
    exact ⟨by rw [hxs, hitems, List.append_nil], hc'⟩
  | cons x after ih =>
    intro before xs c hitems hxs hc
    refine .round ?_
    -- a comma stands behind every item but the last
    cases after with
    | nil =>
      refine (hitem hitems hxs (.inr rfl) hc).imp ?_
      rintro s c' ⟨x', hx', hs⟩
      rw [if_neg hnot] at hs
      obtain ⟨rfl, hc'⟩ := hs
      refine ⟨?_, hc'⟩
      rw [List.map_append, hxs, hitems, List.map_append, List.map_singleton, hx',
        List.map_singleton]
    | cons y after =>
      have hc₁ : c.Ahead (pr x ++ .mark .comma ::
          (separated ((y :: after).map pr) ++ .mark close :: ks)) := by
        rw [List.map_cons, List.map_cons, separated, List.append_assoc] at hc
        · exact hc
        · exact nofun
      refine (hitem hitems hxs (.inl rfl) hc₁).imp ?_
      rintro s c' ⟨x', hx', hs⟩
      rw [if_pos rfl] at hs
      obtain ⟨rfl, hc'⟩ := hs
      refine ⟨?_, ih (before ++ [x]) (xs ++ [x']) c' (by simp [hitems]) (by simp [hxs, hx']) hc'⟩
      rw [hc'.length, hc₁.length]
      simp only [List.length_append, List.length_cons]
      omega

end Parser

end Enclave
