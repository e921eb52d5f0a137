import Enclave.Proofs.Syntax.Children
import Enclave.Proofs.Syntax.Lexing
import Enclave.Proofs.Syntax.Stepping
import Mathlib.Order.Nat

/-!
# Where nodes stand

While a source without malformed tokens is read, the tokens behind the cursor and the tokens ahead
make up the row that the lexer gave (`Cursor.Stands`). A node stands where it should if its region
begins and ends with tokens of that row and encloses the regions of its children
(`SyntaxNode.IsRead`). `Cursor.HasRead` collects what there is to say of some nodes that have just
been read: they and all nodes below them are as they should be, and they lie between the place where
the reading began and the last token read. What parsers do to this is put together from the lemmas
here: reading a token, reading on, and making a node of those read.
-/

namespace Enclave

/-- Whether a token is part of a program, and not a comment, malformed or the end of the input. -/
def TokenKind.isPlain : TokenKind → Bool
  | .lineComment _ | .blockComment _ | .endOfInput | .malformed _ => false
  | _ => true

/-- A word is a plain token. -/
theorem TokenKind.isPlain_of_isWord {kind : TokenKind} (h : kind.isWord = true) :
    kind.isPlain = true := by
  cases kind <;> first | rfl | cases h

/-- A unary operator is a plain token. -/
theorem Parser.isPlain_of_unaryOp? {kind : TokenKind} {op : UnaryOp}
    (h : unaryOp? kind = some op) : kind.isPlain = true := by
  cases kind <;> first | rfl | cases h

/-- A connective is a plain token. -/
theorem Parser.isPlain_of_connective? {kind : TokenKind} {connective : Connective × Nat}
    (h : connective? kind = some connective) : kind.isPlain = true := by
  cases kind <;> first | rfl | cases h

namespace Span

/-- A region that begins and ends with tokens. -/
structure IsCut (all : List Token) (s : Span) : Prop where
  start : ∃ t ∈ all, t.span.start = s.start
  stop : ∃ t ∈ all, t.span.stop = s.stop

/-- The other region lies in this one. -/
def Encloses (s s' : Span) : Prop :=
  s.start.offset ≤ s'.start.offset ∧ s'.stop.offset ≤ s.stop.offset

/-- A region that begins with a token at `lo`, where it does not reach beyond the first token. -/
structure Begins (all : List Token) (lo : Nat) (s : Span) : Prop where
  cut : s.IsCut all
  offset : s.start.offset = lo
  first : ∀ t ∈ all, lo ≤ t.span.start.offset → t.span.start.offset < t.span.stop.offset →
    s.stop.offset ≤ t.span.stop.offset

theorem merge_self (s : Span) : s.merge s = s := by
  simp [merge]

/-- The region of a token is cut from the tokens. -/
theorem isCut_of_mem {all : List Token} {t : Token} (h : t ∈ all) : t.span.IsCut all :=
  ⟨⟨t, h, rfl⟩, t, h, rfl⟩

variable {all : List Token} {a b : Span}

/-- Two cut regions together are cut. -/
theorem IsCut.merge (ha : a.IsCut all) (hb : b.IsCut all) : (a.merge b).IsCut all := by
  refine ⟨?_, ?_⟩
  · -- either end is one of the two
    unfold Span.merge
    dsimp only
    split
    · exact ha.start
    · exact hb.start
  · unfold Span.merge
    dsimp only
    split
    · exact ha.stop
    · exact hb.stop

/-- What is cut from some tokens is cut from more. -/
theorem IsCut.mono {all' : List Token} (h : a.IsCut all) (hsubset : all ⊆ all') : a.IsCut all' := by
  obtain ⟨⟨t, ht, hstart⟩, t', ht', hstop⟩ := h
  exact ⟨⟨t, hsubset ht, hstart⟩, t', hsubset ht', hstop⟩

/-- A region extended to the right begins where it did. -/
theorem start_merge (h : a.start.offset ≤ b.start.offset) : (a.merge b).start = a.start :=
  if_pos h

/-- A region extended to the right ends where the other does. -/
theorem offset_stop_merge (h : a.stop.offset ≤ b.stop.offset) :
    (a.merge b).stop.offset = b.stop.offset := by
  unfold merge
  dsimp only
  split
  · omega
  · rfl

end Span

/-- A node whose region is cut from tokens and encloses its children's, and which is regular. -/
structure SyntaxNode.IsRead (all : List Token) (n : SyntaxNode) : Prop where
  cut : n.span.IsCut all
  encloses : ∀ k ∈ n.children, n.span.Encloses k.span
  regular : n.IsRegular

namespace Cursor

/-- Where the next token begins. -/
def here (c : Cursor) : Nat := c.nextToken.span.start.offset

/-- The cursor stands in a row of tokens of which those before it have all been read as part of a
program. -/
structure Stands (all : List Token) (c : Cursor) : Prop where
  split : ∃ read, all = read ++ c.tokens ∧
    ∀ t ∈ read, t.kind.isPlain = true ∧ t.span.stop.offset ≤ c.last.stop.offset
  row : TokenRow c.last.stop.offset c.tokens
  finished : c.finished = false

/-- Besides, a token has been read at or behind `lo`. -/
structure Past (all : List Token) (lo : Nat) (c : Cursor) : Prop extends c.Stands all where
  last_mem : ∃ t ∈ all, t.span = c.last
  le_last : lo ≤ c.last.start.offset
  size : c.last.start.offset < c.last.stop.offset

/-- Where a node stands between `lo` and the last token read. -/
structure Placed (all : List Token) (lo : Nat) (c : Cursor) (n : SyntaxNode) : Prop where
  isRead : n.Everywhere (SyntaxNode.IsRead all)
  le_start : lo ≤ n.span.start.offset
  size : n.span.start.offset ≤ n.span.stop.offset
  stop_le : n.span.stop.offset ≤ c.last.stop.offset

/-- The nodes have been read from `lo` on. -/
structure HasRead (all : List Token) (lo : Nat) (nodes : List SyntaxNode) (c : Cursor) : Prop
    extends c.Past all lo where
  nodes : ∀ n ∈ nodes, c.Placed all lo n

variable {all : List Token} {lo lo' : Nat} {c c' : Cursor} {ks ks' : List SyntaxNode}

/-! ### Single tokens -/

/-- While a source is read, a next token lies ahead. -/
theorem Stands.tokens_eq (h : c.Stands all) : ∃ rest, c.tokens = c.nextToken :: rest := by
  cases htokens : c.tokens with
  | nil =>
    have hrow := h.row
    rw [htokens] at hrow
    cases hrow
  | cons t rest =>
    rw [nextToken_of_tokens htokens]
    exact ⟨rest, rfl⟩

/-- The next token is one of the row. -/
theorem Stands.next_mem (h : c.Stands all) : c.nextToken ∈ all := by
  obtain ⟨rest, htokens⟩ := h.tokens_eq
  obtain ⟨read, hall, -⟩ := h.split
  rw [hall, htokens]
  exact List.mem_append_right _ List.mem_cons_self

/-- The token read last ends before the next one begins. -/
theorem Stands.last_le_here (h : c.Stands all) : c.last.stop.offset ≤ c.here := by
  obtain ⟨rest, htokens⟩ := h.tokens_eq
  exact h.row.le_start (by rw [htokens]; exact List.mem_cons_self)

/-- Behind a token, that token was read last. -/
theorem Stands.last_behind (h : c.Stands all) : c.behind.last = c.nextToken.span := by
  obtain ⟨rest, htokens⟩ := h.tokens_eq
  rw [behind_of_tokens htokens]

/-- Reading a token of a program. -/
theorem Stands.past_behind (h : c.Stands all) (hplain : c.kind.isPlain = true) :
    c.behind.Past all c.here := by
  obtain ⟨rest, htokens⟩ := h.tokens_eq
  obtain ⟨read, hall, hread⟩ := h.split
  -- a plain token is not the end of the input, so another token follows it
  have hnotEnd : c.nextToken.kind ≠ .endOfInput := by
    intro hend
    rw [kind, hend] at hplain
    cases hplain
  have hrow := h.row
  have hmem := h.next_mem
  have hle := h.last_le_here
  rw [htokens] at hrow
  rw [behind_of_tokens htokens]
  cases hrow with
  | last hend => exact absurd hend hnotEnd
  | cons _ _ _ hsize hrest =>
    refine ⟨⟨⟨read ++ [c.nextToken], ?_, ?_⟩, hrest, ?_⟩, ⟨_, hmem, rfl⟩, Nat.le_refl _, hsize⟩
    · rw [hall, htokens, List.append_assoc]
      rfl
    · -- what was read stops where this token starts at the latest
      intro t ht
      change _ ∧ _ ≤ c.nextToken.span.stop.offset
      rcases List.mem_append.mp ht with ht | ht
      · have hstop := (hread t ht).2
        change c.last.stop.offset ≤ c.nextToken.span.start.offset at hle
        exact ⟨(hread t ht).1, by omega⟩
      · cases List.mem_singleton.mp ht
        exact ⟨hplain, Nat.le_refl _⟩
    · change (c.finished || c.nextToken.isEndOfInput) = false
      rw [h.finished, Bool.false_or]
      exact decide_eq_false hnotEnd

/-- The name of a token of a row is its text. -/
theorem Stands.spelled (h : c.Stands all) (hplain : c.kind.isPlain = true) :
    c.kind.IsSpelled c.nextToken.lexeme := by
  obtain ⟨rest, htokens⟩ := h.tokens_eq
  have hrow := h.row
  rw [htokens] at hrow
  cases hrow with
  | last hend =>
    rw [kind, hend] at hplain
    cases hplain
  | cons _ hspelled => exact hspelled

/-- A cursor that has not moved stands where it did. -/
theorem Stands.stays (h : c.Stands all) (hstays : c.Stays c') : c'.Stands all where
  split := by
    rw [hstays.tokens, hstays.last]
    exact h.split
  row := by
    rw [hstays.tokens, hstays.last]
    exact h.row
  finished := by rw [hstays.finished, h.finished]

/-! ### Reading on -/

/-- What is past a place is past every earlier one. -/
theorem Past.of_le (h : c.Past all lo) (hle : lo' ≤ lo) : c.Past all lo' :=
  { h with le_last := hle.trans h.le_last }

/-- The cursor is not in front of what it is past. -/
theorem Past.le_here (h : c.Past all lo) : lo ≤ c.here :=
  h.le_last.trans (h.size.le.trans h.last_le_here)

/-- A node that has been placed stays so while reading goes on. -/
theorem Placed.mono {n : SyntaxNode} (h : c.Placed all lo' n) (hlo : lo ≤ lo')
    (hlast : c.last.stop.offset ≤ c'.last.stop.offset) : c'.Placed all lo n :=
  ⟨h.isRead, hlo.trans h.le_start, h.size, h.stop_le.trans hlast⟩

/-- Having read nothing but tokens. -/
theorem Past.hasRead (h : c.Past all lo) : c.HasRead all lo [] :=
  { h with nodes := nofun }

/-- Without moving, what was read stays read. -/
theorem HasRead.stays (h : c.HasRead all lo ks) (hstays : c.Stays c') : c'.HasRead all lo ks where
  toStands := h.toStands.stays hstays
  last_mem := by
    rw [hstays.last]
    exact h.last_mem
  le_last := by
    rw [hstays.last]
    exact h.le_last
  size := by
    rw [hstays.last]
    exact h.size
  nodes n hn := (h.nodes n hn).mono (Nat.le_refl _) (hstays.last ▸ Nat.le_refl _)

/-- Of nodes that have been read, some may be left out. -/
theorem HasRead.of_subset (h : c.HasRead all lo ks) (hsubset : ks' ⊆ ks) : c.HasRead all lo ks' :=
  { h with nodes := fun n hn => h.nodes n (hsubset hn) }

/-- Reading more nodes from where the cursor stands. -/
theorem HasRead.append (h : c.HasRead all lo ks) (h' : c'.HasRead all c.here ks') :
    c'.HasRead all lo (ks ++ ks') where
  toPast := h'.toPast.of_le h.le_here
  nodes n hn := by
    have hlast : c.last.stop.offset ≤ c'.last.stop.offset :=
      h.last_le_here.trans (h'.le_last.trans h'.size.le)
    rcases List.mem_append.mp hn with hn | hn
    · exact (h.nodes n hn).mono (Nat.le_refl _) hlast
    · exact (h'.nodes n hn).mono h.le_here (Nat.le_refl _)

/-- Reading a token before all nodes. -/
theorem Stands.next (h : c.Stands all) {kind : TokenKind} (hkind : c.kind = kind)
    (hplain : kind.isPlain = true) : c.behind.HasRead all c.here [] :=
  (h.past_behind (hkind ▸ hplain)).hasRead

/-- Reading a token behind nodes. -/
theorem HasRead.next (h : c.HasRead all lo ks) {kind : TokenKind} (hkind : c.kind = kind)
    (hplain : kind.isPlain = true) : c.behind.HasRead all lo ks := by
  have happend := h.append (h.toStands.next hkind hplain)
  rwa [List.append_nil] at happend

/-! ### Nodes from nodes -/

/-- What the next token begins. -/
theorem Stands.begins (h : c.Stands all) : c.nextToken.span.Begins all c.here where
  cut := Span.isCut_of_mem h.next_mem
  offset := rfl
  first t ht hle hsize := by
    obtain ⟨rest, htokens⟩ := h.tokens_eq
    obtain ⟨read, hall, hread⟩ := h.split
    have hlast := h.last_le_here
    rw [hall] at ht
    rcases List.mem_append.mp ht with ht | ht
    · -- a token read before cannot begin here
      have hstop := (hread t ht).2
      omega
    · have hrow := h.row
      rw [htokens] at ht hrow
      rcases List.mem_cons.mp ht with rfl | ht
      · exact Nat.le_refl _
      · cases hrow with
        | last => cases ht
        | cons _ _ _ _ hrest =>
          have hstart := hrest.le_start ht
          omega

/-- A node from one region to another, if its children lie between them. -/
theorem Past.node {n : SyntaxNode} {first last : Span} (h : c.Past all lo)
    (hspan : n.span = first.merge last) (hfirst : first.IsCut all) (hlast : last.IsCut all)
    (hlo : lo ≤ first.start.offset) (hstart : first.start.offset ≤ last.start.offset)
    (hstop : first.stop.offset ≤ last.stop.offset) (hsize : last.start.offset ≤ last.stop.offset)
    (hle : last.stop.offset ≤ c.last.stop.offset)
    (hchildren : ∀ k ∈ n.children, k.Everywhere (SyntaxNode.IsRead all) ∧
      first.start.offset ≤ k.span.start.offset ∧ k.span.stop.offset ≤ last.stop.offset)
    (hregular : n.IsRegular) : c.HasRead all lo [n] := by
  -- the span merged starts with its first part and stops with its last
  have hnstart : n.span.start = first.start := by rw [hspan, Span.start_merge hstart]
  have hnstop : n.span.stop.offset = last.stop.offset := by
    rw [hspan, Span.offset_stop_merge hstop]
  refine { h with nodes := fun k hk => ?_ }
  cases List.mem_singleton.mp hk
  refine ⟨.intro ⟨hspan ▸ hfirst.merge hlast, fun k hk => ?_, hregular⟩
    fun k hk => (hchildren k hk).1, ?_, ?_, ?_⟩
  · unfold Span.Encloses
    rw [hnstart, hnstop]
    exact (hchildren k hk).2
  · rw [hnstart]
    exact hlo
  · rw [hnstart, hnstop]
    exact hstart.trans hsize
  · rw [hnstop]
    exact hle

/-- A node from its first token to the last token read. -/
theorem HasRead.enclosed {n : SyntaxNode} {start : Span} (h : c.HasRead all lo n.children)
    (hstart : start.Begins all lo) (hspan : n.span = start.merge c.last)
    (hregular : n.IsRegular) : c.HasRead all lo [n] := by
  obtain ⟨t, ht, hlast⟩ := h.last_mem
  refine h.toPast.node hspan hstart.cut (hlast ▸ Span.isCut_of_mem ht) hstart.offset.ge ?_ ?_
    h.size.le (Nat.le_refl _) (fun k hk => ?_) hregular
  · rw [hstart.offset]
    exact h.le_last
  · exact hlast ▸ hstart.first t ht (hlast ▸ h.le_last) (hlast ▸ h.size)
  · obtain ⟨hread, hlo, -, hstop⟩ := h.nodes k hk
    exact ⟨hread, hstart.offset.trans_le hlo, hstop⟩

/-- A node that is a single token. -/
theorem Stands.single {n : SyntaxNode} (h : c.Stands all) {kind : TokenKind} (hkind : c.kind = kind)
    (hchildren : n.children = []) (hspan : n.span = c.nextToken.span) (hregular : n.IsRegular)
    (hplain : kind.isPlain = true) : c.behind.HasRead all c.here [n] := by
  refine HasRead.enclosed (hchildren ▸ h.next hkind hplain) h.begins ?_ hregular
  rw [h.last_behind, Span.merge_self, hspan]

/-- The region of a placed node is cut from the row. -/
theorem isCut_of_placed {n : SyntaxNode} (h : c.Placed all lo n) : n.span.IsCut all := by
  cases h.isRead with
  | intro here _ => exact here.cut

/-- A node from its first child to the last token read. -/
theorem HasRead.extended {n k : SyntaxNode} (hk : c.HasRead all lo [k])
    (h : c'.HasRead all c.here ks) (hchildren : n.children = k :: ks)
    (hspan : n.span = k.span.merge c'.last) (hregular : n.IsRegular) :
    c'.HasRead all lo [n] := by
  obtain ⟨t, ht, hlast⟩ := h.last_mem
  have hplaced := hk.nodes k List.mem_cons_self
  have hsize := hplaced.size
  have hstop := hplaced.stop_le
  have hhere := hk.last_le_here
  have hbehind := h.le_last
  have hlast' := h.size
  refine (h.toPast.of_le hk.le_here).node hspan (isCut_of_placed hplaced)
    (hlast ▸ Span.isCut_of_mem ht) hplaced.le_start (by omega) (by omega) (by omega)
    (Nat.le_refl _) (fun k' hk' => ?_) hregular
  rw [hchildren] at hk'
  rcases List.mem_cons.mp hk' with rfl | hk'
  · -- the first child begins the node, and the others stand behind it
    exact ⟨hplaced.isRead, Nat.le_refl _, by omega⟩
  · obtain ⟨hread, hlo, -, hstop'⟩ := h.nodes k' hk'
    exact ⟨hread, by omega, hstop'⟩

/-- A node from its first child to its second. -/
theorem HasRead.joined {n a b : SyntaxNode} (ha : c.HasRead all lo [a])
    (hb : c'.HasRead all c.here [b]) (hchildren : n.children = [a, b])
    (hspan : n.span = a.span.merge b.span) (hregular : n.IsRegular) : c'.HasRead all lo [n] := by
  have haPlaced := ha.nodes a List.mem_cons_self
  have hbPlaced := hb.nodes b List.mem_cons_self
  obtain ⟨haRead, haLe, haSize, haStop⟩ := haPlaced
  obtain ⟨hbRead, hbLe, hbSize, hbStop⟩ := hbPlaced
  -- The left node ends before the right one begins, so they do not overlap.
  have hhere := ha.last_le_here
  refine (hb.toPast.of_le ha.le_here).node hspan
    (isCut_of_placed (ha.nodes a List.mem_cons_self))
    (isCut_of_placed (hb.nodes b List.mem_cons_self)) haLe (by omega) (by omega) hbSize hbStop
    (fun k hk => ?_) hregular
  rw [hchildren] at hk
  rcases List.mem_cons.mp hk with rfl | hk
  · exact ⟨haRead, Nat.le_refl _, by omega⟩
  · cases List.mem_singleton.mp hk
    exact ⟨hbRead, by omega, Nat.le_refl _⟩

/-- A node from its first token to its only child. -/
theorem Past.prefixed {n k : SyntaxNode} {start : Span} (hc : c.Past all lo)
    (h : c'.HasRead all c.here [k]) (hstart : start.Begins all lo) (hlast : c.last = start)
    (hchildren : n.children = [k]) (hspan : n.span = start.merge k.span)
    (hregular : n.IsRegular) : c'.HasRead all lo [n] := by
  subst hlast
  have hplaced := h.nodes k List.mem_cons_self
  obtain ⟨hread, hle, hsize, hstop⟩ := hplaced
  -- The operator ends before the operand begins.
  have hhere := hc.last_le_here
  have hbefore := hc.size
  refine (h.toPast.of_le hc.le_here).node hspan hstart.cut
    (isCut_of_placed (h.nodes k List.mem_cons_self)) hstart.offset.ge (by omega) (by omega) hsize
    hstop (fun k' hk' => ?_) hregular
  rw [hchildren] at hk'
  cases List.mem_singleton.mp hk'
  exact ⟨hread, by omega, Nat.le_refl _⟩

end Cursor

end Enclave
