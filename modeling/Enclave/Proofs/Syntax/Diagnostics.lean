import Enclave.CompiledUnit
import Enclave.Proofs.Source.Printing
import Enclave.Proofs.Syntax.Bindings
import Enclave.Proofs.Syntax.Coverage
import Enclave.Proofs.Syntax.Recovery
import Enclave.Proofs.Syntax.SourceText

/-!
# Diagnoses of sources

Whatever is wrong with the source of a text, the line where it begins is printed
(`compile_diagnosed`). Every error that reading or binding gives has a region that begins and ends
with tokens (`isCut_of_compile_error`), and tokens of a text begin and end between its characters
(`Lexer.cuts_of_mem`). So the line can be cut out, and the mark printed under it lies within the
line or right behind it (`Span.IsShown`).
-/

namespace Enclave

open Text

/-! ### Points between characters -/

/-- A point of a text between two characters, to which the bytes before lead. -/
def Position.Cuts (q : Position) (source : List UInt8) : Prop :=
  ∃ before rest, source = before ++ rest ∧ IsText before ∧ IsText rest ∧
    q = Position.origin.after before

namespace Lexer

/-- Tokens begin and end where the bytes before lead, and what is behind has the property that
passes on. -/
theorem Passes.exists_behind {P : List UInt8 → Prop} (hP : Passes P)
    {source input : List UInt8} (before : List UInt8) {pending : Nat}
    (hsource : source = before ++ input)
    (hinput : P (input.drop pending)) :
    ∀ t ∈ tokensFrom (Position.origin.after before) pending input,
      ∀ q, q = t.span.start ∨ q = t.span.stop →
        ∃ front behind, source = front ++ behind ∧ P behind ∧ q = Position.origin.after front := by
  -- along the bytes, with those that the lexer has passed
  induction input generalizing before pending with
  | nil =>
    intro t ht q hq
    cases List.mem_singleton.mp ht
    rw [List.drop_nil] at hinput
    exact ⟨before, [], hsource, hinput, hq.elim id id⟩
  | cons b rest ih =>
    have hnext : (Position.origin.after before).advance b =
        Position.origin.after (before ++ [b]) := (Position.after_append _ before [b]).symm
    have hbehind : source = before ++ [b] ++ rest := by rw [hsource, List.append_assoc]; rfl
    unfold tokensFrom
    cases pending with
    | succ pending =>
      rw [hnext]
      exact ih _ hbehind hinput
    | zero =>
      dsimp only
      rw [hnext]
      split
      · next hspace => exact ih _ hbehind (hP.blank hspace hinput)
      · next hspace =>
        have hrest := hP.token (Bool.eq_false_iff.mpr hspace) hinput
        intro t ht
        rcases List.mem_cons.mp ht with rfl | ht
        · -- the places of the token found here: its own, and that behind its bytes
          rintro q (rfl | rfl)
          · exact ⟨before, b :: rest, hsource, hinput, rfl⟩
          · refine ⟨before ++ [b] ++ rest.take (scan b rest).more, rest.drop (scan b rest).more,
              ?_, hrest, (Position.after_append _ _ _).symm⟩
            rw [List.append_assoc, List.take_append_drop, hbehind]
        · exact ih _ hbehind hrest t ht

/-- **Tokens of a text** begin and end between characters. -/
theorem cuts_of_mem {text : String} {t : Token} (ht : t ∈ tokens (utf8 text)) :
    t.span.start.Cuts (utf8 text) ∧ t.span.stop.Cuts (utf8 text) := by
  have hcuts : ∀ q, q = t.span.start ∨ q = t.span.stop → q.Cuts (utf8 text) := by
    intro q hq
    have htext : IsText ((utf8 text).drop 0) := isText_utf8 text
    obtain ⟨front, behind, heq, hbehind, hq⟩ :=
      passes_isText.exists_behind [] rfl htext t ht q hq
    refine ⟨front, behind, heq, ?_, hbehind, hq⟩
    exact (heq ▸ isText_utf8 text : IsText (front ++ behind)).inFront hbehind
  exact ⟨hcuts _ (Or.inl rfl), hcuts _ (Or.inr rfl)⟩

end Lexer

theorem Span.IsCut.cuts {text : String} {s : Span} (h : s.IsCut (Lexer.tokens (utf8 text))) :
    s.start.Cuts (utf8 text) ∧ s.stop.Cuts (utf8 text) := by
  obtain ⟨⟨t, ht, hstart⟩, t', ht', hstop⟩ := h
  exact ⟨hstart ▸ (Lexer.cuts_of_mem ht).1, hstop ▸ (Lexer.cuts_of_mem ht').2⟩

/-! ### Complaints -/

/-- What is said about a source: the kind of an error, its message, and the region it is about. -/
structure Complaint where
  kind : String
  message : String
  span : Span
  deriving DecidableEq

/-- What is said about the source for each error, in order. -/
def CompileError.complaints : CompileError → List Complaint
  | .syntaxErrors errors => errors.map fun e => ⟨"Parse error", e.fault.message, e.span⟩
  | .scopeErrors errors => errors.map fun e => ⟨"Scope error", e.fault.message, e.span⟩

theorem CompileError.diagnosis_eq (source : List UInt8) (err : CompileError) :
    err.diagnosis source =
      "\n".intercalate (err.complaints.map fun c => diagnostic source c.kind c.message c.span) := by
  cases err with
  | syntaxErrors errors | scopeErrors errors =>
    rw [diagnosis, complaints, List.map_map]
    rfl

open SyntaxNode

/-- What holds everywhere in the statements of a program holds at all its places. -/
theorem Program.everywhere_of_mem_places {p : Program} {P : SyntaxNode → Prop}
    (h : ∀ s ∈ p.body, (SyntaxNode.stmt s).Everywhere P) {place : Place}
    (hplace : place ∈ p.places) : place.node.Everywhere P := by
  obtain ⟨n, hn, hmem⟩ := List.mem_flatMap.mp hplace
  obtain ⟨s, hs, rfl⟩ := List.mem_map.mp hn
  refine (h s hs).of_mem ?_
  rw [← node_places []]
  exact List.mem_map_of_mem hmem

/-- The region where an offence is reported is that of a node. -/
theorem SyntaxNode.Place.offence_span {place : Place} {e : ScopeError} {P : Span → Prop}
    (hoffence : place.offence? = some e) (h : place.node.Everywhere fun n => P n.span) :
    P e.span := by
  obtain ⟨n, above⟩ := place
  cases n with
  | expr x =>
    obtain ⟨id, span, height, form⟩ := x
    cases h with
    | intro here below =>
      -- an accessor out of place is reported where it stands, and `super` at the whole expression
      have haccessor : ∀ a, SyntaxNode.accessor a ∈ form.children → P a.span := fun a ha =>
        (below _ ha).here
      cases form with
      -- an accessor outside of every class
      | slot a key =>
        simp only [Place.offence?] at hoffence
        split at hoffence
        · cases hoffence
        · cases hoffence
          exact haccessor a List.mem_cons_self
      | hasSlot key a =>
        simp only [Place.offence?] at hoffence
        split at hoffence
        · cases hoffence
        · cases hoffence
          exact haccessor a (List.mem_cons_of_mem _ List.mem_cons_self)
      -- a use of `super` where there is none
      | superCall args | superMember name =>
        simp only [Place.offence?] at hoffence
        split at hoffence
        · cases hoffence
        · cases hoffence
          exact here
      | _ => cases hoffence
  | _ => cases hoffence

/-- **Errors in sources** have regions that begin and end with tokens. -/
theorem isCut_of_compile_error {source : List UInt8} {err : CompileError}
    (h : compile source = .error err) :
    ∀ c ∈ err.complaints, c.span.IsCut (Lexer.tokens source) := by
  intro c hc
  unfold compile at h
  -- Either reading failed, and its errors are cut from the tokens, or binding did.
  split at h
  · next errors hread =>
    cases h
    obtain ⟨e, he, rfl⟩ := List.mem_map.mp hc
    exact (Program.read_error hread).cut e he
  · next p hread =>
    split at h
    · next errors hbind =>
      cases h
      obtain ⟨e, he, rfl⟩ := List.mem_map.mp hc
      rw [Program.bind_eq] at hbind
      split at hbind
      · cases hbind
      · cases hbind
        -- offences are reported at nodes of the program that was read
        obtain ⟨place, hplace, hoffence⟩ :=
          List.mem_filterMap.mp (p.errors_findings.mem_iff.mp he)
        obtain ⟨lo, hcovers⟩ := Program.covers_read hread
        have hwithin := Program.everywhere_of_mem_places
          (fun s hs => (hcovers.within s hs).2) hplace
        refine SyntaxNode.Place.offence_span (P := fun s => s.IsCut (Lexer.tokens source)) hoffence
          (hwithin.imp fun n hn => ?_)
        exact hn.cut.mono (List.filter_subset_self _)
    · cases h

/-! ### Lines shown -/

/-- A number of bytes behind which a text may be cut in two. -/
structure Text.IsBoundary (bytes : List UInt8) (i : ℕ) : Prop where
  le : i ≤ bytes.length
  front : IsText (bytes.take i)
  behind : IsText (bytes.drop i)

theorem Text.isBoundary_append {front behind : List UInt8} (hfront : IsText front)
    (hbehind : IsText behind) : IsBoundary (front ++ behind) front.length where
  le := by
    rw [List.length_append]
    exact Nat.le_add_right _ _
  front := by rwa [List.take_left]
  behind := by rwa [List.drop_left]

/-- A line that is printed shows where a span starts, and the mark under it is in the right place,
counted in bytes. -/
structure Span.IsShown (span : Span) (source : List UInt8) (line mark : String) : Prop where
  /-- Lines and columns are counted from one. -/
  counted : 1 ≤ span.start.line ∧ 1 ≤ span.start.column
  /-- The line begins in the source, between two characters, -/
  start : IsBoundary source (span.start.offset - (span.start.column - 1))
  /-- and so it ends. -/
  stop : IsBoundary source
    (span.start.offset - (span.start.column - 1) + (utf8 line).length)
  cut : (source.drop (span.start.offset - (span.start.column - 1))).take (utf8 line).length =
    utf8 line
  /-- It is the line with the number of the span. -/
  numbered : (source.splitOn 0x0A)[span.start.line - 1]? = some (utf8 line)
  /-- The mark is blanks and then arrow heads. -/
  shape : mark = copies ' ' (markColumn mark) ++ copies '^' (markWidth mark)
  column : span.start.offset - (span.start.column - 1) + markColumn mark = span.start.offset
  width : 1 ≤ markWidth mark
  /-- The mark does not reach beyond the line, unless it is right behind it. -/
  within : markColumn mark + markWidth mark ≤ (utf8 line).length ∨
    markColumn mark = (utf8 line).length ∧ markWidth mark = 1

/-- Under a message that is printed, the excerpt of a text shows the line of the span, if the span
starts between characters. -/
theorem Position.Cuts.shows {source : List UInt8} {span : Span} (h : span.start.Cuts source)
    (kind message : String) :
    ∃ line mark, Excerpt.of? source span = some ⟨line, markColumn mark, markWidth mark⟩ ∧
      printedLines (diagnostic source kind message span) =
        printedLines (kind ++ ": " ++ message) ++ excerptLines span.start line mark ∧
      span.IsShown source line mark := by
  obtain ⟨before, rest, rfl, hbefore, hrest, hstart⟩ := h
  obtain ⟨line, hline, hof⟩ := Excerpt.of?_eq hbefore hrest hstart
  have hinLine : ∀ b ∈ utf8 line, isInLine b = true := by
    rw [hline]
    exact isInLine_of_mem_line before rest
  refine ⟨line, _, ?_, printedLines_diagnostic hof hinLine kind message, ?_⟩
  · rw [hof, Excerpt.markColumn_mark, Excerpt.markWidth_mark]
  rw [Position.after_origin] at hstart
  -- The start of the region is as far behind the start of its line as the line has bytes before it.
  have habove := congrArg List.length (linesAbove_append before)
  rw [List.length_append] at habove
  have hlineStart : span.start.offset - (span.start.column - 1) = (linesAbove before).length := by
    rw [hstart]
    dsimp only
    omega
  -- the source is the lines above, the line that is shown, and the rest
  obtain ⟨below, hbelow⟩ : ∃ below, lineBehind rest ++ below = rest :=
    ⟨_, List.takeWhile_append_dropWhile⟩
  have hsource : before ++ rest = linesAbove before ++ (utf8 line ++ below) := by
    rw [hline, List.append_assoc, hbelow, ← List.append_assoc, linesAbove_append]
  have hshown : IsText (utf8 line ++ below) := by
    rw [hline, List.append_assoc, hbelow]
    exact hbefore.lineBefore.append hrest
  have hlength : (utf8 line).length = (lineBefore before).length + (lineBehind rest).length := by
    rw [hline, List.length_append]
  refine
    { counted := ?counted
      start := ?start
      stop := ?stop
      cut := ?cut
      numbered := ?numbered
      shape := ?shape
      column := ?column
      width := ?width
      within := ?within }
  case counted =>
    rw [hstart]
    exact ⟨Nat.le_add_left _ _, Nat.le_add_left _ _⟩
  -- the line begins between characters
  case start =>
    rw [hlineStart, hsource]
    exact isBoundary_append hbefore.linesAbove hshown
  -- and ends between characters
  case stop =>
    rw [hlineStart, hsource, ← List.append_assoc, ← List.length_append]
    exact isBoundary_append (hbefore.linesAbove.append (isText_utf8 line))
      (hshown.behind (isText_utf8 line))
  case cut =>
    rw [hlineStart, hsource, List.drop_left, List.take_left]
  case numbered =>
    rw [hstart, hline]
    exact getElem?_splitOn before rest
  case shape =>
    rw [Excerpt.markColumn_mark, Excerpt.markWidth_mark]
    rfl
  case column =>
    rw [Excerpt.markColumn_mark, hlineStart, hstart]
    exact habove
  case width =>
    rw [Excerpt.markWidth_mark]
    exact Nat.le_max_left _ _
  -- the mark does not begin behind the end of the line
  case within =>
    rw [Excerpt.markColumn_mark, Excerpt.markWidth_mark]
    dsimp only
    omega

/-- **Diagnoses never fail, and show the right line.** The diagnosis of a text is that of its
errors, one after another. For each error the line can be cut out, and what is printed ends with it
and the mark under it. -/
theorem compile_diagnosed {text : String} {err : CompileError}
    (h : compile (utf8 text) = .error err) :
    err.diagnosis (utf8 text) = "\n".intercalate (err.complaints.map fun c =>
      diagnostic (utf8 text) c.kind c.message c.span) ∧
    ∀ c ∈ err.complaints, ∃ line mark,
      Excerpt.of? (utf8 text) c.span = some ⟨line, markColumn mark, markWidth mark⟩ ∧
      printedLines (diagnostic (utf8 text) c.kind c.message c.span) =
        printedLines (c.kind ++ ": " ++ c.message) ++ excerptLines c.span.start line mark ∧
      c.span.IsShown (utf8 text) line mark :=
  ⟨err.diagnosis_eq _, fun c hc =>
    ((isCut_of_compile_error h c hc).cuts).1.shows c.kind c.message⟩

/-- A source with a given complaint is not compiled. -/
theorem exists_complaint (source : List UInt8) (c : Complaint)
    (h : (match compile source with
      | .error err => decide (c ∈ err.complaints)
      | .ok _ => false) = true) :
    ∃ err, compile source = .error err ∧ c ∈ err.complaints := by
  cases hcompile : compile source with
  | error err =>
    rw [hcompile] at h
    exact ⟨err, rfl, of_decide_eq_true h⟩
  | ok unit =>
    rw [hcompile] at h
    cases h

/-- A call that is not finished before the source ends, with an empty line. -/
def unfinished : String := "f(\n"

theorem compile_diagnosed_unfinished : ∃ err c line mark,
    compile (utf8 unfinished) = .error err ∧ c ∈ err.complaints ∧
      printedLines (diagnostic (utf8 unfinished) c.kind c.message c.span) =
        ["Parse error: expected expression, found end of input", " --> 2:1", "  |", "2 | ",
          "  | ^"] ∧
      c.span.IsShown (utf8 unfinished) line mark ∧ line = "" ∧ mark = "^" := by
  let c : Complaint :=
    ⟨"Parse error", "expected expression, found end of input", ⟨⟨3, 2, 1⟩, ⟨3, 2, 1⟩⟩⟩
  obtain ⟨err, hcompile, hc⟩ := exists_complaint (utf8 unfinished) c (by decide +kernel)
  obtain ⟨-, hshown⟩ := compile_diagnosed hcompile
  obtain ⟨line, mark, -, hprinted, hshows⟩ := hshown c hc
  have hempty : ((utf8 unfinished).splitOn 0x0A)[1]? = some (utf8 "") := by decide +kernel
  obtain rfl : line = "" := utf8_injective (Option.some.inj (hshows.numbered.symm.trans hempty))
  -- the mark is right behind the empty line, so it is one arrow head
  have hcolumn : markColumn mark = 0 := Nat.add_left_cancel hshows.column
  have hwidth : markWidth mark = 1 := by
    have hbytes : (utf8 "").length = 0 := by decide +kernel
    have hsome := hshows.width
    have hwithin := hshows.within
    omega
  have hmark : mark = "^" := by
    rw [hshows.shape, hcolumn, hwidth]
    rfl
  have hlines : printedLines (c.kind ++ ": " ++ c.message) ++ excerptLines c.span.start "" "^" =
      ["Parse error: expected expression, found end of input", " --> 2:1", "  |", "2 | ",
        "  | ^"] := by decide +kernel
  exact ⟨err, c, "", mark, hcompile, hc, (hmark ▸ hprinted).trans hlines, hshows, rfl, hmark⟩

end Enclave
