import Reckoner.Proofs.Expr.Value
import Reckoner.Proofs.Lexer.Indexed
import Reckoner.Proofs.Lexer.Provenance
import Reckoner.Proofs.Parser.Canonical
import Reckoner.Proofs.Parser.Cells
import Reckoner.Proofs.Parser.Resumption

/-!
# From the Cells of a Lexer to a Value

What is true of a lexer at every moment, and why a tree that was read has a value.

A number goes a long way. The scanner puts its text down in a cell, from there it goes
into the queue beside a marker, from the queue into the cell for the number consumed
last, and the parser takes it from there when it has consumed the marker. In between
anything may happen to the lexer, raw operations included, which move the scanner and
overwrite the cell of the text scanned last. `IndexedLexer.Sound` is what stays true
through all of it, and it is strong enough for the parser to rely on: where a marker
for a number is consumed, the text in the cell is there, is that number's, and has the
form of a literal.

The trees of a parser that was built over such a lexer therefore hold literals that were
spelled in the text, however the lexer was used before and whatever was asked of the
parser. A parser over the cells has nothing but the literal to take the texts from, and it
reads the same trees (`readAllWithin_eq`). Literals have values, and so have the trees.

## Main definitions

* `IndexedLexer.Sound`: What is true of the cells at every moment.

## Theorems

* `Represents.sound`: The cells of a lexer over a text are sound.
* `Represents.position_le_step`: The index never decreases.
* `Represents.literal_step`: Only consuming a number changes the literal.
* `Over.readAll`, `Over.tree`: What a parser reads comes from the text.
* `writable_of_read`: A tree that was read can be written, and so it has a value.
* `cells_kept`: All of this, for every text and whatever is done.
-/

namespace Reckoner

/-- What is true at every moment of the cells of a lexer over a text. -/
structure IndexedLexer.Sound (source : List Char) (x : IndexedLexer) : Prop where
  input_eq : x.input = source
  position_le : x.position ≤ x.input.length
  current_eq : x.current = x.input[x.position]?
  no_blank : ∀ entry ∈ x.queue, entry.1 ≠ .blank
  text_iff : ∀ entry ∈ x.queue, entry.2.isSome = true ↔ entry.1 = .number
  text_form : ∀ entry ∈ x.queue, ∀ text, entry.2 = some text →
    Literal.IsLiteral text.toList ∧ text.toList <:+: x.input
  held_form : ∀ text, x.literal = some text →
    Literal.IsLiteral text.toList ∧ text.toList <:+: x.input
  end_last : ∀ before behind text, x.queue = before ++ (.endOfInput, text) :: behind →
    x.position = x.input.length ∧ ∀ entry ∈ behind, entry.1 = .endOfInput

namespace Token

variable {t : Token}

-- The kind of a token tells whether it is the end and whether it has a text.
theorem eq_of_kind_endOfInput (h : t.kind = .endOfInput) : t = .endOfInput := by
  cases t with
  | endOfInput => rfl
  | _ => cases h

theorem literal?_isSome_iff : t.literal?.isSome = true ↔ t.kind = .number := by
  cases t with
  | number literal => exact ⟨fun _ => rfl, fun _ => rfl⟩
  | _ => exact ⟨nofun, nofun⟩

theorem literal?_eq_some {text : String} (h : t.literal? = some text) : t = .number text := by
  cases t with
  | number literal => rw [Option.some.inj h]
  | _ => cases h

-- It also tells a blank, which comes from no text.
theorem ComesFrom.kind_ne_blank {source : List Char} (h : t.ComesFrom source) :
    t.kind ≠ .blank := by
  cases t with
  | blank c =>
      rcases h with hend | ⟨hlexeme, -⟩
      · cases hend
      · exact hlexeme.elim
  | _ => exact nofun

end Token

namespace IndexedLexer.Represents

variable {source : List Char} {x : IndexedLexer} {l : Lexer}

/-- The cells of a lexer that is over a text are sound. -/
theorem sound (h : x.Represents source l) (hover : l.Over source) (hends : l.EndIsLast) :
    x.Sound source := by
  have hentry : ∀ entry ∈ x.queue, ∃ t ∈ l.queue, entry = t.entry := by
    intro entry hmem
    rw [h.queue] at hmem
    rcases List.mem_map.mp hmem with ⟨t, ht, heq⟩
    exact ⟨t, ht, heq.symm⟩
  refine
    { input_eq := h.input
      position_le := by rw [h.input, h.position]; exact h.position_le
      current_eq := by rw [h.input, h.position]; exact h.current
      no_blank := fun entry hmem => ?_
      text_iff := fun entry hmem => ?_
      text_form := fun entry hmem text htext => ?_
      held_form := fun text hheld => ?_
      end_last := fun before behind text hsplit => ?_ }
  · rcases hentry entry hmem with ⟨t, ht, rfl⟩
    exact (hover.queued t ht).kind_ne_blank
  · rcases hentry entry hmem with ⟨t, -, rfl⟩
    exact Token.literal?_isSome_iff
  · rcases hentry entry hmem with ⟨t, ht, rfl⟩
    have hqueued := hover.queued t ht
    rw [Token.literal?_eq_some htext] at hqueued
    rw [h.input]
    exact hqueued.number
  · rw [h.input]
    exact (hover.held text (h.literal ▸ hheld)).number
  · rw [h.queue] at hsplit
    rcases List.map_eq_append_iff.mp hsplit with ⟨front, back, hqueue, -, hback⟩
    rcases List.map_eq_cons_iff.mp hback with ⟨t, rest, rfl, ht, rfl⟩
    have hend : t = .endOfInput := Token.eq_of_kind_endOfInput (congrArg Prod.fst ht)
    rcases hends front rest (by rw [hqueue, hend]) with ⟨hnil, hrest⟩
    have hlength := h.length_unread
    have hle := h.position_le
    rw [hnil, List.length_nil] at hlength
    refine ⟨by rw [h.position, h.input]; omega, fun entry hmem => ?_⟩
    rcases List.mem_map.mp hmem with ⟨t', ht', rfl⟩
    rw [hrest t' ht']
    rfl

/-- The index never decreases. -/
theorem position_le_step (h : x.Represents source l) (s : Lexer.Step) :
    x.position ≤ (x.step s).position := by
  have hbehind := step_represents s h
  have hlength := h.length_unread
  have hlength' := hbehind.length_unread
  have hle := h.position_le
  have hle' := hbehind.position_le
  have hunread := (l.step_unread s).length_le
  rw [h.position, hbehind.position]
  omega

/-- Only consuming a number changes the literal, which is then the text of that number. -/
theorem literal_step (h : x.Represents source l) (s : Lexer.Step) :
    (x.step s).literal = match s, l.next.1 with
      | .call .next, .ok (.number literal) => some literal
      | _, _ => x.literal := by
  rw [(step_represents s h).literal, l.step_literal s, h.literal]
  rcases l.next.1 with cause | t
  · cases s with
    | call c => cases c with
      | _ => rfl
    | _ => rfl
  · cases s with
    | call c =>
        cases c with
        | next => cases t with
          | _ => rfl
        | _ => rfl
    | _ => rfl

end IndexedLexer.Represents

namespace Lexer

variable {source : List Char} {l : Lexer}

theorem reachable_run (steps : List Step) (h : l.Reachable) : (steps.foldl step l).Reachable := by
  induction steps generalizing l with
  | nil => exact h
  | cons s steps ih => exact ih (h.step s)

theorem Over.read (entry : Entry) (h : l.Over source) : (entry.read l).2.Over source := by
  rw [entry.read_rest]
  exact read_preserves (fun l' hl' => hl'.lookahead 1) (fun l' hl' => hl'.next.2) entry.level l h

/-- A parser goes on over the text of its lexer, whatever it is asked. -/
theorem Over.readAll (entries : List Entry) (h : l.Over source) :
    (Lexer.readAll entries l).2.Over source := by
  induction entries generalizing l with
  | nil => exact h
  | cons entry entries ih => exact ih (h.read entry)

/-- The tokens of a tree that was read come from the text. -/
theorem Over.tree {entry : Entry} {tree : Expr} (h : l.Over source)
    (hread : (entry.read l).1 = .ok tree) : ∀ t ∈ tree.tokens, t.ComesFrom source := by
  intro t hmem
  have hstream := Entry.stream_of_read_ok (Prod.ext hread rfl)
  refine h.stream_comesFrom t ?_
  rw [hstream, TokenStream.tokens_append]
  exact List.mem_append_left _ hmem

end Lexer

/-- A tree that was read can be written. -/
theorem writable_of_read {source : List Char} {l : Lexer} {entry : Entry} {tree : Expr}
    (h : l.Over source) (hread : (entry.read l).1 = .ok tree) : tree.Writable := by
  have htokens := h.tree hread
  have hrule : ∀ {level : Level} {e : Expr}, (level.read l).1 = .ok e →
      (∀ t ∈ e.tokens, t.ComesFrom source) → e.Writable := by
    intro level e hlevel hcome
    rcases read_sound level l e _ (Prod.ext hlevel rfl) with ⟨w, -, hderives, -⟩
    rw [hderives.tokens_eq] at hcome
    exact hderives.writable fun literal hmem => (hcome _ hmem).number.1
  cases entry with
  | statement =>
      rcases readStatement_eq_ok.mp hread with ⟨body, rfl, hbody⟩
      exact @hrule .sum body hbody htokens
  | rule level => exact hrule hread htokens

-- No blank is among the answers that come from a text.
theorem answer_ne_blank {source : List Char} {answer : Except LexError Token}
    (h : ∀ t, answer = .ok t → t.ComesFrom source) : answer.map Token.kind ≠ .ok .blank := by
  rcases answer with cause | t
  · exact nofun
  · exact fun hblank => (h t rfl).kind_ne_blank (Except.ok.inj hblank)

/-- The invariant of the lexer. A lexer over a text is kept in cells, and any operations are
    applied to it in any order. Then

    * the cells are sound, and they are those of the lexer that the operations make,
    * the index does not decrease with the next operation, and of the operations only consuming a
      number changes the literal, which is then there and is the text of that number,
    * they answer what the lexer answers, with the texts left out, and no blank is consumed or
      seen ahead,
    * a parser over the cells, which takes the text of a number from the literal when it has
      consumed the marker, comes to its end and gives the outcomes of the rules, whatever is asked
      of it in turn,
    * and whatever a parser over the lexer was asked before, the numbers of a tree that it reads are
      literals spelled in the text, and the tree has a value. -/
theorem cells_kept (source : String) (steps : List Lexer.Step) :
    let l := steps.foldl Lexer.step (.ofText source)
    let x := steps.foldl IndexedLexer.step (.ofText source)
    (x.Sound source.toList ∧ x.Represents source.toList l) ∧
      (∀ s, x.position ≤ (x.step s).position ∧
        (x.step s).literal = match s, l.next.1 with
          | .call .next, .ok (.number literal) => some literal
          | _, _ => x.literal) ∧
      (x.next.1 = .ok .number → ∃ literal, l.next.1 = .ok (.number literal) ∧
        x.next.2.literal = some literal) ∧
      (x.lex.1 = l.lex.1.map Token.kind ∧ x.advance.1 = l.advance.1 ∧
        x.next.1 = l.next.1.map Token.kind ∧
        ∀ n, (x.lookahead n).1 = (l.lookahead n).1.map Token.kind) ∧
      (x.next.1 ≠ .ok .blank ∧ ∀ n, (x.lookahead n).1 ≠ .ok .blank) ∧
      (∀ (entries : List Entry) (depth : Nat), 6 * x.work + 6 ≤ depth →
        ∃ y, x.readAllWithin depth entries
            = some ((l.readAll entries).1.map (·.mapError ParseError.named), y) ∧
          y.Represents source.toList (l.readAll entries).2) ∧
      ∀ (earlier : List Entry) (entry : Entry) (tree : Expr),
        (entry.read (Lexer.readAll earlier l).2).1 = .ok tree →
          (∀ literal, .number literal ∈ tree.tokens →
            Literal.IsLiteral literal.toList ∧ literal.toList <:+: source.toList) ∧
          ∃ v, tree.value = .ok v := by
  intro l x
  have hcells : x.Represents source.toList l :=
    IndexedLexer.run_represents steps (.start source)
  have hover : l.Over source.toList := .run steps (.start source)
  have hends : l.EndIsLast := (Lexer.reachable_run steps (.start source)).endIsLast
  have hnext := (IndexedLexer.next_alike hcells).1
  have hlookahead := fun n => (IndexedLexer.lookahead_alike n hcells).1
  have hliteral := hcells.literal_step
  refine ⟨⟨hcells.sound hover hends, hcells⟩, fun s => ⟨hcells.position_le_step s, hliteral s⟩, ?_,
    ⟨(IndexedLexer.lex_alike hcells).answer, hcells.advance.1, hnext, hlookahead⟩, ⟨?_, ?_⟩,
    fun entries _ => IndexedLexer.readAllWithin_eq entries hcells, ?_⟩
  · intro hnumber
    have hheld := hliteral (.call .next)
    rw [hnext] at hnumber
    rcases hanswer : l.next.1 with cause | t
    · rw [hanswer] at hnumber
      cases hnumber
    · rw [hanswer] at hnumber hheld
      cases t with
      | number literal => exact ⟨literal, rfl, hheld⟩
      | _ => cases hnumber
  · rw [hnext]
    exact answer_ne_blank hover.next.1
  · intro n
    rw [hlookahead]
    exact answer_ne_blank fun t => hover.lookahead_comesFrom
  · intro earlier entry tree hread
    have hread' := hover.readAll earlier
    exact ⟨fun literal hmem => (hread'.tree hread _ hmem).number,
      Expr.value_of_writable (writable_of_read hread' hread)⟩

/-- Another number is scanned while a marker for the first one waits in the queue. The marker is
    consumed with the text of the first, and a parser goes on behind the second. -/
theorem number_scanned_in_between :
    let x := ([.call (.lookahead 1), .lex, .lex] : List Lexer.Step).foldl IndexedLexer.step
      (.ofText "2 .5.3 *-4.")
    let tree := Expr.binary .multiply (.number "2") (.unary .subtract (.number "4."))
    x.scanned = some ".5.3" ∧ x.next.2.literal = some "2" ∧
      (x.readAllWithin 42 [.rule .product, .statement]).map Prod.fst
        = some [.ok tree, .error .unexpectedEndOfInput] ∧
      ∃ v, tree.value = .ok v := by
  intro x tree
  have hnext : x.next.1 = .ok .number := by decide +kernel
  have hwork : x.work = 6 := by decide +kernel
  have hanswer : (([.call (.lookahead 1), .lex, .lex] : List Lexer.Step).foldl Lexer.step
      (.ofText "2 .5.3 *-4.")).next.1 = .ok (.number "2") := by
    decide +kernel
  have hread : (Lexer.readAll [.rule .product, .statement]
      (([.call (.lookahead 1), .lex, .lex] : List Lexer.Step).foldl Lexer.step
        (.ofText "2 .5.3 *-4."))).1 = [.ok tree, .error .unexpectedEndOfInput] := by
    decide +kernel
  rcases cells_kept "2 .5.3 *-4." [.call (.lookahead 1), .lex, .lex] with
    ⟨-, -, hnumber, -, -, hcells, hparser⟩
  rcases hnumber hnext with ⟨literal, hliteral, hheld⟩
  rw [hanswer, Except.ok.injEq, Token.number.injEq] at hliteral
  rw [← hliteral] at hheld
  rcases hcells [.rule .product, .statement] 42 (by rw [hwork]) with ⟨y, hreadings, -⟩
  rw [hread] at hreadings
  exact ⟨by decide +kernel, hheld, congrArg (Option.map Prod.fst) hreadings,
    (hparser [] (.rule .product) tree (List.cons.inj hread).1).2⟩

end Reckoner
