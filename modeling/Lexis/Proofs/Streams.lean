/-
# Lexis.Proofs.Streams -- one stream of tokens, however it is pulled

The tokens of a scan are a list that ends in the end token.  A scanner that is pulled from
gives them one after the other, one at a pull or all that are left, and then the end token
again and again.  What it has given and what it would still give are together the whole
list, until the end was given; from then on it does not change any more (`Stage`).

Every call of `next` leads from one stage to the next (`records_stage`), so every run of
pulls does (`Records.pulls`).  What was reported goes along with what was given: at every
moment it is what the given tokens show (`records_noted`).
-/
import Lexis.Proofs.Pulls
import Lexis.Proofs.Reports
import Lexis.Proofs.Unambiguous

namespace Lexis

set_option autoImplicit false

/-- What is left of a list that ends in `last` when so many tokens were given; the last one
is given again and again. -/
def Token.left (whole : List Token) (last : Token) (given : Nat) : List Token :=
  if given < whole.length then whole.drop given else [last]

/-- What a pull takes of the tokens that are left. -/
def Scanner.Pull.taken (left : List Token) : Pull → List Token
  | .one => left.take 1
  | .rest => left

/-- Runs of pulls over a source give the tokens of a list that ends in `last`, in order, and
then the last one again. -/
structure Streams {σ : Type} [Sink σ] (source : Source) (sink : σ) (whole : List Token)
    (last : Token) (run : List Scanner.Pull → Scanner.Pulled σ) : Prop where
  /-- Copies of the last token come after the whole list only. -/
  inOrder : ∀ ps, ∃ copies,
    (run ps).tokens.flatten <+: whole ++ List.replicate copies last
  pulled : ∀ ps p, (run (ps ++ [p])).tokens =
    (run ps).tokens ++ [p.taken (Token.left whole last (run ps).tokens.flatten.length)]
  emitted : ∀ ps, (run ps).scanner.reporter.sink =
    Sink.emitAll source ((run ps).tokens.flatten.filterMap (Token.diagnostic? source.bytes)) sink
  counted : ∀ ps, (run ps).scanner.errors =
    ((run ps).tokens.flatten.filterMap (Token.diagnostic? source.bytes)).length
  /-- When the end was given, a pull changes nothing: not the place, not the reports and
  their number, and not the names. -/
  still : ∀ ps, (∃ t ∈ (run ps).tokens.flatten, t.isEof = true) → ∀ more,
    run (ps ++ more) =
      { run ps with tokens := (run ps).tokens ++ List.replicate more.length [last] }

/-! ## At the end -/

theorem Cursor.current_of_atEnd {c : Cursor} (ended : c.atEnd = true) : c.current = 0 := by
  rw [current_eq, (atEnd_iff c).mp ended]
  rfl

/-- There is nothing to pass at the end. -/
theorem Head.skipTrivia_of_atEnd {h : Head} (ended : h.cursor.atEnd = true) : h.skipTrivia = h := by
  have zero := Cursor.current_of_atEnd ended
  have noFeed : h.cursor.current ≠ Byte.lineFeed := by
    rw [zero]
    decide
  have noBlank : ¬ Byte.isBlank h.cursor.current = true := by simp [zero, Byte.isBlank_zero]
  have noSign : h.cursor.current ≠ Byte.hash := by
    rw [zero]
    decide
  rw [skipTrivia, if_neg noFeed, if_neg noBlank, if_neg noSign]

namespace Scanner

variable {σ : Type} [Sink σ]

/-- After the end token there is nothing but the end token, whatever names are known. -/
theorem next_of_isEof {s : Scanner σ} {known : Interner} (ended : (s.next known).1.isEof = true)
    (names : Interner) :
    (s.next known).2.1.next names = ((s.next known).1, (s.next known).2.1, names) := by
  by_cases atEnd : s.head.skipTrivia.cursor.atEnd = true
  · have again := Head.skipTrivia_of_atEnd atEnd
    simp [next, atEnd, again]
  · simp only [next, if_neg atEnd, Token.isEof_iff] at ended
    exact absurd ended (s.head.skipTrivia.cursor.read.lexeme.content_ne_eof known)

/-! ## All that are left -/

/-- What was taken before does not change what is taken. -/
theorem drain_append (s : Scanner σ) (known : Interner) (front taken : Array Token) :
    s.drain known (front ++ taken) =
      (front ++ (s.drain known taken).1, (s.drain known taken).2) := by
  fun_induction drain s known taken with
  | case1 s known taken step pushed ended =>
      rw [drain, if_pos ended, Array.push_append]
  | case2 s known taken step pushed goesOn ih =>
      rw [drain, if_neg goesOn, Array.push_append]
      exact ih

section All

variable {s : Scanner σ} {known : Interner}

theorem all_of_isEof (ended : (s.next known).1.isEof = true) :
    s.all known = ([(s.next known).1], (s.next known).2) := by
  rw [all, drain, if_pos ended]
  rfl

theorem all_of_next (more : (s.next known).1.isEof = false) :
    (s.all known).1 = (s.next known).1 :: ((s.next known).2.1.all (s.next known).2.2).1 := by
  have later := (s.next known).2.1.drain_append (s.next known).2.2 #[(s.next known).1] #[]
  rw [Array.append_empty] at later
  rw [all, drain, if_neg (Bool.eq_false_iff.mp more)]
  show ((s.next known).2.1.drain (s.next known).2.2 #[(s.next known).1]).1.toList = _
  rw [later, Array.toList_append]
  rfl

/-- What is left begins with the next token. -/
theorem take_all (s : Scanner σ) (known : Interner) :
    (s.all known).1.take 1 = [(s.next known).1] := by
  cases ended : (s.next known).1.isEof with
  | true =>
      rw [all_of_isEof ended]
      rfl
  | false =>
      rw [all_of_next ended]
      rfl

theorem pull_fst (s : Scanner σ) (known : Interner) (p : Pull) :
    (s.pull known p).1 = p.taken (s.all known).1 := by
  cases p with
  | one => exact (s.take_all known).symm
  | rest => rfl

theorem all_ne_nil (s : Scanner σ) (known : Interner) : (s.all known).1 ≠ [] := by
  intro nothing
  have first := s.take_all known
  rw [nothing] at first
  cases first

end All

/-! ## Runs -/

/-- A run that goes on. -/
theorem pulls_append (s : Scanner σ) (known : Interner) (ps more : List Pull) :
    s.pulls known (ps ++ more) =
      ⟨(s.pulls known ps).tokens ++
          ((s.pulls known ps).scanner.pulls (s.pulls known ps).known more).tokens,
        ((s.pulls known ps).scanner.pulls (s.pulls known ps).known more).scanner,
        ((s.pulls known ps).scanner.pulls (s.pulls known ps).known more).known⟩ := by
  induction ps generalizing s known with
  | nil => rfl
  | cons p ps ih =>
      rw [List.cons_append, pulls_cons, ih, pulls_cons]
      rfl

/-- A scanner that gives one token and does not change gives it at every pull. -/
theorem pulls_of_still {s : Scanner σ} {last : Token} (isEof : last.isEof = true)
    (still : ∀ names, s.next names = (last, s, names)) (known : Interner) (ps : List Pull) :
    s.pulls known ps = ⟨List.replicate ps.length [last], s, known⟩ := by
  have pull : ∀ p, s.pull known p = ([last], s, known) := by
    intro p
    cases p with
    | one => rw [Scanner.pull, still]
    | rest =>
        rw [Scanner.pull, all_of_isEof (by rw [still]; exact isEof), still]
  induction ps with
  | nil => rfl
  | cons p ps ih =>
      rw [pulls_cons, pull, ih]
      rfl

/-! ## Stages -/

/-- What a scanner has given of the whole list. -/
inductive Stage (whole : List Token) (last : Token) (given : List Token) (s : Scanner σ)
    (known : Interner) : Prop
  /-- The end is still ahead. -/
  | going (together : given ++ (s.all known).1 = whole)
  /-- The end was given, and nothing changes any more. -/
  | ended (copies : Nat) (given_eq : given = whole ++ List.replicate copies last)
      (still : ∀ names, s.next names = (last, s, names))

/-- A call of `next` gives the next token of the whole list, or the last one again. -/
theorem records_stage {whole : List Token} {last : Token} (ends : whole.getLast? = some last) :
    Records (Stage (σ := σ) whole last) := by
  intro given s known stage
  cases stage with
  | going together =>
      cases eof : (s.next known).1.isEof with
      | false =>
          apply Stage.going
          rw [all_of_next eof] at together
          rw [List.append_assoc]
          exact together
      | true =>
          rw [all_of_isEof eof] at together
          have isLast : (s.next known).1 = last := by
            rw [← together, List.getLast?_concat] at ends
            exact Option.some.inj ends
          refine .ended 0 (by rw [together, List.replicate_zero, List.append_nil]) ?_
          intro names
          rw [next_of_isEof eof, isLast]
  | ended copies given_eq still =>
      rw [still known]
      refine .ended (copies + 1) ?_ still
      rw [given_eq, List.append_assoc, ← List.replicate_succ']

namespace Stage

variable {whole given : List Token} {last : Token} {s : Scanner σ} {known : Interner}

theorem inOrder (stage : Stage whole last given s known) :
    ∃ copies, given <+: whole ++ List.replicate copies last := by
  cases stage with
  | going together =>
      refine ⟨0, ?_⟩
      rw [List.replicate_zero, List.append_nil, ← together]
      exact List.prefix_append _ _
  | ended copies given_eq => exact ⟨copies, given_eq ▸ List.prefix_rfl⟩

/-- What is left to take is what is left of the whole list. -/
theorem all_eq (stage : Stage whole last given s known) (isEof : last.isEof = true) :
    (s.all known).1 = Token.left whole last given.length := by
  cases stage with
  | going together =>
      have some_left := List.length_pos_iff.mpr (s.all_ne_nil known)
      have shorter : given.length < whole.length := by
        rw [← together, List.length_append]
        omega
      rw [Token.left, if_pos shorter, ← together, List.drop_left]
  | ended copies given_eq still =>
      have all_given : ¬ given.length < whole.length := by
        rw [given_eq, List.length_append]
        omega
      rw [Token.left, if_neg all_given, all_of_isEof (by rw [still]; exact isEof), still]

/-- When the end was given it is not ahead any more. -/
theorem still_of_mem {front : List Token} (stage : Stage whole last given s known)
    (ends : whole = front ++ [last]) (others : ∀ t ∈ front, t.isEof = false)
    (eof : ∃ t ∈ given, t.isEof = true) (names : Interner) : s.next names = (last, s, names) := by
  cases stage with
  | ended _ _ still => exact still names
  | going together =>
      obtain ⟨t, isGiven, isEof⟩ := eof
      obtain ⟨before, final, ahead⟩ :=
        (List.eq_nil_or_concat' (s.all known).1).resolve_left (s.all_ne_nil known)
      rw [ahead, ends, ← List.append_assoc] at together
      have inFront : t ∈ front := by
        rw [← (List.append_inj' together rfl).1]
        exact List.mem_append_left _ isGiven
      exact absurd isEof (by rw [others t inFront]; decide)

end Stage

/-! ## Reports -/

/-- The scanner is somewhere in the source, and it reported what the given tokens show. -/
structure Noted (source : Source) (sink : σ) (given : List Token) (s : Scanner σ) : Prop where
  passes : ∃ front, (Head.ofSource source).Passes front s.head
  reporter_eq : s.reporter = (Reporter.ofSource source sink).reportAll
    (given.filterMap (Token.diagnostic? source.bytes))

theorem records_noted (source : Source) (sink : σ) :
    Records fun given s _ => Noted source sink given s := by
  intro given s known noted
  obtain ⟨front, before⟩ := noted.passes
  have can := next_next (before.inStep (Head.inStep_ofSource source)) known
  generalize s.next known = result at can ⊢
  cases can with
  | @eof gap head trivia passes ended =>
      refine ⟨⟨_, before.trans passes⟩, ?_⟩
      show s.reporter = _
      rw [noted.reporter_eq, List.filterMap_append]
      exact congrArg _ (List.append_nil _).symm
  | @piece p head trivia atToken spelled passes =>
      refine ⟨⟨_, before.trans passes⟩, ?_⟩
      have split : source.bytes = (front ++ p.gap) ++ (p.spelling ++ head.cursor.rest) := by
        have whole : source.bytes = _ := (before.trans passes).cursor.rest_eq
        rw [whole, List.append_assoc, List.append_assoc, List.append_assoc]
      have stands : (p.token s.head.position known).Stands source.bytes p.error := by
        rw [Piece.token, Piece.place, before.position, ← Position.stepOverAll_append]
        exact .lexeme split atToken spelled
      have shown : (p.token s.head.position known).diagnostic? source.bytes =
          p.diagnostic? s.head.position := by
        rw [Token.diagnostic?, stands.fault?_eq, Option.map_map]
        rfl
      have added : [p.token s.head.position known].filterMap (Token.diagnostic? source.bytes) =
          (p.diagnostic? s.head.position).toList := by
        rw [List.filterMap_cons, shown]
        cases p.diagnostic? s.head.position <;> rfl
      show s.reporter.reportAll _ = _
      rw [noted.reporter_eq, ← Reporter.reportAll_append, ← added, ← List.filterMap_append]

end Scanner

/-! ## Whole sources -/

namespace Source

variable {σ τ : Type} [Sink σ] [Sink τ]

theorem tokens_lex (source : Source) (sink : σ) (known : Interner) :
    (source.lex sink known).1.tokens = ((Scanner.ofSource source sink).all known).1 := rfl

/-- The tokens of a source do not depend on where its errors go. -/
theorem tokens_all (source : Source) (sink : σ) (other : τ) (known : Interner) :
    ((Scanner.ofSource source sink).all known).1 =
      ((Scanner.ofSource source other).all known).1 := by
  obtain ⟨pieces, last, cut, run⟩ := source.lex_of_cut sink known
  rw [← tokens_lex, ← tokens_lex, run, lex_eq_of_cut cut other known]

/-- All tokens of a source are other tokens and then the end. -/
theorem exists_all_eq (source : Source) (sink : σ) (known : Interner) :
    ∃ front position, ((Scanner.ofSource source sink).all known).1 = front ++ [.eof position] ∧
      ∀ t ∈ front, t.isEof = false := by
  obtain ⟨pieces, last, cut, run⟩ := source.lex_of_cut sink known
  obtain ⟨front, position, tokens, _, others⟩ := (cut.tiled [] known).ends_in_eof
  refine ⟨front, position, ?_, others⟩
  rw [← tokens_lex, run]
  exact tokens

/-- **There is one stream of tokens**, for every source, every sink and every names.  All
tokens that a fresh scanner takes at once are a list with the end token last and nowhere
else; and any run of pulls, from the beginning and over any sink, gives that list in order,
and then the end token and nothing new. -/
theorem pulls_stream (source : Source) (sink : σ) (other : τ) (known : Interner) :
    ∃ front position,
      ((Scanner.ofSource source other).all known).1 = front ++ [.eof position] ∧
      (∀ t ∈ front, t.isEof = false) ∧
      Streams source sink (front ++ [.eof position]) (.eof position)
        ((Scanner.ofSource source sink).pulls known) := by
  obtain ⟨front, position, whole, others⟩ := source.exists_all_eq other known
  refine ⟨front, position, whole, others, ?_⟩
  let run := (Scanner.ofSource source sink).pulls known
  have isEof : (Token.eof position).isEof = true := rfl
  have stage : ∀ ps, Scanner.Stage (front ++ [.eof position]) (.eof position)
      (run ps).tokens.flatten (run ps).scanner (run ps).known := by
    have begins : Scanner.Stage (front ++ [.eof position]) (.eof position) []
        (Scanner.ofSource source sink) known :=
      .going ((tokens_all source sink other known).trans whole)
    exact (Scanner.records_stage List.getLast?_concat).pulls [] begins
  have noted : ∀ ps, Scanner.Noted source sink (run ps).tokens.flatten (run ps).scanner := by
    have begins : Scanner.Noted source sink [] (Scanner.ofSource source sink) :=
      ⟨⟨[], .refl _⟩, rfl⟩
    exact (Scanner.records_noted source sink).pulls [] begins
  constructor
  case inOrder => exact fun ps => (stage ps).inOrder
  case pulled =>
    intro ps p
    rw [Scanner.pulls_append, ← (stage ps).all_eq isEof, ← Scanner.pull_fst]
    rfl
  case emitted =>
    intro ps
    rw [(noted ps).reporter_eq]
    rfl
  case counted =>
    intro ps
    rw [Scanner.errors, (noted ps).reporter_eq]
    exact Nat.zero_add _
  case still =>
    intro ps eof more
    have still := (stage ps).still_of_mem rfl others eof
    rw [Scanner.pulls_append, Scanner.pulls_of_still isEof still]

-- One token, the others, and the end twice: the comment behind is passed once, and the byte
-- that begins no token is reported once.
example :
    let source := Source.padded "stream" [0x2B, 0x3F, 0x23, 0x78] (by decide)
    let run := (Scanner.ofSource source Backlog.empty).pulls .empty [.one, .rest, .one, .rest]
    run.tokens.map (·.map fun t => (t.content, t.position.offset)) =
        [[(.punctuation .plus, 0)], [(.unknown, 1), (.eof, 4)], [(.eof, 4)], [(.eof, 4)]] ∧
      run.scanner.errors = 1 := by decide +kernel

end Source

end Lexis
