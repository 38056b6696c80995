/-
# Lexis.Proofs.Composition -- a run on many files is made of runs on each of them

All files of a run share one interner.  A run lexes them one after another, or else, where
the settings leave the order open, by readers that take turns, in any order
(`Batch.ByTurns`).  Nothing of that shows in what is written.  A lexed file is the same as
when it is lexed alone, but for the symbols (`Entry.Matches`), and a chapter shows only
what the symbols stand for (`chapter_eq`).

Two ways lead to such entries: lexing the files one after another (`lexAll_of`), and turns
of readers until each has come to its end (`entries_of`), which some turns always reach
(`exists_finished`).  `report_eq_join` takes any such entries and joins what runs on the
single files give: their bytes in order, and one summary instead of each of theirs.
-/
import Lexis.Batch
import Lexis.Proofs.Sharing
import Lexis.Proofs.Unambiguous

namespace Lexis

set_option autoImplicit false

/-! ## Joining outcomes -/

namespace Outcome

/-- The bytes before the summary. -/
def body (colors : Bool) (o : Outcome) : List UInt8 :=
  o.output.take (o.output.length - (Summary.render colors o.totals.errors).length)

/-- The sum of a number of each outcome. -/
def sum (number : Outcome → Nat) : List Outcome → Nat
  | [] => 0
  | o :: rest => number o + sum number rest

/-- Outcomes of single files as one: what stands before each summary, in order, and then
one summary. -/
def join (colors : Bool) (singles : List Outcome) : Outcome :=
  let errors := sum (fun o => o.totals.errors) singles
  ⟨⟨singles.length, sum (fun o => o.totals.tokens) singles, errors⟩,
    singles.flatMap (body colors) ++ Summary.render colors errors⟩

end Outcome

/-! ## Runs in any order -/

namespace Reader

/-- The last token is the end, and no token before it is. -/
def Finished (r : Reader) : Prop :=
  ∃ n, r.taken.map Token.isEof = List.replicate n false ++ [true]

/-- What a reader has made of its source. -/
def entry (source : Source) (r : Reader) : Batch.Entry :=
  ⟨source, ⟨r.taken, r.scanner.errors⟩, r.scanner.reporter.sink⟩

end Reader

namespace Sharing

def Finished (s : Sharing) : Prop :=
  ∀ r ∈ s.readers, r.Finished

def entries (sources : List Source) (s : Sharing) : List Batch.Entry :=
  List.zipWith Reader.entry sources s.readers

end Sharing

namespace Batch

/-- What a run gives whose files are lexed by readers that take turns, until each of them
has come to its end. -/
inductive ByTurns (settings : Settings) (files : FileSystem) (isTerminal : Bool)
    (time : Source → String) : Outcome → Prop
  | intro {sources : List Source} (loaded : load files settings.files = .ok sources)
      {turns : List Turn} (finished : ((Sharing.start sources .empty).after turns).Finished) :
      ByTurns settings files isTerminal time
        (report settings (settings.color.colored isTerminal)
          ((Sharing.start sources .empty).after turns).known.release time
          (((Sharing.start sources .empty).after turns).entries sources))

/-- What a run on one file gives, however long it takes: the bytes of its body, and then
its summary. -/
structure Gives (settings : Settings) (files : FileSystem) (isTerminal : Bool) (name : String)
    (o : Outcome) : Prop where
  run_eq : ∀ time, run { settings with files := [name] } files isTerminal time = .ok o
  output_eq : o.output = o.body (settings.color.colored isTerminal) ++
    Summary.render (settings.color.colored isTerminal) o.totals.errors

/-- The same lexed file, where identifiers are what their symbols stand for. -/
structure Entry.Matches (known known' : Interner) (entry other : Entry) : Prop where
  source : entry.source = other.source
  backlog : entry.backlog = other.backlog
  errors : entry.lexed.errors = other.lexed.errors
  tokens : List.Forall₂ (Token.Agrees known known') entry.lexed.tokens other.lexed.tokens

/-- A file that is lexed alone, and the names that it leaves. -/
def solo (source : Source) : Entry × Interner :=
  lexOne source .empty

/-- The entry is what the source is when it is lexed alone. -/
def Entry.Of (known : Interner) (entry : Entry) (source : Source) : Prop :=
  entry.Matches known (solo source).2 (solo source).1

end Batch

/-! ## What a chapter shows -/

theorem Token.Agrees.line_eq {n m : Interner} {t u : Token} (agrees : t.Agrees n m u) :
    Listing.line n t = Listing.line m u := by
  have kind : t.kind = u.kind := agrees.content.kind_eq
  have payload : Listing.payload n t = Listing.payload m u := by
    have content := agrees.content
    unfold Listing.payload
    generalize t.content = c at content ⊢
    generalize u.content = d at content ⊢
    cases content with
    | identifier here there => simp only [Interner.text, here, there]
    | plain noSymbol =>
        cases c with
        | identifier => exact absurd rfl noSymbol
        | _ => rfl
  rw [Listing.line, Listing.line, kind, payload, agrees.position]

namespace Batch

theorem render_eq {n m : Interner} {tokens others : List Token}
    (agree : List.Forall₂ (Token.Agrees n m) tokens others) (source : Source) :
    Listing.render n source tokens = Listing.render m source others := by
  have lines : (tokens.flatMap fun t => Utf8.encode (Listing.line n t)) =
      others.flatMap fun t => Utf8.encode (Listing.line m t) := by
    induction agree with
    | nil => rw [List.flatMap_nil, List.flatMap_nil]
    | cons here _ ih => rw [List.flatMap_cons, List.flatMap_cons, here.line_eq, ih]
  have header : Listing.header source tokens = Listing.header source others := by
    delta Listing.header
    rw [agree.length_eq]
  rw [Listing.render, Listing.render, header, lines]

namespace Entry.Matches

variable {settings : Settings} {known known' later : Interner} {entry other : Entry}

theorem mono (same : entry.Matches known known' other) (grows : known.Grows later) :
    entry.Matches later known' other :=
  { same with tokens := same.tokens.imp fun _ _ agrees => agrees.mono grows (.refl _) }

/-- Nothing about a chapter tells which symbols were given, unless times are told. -/
theorem chapter_eq (same : entry.Matches known known' other) (untimed : settings.benchmark = false)
    (colors : Bool) (time time' : Source → String) :
    chapter settings colors known.release time entry =
      chapter settings colors known'.release time' other := by
  have listing : Listing.render known.release other.source entry.lexed.tokens =
      Listing.render known'.release other.source other.lexed.tokens :=
    render_eq same.tokens other.source
  simp only [chapter, untimed, listing, same.source, same.backlog, Bool.false_eq_true, if_false]

end Entry.Matches

/-! ## Entries that match -/

end Batch

theorem Piece.tokens_agree {known known' : Interner} (sound : known.Sound)
    (sound' : known'.Sound) (start : Position) (pieces : List Piece) (last : List UInt8) :
    List.Forall₂ (Token.Agrees (names known pieces) (names known' pieces))
      (tokens start known pieces last) (tokens start known' pieces last) := by
  induction pieces generalizing start known known' with
  | nil => exact .cons (.eof _ _ _) .nil
  | cons p pieces ih =>
      refine .cons ?_ (ih (p.lexeme.sound_content sound) (p.lexeme.sound_content sound') _)
      have here : (p.token start known).Agrees (p.lexeme.content known).2
          (p.lexeme.content known').2 (p.token start known') :=
        ⟨(p.lexeme.gives_content sound).agrees (p.lexeme.gives_content sound'), rfl, rfl⟩
      exact here.mono (grows_names_cons known p pieces) (grows_names_cons known' p pieces)

namespace Batch

theorem lexOne_of (source : Source) {known : Interner} (sound : known.Sound) :
    (lexOne source known).1.Of (lexOne source known).2 source := by
  obtain ⟨pieces, last, cut, run⟩ := source.lex_of_cut Backlog.empty known
  have alone := Source.lex_eq_of_cut cut Backlog.empty .empty
  have agree := Piece.tokens_agree sound Interner.sound_empty .start pieces last
  unfold Entry.Of solo lexOne
  rw [run, alone]
  exact ⟨rfl, rfl, rfl, agree⟩

theorem grows_lexOne (source : Source) (known : Interner) : known.Grows (lexOne source known).2 :=
  known.grows_perform (.lex source)

theorem sound_lexOne (source : Source) {known : Interner} (sound : known.Sound) :
    (lexOne source known).2.Sound :=
  sound.perform (.lex source)

theorem grows_lexAll (sources : List Source) (known : Interner) :
    known.Grows (lexAll sources known).2 := by
  induction sources generalizing known with
  | nil => exact .refl known
  | cons source rest ih => exact (grows_lexOne source known).trans (ih _)

/-- Files that are lexed one after another. -/
theorem lexAll_of (sources : List Source) {known : Interner} (sound : known.Sound) :
    List.Forall₂ (Entry.Of (lexAll sources known).2) (lexAll sources known).1 sources := by
  induction sources generalizing known with
  | nil => exact .nil
  | cons source rest ih =>
      have first := lexOne_of source sound
      exact .cons (first.mono (grows_lexAll rest _)) (ih (sound_lexOne source sound))

end Batch

/-! ### Readers that have finished -/

theorem Token.map_isEof_eq {n m : Interner} {tokens others : List Token}
    (agree : List.Forall₂ (Token.Agrees n m) tokens others) :
    tokens.map isEof = others.map isEof := by
  induction agree with
  | nil => rfl
  | cons here _ ih => rw [List.map_cons, List.map_cons, here.isEof_eq, ih]

namespace Reader

variable {source : Source} {n : Nat}

/-- Taking all tokens goes on from where a reader is that has not met the end. -/
theorem drain_alone (going : ∀ t ∈ (alone source n).1.taken, t.isEof = false) :
    (Scanner.ofSource source Backlog.empty).drain .empty #[] =
      (alone source n).1.scanner.drain (alone source n).2 (alone source n).1.taken.toArray := by
  induction n with
  | zero => rfl
  | succ n ih =>
      obtain ⟨before, last⟩ := List.forall_mem_append.mp going
      have notEof : ((alone source n).1.scanner.next (alone source n).2).1.isEof = false :=
        last _ (List.mem_singleton.mpr rfl)
      rw [ih before, Scanner.drain]
      simp only [notEof, Bool.false_eq_true, if_false]
      rw [List.push_toArray]
      rfl

/-- A reader that has finished alone has lexed its source. -/
theorem entry_alone (finished : (alone source n).1.Finished) :
    ((alone source n).1.entry source, (alone source n).2) = Batch.solo source := by
  obtain ⟨count, ends⟩ := finished
  cases n with
  | zero => simp [alone, ofSource] at ends
  | succ n =>
      rw [taken_alone_succ, List.map_append, List.map_singleton, List.append_singleton_inj] at ends
      obtain ⟨before, atEnd⟩ := ends
      have going : ∀ t ∈ (alone source n).1.taken, t.isEof = false := by
        intro t member
        have inMap := List.mem_map_of_mem (f := Token.isEof) member
        rw [before] at inMap
        exact List.eq_of_mem_replicate inMap
      have drained := drain_alone going
      have last : (alone source n).1.scanner.drain (alone source n).2
          (alone source n).1.taken.toArray =
            ((alone source (n + 1)).1.taken.toArray,
              (alone source (n + 1)).1.scanner, (alone source (n + 1)).2) := by
        rw [Scanner.drain]
        simp only [atEnd, if_true, List.push_toArray]
        rfl
      rw [last] at drained
      simp only [Batch.solo, Batch.lexOne, Source.lex, Scanner.all, drained]
      rfl

theorem Follows.entry_of {known : Interner} {r : Reader} (follows : r.Follows source n known)
    (finished : r.Finished) : (r.entry source).Of known source := by
  have ends := Token.map_isEof_eq follows.tokens
  have alone_finished : (alone source n).1.Finished := by
    unfold Finished at finished ⊢
    rwa [← ends]
  have solo := entry_alone alone_finished
  rw [Batch.Entry.Of, ← solo]
  constructor
  · rfl
  · simp only [entry, follows.scanner]
  · simp only [entry, follows.scanner]
  · exact follows.tokens

end Reader

theorem Sharing.Follow.entries_of {sources : List Source} {turns : List Turn} {s : Sharing}
    (follow : s.Follow sources turns) (finished : s.Finished) :
    List.Forall₂ (Batch.Entry.Of s.known) (s.entries sources) sources := by
  rw [List.forall₂_iff_get]
  constructor
  · simp [entries, follow.size]
  · intro i inside inside'
    have bound : i < s.readers.length := follow.size ▸ inside'
    have follows := follow.follows_getElem bound inside'
    simpa [entries] using follows.entry_of (finished _ (List.getElem_mem bound))

/-! ### Every run can finish -/

/-- A reader that has not met the end can go on until it does. -/
theorem Reader.exists_finished (source : Source) {n : Nat}
    (going : (alone source n).1.taken.map Token.isEof = List.replicate n false) :
    ∃ m, (alone source m).1.Finished := by
  -- Each token but the end leaves less ahead.
  induction left : (alone source n).1.scanner.remaining using Nat.strong_induction_on
    generalizing n with
  | _ ahead ih =>
      cases atEnd : ((alone source n).1.scanner.next (alone source n).2).1.isEof with
      | true =>
          refine ⟨n + 1, n, ?_⟩
          rw [taken_alone_succ, List.map_append, going, List.map_singleton, atEnd]
      | false =>
          have shorter : (alone source (n + 1)).1.scanner.remaining < ahead :=
            left ▸ Scanner.remaining_next_lt atEnd
          apply ih _ shorter _ rfl
          rw [taken_alone_succ, List.map_append, going, List.map_singleton, atEnd,
            List.replicate_succ']

/-- Turns in which the first readers take as many tokens as they are asked to. -/
theorem Turn.exists_reads (count : Nat → Nat) (readers : Nat) :
    ∃ turns, ∀ i, reads i turns = if i < readers then count i else 0 := by
  induction readers with
  | zero => exact ⟨[], fun i => by simp [reads]⟩
  | succ k ih =>
      obtain ⟨turns, each⟩ := ih
      refine ⟨turns ++ List.replicate (count k) (.read k), fun i => ?_⟩
      have before := each i
      rw [reads] at before ⊢
      rw [List.countP_append, before, List.countP_replicate, isRead]
      by_cases own : i = k
      · subst own
        simp
      · have other : (k == i) = false := by simpa using Ne.symm own
        simp only [other, Bool.false_eq_true, if_false, Nat.add_zero]
        split <;> split <;> omega

theorem Sharing.exists_finished (sources : List Source) {known : Interner} (sound : known.Sound) :
    ∃ turns, ((start sources known).after turns).Finished := by
  have each (source : Source) : ∃ n, (Reader.alone source n).1.Finished :=
    Reader.exists_finished source (n := 0) rfl
  choose steps finished using each
  let count (i : Nat) : Nat := (sources[i]?.map steps).getD 0
  obtain ⟨turns, reads⟩ := Turn.exists_reads count sources.length
  refine ⟨turns, fun r member => ?_⟩
  have follow := follow_after sources sound turns
  obtain ⟨i, inside, rfl⟩ := List.mem_iff_getElem.mp member
  have inside' : i < sources.length := follow.size ▸ inside
  have follows := follow.follows_getElem inside inside'
  have asked : Turn.reads i turns = steps sources[i] := by
    simp [reads, count, inside']
  rw [asked] at follows
  unfold Reader.Finished
  rw [Token.map_isEof_eq follows.tokens]
  exact finished sources[i]

/-! ## Joining -/

namespace Batch

variable {settings : Settings} {known : Interner} {colors : Bool} {entries : List Entry}
  {sources : List Source}

/-- The outcome of a run on one source, when times are not told. -/
def single (settings : Settings) (colors : Bool) (source : Source) : Outcome :=
  report settings colors (solo source).2.release (fun _ => "") [(solo source).1]

theorem output_single (settings : Settings) (colors : Bool) (source : Source) :
    (single settings colors source).output =
      chapter settings colors (solo source).2.release (fun _ => "") (solo source).1 ++
        Summary.render colors (single settings colors source).totals.errors := by
  simp [single, report]

theorem body_single (settings : Settings) (colors : Bool) (source : Source) :
    (single settings colors source).body colors =
      chapter settings colors (solo source).2.release (fun _ => "") (solo source).1 := by
  rw [Outcome.body, output_single, List.length_append, Nat.add_sub_cancel, List.take_left]

/-- A number that is the same for entries that match has the same sum. -/
theorem total_eq_sum {number : Entry → Nat} {number' : Outcome → Nat}
    (same : ∀ entry source, Entry.Of known entry source →
      number entry = number' (single settings colors source))
    (each : List.Forall₂ (Entry.Of known) entries sources) :
    total number entries = Outcome.sum number' (sources.map (single settings colors)) := by
  induction each with
  | nil => rfl
  | cons here _ ih => rw [List.map_cons, total, Outcome.sum, same _ _ here, ih]

/-- However the entries came about, they add up to what runs on the single files cover. -/
theorem totals_eq_join (each : List.Forall₂ (Entry.Of known) entries sources)
    (settings : Settings) (colors : Bool) :
    totals entries = (Outcome.join colors (sources.map (single settings colors))).totals := by
  have files : entries.length = (sources.map (single settings colors)).length := by
    rw [List.length_map, each.length_eq]
  have tokens : total (fun entry => entry.lexed.tokens.length) entries =
      Outcome.sum (fun o => o.totals.tokens) (sources.map (single settings colors)) := by
    apply total_eq_sum _ each
    intro entry source here
    simp [single, report, totals, total, here.tokens.length_eq]
  have errors : total (fun entry => entry.lexed.errors) entries =
      Outcome.sum (fun o => o.totals.errors) (sources.map (single settings colors)) := by
    apply total_eq_sum _ each
    intro entry source here
    simp [single, report, totals, total, here.errors]
  simp only [totals, Outcome.join, files, tokens, errors]

/-- What is reported of them is what runs on the single files give together. -/
theorem report_eq_join (each : List.Forall₂ (Entry.Of known) entries sources)
    (untimed : settings.benchmark = false) (colors : Bool) (time : Source → String) :
    report settings colors known.release time entries =
      Outcome.join colors (sources.map (single settings colors)) := by
  have covered := totals_eq_join each settings colors
  have bodies : entries.flatMap (chapter settings colors known.release time) =
      (sources.map (single settings colors)).flatMap (Outcome.body colors) := by
    clear covered
    induction each with
    | nil => rfl
    | cons here _ ih =>
        rw [List.map_cons, List.flatMap_cons, List.flatMap_cons, body_single, ih]
        rw [here.chapter_eq untimed colors time fun _ => ""]
  simp only [report, covered, bodies, Outcome.join]

/-! ### Runs -/

theorem exists_load {files : FileSystem} {names : List String}
    (readable : ∀ name ∈ names, ∃ source, Source.read files name = .ok source) :
    ∃ sources, load files names = .ok sources ∧
      List.Forall₂ (fun name source => Source.read files name = .ok source) names sources := by
  induction names with
  | nil => exact ⟨[], rfl, .nil⟩
  | cons name names ih =>
      obtain ⟨here, later⟩ := List.forall_mem_cons.mp readable
      obtain ⟨source, read⟩ := here
      obtain ⟨sources, loaded, each⟩ := ih later
      refine ⟨source :: sources, ?_, .cons read each⟩
      simp [load, read, loaded, Except.map]

theorem run_eq_join (settings : Settings) {files : FileSystem}
    (loaded : load files settings.files = .ok sources) (untimed : settings.benchmark = false)
    (isTerminal : Bool) (time : Source → String) :
    run settings files isTerminal time =
      .ok (Outcome.join (settings.color.colored isTerminal)
        (sources.map (single settings (settings.color.colored isTerminal)))) := by
  simp only [run, loaded]
  rw [report_eq_join (lexAll_of sources Interner.sound_empty) untimed]

/-- Every order of turns gives the same, and some order finishes. -/
theorem byTurns_iff (settings : Settings) {files : FileSystem}
    (loaded : load files settings.files = .ok sources) (untimed : settings.benchmark = false)
    (isTerminal : Bool) (time : Source → String) (o : Outcome) :
    ByTurns settings files isTerminal time o ↔
      o = Outcome.join (settings.color.colored isTerminal)
        (sources.map (single settings (settings.color.colored isTerminal))) := by
  have joins {turns : List Turn}
      (finished : ((Sharing.start sources .empty).after turns).Finished) :=
    report_eq_join ((Sharing.follow_after sources Interner.sound_empty turns).entries_of finished)
      untimed (settings.color.colored isTerminal) time
  constructor
  · rintro ⟨also, finished⟩
    obtain rfl := Except.ok.inj (loaded.symm.trans also)
    exact joins finished
  · rintro rfl
    obtain ⟨turns, finished⟩ := Sharing.exists_finished sources Interner.sound_empty
    rw [← joins finished]
    exact .intro loaded finished

theorem gives_single {files : FileSystem} {name : String} {source : Source}
    (read : Source.read files name = .ok source) (untimed : settings.benchmark = false)
    (isTerminal : Bool) :
    Gives settings files isTerminal name
      (single settings (settings.color.colored isTerminal) source) := by
  constructor
  · intro time
    have loaded : load files [name] = .ok [source] := by simp [load, read, Except.map]
    have each : List.Forall₂ (Entry.Of (solo source).2) [(solo source).1] [source] :=
      .cons (lexOne_of source Interner.sound_empty) .nil
    have joined := report_eq_join each untimed (settings.color.colored isTerminal) fun _ => ""
    have runs := run_eq_join { settings with files := [name] } loaded untimed isTerminal time
    rw [runs]
    exact congrArg Except.ok joined.symm
  · rw [body_single, output_single]

/-- **A run on many files is made of runs on each of them**, in whatever order the files
are lexed, and so it is the same whether the settings leave the order open or not. -/
theorem run_composes (settings : Settings) (files : FileSystem) (isTerminal : Bool)
    (readable : ∀ name ∈ settings.files, ∃ source, Source.read files name = .ok source)
    (untimed : settings.benchmark = false) :
    ∃ singles : List Outcome,
      List.Forall₂ (Gives settings files isTerminal) settings.files singles ∧
        ∀ (parallel : Bool) (time : Source → String),
          run { settings with parallel } files isTerminal time =
            .ok (Outcome.join (settings.color.colored isTerminal) singles) ∧
          ∀ o, ByTurns { settings with parallel } files isTerminal time o ↔
            o = Outcome.join (settings.color.colored isTerminal) singles := by
  obtain ⟨sources, loaded, each⟩ := exists_load readable
  refine ⟨sources.map (single settings (settings.color.colored isTerminal)), ?_, ?_⟩
  · rw [List.forall₂_map_right_iff]
    exact each.imp fun name source read => gives_single read untimed isTerminal
  · intro parallel time
    constructor
    · exact run_eq_join { settings with parallel } loaded untimed isTerminal time
    · exact byTurns_iff { settings with parallel } loaded untimed isTerminal time

/-- Two files with a name in common and an error in each, lexed by readers that take turns. -/
theorem run_composes_two :
    let files : FileSystem := fun name =>
      if name = "one" then .ok [0x61, 0x3F] else .ok [0x62, 0x20, 0x61, 0x22]
    let settings : Settings := { files := ["one", "two"], listing := true }
    let one := Source.padded "one" [0x61, 0x3F] (by decide)
    let two := Source.padded "two" [0x62, 0x20, 0x61, 0x22] (by decide)
    let turns : List Turn := [.read 1, .read 0, .read 1, .read 0, .read 1, .read 1, .read 0]
    let s := (Sharing.start [one, two] .empty).after turns
    (∀ name ∈ settings.files, ∃ source, Source.read files name = .ok source) ∧
      settings.benchmark = false ∧ s.Finished ∧
      ∃ singles, List.Forall₂ (Gives settings files false) settings.files singles ∧
        run settings files false (fun _ => "") = .ok (Outcome.join false singles) ∧
        report settings false s.known.release (fun _ => "") (s.entries [one, two]) =
          Outcome.join false singles := by
  intro files settings one two turns s
  have readOne : Source.read files "one" = .ok one := by rfl
  have readTwo : Source.read files "two" = .ok two := by rfl
  have readable : ∀ name ∈ settings.files, ∃ source, Source.read files name = .ok source :=
    List.forall_mem_cons.mpr ⟨⟨one, readOne⟩, List.forall_mem_singleton.mpr ⟨two, readTwo⟩⟩
  have loaded : load files ["one", "two"] = .ok [one, two] := by
    simp [load, readOne, readTwo, Except.map]
  have ends : s.readers.map (fun r => r.taken.map Token.isEof) =
      [[false, false, true], [false, false, false, true]] := by decide +kernel
  have finished : s.Finished := by
    intro r member
    have inMap := List.mem_map_of_mem (f := fun r : Reader => r.taken.map Token.isEof) member
    rw [ends] at inMap
    rcases List.mem_cons.mp inMap with isOne | isTwo
    · exact ⟨2, isOne⟩
    · exact ⟨3, List.mem_singleton.mp isTwo⟩
  obtain ⟨singles, gives, composes⟩ := run_composes settings files false readable rfl
  obtain ⟨inOrder, byTurns⟩ := composes false fun _ => ""
  refine ⟨readable, rfl, finished, singles, gives, inOrder, ?_⟩
  exact (byTurns _).mp (.intro loaded finished)

end Batch

end Lexis
