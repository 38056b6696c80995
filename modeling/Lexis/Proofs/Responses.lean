/-
# Lexis.Proofs.Responses -- exit code and outputs of the command

Three things decide an answer: the arguments, whether every listed file can be read, and
the errors in them.  `Shape` says what an answer can be, one case for each way through the
command, and `shape_of_responds` that it is nothing else, also where readers take turns.
Whatever is asked of an answer is then asked of five shapes.

`responds_answers` reads them together: the exit code is one exactly when something is
wrong; the error output tells what could not be begun, of several unreadable files the
first, and then nothing else is written; and a summary ends the output exactly when there
are errors, with the number of faulty tokens of all files.
-/
import Lexis.CommandLine
import Lexis.Proofs.Composition
import Lexis.Proofs.Faults

namespace Lexis

set_option autoImplicit false

/-! ## Files -/

namespace FileSystem

def Unreadable (files : FileSystem) (name : String) : Prop :=
  ∃ e, Source.read files name = .error e

/-- The file can be read, and one of its tokens is an error. -/
def Faulty (files : FileSystem) (name : String) : Prop :=
  ∃ source, Source.read files name = .ok source ∧ ∃ t ∈ source.tokens, t.IsFaulty source.bytes

/-- The names are those of files that can be read, and hold the sources. -/
def Hold (files : FileSystem) (names : List String) (sources : List Source) : Prop :=
  List.Forall₂ (fun name source => Source.read files name = .ok source) names sources

/-- The first of the names that cannot be read, and why. -/
inductive FirstUnreadable (files : FileSystem) (e : SourceError) : List String → Prop
  | intro {before after : List String} {name : String}
      (readable : ∀ other ∈ before, ∃ source, Source.read files other = .ok source)
      (unreadable : Source.read files name = .error e) :
      FirstUnreadable files e (before ++ name :: after)

variable {files : FileSystem} {names : List String} {sources : List Source} {e : SourceError}

theorem FirstUnreadable.load_eq (first : files.FirstUnreadable e names) :
    Batch.load files names = .error e := by
  obtain ⟨readable, unreadable⟩ := first
  rename_i before after name
  induction before with
  | nil => simp [Batch.load, unreadable]
  | cons other before ih =>
      obtain ⟨⟨source, read⟩, later⟩ := List.forall_mem_cons.mp readable
      rw [List.cons_append, Batch.load, read]
      dsimp only
      rw [ih later]
      rfl

/-- Either every name can be read, or one is the first that cannot. -/
theorem hold_or_firstUnreadable (files : FileSystem) (names : List String) :
    (∃ sources, files.Hold names sources) ∨ ∃ e, files.FirstUnreadable e names := by
  induction names with
  | nil => exact .inl ⟨[], .nil⟩
  | cons name names ih =>
      cases read : Source.read files name with
      | error e =>
          have first : files.FirstUnreadable e ([] ++ name :: names) := .intro (by simp) read
          exact .inr ⟨e, first⟩
      | ok source =>
          rcases ih with ⟨sources, hold⟩ | ⟨e, readable, unreadable⟩
          · exact .inl ⟨source :: sources, .cons read hold⟩
          · refine .inr ⟨e, ?_⟩
            rw [← List.cons_append]
            exact .intro (List.forall_mem_cons.mpr ⟨⟨source, read⟩, readable⟩) unreadable

theorem FirstUnreadable.exists_unreadable (first : files.FirstUnreadable e names) :
    ∃ name ∈ names, files.Unreadable name := by
  obtain ⟨_, unreadable⟩ := first
  exact ⟨_, by simp, e, unreadable⟩

theorem faulty_iff {name : String} {source : Source}
    (read : Source.read files name = .ok source) : files.Faulty name ↔ 0 < source.faults := by
  simp [Faulty, read, source.faults_pos_iff]

namespace Hold

theorem load_eq (hold : files.Hold names sources) : Batch.load files names = .ok sources := by
  induction hold with
  | nil => rfl
  | cons read _ ih =>
      rw [Batch.load, read]
      dsimp only
      rw [ih]
      rfl

theorem not_unreadable (hold : files.Hold names sources) :
    ¬ ∃ name ∈ names, files.Unreadable name := by
  induction hold with
  | nil => simp
  | cons read _ ih =>
      simp only [List.mem_cons, exists_eq_or_imp, not_or]
      exact ⟨by simp [Unreadable, read], ih⟩

theorem exists_faulty_iff (hold : files.Hold names sources) :
    (∃ name ∈ names, files.Faulty name) ↔ 0 < Source.totalFaults sources := by
  induction hold with
  | nil => simp [Source.totalFaults]
  | cons read _ ih =>
      rw [Source.totalFaults, Nat.add_pos_iff_pos_or_pos, ← faulty_iff read, ← ih]
      simp

end Hold

end FileSystem

/-! ## What is written about files -/

namespace Batch

variable {settings : Settings} {known : Interner} {colors : Bool} {time : Source → String}
  {entries : List Entry} {sources : List Source}

/-- The bytes are a chapter for each source, in order, of sources lexed in one run. -/
def Chapters (settings : Settings) (colors : Bool) (time : Source → String)
    (sources : List Source) (bytes : List UInt8) : Prop :=
  ∃ entries known, List.Forall₂ (Entry.Of known) entries sources ∧
    bytes = entries.flatMap (chapter settings colors known.release time)

theorem errors_totals (each : List.Forall₂ (Entry.Of known) entries sources) :
    (totals entries).errors = Source.totalFaults sources := by
  induction each with
  | nil => rfl
  | @cons entry source _ _ here _ ih =>
      have errors : entry.lexed.errors = source.faults :=
        here.errors.trans source.errors_eq_faults
      unfold totals at ih ⊢
      dsimp only at ih ⊢
      rw [total, Source.totalFaults, ih, errors]

/-- A report is the chapters, and a summary of the faulty tokens of all sources. -/
theorem report_chapters (each : List.Forall₂ (Entry.Of known) entries sources)
    (settings : Settings) (colors : Bool) (time : Source → String) :
    ∃ body, Chapters settings colors time sources body ∧
      (report settings colors known.release time entries).output =
        body ++ Summary.render colors (Source.totalFaults sources) ∧
      (report settings colors known.release time entries).totals.errors =
        Source.totalFaults sources := by
  refine ⟨_, ⟨entries, known, each, rfl⟩, ?_, errors_totals each⟩
  rw [report, errors_totals each]

end Batch

/-! ## Answers -/

namespace CommandLine

/-- The answer to what a run gave. -/
def conclude : Except SourceError Outcome → Response
  | .error e => failure e.message
  | .ok outcome => ⟨if outcome.totals.hasErrors then 1 else 0, outcome.output, []⟩

/-- The answers of the command.  Where the order of the files is left open, readers may
take turns. -/
inductive Responds (args : List String) (files : FileSystem) (isTerminal : Bool)
    (time : Source → String) : Response → Prop
  | inOrder : Responds args files isTerminal time (respond args files isTerminal time)
  | byTurns {settings : Settings} {outcome : Outcome}
      (asked : Request.ofArguments args = .ok (.lex settings)) (parallel : settings.parallel = true)
      (turns : Batch.ByTurns settings files isTerminal time outcome) :
      Responds args files isTerminal time (conclude (.ok outcome))

/-- What an answer can be. -/
inductive Shape (args : List String) (files : FileSystem) (isTerminal : Bool)
    (time : Source → String) : Response → Prop
  | usage (asked : args = [] ∨ Request.ofArguments args = .ok .help) :
      Shape args files isTerminal time (success usage)
  | version (asked : Request.ofArguments args = .ok .version) :
      Shape args files isTerminal time (success ("lm " ++ version ++ "\n"))
  | rejected {e : UsageError} (some_args : args ≠ [])
      (rejects : Request.ofArguments args = .error e) :
      Shape args files isTerminal time (failure (e.message ++ "\nRun 'lm --help' for usage."))
  | unreadable {settings : Settings} {e : SourceError}
      (asked : Request.ofArguments args = .ok (.lex settings))
      (first : files.FirstUnreadable e settings.files) :
      Shape args files isTerminal time (failure e.message)
  | lexed {settings : Settings} {sources : List Source} {body : List UInt8}
      (asked : Request.ofArguments args = .ok (.lex settings))
      (hold : files.Hold settings.files sources)
      (chapters :
        Batch.Chapters settings (settings.color.colored isTerminal) time sources body) :
      Shape args files isTerminal time
        ⟨if 0 < Source.totalFaults sources then 1 else 0,
          body ++ Summary.render (settings.color.colored isTerminal) (Source.totalFaults sources),
          []⟩

variable {args : List String} {files : FileSystem} {isTerminal : Bool} {time : Source → String}
  {settings : Settings} {sources : List Source} {r : Response}

theorem ne_nil_of_lex (asked : Request.ofArguments args = .ok (.lex settings)) : args ≠ [] := by
  rintro rfl
  simp [Request.ofArguments, Settings.read] at asked

theorem shape_of_entries {known : Interner} {entries : List Batch.Entry}
    (asked : Request.ofArguments args = .ok (.lex settings))
    (hold : files.Hold settings.files sources)
    (each : List.Forall₂ (Batch.Entry.Of known) entries sources) :
    Shape args files isTerminal time (conclude (.ok (Batch.report settings
      (settings.color.colored isTerminal) known.release time entries))) := by
  obtain ⟨body, chapters, output, errors⟩ :=
    Batch.report_chapters each settings (settings.color.colored isTerminal) time
  have shape := Shape.lexed asked hold chapters
  unfold conclude Totals.hasErrors
  dsimp only
  rw [output, errors]
  simpa using shape

theorem shape_of_run (asked : Request.ofArguments args = .ok (.lex settings)) :
    Shape args files isTerminal time (conclude (Batch.run settings files isTerminal time)) := by
  rcases files.hold_or_firstUnreadable settings.files with ⟨sources, hold⟩ | ⟨e, first⟩
  · unfold Batch.run
    rw [hold.load_eq]
    exact shape_of_entries asked hold (Batch.lexAll_of sources Interner.sound_empty)
  · unfold Batch.run
    rw [first.load_eq]
    exact .unreadable asked first

theorem shape_of_responds (responds : Responds args files isTerminal time r) :
    Shape args files isTerminal time r := by
  cases responds with
  | inOrder =>
      unfold respond
      by_cases nothing : args = []
      · rw [if_pos nothing]
        exact .usage (.inl nothing)
      · rw [if_neg nothing]
        split
        · exact .rejected nothing ‹_›
        · exact .usage (.inr ‹_›)
        · exact .version ‹_›
        · exact shape_of_run ‹_›
  | byTurns asked parallel turns =>
      obtain ⟨loaded, finished⟩ := turns
      rename_i sources turns
      -- Readers take turns only over files that could all be loaded.
      rcases files.hold_or_firstUnreadable _ with ⟨held, hold⟩ | ⟨e, first⟩
      · obtain rfl := Except.ok.inj (hold.load_eq.symm.trans loaded)
        have follow := Sharing.follow_after held Interner.sound_empty turns
        exact shape_of_entries asked hold (follow.entries_of finished)
      · rw [first.load_eq] at loaded
        cases loaded

/-! ## What answers tell -/

/-- The exit code and the two outputs, by the arguments and the files. -/
structure Answers (args : List String) (files : FileSystem) (isTerminal : Bool)
    (time : Source → String) (r : Response) : Prop where
  code_eq_one_iff : r.code = 1 ↔ args ≠ [] ∧
    ((∃ e, Request.ofArguments args = .error e) ∨
      ∃ settings, Request.ofArguments args = .ok (.lex settings) ∧
        ((∃ name ∈ settings.files, files.Unreadable name) ∨
          ∃ name ∈ settings.files, files.Faulty name))
  code_eq_zero : r.code ≠ 1 → r.code = 0
  stderr_ne_nil_iff : r.stderr ≠ [] ↔ args ≠ [] ∧
    ((∃ e, Request.ofArguments args = .error e) ∨
      ∃ settings, Request.ofArguments args = .ok (.lex settings) ∧
        ∃ name ∈ settings.files, files.Unreadable name)
  stdout_eq_nil : r.stderr ≠ [] → r.stdout = []
  /-- Of several unreadable files the first is told, and nothing else is. -/
  first_unreadable : ∀ settings, Request.ofArguments args = .ok (.lex settings) →
    (∃ name ∈ settings.files, files.Unreadable name) →
    ∃ e, files.FirstUnreadable e settings.files ∧ r = failure e.message
  /-- The summary is that of a terminal, for the faulty tokens of all files. -/
  summarized : r.code = 1 → r.stderr = [] →
    ∃ settings sources body, Request.ofArguments args = .ok (.lex settings) ∧
      files.Hold settings.files sources ∧
      Batch.Chapters settings (settings.color.colored isTerminal) time sources body ∧
      0 < Source.totalFaults sources ∧
      r.stdout = body ++ (Sink.summarize (Source.totalFaults sources)
        (Terminal.blank (settings.color.colored isTerminal))).output
  unsummarized : r.code = 0 →
    r.stdout = Utf8.encode usage ∨ r.stdout = Utf8.encode ("lm " ++ version ++ "\n") ∨
      ∃ settings sources, Request.ofArguments args = .ok (.lex settings) ∧
        files.Hold settings.files sources ∧ Source.totalFaults sources = 0 ∧
        Batch.Chapters settings (settings.color.colored isTerminal) time sources r.stdout

theorem stderr_failure_ne_nil (text : String) : (failure text).stderr ≠ [] := by
  have prefixed : Utf8.encode "error: " ≠ [] := by decide
  simp [failure, prefixed]

/-- Where help or the version is asked for, no argument is rejected and nothing is lexed. -/
theorem nothing_wrong
    (asked : args = [] ∨ Request.ofArguments args = .ok .help ∨
      Request.ofArguments args = .ok .version) (wrong : Settings → Prop) :
    ¬ (args ≠ [] ∧ ((∃ e, Request.ofArguments args = .error e) ∨
      ∃ settings, Request.ofArguments args = .ok (.lex settings) ∧ wrong settings)) := by
  rintro ⟨some_args, ⟨e, rejects⟩ | ⟨settings, lexes, _⟩⟩
  · simp [some_args, rejects] at asked
  · simp [some_args, lexes] at asked

/-- An answer with help or with the version, which the files do not matter to. -/
theorem answers_success {text : String}
    (asked : args = [] ∨ Request.ofArguments args = .ok .help ∨
      Request.ofArguments args = .ok .version)
    (told : text = usage ∨ text = "lm " ++ version ++ "\n") :
    Answers args files isTerminal time (success text) where
  code_eq_one_iff := iff_of_false (by simp [success]) (nothing_wrong asked _)
  code_eq_zero _ := rfl
  stderr_ne_nil_iff := iff_of_false (by simp [success]) (nothing_wrong asked _)
  stdout_eq_nil wrong := absurd rfl wrong
  first_unreadable settings lexes _ :=
    absurd ⟨ne_nil_of_lex lexes, .inr ⟨settings, lexes, trivial⟩⟩
      (nothing_wrong asked fun _ => True)
  summarized wrong := by simp [success] at wrong
  unsummarized _ :=
    told.imp (congrArg Utf8.encode) fun told => .inl (congrArg Utf8.encode told)

theorem answers_rejected {e : UsageError} (some_args : args ≠ [])
    (rejects : Request.ofArguments args = .error e) (text : String) :
    Answers args files isTerminal time (failure text) where
  code_eq_one_iff := iff_of_true rfl ⟨some_args, .inl ⟨e, rejects⟩⟩
  code_eq_zero wrong := absurd rfl wrong
  stderr_ne_nil_iff := iff_of_true (stderr_failure_ne_nil text) ⟨some_args, .inl ⟨e, rejects⟩⟩
  stdout_eq_nil _ := rfl
  first_unreadable settings lexes := by
    rw [rejects] at lexes
    cases lexes
  summarized _ silent := absurd silent (stderr_failure_ne_nil text)
  unsummarized wrong := by simp [failure] at wrong

theorem answers_unreadable {e : SourceError}
    (asked : Request.ofArguments args = .ok (.lex settings))
    (first : files.FirstUnreadable e settings.files) :
    Answers args files isTerminal time (failure e.message) where
  code_eq_one_iff :=
    iff_of_true rfl ⟨ne_nil_of_lex asked, .inr ⟨settings, asked, .inl first.exists_unreadable⟩⟩
  code_eq_zero wrong := absurd rfl wrong
  stderr_ne_nil_iff := iff_of_true (stderr_failure_ne_nil e.message)
    ⟨ne_nil_of_lex asked, .inr ⟨settings, asked, first.exists_unreadable⟩⟩
  stdout_eq_nil _ := rfl
  first_unreadable other also _ := by
    obtain rfl : settings = other := by simpa [asked] using also
    exact ⟨e, first, rfl⟩
  summarized _ silent := absurd silent (stderr_failure_ne_nil e.message)
  unsummarized wrong := by simp [failure] at wrong

theorem answers_lexed {body : List UInt8}
    (asked : Request.ofArguments args = .ok (.lex settings))
    (hold : files.Hold settings.files sources)
    (chapters : Batch.Chapters settings (settings.color.colored isTerminal) time sources body) :
    Answers args files isTerminal time
      ⟨if 0 < Source.totalFaults sources then 1 else 0,
        body ++ Summary.render (settings.color.colored isTerminal) (Source.totalFaults sources),
        []⟩ where
  code_eq_one_iff := by
    simp [ne_nil_of_lex asked, asked, hold.not_unreadable, hold.exists_faulty_iff]
  code_eq_zero notOne := by
    dsimp only at notOne ⊢
    split at notOne
    · exact absurd rfl notOne
    · rename_i none_faulty
      exact if_neg none_faulty
  stderr_ne_nil_iff := by simp [ne_nil_of_lex asked, asked, hold.not_unreadable]
  stdout_eq_nil wrong := absurd rfl wrong
  first_unreadable other also unreadable := by
    obtain rfl : settings = other := by simpa [asked] using also
    exact absurd unreadable hold.not_unreadable
  summarized isOne _ := by
    refine ⟨settings, sources, body, asked, hold, chapters, ?_, ?_⟩
    · simpa [Nat.pos_iff_ne_zero] using isOne
    · rw [Terminal.output_summarize]
      rfl
  unsummarized isZero := by
    have none_faulty : Source.totalFaults sources = 0 := by simpa using isZero
    refine .inr (.inr ⟨settings, sources, asked, hold, none_faulty, ?_⟩)
    simpa [none_faulty, Summary.render] using chapters

/-- **Exit code and outputs of the command**, for all arguments and all file systems,
whether files are lexed in order or by readers that take turns. -/
theorem responds_answers (args : List String) (files : FileSystem) (isTerminal : Bool)
    (time : Source → String) (r : Response) (responds : Responds args files isTerminal time r) :
    Answers args files isTerminal time r := by
  cases shape_of_responds responds with
  | usage asked => exact answers_success (asked.imp_right .inl) (.inl rfl)
  | version asked => exact answers_success (.inr (.inr asked)) (.inr rfl)
  | rejected some_args rejects => exact answers_rejected some_args rejects _
  | unreadable asked first => exact answers_unreadable asked first
  | lexed asked hold chapters => exact answers_lexed asked hold chapters

/-- Two files with an error each, named with a choice of colours between them. -/
theorem responds_answers_two :
    let files : FileSystem := fun name =>
      if name = "one" then .ok [0x61, 0x3F] else .ok [0x22, 0x0A, 0x62]
    let args := ["two", "--color=never", "one"]
    let r := respond args files true fun _ => ""
    Responds args files true (fun _ => "") r ∧ r.code = 1 ∧ r.stderr = [] ∧
      ∃ settings sources body, Request.ofArguments args = .ok (.lex settings) ∧
        files.Hold settings.files sources ∧ 0 < Source.totalFaults sources ∧
        r.stdout = body ++ (Sink.summarize (Source.totalFaults sources)
          (Terminal.blank (settings.color.colored true))).output := by
  intro files args r
  have responds : Responds args files true (fun _ => "") r := .inOrder
  have answers := responds_answers args files true (fun _ => "") r responds
  have code : r.code = 1 := by decide +kernel
  have silent : r.stderr = [] := by decide +kernel
  obtain ⟨settings, sources, body, asked, hold, _, faulty, written⟩ :=
    answers.summarized code silent
  exact ⟨responds, code, silent, settings, sources, body, asked, hold, faulty, written⟩

end CommandLine

end Lexis
