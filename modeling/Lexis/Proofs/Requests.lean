/-
# Lexis.Proofs.Requests -- what arguments ask for, said of the whole list

Arguments are read from left to right, and the first one that settles the matter ends the
reading.  What each of them is can be seen by its text alone (`Argument.Spelled`): it asks
for help or for the version, or it is wrong by itself, or it is ordinary.  Ordinary arguments
before a place count only by the settings that they make, and `Settings.ofList` says of the
whole list what these are (`read_append`).

So a request for help or for the version is heard exactly when nothing wrong stands before
it (`heard_iff`); a wrong argument before it is told instead (`help_unheard`).  Where nobody
asks for either, `Request.Means` says what the list means, and flags may stand anywhere in it
(`means_iff`).
-/
import Lexis.Arguments
import Lexis.Proofs.Interning

namespace Lexis

set_option autoImplicit false

/-! ## One argument, by its text -/

namespace Argument

/-- What an argument asks for that needs no files. -/
def asked? : String → Option Request
  | "-h" | "--help" => some .help
  | "-v" | "--version" => some .version
  | _ => none

def flags : List String := ["--benchmark", "--tokens", "--parallel"]

/-- A dash alone is a name, and so is the empty text. -/
def IsFileName (arg : String) : Prop :=
  arg = "-" ∨ arg.toList.head? ≠ some '-'

instance : DecidablePred IsFileName := fun _ => inferInstanceAs (Decidable (_ ∨ _))

def color? : String → Option ColorChoice
  | "--color=auto" => some .auto
  | "--color=always" => some .always
  | "--color=never" => some .never
  | _ => none

/-- What is wrong with an argument by itself. -/
inductive Wrong : String → UsageError → Prop
  | color {value : String} (noChoice : value ∉ ["auto", "always", "never"]) :
      Wrong ("--color=" ++ value) (.invalidColor value)
  | option {arg : String} (dash : arg.toList.head? = some '-') (notAlone : arg ≠ "-")
      (silent : asked? arg = none) (noFlag : arg ∉ flags)
      (noColor : ∀ value, arg ≠ "--color=" ++ value) : Wrong arg (.unknownOption arg)

/-- Nothing is wrong with it, and it does not ask for help or for the version. -/
structure Ordinary (arg : String) : Prop where
  silent : asked? arg = none
  fine : ∀ e, ¬ Wrong arg e

/-- The texts of each sort of argument. -/
inductive Spelled : String → Argument → Prop
  | shortHelp : Spelled "-h" .help
  | help : Spelled "--help" .help
  | shortVersion : Spelled "-v" .version
  | version : Spelled "--version" .version
  | benchmark : Spelled "--benchmark" .benchmark
  | listing : Spelled "--tokens" .listing
  | parallel : Spelled "--parallel" .parallel
  | color (value : String) : Spelled ("--color=" ++ value) (.color value)
  | unknown {arg : String} (wrong : Wrong arg (.unknownOption arg)) : Spelled arg (.unknown arg)
  | file {name : String} (isName : IsFileName name) : Spelled name (.file name)

variable {arg : String}

theorem asked?_eq_none_iff : asked? arg = none ↔ arg ∉ ["-h", "--help", "-v", "--version"] := by
  unfold asked?
  split <;> simp_all

theorem after?_eq_some_iff {start text rest : String} :
    after? start text = some rest ↔ text = start ++ rest := by
  unfold after?
  rw [Option.map_eq_some_iff]
  constructor
  · rintro ⟨chars, found, rfl⟩
    have split := List.isPrefixOf?_eq_some_iff_append_eq.mp found
    rw [← String.toList_inj, String.toList_append, String.toList_ofList, split]
  · rintro rfl
    refine ⟨rest.toList, ?_, String.ofList_toList⟩
    rw [String.toList_append]
    exact List.isPrefixOf?_eq_some_iff_append_eq.mpr rfl

/-- Every argument is of the sort that it is taken for. -/
theorem spelled_ofText (arg : String) : Spelled arg (ofText arg) := by
  unfold ofText
  split
  · exact .shortHelp
  · exact .help
  · exact .shortVersion
  · exact .version
  · exact .benchmark
  · exact .listing
  · exact .parallel
  · rename_i shortHelp help shortVersion version benchmark listing parallel
    split
    · rename_i value isColor
      rw [after?_eq_some_iff.mp isColor]
      exact .color value
    · rename_i noColor
      split
      · rename_i isOption
        refine .unknown (.option isOption.1 isOption.2 ?_ ?_ ?_)
        · rw [asked?_eq_none_iff]
          simpa using ⟨shortHelp, help, shortVersion, version⟩
        · simpa [flags] using ⟨benchmark, listing, parallel⟩
        · intro value isColor
          rw [after?_eq_some_iff.mpr isColor] at noColor
          cases noColor
      · rename_i noOption
        refine .file ?_
        by_cases alone : arg = "-"
        · exact .inl alone
        · exact .inr fun dash => noOption ⟨dash, alone⟩

namespace Wrong

variable {e e' : UsageError}

theorem color_iff {value : String} :
    Wrong ("--color=" ++ value) e ↔
      value ∉ ["auto", "always", "never"] ∧ e = .invalidColor value := by
  constructor
  · intro wrong
    generalize same : "--color=" ++ value = arg at wrong
    cases wrong with
    | @color other noChoice =>
        obtain rfl : value = other := by simpa [← String.toList_inj] using same
        exact ⟨noChoice, rfl⟩
    | option _ _ _ _ noColor => exact absurd same.symm (noColor value)
  · rintro ⟨noChoice, rfl⟩
    exact .color noChoice

theorem unique (wrong : Wrong arg e) (also : Wrong arg e') : e = e' := by
  cases wrong with
  | color noChoice => exact (color_iff.mp also).2.symm
  | option _ _ _ _ noColor =>
      cases also with
      | color => exact absurd rfl (noColor _)
      | option => rfl

theorem silent (wrong : Wrong arg e) : asked? arg = none := by
  cases wrong with
  | color =>
      rw [asked?_eq_none_iff]
      simp [← String.toList_inj]
  | option _ _ silent => exact silent

theorem notMem_flags (wrong : Wrong arg e) : arg ∉ flags := by
  cases wrong with
  | color =>
      simp only [flags, List.mem_cons, List.not_mem_nil, or_false, not_or, ← String.toList_inj]
      simp
  | option _ _ _ noFlag => exact noFlag

theorem not_isFileName (wrong : Wrong arg e) : ¬ IsFileName arg := by
  cases wrong with
  | color => simp [IsFileName, ← String.toList_inj]
  | option dash notAlone => exact not_or.mpr ⟨notAlone, not_not.mpr dash⟩

end Wrong

theorem IsFileName.color?_eq_none (isName : IsFileName arg) : color? arg = none := by
  unfold color?
  split
  · exact absurd isName (by decide)
  · exact absurd isName (by decide)
  · exact absurd isName (by decide)
  · rfl

theorem IsFileName.notMem_flags (isName : IsFileName arg) : arg ∉ flags := by
  intro isFlag
  have dashed : ∀ flag ∈ flags, ¬ IsFileName flag := by decide
  exact dashed arg isFlag isName

end Argument

theorem ColorChoice.ofText?_eq_none_iff {value : String} :
    ofText? value = none ↔ value ∉ ["auto", "always", "never"] := by
  unfold ofText?
  split <;> simp_all

/-! ## Ordinary arguments -/

namespace Settings

open Argument

/-- The settings that arguments make, wherever they stand among others. -/
def ofList (args : List String) : Settings where
  files := (args.filter IsFileName).eraseDups
  benchmark := "--benchmark" ∈ args
  listing := "--tokens" ∈ args
  parallel := "--parallel" ∈ args
  color := (args.filterMap color?).getLast?.getD .auto

theorem ofList_snoc (seen : List String) (arg : String) :
    ofList (seen ++ [arg]) =
      { files := if IsFileName arg then ((ofList seen).addFile arg).files else (ofList seen).files
        benchmark := (ofList seen).benchmark || arg = "--benchmark"
        listing := (ofList seen).listing || arg = "--tokens"
        parallel := (ofList seen).parallel || arg = "--parallel"
        color := (color? arg).getD (ofList seen).color } := by
  have files : ((seen ++ [arg]).filter IsFileName).eraseDups =
      if IsFileName arg then ((ofList seen).addFile arg).files else (ofList seen).files := by
    by_cases isName : IsFileName arg
    · rw [if_pos isName, List.filter_append, List.filter_cons_of_pos (by simpa using isName),
        List.filter_nil]
      unfold addFile ofList
      dsimp only
      by_cases old : arg ∈ seen.filter IsFileName
      · rw [if_pos (List.mem_eraseDups.mpr old), Interner.eraseDups_snoc_of_mem old]
      · rw [if_neg (mt List.mem_eraseDups.mp old), Interner.eraseDups_snoc_of_notMem old]
    · rw [if_neg isName, List.filter_append, List.filter_cons_of_neg (by simpa using isName),
        List.filter_nil, List.append_nil]
      rfl
  have color : ((seen ++ [arg]).filterMap color?).getLast?.getD .auto =
      (color? arg).getD (ofList seen).color := by
    rw [List.filterMap_append]
    cases chosen : color? arg with
    | none => simp [chosen, ofList]
    | some choice => simp [chosen]
  rw [ofList, files, color]
  simp [ofList, eq_comm]

theorem addFile_eq (s : Settings) (name : String) :
    s.addFile name = { s with files := (s.addFile name).files } := by
  unfold addFile
  split <;> rfl

/-- An ordinary argument only adds to what those before it set. -/
theorem read_ordinary (seen rest : List String) {arg : String} (ordinary : Ordinary arg) :
    (ofList seen).read (arg :: rest) = (ofList (seen ++ [arg])).read rest := by
  have spelled := spelled_ofText arg
  rw [read, ofList_snoc]
  generalize Argument.ofText arg = sort at spelled ⊢
  cases spelled with
  | shortHelp | help | shortVersion | version => exact absurd ordinary.silent (by decide)
  | benchmark | listing | parallel =>
      rw [if_neg (by decide)]
      simp [color?]
  | color value =>
      have choice : value ∈ ["auto", "always", "never"] := by
        by_contra noChoice
        exact ordinary.fine _ (.color noChoice)
      simp only [List.mem_cons, List.not_mem_nil, or_false] at choice
      rcases choice with rfl | rfl | rfl
      all_goals
        rw [if_neg (by decide)]
        simp [color?, ColorChoice.ofText?]
  | unknown wrong => exact absurd wrong (ordinary.fine _)
  | file isName =>
      have noFlag := isName.notMem_flags
      simp only [flags, List.mem_cons, List.not_mem_nil, or_false, not_or] at noFlag
      rw [if_pos isName, isName.color?_eq_none]
      simp only [noFlag, decide_false, Bool.or_false, Option.getD_none]
      rw [← addFile_eq]

/-- Ordinary arguments count by the settings that they make. -/
theorem read_append (seen : List String) {front : List String} (back : List String)
    (ordinary : ∀ arg ∈ front, Ordinary arg) :
    (ofList seen).read (front ++ back) = (ofList (seen ++ front)).read back := by
  induction front generalizing seen with
  | nil => rw [List.nil_append, List.append_nil]
  | cons arg front ih =>
      obtain ⟨first, later⟩ := List.forall_mem_cons.mp ordinary
      rw [List.cons_append, read_ordinary seen _ first, ih _ later, List.append_assoc,
        List.singleton_append]

theorem read_asked (s : Settings) {word : String} {r : Request} (asks : asked? word = some r)
    (rest : List String) : s.read (word :: rest) = .ok r := by
  unfold asked? at asks
  split at asks
  case h_5 => cases asks
  all_goals
    cases asks
    rfl

theorem read_wrong (s : Settings) {arg : String} {e : UsageError} (wrong : Wrong arg e)
    (rest : List String) : s.read (arg :: rest) = .error e := by
  have spelled := spelled_ofText arg
  rw [read]
  generalize Argument.ofText arg = sort at spelled ⊢
  cases spelled with
  | shortHelp | help | shortVersion | version => exact absurd wrong.silent (by decide)
  | benchmark | listing | parallel => exact absurd wrong.notMem_flags (by decide)
  | color value =>
      obtain ⟨noChoice, rfl⟩ := Wrong.color_iff.mp wrong
      dsimp only
      rw [ColorChoice.ofText?_eq_none_iff.mpr noChoice]
  | unknown also => rw [wrong.unique also]
  | file isName => exact absurd isName wrong.not_isFileName

end Settings

/-! ## All arguments -/

namespace Request

open Argument

variable {args before other : List String} {r : Request} {e : UsageError}

/-- The first argument that is wrong, and what is wrong with it. -/
inductive FirstWrong (e : UsageError) : List String → Prop
  | intro {front back : List String} {arg : String} (fine : ∀ a ∈ front, ∀ e, ¬ Wrong a e)
      (wrong : Wrong arg e) : FirstWrong e (front ++ arg :: back)

/-- The first argument that asks for help or for the version, with what it asks for and
the arguments before it. -/
inductive FirstAsked (before : List String) (r : Request) : List String → Prop
  | intro {word : String} {after : List String} (silent : ∀ arg ∈ before, asked? arg = none)
      (asks : asked? word = some r) : FirstAsked before r (before ++ word :: after)

theorem fine_or_firstWrong (args : List String) :
    (∀ arg ∈ args, ∀ e, ¬ Wrong arg e) ∨ ∃ e, FirstWrong e args := by
  induction args with
  | nil => exact .inl fun _ member => absurd member List.not_mem_nil
  | cons arg args ih =>
      by_cases wrong : ∃ e, Wrong arg e
      · obtain ⟨e, wrong⟩ := wrong
        have first : FirstWrong e ([] ++ arg :: args) := .intro (by simp) wrong
        exact .inr ⟨e, first⟩
      · rw [not_exists] at wrong
        rcases ih with fine | ⟨e, fine, first⟩
        · exact .inl (List.forall_mem_cons.mpr ⟨wrong, fine⟩)
        · refine .inr ⟨e, ?_⟩
          rw [← List.cons_append]
          exact .intro (List.forall_mem_cons.mpr ⟨wrong, fine⟩) first

theorem FirstWrong.not_fine (first : FirstWrong e args) : ¬ ∀ arg ∈ args, ∀ e, ¬ Wrong arg e := by
  obtain ⟨_, wrong⟩ := first
  exact fun fine => fine _ (by simp) _ wrong

theorem exists_firstAsked (asks : ∃ arg ∈ args, asked? arg ≠ none) :
    ∃ before r, FirstAsked before r args := by
  induction args with
  | nil =>
      obtain ⟨_, member, _⟩ := asks
      exact absurd member List.not_mem_nil
  | cons arg args ih =>
      cases here : asked? arg with
      | some r =>
          have first : FirstAsked [] r ([] ++ arg :: args) := .intro (by simp) here
          exact ⟨[], r, first⟩
      | none =>
          obtain ⟨before, r, silent, later⟩ := ih (by simpa [here] using asks)
          refine ⟨arg :: before, r, ?_⟩
          rw [← List.cons_append]
          exact .intro (List.forall_mem_cons.mpr ⟨here, silent⟩) later

/-- Ordinary arguments in front count by the settings that they make. -/
theorem ofArguments_append {front : List String} (back : List String)
    (ordinary : ∀ arg ∈ front, Ordinary arg) :
    ofArguments (front ++ back) = (Settings.ofList front).read back :=
  Settings.read_append [] back ordinary

/-- What is wrong first is told, if nobody asked for help or for the version before. -/
theorem FirstWrong.ofArguments_eq (first : FirstWrong e before)
    (silent : ∀ arg ∈ before, asked? arg = none) (after : List String) :
    ofArguments (before ++ after) = .error e := by
  obtain ⟨fine, wrong⟩ := first
  rename_i front back arg
  rw [List.append_assoc, ofArguments_append]
  · exact Settings.read_wrong _ wrong _
  · exact fun a member => ⟨silent a (List.mem_append_left _ member), fine a member⟩

theorem FirstAsked.ofArguments_eq (first : FirstAsked before r args)
    (fine : ∀ arg ∈ before, ∀ e, ¬ Wrong arg e) : ofArguments args = .ok r := by
  obtain ⟨silent, asks⟩ := first
  rw [ofArguments_append _ fun arg member => ⟨silent arg member, fine arg member⟩]
  exact Settings.read_asked _ asks _

/-! ### Help and version -/

/-- **A request for help or for the version is heard when nothing wrong stands before it**,
whatever stands behind it; and otherwise the first wrong argument before it is told. -/
theorem heard_iff (args : List String)
    (asks : ∃ arg ∈ args, arg ∈ ["-h", "--help", "-v", "--version"]) :
    ∃ before r, FirstAsked before r args ∧
      (ofArguments args = .ok r ↔ ∀ arg ∈ before, ∀ e, ¬ Wrong arg e) ∧
      ∀ e, ofArguments args = .error e ↔ FirstWrong e before := by
  obtain ⟨word, member, isWord⟩ := asks
  obtain ⟨before, r, first⟩ :=
    exists_firstAsked ⟨word, member, fun silent => asked?_eq_none_iff.mp silent isWord⟩
  refine ⟨before, r, first, ?_⟩
  rcases fine_or_firstWrong before with fine | ⟨e, wrong⟩
  · rw [first.ofArguments_eq fine]
    exact ⟨iff_of_true rfl fine, fun e => iff_of_false (by simp) fun wrong => wrong.not_fine fine⟩
  · have told {e : UsageError} (wrong : FirstWrong e before) : ofArguments args = .error e := by
      obtain ⟨silent, _⟩ := first
      exact wrong.ofArguments_eq silent _
    refine ⟨iff_of_false (by simp [told wrong]) wrong.not_fine, fun e' => ⟨fun same => ?_, told⟩⟩
    rw [told wrong] at same
    cases same
    exact wrong

/-- A file and a flag before a request for the version, and behind it an unknown option and
a request for help. -/
theorem heard_iff_version :
    let args := ["a", "--tokens", "-v", "--wat", "-h"]
    (∃ arg ∈ args, arg ∈ ["-h", "--help", "-v", "--version"]) ∧
      ofArguments args = .ok .version ∧
      ∃ before r, FirstAsked before r args ∧
        (ofArguments args = .ok r ↔ ∀ arg ∈ before, ∀ e, ¬ Wrong arg e) ∧
        ∀ e, ofArguments args = .error e ↔ FirstWrong e before := by
  intro args
  have asks : ∃ arg ∈ args, arg ∈ ["-h", "--help", "-v", "--version"] := by decide
  exact ⟨asks, by decide, heard_iff args asks⟩

/-- Not every request for help is heard: an unknown option before it is told instead. -/
theorem help_unheard :
    ¬ ∀ args before r, FirstAsked before r args → ofArguments args = .ok r := by
  intro heard
  have first : FirstAsked ["--wat"] .help (["--wat"] ++ "-h" :: []) := .intro (by decide) rfl
  have told : ofArguments ["--wat", "-h"] = .error (.unknownOption "--wat") := by decide
  have contrary := heard _ _ _ first
  rw [List.singleton_append, told] at contrary
  cases contrary

/-! ### Files and flags -/

/-- What arguments mean when nobody asks for help or for the version. -/
inductive Means : List String → Except UsageError Request → Prop
  | wrong {args : List String} {e : UsageError} (first : FirstWrong e args) :
      Means args (.error e)
  | noFiles {args : List String} (fine : ∀ arg ∈ args, ∀ e, ¬ Wrong arg e)
      (nameless : ∀ arg ∈ args, ¬ IsFileName arg) : Means args (.error .noInputFiles)
  | lex {args : List String} (fine : ∀ arg ∈ args, ∀ e, ¬ Wrong arg e)
      (named : ∃ arg ∈ args, IsFileName arg) : Means args (.ok (.lex (Settings.ofList args)))

/-- The same arguments, with the files in the same order and the colours in the same order. -/
structure FlagsMoved (args other : List String) : Prop where
  perm : args.Perm other
  files : args.filter IsFileName = other.filter IsFileName
  colors : args.filterMap color? = other.filterMap color?

theorem FlagsMoved.ofList_eq (moved : FlagsMoved args other) :
    Settings.ofList args = Settings.ofList other := by
  simp only [Settings.ofList, moved.files, moved.colors, moved.perm.mem_iff]

theorem files_eq_nil_iff : (Settings.ofList args).files = [] ↔ ∀ arg ∈ args, ¬ IsFileName arg := by
  simp [Settings.ofList, List.eq_nil_iff_forall_not_mem]

theorem ofArguments_of_fine (silent : ∀ arg ∈ args, asked? arg = none)
    (fine : ∀ arg ∈ args, ∀ e, ¬ Wrong arg e) :
    ofArguments args = if (Settings.ofList args).files = [] then .error .noInputFiles
      else .ok (.lex (Settings.ofList args)) := by
  have whole := ofArguments_append [] fun arg member => ⟨silent arg member, fine arg member⟩
  rw [List.append_nil] at whole
  rw [whole, Settings.read]

theorem Means.ofArguments_eq {result : Except UsageError Request} (means : Means args result)
    (silent : ∀ arg ∈ args, asked? arg = none) : ofArguments args = result := by
  cases means with
  | wrong first =>
      have told := first.ofArguments_eq silent []
      rwa [List.append_nil] at told
  | noFiles fine nameless =>
      rw [ofArguments_of_fine silent fine, if_pos (files_eq_nil_iff.mpr nameless)]
  | lex fine named =>
      rw [ofArguments_of_fine silent fine, if_neg]
      rw [files_eq_nil_iff]
      exact fun nameless => named.elim fun arg isName => nameless arg isName.1 isName.2

theorem exists_means (args : List String) : ∃ result, Means args result := by
  rcases fine_or_firstWrong args with fine | ⟨e, first⟩
  · by_cases named : ∃ arg ∈ args, IsFileName arg
    · exact ⟨_, .lex fine named⟩
    · exact ⟨_, .noFiles fine (by simpa using named)⟩
  · exact ⟨_, .wrong first⟩

/-- **What arguments mean that ask for neither help nor the version**: the first that is
wrong is told; else without a file there is nothing to do; else each file is lexed once, in
the order in which they are first named, under the flags that occur and the last choice of
colours.  Moving flags about changes nothing that is not an error. -/
theorem means_iff (args : List String)
    (silent : ∀ arg ∈ args, arg ∉ ["-h", "--help", "-v", "--version"]) :
    (∀ result, ofArguments args = result ↔ Means args result) ∧
      ∀ other, FlagsMoved args other → ∀ r, ofArguments args = .ok r →
        ofArguments other = .ok r := by
  have asksNot : ∀ arg ∈ args, asked? arg = none :=
    fun arg member => asked?_eq_none_iff.mpr (silent arg member)
  have meaning (result : Except UsageError Request) :
      ofArguments args = result ↔ Means args result := by
    constructor
    · rintro rfl
      obtain ⟨result, means⟩ := exists_means args
      rwa [means.ofArguments_eq asksNot]
    · exact fun means => means.ofArguments_eq asksNot
  refine ⟨meaning, ?_⟩
  intro other moved r accepted
  have back {P : String → Prop} (holds : ∀ arg ∈ args, P arg) : ∀ arg ∈ other, P arg :=
    fun arg member => holds arg (moved.perm.mem_iff.mpr member)
  cases (meaning _).mp accepted with
  | lex fine named =>
      obtain ⟨name, member, isName⟩ := named
      rw [moved.ofList_eq]
      exact (Means.lex (back fine) ⟨name, moved.perm.mem_iff.mp member, isName⟩).ofArguments_eq
        (back asksNot)

/-- A dash and the empty text are files, one file is named twice, and colours are chosen
twice. -/
theorem means_iff_dash :
    let args := ["--color=never", "-", "--tokens", "", "b", "-", "--color=always"]
    let other := ["--tokens", "-", "", "--color=never", "b", "-", "--color=always"]
    (∀ arg ∈ args, arg ∉ ["-h", "--help", "-v", "--version"]) ∧ FlagsMoved args other ∧
      ofArguments args = .ok (.lex ⟨["-", "", "b"], false, true, false, .always⟩) ∧
      ofArguments other = .ok (.lex ⟨["-", "", "b"], false, true, false, .always⟩) := by
  intro args other
  have silent : ∀ arg ∈ args, arg ∉ ["-h", "--help", "-v", "--version"] := by decide
  have moved : FlagsMoved args other := ⟨by decide, by decide, by decide⟩
  have accepted : ofArguments args = .ok (.lex ⟨["-", "", "b"], false, true, false, .always⟩) := by
    decide
  exact ⟨silent, moved, accepted, (means_iff args silent).2 other moved _ accepted⟩

end Request

end Lexis
