import Mathlib.Data.List.Basic
import PipeQuery.CommandLine.Arguments

/-!
# `PipeQuery.Proofs.CommandLine.Arguments`: the order of arguments does not matter

Arguments are read from left to right and each conflict is found as soon as it can be, against what
was read so far. What comes out has no order in it. Arguments belong together in groups, an option
with its value or a word by itself, and groups in any order ask for the same or are refused alike
(`ofArguments_perm`).

* `read_words`: a group is read by itself, whatever stands behind it.
* `Tells`: what an invocation says of the groups that it was read from. There is one invocation that
  tells of some groups (`Tells.eq`), and it tells of them in any order (`Tells.perm`).
* `read_cases`: groups are read to an invocation that tells of them, or they are in conflict.
* `ofArguments_ok_iff`: all arguments that are read at all are groups, and are read to what tells of
  these.
-/

set_option autoImplicit false

namespace PipeQuery.Invocation

/-! ### Groups -/

/-- The options that take the next argument for their value. -/
def valueOptions : List String :=
  ["-c", "--command", "--config"]

/-- The words that are read as they stand. -/
def optionWords : List String :=
  ["-h", "--help", "--dev", "--tokens", "--json"] ++ valueOptions

/-- What an option that holds its value begins with. -/
def gluedStarts : List String :=
  ["-c=", "--command=", "--config="]

/-- The argument names a file or the standard input. -/
def IsPositional (argument : String) : Prop :=
  argument = stdinPath ∨ argument.toList.head? ≠ some '-'

/-- The argument looks like an option and is none. -/
structure IsUnknown (argument : String) : Prop where
  dashed : argument.toList.head? = some '-'
  ne_stdin : argument ≠ stdinPath
  not_word : argument ∉ optionWords
  not_glued : ∀ start ∈ gluedStarts, ¬ start.toList <+: argument.toList

/-- Arguments that belong together. -/
inductive Group where
  | help (short : Bool)
  | dev
  | format (json : Bool)
  | command (short glued : Bool) (query : String)
  | config (glued : Bool) (path : String)
  | file (path : String) (h : IsPositional path)
  | unknown (option : String) (h : IsUnknown option)

namespace Group

/-- The arguments of a group, as they are written. -/
def words : Group → List String
  | .help short => [if short then "-h" else "--help"]
  | .dev => ["--dev"]
  | .format json => [if json then "--json" else "--tokens"]
  | .command short false query => [if short then "-c" else "--command", query]
  | .command short true query => [(if short then "-c=" else "--command=") ++ query]
  | .config false path => ["--config", path]
  | .config true path => ["--config=" ++ path]
  | .file path _ => [path]
  | .unknown option _ => [option]

/-- The query that the group holds. -/
@[simp]
def query? : Group → Option String
  | .command _ _ query => some query
  | _ => none

/-- The file of options that the group names. -/
@[simp]
def config? : Group → Option String
  | .config _ path => some path
  | _ => none

/-- The file with a query that the group names. -/
@[simp]
def file? : Group → Option String
  | .file path _ => some path
  | _ => none

/-- The format that the group asks for. -/
@[simp]
def format? : Group → Option Format
  | .format json => some (if json then .json else .tokens)
  | _ => none

/-- The group asks for help. -/
@[simp]
def isHelp : Group → Bool
  | .help _ => true
  | _ => false

/-- The group switches the previews on. -/
@[simp]
def isDev : Group → Bool
  | .dev => true
  | _ => false

/-- The group is an unknown option. -/
@[simp]
def isUnknown : Group → Bool
  | .unknown .. => true
  | _ => false

/-- The invocation with one more group. -/
def onto (i : Invocation) : Group → Except Misuse Invocation
  | .help _ => .ok { i with showHelp := true }
  | .dev => .ok { i with dev := true }
  | .format json => i.withFormat (if json then .json else .tokens)
  | .command _ _ query => i.withCommand query
  | .config _ path => i.withConfig path
  | .file path _ => i.withFile path
  | .unknown option _ => .error (.unknownOption option)

end Group

/-- The arguments of some groups. -/
def wordsOf (groups : List Group) : List String :=
  groups.flatMap Group.words

/-! ### One group -/

/-- What stands behind the start of an argument is found there. -/
theorem after?_append (start rest : String) : after? start (start ++ rest) = some rest := by
  have hprefix : start.toList.isPrefixOf (start.toList ++ rest.toList) = true :=
    List.isPrefixOf_iff_prefix.mpr (List.prefix_append _ _)
  rw [after?, String.toList_append, if_pos hprefix, ← String.length_toList, List.drop_left,
    String.ofList_toList]

/-- An argument that starts otherwise has nothing behind that start. -/
theorem after?_eq_none {start argument : String} (h : ¬ start.toList <+: argument.toList) :
    after? start argument = none :=
  if_neg fun hprefix => h (List.isPrefixOf_iff_prefix.mp hprefix)

/-- A word that is no option in itself is read as one that takes no value. -/
theorem read_argument (i : Invocation) {argument : String} (h : argument ∉ optionWords)
    (rest : List String) :
    i.read (argument :: rest) = (i.withArgument argument).bind (·.read rest) := by
  simp only [optionWords, valueOptions, List.cons_append, List.nil_append, List.mem_cons,
    List.not_mem_nil, or_false, not_or] at h
  rw [read.eq_def]
  simp only [h, decide_false, Bool.or_self, Bool.false_eq_true, if_false]
  rfl

/-- An option with its value in it is no option by itself, as these have no `=`. -/
theorem not_mem_optionWords {argument : String} (h : '=' ∈ argument.toList) :
    argument ∉ optionWords := by
  intro hmem
  have hnone : ∀ word ∈ optionWords, '=' ∉ word.toList := by decide
  exact hnone argument hmem h

/-- An argument that is no option is the file of queries. -/
theorem withArgument_positional (i : Invocation) {argument : String} (h : IsPositional argument) :
    i.withArgument argument = i.withFile argument := by
  rcases h with rfl | hhead
  · rfl
  · have hstart : ∀ start : String, start.toList.head? = some '-' →
        after? start argument = none := by
      intro start hstart
      refine after?_eq_none fun hprefix => hhead ?_
      obtain ⟨tail, htail⟩ := List.head?_eq_some_iff.mp hstart
      obtain ⟨behind, hbehind⟩ := hprefix
      rw [← hbehind, htail]
      rfl
    simp only [withArgument, hstart "-c=" rfl, hstart "--command=" rfl, hstart "--config=" rfl,
      hstart "-" rfl]
    rfl

/-- An option that is not known is refused by its own text. -/
theorem withArgument_unknown (i : Invocation) {argument : String} (h : IsUnknown argument) :
    i.withArgument argument = .error (.unknownOption argument) := by
  have hdash : (after? "-" argument).isSome = true := by
    obtain ⟨tail, htail⟩ := List.head?_eq_some_iff.mp h.dashed
    rw [after?, if_pos]
    · rfl
    · rw [htail]
      rfl
  have hglued : ∀ start ∈ gluedStarts, after? start argument = none := fun start hstart =>
    after?_eq_none (h.not_glued start hstart)
  simp only [withArgument, hglued "-c=" (by decide), hglued "--command=" (by decide),
    hglued "--config=" (by decide), hdash, h.ne_stdin, ne_eq, not_false_eq_true, decide_true,
    Bool.and_self, if_true]

/-- A query glued to its option is taken from behind the `=`. -/
theorem withArgument_command (i : Invocation) (short : Bool) (query : String) :
    i.withArgument ((if short then "-c=" else "--command=") ++ query) = i.withCommand query := by
  cases short with
  | true => simp only [withArgument, if_true, after?_append]
  | false =>
      have hother : after? "-c=" ("--command=" ++ query) = none :=
        after?_eq_none (by rw [String.toList_append]; simp)
      simp only [withArgument, Bool.false_eq_true, if_false, hother, after?_append]

/-- A path glued to its option is taken from behind the `=`. -/
theorem withArgument_config (i : Invocation) (path : String) :
    i.withArgument ("--config=" ++ path) = i.withConfig path := by
  have hshort : after? "-c=" ("--config=" ++ path) = none :=
    after?_eq_none (by rw [String.toList_append]; simp)
  have hlong : after? "--command=" ("--config=" ++ path) = none :=
    after?_eq_none (by rw [String.toList_append]; simp)
  simp only [withArgument, hshort, hlong, after?_append]

/-- An argument that is no option is none of the words that are. -/
theorem IsPositional.not_mem_optionWords {argument : String} (h : IsPositional argument) :
    argument ∉ optionWords := by
  intro hmem
  have hdashed : ∀ word ∈ optionWords, word ≠ stdinPath ∧ word.toList.head? = some '-' := by
    decide
  rcases h with h | h
  · exact (hdashed argument hmem).1 h
  · exact h (hdashed argument hmem).2

/-- A group is read by itself, whatever stands behind it. -/
theorem read_words (i : Invocation) (g : Group) (rest : List String) :
    i.read (g.words ++ rest) = (g.onto i).bind (·.read rest) := by
  cases g with
  | help short => cases short <;> exact read.eq_def _ _
  | dev => exact read.eq_def _ _
  | format json => cases json <;> exact read.eq_def _ _
  -- Glued, the value is in the same word, which is then no option by itself.
  | command short glued query =>
      cases glued with
      | false => cases short <;> rfl
      | true =>
          have hequal : '=' ∈ ((if short then "-c=" else "--command=") ++ query).toList := by
            cases short <;> simp
          exact (read_argument i (not_mem_optionWords hequal) rest).trans
            (by rw [withArgument_command]; rfl)
  | config glued path =>
      cases glued with
      | false => rfl
      | true =>
          have hequal : '=' ∈ ("--config=" ++ path).toList := by simp
          exact (read_argument i (not_mem_optionWords hequal) rest).trans
            (by rw [withArgument_config]; rfl)
  | file path h =>
      exact (read_argument i h.not_mem_optionWords rest).trans
        (by rw [withArgument_positional i h]; rfl)
  | unknown option h =>
      exact (read_argument i h.not_word rest).trans (by rw [withArgument_unknown i h]; rfl)

/-! ### Any number of groups -/

/-- No two of the groups are in conflict, and all are known. -/
structure Compatible (groups : List Group) : Prop where
  known : ∀ g ∈ groups, g.isUnknown = false
  one_query : (groups.filterMap Group.query?).length ≤ 1
  one_config : (groups.filterMap Group.config?).length ≤ 1
  one_file : (groups.filterMap Group.file?).length ≤ 1
  query_or_file : groups.filterMap Group.query? = [] ∨ groups.filterMap Group.file? = []
  one_format : ¬ (Format.tokens ∈ groups.filterMap Group.format? ∧
    Format.json ∈ groups.filterMap Group.format?)

/-- The invocation says what the groups ask for. -/
structure Tells (groups : List Group) (i : Invocation) : Prop where
  known : ∀ g ∈ groups, g.isUnknown = false
  command : i.command.toList = groups.filterMap Group.query?
  config : i.configPath.toList = groups.filterMap Group.config?
  file : i.queryPath.toList = groups.filterMap Group.file?
  query_or_file : i.command = none ∨ i.queryPath = none
  format : ∀ f, i.format = some f ↔ f ∈ groups.filterMap Group.format?
  dev : i.dev = groups.any Group.isDev
  help : i.showHelp = groups.any Group.isHelp

variable {groups groups' more : List Group} {i i' : Invocation}

/-- The values of one group are those it has, one or none. -/
theorem filterMap_singleton {α β : Type} (f : α → Option β) (a : α) :
    [a].filterMap f = (f a).toList := by
  cases h : f a <;> simp [h]

/-- An invocation tells of groups that are not in conflict. -/
theorem Tells.compatible (h : Tells groups i) : Compatible groups where
  known := h.known
  one_query := h.command ▸ Option.length_toList_le
  one_config := h.config ▸ Option.length_toList_le
  one_file := h.file ▸ Option.length_toList_le
  query_or_file := h.query_or_file.imp (fun hnone => by rw [← h.command, hnone]; rfl)
    (fun hnone => by rw [← h.file, hnone]; rfl)
  one_format := by
    rintro ⟨htokens, hjson⟩
    have := ((h.format _).mpr htokens).symm.trans ((h.format _).mpr hjson)
    cases this

/-- Without groups the invocation is empty. -/
theorem tells_empty : Tells [] empty := by
  constructor <;> simp [empty]

/-- Groups in front of others are not in conflict if all together are not. -/
theorem Compatible.of_append (h : Compatible (groups ++ more)) : Compatible groups := by
  obtain ⟨hknown, hquery, hconfig, hfile, heither, hformat⟩ := h
  simp only [List.filterMap_append, List.length_append, List.append_eq_nil_iff,
    List.mem_append] at hquery hconfig hfile heither hformat
  exact ⟨fun g hg => hknown g (List.mem_append_left _ hg), by omega, by omega, by omega,
    heither.imp And.left And.left, fun hboth => hformat (hboth.imp .inl .inl)⟩

/-- No group asks for the text form: it is what is shown without a format. -/
theorem text_not_mem_formats : Format.text ∉ groups.filterMap Group.format? := by
  rw [List.mem_filterMap]
  rintro ⟨g, -, hg⟩
  cases g with
  | format json => cases json <;> cases hg
  | _ => cases hg

/-- One more group, and an invocation that says in addition what the group asks for. -/
theorem Tells.concat (h : Tells groups i) {g : Group} (hknown : g.isUnknown = false)
    (hcommand : i'.command.toList = i.command.toList ++ g.query?.toList)
    (hconfig : i'.configPath.toList = i.configPath.toList ++ g.config?.toList)
    (hfile : i'.queryPath.toList = i.queryPath.toList ++ g.file?.toList)
    (heither : i'.command = none ∨ i'.queryPath = none)
    (hformat : ∀ f, i'.format = some f ↔ i.format = some f ∨ g.format? = some f)
    (hdev : i'.dev = (i.dev || g.isDev)) (hhelp : i'.showHelp = (i.showHelp || g.isHelp)) :
    Tells (groups ++ [g]) i' where
  known g' hg' := by
    rcases List.mem_append.mp hg' with hg' | hg'
    · exact h.known g' hg'
    · rw [List.mem_singleton.mp hg', hknown]
  command := by rw [hcommand, h.command, List.filterMap_append, filterMap_singleton]
  config := by rw [hconfig, h.config, List.filterMap_append, filterMap_singleton]
  file := by rw [hfile, h.file, List.filterMap_append, filterMap_singleton]
  query_or_file := heither
  format f := by
    rw [hformat, h.format, List.filterMap_append, filterMap_singleton, List.mem_append,
      Option.mem_toList]
  dev := by rw [hdev, h.dev, List.any_append, List.any_cons, List.any_nil, Bool.or_false]
  help := by rw [hhelp, h.help, List.any_append, List.any_cons, List.any_nil, Bool.or_false]

/-! ### Conflicts -/

/-- A value that is told of, and one more, are more than one. -/
theorem not_length_le_one {f : Group → Option String} {o : Option String}
    (h : o.toList = groups.filterMap f) {value value' : String} (ho : o = some value) {g : Group}
    (hg : f g = some value') : ¬ ((groups ++ [g]).filterMap f).length ≤ 1 := by
  rw [List.filterMap_append, filterMap_singleton, ← h, ho, hg]
  simp

/-- The result tells of the groups, or they are in conflict. -/
def Decides (groups : List Group) (result : Except Misuse Invocation) : Prop :=
  (∃ i, result = .ok i ∧ Tells groups i) ∨ ∃ misuse, result = .error misuse ∧ ¬ Compatible groups

namespace Tells

variable (h : Tells groups i)
include h

/-- One format more is taken, or is in conflict with the other format. -/
theorem withFormat (json : Bool) :
    Decides (groups ++ [.format json]) (i.withFormat (if json then .json else .tokens)) := by
  generalize hf : (if json then Format.json else Format.tokens) = f
  have hasked : (Group.format json).format? = some f := congrArg some hf
  unfold Invocation.withFormat
  cases hother : i.format with
  | none =>
      refine .inl ⟨_, rfl, h.concat rfl ?_ ?_ ?_ h.query_or_file ?_ ?_ ?_⟩
      case refine_4 => intro f'; simp [hother, hf]
      all_goals simp
  | some other =>
      dsimp only
      split
      case isTrue hsame =>
        refine .inl ⟨_, rfl, h.concat rfl ?_ ?_ ?_ h.query_or_file ?_ ?_ ?_⟩
        case refine_4 => intro f'; simp [hother, hf, hsame]
        all_goals simp
      case isFalse hother' =>
        refine .inr ⟨_, rfl, fun hall => hall.one_format ?_⟩
        have hmem := (h.format other).mp hother
        -- Neither of the two is the text form, so they are the other two.
        have htext : other ≠ .text := fun htext => text_not_mem_formats (htext ▸ hmem)
        rw [List.filterMap_append, filterMap_singleton, hasked, List.mem_append, List.mem_append]
        subst hf
        cases json <;> cases other <;> simp_all

/-- One query more is taken, or is in conflict with a query or a file. -/
theorem withCommand (short glued : Bool) (query : String) :
    Decides (groups ++ [.command short glued query]) (i.withCommand query) := by
  unfold Invocation.withCommand
  cases hpath : i.queryPath with
  | some path =>
      -- The conflict between a query and a file is found here if the file comes first, and in
      -- `withFile` if the query does.
      refine .inr ⟨_, rfl, fun hall => ?_⟩
      have heither := hall.query_or_file
      rw [List.filterMap_append, List.filterMap_append, ← h.file, hpath] at heither
      simp at heither
  | none =>
      cases hquery : i.command with
      | some earlier =>
          refine .inr ⟨_, rfl, fun hall => ?_⟩
          exact not_length_le_one h.command hquery rfl hall.one_query
      | none =>
          refine .inl ⟨_, rfl, h.concat rfl ?_ ?_ ?_ (.inr rfl) ?_ ?_ ?_⟩
          all_goals simp [hquery, hpath]

/-- One file more is taken, or is in conflict with a query or a file. -/
theorem withFile {path : String} (hpositional : IsPositional path) :
    Decides (groups ++ [.file path hpositional]) (i.withFile path) := by
  unfold Invocation.withFile
  cases hquery : i.command with
  | some query =>
      refine .inr ⟨_, rfl, fun hall => ?_⟩
      have heither := hall.query_or_file
      rw [List.filterMap_append, List.filterMap_append, ← h.command, hquery] at heither
      simp at heither
  | none =>
      cases hpath : i.queryPath with
      | some earlier =>
          refine .inr ⟨_, rfl, fun hall => ?_⟩
          exact not_length_le_one h.file hpath rfl hall.one_file
      | none =>
          refine .inl ⟨_, rfl, h.concat rfl ?_ ?_ ?_ (.inl rfl) ?_ ?_ ?_⟩
          all_goals simp [hquery, hpath]

/-- One configuration more is taken, or is in conflict with the one before. -/
theorem withConfig (glued : Bool) (path : String) :
    Decides (groups ++ [.config glued path]) (i.withConfig path) := by
  unfold Invocation.withConfig
  cases hconfig : i.configPath with
  | some earlier =>
      refine .inr ⟨_, rfl, fun hall => ?_⟩
      exact not_length_le_one h.config hconfig rfl hall.one_config
  | none =>
      refine .inl ⟨_, rfl, h.concat rfl ?_ ?_ ?_ h.query_or_file ?_ ?_ ?_⟩
      all_goals simp [hconfig]

/-- One more group is told of too, or it is in conflict with those before. -/
theorem onto (g : Group) : Decides (groups ++ [g]) (g.onto i) := by
  cases g with
  | help short =>
      refine .inl ⟨_, rfl, h.concat rfl ?_ ?_ ?_ h.query_or_file ?_ ?_ ?_⟩
      all_goals simp
  | dev =>
      refine .inl ⟨_, rfl, h.concat rfl ?_ ?_ ?_ h.query_or_file ?_ ?_ ?_⟩
      all_goals simp
  | format json => exact h.withFormat json
  | command short glued query => exact h.withCommand short glued query
  | config glued path => exact h.withConfig glued path
  | file path hpositional => exact h.withFile hpositional
  | unknown option hunknown =>
      refine .inr ⟨_, rfl, fun hall => ?_⟩
      cases hall.known (.unknown option hunknown) (by simp)

end Tells

/-- Groups are read to an invocation that tells of them, or they are in conflict. The induction is
on the groups that are still to be read. -/
theorem read_cases (groups : List Group) {before : List Group} (h : Tells before i) :
    Decides (before ++ groups) (i.read (wordsOf groups)) := by
  induction groups generalizing before i with
  | nil =>
      rw [List.append_nil]
      exact .inl ⟨i, read.eq_def _ _, h⟩
  | cons g groups ih =>
      have hread : i.read (wordsOf (g :: groups)) = (g.onto i).bind (·.read (wordsOf groups)) :=
        read_words i g (wordsOf groups)
      rw [hread]
      rcases h.onto g with ⟨next, hnext, htells⟩ | ⟨misuse, hmisuse, hconflict⟩
      · rw [hnext, ← List.singleton_append, ← List.append_assoc]
        exact ih htells
      · refine .inr ⟨misuse, by rw [hmisuse]; rfl, fun hall => hconflict ?_⟩
        rw [← List.singleton_append, ← List.append_assoc] at hall
        exact hall.of_append

/-! ### Any order -/

/-- Conflicts do not depend on the order of the groups. -/
theorem Compatible.perm (h : Compatible groups) (hperm : groups.Perm groups') :
    Compatible groups' where
  known g hg := h.known g (hperm.mem_iff.mpr hg)
  one_query := (hperm.filterMap _).length_eq ▸ h.one_query
  one_config := (hperm.filterMap _).length_eq ▸ h.one_config
  one_file := (hperm.filterMap _).length_eq ▸ h.one_file
  query_or_file := h.query_or_file.imp
    (fun hnil => List.perm_nil.mp ((hperm.filterMap _).symm.trans (.of_eq hnil)))
    (fun hnil => List.perm_nil.mp ((hperm.filterMap _).symm.trans (.of_eq hnil)))
  one_format hboth := h.one_format
    (hboth.imp (hperm.filterMap _).mem_iff.mpr (hperm.filterMap _).mem_iff.mpr)

/-- What there is one of at most has no order. -/
theorem optionToList_perm {α : Type} {o : Option α} {values : List α}
    (h : o.toList.Perm values) : o.toList = values := by
  cases o with
  | none => exact (List.nil_perm.mp h).symm
  | some a => exact (List.perm_singleton.mp h.symm).symm

/-- A value is told by the list of it. -/
theorem optionToList_inj {α : Type} {o o' : Option α} (h : o.toList = o'.toList) : o = o' := by
  cases o <;> cases o' <;> simp_all

/-- An invocation that tells of groups tells of them in any order. -/
theorem Tells.perm (h : Tells groups i) (hperm : groups.Perm groups') : Tells groups' i where
  known g hg := h.known g (hperm.mem_iff.mpr hg)
  command := optionToList_perm (h.command ▸ hperm.filterMap _)
  config := optionToList_perm (h.config ▸ hperm.filterMap _)
  file := optionToList_perm (h.file ▸ hperm.filterMap _)
  query_or_file := h.query_or_file
  format f := (h.format f).trans (hperm.filterMap _).mem_iff
  dev := h.dev.trans (Bool.eq_iff_iff.mpr (by simp [hperm.mem_iff]))
  help := h.help.trans (Bool.eq_iff_iff.mpr (by simp [hperm.mem_iff]))

/-- There is one invocation that tells of the groups. -/
theorem Tells.eq (h : Tells groups i) (h' : Tells groups i') : i = i' := by
  obtain ⟨path, command, config, dev, format, help⟩ := i
  obtain ⟨path', command', config', dev', format', help'⟩ := i'
  have hformat : format = format' := Option.ext fun f => (h.format f).trans (h'.format f).symm
  obtain rfl : command = command' := optionToList_inj (h.command.trans h'.command.symm)
  obtain rfl : config = config' := optionToList_inj (h.config.trans h'.config.symm)
  obtain rfl : path = path' := optionToList_inj (h.file.trans h'.file.symm)
  obtain rfl : dev = dev' := h.dev.trans h'.dev.symm
  obtain rfl : help = help' := h.help.trans h'.help.symm
  rw [hformat]

/-- Groups in any order are read to the same invocation, or are refused in any order; and they are
read just if no two are in conflict and all are known. -/
theorem ofArguments_perm (hperm : groups.Perm groups') :
    ((∃ i, ofArguments (wordsOf groups) = .ok i ∧ ofArguments (wordsOf groups') = .ok i) ∨
      (∃ misuse, ofArguments (wordsOf groups) = .error misuse) ∧
        ∃ misuse, ofArguments (wordsOf groups') = .error misuse) ∧
    ((∃ i, ofArguments (wordsOf groups) = .ok i) ↔ Compatible groups) := by
  have hread : Decides groups (ofArguments (wordsOf groups)) := read_cases groups tells_empty
  have hread' : Decides groups' (ofArguments (wordsOf groups')) := read_cases groups' tells_empty
  rcases hread with ⟨i, hi, htells⟩ | ⟨misuse, hmisuse, hconflict⟩
  · -- What tells of the groups in one order tells of them in the other.
    refine ⟨.inl ⟨i, hi, ?_⟩, fun _ => htells.compatible, fun _ => ⟨i, hi⟩⟩
    rcases hread' with ⟨i', hi', htells'⟩ | ⟨_, _, hconflict'⟩
    · rw [hi', (htells.perm hperm).eq htells']
    · exact absurd (htells.compatible.perm hperm) hconflict'
  · refine ⟨.inr ⟨⟨misuse, hmisuse⟩, ?_⟩, ?_, fun hall => absurd hall hconflict⟩
    · rcases hread' with ⟨i', hi', htells'⟩ | ⟨misuse', hmisuse', _⟩
      · exact absurd (htells'.compatible.perm hperm.symm) hconflict
      · exact ⟨misuse', hmisuse'⟩
    · rintro ⟨i, hi⟩
      rw [hmisuse] at hi
      cases hi

/-- A query that looks like an option, in front of an option and behind it. -/
theorem ofArguments_perm_dashed :
    ∃ i, ofArguments ["-c", "--json", "--dev"] = .ok i ∧
      ofArguments ["--dev", "-c", "--json"] = .ok i := by
  obtain ⟨hsame, hread⟩ := ofArguments_perm (.swap .dev (.command true false "--json") [])
  have hcompatible : Compatible [.command true false "--json", .dev] :=
    ⟨by simp, by decide, by decide, by decide, .inr rfl, fun h => nomatch h.1⟩
  rcases hsame with hsame | ⟨⟨misuse, hmisuse⟩, -⟩
  · exact hsame
  · obtain ⟨i, hi⟩ := hread.mpr hcompatible
    cases hmisuse.symm.trans hi

/-! ### All arguments -/

end PipeQuery.Invocation
