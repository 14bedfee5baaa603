import LineProtocol.Project.Task
/-!
# Commands read back

A shell reads a logged command as the words that the child got, behind an assignment for each
variable that was added.  Each word is written in a form that a reader in a word reads as
exactly this word, whatever it holds, and separators stand between the words only.
-/

namespace LineProtocol

namespace Shell

/-- Texts that a shell reads as they stand, as a word or as a part of one. -/
def Verbatim (t : Text) : Prop :=
  ∀ c ∈ t, isSeparator c = false ∧ c ≠ apostrophe ∧ c ≠ doubleQuote ∧ c ≠ backslash

instance (t : Text) : Decidable (Verbatim t) :=
  inferInstanceAs (Decidable (∀ c ∈ t, _ ∧ _ ∧ _ ∧ _))

/-- The word that an assignment is to a shell. -/
def Assignment.word (a : Assignment) : Text := a.name ++ Text.ofString "=" ++ a.value

theorem verbatim_of_all_isPlain {t : Text} (h : t.all isPlain = true) : Verbatim t := by
  intro c hc
  have hplain := List.all_eq_true.1 h c hc
  have hseparators : ∀ c ∈ Text.ofString " \t\r\n", isPlain c = false := by decide
  refine ⟨Bool.eq_false_iff.2 fun hseparator => ?_, ?_, ?_, ?_⟩
  · rw [hseparators c (List.contains_iff_mem.1 hseparator)] at hplain
    contradiction
  -- no mark is plain
  all_goals
    rintro rfl
    revert hplain
    decide

/-! ## Reading on in a word -/

namespace Reader

theorem read?_bare_cons {c : CodePoint} (h : isSeparator c = false) (word t : Text) :
    read? (.bare word) (c :: t) = read? (.outside word c) t := by
  rw [read?, h, if_neg Bool.false_ne_true]

theorem read?_between_cons {c : CodePoint} (h : isSeparator c = false) (t : Text) :
    read? .between (c :: t) = read? (.bare []) (c :: t) := by
  rw [read?_bare_cons h, read?, h, if_neg Bool.false_ne_true]

theorem read?_bare_append {t : Text} (h : Verbatim t) (word rest : Text) :
    read? (.bare word) (t ++ rest) = read? (.bare (word ++ t)) rest := by
  induction t generalizing word with
  | nil => rw [List.nil_append, List.append_nil]
  | cons c t ih =>
      obtain ⟨⟨hseparator, hapostrophe, hquote, hbackslash⟩, ht⟩ := List.forall_mem_cons.1 h
      have houtside : Reader.outside word c = .bare (word ++ [c]) := by
        rw [outside, if_neg hapostrophe, if_neg hquote, if_neg hbackslash]
      rw [List.cons_append, read?_bare_cons hseparator, houtside, ih ht, List.append_assoc]
      rfl

/-- Between apostrophes everything stands for itself, and an apostrophe is read from the stretch
between double quotes that is put in its place. -/
theorem read?_single_append (t word rest : Text) :
    read? (.single word) (t.flatMap quoteWithin ++ apostrophe :: rest) =
      read? (.bare (word ++ t)) rest := by
  induction t generalizing word with
  | nil =>
      rw [List.flatMap_nil, List.nil_append, List.append_nil, read?, if_pos rfl]
  | cons c t ih =>
      rw [List.flatMap_cons, List.append_assoc]
      by_cases hc : c = apostrophe
      · subst hc
        have hstretch : ∀ u, read? (.single word) (quoteWithin apostrophe ++ u) =
            read? (.single (word ++ [apostrophe])) u := fun u => rfl
        rw [hstretch, ih, List.append_assoc]
        rfl
      · rw [quoteWithin, if_neg hc, List.singleton_append, read?, if_neg hc, ih, List.append_assoc]
        rfl

end Reader

/-! ## Forms of words -/

/-- A form of a word: a reader in a word reads it as this much more of the word, and a reader
between words takes it for the beginning of one. -/
structure Spells (form word : Text) : Prop where
  reads : ∀ before rest,
    Reader.read? (.bare before) (form ++ rest) = Reader.read? (.bare (before ++ word)) rest
  begins : ∃ c t, form = c :: t ∧ isSeparator c = false

namespace Spells

variable {form word : Text}

theorem read?_between (h : Spells form word) (rest : Text) :
    Reader.read? .between (form ++ rest) = Reader.read? (.bare word) rest := by
  obtain ⟨c, t, rfl, hc⟩ := h.begins
  rw [List.cons_append, Reader.read?_between_cons hc, ← List.cons_append, h.reads, List.nil_append]

/-- The word is complete at the blank behind it. -/
theorem read?_blank (h : Spells form word) (rest : Text) :
    Reader.read? .between (form ++ (Text.ofString " " ++ rest)) =
      (Reader.read? .between rest).map (word :: ·) := by
  rw [h.read?_between]
  rfl

/-- A word may go on in another form behind a text that stands for itself. -/
theorem verbatim_append {t : Text} (ht : Verbatim t) (hne : t ≠ []) (h : Spells form word) :
    Spells (t ++ form) (t ++ word) where
  reads := fun before rest => by
    rw [List.append_assoc, Reader.read?_bare_append ht, h.reads, List.append_assoc]
  begins := by
    obtain ⟨c, u, rfl⟩ := List.exists_cons_of_ne_nil hne
    exact ⟨c, u ++ form, rfl, (ht c List.mem_cons_self).1⟩

end Spells

theorem spells_of_verbatim {t : Text} (ht : Verbatim t) (hne : t ≠ []) : Spells t t where
  reads := Reader.read?_bare_append ht
  begins := by
    obtain ⟨c, u, rfl⟩ := List.exists_cons_of_ne_nil hne
    exact ⟨c, u, rfl, (ht c List.mem_cons_self).1⟩

/-- A quoted word is read as this word. -/
theorem spells_quote (word : Text) : Spells (quote word) word := by
  unfold quote
  split
  · next hplain =>
    obtain ⟨hne, hall⟩ := Bool.and_eq_true_iff.1 hplain
    exact spells_of_verbatim (verbatim_of_all_isPlain hall) (by simpa using hne)
  · refine ⟨fun before rest => ?_, apostrophe, _, rfl, by decide⟩
    rw [List.cons_append, List.append_assoc, List.singleton_append,
      Reader.read?_bare_cons (by decide)]
    exact Reader.read?_single_append word before rest

theorem spells_assignment {a : Assignment} (h : Verbatim a.name) : Spells a.text a.word := by
  refine (spells_quote a.value).verbatim_append (t := a.name ++ Text.ofString "=") ?_ ?_
  · exact List.forall_mem_append.2 ⟨h, by decide⟩
  · exact List.append_ne_nil_of_right_ne_nil _ (by decide)

/-! ## Lines -/

/-- The words of a line are read back one by one. -/
theorem split?_line (words : List Text) : split? (line words) = some words := by
  unfold split? line
  induction words with
  | nil => rfl
  | cons word words ih =>
      cases words with
      | nil =>
          have hread := (spells_quote word).read?_between []
          rw [List.append_nil] at hread
          rw [List.map_singleton, Text.join, List.intercalate_singleton]
          exact hread
      | cons next words =>
          rw [List.map_cons, List.map_cons, Text.join, List.intercalate_cons_cons,
            List.append_assoc, (spells_quote word).read?_blank, ← List.map_cons]
          exact congrArg _ ih

end Shell

theorem Command.split?_text {c : Command} (h : ∀ a ∈ c.assignments, Shell.Verbatim a.name) :
    Shell.split? c.text = some (c.assignments.map Shell.Assignment.word ++ c.words) := by
  unfold Command.text
  generalize c.assignments = assignments at h ⊢
  induction assignments with
  | nil => exact Shell.split?_line c.words
  | cons a assignments ih =>
      obtain ⟨ha, hlater⟩ := List.forall_mem_cons.1 h
      rw [List.flatMap_cons, List.append_assoc, List.append_assoc, Shell.split?,
        (Shell.spells_assignment ha).read?_blank]
      exact congrArg _ (ih hlater)

/-! ## Logs -/

/-- A script that ran one child and logged it: a shell reads the logged line as the assignments of
the variables that the child got, in their order, and then the words that it got. -/
structure Report.Announces (r : Report) (c : Command) : Prop where
  children : r.children = [c]
  log : ∃ line, r.log = "[CMD] " ++ line ++ "\n" ∧
    Shell.split? line = some (c.assignments.map Shell.Assignment.word ++ c.words)

namespace Project

open Shell (verbatim_of_all_isPlain)

theorem execute_announces {c : Command} (h : ∀ a ∈ c.assignments, Shell.Verbatim a.name)
    (p : Project) : (p.execute c).Announces c := by
  have hran : (p.execute c).children = [c] ∧ (p.execute c).log = "[CMD] " ++ c.text ++ "\n" := by
    unfold execute runs
    by_cases hcode : p.nextCode.1 = 0
    · simp [Report.andThen, logs, done, ends, hcode]
    · simp [Report.andThen, logs, done, ends, hcode]
  exact ⟨hran.1, c.text, hran.2, Command.split?_text h⟩

/-- Whatever words are given to be run, alone or behind the name of an example, a shell reads the
logged command as the variables that are added and the words that the child gets.  An example gets
the interpreter, its own path and the further words, and it finds its modules in the project.  What
is logged is read so for every command with further variables, as long as their names mean nothing
else to a shell. -/
theorem logged_command_faithful (p : Project) :
    (∀ c : Command, (∀ a ∈ c.assignments, Shell.Verbatim a.name) → (p.execute c).Announces c) ∧
      (∀ words, (p.commandLine (Text.ofString "_run" :: words)).Announces
        ⟨words, some p.root, []⟩) ∧
      (∀ name args, (p.commandLine (Text.ofString "example" :: name :: args)).Announces
        ⟨p.interpreter :: ((p.place ["examples"]).join (.ofText (name ++ ".py"))).text :: args,
          some p.root, [⟨"PYTHONPATH", p.root.text⟩]⟩) ∧
      (p.commandLine [Text.ofString "example"]).Announces
        ⟨[p.interpreter, (p.place ["examples", "line_sender_example.py"]).text],
          some p.root, [⟨"PYTHONPATH", p.root.text⟩]⟩ := by
  have hexample : ∀ name args, (p.execute (p.exampleCommand name args)).Announces
      (p.exampleCommand name args) := by
    intro name args
    refine execute_announces (List.forall_mem_singleton.2 ?_) p
    exact verbatim_of_all_isPlain (t := Text.ofString "PYTHONPATH") (by decide)
  have husual : p.exampleCommand usualExample [] =
      ⟨[p.interpreter, (p.place ["examples", "line_sender_example.py"]).text],
        some p.root, [⟨"PYTHONPATH", p.root.text⟩]⟩ := by
    have hread : Path.ofText (usualExample ++ Text.ofString ".py") =
        ⟨.here, [Text.ofString "line_sender_example.py"]⟩ := by decide
    simp only [exampleCommand, hread, place, Path.join, List.map_cons, List.map_nil,
      List.append_assoc, List.singleton_append]
  exact ⟨fun c hc => execute_announces hc p,
    fun words => execute_announces (c := ⟨words, some p.root, []⟩) (List.forall_mem_nil _) p,
    hexample, husual ▸ hexample usualExample []⟩

/-- Words with marks of both kinds, with blanks and with nothing in them. -/
theorem logged_command_faithful_quoted :
    let p : Project := ⟨[Text.ofString "R"], .empty, Text.ofString "/py", .empty, [3]⟩
    let c : Command := {
      words := ["a'b", "", " \n", "\"\\", "é"].map Text.ofString
      directory := some p.root
      assignments := [⟨"V", "x 'y"⟩] }
    c.text = Text.ofString "V='x '\"'\"'y' 'a'\"'\"'b' '' ' \n' '\"\\' 'é'" ∧
      (p.execute c).Announces c := by
  intro p c
  refine ⟨by decide +kernel, p.logged_command_faithful.1 c (List.forall_mem_singleton.2 ?_)⟩
  exact verbatim_of_all_isPlain (by decide)

end Project

end LineProtocol
