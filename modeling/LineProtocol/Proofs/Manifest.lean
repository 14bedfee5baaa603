import LineProtocol.Project.Manifest
import LineProtocol.Proofs.Encoding
import LineProtocol.Proofs.Resolution
/-!
# The check of the manifest

The check passes if every entry tells the path of a plain file.  It ends at the first entry
that does not: as a rule it reports the path as missing, but a path that cannot be looked up,
since it is too long or has a name that is, ends it with a fault.
-/

namespace LineProtocol

/-- Texts without the character that ends a name. -/
def Text.NulFree (t : Text) : Prop := ∀ c ∈ t, c.val ≠ 0

instance (t : Text) : Decidable t.NulFree :=
  inferInstanceAs (Decidable (∀ c ∈ t, c.val ≠ 0))

instance (t : Text) : Decidable t.Encodable :=
  inferInstanceAs (Decidable (∀ c ∈ t, ¬c.IsSurrogate))

/-! ## Names in a directory -/

namespace Directory

/-- The names of what stands in the directory, however deep. -/
def allNames : Directory → List Text
  | empty => []
  | file n rest => n :: rest.allNames
  | folder n content rest => n :: (content.allNames ++ rest.allNames)

variable {w d : Directory} {here names place : List Text} {name n : Text} {kind : Entry.Kind}

theorem mem_allNames_of_mem_names (h : n ∈ d.names) : n ∈ d.allNames := by
  induction d with
  | empty => exact h
  | file m rest ih =>
      rcases List.mem_cons.1 h with rfl | h
      · exact List.mem_cons_self
      · exact List.mem_cons_of_mem m (ih h)
  | folder m content rest _ ih =>
      rcases List.mem_cons.1 h with rfl | h
      · exact List.mem_cons_self
      · exact List.mem_cons_of_mem m (List.mem_append_right _ (ih h))

theorem allNames_subset_of_find? {content : Directory} (h : d.find? n = some (.folder content)) :
    content.allNames ⊆ d.allNames := by
  induction d with
  | empty => cases h
  | file m rest ih =>
      rw [find?] at h
      split at h
      · cases h
      · exact List.subset_cons_of_subset m (ih h)
  | folder m inner rest _ ih =>
      rw [find?] at h
      split at h
      · cases h
        exact List.subset_cons_of_subset m (List.subset_append_left _ _)
      · exact List.subset_cons_of_subset m (List.subset_append_of_subset_right _ (ih h))

theorem Stands.mem_allNames : ∀ {d : Directory} {place : List Text}, d.Stands place kind →
    ∀ n ∈ place, n ∈ d.allNames
  | _, [], _, _, hn => nomatch hn
  | _, _ :: _, h, n, hn => by
    rcases List.mem_cons.1 hn with rfl | hn
    · exact mem_allNames_of_mem_names h.mem_names
    · rcases stands_cons.1 h with ⟨-, rfl, -⟩ | ⟨content, hfind, hcontent⟩
      · cases hn
      · exact allNames_subset_of_find? hfind (hcontent.mem_allNames n hn)

/-- Names that lead anywhere are names of what stands there, or of parents. -/
theorem Leads.mem_allNames (h : w.Leads here names place) :
    ∀ n ∈ names, n = Path.parent ∨ n ∈ w.allNames := by
  induction h with
  | arrived => exact nofun
  | parent _ ih => exact List.forall_mem_cons.2 ⟨.inl rfl, ih⟩
  | enter _ hfolder _ ih =>
      exact List.forall_mem_cons.2 ⟨.inr (hfolder.mem_allNames _ (by simp)), ih⟩
  | file _ hfile =>
      exact List.forall_mem_cons.2 ⟨.inr (hfile.mem_allNames _ (by simp)), nofun⟩

end Directory

/-! ## The text of a path -/

namespace Path

variable {P : CodePoint → Prop}

theorem forall_mem_join (hseparator : P separator) {parts : List Text}
    (h : ∀ part ∈ parts, ∀ c ∈ part, P c) : ∀ c ∈ Text.join [separator] parts, P c := by
  induction parts with
  | nil => exact nofun
  | cons part parts ih =>
      obtain ⟨hpart, hparts⟩ := List.forall_mem_cons.1 h
      cases parts with
      | nil => simpa [Text.join] using hpart
      | cons next parts =>
          rw [Text.join, List.intercalate_cons_cons]
          exact List.forall_mem_append.2
            ⟨List.forall_mem_append.2 ⟨hpart, List.forall_mem_singleton.2 hseparator⟩, ih hparts⟩

/-- What holds of separators and of the characters in the names holds in the whole text. -/
theorem forall_mem_text {p : Path} (hstart : p.start ≠ .here) (hseparator : P separator)
    (h : ∀ name ∈ p.names, ∀ c ∈ name, P c) : ∀ c ∈ p.text, P c := by
  have hjoin := forall_mem_join hseparator h
  unfold text
  split
  · next hhere _ => exact absurd hhere hstart
  · next hhere _ => exact absurd hhere hstart
  · exact List.forall_mem_cons.2 ⟨hseparator, hjoin⟩
  · exact List.forall_mem_cons.2 ⟨hseparator, List.forall_mem_cons.2 ⟨hseparator, hjoin⟩⟩

theorem isNameable_iff {p : Path} : p.isNameable = true ↔ p.text.NulFree ∧ p.text.Encodable := by
  simp only [isNameable, Text.NulFree, Text.Encodable, ← forall_and]
  simp

/-- A text starts where it is joined to unless a separator is in front. -/
theorem readStart_eq_here (t : Text) : readStart t = .here ↔ t.head? ≠ some separator := by
  rw [readStart]
  cases t with
  | nil => exact iff_of_true rfl nofun
  | cons c t =>
      by_cases hc : c = separator
      · refine iff_of_false ?_ (by simp [hc])
        rw [List.takeWhile_cons_of_pos (by simpa using hc), List.length_cons]
        split <;> simp_all
      · refine iff_of_true ?_ (by simpa using hc)
        rw [List.takeWhile_cons_of_neg (by simpa using hc)]
        rfl

end Path

/-! ## Paths in a project -/

namespace Project

variable {p : Project} {t : Text} {names : List Text}

/-- The project stands at its location. -/
theorem at?_world (p : Project) : p.world.top.at? p.location = some (.folder p.tree.top) :=
  Directory.at?_put

/-- Any file system in which the project stands at its location may be around it. -/
theorem world_eq_surroundings
    (h : p.surroundings.top.at? p.location = some (.folder p.tree.top)) :
    p.world = p.surroundings :=
  Tree.ext (Directory.put_eq_self h)

/-- The names that lead to what a text tells, from the root of the file system: if it does not
start there, it starts from the project. -/
inductive Joins (p : Project) (t : Text) : List Text → Prop
  | absolute {names : List Text} (h : t.head? = some Path.separator) (hreads : Path.Reads t names) :
      Joins p t names
  | relative {names : List Text} (h : t.head? ≠ some Path.separator) (hreads : Path.Reads t names) :
      Joins p t (p.location ++ names)

/-- The text tells the path of a plain file. -/
def NamesFile (p : Project) (t : Text) : Prop :=
  ∃ names place, p.Joins t names ∧ p.world.top.Leads [] names place ∧ p.world.top.Stands place .file

/-- The text as a path of the file system. -/
def path (p : Project) (t : Text) : Path := p.root.join (.ofText t)

/-- The text tells a path that cannot be looked up, since it is too long or goes by a name that is
too long. -/
def Overlong (p : Project) (t : Text) : Prop :=
  (p.path t).text.NulFree ∧
    (Path.maxSize < (p.path t).text.utf8.length ∨ p.world.top.Overlong [] (p.path t).names)

/-- What ends a check that looks up such a path. -/
def tooLong (p : Project) (t : Text) : Fault where
  kind := .system
  text := "[Errno 36] File name too long: " ++ (p.path t).text.quoted

theorem path_names (p : Project) (t : Text) : (p.path t).names =
    if t.head? = some Path.separator then Path.readNames t
    else p.location ++ Path.readNames t := by
  rw [path, Path.join, Path.ofText]
  by_cases hhead : t.head? = some Path.separator
  · rw [if_pos hhead]
    split
    · next hhere => exact absurd hhead ((Path.readStart_eq_here t).1 hhere)
    · rfl
  · rw [if_neg hhead, (Path.readStart_eq_here t).2 hhead]
    rfl

theorem joins_iff : p.Joins t names ↔ names = (p.path t).names := by
  rw [path_names]
  constructor
  · rintro (⟨hhead, hreads⟩ | ⟨hhead, hreads⟩)
    · rw [if_pos hhead]
      exact Path.reads_iff.1 hreads
    · rw [if_neg hhead, Path.reads_iff.1 hreads]
  · rintro rfl
    split
    · next hhead => exact .absolute hhead (Path.reads_readNames t)
    · next hhead => exact .relative hhead (Path.reads_readNames t)

theorem namesFile_iff : p.NamesFile t ↔
    ∃ place, p.world.top.Leads [] (p.path t).names place ∧ p.world.top.Stands place .file := by
  simp only [NamesFile, joins_iff]
  constructor
  · rintro ⟨_, place, rfl, h⟩
    exact ⟨place, h⟩
  · rintro ⟨place, h⟩
    exact ⟨_, place, rfl, h⟩

theorem start_path (p : Project) (t : Text) : (p.path t).start ≠ .here := by
  rw [path, Path.join]
  split
  · exact nofun
  · next hroot => exact hroot

section

variable (hnames : ∀ name ∈ p.world.top.allNames, name.NulFree)
  (hlocation : ∀ name ∈ p.location, name.Encodable) (ht : t.Encodable)

include hnames in
theorem nulFree_of_leads {place : List Text} (h : p.world.top.Leads [] (p.path t).names place) :
    (p.path t).text.NulFree := by
  refine Path.forall_mem_text (p.start_path t) (by decide) fun name hname => ?_
  rcases h.mem_allNames name hname with rfl | hmem
  · decide
  · exact hnames name hmem

include hlocation ht

theorem encodable_path : (p.path t).text.Encodable := by
  refine Path.forall_mem_text (p.start_path t) (by decide) fun name hname c hc => ?_
  have hread : name ∈ Path.readNames t → ¬c.IsSurrogate := fun hmem =>
    ht c ((Path.reads_readNames t).mem_text hmem hc)
  rw [path_names] at hname
  split at hname
  · exact hread hname
  · exact (List.mem_append.1 hname).elim (fun hmem => hlocation name hmem c hc) hread

theorem hasFile_of_overlong (h : p.Overlong t) :
    p.hasFile (.ofText t) = .error (p.tooLong t) := by
  obtain ⟨hnul, hlong⟩ := h
  have hresolve : p.resolve (p.path t) = .error .nameTooLong := by
    rw [resolve, Path.isNameable_iff.2 ⟨hnul, encodable_path hlocation ht⟩]
    by_cases hsize : Path.maxSize < (p.path t).text.utf8.length
    · simp [hsize]
    · simpa [hsize] using Directory.Ascends.top.resolve_overlong.2 (hlong.resolve_left hsize)
  rw [hasFile, ← path, hresolve]
  rfl

/-- A path that can be looked up is found if it is that of a plain file. -/
theorem hasFile_of_not_overlong (hnames : ∀ name ∈ p.world.top.allNames, name.NulFree)
    (h : ¬p.Overlong t) : ∃ b, p.hasFile (.ofText t) = .ok b ∧ (b = true ↔ p.NamesFile t) := by
  rw [hasFile, ← path, namesFile_iff]
  by_cases hnul : (p.path t).text.NulFree
  · have hsize : ¬Path.maxSize < (p.path t).text.utf8.length := fun hsize => h ⟨hnul, .inl hsize⟩
    have hshort : ¬p.world.top.Overlong [] (p.path t).names := fun hover => h ⟨hnul, .inr hover⟩
    have hresolve : p.resolve (p.path t) = p.world.top.resolve [] (p.path t).names := by
      rw [resolve, Path.isNameable_iff.2 ⟨hnul, encodable_path hlocation ht⟩]
      simp [hsize]
    rw [hresolve, ← Directory.Ascends.top.resolve_file hshort]
    rcases hreached : p.world.top.resolve [] (p.path t).names with (_ | _) | entry
    · exact ⟨false, rfl, by simp⟩
    · exact absurd (Directory.Ascends.top.resolve_overlong.1 hreached) hshort
    · exact ⟨_, rfl, by simp⟩
  · have hresolve : p.resolve (p.path t) = .error .missing := by
      rw [resolve, if_pos]
      rw [Bool.not_eq_true', Bool.eq_false_iff, ne_eq, Path.isNameable_iff]
      exact fun hnameable => hnul hnameable.1
    rw [hresolve]
    exact ⟨false, rfl, iff_of_false nofun fun ⟨place, hleads, _⟩ =>
      hnul (nulFree_of_leads hnames hleads)⟩

end

end Project

/-! ## The entries of a manifest -/

/-- Either all members of a list have a property, or one is the first that does not. -/
theorem forall_or_exists_first {α : Type} (P : α → Prop) (l : List α) :
    (∀ x ∈ l, P x) ∨
      ∃ before x after, l = before ++ x :: after ∧ (∀ y ∈ before, P y) ∧ ¬P x := by
  induction l with
  | nil => exact .inl nofun
  | cons x l ih =>
      by_cases hx : P x
      · rcases ih with hall | ⟨before, y, after, rfl, hbefore, hy⟩
        · exact .inl (List.forall_mem_cons.2 ⟨hx, hall⟩)
        · exact .inr ⟨x :: before, y, after, rfl, List.forall_mem_cons.2 ⟨hx, hbefore⟩, hy⟩
      · exact .inr ⟨[], x, l, rfl, nofun, hx⟩

/-- The entry is a mapping that tells this path, which has an encoding. -/
def Document.Tells (entry : Document) (t : Text) : Prop :=
  t.Encodable ∧
    ∃ fields, entry = .mapping fields ∧ fields.lookup (Text.ofString "path") = some (.text t)

theorem Document.examplePath_of_tells {entry : Document} {t : Text} (h : entry.Tells t) :
    entry.examplePath = .ok t := by
  obtain ⟨-, fields, rfl, hlookup⟩ := h
  simp only [examplePath, lookup, hlookup]
  rfl

namespace Project

variable {p : Project} {entry : Document} {t : Text} {entries checked : List Document}

/-- The entry tells the path of a plain file, and that can be looked up. -/
def Passes (p : Project) (entry : Document) : Prop :=
  ∃ t, entry.Tells t ∧ p.NamesFile t ∧ ¬p.Overlong t

theorem missing?_cons (h : entry.Tells t) (later : List Document) :
    p.missing? (entry :: later) =
      p.hasFile (.ofText t) >>= fun found =>
        if found then p.missing? later else .ok (some t) := by
  rw [missing?, Document.examplePath_of_tells h]
  rfl

section

variable (hnames : ∀ name ∈ p.world.top.allNames, name.NulFree)
  (hlocation : ∀ name ∈ p.location, name.Encodable)
include hnames hlocation

theorem passes_iff (h : entry.Tells t) : p.Passes entry ↔ p.hasFile (.ofText t) = .ok true := by
  constructor
  · rintro ⟨s, hs, hfile, hshort⟩
    have heq : s = t := Except.ok.inj <|
      (Document.examplePath_of_tells hs).symm.trans (Document.examplePath_of_tells h)
    obtain ⟨b, hfound, hb⟩ := hasFile_of_not_overlong hlocation hs.1 hnames hshort
    rw [← heq, hfound, hb.2 hfile]
  · intro hfound
    have hshort : ¬p.Overlong t := fun hover => by
      rw [hasFile_of_overlong hlocation h.1 hover] at hfound
      cases hfound
    obtain ⟨b, heq, hb⟩ := hasFile_of_not_overlong hlocation h.1 hnames hshort
    rw [hfound] at heq
    exact ⟨t, h, hb.1 (Except.ok.inj heq).symm, hshort⟩

/-- Entries that pass are gone through. -/
theorem missing?_append (hchecked : ∀ entry ∈ checked, p.Passes entry) (later : List Document) :
    p.missing? (checked ++ later) = p.missing? later := by
  induction checked with
  | nil => rfl
  | cons entry checked ih =>
      obtain ⟨hentry, hrest⟩ := List.forall_mem_cons.1 hchecked
      obtain ⟨t, htells, -⟩ := id hentry
      rw [List.cons_append, missing?_cons htells, (passes_iff hnames hlocation htells).1 hentry]
      exact ih hrest

/-- The search ends at the first entry that does not pass. -/
theorem missing?_of_not_passes (hchecked : ∀ entry ∈ checked, p.Passes entry)
    (htells : entry.Tells t) (hentry : ¬p.Passes entry) (later : List Document) :
    (p.Overlong t → p.missing? (checked ++ entry :: later) = .error (p.tooLong t)) ∧
      (¬p.Overlong t → p.missing? (checked ++ entry :: later) = .ok (some t)) := by
  rw [missing?_append hnames hlocation hchecked, missing?_cons htells]
  constructor
  · intro hover
    rw [hasFile_of_overlong hlocation htells.1 hover]
    rfl
  · intro hshort
    obtain ⟨b, hfound, hb⟩ := hasFile_of_not_overlong hlocation htells.1 hnames hshort
    have hfalse : b = false :=
      Bool.eq_false_iff.2 fun htrue => hentry ⟨t, htells, hb.1 htrue, hshort⟩
    rw [hfound, hfalse]
    rfl

end

/-! ## The check -/

/-- What the check writes first. -/
def loading : Text := Text.ofString "loading examples.manifest.yaml  "

/-- How a check ends once the entries have been gone through. -/
def concludes (p : Project) : Except Fault (Option Text) → Report
  | .error fault => ⟨p, .failed fault, [], loading, []⟩
  | .ok (some t) => ⟨p, .exited 1, [], loading ++ ("  ..missing " ++ t ++ "\n"), []⟩
  | .ok none => ⟨p, .finished, [], loading ++ "  ..ok\n", []⟩

theorem checkManifest_eq (h : p.tree.top.find? manifestName = some .file)
    (entries : List Document) :
    p.checkManifest (.list entries) = p.concludes (p.missing? entries) := by
  have hloading : "loading " ++ manifestName ++ "  " = loading := by decide +kernel
  have hopened : p.manifestFault? = none := by rw [manifestFault?, h]
  have hmembers : (Document.list entries).members >>= p.missing? = p.missing? entries := rfl
  simp only [checkManifest, hloading, prints, done, ends, Report.andThen, hopened, judgeManifest,
    hmembers]
  rcases p.missing? entries with fault | _ | t <;> simp [concludes, fails, ends]

section

variable (hmanifest : p.tree.top.find? manifestName = some .file)
  (hnames : ∀ name ∈ p.world.top.allNames, name.NulFree)
  (hlocation : ∀ name ∈ p.location, name.Encodable)
include hmanifest hnames hlocation

theorem checkManifest_of_passes (hentries : ∀ entry ∈ entries, p.Passes entry) :
    p.checkManifest (.list entries) = ⟨p, .finished, [], loading ++ "  ..ok\n", []⟩ := by
  have hnone := missing?_append hnames hlocation hentries []
  rw [List.append_nil] at hnone
  rw [checkManifest_eq hmanifest, hnone]
  rfl

/-- The first entry that does not pass decides how the check ends. -/
theorem checkManifest_of_not_passes (hchecked : ∀ entry ∈ checked, p.Passes entry)
    (htells : entry.Tells t) (hentry : ¬p.Passes entry) (later : List Document) :
    p.checkManifest (.list (checked ++ entry :: later)) =
      p.concludes (open Classical in
        if p.Overlong t then .error (p.tooLong t) else .ok (some t)) := by
  obtain ⟨hover, hshort⟩ := missing?_of_not_passes hnames hlocation hchecked htells hentry later
  rw [checkManifest_eq hmanifest]
  split
  · next h => rw [hover h]
  · next h => rw [hshort h]

end

/-- The check of a manifest whose entries tell paths passes exactly if all entries pass.  Otherwise
it ends at the first one that does not, whatever comes after it: it reports the path as missing and
exits with 1, unless the path cannot be looked up.  Then it ends with a fault and reports nothing.
-/
theorem checkManifest_gate (p : Project) (entries : List Document)
    (hmanifest : p.tree.top.find? manifestName = some .file)
    (hnames : ∀ name ∈ p.world.top.allNames, name.NulFree)
    (hlocation : ∀ name ∈ p.location, name.Encodable)
    (hentries : ∀ entry ∈ entries, ∃ t, entry.Tells t) :
    let r := p.checkManifest (.list entries)
    (r.ending = .finished ↔ ∀ entry ∈ entries, p.Passes entry) ∧
      (r.ending = .finished → r = ⟨p, .finished, [], loading ++ "  ..ok\n", []⟩) ∧
      ∀ checked entry later t, entries = checked ++ entry :: later →
        (∀ e ∈ checked, p.Passes e) → entry.Tells t → ¬p.Passes entry →
          (¬p.Overlong t →
            r = ⟨p, .exited 1, [], loading ++ ("  ..missing " ++ t ++ "\n"), []⟩) ∧
          (p.Overlong t → r = ⟨p, .failed (p.tooLong t), [], loading, []⟩) ∧
          ∀ others, p.checkManifest (.list (checked ++ entry :: others)) = r := by
  intro r
  have hpassed : (∀ entry ∈ entries, p.Passes entry) →
      r = ⟨p, .finished, [], loading ++ "  ..ok\n", []⟩ :=
    checkManifest_of_passes hmanifest hnames hlocation
  have hpasses : r.ending = .finished → ∀ entry ∈ entries, p.Passes entry := by
    intro hfinished
    rcases forall_or_exists_first p.Passes entries with
      hall | ⟨checked, entry, later, heq, hchecked, hentry⟩
    · exact hall
    · obtain ⟨t, htells⟩ := hentries entry (by simp [heq])
      have hr := checkManifest_of_not_passes hmanifest hnames hlocation hchecked htells hentry later
      rw [← heq] at hr
      rw [show r = _ from hr] at hfinished
      split at hfinished <;> cases hfinished
  refine ⟨⟨hpasses, fun hall => by rw [hpassed hall]⟩,
    fun hfinished => hpassed (hpasses hfinished), ?_⟩
  intro checked entry later t heq hchecked htells hentry
  have hends := checkManifest_of_not_passes hmanifest hnames hlocation hchecked htells hentry
  have hr : r = _ := (congrArg (fun l => p.checkManifest (.list l)) heq).trans (hends later)
  refine ⟨fun hshort => ?_, fun hover => ?_, fun others => (hends others).trans hr.symm⟩
  · rw [hr, if_neg hshort]
    rfl
  · rw [hr, if_pos hover]
    rfl

/-- The manifest entry that tells a path and nothing else. -/
def telling (t : Text) : Document := .mapping [(Text.ofString "path", .text t)]

theorem telling_tells (ht : t.Encodable) : (telling t).Tells t :=
  ⟨ht, _, rfl, List.lookup_cons_self⟩

/-- The first path leads to a file in a roundabout way, the second one to a file outside of the
project, and the third one leads nowhere. -/
theorem checkManifest_gate_missing :
    let tree := Tree.ofTexts [Text.ofString "d/b.py", manifestName]
    let surroundings := Tree.ofTexts [Text.ofString "lib/c.py"]
    let p : Project := ⟨[Text.ofString "R"], surroundings, Text.ofString "/py", tree, []⟩
    let entries := [telling "d//.././d/b.py/", telling "../lib/c.py", telling "b.py",
      telling "d/../../R/d/b.py"]
    p.Passes (telling "d//.././d/b.py/") ∧ p.Passes (telling "../lib/c.py") ∧
      p.checkManifest (.list entries) =
        ⟨p, .exited 1, [], "loading examples.manifest.yaml    ..missing b.py\n", []⟩ := by
  intro tree surroundings p entries
  have hmanifest : p.tree.top.find? manifestName = some .file := by decide +kernel
  have hnames : ∀ name ∈ p.world.top.allNames, name.NulFree := by decide +kernel
  have hlocation : ∀ name ∈ p.location, name.Encodable := by decide +kernel
  have hround : (telling "d//.././d/b.py/").Tells "d//.././d/b.py/" :=
    telling_tells (by decide +kernel)
  have houtside : (telling "../lib/c.py").Tells "../lib/c.py" := telling_tells (by decide +kernel)
  have htop : (telling "b.py").Tells "b.py" := telling_tells (by decide +kernel)
  have hlast : (telling "d/../../R/d/b.py").Tells "d/../../R/d/b.py" :=
    telling_tells (by decide +kernel)
  have hentries : ∀ entry ∈ entries, ∃ t, entry.Tells t := by
    simp only [entries, List.forall_mem_cons]
    exact ⟨⟨_, hround⟩, ⟨_, houtside⟩, ⟨_, htop⟩, ⟨_, hlast⟩, nofun⟩
  have hpasses : p.Passes (telling "d//.././d/b.py/") :=
    (passes_iff hnames hlocation hround).2 (by rfl)
  have hleaves : p.Passes (telling "../lib/c.py") :=
    (passes_iff hnames hlocation houtside).2 (by rfl)
  have hfound : p.hasFile (.ofText "b.py") = .ok false := by rfl
  have hmissing : ¬p.Passes (telling "b.py") := fun h => by
    have htrue := (passes_iff hnames hlocation htop).1 h
    rw [hfound] at htrue
    cases htrue
  have hshort : ¬p.Overlong "b.py" := fun hover => by
    rw [hasFile_of_overlong hlocation htop.1 hover] at hfound
    cases hfound
  obtain ⟨-, -, hfirst⟩ := p.checkManifest_gate entries hmanifest hnames hlocation hentries
  obtain ⟨hreport, -⟩ := hfirst [telling "d//.././d/b.py/", telling "../lib/c.py"]
    (telling "b.py") _ _ rfl (List.forall_mem_cons.2 ⟨hpasses, List.forall_mem_singleton.2 hleaves⟩)
    htop hmissing
  have houtput : loading ++ ("  ..missing " ++ Text.ofString "b.py" ++ "\n") =
      Text.ofString "loading examples.manifest.yaml    ..missing b.py\n" := by decide +kernel
  exact ⟨hpasses, hleaves, (hreport hshort).trans (by rw [houtput])⟩

/-- A name of 256 bytes is not reported as missing. -/
theorem not_exited_of_overlong :
    ¬∀ (p : Project) (entries checked later : List Document) (entry : Document) (t : Text),
      p.tree.top.find? manifestName = some .file → (∀ name ∈ p.world.top.allNames, name.NulFree) →
      (∀ name ∈ p.location, name.Encodable) → (∀ e ∈ entries, ∃ s, e.Tells s) →
      entries = checked ++ entry :: later → (∀ e ∈ checked, ∃ s, e.Tells s ∧ p.NamesFile s) →
      entry.Tells t → ¬p.NamesFile t → (p.checkManifest (.list entries)).ending = .exited 1 := by
  intro hexits
  let p : Project :=
    ⟨[Text.ofString "R"], .empty, Text.ofString "/py", .ofTexts [manifestName], []⟩
  let t : Text := List.replicate 256 (CodePoint.ofChar 'a')
  have hmanifest : p.tree.top.find? manifestName = some .file := by decide +kernel
  have hnames : ∀ name ∈ p.world.top.allNames, name.NulFree := by decide +kernel
  have hlocation : ∀ name ∈ p.location, name.Encodable := by decide +kernel
  have htells : (telling t).Tells t := telling_tells (by decide +kernel)
  have hpath : (p.path t).names = [Text.ofString "R", t] := by decide +kernel
  have hnone : ∀ kind, ¬p.world.top.Stands [Text.ofString "R", t] kind := by
    intro kind
    cases kind <;> decide +kernel
  have hnot : ¬p.NamesFile t := by
    rw [namesFile_iff, hpath]
    rintro ⟨place, hleads, -⟩
    have hR : Text.ofString "R" ≠ Path.parent := by decide
    have ht : t ≠ Path.parent := by decide +kernel
    simp only [Directory.leads_cons hR, Directory.leads_cons ht] at hleads
    rcases hleads with ⟨-, ⟨hfolder, -⟩ | ⟨-, -, hfile⟩⟩ | ⟨hnil, -⟩
    · exact hnone _ hfolder
    · exact hnone _ hfile
    · cases hnil
  have hexit := hexits p [telling t] [] [] (telling t) t hmanifest hnames hlocation
    (List.forall_mem_singleton.2 ⟨t, htells⟩) rfl nofun htells hnot
  revert hexit
  decide +kernel

end Project

end LineProtocol
