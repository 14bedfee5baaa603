import LineProtocol.Proofs.Places
/-!
# Where names lead

Reading the names in a text and following them are two things.  `Path.Reads` leaves out what
is empty or names the place itself, and keeps the names of parents.  `Directory.Leads` follows
names over places that are counted from the top, where the name of the parent leads to the
place above; `Directory.resolve` follows them with the directories that it has come through,
and both come to the same file unless some name on the way is too long to be looked up.
-/

namespace LineProtocol

/-! ## Reading names -/

namespace Text

theorem split_of_not_mem {sep : CodePoint} {t : Text} (h : sep ∉ t) : split sep t = [t] := by
  induction t with
  | nil => rfl
  | cons c t ih =>
      obtain ⟨hc, ht⟩ := List.ne_and_not_mem_of_not_mem_cons h
      rw [split, if_neg (Ne.symm hc), ih ht]

theorem split_append {sep : CodePoint} {part : Text} (h : sep ∉ part) (t : Text) :
    split sep (part ++ sep :: t) = part :: split sep t := by
  induction part with
  | nil => rw [List.nil_append, split, if_pos rfl]
  | cons c part ih =>
      obtain ⟨hc, hpart⟩ := List.ne_and_not_mem_of_not_mem_cons h
      rw [List.cons_append, split, if_neg (Ne.symm hc), ih hpart]

end Text

namespace Path

/-- What stands between separators is a name, unless it is empty or names the place itself. -/
inductive Part : Text → List Text → Prop
  | silent {part : Text} (h : part = [] ∨ part = self) : Part part []
  | name {part : Text} (hsep : separator ∉ part) (hempty : part ≠ []) (hself : part ≠ self) :
      Part part [part]

/-- The names in a text, of which separators make parts. -/
inductive Reads : Text → List Text → Prop
  | last {part : Text} {names : List Text} (h : Part part names) : Reads part names
  | more {part t : Text} {front names : List Text} (h : Part part front) (hrest : Reads t names) :
      Reads (part ++ separator :: t) (front ++ names)

variable {part t : Text} {names : List Text}

theorem Part.separator_not_mem (h : Part part names) : separator ∉ part := by
  cases h with
  | silent h => rcases h with rfl | rfl <;> decide
  | name hsep => exact hsep

theorem part_readNames (h : separator ∉ part) : Part part (readNames part) := by
  rw [readNames, Text.split_of_not_mem h]
  by_cases hsilent : part = [] ∨ part = self
  · have hnone : [part].filter (fun name => !name.isEmpty && name != self) = [] := by
      rcases hsilent with rfl | rfl <;> decide
    rw [hnone]
    exact .silent hsilent
  · obtain ⟨hempty, hself⟩ := not_or.1 hsilent
    rw [List.filter_eq_self.2 (by simp [hempty, hself])]
    exact .name h hempty hself

theorem Part.eq_readNames (h : Part part names) : names = readNames part := by
  have hread := part_readNames h.separator_not_mem
  generalize readNames part = read at hread
  cases h with
  | silent hsilent =>
      cases hread with
      | silent => rfl
      | name _ hempty hself => exact absurd hsilent (not_or.2 ⟨hempty, hself⟩)
  | name _ hempty hself =>
      cases hread with
      | silent hsilent => exact absurd hsilent (not_or.2 ⟨hempty, hself⟩)
      | name => rfl

theorem readNames_append (h : separator ∉ part) (t : Text) :
    readNames (part ++ separator :: t) = readNames part ++ readNames t := by
  simp only [readNames, Text.split_append h, Text.split_of_not_mem h]
  rw [← List.filter_append, List.singleton_append]

theorem reads_readNames (t : Text) : Reads t (readNames t) := by
  by_cases h : separator ∈ t
  · obtain ⟨part, rest, ht, hpart⟩ := List.eq_append_cons_of_mem h
    have hshorter : rest.length < t.length := by
      rw [ht, List.length_append, List.length_cons]
      omega
    rw [ht, readNames_append hpart]
    exact .more (part_readNames hpart) (reads_readNames rest)
  · exact .last (part_readNames h)
termination_by t.length

theorem reads_iff : Reads t names ↔ names = readNames t := by
  constructor
  · intro h
    induction h with
    | last h => exact h.eq_readNames
    | more h _ ih => rw [readNames_append h.separator_not_mem, ih, h.eq_readNames]
  · rintro rfl
    exact reads_readNames t

/-- The characters of the names in a text are characters of the text. -/
theorem Reads.mem_text (h : Reads t names) {name : Text} (hname : name ∈ names) {c : CodePoint}
    (hc : c ∈ name) : c ∈ t := by
  have hpart : ∀ {part : Text} {names : List Text}, Part part names → name ∈ names → c ∈ part := by
    rintro part _ (_ | _) hname
    · cases hname
    · rwa [← List.mem_singleton.1 hname]
  induction h with
  | last h => exact hpart h hname
  | more h _ ih =>
      rcases List.mem_append.1 hname with hfront | hrest
      · exact List.mem_append_left _ (hpart h hfront)
      · exact List.mem_append_right _ (List.mem_cons_of_mem _ (ih hrest))

end Path

namespace Directory

/-! ## Following names -/

/-- From the directory at `here` the names lead to a place.  The place above the top is the top. -/
inductive Leads (w : Directory) : (here names place : List Text) → Prop
  | arrived {here : List Text} : Leads w here [] here
  | parent {here names place : List Text} (h : Leads w here.dropLast names place) :
      Leads w here (Path.parent :: names) place
  | enter {here names place : List Text} {name : Text} (hname : name ≠ Path.parent)
      (hfolder : w.Stands (here ++ [name]) .folder) (h : Leads w (here ++ [name]) names place) :
      Leads w here (name :: names) place
  | file {here : List Text} {name : Text} (hname : name ≠ Path.parent)
      (hfile : w.Stands (here ++ [name]) .file) : Leads w here [name] (here ++ [name])

/-- On the way that the names go from the directory at `here` is one that is too long to be looked
up. -/
inductive Overlong (w : Directory) : (here names : List Text) → Prop
  | name {here names : List Text} {name : Text} (hname : name ≠ Path.parent)
      (hlong : Path.maxNameSize < name.utf8.length) : Overlong w here (name :: names)
  | parent {here names : List Text} (h : Overlong w here.dropLast names) :
      Overlong w here (Path.parent :: names)
  | enter {here names : List Text} {name : Text} (hname : name ≠ Path.parent)
      (hfolder : w.Stands (here ++ [name]) .folder) (h : Overlong w (here ++ [name]) names) :
      Overlong w here (name :: names)

variable {w d : Directory} {here names place : List Text} {name : Text} {kind : Entry.Kind}

theorem leads_nil : w.Leads here [] place ↔ place = here := by
  constructor
  · rintro ⟨⟩
    rfl
  · rintro rfl
    exact .arrived

theorem leads_parent : w.Leads here (Path.parent :: names) place ↔
    w.Leads here.dropLast names place := by
  refine ⟨fun h => ?_, .parent⟩
  cases h with
  | parent h => exact h
  | enter hname | file hname => exact absurd rfl hname

theorem leads_cons (hname : name ≠ Path.parent) : w.Leads here (name :: names) place ↔
    (w.Stands (here ++ [name]) .folder ∧ w.Leads (here ++ [name]) names place) ∨
      (names = [] ∧ place = here ++ [name] ∧ w.Stands (here ++ [name]) .file) := by
  constructor
  · intro h
    cases h with
    | parent => exact absurd rfl hname
    | enter _ hfolder h => exact .inl ⟨hfolder, h⟩
    | file _ hfile => exact .inr ⟨rfl, rfl, hfile⟩
  · rintro (⟨hfolder, h⟩ | ⟨rfl, rfl, hfile⟩)
    · exact .enter hname hfolder h
    · exact .file hname hfile

theorem overlong_nil : ¬w.Overlong here [] :=
  nofun

theorem overlong_parent : w.Overlong here (Path.parent :: names) ↔
    w.Overlong here.dropLast names := by
  refine ⟨fun h => ?_, .parent⟩
  cases h with
  | parent h => exact h
  | name hname | enter hname => exact absurd rfl hname

theorem overlong_cons (hname : name ≠ Path.parent) (hshort : name.utf8.length ≤ Path.maxNameSize) :
    w.Overlong here (name :: names) ↔
      w.Stands (here ++ [name]) .folder ∧ w.Overlong (here ++ [name]) names := by
  constructor
  · intro h
    cases h with
    | name _ hlong => omega
    | parent => exact absurd rfl hname
    | enter _ hfolder h => exact ⟨hfolder, h⟩
  · rintro ⟨hfolder, h⟩
    exact .enter hname hfolder h

/-! ## Following names by way of directories -/

/-- `d` stands at `here`, the first of `parents` in the place above, and so on up to the top. -/
inductive Ascends (w : Directory) : (here : List Text) → Directory → List Directory → Prop
  | top : Ascends w [] w []
  | enter {here : List Text} {d content : Directory} {parents : List Directory} {name : Text}
      (h : Ascends w here d parents) (hfind : d.find? name = some (.folder content)) :
      Ascends w (here ++ [name]) content (d :: parents)

namespace Ascends

variable {parents : List Directory}

/-- What stands below a place stands in the directory there. -/
theorem stands_append (h : w.Ascends here d parents) :
    w.Stands (here ++ place) kind ↔ d.Stands place kind := by
  induction h generalizing place with
  | top => rfl
  | enter _ hfind ih => rw [List.append_assoc, ih, List.singleton_append, stands_of_folder hfind]

theorem stands_here (h : w.Ascends here d parents) : w.Stands here kind ↔ kind = .folder := by
  have hhere : w.Stands (here ++ []) kind ↔ d.Stands [] kind := h.stands_append
  rwa [List.append_nil, stands_nil] at hhere

/-- The name of the parent goes on from the place above. -/
theorem resolve_parent (h : w.Ascends here d parents) (names : List Text) :
    ∃ above parents', w.Ascends here.dropLast above parents' ∧
      resolve parents d (Path.parent :: names) = resolve parents' above names := by
  cases h with
  | top => exact ⟨w, [], .top, by rw [resolve.eq_def]; rfl⟩
  | @enter here above _ parents name h hfind =>
      rw [List.dropLast_concat]
      exact ⟨above, parents, h, by rw [resolve.eq_def]; rfl⟩

theorem resolve_long (hname : name ≠ Path.parent) (hlong : Path.maxNameSize < name.utf8.length) :
    resolve parents d (name :: names) = .error .nameTooLong := by
  rw [resolve.eq_def]
  dsimp only
  rw [if_neg hname, if_pos hlong]

theorem resolve_name (hname : name ≠ Path.parent) (hshort : name.utf8.length ≤ Path.maxNameSize) :
    resolve parents d (name :: names) =
      match d.find? name with
      | none => .error .missing
      | some .file => if names.isEmpty then .ok .file else .error .missing
      | some (.folder content) => resolve (d :: parents) content names := by
  rw [resolve.eq_def]
  dsimp only
  exact (if_neg hname).trans (if_neg (Nat.not_lt.2 hshort))

/-- The names come to one that is too long if there is one on their way. -/
theorem resolve_overlong (h : w.Ascends here d parents) :
    resolve parents d names = .error .nameTooLong ↔ w.Overlong here names := by
  induction names generalizing here d parents with
  | nil => exact iff_of_false (by rw [resolve]; exact nofun) overlong_nil
  | cons name names ih =>
      by_cases hname : name = Path.parent
      · subst hname
        obtain ⟨above, parents, habove, heq⟩ := h.resolve_parent names
        rw [heq, overlong_parent]
        exact ih habove
      by_cases hlong : Path.maxNameSize < name.utf8.length
      · exact iff_of_true (resolve_long hname hlong) (.name hname hlong)
      have hshort := Nat.le_of_not_lt hlong
      rw [resolve_name hname hshort, overlong_cons hname hshort, h.stands_append]
      cases hfind : d.find? name with
      | none => simp [stands_of_none hfind]
      | some entry =>
          cases entry with
          | file =>
              rw [stands_of_file hfind]
              dsimp only
              split <;> simp
          | folder content =>
              rw [stands_of_folder hfind, stands_nil, and_iff_right rfl]
              exact ih (h.enter hfind)

/-- The names come to a plain file if they lead to one and none of them is too long. -/
theorem resolve_file (h : w.Ascends here d parents) (hshort : ¬w.Overlong here names) :
    resolve parents d names = .ok .file ↔
      ∃ place, w.Leads here names place ∧ w.Stands place .file := by
  induction names generalizing here d parents with
  | nil =>
      refine iff_of_false (by rw [resolve]; exact nofun) ?_
      rintro ⟨place, hleads, hfile⟩
      rw [leads_nil.1 hleads, h.stands_here] at hfile
      cases hfile
  | cons name names ih =>
      by_cases hname : name = Path.parent
      · subst hname
        obtain ⟨above, parents, habove, heq⟩ := h.resolve_parent names
        simp only [heq, leads_parent]
        exact ih habove fun hover => hshort (.parent hover)
      have hsize : name.utf8.length ≤ Path.maxNameSize :=
        Nat.le_of_not_lt fun hlong => hshort (.name hname hlong)
      rw [resolve_name hname hsize]
      simp only [leads_cons hname, h.stands_append]
      cases hfind : d.find? name with
      | none => simp [stands_of_none hfind]
      | some entry =>
          cases entry with
          | file =>
              have hstands : d.Stands [name] .file := (stands_of_file hfind).2 ⟨rfl, rfl⟩
              constructor
              · intro hfile
                dsimp only at hfile
                split at hfile
                · next hnil => exact ⟨_, .inr ⟨List.isEmpty_iff.1 hnil, rfl, hstands⟩,
                    h.stands_append.2 hstands⟩
                · cases hfile
              · rintro ⟨place, ⟨hfolder, -⟩ | ⟨rfl, -⟩, -⟩
                · rw [stands_of_file hfind] at hfolder
                  cases hfolder.2
                · rfl
          | folder content =>
              have hinner := h.enter hfind
              have hfolder : w.Stands (here ++ [name]) .folder := hinner.stands_here.2 rfl
              have hrest : ¬w.Overlong (here ++ [name]) names := fun hover =>
                hshort (.enter hname hfolder hover)
              simp only [stands_of_folder hfind, stands_nil, true_and, reduceCtorEq, and_false,
                or_false]
              exact ih hinner hrest

end Ascends

end Directory

end LineProtocol
