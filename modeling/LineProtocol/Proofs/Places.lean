import LineProtocol.Tree
/-!
# What stands where in a directory

`Directory.Stands` tells for a place whether a plain file or a directory stands there.  Where
names are distinct, taking out the directory at one place leaves everything where it stands,
except for what stands at that place or below it.
-/

namespace LineProtocol

inductive Entry.Kind where
  | file
  | folder
deriving DecidableEq

def Entry.kind : Entry → Entry.Kind
  | file => .file
  | folder _ => .folder

namespace Directory

/-- Something of this kind stands at the place. -/
def Stands (d : Directory) (place : List Text) (kind : Entry.Kind) : Prop :=
  (d.at? place).map Entry.kind = some kind

instance (d : Directory) (place : List Text) (kind : Entry.Kind) :
    Decidable (d.Stands place kind) :=
  inferInstanceAs (Decidable (_ = _))

variable {d : Directory} {name n : Text} {place : List Text} {kind : Entry.Kind}

/-! ## Entries and places -/

@[simp]
theorem stands_nil : d.Stands [] kind ↔ kind = .folder := by
  simp [Stands, at?, Entry.kind, eq_comm]

/-- What stands below an entry. -/
theorem stands_cons : d.Stands (n :: place) kind ↔
    (d.find? n = some .file ∧ place = [] ∧ kind = .file) ∨
      ∃ content, d.find? n = some (.folder content) ∧ content.Stands place kind := by
  simp only [Stands, at?]
  cases hfind : d.find? n with
  | none => simp
  | some entry =>
      cases entry with
      | file => cases place <;> simp [Entry.kind, eq_comm]
      | folder content => simp

theorem stands_of_none (h : d.find? n = none) : d.Stands (n :: place) kind ↔ False := by
  simp [stands_cons, h]

theorem stands_of_file (h : d.find? n = some .file) :
    d.Stands (n :: place) kind ↔ place = [] ∧ kind = .file := by
  simp [stands_cons, h]

theorem stands_of_folder {content : Directory} (h : d.find? n = some (.folder content)) :
    d.Stands (n :: place) kind ↔ content.Stands place kind := by
  simp [stands_cons, h]

/-- Behind a file of another name stands what stands in the rest. -/
theorem stands_file_rest {m : Text} {rest : Directory} (hm : m ≠ n) :
    (file m rest).Stands (n :: place) kind ↔ rest.Stands (n :: place) kind := by
  simp [stands_cons, find?, hm]

/-- Behind a directory of another name stands what stands in the rest. -/
theorem stands_folder_rest {m : Text} {content rest : Directory} (hm : m ≠ n) :
    (folder m content rest).Stands (n :: place) kind ↔ rest.Stands (n :: place) kind := by
  simp [stands_cons, find?, hm]

theorem has_iff : d.has place = true ↔ ∃ kind, d.Stands place kind := by
  simp only [has, Stands]
  cases d.at? place <;> simp

theorem stands_append {q : List Text} : ∀ {d : Directory} {p : List Text}, q ≠ [] →
    d.Stands (p ++ q) kind → d.Stands p .folder
  | _, [], _, _ => stands_nil.2 rfl
  | _, _ :: _, hq, h => by
    rcases stands_cons.1 h with ⟨-, hnil, -⟩ | ⟨content, hfind, hcontent⟩
    · exact absurd (List.append_eq_nil_iff.1 hnil).2 hq
    · exact stands_cons.2 (.inr ⟨content, hfind, stands_append hq hcontent⟩)

/-- Above everything that stands somewhere stand directories. -/
theorem Stands.of_above {above : List Text} (h : d.Stands place kind) (habove : above <+: place) :
    above = place ∨ d.Stands above .folder := by
  obtain ⟨rest, rfl⟩ := habove
  by_cases hrest : rest = []
  · exact .inl (by rw [hrest, List.append_nil])
  · exact .inr (stands_append hrest h)

theorem find?_eq_none (h : n ∉ d.names) : d.find? n = none :=
  Option.isNone_iff_eq_none.1 (find?_isNone_iff.2 h)

theorem mem_names_of_find? {entry : Entry} (h : d.find? n = some entry) : n ∈ d.names :=
  Decidable.byContradiction fun hnot => nomatch h.symm.trans (find?_eq_none hnot)

theorem Stands.mem_names (h : d.Stands (n :: place) kind) : n ∈ d.names := by
  rcases stands_cons.1 h with ⟨hfind, -⟩ | ⟨content, hfind, -⟩ <;> exact mem_names_of_find? hfind

/-! ## Putting a directory in its place -/

section

variable {f : Option Entry → Entry} {entry : Entry} {entries : Directory}

theorem find?_update : (d.update name f).find? name = some (f (d.find? name)) := by
  induction d using induction_before with
  | empty => exact find?_before.trans (if_pos rfl)
  | before entry m rest ih =>
      rw [update_before, find?_before]
      split
      · rw [find?_before, if_pos rfl]
      split
      · next hfirst =>
        have hnone := Option.isNone_iff_eq_none.1 (Bool.and_eq_true_iff.1 hfirst).2
        rw [find?_before, if_pos rfl, hnone]
      · next hm _ => rw [find?_before, if_neg hm, ih]

theorem update_eq_self (hfind : d.find? name = some entry) (hentry : f (some entry) = entry) :
    d.update name f = d := by
  induction d using induction_before with
  | empty => cases hfind
  | before other m rest ih =>
      rw [find?_before] at hfind
      rw [update_before]
      split
      · next hm =>
        rw [if_pos hm] at hfind
        rw [Option.some.inj hfind, hentry, hm]
      · next hm =>
        rw [if_neg hm] at hfind
        rw [hfind, Option.isNone_some, Bool.and_false, if_neg Bool.false_ne_true, ih hfind]

theorem at?_put : ∀ {place : List Text} {d : Directory},
    (d.put place entries).at? place = some (.folder entries)
  | [], _ => rfl
  | _ :: _, _ => by
    rw [put, at?, find?_update]
    exact at?_put

theorem put_eq_self : ∀ {place : List Text} {d : Directory},
    d.at? place = some (.folder entries) → d.put place entries = d
  | [], d, h => by
    cases h
    rfl
  | name :: rest, d, h => by
    rw [at?] at h
    rcases hfind : d.find? name with _ | _ | content <;> rw [hfind] at h
    · cases h
    · dsimp only at h
      split at h <;> cases h
    · exact update_eq_self hfind (congrArg Entry.folder (put_eq_self h))

end

/-! ## Changing one entry -/

theorem Distinct.nodup_names (h : d.Distinct) : d.names.Nodup := by
  induction d using induction_before with
  | empty => exact .nil
  | before entry m rest ih =>
      obtain ⟨hnew, -, hrest⟩ := distinct_before.1 h
      rw [names_before]
      exact List.nodup_cons.2 ⟨hnew, ih hrest⟩

theorem Distinct.of_find? {entry : Entry} (h : d.Distinct) (hfind : d.find? n = some entry) :
    entry.Distinct := by
  induction d using induction_before with
  | empty => cases hfind
  | before other m rest ih =>
      obtain ⟨-, hother, hrest⟩ := distinct_before.1 h
      rw [find?_before] at hfind
      split at hfind
      · exact Option.some.inj hfind ▸ hother
      · exact ih hrest hfind

section

variable {f : Directory → Option Directory}

theorem Distinct.find?_alter (h : d.Distinct) :
    (d.alter name f).find? n =
      match d.find? n with
      | some (.folder content) =>
        if n = name then (f content).map .folder else some (.folder content)
      | entry => entry := by
  induction d with
  | empty => rfl
  | file m rest ih =>
      rw [Directory.alter, find?, find?]
      split
      · rfl
      · exact ih h.2
  | folder m content rest _ ih =>
      obtain ⟨hnew, -, hrest⟩ := h
      rw [Directory.alter]
      by_cases hname : m = name
      · subst hname
        rw [if_pos rfl]
        by_cases hn : m = n
        · subst hn
          cases hleft : f content with
          | some left => simp [find?, hleft]
          | none => simp [find?, hleft, find?_eq_none hnew]
        · cases f content <;> simp only [find?, if_neg hn] <;>
            rcases rest.find? n with _ | _ | inner <;> simp [Ne.symm hn]
      · rw [if_neg hname, find?, find?]
        by_cases hn : m = n
        · subst hn
          simp [hname]
        · simpa [hn] using ih hrest

/-- An entry of the rest is an entry of the whole. -/
theorem find?_rest {rest : Directory} {entry : Entry} (hnew : n ∉ rest.names)
    (h : rest.find? name = some entry) : n ≠ name := by
  rintro rfl
  exact hnew (mem_names_of_find? h)

theorem Distinct.alter_eq_self (h : d.Distinct)
    (hf : ∀ content, d.find? name = some (.folder content) → f content = some content) :
    d.alter name f = d := by
  induction d with
  | empty => rfl
  | file m rest ih =>
      refine congrArg (file m) (ih h.2 fun content hfind => hf content ?_)
      rw [find?, if_neg (find?_rest h.1 hfind), hfind]
  | folder m inner rest _ ih =>
      obtain ⟨hnew, -, hrest⟩ := h
      rw [Directory.alter]
      split
      · next hm => rw [hf inner (by rw [find?, if_pos hm])]
      · next hm =>
        refine congrArg (folder m inner) (ih hrest fun content hfind => hf content ?_)
        rw [find?, if_neg hm, hfind]

end

/-! ## Taking out a directory -/

theorem Distinct.find?_without {m : Text} {q : List Text} (h : d.Distinct) :
    (d.without (m :: q)).find? n =
      match d.find? n with
      | some (.folder content) =>
        if n = m then if q = [] then none else some (.folder (content.without q))
        else some (.folder content)
      | entry => entry := by
  cases q with
  | nil =>
      rw [Directory.without, h.find?_alter]
      simp
  | cons l q =>
      rw [Directory.without, h.find?_alter]
      · simp
      · simp

/-- Taking out the directory at a place leaves everything where it stands, except for what stands
at that place or below it. -/
theorem Distinct.stands_without {q : List Text} : ∀ {d : Directory} {place : List Text},
    d.Distinct → q ≠ [] →
      ((d.without q).Stands place kind ↔
        d.Stands place kind ∧ (q <+: place → ¬d.Stands q .folder)) := by
  induction q with
  | nil => exact fun _ hq => absurd rfl hq
  | cons m q ih =>
      intro d place h _
      cases place with
      | nil => simp
      | cons n p =>
          have hkept := h.find?_without (n := n) (m := m) (q := q)
          rw [List.cons_prefix_cons]
          cases hfind : d.find? n with
          | none =>
              rw [hfind] at hkept
              rw [stands_of_none hkept, stands_of_none hfind, false_and]
          | some entry =>
              rw [hfind] at hkept
              cases entry with
              | file =>
                  rw [stands_of_file hkept, stands_of_file hfind]
                  refine (and_iff_left ?_).symm
                  rintro ⟨rfl, -⟩
                  simp [stands_of_file hfind]
              | folder content =>
                  rw [stands_of_folder hfind]
                  by_cases hm : n = m
                  · subst hm
                    rw [stands_of_folder hfind]
                    by_cases hq : q = []
                    · rw [stands_of_none (by simpa [hq] using hkept)]
                      simp [hq]
                    · rw [stands_of_folder (by simpa [hq] using hkept),
                        ih (h.of_find? hfind) hq, and_iff_right rfl]
                  · rw [stands_of_folder (by simpa [hm] using hkept)]
                    simp [Ne.symm hm]

/-- There is nothing to take out where no directory stands. -/
theorem Distinct.without_eq_self {q : List Text} : ∀ {d : Directory}, d.Distinct →
    ¬d.Stands q .folder → d.without q = d := by
  induction q with
  | nil => exact fun _ _ => rfl
  | cons m q ih =>
      intro d h hnot
      cases q with
      | nil =>
          refine h.alter_eq_self fun content hfind => absurd ?_ hnot
          rw [stands_of_folder hfind, stands_nil]
      | cons l q =>
          refine h.alter_eq_self fun content hfind => congrArg some (ih (h.of_find? hfind) ?_)
          rwa [stands_of_folder hfind] at hnot

end Directory

end LineProtocol
