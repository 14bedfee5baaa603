import LineProtocol.Directory
/-!
# Trees

In a tree no two entries of a directory have one name.  What is done to a
directory keeps names distinct, whatever order the entries are in, so all that
is made of trees are trees.
-/

namespace LineProtocol

/-- No two entries of a directory have one name, however deep the directory stands. -/
def Directory.Distinct : Directory → Prop
  | empty => True
  | file n rest => n ∉ rest.names ∧ rest.Distinct
  | folder n content rest => n ∉ rest.names ∧ content.Distinct ∧ rest.Distinct

def Entry.Distinct : Entry → Prop
  | file => True
  | folder content => content.Distinct

theorem Entry.distinct_content {old : Option Entry} (h : ∀ entry ∈ old, entry.Distinct) :
    (Entry.content old).Distinct := by
  rcases old with _ | _ | content
  · trivial
  · trivial
  · exact h _ rfl

namespace Directory

instance decidableDistinct : (d : Directory) → Decidable d.Distinct
  | empty => inferInstanceAs (Decidable True)
  | file n rest =>
    have := decidableDistinct rest
    inferInstanceAs (Decidable (n ∉ rest.names ∧ rest.Distinct))
  | folder n content rest =>
    have := decidableDistinct content
    have := decidableDistinct rest
    inferInstanceAs (Decidable (n ∉ rest.names ∧ content.Distinct ∧ rest.Distinct))

variable {d entries : Directory} {name n : Text} {place : List Text} {entry : Entry}

/-! ## Entry by entry -/

/-- Plain files and directories alike, in front of further entries. -/
@[elab_as_elim]
theorem induction_before {motive : Directory → Prop} (empty : motive empty)
    (before : ∀ (entry : Entry) name rest, motive rest → motive (entry.before name rest)) :
    ∀ d, motive d
  | .empty => empty
  | file name rest => before .file name rest (induction_before empty before rest)
  | folder name content rest =>
    before (.folder content) name rest (induction_before empty before rest)

@[simp]
theorem names_before : (entry.before name d).names = name :: d.names := by
  cases entry <;> rfl

theorem distinct_before :
    (entry.before name d).Distinct ↔ name ∉ d.names ∧ entry.Distinct ∧ d.Distinct := by
  cases entry <;> simp [Entry.before, Entry.Distinct, Distinct]

theorem find?_before :
    (entry.before name d).find? n = if name = n then some entry else d.find? n := by
  cases entry <;> rfl

theorem find?_isNone_iff : (d.find? n).isNone = true ↔ n ∉ d.names := by
  induction d using induction_before with
  | empty => exact iff_of_true rfl List.not_mem_nil
  | before entry m rest ih =>
      rw [find?_before, names_before, List.mem_cons, not_or]
      split
      · next heq => exact iff_of_false nofun fun h => h.1 heq.symm
      · next hne => rw [ih, and_iff_right (Ne.symm hne)]

section

variable {f : Option Entry → Entry}

theorem update_before :
    (entry.before n d).update name f =
      if n = name then (f (some entry)).before name d
      else if name.le n && (d.find? name).isNone then (f none).before name (entry.before n d)
      else entry.before n (d.update name f) := by
  cases entry <;> rfl

theorem mem_names_update (h : n ∈ (d.update name f).names) : n = name ∨ n ∈ d.names := by
  induction d using induction_before with
  | empty => simpa [update, names] using h
  | before entry m rest ih =>
      rw [update_before] at h
      simp only [names_before, List.mem_cons]
      split at h
      · rw [names_before, List.mem_cons] at h
        exact h.imp_right .inr
      split at h
      · simpa using h
      · rw [names_before, List.mem_cons] at h
        rcases h with rfl | h
        · exact .inr (.inl rfl)
        · exact (ih h).imp_right .inr

/-- What becomes of an entry keeps names distinct if it has distinct names itself. -/
theorem Distinct.update (h : d.Distinct)
    (hf : ∀ old : Option Entry, (∀ entry ∈ old, entry.Distinct) → (f old).Distinct) :
    (d.update name f).Distinct := by
  induction d using induction_before with
  | empty => exact distinct_before.2 ⟨List.not_mem_nil, hf none nofun, trivial⟩
  | before entry m rest ih =>
      obtain ⟨hnew, hentry, hrest⟩ := distinct_before.1 h
      rw [update_before]
      split
      · next hm =>
        refine distinct_before.2 ⟨hm ▸ hnew, hf _ fun old hold => ?_, hrest⟩
        exact Option.some.inj hold ▸ hentry
      split
      · next hm hfirst =>
        refine distinct_before.2 ⟨?_, hf none nofun, h⟩
        rw [Bool.and_eq_true, find?_isNone_iff] at hfirst
        simp [Ne.symm hm, hfirst.2]
      · next hm _ =>
        exact distinct_before.2
          ⟨fun hmem => (mem_names_update hmem).elim hm hnew, hentry, ih hrest⟩

end

/-! ## Adding -/

theorem Distinct.add (hentry : entry.Distinct) :
    ∀ {place : List Text} {d : Directory}, d.Distinct → (d.add entry place).Distinct
  | [], _, h => h
  | [_], _, h => by
    refine h.update fun old hold => ?_
    cases old with
    | none => exact hentry
    | some old => exact hold old rfl
  | _ :: _ :: _, _, h => by
    refine h.update fun old hold => ?_
    rcases old with _ | _ | content
    · exact Distinct.add hentry trivial
    · trivial
    · exact Distinct.add hentry (hold _ rfl)

theorem Distinct.addNamed (h : d.Distinct) (t : Text) : (d.addNamed t).Distinct := by
  refine Distinct.add ?_ h
  split <;> trivial

theorem distinct_ofTexts (texts : List Text) : (ofTexts texts).Distinct :=
  List.foldlRecOn texts addNamed trivial fun _ h t _ => h.addNamed t

theorem Distinct.put (hentries : entries.Distinct) :
    ∀ {place : List Text} {d : Directory}, d.Distinct → (d.put place entries).Distinct
  | [], _, _ => hentries
  | _ :: _, _, h => h.update fun _ hold => Distinct.put hentries (Entry.distinct_content hold)

/-! ## Taking out -/

theorem names_alter (f : Directory → Option Directory) :
    ∀ d : Directory, (d.alter name f).names.Sublist d.names
  | empty => .slnil
  | file _ rest => (names_alter f rest).cons_cons _
  | folder n content rest => by
    rw [alter]
    split
    · cases f content with
      | some content => exact List.Sublist.refl _
      | none => exact List.sublist_cons_self n _
    · exact (names_alter f rest).cons_cons n

theorem Distinct.alter {f : Directory → Option Directory} (h : d.Distinct)
    (hf : ∀ content left, content.Distinct → f content = some left → left.Distinct) :
    (d.alter name f).Distinct := by
  induction d with
  | empty => trivial
  | file m rest ih => exact ⟨fun hm => h.1 ((names_alter f rest).subset hm), ih h.2⟩
  | folder m content rest _ ih =>
      obtain ⟨hnew, hcontent, hrest⟩ := h
      rw [Directory.alter]
      split
      · cases hleft : f content with
        | some left => exact ⟨hnew, hf content left hcontent hleft, hrest⟩
        | none => exact hrest
      · exact ⟨fun hm => hnew ((names_alter f rest).subset hm), hcontent, ih hrest⟩

theorem Distinct.without :
    ∀ {place : List Text} {d : Directory}, d.Distinct → (d.without place).Distinct
  | [], _, h => h
  | [_], _, h => h.alter nofun
  | _ :: _ :: _, _, h => by
    refine h.alter fun content left hcontent hleft => ?_
    rw [← Option.some.inj hleft]
    exact Distinct.without hcontent

end Directory

/-- A directory with distinct names. -/
@[ext]
structure Tree where
  top : Directory
  distinct : top.Distinct

namespace Tree

def empty : Tree := ⟨.empty, trivial⟩

/-- The tree that holds what the texts name. -/
def ofTexts (texts : List Text) : Tree := ⟨.ofTexts texts, Directory.distinct_ofTexts texts⟩

/-- The tree with another one, and nothing else, where the names lead to. -/
def put (place : List Text) (t inner : Tree) : Tree :=
  ⟨t.top.put place inner.top, .put inner.distinct t.distinct⟩

/-- The tree without the directory that the names lead to. -/
def without (place : List Text) (t : Tree) : Tree := ⟨t.top.without place, t.distinct.without⟩

end Tree

end LineProtocol
