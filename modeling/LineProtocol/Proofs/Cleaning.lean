import LineProtocol.Project.Clean
import LineProtocol.Proofs.Places
/-!
# What cleaning removes

Cleaning removes one artefact after the other from a tree that it looks through meanwhile.
A removal settles its place, and removals of artefacts keep settled what is settled
(`Cleanup.Reaches.settled`).  A removal is sound where nothing has been announced yet and
everything above is settled (`Cleanup.Sound.remove`), and the walk removes nothing elsewhere.
So in the end the tree has lost exactly the directories that are artefacts, and each artefact
outside of others has been announced once.
-/

namespace LineProtocol

open Directory (buildNames cacheName isPackageInfo)

/-- The places where building, packaging and running leave something behind. -/
inductive IsArtefact : List Text → Prop
  | build : IsArtefact ["build"]
  | dist : IsArtefact ["dist"]
  | packageInfo (name : Text) : IsArtefact [name ++ ".egg-info"]
  | cache (above : List Text) : IsArtefact (above ++ [Text.ofString "__pycache__"])

/-- An artefact stands at the place, and none of the directories that hold it is an artefact. -/
def Directory.Leftover (d : Directory) (place : List Text) : Prop :=
  IsArtefact place ∧ (∃ kind, d.Stands place kind) ∧
    ∀ above, above <+: place → above ≠ place → IsArtefact above → ¬d.Stands above .folder

namespace IsArtefact

variable {place above : List Text} {name : Text}

theorem ne_nil (h : IsArtefact place) : place ≠ [] := by
  cases h <;> simp

theorem of_mem_buildNames (h : name ∈ buildNames) : IsArtefact [name] := by
  simp only [buildNames, List.mem_cons, List.not_mem_nil, or_false] at h
  rcases h with rfl | rfl
  · exact build
  · exact dist

theorem of_isPackageInfo (h : isPackageInfo name = true) : IsArtefact [name] := by
  obtain ⟨stem, rfl⟩ := List.isSuffixOf_iff_suffix.1 h
  exact packageInfo stem

/-- Below the top of a project only caches are artefacts. -/
theorem eq_cache (h : IsArtefact place) (habove : place.dropLast ≠ []) :
    place = place.dropLast ++ [cacheName] := by
  cases h with
  | build | dist | packageInfo => exact absurd rfl habove
  | cache above => rw [List.dropLast_concat]; rfl

theorem eq_singleton_or_cache (h : IsArtefact place) :
    (∃ name, place = [name]) ∨ ∃ name above, place = name :: (above ++ [cacheName]) := by
  cases h with
  | build | dist | packageInfo => exact .inl ⟨_, rfl⟩
  | cache above =>
      cases above with
      | nil => exact .inl ⟨cacheName, rfl⟩
      | cons name above => exact .inr ⟨name, above, rfl⟩

/-- At the top of a project these are artefacts. -/
theorem of_singleton (h : IsArtefact [name]) :
    name ∈ buildNames ∨ isPackageInfo name = true ∨ name = cacheName := by
  generalize hplace : [name] = place at h
  cases h with
  | build => exact .inl (List.singleton_inj.1 hplace ▸ List.mem_cons_self)
  | dist => exact .inl (List.singleton_inj.1 hplace ▸ List.mem_cons_of_mem _ List.mem_cons_self)
  | packageInfo stem =>
      exact .inr (.inl (List.isSuffixOf_iff_suffix.2 ⟨stem, (List.singleton_inj.1 hplace).symm⟩))
  | cache other =>
      have hconcat : [] ++ [name] = other ++ [cacheName] := hplace
      exact .inr (.inr (List.singleton_inj.1 (List.append_inj' hconcat rfl).2))

end IsArtefact

namespace Cleanup

variable {d : Directory} {c c' : Cleanup} {place q : List Text} {kind : Entry.Kind}

/-! ## One removal -/

/-- A removal does nothing where nothing stands. -/
theorem remove_cases (place : List Text) (c : Cleanup) :
    (∀ kind, ¬c.tree.top.Stands place kind) ∧ c.remove place = c ∨
      (∃ kind, c.tree.top.Stands place kind) ∧
        c.remove place = ⟨c.tree.without place, c.announced ++ [place]⟩ := by
  unfold remove
  split
  · next hhas => exact .inr ⟨Directory.has_iff.1 hhas, rfl⟩
  · next hhas => exact .inl ⟨fun kind h => hhas (Directory.has_iff.2 ⟨kind, h⟩), rfl⟩

theorem mem_announced_remove (h : q ∈ (c.remove place).announced) :
    q ∈ c.announced ∨ q = place := by
  rcases c.remove_cases place with ⟨-, heq⟩ | ⟨-, heq⟩ <;> rw [heq] at h
  · exact .inl h
  · simpa using h

/-- At the place nothing is left to be removed: if anything stands there, it is a plain file, and it
has been announced. -/
def Settled (c : Cleanup) (place : List Text) : Prop :=
  ∀ kind, c.tree.top.Stands place kind → kind = .file ∧ place ∈ c.announced

theorem settled_remove (hplace : place ≠ []) :
    (c.remove place).Settled place := by
  intro kind hstands
  rcases c.remove_cases place with ⟨hnone, heq⟩ | ⟨-, heq⟩ <;> rw [heq] at hstands ⊢
  · exact absurd hstands (hnone kind)
  · obtain ⟨hstood, hfile⟩ := (c.tree.distinct.stands_without hplace).1 hstands
    refine ⟨?_, by simp⟩
    cases kind with
    | file => rfl
    | folder => exact absurd hstood (hfile (List.prefix_refl place))

theorem settled_of_gone (hgone : ∀ kind, ¬c.tree.top.Stands q kind) (hq : q <+: place) :
    c.Settled place := by
  intro kind hstands
  rcases hstands.of_above hq with rfl | habove
  · exact absurd hstands (hgone kind)
  · exact absurd habove (hgone .folder)

/-! ## Removals one after the other -/

/-- One cleanup leads to another by the removal of artefacts. -/
inductive Reaches (c : Cleanup) : Cleanup → Prop
  | refl : Reaches c c
  | remove {c' : Cleanup} {place : List Text} (h : Reaches c c') (hplace : IsArtefact place) :
      Reaches c (c'.remove place)

namespace Reaches

theorem trans {c'' : Cleanup} (h : c.Reaches c') (h' : c'.Reaches c'') : c.Reaches c'' := by
  induction h' with
  | refl => exact h
  | remove _ hplace ih => exact ih.remove hplace

/-- What still stands stood before. -/
theorem stands (h : c.Reaches c') (hstands : c'.tree.top.Stands q kind) :
    c.tree.top.Stands q kind := by
  induction h with
  | refl => exact hstands
  | @remove c' place h hplace ih =>
      rcases c'.remove_cases place with ⟨-, heq⟩ | ⟨-, heq⟩ <;> rw [heq] at hstands
      · exact ih hstands
      · exact ih ((c'.tree.distinct.stands_without hplace.ne_nil).1 hstands).1

theorem announced (h : c.Reaches c') : c.announced ⊆ c'.announced := by
  induction h with
  | refl => exact List.Subset.refl _
  | @remove c' place _ _ ih =>
      rcases c'.remove_cases place with ⟨-, heq⟩ | ⟨-, heq⟩ <;> rw [heq]
      · exact ih
      · exact List.Subset.trans ih (List.subset_append_left _ _)

theorem settled (h : c.Reaches c') (hsettled : c.Settled q) : c'.Settled q := by
  intro kind hstands
  obtain ⟨hfile, hannounced⟩ := hsettled kind (h.stands hstands)
  exact ⟨hfile, h.announced hannounced⟩

/-- Where no artefact is a directory, nothing is removed. -/
theorem tree_eq (h : c.Reaches c')
    (hnone : ∀ place, IsArtefact place → ¬c.tree.top.Stands place .folder) : c'.tree = c.tree := by
  induction h with
  | refl => rfl
  | @remove c' place h hplace ih =>
      rcases c'.remove_cases place with ⟨-, heq⟩ | ⟨-, heq⟩ <;> rw [heq]
      · exact ih
      · refine (Tree.ext (c'.tree.distinct.without_eq_self ?_)).trans ih
        rw [ih]
        exact hnone place hplace

end Reaches

/-! ## Removals at the top -/

theorem remove_reaches (hplace : IsArtefact place) : c.Reaches (c.remove place) :=
  Reaches.refl.remove hplace

theorem removeTop_reaches {names : List Text} {c : Cleanup}
    (hartefact : ∀ name ∈ names, IsArtefact [name]) : c.Reaches (c.removeTop names) := by
  induction names generalizing c with
  | nil => exact .refl
  | cons name names ih =>
      exact (remove_reaches (hartefact name List.mem_cons_self)).trans
        (ih fun n hn => hartefact n (List.mem_cons_of_mem name hn))

theorem mem_announced_removeTop {names : List Text} {c : Cleanup}
    (h : q ∈ (c.removeTop names).announced) : q ∈ c.announced ∨ ∃ name ∈ names, q = [name] := by
  induction names generalizing c with
  | nil => exact .inl h
  | cons name names ih =>
      rcases ih h with hfirst | ⟨n, hn, rfl⟩
      · rcases mem_announced_remove hfirst with hold | rfl
        · exact .inl hold
        · exact .inr ⟨name, List.mem_cons_self, rfl⟩
      · exact .inr ⟨n, List.mem_cons_of_mem name hn, rfl⟩

theorem settled_removeTop {names : List Text} {c : Cleanup}
    (hartefact : ∀ name ∈ names, IsArtefact [name]) {name : Text} (hname : name ∈ names) :
    (c.removeTop names).Settled [name] := by
  induction names generalizing c with
  | nil => cases hname
  | cons n names ih =>
      have hnames := fun m hm => hartefact m (List.mem_cons_of_mem n hm)
      rcases List.mem_cons.1 hname with rfl | hname
      · exact (removeTop_reaches hnames).settled (settled_remove (by simp))
      · exact ih hnames hname

/-! ## The walk -/

/-- The walk through the directory that is listed at `below`. -/
def enter (below : List Text) (content : Directory) (c : Cleanup) : Cleanup :=
  if c.tree.top.has below then sweepBelow below content (c.remove (below ++ [cacheName])) else c

theorem sweepBelow_folder (here : List Text) (name : Text) (content rest : Directory)
    (c : Cleanup) : sweepBelow here (.folder name content rest) c =
      sweepBelow here rest (c.enter (here ++ [name]) content) :=
  rfl

/-- A directory that has gone is passed over. -/
theorem enter_cases (below : List Text) (content : Directory) (c : Cleanup) :
    (∀ kind, ¬c.tree.top.Stands below kind) ∧ c.enter below content = c ∨
      c.enter below content = sweepBelow below content (c.remove (below ++ [cacheName])) := by
  unfold enter
  split
  · exact .inr rfl
  · next hhas => exact .inl ⟨fun kind h => hhas (Directory.has_iff.2 ⟨kind, h⟩), rfl⟩

theorem enter_reaches {below : List Text} {content : Directory}
    (hcontent : ∀ c, Reaches c (sweepBelow below content c)) (c : Cleanup) :
    c.Reaches (c.enter below content) := by
  rcases enter_cases below content c with ⟨-, heq⟩ | heq <;> rw [heq]
  · exact .refl
  · exact (remove_reaches (.cache below)).trans (hcontent _)

theorem sweepBelow_reaches (here : List Text) (entries : Directory) (c : Cleanup) :
    c.Reaches (sweepBelow here entries c) := by
  induction entries generalizing here c with
  | empty => exact .refl
  | file name rest ih => exact ih here c
  | folder name content rest ihcontent ihrest =>
      rw [sweepBelow_folder]
      exact (enter_reaches (ihcontent _) c).trans (ihrest here _)

/-- If the walk through listed entries announces only what stands in these directories, then so does
the one through the directory that holds them, its own cache included. -/
theorem mem_announced_enter {below : List Text} {content : Directory}
    (hcontent : ∀ c, q ∈ (sweepBelow below content c).announced →
      q ∈ c.announced ∨ ∃ name ∈ content.names, below ++ [name] <+: q.dropLast)
    (h : q ∈ (c.enter below content).announced) : q ∈ c.announced ∨ below <+: q.dropLast := by
  rcases enter_cases below content c with ⟨-, heq⟩ | heq <;> rw [heq] at h
  · exact .inl h
  · rcases hcontent _ h with hcache | ⟨n, -, hbelow⟩
    · rcases mem_announced_remove hcache with hold | rfl
      · exact .inl hold
      · exact .inr (by simp)
    · exact .inr ((List.prefix_append _ _).trans hbelow)

/-- The walk announces what stands in the directories that it looks through. -/
theorem mem_announced_sweepBelow {here : List Text} {entries : Directory} {c : Cleanup}
    (h : q ∈ (sweepBelow here entries c).announced) :
    q ∈ c.announced ∨ ∃ name ∈ entries.names, here ++ [name] <+: q.dropLast := by
  induction entries generalizing here c with
  | empty => exact .inl h
  | file name rest ih =>
      rcases ih h with hold | ⟨n, hn, hbelow⟩
      · exact .inl hold
      · exact .inr ⟨n, List.mem_cons_of_mem name hn, hbelow⟩
  | folder name content rest ihcontent ihrest =>
      rw [sweepBelow_folder] at h
      rcases ihrest h with hentry | ⟨n, hn, hbelow⟩
      · rcases mem_announced_enter (fun _ => ihcontent) hentry with hold | hbelow
        · exact .inl hold
        · exact .inr ⟨name, List.mem_cons_self, hbelow⟩
      · exact .inr ⟨n, List.mem_cons_of_mem name hn, hbelow⟩

/-! ## What the walk leaves -/

/-- Everything that stands in these entries of the directory at `here` is listed. -/
def Lists (here : List Text) (entries : Directory) (c : Cleanup) : Prop :=
  ∀ name ∈ entries.names, ∀ place kind, c.tree.top.Stands (here ++ name :: place) kind →
    entries.Stands (name :: place) kind

namespace Lists

variable {here : List Text} {name : Text} {content rest : Directory}

theorem of_reaches (h : c.Lists here rest) (hreaches : c.Reaches c') : c'.Lists here rest :=
  fun n hn place kind hstands => h n hn place kind (hreaches.stands hstands)

theorem of_file (h : c.Lists here (.file name rest)) (hnew : name ∉ rest.names) :
    c.Lists here rest := by
  intro n hn place kind hstands
  have hne : name ≠ n := fun heq => hnew (heq ▸ hn)
  exact (Directory.stands_file_rest hne).1 (h n (List.mem_cons_of_mem name hn) place kind hstands)

theorem of_folder (h : c.Lists here (.folder name content rest)) (hnew : name ∉ rest.names) :
    c.Lists here rest := by
  intro n hn place kind hstands
  have hne : name ≠ n := fun heq => hnew (heq ▸ hn)
  exact (Directory.stands_folder_rest hne).1
    (h n (List.mem_cons_of_mem name hn) place kind hstands)

theorem stands_content (h : c.Lists here (.folder name content rest))
    (hstands : c.tree.top.Stands (here ++ name :: place) kind) : content.Stands place kind := by
  have hfind : (Directory.folder name content rest).find? name = some (.folder content) := by
    simp [Directory.find?]
  have hlisted := h name List.mem_cons_self place kind hstands
  rwa [Directory.stands_of_folder hfind] at hlisted

theorem of_content (h : c.Lists here (.folder name content rest)) :
    c.Lists (here ++ [name]) content :=
  fun n _ place kind hstands => h.stands_content (by simpa using hstands)

end Lists

/-- After the walk no cache is left below the directory at `here`. -/
theorem settled_sweepBelow {here : List Text} {entries : Directory} {c : Cleanup}
    (hentries : entries.Distinct) (hlists : c.Lists here entries)
    {name : Text} (hname : name ∈ entries.names) (above : List Text) :
    (sweepBelow here entries c).Settled (here ++ name :: (above ++ [cacheName])) := by
  -- The induction is on what is listed, for the tree as it is when the walk gets there.
  induction entries generalizing here c name above with
  | empty => cases hname
  | file n rest ih =>
      rcases List.mem_cons.1 hname with rfl | hname
      · intro kind hstands
        have hlisted := hlists name List.mem_cons_self (above ++ [cacheName]) kind
          ((sweepBelow_reaches _ _ _).stands hstands)
        rw [Directory.stands_of_file (by simp [Directory.find?])] at hlisted
        simp at hlisted
      · exact ih hentries.2 (hlists.of_file hentries.1) hname above
  | folder n content rest ihcontent ihrest =>
      obtain ⟨hnew, hcontent, hrest⟩ := hentries
      have hreaches := enter_reaches (sweepBelow_reaches (here ++ [n]) content) c
      rw [sweepBelow_folder]
      rcases List.mem_cons.1 hname with rfl | hname
      · refine (sweepBelow_reaches _ _ _).settled ?_
        rcases enter_cases (here ++ [name]) content c with ⟨hgone, heq⟩ | heq <;> rw [heq]
        · exact settled_of_gone hgone (by simp)
        · have hcache : c.Reaches (c.remove (here ++ [name] ++ [cacheName])) :=
            remove_reaches (.cache _)
          have hlisted := hlists.of_content.of_reaches hcache
          -- The place is the directory's own cache, or a cache in one of the directories in it.
          cases above with
          | nil =>
              refine (sweepBelow_reaches _ _ _).settled ?_
              have hne : here ++ [name] ++ [cacheName] ≠ [] := by simp
              simpa using settled_remove hne
          | cons m above =>
              by_cases hm : m ∈ content.names
              · simpa using ihcontent hcontent hlisted hm above
              · intro kind hstands
                have hstood := (hcache.trans (sweepBelow_reaches _ _ _)).stands hstands
                exact absurd (hlists.stands_content hstood).mem_names hm
      · exact ihrest hrest ((hlists.of_folder hnew).of_reaches hreaches) hname above

/-! ## What has been announced -/

/-- One name follows in what continues a list. -/
theorem name_eq_of_below {here : List Text} {m n : Text} (hm : here ++ [m] <+: place)
    (hn : here ++ [n] <+: place) : m = n := by
  obtain ⟨rest, rfl⟩ := hm
  rw [List.append_assoc, List.prefix_append_right_inj, List.singleton_append,
    List.cons_prefix_cons] at hn
  exact hn.1.symm

/-- The cleanup of a directory has taken out what it has announced, and announced only artefacts
that were not within others. -/
structure Sound (d : Directory) (c : Cleanup) : Prop where
  stands_iff : ∀ place kind, c.tree.top.Stands place kind ↔
    d.Stands place kind ∧ ∀ q ∈ c.announced, q <+: place → ¬d.Stands q .folder
  leftover : ∀ q ∈ c.announced, d.Leftover q
  nodup : c.announced.Nodup

namespace Sound

theorem start (t : Tree) : Sound t.top ⟨t, []⟩ where
  stands_iff := by simp
  leftover := by simp
  nodup := .nil

/-- A removal is sound at a place that has not been announced, once nothing is left to be removed
above it. -/
theorem remove (h : Sound d c) (hplace : IsArtefact place) (hnew : place ∉ c.announced)
    (habove : ∀ above, above <+: place → above ≠ place → IsArtefact above → c.Settled above) :
    Sound d (c.remove place) := by
  rcases c.remove_cases place with ⟨-, heq⟩ | ⟨⟨kind, hstands⟩, heq⟩ <;> rw [heq]
  · exact h
  · obtain ⟨hstood, hheld⟩ := (h.stands_iff place kind).1 hstands
    refine ⟨fun p k => ?_, ?_, ?_⟩
    · have hfolder : c.tree.top.Stands place .folder ↔ d.Stands place .folder := by
        rw [h.stands_iff, and_iff_left hheld]
      refine (c.tree.distinct.stands_without hplace.ne_nil).trans ?_
      rw [h.stands_iff, hfolder]
      simp [or_imp, forall_and, and_assoc]
    · intro q hq
      rcases List.mem_append.1 hq with hq | hq
      · exact h.leftover q hq
      · obtain rfl := List.mem_singleton.1 hq
        refine ⟨hplace, ⟨kind, hstood⟩, fun above hprefix hne hartefact hfolder => ?_⟩
        have hstill : c.tree.top.Stands above .folder :=
          (h.stands_iff above .folder).2
            ⟨hfolder, fun r hr hbefore => hheld r hr (hbefore.trans hprefix)⟩
        cases (habove above hprefix hne hartefact _ hstill).1
    · rw [List.nodup_append]
      refine ⟨h.nodup, List.pairwise_singleton _ place, fun q hq r hr => ?_⟩
      rw [List.mem_singleton.1 hr]
      exact ne_of_mem_of_not_mem hq hnew

/-- A cache is removed soundly from a directory that nothing was announced in. -/
theorem removeCache {here : List Text} {name : Text} (h : Sound d c)
    (hsettled : ∀ q, IsArtefact q → q.dropLast <+: here → c.Settled q)
    (hnew : ∀ q ∈ c.announced, ¬here ++ [name] <+: q.dropLast) :
    Sound d (c.remove (here ++ [name] ++ [cacheName])) := by
  refine h.remove (.cache _) (fun hq => hnew _ hq (by simp)) fun above hprefix hne hartefact => ?_
  refine hsettled above hartefact ?_
  have hbefore := (List.prefix_concat_iff.1 hprefix).resolve_left hne
  rcases List.prefix_concat_iff.1 hbefore with rfl | hbefore
  · simp
  · exact (List.dropLast_prefix above).trans hbefore

end Sound

/-- Once the cache of a directory has been removed, nothing is left to be removed in it. -/
theorem settled_removeCache {here : List Text} {name : Text}
    (hsettled : ∀ q, IsArtefact q → q.dropLast <+: here → c.Settled q) (hq : IsArtefact q)
    (hbeside : q.dropLast <+: here ++ [name]) :
    (c.remove (here ++ [name] ++ [cacheName])).Settled q := by
  rcases List.prefix_concat_iff.1 hbeside with hown | hbefore
  · rw [hq.eq_cache (by simp [hown]), hown]
    exact settled_remove (by simp)
  · exact (remove_reaches (.cache _)).settled (hsettled q hq hbefore)

namespace Sound

/-- The walk through listed entries is sound, once nothing is left to be removed above them or
beside them. -/
theorem sweepBelow {here : List Text} {entries : Directory} {c : Cleanup} (h : Sound d c)
    (hentries : entries.Distinct)
    (hsettled : ∀ q, IsArtefact q → q.dropLast <+: here → c.Settled q)
    (hnew : ∀ name ∈ entries.names, ∀ q ∈ c.announced, ¬here ++ [name] <+: q.dropLast) :
    Sound d (sweepBelow here entries c) := by
  induction entries generalizing here c with
  | empty => exact h
  | file name rest ih =>
      exact ih h hentries.2 hsettled fun n hn => hnew n (List.mem_cons_of_mem name hn)
  | folder name content rest ihcontent ihrest =>
      obtain ⟨hname, hcontent, hrest⟩ := hentries
      obtain ⟨hfresh, hothers⟩ := List.forall_mem_cons.1 hnew
      have hreaches := enter_reaches (sweepBelow_reaches (here ++ [name]) content) c
      rw [sweepBelow_folder]
      -- The rest is walked through from where the walk through this directory leads.
      refine ihrest ?_ hrest (fun q hq hbeside => ?_) fun n hn q hq hbelow => ?_
      · rcases enter_cases (here ++ [name]) content c with ⟨-, heq⟩ | heq <;> rw [heq]
        · exact h
        · refine ihcontent (h.removeCache hsettled hfresh) hcontent
            (fun q => settled_removeCache hsettled) fun n _ q hq hbelow => ?_
          rcases mem_announced_remove hq with hold | rfl
          · exact hfresh q hold ((List.prefix_append _ _).trans hbelow)
          · simpa using hbelow.length_le
      · exact hreaches.settled (hsettled q hq hbeside)
      · rcases mem_announced_enter (fun _ => mem_announced_sweepBelow) hq with hold | hentered
        · exact hothers n hn q hold hbelow
        · exact hname (name_eq_of_below hentered hbelow ▸ hn)

/-- Removals of distinct entries at the top are sound. -/
theorem removeTop {names : List Text} {c : Cleanup} (h : Sound d c) (hnames : names.Nodup)
    (hartefact : ∀ name ∈ names, IsArtefact [name]) (hnew : ∀ name ∈ names, [name] ∉ c.announced) :
    Sound d (c.removeTop names) := by
  induction names generalizing c with
  | nil => exact h
  | cons name names ih =>
      obtain ⟨hother, hnames⟩ := List.nodup_cons.1 hnames
      have hname := hartefact name List.mem_cons_self
      have habove : ∀ above, above <+: [name] → above ≠ [name] → IsArtefact above →
          c.Settled above := by
        intro above hprefix hne habove
        have hnil : above <+: [] := (List.prefix_concat_iff.1 hprefix).resolve_left hne
        exact absurd (List.prefix_nil.1 hnil) habove.ne_nil
      have hremoved := h.remove hname (hnew name List.mem_cons_self) habove
      refine ih hremoved hnames (fun n hn => hartefact n (List.mem_cons_of_mem name hn)) ?_
      intro n hn hq
      rcases mem_announced_remove hq with hold | heq
      · exact hnew n (List.mem_cons_of_mem name hn) hold
      · exact hother (List.singleton_inj.1 heq ▸ hn)

end Sound

end Cleanup

/-! ## The stages of a cleanup -/

namespace Tree

open Cleanup

variable {t : Tree} {name : Text}

/-- The cleanup once the directories that building leaves have been removed. -/
def cleanupBuild (t : Tree) : Cleanup := removeTop buildNames ⟨t, []⟩

/-- The descriptions of packages that are listed then. -/
def packageInfos (t : Tree) : List Text := t.cleanupBuild.tree.top.names.filter isPackageInfo

/-- The cleanup once they have been removed as well. -/
def cleanupInfo (t : Tree) : Cleanup := t.cleanupBuild.removeTop t.packageInfos

/-- The cleanup before the entries of the directory are looked through. -/
def cleanupTop (t : Tree) : Cleanup := t.cleanupInfo.removeTop [cacheName]

theorem artefact_of_packageInfos (h : name ∈ t.packageInfos) : IsArtefact [name] :=
  .of_isPackageInfo (List.mem_filter.1 h).2

theorem artefact_of_cacheName (h : name ∈ [cacheName]) : IsArtefact [name] := by
  rw [List.mem_singleton.1 h]
  exact .cache []

theorem isPackageInfo_of_mem_buildNames (h : name ∈ buildNames) : isPackageInfo name = false := by
  revert name
  decide

theorem mem_announced_cleanupBuild (h : [name] ∈ t.cleanupBuild.announced) : name ∈ buildNames := by
  rcases mem_announced_removeTop h with hnil | ⟨n, hn, heq⟩
  · cases hnil
  · rwa [List.singleton_inj.1 heq]

theorem mem_announced_cleanupInfo (h : [name] ∈ t.cleanupInfo.announced) :
    name ∈ buildNames ∨ isPackageInfo name = true := by
  rcases mem_announced_removeTop h with hold | ⟨n, hn, heq⟩
  · exact .inl (mem_announced_cleanupBuild hold)
  · rw [List.singleton_inj.1 heq]
    exact .inr (List.mem_filter.1 hn).2

theorem eq_singleton_of_mem_cleanupTop {q : List Text} (h : q ∈ t.cleanupTop.announced) :
    ∃ name, q = [name] := by
  rcases mem_announced_removeTop h with hinfo | ⟨n, -, rfl⟩
  · rcases mem_announced_removeTop hinfo with hbuild | ⟨n, -, rfl⟩
    · rcases mem_announced_removeTop hbuild with hnil | ⟨n, -, rfl⟩
      · cases hnil
      · exact ⟨n, rfl⟩
    · exact ⟨n, rfl⟩
  · exact ⟨n, rfl⟩

theorem cleanupBuild_sound (t : Tree) : t.cleanupBuild.Sound t.top :=
  (Sound.start t).removeTop (by decide) (fun _ => .of_mem_buildNames) (by simp)

theorem cleanupInfo_sound (t : Tree) : t.cleanupInfo.Sound t.top := by
  refine t.cleanupBuild_sound.removeTop (t.cleanupBuild.tree.distinct.nodup_names.filter _)
    (fun _ => artefact_of_packageInfos) fun name hname hq => ?_
  have hinfo := (List.mem_filter.1 hname).2
  rw [isPackageInfo_of_mem_buildNames (mem_announced_cleanupBuild hq)] at hinfo
  cases hinfo

theorem cleanupTop_sound (t : Tree) : t.cleanupTop.Sound t.top := by
  refine t.cleanupInfo_sound.removeTop (List.pairwise_singleton _ _)
    (fun _ => artefact_of_cacheName) fun name hname hq => ?_
  rw [List.mem_singleton.1 hname] at hq
  exact absurd (mem_announced_cleanupInfo hq) (by decide)

/-- Before the entries are looked through, nothing is left to be removed at the top. -/
theorem cleanupTop_settled (hname : IsArtefact [name]) : t.cleanupTop.Settled [name] := by
  have hlast : t.cleanupInfo.Reaches t.cleanupTop :=
    removeTop_reaches fun _ => artefact_of_cacheName
  have hnext : t.cleanupBuild.Reaches t.cleanupInfo :=
    removeTop_reaches fun _ => artefact_of_packageInfos
  rcases hname.of_singleton with hmem | hdescribes | rfl
  · exact (hnext.trans hlast).settled (settled_removeTop (fun _ => .of_mem_buildNames) hmem)
  · by_cases hmem : name ∈ t.cleanupBuild.tree.top.names
    · exact hlast.settled (settled_removeTop
        (fun _ => artefact_of_packageInfos) (List.mem_filter.2 ⟨hmem, hdescribes⟩))
    · exact (hnext.trans hlast).settled
        (settled_of_gone (fun kind hstands => hmem hstands.mem_names) (List.prefix_refl _))
  · exact settled_removeTop (fun _ => artefact_of_cacheName) List.mem_cons_self

/-! ## The whole cleanup -/

theorem cleanup_sound (t : Tree) : t.cleanup.Sound t.top := by
  refine t.cleanupTop_sound.sweepBelow t.cleanupTop.tree.distinct (fun q hq hbeside => ?_)
    fun name hname q hq hbelow => ?_
  · rcases hq.eq_singleton_or_cache with ⟨name, rfl⟩ | ⟨name, above, rfl⟩
    · exact cleanupTop_settled hq
    · simpa using hbeside.length_le
  · obtain ⟨n, rfl⟩ := eq_singleton_of_mem_cleanupTop hq
    simp at hbelow

/-- Once a directory has been cleaned, nothing is left to be removed. -/
theorem cleanup_settled {place : List Text} (hplace : IsArtefact place) :
    t.cleanup.Settled place := by
  have hreaches : t.cleanupTop.Reaches t.cleanup := sweepBelow_reaches _ _ _
  rcases hplace.eq_singleton_or_cache with ⟨name, rfl⟩ | ⟨name, above, rfl⟩
  · exact hreaches.settled (cleanupTop_settled hplace)
  · by_cases hname : name ∈ t.cleanupTop.tree.top.names
    · exact settled_sweepBelow t.cleanupTop.tree.distinct
        (fun _ _ _ _ hstands => hstands) hname above
    · refine hreaches.settled fun kind hstands => ?_
      exact absurd hstands.mem_names hname

theorem cleanup_reaches (t : Tree) : Cleanup.Reaches ⟨t, []⟩ t.cleanup := by
  refine Reaches.trans ?_ (sweepBelow_reaches _ _ _)
  exact ((removeTop_reaches fun _ => .of_mem_buildNames).trans
    (removeTop_reaches fun _ => artefact_of_packageInfos)).trans
    (removeTop_reaches fun _ => artefact_of_cacheName)

/-- Whatever stands in a cleaned directory stood there before, and no artefact that is a directory
held it. -/
theorem stands_cleanup {place : List Text} {kind : Entry.Kind} :
    t.cleanup.tree.top.Stands place kind ↔ t.top.Stands place kind ∧
      ∀ above, above <+: place → IsArtefact above → ¬t.top.Stands above .folder := by
  have hsound := t.cleanup_sound
  constructor
  · intro hstands
    obtain ⟨hstood, hheld⟩ := (hsound.stands_iff place kind).1 hstands
    refine ⟨hstood, fun above habove hartefact hfolder => ?_⟩
    have hstill : t.cleanup.tree.top.Stands above .folder := (hsound.stands_iff above .folder).2
      ⟨hfolder, fun q hq hbefore => hheld q hq (hbefore.trans habove)⟩
    cases (cleanup_settled hartefact _ hstill).1
  · rintro ⟨hstood, hnone⟩
    exact (hsound.stands_iff place kind).2
      ⟨hstood, fun q hq habove => hnone q habove (hsound.leftover q hq).1⟩

/-- A cleanup announces all artefacts that are not within others. -/
theorem mem_announced_cleanup {place : List Text} :
    place ∈ t.cleanup.announced ↔ t.top.Leftover place := by
  have hsound := t.cleanup_sound
  refine ⟨hsound.leftover place, fun ⟨hartefact, ⟨kind, hstood⟩, houter⟩ => ?_⟩
  by_cases hin : place ∈ t.cleanup.announced
  · exact hin
  · -- Nothing that was announced held the place, so it still stands, and nothing but a plain file
    -- that was announced stands there.
    have hstill : t.cleanup.tree.top.Stands place kind := by
      refine (hsound.stands_iff place kind).2 ⟨hstood, fun q hq hbefore => ?_⟩
      have hne : q ≠ place := fun heq => hin (heq ▸ hq)
      exact houter q hbefore hne (hsound.leftover q hq).1
    exact (cleanup_settled hartefact kind hstill).2

/-- There is nothing to remove from a directory that has been cleaned. -/
theorem cleanup_cleanup (t : Tree) : t.cleanup.tree.cleanup.tree = t.cleanup.tree := by
  refine (cleanup_reaches t.cleanup.tree).tree_eq ?_
  intro place hplace hfolder
  cases (cleanup_settled hplace _ hfolder).1

end Tree

/-! ## Cleaning a project -/

namespace Project

/-- Cleaning a project takes out of its tree exactly the artefacts that are directories, with all
that they hold.  Of the artefacts that stand outside of others each is announced once, plain files
too, and nothing else is.  Cleaning a second time takes out nothing. -/
theorem clean_artefacts (p : Project) :
    let r := p.clean
    (r = ⟨{ p with tree := r.project.tree }, .finished, r.log, [], []⟩ ∧
      ∀ place kind, r.project.tree.top.Stands place kind ↔ p.tree.top.Stands place kind ∧
        ∀ above, above <+: place → IsArtefact above → ¬p.tree.top.Stands above .folder) ∧
      (∃ announced : List (List Text),
        r.log = announced.flatMap (fun place => removal (p.root.join ⟨.here, place⟩)) ∧
          announced.Nodup ∧ ∀ place, place ∈ announced ↔ p.tree.top.Leftover place) ∧
      r.project.clean.project = r.project := by
  intro r
  refine ⟨⟨rfl, fun place kind => Tree.stands_cleanup⟩, ?_, ?_⟩
  · exact ⟨p.tree.cleanup.announced, rfl, p.tree.cleanup_sound.nodup,
      fun place => Tree.mem_announced_cleanup⟩
  · exact congrArg (fun tree => { p with tree }) p.tree.cleanup_cleanup

/-- A cache within a cache goes with it, and a plain file that is named as a build is stays. -/
theorem clean_artefacts_nested :
    let tree := Tree.ofTexts [Text.ofString "build", "lib/__pycache__/__pycache__/"]
    let p : Project := ⟨[], .empty, [], tree, []⟩
    let r := p.clean
    r.project.tree.top.Stands ["build"] .file ∧ r.project.tree.top.Stands ["lib"] .folder ∧
      (∀ kind, ¬r.project.tree.top.Stands ["lib", "__pycache__"] kind) ∧
      r.log = Text.ofString "[RMTREE] /build\n[RMTREE] /lib/__pycache__\n" ∧
      r.project.clean.project = r.project := by
  intro tree p r
  obtain ⟨⟨-, hstands⟩, -, hagain⟩ := p.clean_artefacts
  have hfolder : p.tree.top.Stands ["lib", "__pycache__"] .folder := by decide +kernel
  refine ⟨by decide +kernel, by decide +kernel, fun kind hstill => ?_, by decide +kernel, hagain⟩
  exact ((hstands _ kind).1 hstill).2 _ (List.prefix_refl _) (.cache ["lib"]) hfolder

end Project

end LineProtocol
