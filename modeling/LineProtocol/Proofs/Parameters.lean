import LineProtocol.Config.Params
import Mathlib.Data.List.Nodup
/-!
# Parameters and their texts

Parameters can be written down if their keys differ, are not empty and hold no equals sign,
and none but the first starts with a semicolon: after the semicolon that ends a value it
would be read as a part of that value.  There is no condition on values.

A text is read as parameters if and only if these can be written down and the text is
their rendering, with the last semicolon or without it (`parse_eq_ok_iff`).
-/

namespace LineProtocol.Params

/-- Parameters whose rendering can be read. -/
structure Writable (ps : Params) : Prop where
  nodup : (ps.map Prod.fst).Nodup
  ne_nil : ∀ p ∈ ps, p.1 ≠ []
  equals_not_mem : ∀ p ∈ ps, CodePoint.ofChar '=' ∉ p.1
  head_ne_semicolon : ∀ p ∈ ps.tail, p.1.head? ≠ some (CodePoint.ofChar ';')

instance (ps : Params) : Decidable (Writable ps) :=
  decidable_of_iff ((ps.map Prod.fst).Nodup ∧ (∀ p ∈ ps, p.1 ≠ []) ∧
    (∀ p ∈ ps, CodePoint.ofChar '=' ∉ p.1) ∧
    ∀ p ∈ ps.tail, p.1.head? ≠ some (CodePoint.ofChar ';'))
    ⟨fun h => ⟨h.1, h.2.1, h.2.2.1, h.2.2.2⟩,
      fun h => ⟨h.nodup, h.ne_nil, h.equals_not_mem, h.head_ne_semicolon⟩⟩

/-- The text writes the parameters; the last semicolon may be missing. -/
inductive Spells : Text → Params → Prop
  | nil : Spells [] []
  | last {key value : Text} :
      Spells (key ++ CodePoint.ofChar '=' :: escapeValue value) [(key, value)]
  | cons {key value t : Text} {ps : Params} (h : Spells t ps) :
      Spells (key ++ CodePoint.ofChar '=' :: (escapeValue value ++ CodePoint.ofChar ';' :: t))
        ((key, value) :: ps)

section Values

variable {c : CodePoint} {t : Text}

theorem escapeValue_semicolon (value : Text) :
    escapeValue (CodePoint.ofChar ';' :: value) =
      CodePoint.ofChar ';' :: CodePoint.ofChar ';' :: escapeValue value := rfl

theorem escapeValue_cons_of_ne (h : c ≠ CodePoint.ofChar ';') (value : Text) :
    escapeValue (c :: value) = c :: escapeValue value := by
  rw [escapeValue, List.flatMap_cons, if_neg h]
  rfl

theorem readValue_semicolon_semicolon (t : Text) :
    readValue (CodePoint.ofChar ';' :: CodePoint.ofChar ';' :: t) =
      (CodePoint.ofChar ';' :: (readValue t).1, (readValue t).2) := rfl

theorem readValue_cons_of_ne (h : c ≠ CodePoint.ofChar ';') (t : Text) :
    readValue (c :: t) = (c :: (readValue t).1, (readValue t).2) := by
  cases t <;> simp only [readValue, if_neg h]

/-- A semicolon that stands alone ends a value. -/
theorem readValue_semicolon (h : t.head? ≠ some (CodePoint.ofChar ';')) :
    readValue (CodePoint.ofChar ';' :: t) = ([], t) := by
  cases t with
  | nil => rfl
  | cons d t =>
      have hd : d ≠ CodePoint.ofChar ';' := fun hd => h (congrArg some hd)
      rw [readValue, if_pos rfl, if_neg hd]

/-- An escaped value is read as a whole, whatever follows it. -/
theorem readValue_escapeValue_append (value t : Text) :
    readValue (escapeValue value ++ t) = (value ++ (readValue t).1, (readValue t).2) := by
  induction value with
  | nil => rfl
  | cons c value ih =>
      by_cases hc : c = CodePoint.ofChar ';'
      · rw [hc, escapeValue_semicolon, List.cons_append, List.cons_append,
          readValue_semicolon_semicolon, ih]
        rfl
      · rw [escapeValue_cons_of_ne hc, List.cons_append, readValue_cons_of_ne hc, ih]
        rfl

/-- What is read of a text is its escaped value: all of it, or up to a semicolon. -/
theorem readValue_cases (t : Text) :
    t = escapeValue (readValue t).1 ∧ (readValue t).2 = [] ∨
      t = escapeValue (readValue t).1 ++ CodePoint.ofChar ';' :: (readValue t).2 ∧
        (readValue t).2.head? ≠ some (CodePoint.ofChar ';') := by
  induction t using readValue.induct with
  | case1 => exact Or.inl ⟨rfl, rfl⟩
  | case2 => exact Or.inr ⟨rfl, nofun⟩
  | case3 c hc =>
      rw [readValue_cons_of_ne hc, escapeValue_cons_of_ne hc]
      exact Or.inl ⟨rfl, rfl⟩
  | case4 rest _ _ _ ih =>
      rw [readValue_semicolon_semicolon, escapeValue_semicolon]
      exact ih.imp (And.imp_left (congrArg fun t => _ :: _ :: t))
        (And.imp_left (congrArg fun t => _ :: _ :: t))
  | case5 d rest hd =>
      have hhead : (d :: rest).head? ≠ some (CodePoint.ofChar ';') := fun h =>
        hd (Option.some.inj h)
      rw [readValue_semicolon hhead]
      exact Or.inr ⟨rfl, hhead⟩
  | case6 c d rest hc _ _ _ ih =>
      rw [readValue_cons_of_ne hc, escapeValue_cons_of_ne hc]
      exact ih.imp (And.imp_left (congrArg fun t => c :: t))
        (And.imp_left (congrArg fun t => c :: t))

theorem head?_readValue (t : Text) : (readValue t).2.head? ≠ some (CodePoint.ofChar ';') := by
  rcases readValue_cases t with ⟨-, hnil⟩ | ⟨-, hhead⟩
  · rw [hnil]
    exact nofun
  · exact hhead

end Values

section Texts

variable {t : Text} {ps : Params} {key value : Text}

theorem render_cons (key value : Text) (ps : Params) :
    render ((key, value) :: ps) =
      key ++ CodePoint.ofChar '=' :: (escapeValue value ++ CodePoint.ofChar ';' :: render ps) := by
  rw [render, List.flatMap_cons]
  simp only [List.append_assoc, List.cons_append, List.nil_append]
  rfl

theorem spells_render (ps : Params) : Spells (render ps) ps := by
  induction ps with
  | nil => exact .nil
  | cons p ps ih =>
      rw [render_cons]
      exact .cons ih

/-- The rendering ends with a semicolon, which may be left out. -/
theorem exists_spells_append (h : ps ≠ []) :
    ∃ t, render ps = t ++ [CodePoint.ofChar ';'] ∧ Spells t ps := by
  induction ps with
  | nil => exact absurd rfl h
  | cons p ps ih =>
      obtain ⟨key, value⟩ := p
      by_cases hps : ps = []
      · subst hps
        refine ⟨key ++ CodePoint.ofChar '=' :: escapeValue value, ?_, .last⟩
        rw [render_cons, List.append_assoc]
        rfl
      · obtain ⟨t, ht, hspells⟩ := ih hps
        refine ⟨key ++ CodePoint.ofChar '=' :: (escapeValue value ++ CodePoint.ofChar ';' :: t), ?_,
          .cons hspells⟩
        rw [render_cons, ht]
        simp only [List.append_assoc, List.cons_append]

theorem spells_dropLast (ps : Params) : Spells (render ps).dropLast ps := by
  by_cases hps : ps = []
  · subst hps
    exact .nil
  · obtain ⟨t, ht, hspells⟩ := exists_spells_append hps
    rw [ht, List.dropLast_concat]
    exact hspells

theorem Spells.render_eq (h : Spells t ps) :
    render ps = t ∨ render ps = t ++ [CodePoint.ofChar ';'] := by
  induction h with
  | nil => exact Or.inl rfl
  | @last key value =>
      refine Or.inr ?_
      rw [render_cons, List.append_assoc]
      rfl
  | cons h ih =>
      rw [render_cons]
      rcases ih with ih | ih
      · exact Or.inl (by rw [ih])
      · refine Or.inr ?_
        rw [ih]
        simp only [List.append_assoc, List.cons_append]

/-- A text starts like the first key in it. -/
theorem Spells.head?_eq (h : Spells t ps) (hne : ∀ p ∈ ps, p.1 ≠ []) :
    t.head? = ps.head?.bind fun p => p.1.head? := by
  cases h with
  | nil => rfl
  | last | cons h => exact List.head?_append_of_ne_nil _ (List.forall_mem_cons.1 hne).1

theorem Spells.head?_ne_iff (h : Spells t ps) (hne : ∀ p ∈ ps, p.1 ≠ []) {c : CodePoint} :
    t.head? ≠ some c ↔ ∀ p ∈ ps.head?, p.1.head? ≠ some c := by
  rw [h.head?_eq hne]
  cases ps <;> simp

theorem Spells.eq_nil (h : Spells [] ps) : ps = [] := by
  generalize ht : ([] : Text) = t at h
  cases h with
  | nil => rfl
  | last | cons => simp at ht

theorem spells_of_readValue {rest : Text} (key : Text) (h : Spells (readValue rest).2 ps) :
    Spells (key ++ CodePoint.ofChar '=' :: rest) ((key, (readValue rest).1) :: ps) := by
  have hcases := readValue_cases rest
  generalize readValue rest = r at h hcases ⊢
  rcases hcases with ⟨rfl, hnil⟩ | ⟨rfl, -⟩
  · rw [hnil] at h
    rw [h.eq_nil]
    exact .last
  · exact .cons h

theorem Writable.nil : Writable [] := ⟨List.nodup_nil, nofun, nofun, nofun⟩

theorem Writable.cons (h : Writable ps) (value : Text) (hkey : key ∉ ps.map Prod.fst)
    (hne : key ≠ []) (hequals : CodePoint.ofChar '=' ∉ key)
    (hhead : ∀ p ∈ ps.head?, p.1.head? ≠ some (CodePoint.ofChar ';')) :
    Writable ((key, value) :: ps) where
  nodup := List.nodup_cons.2 ⟨hkey, h.nodup⟩
  ne_nil := List.forall_mem_cons.2 ⟨hne, h.ne_nil⟩
  equals_not_mem := List.forall_mem_cons.2 ⟨hequals, h.equals_not_mem⟩
  head_ne_semicolon := by
    cases ps with
    | nil => exact nofun
    | cons p ps => exact List.forall_mem_cons.2 ⟨hhead p rfl, h.head_ne_semicolon⟩

theorem Writable.tail {p : Text × Text} (h : Writable (p :: ps)) : Writable ps where
  nodup := (List.nodup_cons.1 h.nodup).2
  ne_nil := (List.forall_mem_cons.1 h.ne_nil).2
  equals_not_mem := (List.forall_mem_cons.1 h.equals_not_mem).2
  head_ne_semicolon := fun q hq => h.head_ne_semicolon q (List.mem_of_mem_tail hq)

end Texts

section Reading

variable {total : Nat} {earlier ps : Params} {t key value rest : Text}

theorem readAfter_nil (total : Nat) (earlier : Params) :
    readAfter total earlier [] = .ok earlier := by
  rw [readAfter, if_pos rfl]

/-- One parameter is read, and then those that follow its value. -/
theorem readAfter_key (hne : key ≠ []) (hequals : CodePoint.ofChar '=' ∉ key)
    (hfresh : key ∉ earlier.map Prod.fst) (rest : Text) :
    readAfter total earlier (key ++ CodePoint.ofChar '=' :: rest) =
      readAfter total (earlier ++ [(key, (readValue rest).1)]) (readValue rest).2 := by
  have hcut : Text.cut? "=" (key ++ CodePoint.ofChar '=' :: rest) = some (key, rest) :=
    Text.cut?_append hequals [] rest
  rw [readAfter, if_neg (by simp)]
  split
  · next hnone =>
    rw [hcut] at hnone
    contradiction
  · next hsome =>
    cases hsome.symm.trans hcut
    rw [if_neg hne, if_neg hfresh]

theorem readAfter_eq_ok (h : readAfter total earlier t = .ok ps) :
    t = [] ∧ ps = earlier ∨ ∃ key rest, t = key ++ CodePoint.ofChar '=' :: rest ∧ key ≠ [] ∧
      CodePoint.ofChar '=' ∉ key ∧ key ∉ earlier.map Prod.fst ∧
      readAfter total (earlier ++ [(key, (readValue rest).1)]) (readValue rest).2 = .ok ps := by
  rw [readAfter] at h
  split at h
  · next ht => exact Or.inl ⟨ht, (Except.ok.inj h).symm⟩
  · split at h
    · contradiction
    · next key rest hcut =>
      obtain ⟨hequals, ht⟩ := Text.cut?_singleton_eq_some_iff.1 hcut
      split at h
      · contradiction
      · next hne =>
        split at h
        · contradiction
        · next hfresh => exact Or.inr ⟨key, rest, ht, hne, hequals, hfresh, h⟩

theorem readAfter_of_spells (h : Spells t ps) (hps : Writable ps)
    (hfresh : ∀ p ∈ ps, p.1 ∉ earlier.map Prod.fst) :
    readAfter total earlier t = .ok (earlier ++ ps) := by
  induction h generalizing earlier with
  | nil => rw [readAfter_nil, List.append_nil]
  | @last key value =>
      have hvalue : readValue (escapeValue value) = (value, []) := by
        simpa [readValue] using readValue_escapeValue_append value []
      rw [readAfter_key (List.forall_mem_cons.1 hps.ne_nil).1
        (List.forall_mem_cons.1 hps.equals_not_mem).1 (List.forall_mem_cons.1 hfresh).1, hvalue,
        readAfter_nil]
  | @cons key value t ps h ih =>
      obtain ⟨hne, hnes⟩ := List.forall_mem_cons.1 hps.ne_nil
      obtain ⟨hkey, hkeys⟩ := List.forall_mem_cons.1 hfresh
      -- the semicolon after the value stands alone, since the next key does not start with one
      have hhead : t.head? ≠ some (CodePoint.ofChar ';') :=
        (h.head?_ne_iff hnes).2 fun p hp =>
          hps.head_ne_semicolon p (List.mem_of_mem_head? hp)
      have hvalue : readValue (escapeValue value ++ CodePoint.ofChar ';' :: t) = (value, t) := by
        rw [readValue_escapeValue_append, readValue_semicolon hhead, List.append_nil]
      have hlater : ∀ p ∈ ps, p.1 ∉ (earlier ++ [(key, value)]).map Prod.fst := by
        intro p hp
        rw [List.map_append, List.mem_append, not_or]
        refine ⟨hkeys p hp, fun hmem => ?_⟩
        rw [List.map_singleton, List.mem_singleton] at hmem
        exact (List.nodup_cons.1 hps.nodup).1 (hmem ▸ List.mem_map_of_mem hp)
      rw [readAfter_key hne (List.forall_mem_cons.1 hps.equals_not_mem).1 hkey, hvalue,
        ih hps.tail hlater, List.append_assoc]
      rfl

theorem exists_of_readAfter (h : readAfter total earlier t = .ok ps) :
    ∃ later, ps = earlier ++ later ∧ Writable later ∧ Spells t later ∧
      ∀ p ∈ later, p.1 ∉ earlier.map Prod.fst := by
  -- each value takes up an unknown part of the text, so the induction is on its length
  induction hlength : t.length using Nat.strongRecOn generalizing t earlier with
  | ind n ih =>
      rcases readAfter_eq_ok h with ⟨rfl, rfl⟩ | ⟨key, rest, rfl, hne, hequals, hkey, hnext⟩
      · exact ⟨[], (List.append_nil _).symm, .nil, .nil, nofun⟩
      · have hshorter := length_readValue_le rest
        rw [List.length_append, List.length_cons] at hlength
        obtain ⟨later, rfl, hlater, hspells, hfresh⟩ := ih _ (by omega) hnext rfl
        simp only [List.map_append, List.map_singleton, List.mem_append, List.mem_singleton,
          not_or] at hfresh
        have hkeys : key ∉ later.map Prod.fst := by
          intro hmem
          obtain ⟨p, hp, rfl⟩ := List.mem_map.1 hmem
          exact (hfresh p hp).2 rfl
        have hhead := (hspells.head?_ne_iff hlater.ne_nil).1 (head?_readValue rest)
        refine ⟨(key, (readValue rest).1) :: later, List.append_assoc _ _ _,
          hlater.cons _ hkeys hne hequals hhead, spells_of_readValue key hspells, ?_⟩
        exact List.forall_mem_cons.2 ⟨hkey, fun p hp => (hfresh p hp).1⟩

/-- The texts that are read as parameters are the texts that write them. -/
theorem parse_eq_ok_iff : parse t = .ok ps ↔ Writable ps ∧ Spells t ps := by
  constructor
  · intro h
    obtain ⟨later, rfl, hlater, hspells, -⟩ := exists_of_readAfter h
    exact ⟨hlater, hspells⟩
  · rintro ⟨hps, hspells⟩
    exact readAfter_of_spells hspells hps fun _ _ => List.not_mem_nil

end Reading

/-- Reading and rendering are inverse to each other up to the last semicolon, and a text that is
no rendering is refused. -/
theorem parse_inverts_render :
    (∀ ps, Writable ps → parse (render ps) = .ok ps ∧ parse (render ps).dropLast = .ok ps) ∧
    (∀ t ps, parse t = .ok ps →
      Writable ps ∧ (render ps = t ∨ render ps = t ++ [CodePoint.ofChar ';'])) ∧
    (∀ t u ps, parse t = .ok ps → parse u = .ok ps →
      t = u ∨ t = u ++ [CodePoint.ofChar ';'] ∨ u = t ++ [CodePoint.ofChar ';']) ∧
    ∀ t, (∀ ps, Writable ps → t ≠ render ps ∧ t ≠ (render ps).dropLast) →
      ∃ e, parse t = .error e ∧ (SenderError.config e).code = .config := by
  have hread : ∀ t ps, parse t = .ok ps →
      Writable ps ∧ (render ps = t ∨ render ps = t ++ [CodePoint.ofChar ';']) := by
    intro t ps h
    obtain ⟨hps, hspells⟩ := parse_eq_ok_iff.1 h
    exact ⟨hps, hspells.render_eq⟩
  refine ⟨fun ps hps => ⟨?_, ?_⟩, hread, fun t u ps ht hu => ?_, fun t h => ?_⟩
  · exact parse_eq_ok_iff.2 ⟨hps, spells_render ps⟩
  · exact parse_eq_ok_iff.2 ⟨hps, spells_dropLast ps⟩
  · rcases (hread t ps ht).2, (hread u ps hu).2 with ⟨ht | ht, hu | hu⟩
    · exact Or.inl (ht.symm.trans hu)
    · exact Or.inr (Or.inl (ht.symm.trans hu))
    · exact Or.inr (Or.inr (hu.symm.trans ht))
    · exact Or.inl (List.append_cancel_right (ht.symm.trans hu))
  · cases hparse : parse t with
    | error e => exact ⟨e, rfl, rfl⟩
    | ok ps =>
        obtain ⟨hps, hrender | hrender⟩ := hread t ps hparse
        · exact absurd hrender.symm (h ps hps).1
        · refine absurd ?_ (h ps hps).2
          rw [hrender, List.dropLast_concat]

/-- The first key starts with a semicolon, and values end with one, with several or with none. -/
theorem parse_inverts_render_semicolons :
    let ps : Params := [(";a", ";"), ("b", "x=;;"), ("c", "")]
    let t : Text := ";a=;;;b=x=;;;;;c="
    Writable ps ∧ parse (t ++ [CodePoint.ofChar ';']) = .ok ps ∧ parse t = .ok ps := by
  intro ps t
  have hps : Writable ps := by decide
  have hrender : render ps = t ++ [CodePoint.ofChar ';'] := by decide
  obtain ⟨hread, hdrop⟩ := parse_inverts_render.1 ps hps
  rw [hrender] at hread hdrop
  rw [List.dropLast_concat] at hdrop
  exact ⟨hps, hread, hdrop⟩

end LineProtocol.Params
