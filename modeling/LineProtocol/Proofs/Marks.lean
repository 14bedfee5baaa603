import LineProtocol.Proofs.Escape
/-!
# What escaping writes and what it refuses

Escaping puts a mark before each byte with a meaning of its own and before no other, so that
without the marks the encoding of the text is left.  A value that is no text and a text without
an encoding are refused as such.  Otherwise the first byte that cannot stand in a line decides:
as no other byte of a character is ASCII, it is a character of the text.
-/

namespace LineProtocol

namespace Line

/-! ## Marks -/

/-- A byte of a line, which may stand behind a backslash that takes away its meaning. -/
structure Marked where
  escaped : Bool
  byte : UInt8
deriving DecidableEq, Repr

/-- The bytes of a line with the marks before them; none if the last backslash marks nothing. -/
def marked? : Bytes → Option (List Marked)
  | [] => some []
  | [b] => if b = backslash then none else some [⟨false, b⟩]
  | b :: c :: bs =>
    if b = backslash then (marked? bs).map (⟨true, c⟩ :: ·)
    else (marked? (c :: bs)).map (⟨false, b⟩ :: ·)

theorem marked?_backslash (b : UInt8) (bs : Bytes) :
    marked? (backslash :: b :: bs) = (marked? bs).map (⟨true, b⟩ :: ·) := by
  rw [marked?, if_pos rfl]

theorem marked?_cons {b : UInt8} (hb : b ≠ backslash) (bs : Bytes) :
    marked? (b :: bs) = (marked? bs).map (⟨false, b⟩ :: ·) := by
  cases bs with
  | nil => simp [marked?, hb]
  | cons c bs => rw [marked?, if_neg hb]

/-- What was escaped is read with a mark before each special byte. -/
theorem marked?_escape {special bs : Bytes} (h : backslash ∈ bs → backslash ∈ special) :
    marked? (escape special bs) = some (bs.map fun b => ⟨decide (b ∈ special), b⟩) := by
  induction bs with
  | nil => rfl
  | cons b bs ih =>
      have hlater := ih fun hmem => h (List.mem_cons_of_mem b hmem)
      by_cases hb : b ∈ special
      · rw [escape_cons_of_mem hb, marked?_backslash, hlater]
        simp [hb]
      · have hne : b ≠ backslash := by
          rintro rfl
          exact hb (h List.mem_cons_self)
        rw [escape_cons_of_not_mem hb, marked?_cons hne, hlater]
        simp [hb]

/-! ## Offences -/

/-- Characters that cannot stand in a line, and what is said of a text in which one comes first. -/
inductive Offence (role : TextRole) (shown : Text) : CodePoint → RowError → Prop
  | newline : Offence role shown '\n' (.lineBreak role .newline shown)
  | carriageReturn : Offence role shown '\r' (.lineBreak role .carriageReturn shown)
  | illegal {c : CodePoint} (hrole : role = .name) (hc : c ∈ illegalCharacters) :
      Offence role shown c (.illegalCharacter shown)

theorem ofByte_injective {a b : UInt8} (h : CodePoint.ofByte a = CodePoint.ofByte b) : a = b :=
  UInt8.toNat_inj.1 (congrArg CodePoint.val h)

theorem mem_illegalInName_iff {b : UInt8} :
    b ∈ illegalInName ↔ CodePoint.ofByte b ∈ illegalCharacters := by
  have hascii : ∀ ch ∈ ".?,:\\/\x00)(+*~%-".toList, ch.toNat < 0x80 :=
    forall_mem_of_all (by decide)
  constructor
  · intro h
    obtain ⟨ch, hch, rfl⟩ := List.mem_map.1 h
    rw [ofByte_toUInt8 (hascii ch hch)]
    exact List.mem_map_of_mem hch
  · intro h
    obtain ⟨ch, hch, hb⟩ := List.mem_map.1 h
    rw [← ofByte_toUInt8 (hascii ch hch)] at hb
    rw [← ofByte_injective hb]
    exact List.mem_map_of_mem hch

variable {role : TextRole} {shown : Text} {special : Bytes} {v : Value} {e : RowError}

theorem byteError?_eq_some_iff {b : UInt8} :
    byteError? role shown b = some e ↔ Offence role shown (CodePoint.ofByte b) e := by
  unfold byteError?
  constructor
  · intro h
    split at h
    · next hb =>
      cases h
      subst hb
      exact .newline
    split at h
    · next hb =>
      cases h
      subst hb
      exact .carriageReturn
    split at h
    · next hb =>
      cases h
      exact .illegal hb.1 (mem_illegalInName_iff.1 hb.2)
    · cases h
  · intro h
    generalize hc : CodePoint.ofByte b = c at h
    cases h with
    | newline =>
        obtain rfl : b = Line.newline := ofByte_injective hc
        rfl
    | carriageReturn =>
        obtain rfl : b = Line.carriageReturn := ofByte_injective hc
        rfl
    | illegal hrole hillegal =>
        have hmem := mem_illegalInName_iff.2 (hc ▸ hillegal)
        have hne : b ≠ Line.newline ∧ b ≠ Line.carriageReturn := by
          constructor <;> rintro rfl <;> revert hmem <;> decide
        rw [if_neg hne.1, if_neg hne.2, if_pos ⟨hrole, hmem⟩]

/-! ## Outcomes -/

/-- The code with which a text is refused for a character that cannot stand in it. -/
def offenceCode : TextRole → ErrorCode
  | .name => .invalidName
  | .value => .invalidValue

/-- What escaping a value for the given role comes to, where the bytes in `special` have a meaning
of their own. -/
structure Escapes (role : TextRole) (special : Bytes) (v : Value) (r : Except RowError Bytes) :
    Prop where
  succeeds_iff : (∃ out, r = .ok out) ↔ ∃ t, v.text? = some t ∧ Allowed role t
  marks : ∀ out, r = .ok out → ∃ t ms, v.text? = some t ∧ marked? out = some ms ∧
    ms.map Marked.byte = t.utf8 ∧ ∀ m ∈ ms, m.escaped = true ↔ m.byte ∈ special
  notText : v.text? = none →
    ∃ e, r = .error e ∧ e = .notText role v.typeName ∧ e.code = .invalidCall
  unencodable : ∀ t, v.text? = some t → ¬t.Encodable →
    ∃ e run, r = .error e ∧ e = .unencodable role v.quotedText run ∧ e.code = .invalidValue
  offends : ∀ t before b after e, v.text? = some t → t.Encodable →
    t.utf8 = before ++ b :: after →
    (∀ x ∈ before, ∀ e, ¬Offence role v.quotedText (CodePoint.ofByte x) e) →
    Offence role v.quotedText (CodePoint.ofByte b) e → r = .error e ∧ e.code = offenceCode role

theorem Offence.code {c : CodePoint} (h : Offence role shown c e) : e.code = offenceCode role := by
  cases h with
  | newline | carriageReturn => cases role <;> rfl
  | illegal hrole =>
      subst hrole
      rfl

theorem escapeText_of_encodable {t : Text} (ht : v.text? = some t) (h : t.Encodable) :
    escapeText role special v =
      match t.utf8.findSome? (byteError? role v.quotedText) with
      | some e => .error e
      | none => .ok (escape special t.utf8) := by
  have hencode : encodeText role v = .ok t.utf8 := by
    rw [encodeText, ht]
    show t.encode.mapError _ = _
    rw [encode_eq_ok_iff.2 ⟨h, rfl⟩]
    rfl
  rw [escapeText, hencode]
  rfl

theorem escapeText_of_not_encodable {t : Text} (ht : v.text? = some t) (h : ¬t.Encodable) :
    ∃ run, escapeText role special v = .error (.unencodable role v.quotedText run) := by
  cases hencode : t.encode with
  | ok bs => exact absurd (encode_eq_ok_iff.1 hencode).1 h
  | error run =>
      refine ⟨run, ?_⟩
      have hrun : encodeText role v = .error (.unencodable role v.quotedText run) := by
        rw [encodeText, ht]
        show t.encode.mapError _ = _
        rw [hencode]
        rfl
      rw [escapeText, hrun]
      rfl

theorem escapeText_of_offence {t : Text} {before after : Bytes} {b : UInt8}
    (ht : v.text? = some t) (henc : t.Encodable) (hsplit : t.utf8 = before ++ b :: after)
    (hbefore : ∀ x ∈ before, ∀ e, ¬Offence role v.quotedText (CodePoint.ofByte x) e)
    (hb : Offence role v.quotedText (CodePoint.ofByte b) e) :
    escapeText role special v = .error e := by
  have hnone : before.findSome? (byteError? role v.quotedText) = none := by
    rw [List.findSome?_eq_none_iff]
    intro x hx
    cases hfound : byteError? role v.quotedText x with
    | none => rfl
    | some e => exact absurd (byteError?_eq_some_iff.1 hfound) (hbefore x hx e)
  have hfirst : t.utf8.findSome? (byteError? role v.quotedText) = some e := by
    rw [hsplit, List.findSome?_append, hnone, Option.none_or, List.findSome?_cons,
      byteError?_eq_some_iff.2 hb]
  rw [escapeText_of_encodable ht henc, hfirst]

/-- In a name there is no backslash, and elsewhere it is one of the special bytes. -/
theorem escapes_escapeText (h : role = .name ∨ backslash ∈ special) (v : Value) :
    Escapes role special v (escapeText role special v) where
  succeeds_iff := by
    constructor
    · rintro ⟨out, hout⟩
      obtain ⟨t, ht, hallowed, -⟩ := escapeText_eq_ok_iff.1 hout
      exact ⟨t, ht, hallowed⟩
    · rintro ⟨t, ht, hallowed⟩
      exact ⟨_, escapeText_eq_ok_iff.2 ⟨t, ht, hallowed, rfl⟩⟩
  marks := by
    intro out hout
    obtain ⟨t, ht, hallowed, rfl⟩ := escapeText_eq_ok_iff.1 hout
    have hbackslash : backslash ∈ t.utf8 → backslash ∈ special := by
      rcases h with hrole | hspecial
      · intro hmem
        exact absurd (by decide) (Record.mem_utf8_of_illegal hallowed hrole hmem)
      · exact fun _ => hspecial
    refine ⟨t, _, ht, marked?_escape hbackslash, ?_, ?_⟩
    · rw [List.map_map]
      exact List.map_id _
    · simp
  notText := fun hnone => ⟨_, by simp [escapeText, encodeText, hnone, bind, Except.bind], rfl, rfl⟩
  unencodable := fun t ht hnot => by
    obtain ⟨run, hrun⟩ := escapeText_of_not_encodable ht hnot
    exact ⟨_, run, hrun, rfl, rfl⟩
  offends := fun t before b after e ht henc hsplit hbefore hb =>
    ⟨escapeText_of_offence ht henc hsplit hbefore hb, hb.code⟩

/-- Names are escaped at spaces, equals signs and double quotes, values outside quotes at commas
and backslashes as well, and quoted values at double quotes and backslashes alone. -/
theorem escaping_exact (v : Value) :
    Escapes .name (ascii " =\"") v (escapeName v) ∧
      Escapes .value (ascii " ,=\"\\") v (escapeUnquoted v) ∧
      Escapes .value (ascii "\"\\") v (escapeQuoted v) := by
  have hname : ascii " =\"" = escapedInName := by decide
  have hunquoted : ascii " ,=\"\\" = escapedUnquoted := by decide
  have hquoted : ascii "\"\\" = escapedQuoted := by decide
  rw [hname, hunquoted, hquoted]
  exact ⟨escapes_escapeText (.inl rfl) v, escapes_escapeText (.inr (by decide)) v,
    escapes_escapeText (.inr (by decide)) v⟩

end Line

end LineProtocol
