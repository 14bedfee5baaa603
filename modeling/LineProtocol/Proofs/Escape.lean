import LineProtocol.Proofs.Encoding
import LineProtocol.Record.Reader
/-!
# Escaping and reading back

Which texts can stand in a line, said of their characters, and what a delimited
reader makes of them once they are escaped.  Escaping works on bytes, which is
sound because every special character is ASCII.
-/

namespace LineProtocol

namespace Line

/-- The characters that no name may hold, line breaks apart. -/
def illegalCharacters : Text := Text.ofString ".?,:\\/\x00)(+*~%-"

/-- Texts that can stand in a line in the given role. -/
structure Allowed (role : TextRole) (t : Text) : Prop where
  encodable : t.Encodable
  newline : CodePoint.ofChar '\n' ∉ t
  carriageReturn : CodePoint.ofChar '\r' ∉ t
  legal : role = .name → ∀ c ∈ t, c ∉ illegalCharacters

theorem ofByte_toUInt8 {ch : Char} (h : ch.toNat < 0x80) :
    CodePoint.ofByte ch.toUInt8 = CodePoint.ofChar ch := by
  have htoNat : ch.toUInt8.toNat = ch.toNat % 256 := rfl
  apply CodePoint.ext
  rw [CodePoint.val_ofByte, CodePoint.val_ofChar, htoNat]
  omega

/-- A text holds none of some ASCII characters if its encoding holds none of their bytes. -/
theorem forall_utf8_not_mem_iff {s : List Char} (hs : ∀ ch ∈ s, ch.toNat < 0x80) {t : Text} :
    (∀ b ∈ t.utf8, b ∉ s.map Char.toUInt8) ↔ ∀ c ∈ t, c ∉ s.map CodePoint.ofChar := by
  have hbyte : ∀ ch ∈ s, (ch.toUInt8 ∈ t.utf8 ↔ CodePoint.ofChar ch ∈ t) := by
    intro ch hch
    have hlt := hs ch hch
    rw [← ofByte_toUInt8 hlt]
    apply Text.mem_utf8_iff_of_lt
    have hval := congrArg CodePoint.val (ofByte_toUInt8 hlt)
    simp only [CodePoint.val_ofByte, CodePoint.val_ofChar] at hval
    omega
  constructor
  · intro h c hc hmem
    obtain ⟨ch, hch, rfl⟩ := List.mem_map.1 hmem
    exact h _ ((hbyte ch hch).2 hc) (List.mem_map_of_mem hch)
  · intro h b hb hmem
    obtain ⟨ch, hch, rfl⟩ := List.mem_map.1 hmem
    exact h _ ((hbyte ch hch).1 hb) (List.mem_map_of_mem hch)

theorem forall_not_mem_illegalInName_iff {t : Text} :
    (∀ b ∈ t.utf8, b ∉ illegalInName) ↔ ∀ c ∈ t, c ∉ illegalCharacters :=
  forall_utf8_not_mem_iff (forall_mem_of_all (by decide))

theorem newline_mem_utf8_iff {t : Text} :
    newline ∈ t.utf8 ↔ CodePoint.ofChar '\n' ∈ t :=
  Text.mem_utf8_iff_of_lt (by decide)

theorem carriageReturn_mem_utf8_iff {t : Text} :
    carriageReturn ∈ t.utf8 ↔ CodePoint.ofChar '\r' ∈ t :=
  Text.mem_utf8_iff_of_lt (by decide)

theorem byteError?_eq_none_iff {role : TextRole} {shown : Text} {b : UInt8} :
    byteError? role shown b = none ↔
      b ≠ newline ∧ b ≠ carriageReturn ∧ (role = .name → b ∉ illegalInName) := by
  unfold byteError?
  by_cases hn : b = newline
  · simp [hn]
  by_cases hr : b = carriageReturn
  · rw [if_neg hn, if_pos hr]
    simp [hr]
  · rw [if_neg hn, if_neg hr]
    simp [hn, hr]

theorem findSome?_byteError?_eq_none_iff {role : TextRole} {shown t : Text}
    (h : t.Encodable) : t.utf8.findSome? (byteError? role shown) = none ↔ Allowed role t := by
  simp only [List.findSome?_eq_none_iff, byteError?_eq_none_iff]
  constructor
  · intro hb
    refine ⟨h, ?_, ?_, ?_⟩
    · rw [← newline_mem_utf8_iff]
      exact fun hmem => (hb _ hmem).1 rfl
    · rw [← carriageReturn_mem_utf8_iff]
      exact fun hmem => (hb _ hmem).2.1 rfl
    · intro hrole
      exact forall_not_mem_illegalInName_iff.1 fun b hmem => (hb b hmem).2.2 hrole
  · intro ha b hmem
    refine ⟨?_, ?_, ?_⟩
    · rintro rfl
      exact ha.newline (newline_mem_utf8_iff.1 hmem)
    · rintro rfl
      exact ha.carriageReturn (carriageReturn_mem_utf8_iff.1 hmem)
    · intro hrole
      exact forall_not_mem_illegalInName_iff.2 (ha.legal hrole) b hmem

/-- Escaping succeeds on the texts that can stand in a line. -/
theorem escapeText_eq_ok_iff {role : TextRole} {special : Bytes} {v : Value} {out : Bytes} :
    escapeText role special v = .ok out ↔
      ∃ t, v.text? = some t ∧ Allowed role t ∧ out = escape special t.utf8 := by
  unfold escapeText encodeText
  cases ht : v.text? with
  | none => simp [bind, Except.bind]
  | some t =>
      cases he : t.encode with
      | error run =>
          have hne : ¬t.Encodable := fun h => by
            rw [encode_eq_ok_iff.2 ⟨h, rfl⟩] at he
            contradiction
          have hna : ¬Allowed role t := fun h => hne h.encodable
          simp [Except.mapError, bind, Except.bind, he, hna]
      | ok bs =>
          obtain ⟨henc, rfl⟩ := encode_eq_ok_iff.1 he
          simp only [Except.mapError, bind, Except.bind, he, Option.some.injEq,
            exists_eq_left']
          cases hf : t.utf8.findSome? (byteError? role v.quotedText) with
          | none =>
              have ha := (findSome?_byteError?_eq_none_iff henc).1 hf
              simp [ha, eq_comm]
          | some e =>
              have hna : ¬Allowed role t := fun h => by
                rw [(findSome?_byteError?_eq_none_iff henc).2 h] at hf
                contradiction
              simp [hna]

theorem mem_escape_iff {special bs : Bytes} {b : UInt8} (hb : b ≠ backslash) :
    b ∈ escape special bs ↔ b ∈ bs := by
  induction bs with
  | nil => simp
  | cons c bs ih =>
      by_cases hc : c ∈ special
      · rw [escape_cons_of_mem hc]
        simp [hb, ih]
      · rw [escape_cons_of_not_mem hc]
        simp [ih]

theorem newline_not_mem_escape {role : TextRole} {special : Bytes} {t : Text}
    (h : Allowed role t) : newline ∉ escape special t.utf8 := by
  rw [mem_escape_iff (by decide), newline_mem_utf8_iff]
  exact h.newline

end Line

namespace Record

open Line

theorem readUntil?_of_mem {ends : Bytes} {b : UInt8} (hb : b ∈ ends) (bs : Bytes) :
    readUntil? ends (b :: bs) = some ([], b :: bs) := by
  cases bs with
  | nil => simp [readUntil?, hb]
  | cons c bs => simp [readUntil?, hb]

theorem readUntil?_escaped {ends : Bytes} (hends : backslash ∉ ends) (c : UInt8) (bs : Bytes) :
    readUntil? ends (backslash :: c :: bs) =
      (readUntil? ends bs).map fun (t, rest) => (c :: t, rest) := by
  simp [readUntil?, hends]

theorem readUntil?_plain {ends : Bytes} {b : UInt8} (hb : b ∉ ends) (hslash : b ≠ backslash)
    (bs : Bytes) :
    readUntil? ends (b :: bs) = (readUntil? ends bs).map fun (t, rest) => (b :: t, rest) := by
  cases bs with
  | nil => simp [readUntil?, hb, hslash]
  | cons c bs => simp [readUntil?, hb, hslash]

/-- What was escaped is read back up to the byte that ends it. -/
theorem readUntil?_escape {ends special bs : Bytes} {b : UInt8} (hends : backslash ∉ ends)
    (hspecial : ∀ x ∈ bs, x ∈ ends ∨ x = backslash → x ∈ special) (hb : b ∈ ends)
    (rest : Bytes) :
    readUntil? ends (escape special bs ++ b :: rest) = some (bs, b :: rest) := by
  induction bs with
  | nil => exact readUntil?_of_mem hb rest
  | cons x bs ih =>
      have htail := ih fun y hy => hspecial y (List.mem_cons_of_mem x hy)
      by_cases hx : x ∈ special
      · rw [escape_cons_of_mem hx]
        simp only [List.cons_append]
        rw [readUntil?_escaped hends, htail]
        rfl
      · have hplain : x ∉ ends ∧ x ≠ backslash := by
          rw [← not_or]
          exact fun h => hx (hspecial x (by simp) h)
        rw [escape_cons_of_not_mem hx, List.cons_append,
          readUntil?_plain hplain.1 hplain.2, htail]
        rfl

/-- Bytes that need no escapes are read up to the byte that ends them. -/
theorem readUntil?_append {ends bs : Bytes} {b : UInt8} (hends : backslash ∉ ends)
    (hplain : ∀ x ∈ bs, x ∉ ends ∧ x ≠ backslash) (hb : b ∈ ends) (rest : Bytes) :
    readUntil? ends (bs ++ b :: rest) = some (bs, b :: rest) := by
  have hescape : escape [] bs = bs := by
    simp [escape]
  have hspecial : ∀ x ∈ bs, x ∈ ends ∨ x = backslash → x ∈ ([] : Bytes) :=
    fun x hx hor => (hor.elim (hplain x hx).1 (hplain x hx).2).elim
  have h := readUntil?_escape hends hspecial hb rest
  rwa [hescape] at h

theorem backslash_not_mem_delimiters : backslash ∉ delimiters := by decide

theorem mem_utf8_of_illegal {role : TextRole} {t : Text} (h : Allowed role t)
    (hrole : role = .name) {b : UInt8} (hb : b ∈ t.utf8) : b ∉ illegalInName :=
  forall_not_mem_illegalInName_iff.2 (h.legal hrole) b hb

theorem readUntil?_nameBytes {name : Text} (h : Allowed .name name) {b : UInt8}
    (hb : b ∈ delimiters) (rest : Bytes) :
    readUntil? delimiters (nameBytes name ++ b :: rest) = some (name.utf8, b :: rest) := by
  apply readUntil?_escape backslash_not_mem_delimiters _ hb
  intro x hx hor
  have hlegal := mem_utf8_of_illegal h rfl hx
  have hnewline : x ≠ newline := by
    rintro rfl
    exact h.newline (newline_mem_utf8_iff.1 hx)
  have hcomma : x ≠ comma := by
    rintro rfl
    exact hlegal (by decide)
  have hslash : x ≠ backslash := by
    rintro rfl
    exact hlegal (by decide)
  simp only [delimiters, List.mem_cons, List.not_mem_nil, or_false, hnewline, hcomma, hslash,
    false_or] at hor
  simp only [escapedInName, List.mem_cons, List.not_mem_nil, or_false]
  exact hor.imp_right Or.inl

theorem readUntil?_escapedUnquoted {t : Text} (h : Allowed .value t) {b : UInt8}
    (hb : b ∈ delimiters) (rest : Bytes) :
    readUntil? delimiters (escape escapedUnquoted t.utf8 ++ b :: rest) =
      some (t.utf8, b :: rest) := by
  apply readUntil?_escape backslash_not_mem_delimiters _ hb
  intro x hx hor
  have hnewline : x ≠ newline := by
    rintro rfl
    exact h.newline (newline_mem_utf8_iff.1 hx)
  simp only [delimiters, List.mem_cons, List.not_mem_nil, or_false, hnewline] at hor
  simp only [escapedUnquoted, List.mem_cons, List.not_mem_nil, or_false]
  rcases hor with (rfl | rfl | rfl) | rfl <;> simp

theorem readUntil?_escapedQuoted (bs rest : Bytes) :
    readUntil? [doubleQuote] (escape escapedQuoted bs ++ doubleQuote :: rest) =
      some (bs, doubleQuote :: rest) := by
  apply readUntil?_escape (by decide) _ (by simp)
  intro x _ hor
  simpa [escapedQuoted] using hor

end Record

end LineProtocol
