import LineProtocol.Proofs.Characters
import LineProtocol.Proofs.Resuming
import LineProtocol.Proofs.Room
import LineProtocol.Proofs.WellFormed
/-!
# Characters that are cut in two

All that a row is made of is whole characters, so a buffer from which nothing was taken
holds whole characters.  A flush that a fault interrupts may take a part of one.  From
then on the buffer begins with the end of that character, at most three bytes, until
they are taken or dropped as well; and the text of the buffer shows them as escapes.
-/

namespace LineProtocol

open Line Record

/-! ## What rows are made of -/

theorem isUtf8_of_forall_mem_numeralBytes {bs : Bytes} (h : ∀ b ∈ bs, b ∈ numeralBytes) :
    IsUtf8 bs := by
  have hascii : ∀ b ∈ numeralBytes, b.toNat < 0x80 := forall_mem_of_all (by decide)
  exact .of_ascii fun b hb => hascii b (h b hb)

theorem isUtf8_decimal (n : Int) : IsUtf8 (Decimal.bytes n) :=
  isUtf8_of_forall_mem_numeralBytes fun _ hb => mem_numeralBytes_of_mem_bytes hb

theorem isUtf8_nameBytes {t : Text} (h : Allowed .name t) : IsUtf8 (nameBytes t) :=
  .escape (forall_mem_of_all (by decide)) h.encodable

theorem ColumnKind.Denotes.isUtf8_bytes {kind : ColumnKind} {v : Value} {c : Content}
    (h : kind.Denotes v c) : IsUtf8 c.bytes := by
  cases h with
  | int => exact (isUtf8_decimal _).append (.singleton (by decide))
  | float =>
      exact isUtf8_of_forall_mem_numeralBytes fun _ hb => mem_numeralBytes_of_mem_sixPlaces hb
  | @string _ t ht =>
      have hescaped : IsUtf8 (escape escapedQuoted t.utf8) :=
        .escape (forall_mem_of_all (by decide)) ht.2.encodable
      exact .cons (by decide) (hescaped.append (.singleton (by decide)))
  | @bool _ b =>
      cases b with
      | true => exact .of_ascii (forall_mem_of_all (by decide))
      | false => exact .of_ascii (forall_mem_of_all (by decide))

namespace Call

variable {stage last : Stage} {data : Bytes}

theorem isUtf8_of_encode {call : Call} (h : call.encode stage = .ok data) : IsUtf8 data := by
  rcases exists_kind call with ⟨name, rfl⟩ | ⟨name, value, rfl⟩ | ⟨c, rfl⟩
  · obtain ⟨-, t, ht, rfl⟩ := encode_table_eq_ok_iff.1 h
    exact isUtf8_nameBytes ht.2
  · obtain ⟨-, s, ⟨hname, hvalue⟩, rfl⟩ := encode_symbol_eq_ok_iff.1 h
    have hescaped : IsUtf8 (escape escapedUnquoted s.2.utf8) :=
      .escape (forall_mem_of_all (by decide)) hvalue.2.encodable
    exact .cons (by decide) ((isUtf8_nameBytes hname.2).append (.cons (by decide) hescaped))
  · obtain ⟨-, w, ⟨hname, kind, -, hkind⟩, rfl⟩ := encode_column_eq_ok_iff.1 h
    have hseparator : (separator stage).toNat < 0x80 := by
      cases stage <;> decide
    have hvalue : IsUtf8 (equals :: w.2.bytes) := .cons (by decide) hkind.isUtf8_bytes
    exact .cons hseparator ((isUtf8_nameBytes hname.2).append hvalue)

theorem isUtf8_of_encodeAll {calls : List Call} (h : encodeAll stage calls = .ok (data, last)) :
    IsUtf8 data := by
  induction calls generalizing stage data with
  | nil =>
      cases h
      exact .nil
  | cons call calls ih =>
      obtain ⟨front, rest, hfront, hrest, rfl⟩ := encodeAll_cons_eq_ok_iff.1 h
      exact (isUtf8_of_encode hfront).append (ih hrest)

end Call

theorem Value.isUtf8_of_encodeTimestamp {timestamp : Value} {data : Bytes}
    (h : timestamp.encodeTimestamp = .ok data) : IsUtf8 data := by
  have hnewline : IsUtf8 [newline] := .singleton (by decide)
  rcases eq_of_encodeTimestamp h with rfl | ⟨n, rfl⟩
  · exact hnewline
  · exact .cons (by decide) ((isUtf8_decimal n).append hnewline)

/-! ## Buffers -/

namespace Buffer.Reachable

variable {size : Capacity} {b : Buffer}

theorem isUtf8_row (h : Reachable size b) : IsUtf8 b.row := by
  obtain ⟨calls, hcalls⟩ := h.exists_calls
  exact Call.isUtf8_of_encodeAll hcalls

/-- What the end of a row adds to the finished rows, if anything, is whole characters. -/
theorem exists_committed_endRow (h : Reachable size b) (timestamp : Value) :
    ∃ line, IsUtf8 line ∧ (b.endRow timestamp).1.committed = b.committed ++ line := by
  have hended := b.ended timestamp
  generalize b.endRow timestamp = t at hended ⊢
  cases hended with
  | reported | missing | refused | raised | endless => exact ⟨[], .nil, (List.append_nil _).symm⟩
  | finished data c _ _ hdata hc =>
      refine ⟨b.row ++ data, h.isUtf8_row.append (Value.isUtf8_of_encodeTimestamp hdata), ?_⟩
      show c.bytes = _
      rw [bytes_write? hc, bytes, List.append_assoc]

theorem truncated_committed (h : Reachable size b) :
    ∃ front t, Truncated front t b.committed := by
  induction h with
  | empty | clear => exact ⟨[], IsUtf8.nil.truncated⟩
  | @apply b _ call ih => rwa [(b.applied call).committed]
  | @endRow b hb timestamp ih =>
      obtain ⟨line, hline, hcommitted⟩ := hb.exists_committed_endRow timestamp
      obtain ⟨front, t, ht⟩ := ih
      rw [hcommitted]
      exact ⟨front, ht.append hline⟩
  | discard _ ih => exact ih
  | consume _ n ih =>
      obtain ⟨front, t, ht⟩ := ih
      exact ht.drop n
  | shrink _ hc ih =>
      obtain ⟨_, _, rfl⟩ := Option.map_eq_some_iff.1 hc
      exact ih

theorem isUtf8_bytes (h : Reachable size b) (hcommitted : IsUtf8 b.committed) :
    IsUtf8 b.bytes :=
  hcommitted.append h.isUtf8_row

theorem isUtf8_endRow (h : Reachable size b) (hcommitted : IsUtf8 b.committed)
    (timestamp : Value) : IsUtf8 (b.endRow timestamp).1.committed := by
  obtain ⟨line, hline, heq⟩ := h.exists_committed_endRow timestamp
  rw [heq]
  exact hcommitted.append hline

/-- Where nothing is taken from it, a buffer holds whole characters. -/
theorem isUtf8_run (h : Reachable size b) (hcommitted : IsUtf8 b.committed) (uses : List Use) :
    ∀ u ∈ b.run uses, IsUtf8 u.1.bytes := by
  induction uses generalizing b with
  | nil => exact List.forall_mem_nil _
  | cons use uses ih =>
      have hnext : Reachable size (b.perform use).1 ∧ IsUtf8 (b.perform use).1.committed := by
        cases use with
        | apply call =>
            refine ⟨h.apply call, ?_⟩
            show IsUtf8 (b.apply call).1.committed
            rwa [(b.applied call).committed]
        | endRow timestamp => exact ⟨h.endRow timestamp, h.isUtf8_endRow hcommitted timestamp⟩
        | clear => exact ⟨h.clear, .nil⟩
      exact List.forall_mem_cons.2 ⟨hnext.1.isUtf8_bytes hnext.2, ih hnext.1 hnext.2⟩

theorem isUtf8_mirror (h : Reachable size b) (hcommitted : IsUtf8 b.committed) (op : Operation) :
    IsUtf8 (op.mirror b).committed := by
  have hsettle : IsUtf8 b.settle.committed := by
    unfold settle
    split <;> exact hcommitted
  cases op with
  | build call =>
      show IsUtf8 (b.apply call).1.committed
      rwa [(b.applied call).committed]
  | endRow timestamp => exact h.isUtf8_endRow hcommitted timestamp
  | clear => exact .nil
  | flush => exact hsettle
  | leave failed =>
      cases failed with
      | false => exact hsettle
      | true => exact hcommitted
  | connect | close => exact hcommitted

end Buffer.Reachable

/-- A flush cuts no character in two if it returns or takes nothing. -/
theorem Buffer.Sent.isUtf8 {b c : Buffer} {taken : Bytes} {outcome : Outcome}
    (h : b.Sent taken c outcome) (hb : IsUtf8 b.committed)
    (hwhole : outcome = .ok () ∨ taken = []) : IsUtf8 c.committed := by
  rcases hwhole with rfl | rfl
  · rw [h.of_ok.2]
    exact .nil
  · rcases h.committed_eq with hc | hc <;> rwa [hc]

/-! ## Senders -/

namespace Sender

variable {s : Sender} {size : Capacity}

theorem isUtf8_perform (hs : Buffer.Reachable size s.buffer) (h : IsUtf8 s.buffer.committed)
    {op : Operation} (hwhole : (s.perform op).outcome = .ok () ∨ (s.perform op).taken = []) :
    IsUtf8 (s.perform op).sender.buffer.committed := by
  -- an operation that does not flush takes nothing
  cases hf : s.flush? op with
  | none =>
      rw [(perform_of_flush?_eq_none hf).1]
      exact hs.isUtf8_mirror h op
  | some f =>
      have hperforms := s.performs op
      obtain ⟨hbuffer, houtcome⟩ := hperforms.of_flush? hf
      rw [houtcome, hperforms.taken_of_flush? hf] at hwhole
      have hbefore : IsUtf8 f.sender.buffer.committed := by
        rcases buffer_flush? hf with hsame | ⟨timestamp, hended⟩
        · rwa [hsame]
        · rw [hended]
          exact hs.isUtf8_endRow h timestamp
      rw [hbuffer]
      exact f.goes.sent.isUtf8 hbefore hwhole

/-- While every step returns or takes nothing, no character is cut in two. -/
theorem isUtf8_afterAll (hs : Buffer.Reachable size s.buffer) (h : IsUtf8 s.buffer.committed)
    {ops : List Operation} (hwhole : ∀ u ∈ s.run ops, u.outcome = .ok () ∨ u.taken = []) :
    IsUtf8 (s.afterAll ops).buffer.committed := by
  induction ops generalizing s with
  | nil => exact h
  | cons op ops ih =>
      obtain ⟨hstep, hrest⟩ := List.forall_mem_cons.1 hwhole
      exact ih (reachable_perform hs op) (isUtf8_perform hs h hstep) hrest

/-- A buffer by itself holds whole characters.  What a sender holds is whole characters too, after
at most three bytes that are the end of one; and there are none of these unless a step took bytes
and failed since the buffer was last empty.  The text of the buffer shows each of these bytes as an
escape, and the characters as they are. -/
theorem truncated_afterAll {address size : Value} {clock : Binary64}
    (hs : (create address size clock).1 = .ok s) (ops : List Operation) :
    (∀ (c : Capacity) (uses : List Buffer.Use), ∀ u ∈ (Buffer.empty c).run uses,
        Truncated [] u.1.text u.1.bytes) ∧
      let b := (s.afterAll ops).buffer
      ∃ front t, Truncated front t b.bytes ∧
        b.text = front.flatMap (fun x => Text.ofString "\\x" ++ hexDigits 2 x.toNat) ++ t ∧
        ∀ before after, ops = before ++ after → (s.afterAll before).buffer.bytes = [] →
          (∀ u ∈ (s.afterAll before).run after, u.outcome = .ok () ∨ u.taken = []) →
            front = [] := by
  refine ⟨fun c uses u hu => ?_, ?_⟩
  · obtain ⟨t, ht⟩ := (Buffer.Reachable.empty.isUtf8_run .nil uses u hu).truncated
    have htext : u.1.text = t := ht.ofUtf8
    rwa [htext]
  · intro b
    obtain ⟨c, -, -, hreachable⟩ := reachable_of_create hs
    obtain ⟨front, t, hcommitted⟩ := (hreachable ops).truncated_committed
    obtain ⟨t', ht⟩ := hcommitted.append (hreachable ops).isUtf8_row
    refine ⟨front, t', ht, ht.ofUtf8, ?_⟩
    rintro before after rfl hempty hwhole
    -- an empty buffer is whole, and every step since keeps it so
    have hnone : (s.afterAll before).buffer.committed = [] := (List.append_eq_nil_iff.1 hempty).1
    have hafter := isUtf8_afterAll (hreachable before) (hnone ▸ .nil) hwhole
    rw [← afterAll_append] at hafter
    exact hcommitted.eq_nil_of_isUtf8 hafter

/-- The connection is lost within a character of two bytes. -/
theorem truncated_afterAll_lost :
    let ops : List Operation := [.connect .null (.ok .lost), .build (.table (.text "é")),
      .endRow Buffer.serverTime .null none, .flush .null none]
    let b := (fresh.afterAll ops).buffer
    b.text = Text.ofString "\\xa9\n" ∧ ∃ front t, Truncated front t b.bytes ∧
      b.text = front.flatMap (fun x => Text.ofString "\\x" ++ hexDigits 2 x.toNat) ++ t := by
  intro ops b
  obtain ⟨-, front, t, ht, htext, -⟩ := truncated_afterAll create_fresh ops
  refine ⟨?_, front, t, ht, htext⟩
  decide +kernel

end Sender

end LineProtocol
