import LineProtocol.Proofs.Leaving
import LineProtocol.Proofs.Sessions
/-!
# Blocks

A block connects, composes and sends rows, flushes at its end and closes the connection.
Where the timeout of the connection can always be changed and its other faults come from
the operating system, only a flush that is interrupted ends such a block early.  Then
some finished rows are left.  So a block returns if and only if all of its rows were
taken, and what was taken is the beginning of these rows in any case.
-/

namespace LineProtocol

/-! ## Steady connections -/

/-- A connection whose timeout can always be changed, and whose other faults come from the operating
system. -/
structure Connection.Steady (c : Connection) : Prop where
  sends : ∀ reply ∈ c.sends, ∀ fault, reply.answer = .error fault → fault.kind.isSystem = true
  timeouts : ∀ fault, some fault ∉ c.timeouts

namespace Connection.Steady

variable {c : Connection}

theorem regular (h : c.Steady) : c.Regular :=
  ⟨h.sends, fun fault hf => absurd hf (h.timeouts fault)⟩

theorem lifts (h : c.Steady) : c.timeouts.head?.join = none := by
  obtain ⟨sends, _ | ⟨_ | fault, timeouts⟩⟩ := c
  · rfl
  · rfl
  · exact absurd List.mem_cons_self (h.timeouts fault)

theorem lifted (h : c.Steady) : Steady { c with timeouts := c.timeouts.tail } :=
  ⟨h.sends, fun fault hf => h.timeouts fault (List.mem_of_mem_tail hf)⟩

end Connection.Steady

/-- An attempt to connect that leads to a steady connection or fails as the operating system
does. -/
def Connection.IsSteadyReply : Except Fault Connection → Prop
  | .error fault => fault.kind.isSystem = true
  | .ok c => c.Steady

/-- Calls use replies up, and no others come in their place. -/
theorem Channel.steady_after {k : Channel} (h : k.replies.Steady) (events : List Event) :
    (k.after events).replies.Steady := by
  induction events generalizing k with
  | nil => exact h
  | cons e events ih =>
      refine ih (k := k.next e) ?_
      cases e with
      | setTimeout => exact h.lifted
      | send => exact ⟨fun reply hreply => h.sends reply (List.mem_of_mem_tail hreply), h.timeouts⟩
      | connect | close | log => exact h

/-- A sender with a steady connection and a buffer that never runs out of room. -/
structure Sender.Steady (s : Sender) : Prop where
  connection : ∃ c, s.connection = some c ∧ c.Steady
  boundless : s.buffer.Boundless

/-- A step that returns, or ends with an error and leaves finished rows. -/
inductive Step.Halts (t : Step) : Prop
  | returned (h : t.outcome = .ok ())
  | interrupted {e : SenderError} (h : t.outcome = .error (.error e))
      (hrest : t.sender.buffer.committed ≠ [])

namespace Sender

variable {s : Sender}

theorem Steady.connected (h : s.Steady) : s.connection ≠ none := by
  obtain ⟨c, hc, -⟩ := h.connection
  rw [hc]
  exact nofun

theorem Steady.regular (h : s.Steady) : s.Regular := by
  obtain ⟨c, hc, hsteady⟩ := h.connection
  intro d hd
  rw [← Option.some.inj (hc.symm.trans hd)]
  exact hsteady.regular

theorem transmit_halts {c : Connection} (hc : c.Steady) (hb : s.buffer.Boundless)
    (deadline : Option Deadline) : (s.transmit deadline c).Halts := by
  have hsound := s.sound_transfer deadline c
  have hshort : (s.transfer deadline c).fault ≠ none →
      (s.transfer deadline c).sent < s.buffer.committed.length := Transfer.sent_lt_of_fault
  have htransmits := s.transmits deadline c
  generalize s.transfer deadline c = t at hsound hshort htransmits
  generalize s.transmit deadline c = u at htransmits ⊢
  cases htransmits with
  | interrupted h =>
      refine .interrupted rfl fun hnil => ?_
      have hle := List.drop_eq_nil_iff.1 hnil
      have hlt := hshort (by rw [h]; exact nofun)
      omega
  | raised h hother => exact nomatch hother.symm.trans (hsound.isSystem hc.regular _ h)
  | endless _ hnone =>
      obtain ⟨b, hb, -⟩ := (hb.consume _).exists_shrink?
      exact nomatch hnone.symm.trans hb
  | finished => exact .returned rfl

theorem flush_halts (hs : s.Steady) (hpending : s.buffer.pending = none) :
    (s.flush .null none).Halts := by
  obtain ⟨c, hc, hsteady⟩ := hs.connection
  have hgoes := Flush.goes ⟨s, .null, none⟩
  change (Flush.step ⟨s, .null, none⟩).Halts
  generalize Flush.step ⟨s, .null, none⟩ = t at hgoes ⊢
  cases hgoes with
  | reported h => exact nomatch hpending.symm.trans h
  | unconnected _ h => exact nomatch h.symm.trans hc
  | cancelled _ h => contradiction
  | delivers _ _ hd hdelivers =>
      obtain rfl := Option.some.inj (hc.symm.trans hd)
      cases hdelivers with
      | unlifted _ hfault => exact nomatch hsteady.lifts.symm.trans hfault
      | lifted =>
          cases transmit_halts hsteady.lifted hs.boundless none with
          | returned h => exact .returned h
          | interrupted h hrest => exact .interrupted h hrest
      | uncounted hnull | passed hnull | overlong hnull | limited hnull => exact absurd rfl hnull

theorem endRow_halts (hs : s.Steady) {timestamp : Value}
    (h : (s.buffer.endRow timestamp).2 = .ok ()) : (s.endRow timestamp .null none).Halts := by
  have hboundless := (hs.boundless.endRow timestamp).1
  have hpending := (s.buffer.ended timestamp).pending_of_ok h
  rcases hb : s.buffer.endRow timestamp with ⟨b, outcome⟩
  rw [hb] at h hboundless hpending
  obtain rfl : outcome = .ok () := h
  rw [endRow_of_ok hb]
  split
  · exact flush_halts ⟨hs.connection, hboundless⟩ hpending
  · exact .returned rfl

end Sender

/-! ## Operations of a block -/

/-- Whether an operation composes or sends rows, without a limit of time, and would return on
contents from which nothing is ever sent. -/
def Operation.returnsOn (c : Contents) : Operation → Bool
  | build call => ((c.apply call).2 matches .ok ())
  | endRow timestamp .null none => ((c.endRow timestamp).2 matches .ok ())
  | flush .null none => c.pending.isNone
  | _ => false

/-- What operations do to contents from which nothing is ever sent. -/
def Contents.followAll (ops : List Operation) (c : Contents) : Contents :=
  ops.foldl (fun c op => op.follow c) c

/-- Whether every one of some operations returns on contents from which nothing is ever sent. -/
def Contents.returns : List Operation → Contents → Bool
  | [], _ => true
  | op :: ops, c => op.returnsOn c && (op.follow c).returns ops

theorem Operation.cases_of_returnsOn {op : Operation} {c : Contents} (h : op.returnsOn c = true) :
    (∃ call, op = build call ∧ (c.apply call).2 = .ok ()) ∨
      (∃ timestamp, op = endRow timestamp .null none ∧ (c.endRow timestamp).2 = .ok ()) ∨
      op = flush .null none ∧ c.pending = none := by
  unfold returnsOn at h
  split at h
  · next call =>
    refine Or.inl ⟨call, rfl, ?_⟩
    split at h
    · assumption
    · contradiction
  · next timestamp =>
    refine Or.inr (Or.inl ⟨timestamp, rfl, ?_⟩)
    split at h
    · assumption
    · contradiction
  · exact Or.inr (Or.inr ⟨rfl, Option.isNone_iff_eq_none.1 h⟩)
  · contradiction

theorem Operation.regular_of_returnsOn {op : Operation} {c : Contents}
    (h : op.returnsOn c = true) : op.Regular ∧ op ≠ .clear := by
  rcases cases_of_returnsOn h with ⟨call, rfl, -⟩ | ⟨timestamp, rfl, -⟩ | ⟨rfl, -⟩ <;>
    exact ⟨trivial, nofun⟩

/-- Such an operation only adds finished rows. -/
theorem Operation.committed_follow {op : Operation} {c : Contents} (h : op.returnsOn c = true) :
    c.committed <+: (op.follow c).committed := by
  rcases cases_of_returnsOn h with ⟨call, rfl, -⟩ | ⟨timestamp, rfl, -⟩ | ⟨rfl, -⟩
  · have hsame : (c.apply call).1.committed = c.committed := by
      rcases c.apply_cases call with hc | ⟨e, hc⟩ | ⟨data, -, hc⟩ <;> rw [hc]
    exact hsame ▸ List.prefix_rfl
  · show c.committed <+: (c.endRow timestamp).1.committed
    rcases c.endRow_cases timestamp with ⟨f, hc⟩ | ⟨f, hc⟩ | ⟨data, -, hc⟩
    · exact hc ▸ List.prefix_rfl
    · exact hc ▸ List.prefix_rfl
    · exact hc ▸ List.prefix_append _ _
  · exact c.committed_settle ▸ List.prefix_rfl

theorem Operation.returnsOn_prepend (op : Operation) (front : Bytes) (c : Contents) :
    op.returnsOn (c.prepend front) = op.returnsOn c := by
  unfold returnsOn
  split
  · rw [Contents.prepend_apply]
  · rw [Contents.prepend_endRow]
  · rfl
  · rfl

theorem Contents.committed_followAll {ops : List Operation} {c : Contents}
    (h : c.returns ops = true) : c.committed <+: (c.followAll ops).committed := by
  induction ops generalizing c with
  | nil => exact List.prefix_rfl
  | cons op ops ih =>
      obtain ⟨hop, hops⟩ := Bool.and_eq_true_iff.1 h
      exact (Operation.committed_follow hop).trans (ih hops)

/-- A step of a block that would lead to the contents `c` if nothing were ever sent, where `front`
was taken before.  It returns, or it is interrupted with finished rows left. -/
structure Step.Proceeds (front : Bytes) (c : Contents) (t : Step) : Prop where
  turns : t.turns = []
  connected : t.sender.connection ≠ none
  ends : (t.outcome = .ok () ∧ t.sender.Steady ∧
      c = t.sender.buffer.contents.prepend (front ++ t.taken)) ∨
    ∃ e rest, t.outcome = .error (.error e) ∧ rest ≠ [] ∧
      front ++ t.taken ++ rest <+: c.committed

namespace Step

variable {t : Step} {next : Sender → Step} {c d : Contents} {front : Bytes}

theorem andThen_of_error {f : Failure} (h : t.outcome = .error f) : t.andThen next = t := by
  unfold andThen
  rw [h]

theorem andThen_of_ok (h : t.outcome = .ok ()) :
    t.andThen next =
      ⟨(next t.sender).sender, t.events ++ (next t.sender).events, (next t.sender).outcome⟩ := by
  unfold andThen
  rw [h]

theorem andThen_done (t : Step) : t.andThen (Sender.done []) = t := by
  obtain ⟨s, events, outcome⟩ := t
  cases outcome with
  | error f => rfl
  | ok => exact congrArg (fun events => Step.mk s events _) (List.append_nil events)

theorem andThen_assoc (t : Step) (next last : Sender → Step) :
    (t.andThen next).andThen last = t.andThen fun s => (next s).andThen last := by
  cases h : t.outcome with
  | error f => rw [andThen_of_error h, andThen_of_error h, andThen_of_error h]
  | ok =>
      rw [andThen_of_ok h, andThen_of_ok h]
      cases hnext : (next t.sender).outcome with
      | error f =>
          rw [andThen_of_error hnext, andThen_of_error (f := f) rfl, hnext]
      | ok =>
          rw [andThen_of_ok hnext, andThen_of_ok rfl]
          simp only [List.append_assoc]

/-- One step of a block after the other. -/
theorem Proceeds.andThen (h : t.Proceeds front c) (hgrows : c.committed <+: d.committed)
    (hnext : ∀ s : Sender, s.Steady → ∀ front, c = s.buffer.contents.prepend front →
      (next s).Proceeds front d) : (t.andThen next).Proceeds front d := by
  rcases h.ends with ⟨hok, hsteady, hcontents⟩ | ⟨e, rest, herror, hrest, hprefix⟩
  · obtain ⟨hturns, hconnected, hends⟩ := hnext t.sender hsteady _ hcontents
    have htaken : (t.andThen next).taken = t.taken ++ (next t.sender).taken := by
      rw [andThen_of_ok hok]
      exact List.flatMap_append
    rw [List.append_assoc, ← htaken] at hends
    rw [andThen_of_ok hok] at hends ⊢
    refine ⟨?_, hconnected, hends⟩
    show (t.events ++ (next t.sender).events).filterMap Event.turn? = []
    rw [List.filterMap_append, show t.events.filterMap Event.turn? = [] from h.turns]
    exact hturns
  · rw [andThen_of_error herror]
    exact ⟨h.turns, h.connected, Or.inr ⟨e, rest, herror, hrest, hprefix.trans hgrows⟩⟩

end Step

namespace Sender

variable {s : Sender} {c : Contents} {front : Bytes} {op : Operation} {ops : List Operation}

theorem halts_of_returnsOn (hs : s.Steady) (h : op.returnsOn s.buffer.contents = true) :
    (s.perform op).Halts ∧ s.Begins op (s.perform op) := by
  rcases Operation.cases_of_returnsOn h with
    ⟨call, rfl, hcall⟩ | ⟨timestamp, rfl, hrow⟩ | ⟨rfl, hpending⟩
  · rw [Buffer.contents_apply (hs.boundless.apply call).2] at hcall
    exact ⟨.returned hcall, build_begins call⟩
  · rw [Buffer.contents_endRow (hs.boundless.endRow timestamp).2] at hrow
    exact ⟨endRow_halts hs hrow, endRow_begins timestamp .null none⟩
  · exact ⟨flush_halts hs hpending, .flush (f := ⟨s, .null, none⟩) rfl⟩

/-- An operation of a block. -/
theorem perform_proceeds (hs : s.Steady) (hc : c = s.buffer.contents.prepend front)
    (hop : op.returnsOn c = true) : (s.perform op).Proceeds front (op.follow c) := by
  obtain ⟨hregular, hclear⟩ := Operation.regular_of_returnsOn hop
  rw [hc, Operation.returnsOn_prepend] at hop
  obtain ⟨hhalts, hbegins⟩ := halts_of_returnsOn hs hop
  have hdelivers := perform_delivers hregular s
  obtain ⟨hboundless, hends⟩ := hdelivers.ends hs.boundless
  -- interrupted or not, what was taken and what is left are what the contents hold
  have hcontents : op.follow c =
      (s.perform op).sender.buffer.contents.prepend (front ++ (s.perform op).taken) := by
    rw [hc, Operation.follow_prepend hclear, hdelivers.contents hs.regular hends]
    simp [Contents.prepend]
  -- calls leave the connection as its replies say, which is steady again
  obtain ⟨d, hd, hsteady⟩ := hs.connection
  have hexchanges := hbegins.connected (k := ⟨d, none, s.clock⟩) ⟨hd, rfl⟩
  have hlater := hexchanges.uses.connection
  refine ⟨turns_of_answers hexchanges.answers, by rw [hlater]; exact Option.some_ne_none _, ?_⟩
  cases hhalts with
  | returned h =>
      exact Or.inl ⟨h, ⟨⟨_, hlater, Channel.steady_after hsteady _⟩, hboundless⟩, hcontents⟩
  | interrupted h hrest =>
      refine Or.inr ⟨_, _, h, hrest, ?_⟩
      rw [hcontents]
      exact List.prefix_rfl

theorem done_andThen (next : Sender → Step) (s : Sender) : (s.done []).andThen next = next s := rfl

theorem foldl_andThen (ops : List Operation) (t : Step) :
    ops.foldl (fun step op => step.andThen (perform op)) t = t.andThen (performAll ops) := by
  induction ops generalizing t with
  | nil => exact t.andThen_done.symm
  | cons op ops ih =>
      have hops : performAll (op :: ops) = fun s => (s.perform op).andThen (performAll ops) := by
        funext s
        show ops.foldl _ ((s.done []).andThen (perform op)) = _
        rw [ih, done_andThen]
      rw [List.foldl_cons, ih, Step.andThen_assoc, hops]

theorem performAll_cons (op : Operation) (ops : List Operation) (s : Sender) :
    s.performAll (op :: ops) = (s.perform op).andThen (performAll ops) :=
  foldl_andThen ops (s.perform op)

theorem performAll_concat (ops : List Operation) (op : Operation) (s : Sender) :
    s.performAll (ops ++ [op]) = (s.performAll ops).andThen (perform op) :=
  List.foldl_append

/-- The operations of a block up to the first that fails. -/
theorem performAll_proceeds (hs : s.Steady) (hc : c = s.buffer.contents.prepend front)
    (hops : c.returns ops = true) : (s.performAll ops).Proceeds front (c.followAll ops) := by
  induction ops generalizing s c front with
  | nil =>
      refine ⟨rfl, hs.connected, Or.inl ⟨rfl, hs, ?_⟩⟩
      rw [show (s.performAll []).taken = [] from rfl, List.append_nil]
      exact hc
  | cons op ops ih =>
      obtain ⟨hop, hrest⟩ := Bool.and_eq_true_iff.1 hops
      rw [performAll_cons]
      exact (perform_proceeds hs hc hop).andThen (Contents.committed_followAll hrest)
        fun s hs front hc => ih hs hc hrest

/-! ## Whole blocks -/

/-- A block that does not fail is flushed at its end, and the connection is closed in any case. -/
theorem within_eq (reply : Except Fault Connection) (ops : List Operation) (s : Sender) :
    s.within reply ops = (s.connect .null reply).andThen fun s =>
      (s.performAll (ops ++ [.flush .null none])).always close := by
  unfold within
  congr 1
  funext s
  rw [performAll_concat]
  obtain ⟨later, events, outcome⟩ := s.performAll ops
  cases outcome with
  | error f => rfl
  | ok =>
      show Step.always ⟨later, events, .ok ()⟩ (leave false) = _
      rw [Step.andThen_of_ok rfl]
      simp only [Step.always, List.append_assoc]
      rfl

theorem committed_of_flush {timeout : Value} {cancel : Cancellation}
    (h : (s.performAll (ops ++ [.flush timeout cancel])).outcome = .ok ()) :
    (s.performAll (ops ++ [.flush timeout cancel])).sender.buffer.committed = [] := by
  rw [performAll_concat] at h ⊢
  generalize s.performAll ops = t at h ⊢
  cases ht : t.outcome with
  | error f =>
      rw [Step.andThen_of_error ht, ht] at h
      contradiction
  | ok =>
      rw [Step.andThen_of_ok ht] at h ⊢
      have hsent := (Flush.goes ⟨t.sender, timeout, cancel⟩).sent
      rw [show (Flush.step ⟨t.sender, timeout, cancel⟩).outcome = .ok () from h] at hsent
      exact hsent.of_ok.2

end Sender

/-- Events that open a connection and close it, or do not get one, and an outcome that returns if
and only if they deliver a text.  They deliver the beginning of the text in any case, and the
outcome is no failure but an error. -/
structure Completes (text : Bytes) (events : List Event) (outcome : Outcome) : Prop where
  turns : events.filterMap Event.turn? = [] ∨ events.filterMap Event.turn? = [true, false]
  isPrefix : events.flatMap Event.taken <+: text
  ends : outcome = .ok () ∧ events.flatMap Event.taken = text ∨
    ∃ e, outcome = .error (.error e) ∧ events.flatMap Event.taken ≠ text

/-- The connection is closed after a block, and so was opened and closed. -/
theorem Step.Proceeds.completes {t : Step} {c : Contents} (h : t.Proceeds [] c)
    (hflushed : t.outcome = .ok () → t.sender.buffer.committed = []) {opening : List Event}
    (hturns : opening.filterMap Event.turn? = [true]) (htaken : opening.flatMap Event.taken = []) :
    Completes c.committed (opening ++ t.closing.events) t.outcome := by
  have hsame : (opening ++ t.closing.events).flatMap Event.taken = t.taken := by
    rw [List.flatMap_append, htaken, closing, List.flatMap_append]
    exact List.append_nil _
  refine ⟨Or.inr ?_, ?_, ?_⟩
  · show (opening ++ (t.events ++ _)).filterMap Event.turn? = _
    rw [List.filterMap_append, List.filterMap_append, hturns,
      show t.events.filterMap Event.turn? = [] from h.turns]
    rfl
  · rw [hsame]
    rcases h.ends with ⟨-, -, hc⟩ | ⟨e, rest, -, -, hprefix⟩
    · rw [hc]
      exact List.prefix_append _ _
    · exact (List.prefix_append _ _).trans hprefix
  · rw [hsame]
    rcases h.ends with ⟨hok, -, hc⟩ | ⟨e, rest, herror, hrest, hprefix⟩
    · refine Or.inl ⟨hok, ?_⟩
      have hcommitted := congrArg Contents.committed hc
      rw [show (t.sender.buffer.contents.prepend ([] ++ t.taken)).committed =
        t.taken ++ t.sender.buffer.committed from rfl, hflushed hok, List.append_nil] at hcommitted
      exact hcommitted.symm
    · -- what was taken would be the whole text, with no room for the rest
      refine Or.inr ⟨e, herror, fun heq => hrest ?_⟩
      have hlength := hprefix.length_le
      rw [List.nil_append, List.length_append, heq] at hlength
      exact List.length_eq_zero_iff.1 (by omega)

/-- Entries of the log before that make no difference. -/
theorem Completes.after_entries {text : Bytes} {events : List Event} {outcome : Outcome}
    (h : Completes text events outcome) (entries : List LogEntry) :
    Completes text (entries.map .log ++ events) outcome := by
  have hturns : (entries.map Event.log).filterMap Event.turn? = [] := by
    simp [List.filterMap_map, Event.turn?, Function.comp_def]
  have htaken : (entries.map Event.log).flatMap Event.taken = [] := by
    simp [List.flatMap_map, Event.taken]
  refine ⟨?_, ?_, ?_⟩
  · rw [List.filterMap_append, hturns, List.nil_append]
    exact h.turns
  · rw [List.flatMap_append, htaken, List.nil_append]
    exact h.isPrefix
  · rw [List.flatMap_append, htaken, List.nil_append]
    exact h.ends

/-- Where nothing happened before an error, nothing was delivered. -/
theorem completes_of_error {text : Bytes} (htext : text ≠ []) (e : SenderError) :
    Completes text [] (.error (.error e)) :=
  ⟨Or.inl rfl, List.nil_prefix, Or.inr ⟨e, rfl, htext.symm⟩⟩

namespace Sender

variable {s : Sender} {ops : List Operation}

/-- A block over a steady connection delivers all of its rows, unless it ends with an error. -/
theorem within_completes {reply : Except Fault Connection} (hnone : s.connection = none)
    (hb : s.buffer.Boundless) (hreply : Connection.IsSteadyReply reply)
    (hops : s.buffer.contents.returns (ops ++ [.flush .null none]) = true)
    (htext : (s.buffer.contents.followAll (ops ++ [.flush .null none])).committed ≠ []) :
    Completes (s.buffer.contents.followAll (ops ++ [.flush .null none])).committed
      (s.within reply ops).events (s.within reply ops).outcome := by
  have hconnects := s.connects .null reply
  rw [within_eq]
  generalize s.connect .null reply = t at hconnects ⊢
  cases hconnects with
  | already h => exact absurd hnone h
  | refused =>
      rw [Step.andThen_of_error rfl]
      exact ⟨Or.inl rfl, List.nil_prefix, Or.inr ⟨_, rfl, htext.symm⟩⟩
  | raised _ hother => exact nomatch hother.symm.trans hreply
  | abandoned _ hfault => exact nomatch (Connection.Steady.lifts hreply).symm.trans hfault
  | opened =>
      rw [Step.andThen_of_ok rfl]
      dsimp only [done]
      have hsteady : Steady { s with connection := some _ } :=
        ⟨⟨_, rfl, Connection.Steady.lifted hreply⟩, hb⟩
      have hcontents : s.buffer.contents = s.buffer.contents.prepend [] := rfl
      have hproceeds := performAll_proceeds hsteady hcontents hops
      rw [always_close hproceeds.connected]
      exact hproceeds.completes committed_of_flush rfl rfl

end Sender

end LineProtocol
