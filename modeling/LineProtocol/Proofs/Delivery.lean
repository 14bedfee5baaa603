import LineProtocol.Proofs.Contents
import LineProtocol.Proofs.Transfer
import LineProtocol.Proofs.Paths
/-!
# Exactly-once delivery

Whatever a sender is asked to do, the bytes that its connections took, followed by
what it still holds, are the bytes of a buffer that was given the same calls and
never sent anything.  Each operation on a sender is an operation on contents after
which some finished bytes are missing from the front, and these are the bytes that
the operation delivered.
-/

namespace LineProtocol

/-- The bytes that connections took during a step. -/
def Step.taken (t : Step) : Bytes := t.events.flatMap Event.taken

namespace Operation

/-- An operation whose connection, if it brings one, has only faults of the operating system. -/
def Regular : Operation → Prop
  | connect _ (.ok connection) => connection.Regular
  | _ => True

/-- What an operation does to contents from which nothing is ever sent. -/
def follow : Operation → Contents → Contents
  | build call, c => (c.apply call).1
  | endRow timestamp _ _, c => (c.endRow timestamp).1
  | flush .., c | leave false, c => c.settle
  | clear, _ => .between []
  | connect .., c | leave true, c | close, c => c

/-- More finished rows in front make no difference unless all are dropped. -/
theorem follow_prepend {op : Operation} (h : op ≠ clear) (front : Bytes) (c : Contents) :
    op.follow (c.prepend front) = (op.follow c).prepend front := by
  cases op with
  | build call => exact congrArg Prod.fst (c.prepend_apply front call)
  | endRow timestamp => exact congrArg Prod.fst (c.prepend_endRow front timestamp)
  | flush => exact c.prepend_settle front
  | leave failed =>
      cases failed with
      | false => exact c.prepend_settle front
      | true => rfl
  | clear => exact absurd rfl h
  | connect => rfl
  | close => rfl

end Operation

namespace Sender

/-- A sender whose connection, if there is one, has only faults of the operating system. -/
def Regular (s : Sender) : Prop := ∀ connection, s.connection = some connection → connection.Regular

end Sender

/-- A step from `s` whose effect, apart from the bytes it delivered, is to leave `c`. -/
structure Step.Delivers (s : Sender) (c : Contents) (t : Step) : Prop where
  contents : s.Regular → t.outcome ≠ .error .endless →
    c = t.sender.buffer.contents.prepend t.taken
  regular : s.Regular → t.sender.Regular
  ends : s.buffer.Boundless → t.sender.buffer.Boundless ∧ t.outcome ≠ .error .endless

namespace Sender

variable {s : Sender}

theorem delivers_of_same {events : List Event} (h : events.flatMap Event.taken = [])
    {outcome : Outcome} (houtcome : outcome ≠ .error .endless) :
    Step.Delivers s s.buffer.contents ⟨s, events, outcome⟩ where
  contents := fun _ _ => by
    rw [Step.taken, h]
    rfl
  regular := fun hs => hs
  ends := fun hb => ⟨hb, houtcome⟩

theorem contents_eq_prepend_consume (b : Buffer) (n : Nat) :
    b.contents = (b.consume n).contents.prepend (b.committed.take n) := by
  simp [Buffer.contents, Buffer.consume, Contents.prepend]

theorem contents_shrink? {b c : Buffer} (h : b.shrink? = some c) : c.contents = b.contents := by
  obtain ⟨_, _, rfl⟩ := Option.map_eq_some_iff.1 h
  rfl

theorem transmit_delivers (deadline : Option Deadline) {connection : Connection}
    (hconnection : s.Regular → connection.Regular) :
    (s.transmit deadline connection).Delivers s s.buffer.contents := by
  have hsound := Transfer.sound_run deadline connection.sends connection.timeouts s.clock
    s.buffer.committed
  unfold transmit
  generalize Transfer.run deadline connection.sends connection.timeouts s.clock
    s.buffer.committed = t at hsound ⊢
  obtain ⟨sent, fault, later, clock, events⟩ := t
  have hregular : s.Regular → ∀ c, some later = some c → c.Regular := by
    intro hs c hc
    cases hc
    exact hsound.regular (hconnection hs)
  have htaken : events.flatMap Event.taken = s.buffer.committed.take sent := hsound.taken
  cases fault with
  | some fault =>
      dsimp only
      split
      · -- what was taken leaves the buffer
        refine ⟨fun _ _ => ?_, hregular, fun hb => ⟨hb.consume sent, nofun⟩⟩
        rw [Step.taken, fail, htaken]
        exact contents_eq_prepend_consume s.buffer sent
      · next hfault =>
        refine ⟨fun hs => ?_, hregular, fun hb => ⟨hb, nofun⟩⟩
        exact absurd (hsound.isSystem (hconnection hs) fault rfl) hfault
  | none =>
      dsimp only
      split
      · next hnone =>
        refine ⟨fun _ h => absurd rfl h, hregular, fun hb => ?_⟩
        obtain ⟨b, hsome, -⟩ := (hb.consume sent).exists_shrink?
        rw [hnone] at hsome
        contradiction
      · next b hsome =>
        refine ⟨fun _ _ => ?_, hregular, fun hb => ⟨?_, nofun⟩⟩
        · rw [Step.taken, done, List.flatMap_append, htaken, contents_shrink? hsome]
          show _ = (s.buffer.consume sent).contents.prepend (s.buffer.committed.take sent ++ [])
          rw [List.append_nil]
          exact contents_eq_prepend_consume s.buffer sent
        · obtain ⟨b', hb', hboundless⟩ := (hb.consume sent).exists_shrink?
          rw [hsome] at hb'
          cases hb'
          exact hboundless

theorem deliver_delivers (timeout : Value) {connection : Connection}
    (hconnection : s.Regular → connection.Regular) :
    (s.deliver timeout connection).Delivers s s.buffer.contents := by
  unfold deliver
  split
  · have hlater : s.Regular → connection.changeTimeout.2.Regular :=
      fun hs => (hconnection hs).changeTimeout
    dsimp only
    generalize connection.changeTimeout = reply at hlater ⊢
    rcases reply with ⟨_ | fault, later⟩
    · have ht := transmit_delivers none hlater
      exact ⟨ht.contents, ht.regular, ht.ends⟩
    · refine ⟨fun _ _ => rfl, fun hs c hc => ?_, fun hb => ⟨hb, nofun⟩⟩
      cases hc
      exact hlater hs
  · split
    · exact delivers_of_same rfl nofun
    · split
      · exact delivers_of_same rfl nofun
      · split
        · exact delivers_of_same rfl nofun
        · exact transmit_delivers _ hconnection

theorem flush_delivers (timeout : Value) (cancel : Cancellation) (s : Sender) :
    (s.flush timeout cancel).Delivers s s.buffer.contents.settle := by
  unfold flush
  cases hpending : s.buffer.pending with
  | some e =>
      have hsettle : s.buffer.contents.settle = s.buffer.discard.contents := by
        simp [Contents.settle, Buffer.contents, hpending, Contents.discard, Buffer.discard,
          Contents.between]
      rw [hsettle]
      exact ⟨fun _ _ => rfl, fun hs => hs, fun hb => ⟨hb.discard, Outcome.error_ne_endless _⟩⟩
  | none =>
      have hsettle : s.buffer.contents.settle = s.buffer.contents := by
        simp [Contents.settle, Buffer.contents, hpending]
      rw [hsettle]
      dsimp only
      split
      · exact delivers_of_same rfl (Outcome.error_ne_endless _)
      · next connection hconnection =>
        split
        · exact delivers_of_same rfl (Outcome.error_ne_endless _)
        · exact deliver_delivers timeout fun hs => hs connection hconnection

theorem endRow_of_error {timestamp : Value} {b : Buffer} {f : Failure}
    (h : s.buffer.endRow timestamp = (b, .error f)) (timeout : Value) (cancel : Cancellation) :
    s.endRow timestamp timeout cancel = ⟨{ s with buffer := b }, [], .error f⟩ := by
  unfold endRow
  rw [h]
  rfl

theorem endRow_of_ok {timestamp : Value} {b : Buffer}
    (h : s.buffer.endRow timestamp = (b, .ok ())) (timeout : Value) (cancel : Cancellation) :
    s.endRow timestamp timeout cancel =
      if isOverfull { s with buffer := b } then flush timeout cancel { s with buffer := b }
      else done [] { s with buffer := b } := by
  unfold endRow
  rw [h]
  dsimp only [Step.andThen]
  split <;> rfl

theorem endRow_delivers (timestamp timeout : Value) (cancel : Cancellation) (s : Sender) :
    (s.endRow timestamp timeout cancel).Delivers s (s.buffer.contents.endRow timestamp).1 := by
  have hends := fun hb : s.buffer.Boundless => hb.endRow timestamp
  rcases hb : s.buffer.endRow timestamp with ⟨b, f | ⟨⟩⟩
  · rw [endRow_of_error hb]
    rw [hb] at hends
    refine ⟨fun _ hne => ?_, fun hs => hs, hends⟩
    rw [Buffer.contents_endRow (by rw [hb]; exact hne), hb]
    rfl
  · have hcontents : (s.buffer.contents.endRow timestamp).1 = b.contents := by
      rw [Buffer.contents_endRow (by rw [hb]; exact nofun), hb]
    rw [endRow_of_ok hb, hcontents]
    rw [hb] at hends
    split
    · -- a row that was just finished has no error, so that flushing discards nothing
      have hsettle : b.contents.settle = b.contents := by
        rw [← hcontents]
        rcases s.buffer.contents.endRow_cases timestamp with ⟨f, hc⟩ | ⟨f, hc⟩ | ⟨data, -, hc⟩
        · rw [Buffer.contents_endRow (by rw [hb]; exact nofun), hb] at hc
          exact absurd (Prod.mk.inj hc).2 nofun
        · rw [hc]
          rfl
        · rw [hc]
          rfl
      have hflush := flush_delivers timeout cancel { s with buffer := b }
      rw [hsettle] at hflush
      exact ⟨hflush.contents, hflush.regular, fun hs => hflush.ends (hends hs).1⟩
    · exact ⟨fun _ _ => rfl, fun hs => hs, fun hs => ⟨(hends hs).1, nofun⟩⟩

theorem close_delivers (s : Sender) : s.close.Delivers s s.buffer.contents := by
  unfold close
  split
  · exact delivers_of_same rfl nofun
  · exact ⟨fun _ _ => rfl, fun _ => nofun, fun hb => ⟨hb, nofun⟩⟩

theorem always_close_delivers {c : Contents} {t : Step} (h : t.Delivers s c) :
    (t.always close).Delivers s c := by
  have hbuffer : t.sender.close.sender.buffer = t.sender.buffer := by
    unfold close
    split <;> rfl
  have htaken : (t.always close).taken = t.taken := by
    have hclose : t.sender.close.events.flatMap Event.taken = [] := by
      unfold close
      split <;> rfl
    rw [Step.taken, Step.always, List.flatMap_append, hclose, List.append_nil]
    rfl
  have hreturns : t.sender.close.outcome = .ok () := by
    unfold close
    split <;> rfl
  have houtcome : (t.always close).outcome = t.outcome := by
    unfold Step.always
    cases hout : t.outcome with
    | error f => rfl
    | ok a => exact hreturns
  refine ⟨fun hs hne => ?_, fun hs => ?_, fun hb => ?_⟩
  · rw [htaken]
    show c = t.sender.close.sender.buffer.contents.prepend t.taken
    rw [hbuffer]
    exact h.contents hs (by rwa [houtcome] at hne)
  · exact t.sender.close_delivers.regular (h.regular hs)
  · rw [houtcome]
    show t.sender.close.sender.buffer.Boundless ∧ _
    rw [hbuffer]
    exact h.ends hb

theorem leave_delivers (failed : Bool) (s : Sender) :
    (s.leave failed).Delivers s ((Operation.leave failed).follow s.buffer.contents) := by
  unfold leave
  cases failed with
  | true => exact always_close_delivers (delivers_of_same rfl nofun)
  | false => exact always_close_delivers (s.flush_delivers .null none)

theorem connect_delivers (timeout : Value) {reply : Except Fault Connection}
    (h : (Operation.connect timeout reply).Regular) (s : Sender) :
    (s.connect timeout reply).Delivers s s.buffer.contents := by
  unfold connect
  split
  · exact delivers_of_same rfl nofun
  · cases reply with
    | error fault =>
        dsimp only
        split
        · exact delivers_of_same rfl nofun
        · exact delivers_of_same rfl nofun
    | ok connection =>
        have hlater : connection.changeTimeout.2.Regular := h.changeTimeout
        dsimp only
        generalize connection.changeTimeout = changed at hlater ⊢
        rcases changed with ⟨_ | fault, later⟩
        · refine ⟨fun _ _ => rfl, fun _ c hc => ?_, fun hb => ⟨hb, nofun⟩⟩
          cases hc
          exact hlater
        · exact delivers_of_same rfl nofun

/-- Every operation has the effect that it has on contents, apart from what it delivers. -/
theorem perform_delivers {op : Operation} (h : op.Regular) (s : Sender) :
    (s.perform op).Delivers s (op.follow s.buffer.contents) := by
  cases op with
  | connect timeout reply => exact connect_delivers timeout h s
  | build call =>
      refine ⟨fun _ hne => ?_, fun hs => hs, fun hb => hb.apply call⟩
      show (s.buffer.contents.apply call).1 = _
      rw [Buffer.contents_apply hne]
      rfl
  | endRow timestamp timeout cancel => exact endRow_delivers timestamp timeout cancel s
  | flush timeout cancel => exact flush_delivers timeout cancel s
  | leave failed => exact leave_delivers failed s
  | close => exact close_delivers s
  | clear => exact ⟨fun _ _ => rfl, fun hs => hs, fun hb => ⟨hb.clear, nofun⟩⟩

/-! ## Runs -/

/-- The sender after operations, whatever becomes of each. -/
def afterAll (ops : List Operation) (s : Sender) : Sender :=
  ops.foldl (fun s op => (s.perform op).sender) s

/-- The bytes that connections took in the course of operations. -/
def delivered (ops : List Operation) (s : Sender) : Bytes := (s.run ops).flatMap Step.taken

/-- Every operation comes to an end. -/
def Returns (ops : List Operation) (s : Sender) : Prop :=
  ∀ t ∈ s.run ops, t.outcome ≠ .error .endless

theorem returns_cons {op : Operation} {ops : List Operation} :
    s.Returns (op :: ops) ↔
      (s.perform op).outcome ≠ .error .endless ∧ (s.perform op).sender.Returns ops := by
  simp [Returns, run]

theorem returns_of_boundless {ops : List Operation} (hops : ∀ op ∈ ops, op.Regular)
    (h : s.buffer.Boundless) : s.Returns ops := by
  induction ops generalizing s with
  | nil => exact List.forall_mem_nil _
  | cons op ops ih =>
      obtain ⟨hhead, htail⟩ := List.forall_mem_cons.1 hops
      obtain ⟨hboundless, hreturns⟩ := (perform_delivers hhead s).ends h
      exact returns_cons.2 ⟨hreturns, ih htail hboundless⟩

/-- Contents that follow the operations stay ahead of the buffer by what was delivered. -/
theorem foldl_follow_eq_prepend {ops : List Operation}
    (hops : ∀ op ∈ ops, op.Regular ∧ op ≠ .clear) (hs : s.Regular) (hreturns : s.Returns ops)
    (front : Bytes) :
    ops.foldl (fun c op => op.follow c) (s.buffer.contents.prepend front) =
      (s.afterAll ops).buffer.contents.prepend (front ++ s.delivered ops) := by
  induction ops generalizing s front with
  | nil =>
      rw [delivered, run, List.flatMap_nil, List.append_nil]
      rfl
  | cons op ops ih =>
      obtain ⟨⟨hregular, hclear⟩, htail⟩ := List.forall_mem_cons.1 hops
      obtain ⟨hhead, hrest⟩ := returns_cons.1 hreturns
      have hstep := perform_delivers hregular s
      have hfollow : op.follow (s.buffer.contents.prepend front) =
          (s.perform op).sender.buffer.contents.prepend (front ++ (s.perform op).taken) := by
        rw [Operation.follow_prepend hclear, hstep.contents hs hhead]
        simp [Contents.prepend]
      rw [List.foldl_cons, hfollow, ih htail (hstep.regular hs) hrest, delivered, delivered, run,
        List.flatMap_cons, List.append_assoc]
      rfl

end Sender

/-! ## A buffer that never sends -/

def Buffer.settle (b : Buffer) : Buffer := if b.pending.isSome then b.discard else b

/-- What an operation does to a buffer from which nothing is ever sent: a flush only makes it
forget an error. -/
def Operation.mirror : Operation → Buffer → Buffer
  | build call, b => (b.apply call).1
  | endRow timestamp _ _, b => (b.endRow timestamp).1
  | flush .., b | leave false, b => b.settle
  | clear, b => b.clear
  | connect .., b | leave true, b | close, b => b

theorem Buffer.contents_settle (b : Buffer) : b.settle.contents = b.contents.settle := by
  unfold settle Contents.settle
  show (if b.pending.isSome then b.discard else b).contents =
    if b.pending.isSome then b.contents.discard else b.contents
  split <;> rfl

theorem Operation.mirror_follows (op : Operation) {b : Buffer} (h : b.Boundless) :
    (op.mirror b).contents = op.follow b.contents ∧ (op.mirror b).Boundless := by
  have hsettle : b.settle.Boundless := by
    unfold Buffer.settle
    split
    · exact h.discard
    · exact h
  cases op with
  | build call =>
      obtain ⟨hboundless, hends⟩ := h.apply call
      refine ⟨?_, hboundless⟩
      show _ = (b.contents.apply call).1
      rw [Buffer.contents_apply hends]
      rfl
  | endRow timestamp timeout cancel =>
      obtain ⟨hboundless, hends⟩ := h.endRow timestamp
      refine ⟨?_, hboundless⟩
      show _ = (b.contents.endRow timestamp).1
      rw [Buffer.contents_endRow hends]
      rfl
  | flush => exact ⟨b.contents_settle, hsettle⟩
  | leave failed =>
      cases failed with
      | false => exact ⟨b.contents_settle, hsettle⟩
      | true => exact ⟨rfl, h⟩
  | clear => exact ⟨rfl, h.clear⟩
  | connect => exact ⟨rfl, h⟩
  | close => exact ⟨rfl, h⟩

theorem Operation.contents_foldl_mirror (ops : List Operation) {b : Buffer} (h : b.Boundless) :
    (ops.foldl (fun b op => op.mirror b) b).contents =
      ops.foldl (fun c op => op.follow c) b.contents := by
  induction ops generalizing b with
  | nil => rfl
  | cons op ops ih =>
      obtain ⟨hcontents, hboundless⟩ := op.mirror_follows h
      rw [List.foldl_cons, List.foldl_cons, ih hboundless, hcontents]

namespace Sender

theorem of_create {address size : Value} {clock : Binary64} {s : Sender}
    (h : (create address size clock).1 = .ok s) :
    (∃ c, s.buffer = .empty c ∧ ∀ n, size = .int n → c.Boundless) ∧ s.connection = none := by
  obtain ⟨a, c, -, hc, rfl⟩ := eq_of_create h
  refine ⟨⟨_, rfl, ?_⟩, rfl⟩
  rintro n rfl
  obtain rfl : .exact n = c := Except.ok.inj hc
  split
  · show (0 : Int) < Capacity.defaultSize
    decide
  · next hpositive => exact Int.not_le.1 fun hn => hpositive (decide_eq_true hn)

/-- After any operations other than dropping all rows, what connections took and what the sender
holds are together what a buffer holds that followed the operations and never sent anything, and
the rows in progress are the same.  If the size of the buffer is an integer, every operation comes
to an end. -/
theorem delivered_append_bytes {address size : Value} {clock : Binary64} {s : Sender}
    (hs : (create address size clock).1 = .ok s) {n : Int} (hn : 0 < n) {ops : List Operation}
    (hops : ∀ op ∈ ops, op.Regular ∧ op ≠ .clear) :
    (∀ k, size = .int k → s.Returns ops) ∧
      (s.Returns ops →
        let b := ops.foldl (fun b op => op.mirror b) (.empty (.exact n))
        s.delivered ops ++ (s.afterAll ops).buffer.bytes = b.bytes ∧
          (s.delivered ops).length + (s.afterAll ops).buffer.committed.length =
            b.committed.length ∧
          (s.afterAll ops).buffer.pending = b.pending ∧
          (s.afterAll ops).buffer.stage = b.stage) := by
  obtain ⟨⟨c, hbuffer, hboundless⟩, hconnection⟩ := of_create hs
  refine ⟨fun k hk => ?_, fun hreturns => ?_⟩
  · apply returns_of_boundless fun op hop => (hops op hop).1
    rw [hbuffer]
    exact Buffer.boundless_empty (hboundless k hk)
  · intro b
    have hregular : s.Regular := by
      intro connection hc
      rw [hconnection] at hc
      contradiction
    have hpositive : (Capacity.exact n).Boundless := hn
    have hb : b.contents = (s.afterAll ops).buffer.contents.prepend (s.delivered ops) := by
      have hfollow := foldl_follow_eq_prepend hops hregular hreturns []
      rw [hbuffer] at hfollow
      exact (Operation.contents_foldl_mirror ops (Buffer.boundless_empty hpositive)).trans hfollow
    simp only [Buffer.contents, Contents.prepend, Contents.mk.injEq] at hb
    obtain ⟨hcommitted, hrow, hstage, hpending⟩ := hb
    refine ⟨?_, ?_, hpending.symm, hstage.symm⟩
    · rw [Buffer.bytes, Buffer.bytes, hcommitted, hrow, List.append_assoc]
    · rw [hcommitted, List.length_append]

end Sender

/-- A connection that takes one byte and then is lost. -/
def Connection.lost : Connection where
  sends := [⟨none, .ok (some 1)⟩, ⟨none, .error (.of .connectionReset "reset")⟩]
  timeouts := []

theorem Connection.regular_lost : lost.Regular where
  sends := by
    intro reply hreply fault hfault
    simp only [lost, List.mem_cons, List.not_mem_nil, or_false] at hreply
    rcases hreply with rfl | rfl
    · contradiction
    · cases hfault
      rfl
  timeouts := nofun

namespace Sender

/-- A new sender with room for 64 bytes. -/
def fresh : Sender := ⟨⟨"h", 9009, false⟩, .empty (.exact 64), none, ⟨0⟩⟩

theorem create_fresh : (create (.text "h") (.int 64) ⟨0⟩).1 = .ok fresh := rfl

/-- A row of two bytes over a connection that takes one of them. -/
theorem delivered_append_bytes_of_lost :
    let ops : List Operation :=
      [.connect .null (.ok .lost), .build (.table (.text "t")),
        .endRow Buffer.serverTime .null none, .flush .null none]
    fresh.delivered ops = [116] ∧
      fresh.delivered ops ++ (fresh.afterAll ops).buffer.bytes = [116, 10] := by
  intro ops
  have hops : ∀ op ∈ ops, op.Regular ∧ op ≠ .clear := by
    intro op hop
    simp only [ops, List.mem_cons, List.not_mem_nil, or_false] at hop
    rcases hop with rfl | rfl | rfl | rfl
    · exact ⟨Connection.regular_lost, nofun⟩
    · exact ⟨trivial, nofun⟩
    · exact ⟨trivial, nofun⟩
    · exact ⟨trivial, nofun⟩
  have hpositive : (0 : Int) < 8 := by decide
  obtain ⟨hreturns, hrelated⟩ := delivered_append_bytes create_fresh hpositive hops
  refine ⟨by decide +kernel, ?_⟩
  rw [(hrelated (hreturns 64 rfl)).1]
  decide +kernel

end Sender

end LineProtocol
