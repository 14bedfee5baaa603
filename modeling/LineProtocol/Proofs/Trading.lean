import LineProtocol.Proofs.Blocks
import LineProtocol.Proofs.Configuring
import LineProtocol.Trades
/-!
# What the program with a configuration string delivers

Over a steady connection, the program that writes two rows delivers the beginning of
these rows.  It reports success if and only if it delivered both of them, and an error
otherwise, whatever the configuration string says.
-/

namespace LineProtocol

namespace TradeProgram

/-- The two rows of the second program. -/
def filledTrades : Bytes :=
  Line.ascii "trades,symbol=ETH-USD,side=buy price=2615.120000,filled=t\n" ++
    Line.ascii "trades,symbol=ETH-USD,side=sell price=2615.540000,filled=t\n"

theorem returns_configuredOperations :
    (Contents.between []).returns (configuredOperations ++ [.flush .null none]) = true := by
  decide +kernel

theorem committed_configuredOperations :
    ((Contents.between []).followAll (configuredOperations ++ [.flush .null none])).committed =
      filledTrades := by
  decide +kernel

end TradeProgram

/-- The bytes that a program delivered. -/
def TradeReport.taken (r : TradeReport) : Bytes := r.events.flatMap Event.taken

/-- A report of success if and only if a text was delivered, and else of one error.  The beginning
of the text was delivered in any case, and a connection that was opened was closed. -/
structure TradeReport.Faithful (text : Bytes) (r : TradeReport) : Prop where
  returns : ∃ delivered, r.outcome = .ok delivered
  isPrefix : r.taken <+: text
  delivered_iff : r.outcome = .ok true ↔ r.taken = text
  silent_iff : r.outcome = .ok true ↔ r.errors = []
  failed_iff : r.outcome = .ok false ↔
    ∃ e : SenderError, r.errors = "Got error: " ++ e.message ++ "\n"
  /-- There was no connection, or one that was opened and then closed. -/
  turns : r.events.filterMap Event.turn? = [] ∨ r.events.filterMap Event.turn? = [true, false]

namespace TradeProgram

variable {text : Bytes}

theorem report_faithful {events : List Event} {outcome : Outcome}
    (h : Completes text events outcome) : (report events outcome).Faithful text := by
  obtain ⟨hturns, hprefix, hends⟩ := h
  have hmessage : ∀ e : SenderError, ("Got error: " ++ e.message ++ "\n" : Text) ≠ [] := by
    intro e hnil
    have hhead := (List.append_eq_nil_iff.1 (List.append_eq_nil_iff.1 hnil).1).1
    exact absurd hhead (by decide)
  rcases hends with ⟨hok, htaken⟩ | ⟨e, herror, htaken⟩
  · rw [hok]
    refine ⟨⟨true, rfl⟩, hprefix, iff_of_true rfl htaken, iff_of_true rfl rfl, ?_, hturns⟩
    exact iff_of_false nofun fun ⟨e, he⟩ => hmessage e he.symm
  · rw [herror]
    refine ⟨⟨false, rfl⟩, hprefix, iff_of_false nofun htaken, iff_of_false nofun (hmessage e), ?_,
      hturns⟩
    exact iff_of_true rfl ⟨e, rfl⟩

/-- The program with a configuration string is faithful over a steady connection, for every
configuration string and so for every size of the buffer. -/
theorem configured_faithful {conf : Value} {t : Text} (hconf : conf.text? = some t)
    {setting : Setting} (hreply : Connection.IsSteadyReply setting.reply) :
    (configured.run [conf] setting).Faithful filledTrades := by
  have htext : filledTrades ≠ [] := nofun
  have hmade := Sender.ofConfig_configured hconf setting.clock
  show (deliver (Sender.ofConfig conf setting.clock) setting.reply _).Faithful _
  generalize Sender.ofConfig conf setting.clock = made at hmade ⊢
  cases hmade with
  | refused e entries =>
      have hcompletes := (completes_of_error htext (.config e)).after_entries entries
      rw [List.append_nil] at hcompletes
      exact report_faithful hcompletes
  | @made s n hbuffer hn hnone entries =>
      have hboundless : s.buffer.Boundless := by
        rw [hbuffer]
        exact Buffer.boundless_empty (show 0 < n from hn)
      have hcontents : s.buffer.contents = .between [] := by
        rw [hbuffer]
        rfl
      have hreturns := returns_configuredOperations
      rw [← hcontents] at hreturns
      have hcompletes := Sender.within_completes hnone hboundless hreply hreturns
        (by rw [hcontents, committed_configuredOperations]; exact htext)
      rw [hcontents, committed_configuredOperations] at hcompletes
      exact report_faithful (hcompletes.after_entries entries)

/-- The connection is lost after the first byte, as the first row ends. -/
theorem configured_faithful_lost :
    let r := configured.run [words "tcp::addr=h;init_buf_size=8;"] ⟨0, ⟨0⟩, .ok .lost⟩
    r.taken = [116] ∧ r.outcome = .ok false := by
  intro r
  have hfaithful : r.Faithful filledTrades :=
    configured_faithful rfl ⟨Connection.regular_lost.sends, nofun⟩
  have htaken : r.taken = [116] := by decide +kernel
  obtain ⟨delivered, hreturns⟩ := hfaithful.returns
  refine ⟨htaken, ?_⟩
  cases delivered with
  | false => exact hreturns
  | true => exact absurd (htaken.symm.trans (hfaithful.delivered_iff.1 hreturns)) (by decide)

end TradeProgram

end LineProtocol
