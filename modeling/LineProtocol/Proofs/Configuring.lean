import LineProtocol.Proofs.Addresses
import LineProtocol.Proofs.Language
/-!
# Senders from configuration strings

The size in a configuration string is a numeral that was read, so it can be written out
again.  Hence a configuration string makes a sender with a positive size and without a
connection, or it is refused with an error of the configuration; nothing else comes of
it but entries of the log.
-/

namespace LineProtocol

namespace Config

variable {config : Config} {n : Int}

theorem printable_of_parse {shown t : Text} (h : parse shown t = .ok config)
    (hn : config.initialSize = some n) : Decimal.Printable n := by
  obtain ⟨_, _, -, -, hdescribe⟩ := parse_eq_ok_iff.1 h
  cases hdescribe with
  | address => exact nomatch hn
  | sized _ _ _ hliteral =>
      rw [← Option.some.inj hn]
      exact hliteral.printable

end Config

theorem Capacity.printable_defaultSize : Decimal.Printable Capacity.defaultSize :=
  Decimal.printable_of_lt (by decide)

namespace Sender

theorem loggedSize_int {n : Int} (hn : Decimal.Printable n) : loggedSize (.int n) = .ok n := by
  have htext : (Decimal.text? n).isNone = false := by
    unfold Decimal.text?
    rw [Decimal.bytes?_eq_some_iff.2 ⟨hn, rfl⟩]
    rfl
  show (if (Decimal.text? n).isNone = true then _ else _) = _
  rw [htext]
  rfl

/-- What becomes of a configuration string. -/
inductive Configured : Except Failure Sender × List Event → Prop
  | refused (e : ConfigError) (entries : List LogEntry) :
      Configured (.error (.error (.config e)), entries.map .log)
  | made {s : Sender} {n : Int} (hbuffer : s.buffer = .empty (.exact n)) (hn : 0 < n)
      (hnone : s.connection = none) (entries : List LogEntry) :
      Configured (.ok s, entries.map .log)

theorem create_configured {n : Int} (hn : Decimal.Printable n) (address : Text)
    (clock : Binary64) : Configured (create (.text address) (.int n) clock) := by
  unfold create
  rcases Address.ofValue_cases (rfl : (Value.text address).text? = some address) with
    ⟨a, -, ha⟩ | ⟨e, -, he⟩
  · rw [ha]
    show Configured (if decide (n ≤ 0) = true then _ else _)
    by_cases hpositive : n ≤ 0
    · rw [if_pos (decide_eq_true hpositive), loggedSize_int hn]
      exact .made rfl (by decide : (0 : Int) < Capacity.defaultSize) rfl [.sizeIgnored n]
    · rw [if_neg (by simpa using hpositive)]
      exact .made rfl (by omega : 0 < n) rfl []
  · rw [he]
    exact .refused e []

/-- A configuration string makes a sender that waits for a connection, or is refused. -/
theorem ofConfig_configured {conf : Value} {t : Text} (h : conf.text? = some t)
    (clock : Binary64) : Configured (ofConfig conf clock) := by
  unfold ofConfig Config.ofValue
  rw [h]
  dsimp only
  cases hparse : Config.parse conf.quotedText t with
  | error e => exact .refused e []
  | ok config =>
      -- only a size that can be written out can be logged as ignored
      have hsize : Decimal.Printable (config.initialSize.getD Capacity.defaultSize) := by
        cases hn : config.initialSize with
        | none => exact Capacity.printable_defaultSize
        | some n => exact Config.printable_of_parse hparse hn
      have hmade := create_configured hsize config.address clock
      simp only [Except.mapError]
      generalize create (.text config.address) _ clock = made at hmade ⊢
      cases hmade with
      | refused e entries => exact .refused e (.configRead config :: entries)
      | made hbuffer hn hnone entries =>
          exact .made hbuffer hn hnone (.configRead config :: entries)

end Sender

end LineProtocol
