import LineProtocol.Proofs.Delivery
import LineProtocol.Proofs.Draft
import LineProtocol.Proofs.Streams
import Mathlib.Data.List.Induction
/-!
# The lines that a sender puts on its connections

A sender finishes rows, and each finished row is one line.  In every run the lines
that servers read are those of finished rows, except where a failed transfer or
the dropping of rows left a connection in the middle of one.
-/

namespace LineProtocol

open Line Record

/-! ## Rows are lines -/

theorem newline_not_mem_of_isPlain {bs : Bytes} (h : ∀ b ∈ bs, IsPlain b) : newline ∉ bs := by
  intro hmem
  have hplain := h newline hmem
  revert hplain
  decide

theorem newline_not_mem_decimal (n : Int) : newline ∉ Decimal.bytes n :=
  newline_not_mem_of_isPlain fun _ hb => isPlain_of_mem_bytes hb

theorem newline_not_mem_nameBytes {t : Text} (h : Allowed .name t) : newline ∉ nameBytes t :=
  newline_not_mem_escape h

theorem ColumnKind.Denotes.newline_not_mem_bytes {kind : ColumnKind} {v : Value} {c : Content}
    (h : kind.Denotes v c) : newline ∉ c.bytes := by
  cases h with
  | int =>
      have hsuffix : newline ∉ ascii "i" := by decide
      simp [Content.bytes, newline_not_mem_decimal, hsuffix]
  | float => exact newline_not_mem_of_isPlain fun _ hb => isPlain_of_mem_sixPlaces hb
  | @string _ t ht =>
      have hescaped : newline ∉ escape escapedQuoted t.utf8 := newline_not_mem_escape ht.2
      have hquote : newline ≠ doubleQuote := by decide
      simp [Content.bytes, hescaped, hquote]
  | bool =>
      have hfree : ∀ b : Bool, newline ∉ Content.bytes (.bool b) := by decide
      exact hfree _

theorem Call.newline_not_mem_of_encode {stage : Stage} {call : Call} {data : Bytes}
    (h : call.encode stage = .ok data) : newline ∉ data := by
  have hcomma : newline ≠ comma := by decide
  have hequals : newline ≠ equals := by decide
  have hseparator : newline ≠ separator stage := by
    cases stage <;> decide
  rcases exists_kind call with ⟨name, rfl⟩ | ⟨name, value, rfl⟩ | ⟨c, rfl⟩
  · obtain ⟨-, t, ht, rfl⟩ := encode_table_eq_ok_iff.1 h
    exact newline_not_mem_nameBytes ht.2
  · obtain ⟨-, s, ⟨hname, hvalue⟩, rfl⟩ := encode_symbol_eq_ok_iff.1 h
    have hn := newline_not_mem_nameBytes hname.2
    have hv : newline ∉ escape escapedUnquoted s.2.utf8 := newline_not_mem_escape hvalue.2
    simp [symbolBytes, hcomma, hequals, hn, hv]
  · obtain ⟨-, w, ⟨hname, kind, -, hkind⟩, rfl⟩ := encode_column_eq_ok_iff.1 h
    have hn := newline_not_mem_nameBytes hname.2
    have hv := hkind.newline_not_mem_bytes
    simp [columnBytes, hseparator, hequals, hn, hv]

/-- A timestamp that is left out and one that is written. -/
theorem Value.eq_of_encodeTimestamp {timestamp : Value} {data : Bytes}
    (h : timestamp.encodeTimestamp = .ok data) :
    data = [newline] ∨ ∃ n, data = space :: Decimal.bytes n ++ [newline] := by
  unfold encodeTimestamp at h
  split at h
  · contradiction
  · unfold lineEnd at h
    split at h
    · contradiction
    · split at h
      · split at h
        · contradiction
        · split at h
          · contradiction
          · next bs hbs =>
            cases h
            obtain ⟨-, rfl⟩ := Decimal.bytes?_eq_some_iff.1 hbs
            exact Or.inr ⟨_, rfl⟩
      · cases h
        exact Or.inl rfl

theorem Value.isLine_of_encodeTimestamp {timestamp : Value} {data : Bytes}
    (h : timestamp.encodeTimestamp = .ok data) : IsLine data := by
  rcases eq_of_encodeTimestamp h with rfl | ⟨n, rfl⟩
  · exact ⟨[], nofun, rfl⟩
  · have hspace : newline ≠ space := by decide
    exact ⟨space :: Decimal.bytes n, by simp [hspace, newline_not_mem_decimal], rfl⟩

theorem IsLine.append {row line : Bytes} (hrow : newline ∉ row) (h : IsLine line) :
    IsLine (row ++ line) := by
  obtain ⟨body, hbody, rfl⟩ := h
  refine ⟨row ++ body, ?_, (List.append_assoc ..).symm⟩
  exact fun hmem => (List.mem_append.1 hmem).elim hrow hbody

theorem Contents.committed_settle (c : Contents) : c.settle.committed = c.committed := by
  unfold settle
  split <;> rfl

theorem Operation.newline_not_mem_row_follow (op : Operation) {c : Contents}
    (h : newline ∉ c.row) : newline ∉ (op.follow c).row := by
  have hsettle : newline ∉ c.settle.row := by
    unfold Contents.settle
    split
    · exact nofun
    · exact h
  cases op with
  | build call =>
      show newline ∉ (c.apply call).1.row
      rcases c.apply_cases call with hc | ⟨e, hc⟩ | ⟨data, hdata, hc⟩
      · rwa [hc]
      · rwa [hc]
      · rw [hc]
        have hfree := Call.newline_not_mem_of_encode hdata
        exact fun hmem => (List.mem_append.1 hmem).elim h hfree
  | endRow timestamp =>
      show newline ∉ (c.endRow timestamp).1.row
      rcases c.endRow_cases timestamp with ⟨f, hc⟩ | ⟨f, hc⟩ | ⟨data, -, hc⟩
      · rwa [hc]
      · rw [hc]
        exact nofun
      · rw [hc]
        exact nofun
  | flush => exact hsettle
  | leave failed =>
      cases failed with
      | false => exact hsettle
      | true => exact h
  | clear => exact nofun
  | connect => exact h
  | close => exact h

/-! ## The lines of a run -/

namespace Sender

variable {s : Sender}

/-- The line of the row that an operation finishes, if it finishes one. -/
def finished (op : Operation) (s : Sender) : List Bytes :=
  match op with
  | .endRow timestamp _ _ =>
    match s.buffer.endRow timestamp with
    | (b, .ok ()) => [b.committed.drop s.buffer.committed.length]
    | _ => []
  | _ => []

/-- The lines of the rows that operations finish. -/
def lines : List Operation → Sender → List Bytes
  | [], _ => []
  | op :: ops, s => s.finished op ++ lines ops (s.perform op).sender

/-- What connections took in the course of operations. -/
def streams (ops : List Operation) (s : Sender) : Streams :=
  ((s.run ops).flatMap Step.events).foldl Streams.add ⟨[], []⟩

/-- All rows were dropped when connections had taken `streams`. -/
def ClearedAt (ops : List Operation) (s : Sender) (streams : List Bytes) : Prop :=
  ∃ before after, ops = before ++ .clear :: after ∧ (s.streams before).all = streams

theorem run_concat (ops : List Operation) (op : Operation) (s : Sender) :
    s.run (ops ++ [op]) = s.run ops ++ [(s.afterAll ops).perform op] := by
  induction ops generalizing s with
  | nil => rfl
  | cons op' ops ih =>
      show s.perform op' :: (s.perform op').sender.run (ops ++ [op]) = _
      rw [ih]
      rfl

theorem lines_concat (ops : List Operation) (op : Operation) (s : Sender) :
    s.lines (ops ++ [op]) = s.lines ops ++ (s.afterAll ops).finished op := by
  induction ops generalizing s with
  | nil => exact List.append_nil _
  | cons op' ops ih =>
      show s.finished op' ++ (s.perform op').sender.lines (ops ++ [op]) = _
      rw [ih, ← List.append_assoc]
      rfl

theorem streams_concat (ops : List Operation) (op : Operation) (s : Sender) :
    s.streams (ops ++ [op]) =
      ((s.afterAll ops).perform op).events.foldl Streams.add (s.streams ops) := by
  rw [streams, run_concat, List.flatMap_append, List.foldl_append, List.flatMap_singleton]
  rfl

theorem afterAll_concat (ops : List Operation) (op : Operation) (s : Sender) :
    s.afterAll (ops ++ [op]) = ((s.afterAll ops).perform op).sender := by
  rw [afterAll, List.foldl_append]
  rfl

theorem committed_endRow {timestamp timeout : Value} {cancel : Cancellation}
    (hrow : newline ∉ s.buffer.row)
    (hreturns : (s.endRow timestamp timeout cancel).outcome ≠ .error .endless) :
    (s.buffer.contents.endRow timestamp).1.committed =
        s.buffer.committed ++ (s.finished (.endRow timestamp timeout cancel)).flatten ∧
      ∀ line ∈ s.finished (.endRow timestamp timeout cancel), IsLine line := by
  rcases hb : s.buffer.endRow timestamp with ⟨b, outcome⟩
  have hends : (s.buffer.endRow timestamp).2 ≠ .error .endless := by
    rw [hb]
    cases outcome with
    | ok => exact Outcome.ok_ne_endless
    | error f =>
        rw [endRow_of_error hb] at hreturns
        exact hreturns
  have hcontents := Buffer.contents_endRow hends
  rw [hb] at hcontents
  have hfailed : ∀ f, outcome = .error f → s.finished (.endRow timestamp timeout cancel) = [] := by
    rintro f rfl
    simp [finished, hb]
  rcases s.buffer.contents.endRow_cases timestamp with ⟨f, hc⟩ | ⟨f, hc⟩ | ⟨data, hdata, hc⟩
  · rw [hfailed f (Prod.mk.inj (hcontents.symm.trans hc)).2, hc]
    exact ⟨(List.append_nil _).symm, nofun⟩
  · rw [hfailed f (Prod.mk.inj (hcontents.symm.trans hc)).2, hc]
    exact ⟨(List.append_nil _).symm, nofun⟩
  · obtain ⟨hbuffer, rfl⟩ := Prod.mk.inj (hcontents.symm.trans hc)
    have hcommitted : b.committed = s.buffer.committed ++ (s.buffer.row ++ data) :=
      congrArg Contents.committed hbuffer
    have hfinished : s.finished (.endRow timestamp timeout cancel) = [s.buffer.row ++ data] := by
      simp [finished, hb, hcommitted]
    rw [hfinished, hc, List.flatten_singleton]
    refine ⟨rfl, fun line hline => ?_⟩
    rw [List.mem_singleton.1 hline]
    exact (Value.isLine_of_encodeTimestamp hdata).append hrow

/-- Apart from dropping all rows, an operation adds to the finished rows the line that it
finishes. -/
theorem committed_follow {op : Operation} (hclear : op ≠ .clear) (hrow : newline ∉ s.buffer.row)
    (hreturns : (s.perform op).outcome ≠ .error .endless) :
    (op.follow s.buffer.contents).committed =
        s.buffer.committed ++ (s.finished op).flatten ∧
      ∀ line ∈ s.finished op, IsLine line := by
  have hsame : s.buffer.contents.committed = s.buffer.committed ++ List.flatten [] :=
    (List.append_nil _).symm
  cases op with
  | endRow timestamp timeout cancel => exact committed_endRow hrow hreturns
  | build call =>
      refine ⟨?_, nofun⟩
      show (s.buffer.contents.apply call).1.committed = _
      rcases s.buffer.contents.apply_cases call with hc | ⟨e, hc⟩ | ⟨data, -, hc⟩
      · rw [hc]
        exact hsame
      · rw [hc]
        exact hsame
      · rw [hc]
        exact hsame
  | flush => exact ⟨(Contents.committed_settle _).trans hsame, nofun⟩
  | leave failed =>
      cases failed with
      | false => exact ⟨(Contents.committed_settle _).trans hsame, nofun⟩
      | true => exact ⟨hsame, nofun⟩
  | clear => exact absurd rfl hclear
  | connect => exact ⟨hsame, nofun⟩
  | close => exact ⟨hsame, nofun⟩

/-- What an operation does to the rows and the streams keeps every line accounted for. -/
theorem tracked_perform {op : Operation} (hop : op.Regular) (hs : s.Regular)
    (hrow : newline ∉ s.buffer.row) (hreturns : (s.perform op).outcome ≠ .error .endless)
    {lines : List Bytes} {cleared cleared' : List Bytes → Prop} {w : Streams}
    (hcleared : ∀ streams, cleared' streams ↔ cleared streams ∨ op = .clear ∧ streams = w.all)
    (h : Tracked lines cleared w s.buffer.committed) :
    Tracked (lines ++ s.finished op) cleared' ((s.perform op).events.foldl Streams.add w)
        (s.perform op).sender.buffer.committed ∧
      newline ∉ (s.perform op).sender.buffer.row := by
  have hcontents := (perform_delivers hop s).contents hs hreturns
  have hcommitted : (op.follow s.buffer.contents).committed =
      (s.perform op).taken ++ (s.perform op).sender.buffer.committed :=
    congrArg Contents.committed hcontents
  refine ⟨?_, ?_⟩
  · apply Tracked.events
    show Tracked _ _ w ((s.perform op).taken ++ (s.perform op).sender.buffer.committed)
    rw [← hcommitted]
    by_cases hclear : op = .clear
    · subst hclear
      rw [show s.finished .clear = [] from rfl, List.append_nil]
      exact h.clear (by simpa using hcleared)
    · obtain ⟨hfollow, hlines⟩ := committed_follow hclear hrow hreturns
      have hsame : cleared' = cleared := by
        funext streams
        simpa [hclear] using hcleared streams
      rw [hfollow, hsame]
      exact h.finish hlines
  · have hfollow := op.newline_not_mem_row_follow (c := s.buffer.contents) hrow
    rw [hcontents] at hfollow
    exact hfollow

theorem returns_concat {ops : List Operation} {op : Operation} :
    s.Returns (ops ++ [op]) ↔
      s.Returns ops ∧ ((s.afterAll ops).perform op).outcome ≠ .error .endless := by
  simp [Returns, run_concat, or_imp, forall_and]

theorem regular_afterAll {ops : List Operation} (hops : ∀ op ∈ ops, op.Regular)
    (hs : s.Regular) : (s.afterAll ops).Regular := by
  induction ops generalizing s with
  | nil => exact hs
  | cons op ops ih =>
      obtain ⟨hhead, htail⟩ := List.forall_mem_cons.1 hops
      exact ih htail ((perform_delivers hhead s).regular hs)

theorem clearedAt_concat_iff {ops : List Operation} {op : Operation} {streams : List Bytes} :
    s.ClearedAt (ops ++ [op]) streams ↔
      s.ClearedAt ops streams ∨ op = .clear ∧ streams = (s.streams ops).all := by
  constructor
  · rintro ⟨before, after, hsplit, rfl⟩
    rcases List.eq_nil_or_concat after with rfl | ⟨front, final, rfl⟩
    · obtain ⟨rfl, hop⟩ := List.append_inj' hsplit rfl
      exact Or.inr ⟨List.singleton_inj.1 hop, rfl⟩
    · rw [List.concat_eq_append, ← List.cons_append, ← List.append_assoc] at hsplit
      obtain ⟨rfl, -⟩ := List.append_inj' hsplit rfl
      exact Or.inl ⟨before, front, rfl, rfl⟩
  · rintro (⟨before, after, rfl, rfl⟩ | ⟨rfl, rfl⟩)
    · exact ⟨before, after ++ [op], by simp, rfl⟩
    · exact ⟨ops, [], rfl, rfl⟩

/-- After any operations every line on every connection is accounted for. -/
theorem tracked_afterAll {ops : List Operation} (hops : ∀ op ∈ ops, op.Regular)
    (hs : s.Regular) (hempty : s.buffer.bytes = []) (hreturns : s.Returns ops) :
    Tracked (s.lines ops) (s.ClearedAt ops) (s.streams ops) (s.afterAll ops).buffer.committed ∧
      newline ∉ (s.afterAll ops).buffer.row := by
  induction ops using List.reverseRecOn with
  | nil =>
      obtain ⟨hcommitted, hrow⟩ := List.append_eq_nil_iff.1 hempty
      refine ⟨⟨?_, [], nofun, ⟨[], ?_, nofun⟩, ?_, .aligned [] (Or.inl rfl) rfl⟩, ?_⟩
      · intro earlier stream later hsplit before line hline
        obtain ⟨-, rfl⟩ : earlier = [] ∧ stream = [] := by
          cases earlier with
          | nil => exact ⟨rfl, (List.cons.inj hsplit).1.symm⟩
          | cons first rest => simp [streams, run, Streams.all] at hsplit
        exact absurd hline not_lineAt_nil
      · exact hcommitted
      · rintro streams ⟨before, after, hsplit, -⟩
        simp at hsplit
      · show newline ∉ s.buffer.row
        rw [hrow]
        exact nofun
  | append_singleton ops op ih =>
      have hprefix : ∀ op' ∈ ops, op'.Regular := fun op' h => hops op' (List.mem_append_left _ h)
      have hlast : op.Regular := hops op (by simp)
      obtain ⟨hbefore, hends⟩ := returns_concat.1 hreturns
      obtain ⟨htracked, hrow⟩ := ih hprefix hbefore
      rw [lines_concat, streams_concat, afterAll_concat]
      exact tracked_perform hlast (regular_afterAll hprefix hs) hrow hends
        (fun _ => clearedAt_concat_iff) htracked

/-- Every line that a connection took, from its start or a newline up to a newline, is the line of
a row that the run finished, with two exceptions.  A connection starts with what was left of a row
if an earlier one was lost in the middle of that row and no rows were dropped since; and if all rows
are dropped when a connection is in the middle of a row, the next row follows what was taken of that
one.  If the size of the buffer is an integer, every operation comes to an end. -/
theorem origin_of_lineAt {address size : Value} {clock : Binary64} {s : Sender}
    (hs : (create address size clock).1 = .ok s) {ops : List Operation}
    (hops : ∀ op ∈ ops, op.Regular) :
    (∀ k, size = .int k → s.Returns ops) ∧
      (s.Returns ops → ∀ earlier stream later, (s.streams ops).all = earlier ++ stream :: later →
        ∀ before line, LineAt stream before line →
          Origin (s.lines ops) (s.ClearedAt ops) earlier before line) := by
  obtain ⟨⟨c, hbuffer, hboundless⟩, hconnection⟩ := of_create hs
  refine ⟨fun k hk => ?_, fun hreturns => ?_⟩
  · apply returns_of_boundless hops
    rw [hbuffer]
    exact Buffer.boundless_empty (hboundless k hk)
  · have hregular : s.Regular := by
      intro connection hc
      rw [hconnection] at hc
      contradiction
    have hempty : s.buffer.bytes = [] := by
      rw [hbuffer]
      rfl
    exact (tracked_afterAll hops hregular hempty hreturns).1.origin

/-- One row over two connections, of which the first is lost after one byte. -/
def splitRow : List Operation :=
  [.connect .null (.ok .lost), .build (.table (.text "t")), .endRow Buffer.serverTime .null none,
    .flush .null none, .close, .connect .null (.ok ⟨[], []⟩), .flush .null none]

theorem regular_splitRow : ∀ op ∈ splitRow, op.Regular := by
  intro op hop
  simp only [splitRow, List.mem_cons, List.not_mem_nil, or_false] at hop
  rcases hop with rfl | rfl | rfl | rfl | rfl | rfl | rfl
  · exact Connection.regular_lost
  · trivial
  · trivial
  · trivial
  · trivial
  · exact ⟨List.forall_mem_nil _, fun _ hf => absurd hf List.not_mem_nil⟩
  · trivial

theorem streams_splitRow : (fresh.streams splitRow).all = [[], [116]] ++ [newline] :: [] := by
  decide +kernel

theorem lineAt_newline : LineAt [newline] [] [newline] :=
  ⟨Or.inl rfl, ⟨[], List.not_mem_nil, rfl⟩, List.prefix_refl _⟩

/-- The second connection takes a line that is what was left of the row. -/
theorem origin_of_splitRow :
    Origin (fresh.lines splitRow) (fresh.ClearedAt splitRow) [[], [116]] [] [newline] := by
  obtain ⟨hreturns, horigin⟩ := origin_of_lineAt create_fresh regular_splitRow
  exact horigin (hreturns 64 rfl) _ _ _ streams_splitRow _ _ lineAt_newline

/-- So there are lines that are not those of a finished row. -/
theorem lineAt_of_splitRow_not_mem_lines :
    (create (.text "h") (.int 64) ⟨0⟩).1 = .ok fresh ∧ fresh.Returns splitRow ∧
      (fresh.streams splitRow).all = [[], [116]] ++ [newline] :: [] ∧
      LineAt [newline] [] [newline] ∧ [newline] ∉ fresh.lines splitRow := by
  have hboundless : (Capacity.exact 64).Boundless := by
    show (0 : Int) < 64
    decide
  refine ⟨create_fresh, ?_, streams_splitRow, lineAt_newline, ?_⟩
  · exact returns_of_boundless regular_splitRow (Buffer.boundless_empty hboundless)
  · have hlines : fresh.lines splitRow = [[116, newline]] := by decide +kernel
    rw [hlines]
    decide

end Sender

end LineProtocol
