import LineProtocol.Connection
import LineProtocol.Line
import Mathlib.Data.List.Basic
/-!
# The lines on each connection

A server that reads lines from one connection after the other does not always see
whole rows.  A transfer may fail in the middle of a row.  What is left of that row
then opens the next connection, and if it is dropped instead, the next row is sent
right behind the half that was taken.  In all other places a line on a connection
is the line of a finished row.

The invariant is kept byte by byte.  `debt` is the part that was taken of the row
in front of the buffer, and a `Phase` tells what the current stream has in place
of it.
-/

namespace LineProtocol

open Line

/-- The line of a row: nothing but its end is a newline. -/
def IsLine (line : Bytes) : Prop := ∃ body, newline ∉ body ∧ line = body ++ [newline]

/-- Whether a line can start after the given bytes. -/
def AtLineStart (before : Bytes) : Prop := before = [] ∨ ∃ bs, before = bs ++ [newline]

/-- The line `line` occurs in a stream after the bytes `before`. -/
structure LineAt (stream before line : Bytes) : Prop where
  start : AtLineStart before
  isLine : IsLine line
  within : before ++ line <+: stream

/-- What connections took: those that were opened before the last one, in order, and the last.  The
first stream is what was taken before any connection, which is nothing. -/
structure Streams where
  earlier : List Bytes
  last : Bytes

namespace Streams

def all (w : Streams) : List Bytes := w.earlier ++ [w.last]

/-- An event that opens a connection starts a stream; others add what they take. -/
def add (w : Streams) : Event → Streams
  | .connect _ _ true => ⟨w.all, []⟩
  | e => ⟨w.earlier, w.last ++ e.taken⟩

end Streams

/-! ## Where a line comes from -/

/-- How a line came onto a connection, where `earlier` was taken by earlier connections and `before`
precedes it: it is the line of a row; or it is what was left of the line when an earlier connection
was lost, and no rows were dropped since; or rows were dropped while the stream was in the middle of
one. -/
inductive Origin (lines : List Bytes) (cleared : List Bytes → Prop) (earlier : List Bytes)
    (before line : Bytes) : Prop
  | whole (h : line ∈ lines)
  | resumed (sent : Bytes) (hsent : sent ≠ []) (hbefore : before = [])
      (hearlier : sent <:+ earlier.flatten) (h : sent ++ line ∈ lines)
      (hkept : ∀ streams, cleared streams → streams.flatten ≠ earlier.flatten)
  | dropped (sent rest : Bytes) (hsent : sent ≠ []) (hline : line = sent ++ rest)
      (h : rest ∈ lines) (hcleared : cleared (earlier ++ [before ++ sent]))

/-- What the last stream has in place of `debt`, the part that was taken of the line in front. -/
inductive Phase (cleared : List Bytes → Prop) (w : Streams) (debt : Bytes) : Prop
  | aligned (before : Bytes) (hstart : AtLineStart before) (hlast : w.last = before ++ debt)
  | resumed (sent : Bytes) (hsent : sent ≠ []) (hearlier : sent <:+ w.earlier.flatten)
      (hdebt : debt = sent ++ w.last)
      (hkept : ∀ streams, cleared streams → streams.flatten ≠ w.earlier.flatten)
  | dropped (before sent : Bytes) (hstart : AtLineStart before) (hsent : sent ≠ [])
      (hfree : newline ∉ sent) (hlast : w.last = before ++ (sent ++ debt))
      (hcleared : cleared (w.earlier ++ [before ++ sent]))

/-- Of the line in front of what waits, `debt` was taken, all of it since rows were last dropped. -/
structure Owes (lines : List Bytes) (cleared : List Bytes → Prop) (w : Streams)
    (waiting debt : Bytes) : Prop where
  free : newline ∉ debt
  queue : ∃ queue : List Bytes, debt ++ waiting = queue.flatten ∧
    ∀ line ∈ queue, line ∈ lines ∧ IsLine line
  since : ∀ streams, cleared streams →
    streams.flatten.length + debt.length ≤ w.all.flatten.length
  phase : Phase cleared w debt

/-- Every line so far has an origin, and `waiting` goes on where the last stream stopped. -/
structure Tracked (lines : List Bytes) (cleared : List Bytes → Prop) (w : Streams)
    (waiting : Bytes) : Prop where
  origin : ∀ earlier stream later, w.all = earlier ++ stream :: later →
    ∀ before line, LineAt stream before line → Origin lines cleared earlier before line
  owes : ∃ debt, Owes lines cleared w waiting debt

/-! ## Lines in bytes -/

theorem eq_nil_of_atLineStart {before bs : Bytes} (h : AtLineStart (before ++ bs))
    (hfree : newline ∉ bs) : bs = [] := by
  rcases List.eq_nil_or_concat bs with hnil | ⟨front, b, rfl⟩
  · exact hnil
  · exfalso
    rcases h with h | ⟨cs, h⟩
    · simp at h
    · rw [List.concat_eq_append, ← List.append_assoc] at h
      have hb : b = newline := List.singleton_inj.1 (List.append_inj' h rfl).2
      simp [hb] at hfree

theorem eq_of_append_eq_append {before before' rest rest' : Bytes} (hstart : AtLineStart before)
    (hstart' : AtLineStart before') (hfree : newline ∉ rest) (hfree' : newline ∉ rest')
    (h : before ++ rest = before' ++ rest') : before = before' ∧ rest = rest' := by
  rcases List.append_eq_append_iff.1 h with ⟨mid, rfl, rfl⟩ | ⟨mid, rfl, rfl⟩
  · have hmid : mid = [] := by
      apply eq_nil_of_atLineStart hstart'
      exact fun hmem => hfree (List.mem_append_left rest' hmem)
    subst hmid
    exact ⟨(List.append_nil before).symm, rfl⟩
  · have hmid : mid = [] := by
      apply eq_nil_of_atLineStart hstart
      exact fun hmem => hfree' (List.mem_append_left rest hmem)
    subst hmid
    exact ⟨List.append_nil before', rfl⟩

/-- Another byte completes a line only if it is a newline, and then the line that it ends. -/
theorem LineAt.of_concat {stream before line : Bytes} {b : UInt8}
    (h : LineAt (stream ++ [b]) before line) :
    LineAt stream before line ∨
      b = newline ∧ ∃ body, newline ∉ body ∧ line = body ++ [newline] ∧ stream = before ++ body := by
  obtain ⟨after, hafter⟩ := h.within
  rcases List.eq_nil_or_concat after with rfl | ⟨front, c, rfl⟩
  · obtain ⟨body, hbody, rfl⟩ := h.isLine
    rw [List.append_nil, ← List.append_assoc] at hafter
    obtain ⟨hstream, hb⟩ := List.append_inj' hafter rfl
    exact Or.inr ⟨(List.singleton_inj.1 hb).symm, body, hbody, rfl, hstream.symm⟩
  · rw [List.concat_eq_append, ← List.append_assoc] at hafter
    exact Or.inl ⟨h.start, h.isLine, front, (List.append_inj' hafter rfl).1⟩

theorem not_lineAt_nil {before line : Bytes} : ¬LineAt [] before line := by
  intro h
  obtain ⟨body, -, rfl⟩ := h.isLine
  have hnil := List.prefix_nil.1 h.within
  simp at hnil

theorem append_newline_inj {bs bs' rest rest' : Bytes} (hfree : newline ∉ bs)
    (hfree' : newline ∉ bs') (h : bs ++ newline :: rest = bs' ++ newline :: rest') :
    bs = bs' ∧ rest = rest' := by
  rcases List.append_eq_append_iff.1 h with ⟨mid, rfl, hmid⟩ | ⟨mid, rfl, hmid⟩
  · cases mid with
    | nil => exact ⟨(List.append_nil bs).symm, (List.cons.inj hmid).2⟩
    | cons b mid =>
        have hb : newline = b := (List.cons.inj hmid).1
        simp [hb] at hfree'
  · cases mid with
    | nil => exact ⟨List.append_nil bs', (List.cons.inj hmid).2.symm⟩
    | cons b mid =>
        have hb : newline = b := (List.cons.inj hmid).1
        simp [hb] at hfree

/-- The first line of several, of which `debt` was taken, ends at the first newline that follows. -/
theorem head_eq_of_newline {debt rest : Bytes} {queue : List Bytes} (hfree : newline ∉ debt)
    (hqueue : ∀ line ∈ queue, IsLine line) (h : debt ++ newline :: rest = queue.flatten) :
    ∃ lines, queue = (debt ++ [newline]) :: lines ∧ rest = lines.flatten := by
  cases queue with
  | nil => simp at h
  | cons line lines =>
      obtain ⟨body, hbody, rfl⟩ := hqueue line List.mem_cons_self
      have hsplit : debt ++ newline :: rest = body ++ newline :: lines.flatten := by
        rw [h]
        simp
      obtain ⟨rfl, hrest⟩ := append_newline_inj hfree hbody hsplit
      exact ⟨lines, rfl, hrest⟩

namespace Tracked

variable {lines : List Bytes} {cleared : List Bytes → Prop} {w : Streams} {waiting : Bytes}

/-- Lines of earlier streams, and those of the last that were there before, keep their origin. -/
theorem origin_of_last (h : Tracked lines cleared w waiting) {last : Bytes}
    (hlast : ∀ before line, LineAt last before line →
      LineAt w.last before line ∨ Origin lines cleared w.earlier before line) :
    ∀ earlier stream later, w.earlier ++ [last] = earlier ++ stream :: later →
      ∀ before line, LineAt stream before line → Origin lines cleared earlier before line := by
  intro earlier stream later hsplit before line hline
  rcases List.eq_nil_or_concat later with rfl | ⟨front, final, rfl⟩
  · obtain ⟨rfl, hstream⟩ := List.append_inj' hsplit rfl
    rw [← List.singleton_inj.1 hstream] at hline
    rcases hlast before line hline with hold | horigin
    · exact h.origin w.earlier w.last [] rfl before line hold
    · exact horigin
  · rw [List.concat_eq_append, ← List.cons_append, ← List.append_assoc] at hsplit
    obtain ⟨hearlier, -⟩ := List.append_inj' hsplit rfl
    refine h.origin earlier stream (front ++ [w.last]) ?_ before line hline
    rw [Streams.all, hearlier, List.append_assoc]
    rfl

theorem length_flatten_all (w : Streams) :
    w.all.flatten.length = w.earlier.flatten.length + w.last.length := by
  simp [Streams.all]

theorem take_byte {b : UInt8} (hb : b ≠ newline) (h : Tracked lines cleared w (b :: waiting)) :
    Tracked lines cleared ⟨w.earlier, w.last ++ [b]⟩ waiting where
  origin := by
    apply h.origin_of_last
    intro before line hline
    rcases hline.of_concat with hold | ⟨hnewline, -⟩
    · exact Or.inl hold
    · exact absurd hnewline hb
  owes := by
    obtain ⟨debt, hfree, ⟨queue, hwaiting, hqueue⟩, hsince, hphase⟩ := h.owes
    refine ⟨debt ++ [b], ?_, ⟨queue, ?_, hqueue⟩, ?_, ?_⟩
    · simp [hfree, hb.symm]
    · rw [← hwaiting, List.append_assoc]
      rfl
    · intro streams hcleared
      have hlen := hsince streams hcleared
      rw [length_flatten_all] at hlen ⊢
      simp only [List.length_append, List.length_singleton]
      omega
    · cases hphase with
      | aligned before hstart hlast =>
          exact .aligned before hstart (by rw [hlast, List.append_assoc])
      | resumed sent hsent hearlier hdebt hkept =>
          exact .resumed sent hsent hearlier (by rw [hdebt, List.append_assoc]) hkept
      | dropped before sent hstart hsent hsentFree hlast hcleared =>
          exact .dropped before sent hstart hsent hsentFree
            (by rw [hlast, List.append_assoc, List.append_assoc]) hcleared

/-- A newline ends the line in front, and nothing is taken of the next one. -/
theorem take_newline (h : Tracked lines cleared w (newline :: waiting)) :
    Tracked lines cleared ⟨w.earlier, w.last ++ [newline]⟩ waiting := by
  obtain ⟨debt, hfree, ⟨queue, hwaiting, hqueue⟩, hsince, hphase⟩ := h.owes
  obtain ⟨rest, rfl, hrest⟩ :=
    head_eq_of_newline hfree (fun line hline => (hqueue line hline).2) hwaiting
  have hline : debt ++ [newline] ∈ lines := (hqueue _ List.mem_cons_self).1
  refine ⟨?_, [], nofun, ⟨rest, hrest, ?_⟩, ?_, ?_⟩
  · apply h.origin_of_last
    intro before line hcomplete
    rcases hcomplete.of_concat with hold | ⟨-, body, hbody, rfl, hlast⟩
    · exact Or.inl hold
    · refine Or.inr ?_
      cases hphase with
      | aligned before' hstart hlast' =>
          obtain ⟨rfl, rfl⟩ := eq_of_append_eq_append hcomplete.start hstart hbody hfree
            (hlast.symm.trans hlast')
          exact .whole hline
      | resumed sent hsent hearlier hdebt hkept =>
          have hlastFree : newline ∉ w.last := fun hmem =>
            hfree (hdebt ▸ List.mem_append_right sent hmem)
          obtain ⟨rfl, rfl⟩ := eq_of_append_eq_append hcomplete.start (Or.inl rfl) hbody hlastFree
            hlast.symm
          exact .resumed sent hsent rfl hearlier (by rwa [← List.append_assoc, ← hdebt]) hkept
      | dropped before' sent hstart hsent hsentFree hlast' hcleared =>
          have hrestFree : newline ∉ sent ++ debt := fun hmem =>
            (List.mem_append.1 hmem).elim hsentFree hfree
          obtain ⟨rfl, rfl⟩ := eq_of_append_eq_append hcomplete.start hstart hbody hrestFree
            (hlast.symm.trans hlast')
          exact .dropped sent (debt ++ [newline]) hsent (List.append_assoc ..) hline hcleared
  · exact fun line hmem => hqueue line (List.mem_cons_of_mem _ hmem)
  · intro streams hcleared
    have hlen := hsince streams hcleared
    rw [length_flatten_all] at hlen ⊢
    simp only [List.length_append, List.length_singleton, List.length_nil]
    omega
  · exact .aligned (w.last ++ [newline]) (Or.inr ⟨w.last, rfl⟩) (List.append_nil _).symm

theorem take {bs : Bytes} (h : Tracked lines cleared w (bs ++ waiting)) :
    Tracked lines cleared ⟨w.earlier, w.last ++ bs⟩ waiting := by
  induction bs generalizing w with
  | nil => rwa [List.append_nil]
  | cons b bs ih =>
      have hstep : Tracked lines cleared ⟨w.earlier, w.last ++ [b]⟩ (bs ++ waiting) := by
        by_cases hb : b = newline
        · subst hb
          exact h.take_newline
        · exact h.take_byte hb
      have hrest := ih hstep
      rwa [List.append_assoc] at hrest

/-- A new connection goes on with the line in front where earlier ones stopped. -/
theorem openStream (h : Tracked lines cleared w waiting) :
    Tracked lines cleared ⟨w.all, []⟩ waiting where
  origin := by
    intro earlier stream later hsplit before line hline
    rcases List.eq_nil_or_concat later with rfl | ⟨front, final, rfl⟩
    · obtain ⟨-, hstream⟩ := List.append_inj' hsplit rfl
      rw [← List.singleton_inj.1 hstream] at hline
      exact absurd hline not_lineAt_nil
    · rw [List.concat_eq_append, ← List.cons_append, ← List.append_assoc] at hsplit
      obtain ⟨hall, -⟩ := List.append_inj' hsplit rfl
      exact h.origin earlier stream front hall before line hline
  owes := by
    obtain ⟨debt, hfree, hqueue, hsince, hphase⟩ := h.owes
    refine ⟨debt, hfree, hqueue, ?_, ?_⟩
    · intro streams hcleared
      rw [length_flatten_all]
      exact hsince streams hcleared
    · by_cases hdebt : debt = []
      · exact .aligned [] (Or.inl rfl) (by rw [hdebt]; rfl)
      · refine .resumed debt hdebt ?_ (List.append_nil debt).symm ?_
        · have hall : w.all.flatten = w.earlier.flatten ++ w.last := by
            simp [Streams.all]
          rw [hall]
          cases hphase with
          | aligned before _ hlast =>
              rw [hlast, ← List.append_assoc]
              exact List.suffix_append _ debt
          | resumed sent _ hearlier hsent _ =>
              obtain ⟨front, hfront⟩ := hearlier
              refine ⟨front, ?_⟩
              rw [hsent, ← hfront, List.append_assoc]
          | dropped before sent _ _ _ hlast _ =>
              rw [hlast, ← List.append_assoc, ← List.append_assoc]
              exact List.suffix_append _ debt
        · -- a row was begun since rows were last dropped
          intro streams hcleared heq
          have hlen := hsince streams hcleared
          have hpos := List.length_pos_iff.2 hdebt
          have htotal : streams.flatten.length = w.all.flatten.length := congrArg List.length heq
          omega

theorem events {events : List Event}
    (h : Tracked lines cleared w (events.flatMap Event.taken ++ waiting)) :
    Tracked lines cleared (events.foldl Streams.add w) waiting := by
  induction events generalizing w with
  | nil => exact h
  | cons e events ih =>
      rw [List.flatMap_cons, List.append_assoc] at h
      apply ih
      unfold Streams.add
      split
      · exact h.openStream
      · exact h.take

theorem finish {more : List Bytes} (hmore : ∀ line ∈ more, IsLine line)
    (h : Tracked lines cleared w waiting) :
    Tracked (lines ++ more) cleared w (waiting ++ more.flatten) where
  origin := by
    intro earlier stream later hsplit before line hline
    cases h.origin earlier stream later hsplit before line hline with
    | whole h => exact .whole (List.mem_append_left more h)
    | resumed sent hsent hbefore hearlier h hkept =>
        exact .resumed sent hsent hbefore hearlier (List.mem_append_left more h) hkept
    | dropped sent rest hsent hline h hcleared =>
        exact .dropped sent rest hsent hline (List.mem_append_left more h) hcleared
  owes := by
    obtain ⟨debt, hfree, ⟨queue, hwaiting, hqueue⟩, hsince, hphase⟩ := h.owes
    refine ⟨debt, hfree, ⟨queue ++ more, ?_, ?_⟩, hsince, hphase⟩
    · rw [← List.append_assoc, hwaiting, List.flatten_append]
    · intro line hline
      rcases List.mem_append.1 hline with hline | hline
      · exact ⟨List.mem_append_left _ (hqueue line hline).1, (hqueue line hline).2⟩
      · exact ⟨List.mem_append_right _ hline, hmore line hline⟩

/-- When the rows are dropped, what was taken of the line in front stays where it is. -/
theorem clear {cleared' : List Bytes → Prop} (h : Tracked lines cleared w waiting)
    (hcleared : ∀ streams, cleared' streams ↔ cleared streams ∨ streams = w.all) :
    Tracked lines cleared' w [] where
  origin := by
    intro earlier stream later hsplit before line hline
    cases h.origin earlier stream later hsplit before line hline with
    | whole h => exact .whole h
    | resumed sent hsent hbefore hearlier h hkept =>
        refine .resumed sent hsent hbefore hearlier h fun streams hstreams => ?_
        rcases (hcleared streams).1 hstreams with hold | rfl
        · exact hkept streams hold
        · -- the line itself was taken by now
          rw [hsplit]
          have hstream : stream ≠ [] := by
            rintro rfl
            exact not_lineAt_nil hline
          simp [hstream]
    | dropped sent rest hsent hline h hc =>
        exact .dropped sent rest hsent hline h ((hcleared _).2 (Or.inl hc))
  owes := by
    obtain ⟨debt, hfree, -, hsince, hphase⟩ := h.owes
    refine ⟨[], nofun, ⟨[], rfl, nofun⟩, ?_, ?_⟩
    · intro streams hstreams
      rcases (hcleared streams).1 hstreams with hold | rfl
      · have hlen := hsince streams hold
        simp only [List.length_nil]
        omega
      · exact Nat.le_refl _
    · have hdropped : ∀ before sent, AtLineStart before → newline ∉ sent →
          w.last = before ++ sent → Phase cleared' w [] := by
        intro before sent hstart hsentFree hlast
        by_cases hsent : sent = []
        · exact .aligned before hstart (by rw [hlast, hsent])
        · refine .dropped before sent hstart hsent hsentFree (by rw [hlast, List.append_nil]) ?_
          rw [← hlast]
          exact (hcleared _).2 (Or.inr rfl)
      cases hphase with
      | aligned before hstart hlast => exact hdropped before debt hstart hfree hlast
      | resumed sent _ _ hdebt _ =>
          apply hdropped [] w.last (Or.inl rfl) _ rfl
          exact fun hmem => hfree (hdebt ▸ List.mem_append_right sent hmem)
      | dropped before sent hstart _ hsentFree hlast _ =>
          apply hdropped before (sent ++ debt) hstart _ hlast
          exact fun hmem => (List.mem_append.1 hmem).elim hsentFree hfree

end Tracked

end LineProtocol
