import LineProtocol.Decimal
import LineProtocol.Text.Quoted
/-!
# Encoding of texts as bytes

UTF-8: a text without surrogates has exactly one encoding.  Decoding is total:
a byte that belongs to no well-formed sequence is shown as an escape.
-/

namespace LineProtocol

/-- A maximal run of adjacent surrogates in a text. -/
structure SurrogateRun where
  start : Nat
  first : CodePoint
  length : Nat
deriving DecidableEq, Repr

namespace SurrogateRun

/-- Says which part of the text has no encoding. -/
def message (r : SurrogateRun) : Text :=
  if r.length = 1 then
    Text.ofString "'utf-8' codec can't encode character '" ++ r.first.escape ++
      Text.ofString "' in position " ++ Decimal.text r.start ++
      Text.ofString ": surrogates not allowed"
  else
    Text.ofString "'utf-8' codec can't encode characters in position " ++
      Decimal.text r.start ++ Text.ofString "-" ++ Decimal.text (r.start + r.length - 1) ++
      Text.ofString ": surrogates not allowed"

end SurrogateRun

/-- The UTF-8 sequence of a code point. -/
def CodePoint.utf8 (c : CodePoint) : Bytes :=
  let n := c.val
  if n < 0x80 then [UInt8.ofNat n]
  else if n < 0x800 then [UInt8.ofNat (0xC0 + n / 64), UInt8.ofNat (0x80 + n % 64)]
  else if n < 0x10000 then
    [UInt8.ofNat (0xE0 + n / 4096), UInt8.ofNat (0x80 + n / 64 % 64), UInt8.ofNat (0x80 + n % 64)]
  else
    [UInt8.ofNat (0xF0 + n / 262144), UInt8.ofNat (0x80 + n / 4096 % 64),
      UInt8.ofNat (0x80 + n / 64 % 64), UInt8.ofNat (0x80 + n % 64)]

namespace Text

def surrogateRun? (t : Text) : Option SurrogateRun :=
  match t.dropWhile (fun c => !decide c.IsSurrogate) with
  | [] => none
  | c :: rest =>
    some {
      start := (t.takeWhile fun c => !decide c.IsSurrogate).length
      first := c
      length := (rest.takeWhile fun c => decide c.IsSurrogate).length + 1 }

def utf8 (t : Text) : Bytes := t.flatMap CodePoint.utf8

/-- The encoding of a text, which must hold no surrogate. -/
def encode (t : Text) : Except SurrogateRun Bytes :=
  match t.surrogateRun? with
  | some r => .error r
  | none => .ok t.utf8

end Text

/-- The number that opening bytes would denote if they were a well-formed sequence. -/
def sequenceValue (bs : Bytes) : Nat :=
  let lead := (bs.getD 0 0).toNat
  let tail := fun i => (bs.getD i 0).toNat - 0x80
  if lead < 0x80 then lead
  else if lead < 0xE0 then (lead - 0xC0) * 64 + tail 1
  else if lead < 0xF0 then (lead - 0xE0) * 4096 + tail 1 * 64 + tail 2
  else (lead - 0xF0) * 262144 + tail 1 * 4096 + tail 2 * 64 + tail 3

/-- The code point whose UTF-8 sequence opens the bytes, and the bytes after it. -/
def readCodePoint? (bs : Bytes) : Option (CodePoint × Bytes) :=
  if h : sequenceValue bs < 0x110000 then
    let c : CodePoint := ⟨sequenceValue bs, h⟩
    if ¬c.IsSurrogate ∧ c.utf8.isPrefixOf bs then some (c, bs.drop c.utf8.length) else none
  else none

theorem length_utf8_pos (c : CodePoint) : 0 < c.utf8.length := by
  simp only [CodePoint.utf8]
  repeat' split
  all_goals simp

/-- What was read is the sequence of a code point that is no surrogate. -/
theorem append_of_readCodePoint? {bs rest : Bytes} {c : CodePoint}
    (h : readCodePoint? bs = some (c, rest)) : ¬c.IsSurrogate ∧ c.utf8 ++ rest = bs := by
  simp only [readCodePoint?] at h
  split at h
  · split at h
    · next hc =>
      simp only [Option.some.injEq, Prod.mk.injEq] at h
      obtain ⟨rfl, rfl⟩ := h
      exact ⟨hc.1, List.prefix_iff_eq_append.1 (List.isPrefixOf_iff_prefix.1 hc.2)⟩
    · contradiction
  · contradiction

theorem length_lt_of_readCodePoint? {bs rest : Bytes} {c : CodePoint}
    (h : readCodePoint? bs = some (c, rest)) : rest.length < bs.length := by
  rw [← (append_of_readCodePoint? h).2, List.length_append]
  have := length_utf8_pos c
  omega

/-- The text of the bytes, with an escape for each byte that belongs to no well-formed sequence. -/
def Text.ofUtf8 : Bytes → Text
  | [] => []
  | b :: bs =>
    match _h : readCodePoint? (b :: bs) with
    | some (c, rest) => c :: Text.ofUtf8 rest
    | none => (CodePoint.ofByte b).escape ++ Text.ofUtf8 bs
termination_by bs => bs.length
decreasing_by
  · have := length_lt_of_readCodePoint? _h
    simpa using this
  · simp

end LineProtocol
