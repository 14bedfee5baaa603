import LineProtocol.Binary64
import Mathlib
/-!
# Sums and differences

The sum of a finite number and any number is a number, and so is the difference from
a finite one.  Sums and differences are defined on the numbers without their bits, so
that what kind a number is of has to be told from its bits and from the unpacked form
alike: the exponent and the fraction together lie below, at or above the bits of
infinity.
-/

namespace LineProtocol

namespace Floating.Datum

/-- Whether the datum is greater than zero. -/
def isPositive : Datum → Bool
  | .finite negative significand _ => !negative && significand != 0
  | .infinite negative => !negative
  | .nan => false

def isFinite : Datum → Bool
  | .finite .. => true
  | _ => false

end Floating.Datum

namespace Binary64

open Floating Float.Model Float.Model.UnpackedFloat

def isPositive (x : Binary64) : Bool := x.datum.isPositive

def isFinite (x : Binary64) : Bool := x.datum.isFinite

/-- A number is positive if and only if it is a number and not at most zero. -/
theorem isPositive_of_isNonpositive {x : Binary64} (hnan : x.isNaN = false)
    (h : x.isNonpositive = false) : x.isPositive = true := by
  simp only [isNaN, isNonpositive, isPositive] at hnan h ⊢
  cases hx : x.datum with
  | finite negative significand exponent =>
      rw [hx] at h
      simpa [Datum.isNonpositive, Datum.isPositive] using h
  | infinite negative =>
      rw [hx] at h
      exact congrArg not h
  | nan =>
      rw [hx] at hnan
      contradiction

/-! ## Kinds of numbers -/

/-- The bits other than the sign. -/
def magnitude (x : Binary64) : Nat := x.bits.toNat % 2 ^ 63

/-- How the kind of a number follows from its magnitude, which is compared with that of infinity. -/
structure Kind (magnitude : Nat) (isFinite isNaN : Bool) : Prop where
  finite : isFinite = decide (magnitude < 2047 * 2 ^ 52)
  nan : isNaN = decide (2047 * 2 ^ 52 < magnitude)

theorem kind_datum (x : Binary64) : Kind x.magnitude x.isFinite x.isNaN := by
  have hdatum : x.datum =
      if x.magnitude = 2047 * 2 ^ 52 then .infinite (decide (2 ^ 63 ≤ x.bits.toNat))
      else if 2047 * 2 ^ 52 < x.magnitude then .nan
      else if x.magnitude / 2 ^ 52 = 0 then
        .finite (decide (2 ^ 63 ≤ x.bits.toNat)) (x.magnitude % 2 ^ 52) (Format.minExponent .double)
      else
        .finite (decide (2 ^ 63 ≤ x.bits.toNat)) (2 ^ 52 + x.magnitude % 2 ^ 52)
          (Format.minExponent .double + (x.magnitude / 2 ^ 52 : Nat) - 1) := rfl
  unfold isFinite isNaN
  by_cases hinfinite : x.magnitude = 2047 * 2 ^ 52
  · rw [hdatum, if_pos hinfinite, hinfinite]
    exact ⟨rfl, rfl⟩
  · by_cases hnan : 2047 * 2 ^ 52 < x.magnitude
    · rw [hdatum, if_neg hinfinite, if_pos hnan]
      exact ⟨(decide_eq_false (Nat.lt_asymm hnan)).symm, (decide_eq_true hnan).symm⟩
    · have hfinite : x.magnitude < 2047 * 2 ^ 52 := by omega
      rw [hdatum, if_neg hinfinite, if_neg hnan]
      refine ⟨?_, ?_⟩
      · rw [decide_eq_true hfinite]
        split <;> rfl
      · rw [decide_eq_false hnan]
        split <;> rfl

/-- The number without its bits. -/
def unpacked (x : Binary64) : UnpackedFloat := UnpackedFloat.unpack .binary64 x.bits.toBitVec

theorem toNat_unpackExponent (x : Binary64) :
    (@unpackExponent .binary64 x.bits.toBitVec).toNat = x.magnitude / 2 ^ 52 := by
  have hlt := x.bits.toBitVec.isLt
  simp only [unpackExponent, BitVec.toNat_cast, BitVec.extractLsb_toNat,
    Nat.shiftRight_eq_div_pow, magnitude]
  show x.bits.toNat / 2 ^ 52 % 2 ^ 11 = _
  omega

theorem toNat_unpackMantissa (x : Binary64) :
    (@unpackMantissa .binary64 x.bits.toBitVec).toNat = x.magnitude % 2 ^ 52 := by
  simp only [unpackMantissa, BitVec.toNat_cast, BitVec.extractLsb_toNat,
    Nat.shiftRight_eq_div_pow, magnitude]
  show x.bits.toNat / 2 ^ 0 % 2 ^ 52 = _
  omega

theorem kind_unpacked (x : Binary64) :
    Kind x.magnitude x.unpacked.isFinite x.unpacked.isNaN := by
  have hexponent := x.toNat_unpackExponent
  have hmantissa := x.toNat_unpackMantissa
  have hlt : x.magnitude < 2 ^ 63 := Nat.mod_lt _ (by decide)
  unfold unpacked UnpackedFloat.unpack
  by_cases hones : @unpackExponent .binary64 x.bits.toBitVec = -1#11
  · rw [hones] at hexponent
    replace hexponent : 2047 = x.magnitude / 2 ^ 52 := hexponent
    by_cases hzero : @unpackMantissa .binary64 x.bits.toBitVec = 0#52
    · rw [hzero] at hmantissa
      replace hmantissa : 0 = x.magnitude % 2 ^ 52 := hmantissa
      have hinfinite : x.magnitude = 2047 * 2 ^ 52 := by omega
      simp only [hones, hzero, if_true]
      rw [hinfinite]
      exact ⟨rfl, rfl⟩
    · have hpositive : x.magnitude % 2 ^ 52 ≠ 0 := by
        rw [← hmantissa]
        exact fun h => hzero (BitVec.eq_of_toNat_eq h)
      have hnan : 2047 * 2 ^ 52 < x.magnitude := by omega
      simp only [hones, hzero, if_true, if_false]
      exact ⟨(decide_eq_false (Nat.lt_asymm hnan)).symm, (decide_eq_true hnan).symm⟩
  · have hless : x.magnitude / 2 ^ 52 ≠ 2047 := by
      rw [← hexponent]
      exact fun h => hones (BitVec.eq_of_toNat_eq h)
    have hfinite : x.magnitude < 2047 * 2 ^ 52 := by omega
    simp only [hones, if_false]
    refine ⟨?_, ?_⟩
    · rw [decide_eq_true hfinite]
      split
      · split <;> rfl
      · rfl
    · rw [decide_eq_false (Nat.lt_asymm hfinite)]
      split
      · split <;> rfl
      · rfl

theorem isNaN_unpacked (x : Binary64) : x.unpacked.isNaN = x.isNaN :=
  x.kind_unpacked.nan.trans x.kind_datum.nan.symm

theorem isFinite_unpacked (x : Binary64) : x.unpacked.isFinite = x.isFinite :=
  x.kind_unpacked.finite.trans x.kind_datum.finite.symm

theorem magnitude_of_isFinite {x : Binary64} (h : x.isFinite = true) :
    x.magnitude < 2047 * 2 ^ 52 :=
  of_decide_eq_true (x.kind_datum.finite.symm.trans h)

/-! ## Operations without bits -/

theorem isNaN_normalize (format : Float.Model.Format) (mantissa exponent : Int) (sign : Sign) :
    (UnpackedFloat.normalize format mantissa exponent sign).isNaN = false := by
  have hround : ∀ s m e, (UnpackedFloat.round format s m e).isNaN = false := by
    intro s m e
    simp only [UnpackedFloat.round, roundWithAccuracy]
    split <;> rfl
  unfold UnpackedFloat.normalize
  split
  · exact hround _ _ _
  · rfl
  · exact hround _ _ _

theorem isNaN_add {format : Float.Model.Format} {u v : UnpackedFloat} (hu : u.isFinite = true)
    (hv : v.isNaN = false) : (UnpackedFloat.add format u v).isNaN = false := by
  cases u with
  | infinity | notANumber => contradiction
  | zero s =>
      cases v with
      | notANumber => contradiction
      | infinity | finite => rfl
      | zero t => cases s <;> cases t <;> rfl
  | finite s m e hm =>
      cases v with
      | notANumber => contradiction
      | infinity | zero => rfl
      | finite => exact isNaN_normalize ..

theorem isNaN_sub {format : Float.Model.Format} {u v : UnpackedFloat} (hu : u.isNaN = false)
    (hv : v.isFinite = true) : (UnpackedFloat.sub format u v).isNaN = false := by
  cases v with
  | infinity | notANumber => contradiction
  | zero t =>
      cases u with
      | notANumber => contradiction
      | infinity | finite => rfl
      | zero s => cases s <;> cases t <;> rfl
  | finite t m e hm =>
      cases u with
      | notANumber => contradiction
      | infinity | zero => rfl
      | finite => exact isNaN_normalize ..

/-! ## Packing -/

theorem isFinite_unpack_packComponents {sign : Sign} {exponent : BitVec 11}
    {mantissa : BitVec 52} (h : exponent ≠ -1#11) :
    (UnpackedFloat.unpack .binary64 (packComponents .binary64 sign exponent mantissa)).isFinite =
      true := by
  unfold UnpackedFloat.unpack
  simp only [unpackExponent_packComponents, unpackMantissa_packComponents, h, if_false]
  split
  · split <;> rfl
  · rfl

theorem biased_eq (exponent : Int) :
    (exponent + (Float.Model.Format.exponentBias .binary64 : Nat) + (52 : Nat)).toNat =
      (exponent + 1075).toNat := by
  show (exponent + (1023 : Nat) + (52 : Nat)).toNat = _
  omega

/-- Only an exponent that is too large for the format makes a finite number infinite. -/
theorem isFinite_unpack_pack {sign : Sign} {mantissa : Nat} {exponent : Int}
    {hpositive : 0 < mantissa} (h : (exponent + 1075).toNat < 2047) :
    (UnpackedFloat.unpack .binary64
      (UnpackedFloat.pack .binary64 (.finite sign mantissa exponent hpositive))).isFinite =
      true := by
  unfold UnpackedFloat.pack
  simp only [biased_eq]
  rw [if_neg (by omega)]
  split
  · apply isFinite_unpack_packComponents
    intro hones
    have htoNat := congrArg BitVec.toNat hones
    simp only [BitVec.toNat_ofNat] at htoNat
    replace htoNat : (exponent + 1075).toNat % 2 ^ 11 = 2047 := htoNat
    omega
  · exact isFinite_unpack_packComponents (by decide)

theorem isNaN_of_isFinite_unpacked {u : UnpackedFloat} (h : u.isFinite = true) :
    u.isNaN = false := by
  cases u with
  | notANumber => contradiction
  | infinity | zero | finite => rfl

theorem isNaN_unpack_pack (u : UnpackedFloat) :
    (UnpackedFloat.unpack .binary64 (UnpackedFloat.pack .binary64 u)).isNaN = u.isNaN := by
  cases u with
  | notANumber => rfl
  | infinity sign | zero sign => cases sign <;> rfl
  | finite sign mantissa exponent hpositive =>
      by_cases h : (exponent + 1075).toNat < 2047
      · exact isNaN_of_isFinite_unpacked (isFinite_unpack_pack h)
      · unfold UnpackedFloat.pack
        simp only [biased_eq]
        rw [if_pos (by omega)]
        cases sign <;> rfl

/-- The exponent is one that finite numbers of the format have. -/
def InRange : UnpackedFloat → Prop
  | .zero _ => True
  | .finite _ _ exponent _ => (exponent + 1075).toNat < 2047
  | .infinity _ | .notANumber => False

theorem inRange_unpacked {x : Binary64} (h : x.isFinite = true) : InRange x.unpacked := by
  have hexponent := x.toNat_unpackExponent
  have hsmall := magnitude_of_isFinite h
  have hones : @unpackExponent .binary64 x.bits.toBitVec ≠ -1#11 := by
    intro hones
    rw [hones] at hexponent
    replace hexponent : 2047 = x.magnitude / 2 ^ 52 := hexponent
    omega
  unfold unpacked UnpackedFloat.unpack
  simp only [hones, if_false]
  split
  · next hzero =>
    split
    · exact trivial
    · rw [hzero]
      show _ < 2047
      decide
  · rw [hexponent]
    show ((x.magnitude / 2 ^ 52 : Nat) - ((1023 : Nat) + (52 : Nat) : Int) + 1075).toNat < 2047
    omega

/-- A finite number is still finite after its bits are put together again. -/
theorem isFinite_unpack_pack_unpacked {x : Binary64} (h : x.isFinite = true) :
    (UnpackedFloat.unpack .binary64 (UnpackedFloat.pack .binary64 x.unpacked)).isFinite =
      true := by
  have hrange := inRange_unpacked h
  cases hx : x.unpacked with
  | zero sign => cases sign <;> rfl
  | finite sign mantissa exponent hpositive =>
      rw [hx] at hrange
      exact isFinite_unpack_pack hrange
  | infinity | notANumber =>
      rw [hx] at hrange
      exact hrange.elim

/-! ## Operations -/

theorem isNaN_propagate {x y : Binary64} {result : Float} (hx : x.isNaN = false)
    (hy : y.isNaN = false) (h : result.isNaN = false) :
    (propagate x y result).isNaN = false := by
  unfold propagate
  rw [hx, hy, h, ← isNaN_unpacked]
  exact h

/-- The numbers that operations work on. -/
theorem isNaN_toModel {x : Binary64} (h : x.isNaN = false) :
    (Float.ofBits x.bits).toModel.unpack.isNaN = false := by
  show (UnpackedFloat.unpack .binary64 (UnpackedFloat.pack .binary64 x.unpacked)).isNaN = false
  rw [isNaN_unpack_pack, isNaN_unpacked, h]

theorem isFinite_toModel {x : Binary64} (h : x.isFinite = true) :
    (Float.ofBits x.bits).toModel.unpack.isFinite = true :=
  isFinite_unpack_pack_unpacked h

theorem isNaN_of_isFinite {x : Binary64} (h : x.isFinite = true) : x.isNaN = false := by
  rw [← isNaN_unpacked]
  rw [← isFinite_unpacked] at h
  exact isNaN_of_isFinite_unpacked h

/-- The sum of a finite number and any number is a number. -/
theorem isNaN_finite_add {x y : Binary64} (hx : x.isFinite = true) (hy : y.isNaN = false) :
    (x + y).isNaN = false := by
  refine isNaN_propagate (isNaN_of_isFinite hx) hy ?_
  show (UnpackedFloat.unpack .binary64
    (UnpackedFloat.pack .binary64 (UnpackedFloat.add _ _ _))).isNaN = false
  rw [isNaN_unpack_pack]
  exact isNaN_add (isFinite_toModel hx) (isNaN_toModel hy)

theorem isNaN_sub_finite {x y : Binary64} (hx : x.isNaN = false) (hy : y.isFinite = true) :
    (x - y).isNaN = false := by
  refine isNaN_propagate hx (isNaN_of_isFinite hy) ?_
  show (UnpackedFloat.unpack .binary64
    (UnpackedFloat.pack .binary64 (UnpackedFloat.sub _ _ _))).isNaN = false
  rw [isNaN_unpack_pack]
  exact isNaN_sub (isNaN_toModel hx) (isFinite_toModel hy)

/-! ## Quotients -/

theorem isFinite_of_ofFraction? {negative : Bool} {num den : Nat} {x : Binary64}
    (h : ofFraction? negative num den = some x) : x.isFinite = true := by
  simp only [ofFraction?] at h
  split at h
  · next hbits =>
    cases h
    replace hbits : nearestBits .double num den < 2047 * 2 ^ 52 := hbits
    have hmagnitude : magnitude ⟨UInt64.ofNat (nearestBits .double num den +
        if negative then Format.signBit .double else 0)⟩ = nearestBits .double num den := by
      have hsign : Format.signBit .double = 2 ^ 63 := by decide
      simp only [magnitude, hsign, UInt64.toNat_ofNat']
      split <;> omega
    rw [(kind_datum _).finite, hmagnitude]
    exact decide_eq_true hbits
  · contradiction

end Binary64

end LineProtocol
