import Mathlib.Algebra.Order.Ring.Int
import Mathlib.Data.Nat.Cast.Order.Ring
import OpMove.GasFees
import OpMove.HeadTail

/-!
The two fee formulas against what they are meant to compute, in unbounded integers. The Ecotone
cost divides by sixteen million at the end, where the code divides by sixteen first and never by
a million; the base fee agrees with EIP-1559 as long as fees stay below 2^128.
-/

namespace OpMove.FeeFormulas

open Primitives GasFees HeadTail

section LayerOne

/-- The fields of an L1-attributes calldata that decide the cost of publishing. -/
structure L1Attributes where
  baseFeeScalar : ℕ
  blobBaseFeeScalar : ℕ
  l1BaseFee : ℕ
  l1BlobBaseFee : ℕ
  deriving DecidableEq, Repr

/-- The big-endian field of the calldata from `lo` up to `hi`. -/
def fieldAt (data : Bytes) (lo hi : ℕ) : ℕ := beNat ((data.take hi).drop lo)

def attributesOf (data : Bytes) : L1Attributes where
  baseFeeScalar := fieldAt data 4 8
  blobBaseFeeScalar := fieldAt data 8 12
  l1BaseFee := fieldAt data 36 68
  l1BlobBaseFee := fieldAt data 68 100

def zeros (tx : Bytes) : ℕ := tx.countP (· == 0)

def nonZeros (tx : Bytes) : ℕ := tx.countP (· != 0)

namespace L1Attributes

/-- Sixteen times the price of one unit, still scaled by a million. -/
def weightedPrice (l1 : L1Attributes) : ℕ :=
  16 * l1.baseFeeScalar * l1.l1BaseFee + l1.blobBaseFeeScalar * l1.l1BlobBaseFee

/-- The cost that the Ecotone upgrade specifies for `z` zero and `n` other bytes. -/
def ecotoneCost (l1 : L1Attributes) (z n : ℕ) : ℕ :=
  (4 * z + 16 * n) * l1.weightedPrice / (16 * 10 ^ 6)

/-- The cost that the code's own expression has when no operation wraps. -/
def codedCost (l1 : L1Attributes) (z n : ℕ) : ℕ := (4 * z + 16 * n) / 16 * l1.weightedPrice

/-- The same scalars with fees that are no lower. -/
structure FeesUpTo (l1 higher : L1Attributes) : Prop where
  baseFeeScalar : l1.baseFeeScalar = higher.baseFeeScalar
  blobBaseFeeScalar : l1.blobBaseFeeScalar = higher.blobBaseFeeScalar
  l1BaseFee : l1.l1BaseFee ≤ higher.l1BaseFee
  l1BlobBaseFee : l1.l1BlobBaseFee ≤ higher.l1BlobBaseFee

theorem FeesUpTo.weightedPrice_le {l1 higher : L1Attributes} (h : l1.FeesUpTo higher) :
    l1.weightedPrice ≤ higher.weightedPrice := by
  have hbase := h.l1BaseFee
  have hblob := h.l1BlobBaseFee
  unfold weightedPrice
  rw [h.baseFeeScalar, h.blobBaseFeeScalar]
  gcongr

theorem FeesUpTo.codedCost_le {l1 higher : L1Attributes} (h : l1.FeesUpTo higher) {z n z' n' : ℕ}
    (hz : z ≤ z') (hn : n ≤ n') : l1.codedCost z n ≤ higher.codedCost z' n' := by
  have hprice := h.weightedPrice_le
  unfold codedCost
  gcongr

end L1Attributes

theorem fieldAt_lt {data : Bytes} {lo hi : ℕ} (h : hi - lo ≤ 32) :
    fieldAt data lo hi < 2 ^ 256 := by
  have hlength : ((data.take hi).drop lo).reverse.length ≤ 32 := by
    simp only [List.length_reverse, List.length_drop, List.length_take]
    omega
  have hlt := leNat_lt ((data.take hi).drop lo).reverse
  rw [fieldAt, beNat_eq_leNat_reverse]
  calc leNat ((data.take hi).drop lo).reverse
      < 256 ^ ((data.take hi).drop lo).reverse.length := hlt
    _ ≤ 256 ^ 32 := Nat.pow_le_pow_right (by omega) hlength
    _ = 2 ^ 256 := by norm_num

theorem zeros_add_nonZeros (tx : Bytes) : zeros tx + nonZeros tx = tx.length := by
  have h := List.length_eq_countP_add_countP (fun b : UInt8 => b == 0) (l := tx)
  have hnon : nonZeros tx = tx.countP fun b => !(b == 0) := rfl
  rw [zeros, hnon]
  simp only [Bool.not_eq_true, Bool.decide_eq_false] at h
  omega

theorem forDeposit_fields {data : Bytes} (hdata : 100 ≤ data.length) :
    ∃ fee, EcotoneGasFee.forDeposit data = some fee ∧
      fee.baseFee.toNat = (attributesOf data).l1BaseFee ∧
      fee.baseFeeScalar.toNat = (attributesOf data).baseFeeScalar ∧
      fee.blobBaseFee.toNat = (attributesOf data).l1BlobBaseFee ∧
      fee.blobBaseFeeScalar.toNat = (attributesOf data).blobBaseFeeScalar := by
  have hfield : ∀ {lo hi : ℕ}, hi - lo ≤ 32 →
      (BitVec.ofNat 256 (fieldAt data lo hi)).toNat = fieldAt data lo hi := fun h => by
    rw [BitVec.toNat_ofNat, Nat.mod_eq_of_lt (fieldAt_lt h)]
  refine ⟨_, if_neg (by omega), ?_, ?_, ?_, ?_⟩
  all_goals exact hfield (by omega)

/-- The fee wraps at 2^256 and nothing else happens to its exact value. -/
theorem toNat_l1Fee {data tx : Bytes} {fee : EcotoneGasFee}
    (hfee : EcotoneGasFee.forDeposit data = some fee) (hdata : 100 ≤ data.length)
    (htx : tx.length ≤ maxU64) :
    (fee.l1Fee (.ofBytes tx)).toNat =
      (attributesOf data).codedCost (zeros tx) (nonZeros tx) % 2 ^ 256 := by
  obtain ⟨_, hfee', hbase, hbaseScalar, hblob, hblobScalar⟩ := forDeposit_fields hdata
  obtain rfl := Option.some.inj (hfee.symm.trans hfee')
  have hsum := zeros_add_nonZeros tx
  unfold maxU64 at htx
  have hzero : (L1GasFeeInput.ofBytes tx).zeroBytes.toNat = zeros tx := by
    show (BitVec.ofNat 256 (zeros tx)).toNat = zeros tx
    rw [BitVec.toNat_ofNat]
    omega
  have hnonZero : (L1GasFeeInput.ofBytes tx).nonZeroBytes.toNat = nonZeros tx := by
    show (BitVec.ofNat 256 tx.length - BitVec.ofNat 256 (zeros tx)).toNat = nonZeros tx
    rw [BitVec.toNat_sub, BitVec.toNat_ofNat, BitVec.toNat_ofNat]
    omega
  have hsize : (EcotoneGasFee.txCompressedSize (.ofBytes tx)).toNat =
      (4 * zeros tx + 16 * nonZeros tx) / 16 := by
    simp only [EcotoneGasFee.txCompressedSize, BitVec.toNat_udiv, BitVec.toNat_add,
      BitVec.toNat_mul, hzero, hnonZero]
    have hfour : EcotoneGasFee.zeroByteMultiplier.toNat = 4 := rfl
    have hsixteen : EcotoneGasFee.gasPriceMultiplier.toNat = 16 := rfl
    rw [hfour, hsixteen]
    omega
  have hprice : fee.weightedGasPrice.toNat = (attributesOf data).weightedPrice % 2 ^ 256 := by
    have hsixteen : EcotoneGasFee.gasPriceMultiplier.toNat = 16 := rfl
    simp only [EcotoneGasFee.weightedGasPrice, BitVec.toNat_add, BitVec.toNat_mul, hsixteen, hbase,
      hbaseScalar, hblob, hblobScalar, Nat.mod_mul_mod, ← Nat.add_mod,
      L1Attributes.weightedPrice]
  rw [EcotoneGasFee.l1Fee, BitVec.toNat_mul, hsize, hprice, Nat.mul_mod_mod,
    L1Attributes.codedCost]

/-- Once a transaction fills a unit and units have a price, the code charges more than the
specified cost: a unit is never worth a million. -/
theorem ecotoneCost_lt_codedCost {l1 : L1Attributes} {z n : ℕ} (hsize : 16 ≤ 4 * z + 16 * n)
    (hprice : 0 < l1.weightedPrice) : l1.ecotoneCost z n < l1.codedCost z n := by
  apply Nat.div_lt_of_lt_mul
  have hunits : 4 * z + 16 * n < 16 * 10 ^ 6 * ((4 * z + 16 * n) / 16) := by omega
  calc (4 * z + 16 * n) * l1.weightedPrice
      < 16 * 10 ^ 6 * ((4 * z + 16 * n) / 16) * l1.weightedPrice :=
        Nat.mul_lt_mul_of_pos_right hunits hprice
    _ = 16 * 10 ^ 6 * ((4 * z + 16 * n) / 16 * l1.weightedPrice) := Nat.mul_assoc _ _ _

/-- The fee is the Ecotone cost, cut off at the largest word, and no operation wrapped. -/
structure FollowsEcotone (fee : EcotoneGasFee) (l1 : L1Attributes) (tx : Bytes) : Prop where
  exact : (fee.l1Fee (.ofBytes tx)).toNat =
    min (l1.ecotoneCost (zeros tx) (nonZeros tx)) (2 ^ 256 - 1)
  unwrapped : (fee.l1Fee (.ofBytes tx)).toNat = l1.codedCost (zeros tx) (nonZeros tx)

/-- Units have no price, or the bytes are up to three zeros whose cost rounds to zero. -/
def CostsNothing (l1 : L1Attributes) (z n : ℕ) : Prop :=
  l1.weightedPrice = 0 ∨ n = 0 ∧ z ≤ 3 ∧ z * l1.weightedPrice < 4 * 10 ^ 6

theorem costs_of_costsNothing {l1 : L1Attributes} {z n : ℕ} (h : CostsNothing l1 z n) :
    l1.ecotoneCost z n = 0 ∧ l1.codedCost z n = 0 := by
  rcases h with hprice | ⟨rfl, hz, hprice⟩
  · simp [L1Attributes.ecotoneCost, L1Attributes.codedCost, hprice]
  · constructor
    · apply Nat.div_eq_of_lt
      have hassoc : (4 * z + 16 * 0) * l1.weightedPrice = 4 * (z * l1.weightedPrice) := by ring
      omega
    · have hunits : (4 * z + 16 * 0) / 16 = 0 := by omega
      rw [L1Attributes.codedCost, hunits, Nat.zero_mul]

theorem costsNothing_of_ecotoneCost_eq {l1 : L1Attributes} {z n : ℕ}
    (h : l1.codedCost z n = min (l1.ecotoneCost z n) (2 ^ 256 - 1)) : CostsNothing l1 z n := by
  by_cases hprice : l1.weightedPrice = 0
  · exact Or.inl hprice
  · right
    have hsmall : 4 * z + 16 * n < 16 := by
      by_contra hsize
      have hlt := ecotoneCost_lt_codedCost (Nat.le_of_not_lt hsize) (Nat.pos_of_ne_zero hprice)
      omega
    obtain ⟨rfl, hz⟩ : n = 0 ∧ z ≤ 3 := by omega
    have hunits : (4 * z + 16 * 0) / 16 = 0 := by omega
    have hcost : l1.ecotoneCost z 0 = 0 := by
      rw [L1Attributes.codedCost, hunits, Nat.zero_mul] at h
      omega
    have hlt := (Nat.div_eq_zero_iff.mp hcost).resolve_left (by norm_num)
    have hassoc : (4 * z + 16 * 0) * l1.weightedPrice = 4 * (z * l1.weightedPrice) := by ring
    exact ⟨rfl, hz, by omega⟩

/-- The code charges the Ecotone cost exactly where it charges nothing. Below the point where it
wraps, the fee grows with the bytes and with both fees of layer one. -/
theorem l1Fee_follows_ecotone_iff {data tx : Bytes} (hdata : 100 ≤ data.length)
    (htx : tx.length ≤ maxU64) :
    ∃ fee, EcotoneGasFee.forDeposit data = some fee ∧
      (FollowsEcotone fee (attributesOf data) tx ↔
        CostsNothing (attributesOf data) (zeros tx) (nonZeros tx)) ∧
      ∀ (data' tx' : Bytes) (fee' : EcotoneGasFee),
        EcotoneGasFee.forDeposit data' = some fee' → 100 ≤ data'.length → tx'.length ≤ maxU64 →
        (attributesOf data').FeesUpTo (attributesOf data) → zeros tx' ≤ zeros tx →
        nonZeros tx' ≤ nonZeros tx →
        (attributesOf data).codedCost (zeros tx) (nonZeros tx) < 2 ^ 256 →
        (fee'.l1Fee (.ofBytes tx')).toNat ≤ (fee.l1Fee (.ofBytes tx)).toNat := by
  obtain ⟨fee, hfee, -⟩ := forDeposit_fields hdata
  have hvalue := toNat_l1Fee hfee hdata htx
  refine ⟨fee, hfee, ⟨fun h => ?_, fun h => ?_⟩, ?_⟩
  · exact costsNothing_of_ecotoneCost_eq (h.unwrapped.symm.trans h.exact)
  · obtain ⟨hecotone, hcoded⟩ := costs_of_costsNothing h
    rw [hcoded, Nat.zero_mod] at hvalue
    exact ⟨by rw [hvalue, hecotone, Nat.zero_min], by rw [hvalue, hcoded]⟩
  · intro data' tx' fee' hfee' hdata' htx' hfees hz hn hfits
    have hle := hfees.codedCost_le hz hn
    rw [hvalue, toNat_l1Fee hfee' hdata' htx', Nat.mod_eq_of_lt hfits,
      Nat.mod_eq_of_lt (hle.trans_lt hfits)]
    exact hle

/-- Calldata of `setL1BlockValuesEcotone` with a base fee scalar and an L1 base fee. -/
def sampleCalldata (baseFeeScalar l1BaseFee : ℕ) : Bytes :=
  [0x44, 0x0a, 0x5e, 0x20] ++ (leBytes 4 baseFeeScalar).reverse ++ List.replicate 28 0 ++
    word l1BaseFee ++ word 0

theorem l1Fee_follows_ecotone_sample : ∃ fee,
    EcotoneGasFee.forDeposit (sampleCalldata 1368 90) = some fee ∧
      FollowsEcotone fee (attributesOf (sampleCalldata 1368 90)) [0, 0] := by
  have hdata : 100 ≤ (sampleCalldata 1368 90).length := by decide +kernel
  have htx : ([0, 0] : Bytes).length ≤ maxU64 := by decide
  obtain ⟨fee, hfee, hiff, -⟩ := l1Fee_follows_ecotone_iff hdata htx
  exact ⟨fee, hfee, hiff.mpr (Or.inr (by decide +kernel))⟩

/-- One non-zero byte is charged 16 where its cost is 0, and a sixteen-fold product of the L1
base fee wraps to nothing. -/
theorem l1Fee_misses_ecotone :
    (EcotoneGasFee.forDeposit (sampleCalldata 1 1)).map
        (fun fee => (fee.l1Fee (.ofBytes [1])).toNat) = some 16 ∧
      (attributesOf (sampleCalldata 1 1)).ecotoneCost (zeros [1]) (nonZeros [1]) = 0 ∧
      (EcotoneGasFee.forDeposit (sampleCalldata 1 (2 ^ 252))).map
        (fun fee => (fee.l1Fee (.ofBytes [1])).toNat) = some 0 ∧
      (attributesOf (sampleCalldata 1 (2 ^ 252))).ecotoneCost (zeros [1]) (nonZeros [1]) =
        2 ^ 256 / 10 ^ 6 := by
  decide +kernel

end LayerOne

section BaseFee

/-- The base fee after a block with gas target `t` and gas used `u`, in unbounded integers. -/
def exactBaseFee (d t u f : ℤ) : ℤ :=
  if u = t then f
  else if t < u then f + max 1 (f * (u - t) / t / d)
  else f - f * (t - u) / t / d

/-- The change of the fee, as the code computes it from a distance to the target. -/
def feeChange (d t distance f : ℕ) : ℕ := min (f * distance) (2 ^ 256 - 1) / t / d

theorem feeChange_le {d t distance f : ℕ} (hdistance : distance ≤ t) :
    feeChange d t distance f ≤ f := by
  rcases Nat.eq_zero_or_pos t with rfl | ht
  · simp [feeChange]
  · have hmul : min (f * distance) (2 ^ 256 - 1) ≤ f * t :=
      (min_le_left _ _).trans (Nat.mul_le_mul_left f hdistance)
    calc feeChange d t distance f
        ≤ min (f * distance) (2 ^ 256 - 1) / t := Nat.div_le_self _ _
      _ ≤ f * t / t := Nat.div_le_div_right hmul
      _ = f := Nat.mul_div_cancel f ht

theorem feeChange_mono {d t distance farther f : ℕ} (h : distance ≤ farther) :
    feeChange d t distance f ≤ feeChange d t farther f := by
  unfold feeChange
  gcongr

theorem feeChange_le_div {d t distance f : ℕ} (hdistance : distance ≤ t) :
    feeChange d t distance f ≤ f / d := by
  have h : feeChange 1 t distance f ≤ f := feeChange_le hdistance
  rw [feeChange, Nat.div_one] at h
  exact Nat.div_le_div_right h

theorem toNat_ofNat_of_fits {n : ℕ} (h : n ≤ maxU64) : (BitVec.ofNat 256 n).toNat = n := by
  unfold maxU64 at h
  rw [BitVec.toNat_ofNat]
  omega

/-- Both divisions of a change succeed and round as they do on integers. -/
theorem share_eq {d f : U256} {t distance : ℕ} (hd : d ≠ 0) (ht : 0 < t) (htarget : t ≤ maxU64)
    (hdistance : distance ≤ maxU64) :
    ∃ delta : U256, (do
        let scaled ← checkedDiv (U256.saturatingMul f (BitVec.ofNat 256 distance))
          (BitVec.ofNat 256 t)
        checkedDiv scaled d) = some delta ∧ delta.toNat = feeChange d.toNat t distance f.toNat := by
  have hzero : BitVec.ofNat 256 t ≠ 0 := by
    intro h
    have hnat := congrArg BitVec.toNat h
    rw [toNat_ofNat_of_fits htarget] at hnat
    exact ht.ne' hnat
  refine ⟨U256.saturatingMul f (BitVec.ofNat 256 distance) / BitVec.ofNat 256 t / d, ?_, ?_⟩
  · rw [checkedDiv, if_neg hzero]
    exact if_neg hd
  · rw [BitVec.toNat_udiv, BitVec.toNat_udiv, U256.toNat_saturatingMul,
      toNat_ofNat_of_fits htarget, toNat_ofNat_of_fits hdistance]
    rfl

section Parameters

variable {fee : Eip1559GasFee} {limit used : ℕ} {f : U256}

/-- `Eip1559GasFee::new` asserts both. -/
structure Accepted (fee : Eip1559GasFee) : Prop where
  elasticityMultiplier : 0 < fee.elasticityMultiplier
  baseFeeMaxChangeDenominator : fee.baseFeeMaxChangeDenominator ≠ 0

def gasTarget (fee : Eip1559GasFee) (limit : ℕ) : ℕ := limit / fee.elasticityMultiplier

/-- The change for a block that used `used` of its gas. -/
def changeAfter (fee : Eip1559GasFee) (limit used f : ℕ) : ℕ :=
  feeChange fee.baseFeeMaxChangeDenominator.toNat (gasTarget fee limit)
    (max used (gasTarget fee limit) - min used (gasTarget fee limit)) f

theorem gasTarget_le (hlimit : limit ≤ maxU64) : gasTarget fee limit ≤ maxU64 :=
  (Nat.div_le_self _ _).trans hlimit

theorem baseFeePerGas_of_above (hfee : Accepted fee) (hlimit : limit ≤ maxU64)
    (hused : used ≤ maxU64) (ht : 0 < gasTarget fee limit) (h : gasTarget fee limit < used) :
    ∃ next, fee.baseFeePerGas limit used f = some next ∧
      next.toNat = min (f.toNat + max 1 (changeAfter fee limit used f.toNat)) (2 ^ 256 - 1) := by
  obtain ⟨delta, hdelta, hvalue⟩ := share_eq (f := f) hfee.baseFeeMaxChangeDenominator ht
    (gasTarget_le hlimit) (show used - gasTarget fee limit ≤ maxU64 by omega)
  refine ⟨U256.saturatingAdd f (U256.max delta 1), ?_, ?_⟩
  · have hlt : limit / fee.elasticityMultiplier < used := h
    rw [Eip1559GasFee.baseFeePerGas, if_neg hfee.elasticityMultiplier.ne']
    simp only [hlt, if_true]
    rw [gasTarget] at hdelta
    rw [hdelta]
    rfl
  · have hone : (1 : U256).toNat = 1 := rfl
    have hchange : changeAfter fee limit used f.toNat = delta.toNat := by
      rw [changeAfter, max_eq_left h.le, min_eq_right h.le, hvalue]
    rw [U256.toNat_saturatingAdd, U256.toNat_max, hone, hchange]
    exact congrArg (fun n => min (f.toNat + n) _) (max_comm _ _)

theorem baseFeePerGas_of_below (hfee : Accepted fee) (hlimit : limit ≤ maxU64)
    (h : used < gasTarget fee limit) :
    ∃ next, fee.baseFeePerGas limit used f = some next ∧
      next.toNat = f.toNat - changeAfter fee limit used f.toNat := by
  have hfits : gasTarget fee limit ≤ maxU64 := gasTarget_le hlimit
  obtain ⟨delta, hdelta, hvalue⟩ := share_eq (f := f) hfee.baseFeeMaxChangeDenominator
    (Nat.zero_lt_of_lt h) hfits (show gasTarget fee limit - used ≤ maxU64 by omega)
  refine ⟨U256.saturatingSub f delta, ?_, ?_⟩
  · have hlt : used < limit / fee.elasticityMultiplier := h
    have hnot : ¬ limit / fee.elasticityMultiplier < used := by omega
    rw [Eip1559GasFee.baseFeePerGas, if_neg hfee.elasticityMultiplier.ne']
    simp only [hlt, hnot, if_true, if_false]
    rw [gasTarget] at hdelta
    rw [hdelta]
    rfl
  · rw [U256.toNat_saturatingSub, hvalue, changeAfter, max_eq_right h.le, min_eq_left h.le]

theorem baseFeePerGas_of_eq (hfee : Accepted fee) (h : used = gasTarget fee limit) :
    fee.baseFeePerGas limit used f = some f := by
  have heq : limit / fee.elasticityMultiplier = used := h.symm
  rw [Eip1559GasFee.baseFeePerGas, if_neg hfee.elasticityMultiplier.ne']
  simp only [heq, lt_irrefl, if_false]

/-- The value of the fee, with the saturating operations written out. -/
def feeAfter (fee : Eip1559GasFee) (limit used f : ℕ) : ℕ :=
  if used = gasTarget fee limit then f
  else if gasTarget fee limit < used then
    min (f + max 1 (changeAfter fee limit used f)) (2 ^ 256 - 1)
  else f - changeAfter fee limit used f

theorem baseFeePerGas_eq (hfee : Accepted fee) (hlimit : limit ≤ maxU64) (hused : used ≤ maxU64)
    (ht : 0 < gasTarget fee limit) (f : U256) :
    ∃ next, fee.baseFeePerGas limit used f = some next ∧
      next.toNat = feeAfter fee limit used f.toNat := by
  rcases lt_trichotomy used (gasTarget fee limit) with h | h | h
  · rw [feeAfter, if_neg h.ne, if_neg h.not_gt]
    exact baseFeePerGas_of_below hfee hlimit h
  · rw [feeAfter, if_pos h]
    exact ⟨f, baseFeePerGas_of_eq hfee h, rfl⟩
  · rw [feeAfter, if_neg h.ne', if_pos h]
    exact baseFeePerGas_of_above hfee hlimit hused ht h

theorem changeAfter_le_of_below {f : ℕ} (h : used ≤ gasTarget fee limit) :
    changeAfter fee limit used f ≤ f / fee.baseFeeMaxChangeDenominator.toNat ∧
      changeAfter fee limit used f ≤ f := by
  have hdistance : max used (gasTarget fee limit) - min used (gasTarget fee limit) ≤
      gasTarget fee limit := by omega
  exact ⟨feeChange_le_div hdistance, feeChange_le hdistance⟩

/-- More gas used never lowers the next fee. -/
theorem feeAfter_mono {more f : ℕ} (hf : f < 2 ^ 256) (h : used ≤ more) :
    feeAfter fee limit used f ≤ feeAfter fee limit more f := by
  have hfewer : used ≤ gasTarget fee limit → feeAfter fee limit used f ≤ f := fun hle => by
    unfold feeAfter
    split_ifs <;> omega
  have hmore : gasTarget fee limit ≤ more → f ≤ feeAfter fee limit more f := fun hle => by
    unfold feeAfter
    split_ifs <;> omega
  rcases lt_or_ge more (gasTarget fee limit) with hlow | hhigh
  · -- both below: the larger distance takes more away
    have hchange : changeAfter fee limit more f ≤ changeAfter fee limit used f := by
      apply feeChange_mono
      omega
    rw [feeAfter, if_neg (by omega), if_neg (by omega), feeAfter, if_neg (by omega),
      if_neg (by omega)]
    omega
  · rcases le_or_gt used (gasTarget fee limit) with hle | habove
    · exact (hfewer hle).trans (hmore hhigh)
    · have hchange : changeAfter fee limit used f ≤ changeAfter fee limit more f := by
        apply feeChange_mono
        omega
      rw [feeAfter, if_neg (by omega), if_pos habove, feeAfter, if_neg (by omega),
        if_pos (by omega)]
      omega

/-- No product saturates while fees stay below 2^128. -/
theorem product_lt {t f : ℕ} (hf : f < 2 ^ 128) (ht : t ≤ maxU64) (hused : used ≤ maxU64) :
    f * (max used t - min used t) < 2 ^ 192 := by
  have hdistance : max used t - min used t < 2 ^ 64 := by
    unfold maxU64 at ht hused
    omega
  calc f * (max used t - min used t)
      < 2 ^ 128 * 2 ^ 64 := Nat.mul_lt_mul'' hf hdistance
    _ = 2 ^ 192 := by norm_num

theorem changeAfter_eq (fee : Eip1559GasFee) {f : ℕ} (hf : f < 2 ^ 128) (hlimit : limit ≤ maxU64)
    (hused : used ≤ maxU64) :
    changeAfter fee limit used f =
        f * (max used (gasTarget fee limit) - min used (gasTarget fee limit)) /
          gasTarget fee limit / fee.baseFeeMaxChangeDenominator.toNat ∧
      changeAfter fee limit used f < 2 ^ 192 := by
  have hfits : gasTarget fee limit ≤ maxU64 := gasTarget_le hlimit
  have hproduct := product_lt hf hfits hused
  have heq : changeAfter fee limit used f =
      f * (max used (gasTarget fee limit) - min used (gasTarget fee limit)) /
        gasTarget fee limit / fee.baseFeeMaxChangeDenominator.toNat := by
    rw [changeAfter, feeChange, min_eq_left (by omega)]
  refine ⟨heq, ?_⟩
  rw [heq]
  exact ((Nat.div_le_self _ _).trans (Nat.div_le_self _ _)).trans_lt hproduct

theorem feeAfter_exact {f : ℕ} (hf : f < 2 ^ 128) (hlimit : limit ≤ maxU64)
    (hused : used ≤ maxU64) :
    (feeAfter fee limit used f : ℤ) =
      exactBaseFee fee.baseFeeMaxChangeDenominator.toNat (gasTarget fee limit) used f := by
  obtain ⟨hchange, hlt⟩ := changeAfter_eq fee hf hlimit hused
  rcases lt_trichotomy used (gasTarget fee limit) with h | h | h
  · have hle : changeAfter fee limit used f ≤ f := (changeAfter_le_of_below h.le).2
    rw [feeAfter, if_neg h.ne, if_neg h.not_gt, exactBaseFee, if_neg (by omega), if_neg (by omega),
      Nat.cast_sub hle, hchange, max_eq_right h.le, min_eq_left h.le]
    push_cast [Nat.cast_sub h.le]
    rfl
  · rw [feeAfter, if_pos h, exactBaseFee, if_pos (by omega)]
  · rw [feeAfter, if_neg h.ne', if_pos h, exactBaseFee, if_neg (by omega), if_pos (by omega),
      min_eq_left (by omega), hchange, max_eq_left h.le, min_eq_right h.le]
    push_cast [Nat.cast_sub h.le, Nat.cast_max]
    rfl

/-- The next fee has its exact value, no saturating operation is cut off, and the fee moves
towards the demand. -/
structure FollowsEip1559 (fee : Eip1559GasFee) (limit used : ℕ) (f next : U256) : Prop where
  exact : (next.toNat : ℤ) = exactBaseFee fee.baseFeeMaxChangeDenominator.toNat
    (gasTarget fee limit) used f.toNat
  product : f.toNat * (max used (gasTarget fee limit) - min used (gasTarget fee limit)) < 2 ^ 256
  sum : gasTarget fee limit < used → f.toNat + max 1 (changeAfter fee limit used f.toNat) < 2 ^ 256
  difference : used < gasTarget fee limit → changeAfter fee limit used f.toNat ≤ f.toNat
  above : gasTarget fee limit < used → f.toNat < next.toNat
  below : used < gasTarget fee limit →
    next.toNat ≤ f.toNat ∧ f.toNat - f.toNat / fee.baseFeeMaxChangeDenominator.toNat ≤ next.toNat

theorem followsEip1559 {next : U256} (hf : f.toNat < 2 ^ 128) (hlimit : limit ≤ maxU64)
    (hused : used ≤ maxU64) (hnext : next.toNat = feeAfter fee limit used f.toNat) :
    FollowsEip1559 fee limit used f next := by
  obtain ⟨-, hlt⟩ := changeAfter_eq fee hf hlimit hused
  have hfits : gasTarget fee limit ≤ maxU64 := gasTarget_le hlimit
  have hproduct := product_lt hf hfits hused
  refine ⟨?_, by omega, fun _ => by omega, fun h => (changeAfter_le_of_below h.le).2,
    fun h => ?_, fun h => ?_⟩
  · rw [hnext]
    exact feeAfter_exact hf hlimit hused
  · rw [hnext, feeAfter, if_neg h.ne', if_pos h]
    omega
  · have hle : changeAfter fee limit used f.toNat ≤
        f.toNat / fee.baseFeeMaxChangeDenominator.toNat ∧
          changeAfter fee limit used f.toNat ≤ f.toNat :=
      changeAfter_le_of_below h.le
    rw [hnext, feeAfter, if_neg h.ne, if_neg h.not_gt]
    omega

end Parameters

/-- The base fee after a chain of blocks, given by their gas limits and the gas they used. -/
def baseFeeAlong (fee : Eip1559GasFee) (start : U256) (blocks : List (ℕ × ℕ)) : Option U256 :=
  blocks.foldlM (fun f block => fee.baseFeePerGas block.1 block.2 f) start

/-- A block whose fields fit their type and whose target is positive. -/
def Targets (fee : Eip1559GasFee) (block : ℕ × ℕ) : Prop :=
  block.1 ≤ maxU64 ∧ block.2 ≤ maxU64 ∧ 0 < gasTarget fee block.1

theorem isSome_baseFeeAlong {fee : Eip1559GasFee} (hfee : Accepted fee) (start : U256)
    {blocks : List (ℕ × ℕ)} (hblocks : ∀ block ∈ blocks, Targets fee block) :
    ∃ f, baseFeeAlong fee start blocks = some f := by
  induction blocks generalizing start with
  | nil => exact ⟨start, rfl⟩
  | cons block blocks ih =>
    obtain ⟨hlimit, hused, ht⟩ := hblocks block List.mem_cons_self
    obtain ⟨next, hnext, -⟩ := baseFeePerGas_eq hfee hlimit hused ht start
    obtain ⟨f, hf⟩ := ih next fun other hother => hblocks other (List.mem_cons_of_mem _ hother)
    refine ⟨f, ?_⟩
    rw [baseFeeAlong, List.foldlM_cons, hnext]
    exact hf

/-- EIP-1559 for one block and for chains: below 2^128 the fee is exact, it is monotone in the
gas used, and along any chain a decrease never exceeds the fee it is taken from. -/
theorem baseFee_follows_eip1559 {fee : Eip1559GasFee} (hfee : Accepted fee) :
    (∀ (limit used : ℕ) (f : U256), limit ≤ maxU64 → used ≤ maxU64 → 0 < gasTarget fee limit →
      f.toNat < 2 ^ 128 → ∃ next, fee.baseFeePerGas limit used f = some next ∧
        FollowsEip1559 fee limit used f next ∧
        ∀ more, used ≤ more → more ≤ maxU64 → ∃ next', fee.baseFeePerGas limit more f = some next' ∧
          next.toNat ≤ next'.toNat) ∧
    ∀ (start : U256) (chain : List (ℕ × ℕ)) (limit used : ℕ),
      (∀ block ∈ chain ++ [(limit, used)], Targets fee block) →
      ∃ f next, baseFeeAlong fee start chain = some f ∧
        fee.baseFeePerGas limit used f = some next ∧
        (used < gasTarget fee limit → changeAfter fee limit used f.toNat ≤ f.toNat ∧
          next.toNat = f.toNat - changeAfter fee limit used f.toNat) := by
  constructor
  · intro limit used f hlimit hused ht hf
    obtain ⟨next, hnext, hvalue⟩ := baseFeePerGas_eq hfee hlimit hused ht f
    refine ⟨next, hnext, followsEip1559 hf hlimit hused hvalue, fun more hle hmore => ?_⟩
    obtain ⟨next', hnext', hvalue'⟩ := baseFeePerGas_eq hfee hlimit hmore ht f
    refine ⟨next', hnext', ?_⟩
    rw [hvalue, hvalue']
    exact feeAfter_mono f.isLt hle
  · intro start chain limit used hblocks
    obtain ⟨f, hf⟩ := isSome_baseFeeAlong hfee start fun block hblock =>
      hblocks block (List.mem_append_left _ hblock)
    obtain ⟨hlimit, hused, ht⟩ := hblocks (limit, used) (by simp)
    obtain ⟨next, hnext, hvalue⟩ := baseFeePerGas_eq hfee hlimit hused ht f
    refine ⟨f, next, hf, hnext, fun h => ⟨(changeAfter_le_of_below h.le).2, ?_⟩⟩
    rw [hvalue, feeAfter, if_neg h.ne, if_neg h.not_gt]

def sampleGasFee : Eip1559GasFee := ⟨2, 8⟩

theorem baseFee_follows_eip1559_sample : ∃ next,
    sampleGasFee.baseFeePerGas 30000000 20000000 1000000000 = some next ∧
      FollowsEip1559 sampleGasFee 30000000 20000000 1000000000 next := by
  have hfee : Accepted sampleGasFee := ⟨by decide, by decide⟩
  obtain ⟨next, hnext, hfollows, -⟩ := (baseFee_follows_eip1559 hfee).1 30000000 20000000 1000000000 (by decide) (by decide) (by decide)
      (by decide)
  exact ⟨next, hnext, hfollows⟩

end BaseFee

end OpMove.FeeFormulas
