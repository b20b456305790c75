import OpMove.Primitives

/-!
The fee arithmetic of block building: the Ecotone cost of publishing a
transaction on layer one, the layer-two cost of its gas, and the EIP-1559 base
fee. All of it is 256-bit arithmetic that wraps where the source uses operators
and saturates where the source says so. A computation that panics (a slice out
of range, a division by zero) gives `none`.
-/

namespace OpMove.GasFees

open Primitives

/-- Zero and non-zero byte counts of the bytes a transaction is charged for. -/
structure L1GasFeeInput where
  zeroBytes : U256
  nonZeroBytes : U256
  deriving DecidableEq, Repr

/-- `From<T: AsRef<[u8]>>`: count the zero bytes, subtract from the length. -/
def L1GasFeeInput.ofBytes (txData : Bytes) : L1GasFeeInput :=
  let zeroBytes : U256 := BitVec.ofNat 256 (txData.countP (· == 0))
  ⟨zeroBytes, BitVec.ofNat 256 txData.length - zeroBytes⟩

structure EcotoneGasFee where
  baseFee : U256
  baseFeeScalar : U256
  blobBaseFee : U256
  blobBaseFeeScalar : U256
  deriving DecidableEq, Repr

/-- The fields of the receipt's L1 information; the unset ones stay `none`. -/
structure L1BlockInfo where
  l1GasPrice : Option ℕ
  l1GasUsed : Option ℕ
  l1Fee : Option ℕ
  l1FeeScalar : Option ℕ
  l1BaseFeeScalar : Option ℕ
  l1BlobBaseFee : Option ℕ
  l1BlobBaseFeeScalar : Option ℕ
  operatorFeeScalar : Option ℕ
  operatorFeeConstant : Option ℕ
  deriving DecidableEq, Repr

def saturatingToU128 (n : U256) : ℕ := min n.toNat (2 ^ 128 - 1)

namespace EcotoneGasFee

def zeroByteMultiplier : U256 := 4

def gasPriceMultiplier : U256 := 16

def txCompressedSize (input : L1GasFeeInput) : U256 :=
  (input.zeroBytes * zeroByteMultiplier + input.nonZeroBytes * gasPriceMultiplier) /
    gasPriceMultiplier

def weightedGasPrice (fee : EcotoneGasFee) : U256 :=
  gasPriceMultiplier * fee.baseFeeScalar * fee.baseFee +
    fee.blobBaseFeeScalar * fee.blobBaseFee

def l1Fee (fee : EcotoneGasFee) (input : L1GasFeeInput) : U256 :=
  txCompressedSize input * fee.weightedGasPrice

def l1BlockInfo (fee : EcotoneGasFee) (input : L1GasFeeInput) : Option L1BlockInfo :=
  some {
    l1GasPrice := some (saturatingToU128 fee.baseFee)
    l1GasUsed := none
    l1Fee := some (saturatingToU128 (fee.l1Fee input))
    l1FeeScalar := none
    l1BaseFeeScalar := some (saturatingToU128 fee.baseFeeScalar)
    l1BlobBaseFee := some (saturatingToU128 fee.blobBaseFee)
    l1BlobBaseFeeScalar := some (saturatingToU128 fee.blobBaseFeeScalar)
    operatorFeeScalar := none
    operatorFeeConstant := none }

/-- `CreateEcotoneL1GasFee::for_deposit`: big-endian fields of the calldata of the
L1-attributes deposit. The slices panic on calldata shorter than 100 bytes. -/
def forDeposit (data : Bytes) : Option EcotoneGasFee :=
  let field (lo hi : ℕ) : U256 := BitVec.ofNat 256 (beNat ((data.take hi).drop lo))
  if data.length < 100 then none
  else some {
    baseFee := field 36 68
    blobBaseFee := field 68 100
    baseFeeScalar := field 4 8
    blobBaseFeeScalar := field 8 12 }

@[simp] theorem l1Fee_nil (fee : EcotoneGasFee) : fee.l1Fee (L1GasFeeInput.ofBytes []) = 0 := by
  have hsize : txCompressedSize (L1GasFeeInput.ofBytes []) = 0 := by decide
  rw [l1Fee, hsize, zero_mul]

/-- Whatever else the receipt reports about layer one is independent of the bytes. -/
theorem l1BlockInfo_congr (fee : EcotoneGasFee) (a b : L1GasFeeInput)
    (h : fee.l1Fee a = fee.l1Fee b) : fee.l1BlockInfo a = fee.l1BlockInfo b := by
  simp only [l1BlockInfo, h]

end EcotoneGasFee

structure L2GasFeeInput where
  gasLimit : ℕ
  effectiveGasPrice : U256
  deriving DecidableEq, Repr

structure MovedGasFee where
  gasFeeMultiplier : U256
  deriving DecidableEq, Repr

def MovedGasFee.l2Fee (fee : MovedGasFee) (input : L2GasFeeInput) : U256 :=
  U256.saturatingMul
    (U256.saturatingMul input.effectiveGasPrice (BitVec.ofNat 256 input.gasLimit))
    fee.gasFeeMultiplier

theorem MovedGasFee.toNat_l2Fee (fee : MovedGasFee) {input : L2GasFeeInput}
    (hlimit : input.gasLimit ≤ maxU64) :
    (fee.l2Fee input).toNat =
      min (min (input.effectiveGasPrice.toNat * input.gasLimit) (2 ^ 256 - 1) *
        fee.gasFeeMultiplier.toNat) (2 ^ 256 - 1) := by
  have hgas : (BitVec.ofNat 256 input.gasLimit).toNat = input.gasLimit := by
    rw [BitVec.toNat_ofNat, Nat.mod_eq_of_lt]
    unfold maxU64 at hlimit
    omega
  rw [l2Fee, U256.toNat_saturatingMul, U256.toNat_saturatingMul, hgas]

/-- Less gas never costs more. -/
theorem MovedGasFee.l2Fee_le (fee : MovedGasFee) {used limit : ℕ} (price : U256)
    (hused : used ≤ limit) (hlimit : limit ≤ maxU64) :
    (fee.l2Fee ⟨used, price⟩).toNat ≤ (fee.l2Fee ⟨limit, price⟩).toNat := by
  rw [fee.toNat_l2Fee (show (⟨limit, price⟩ : L2GasFeeInput).gasLimit ≤ maxU64 from hlimit),
    fee.toNat_l2Fee (show (⟨used, price⟩ : L2GasFeeInput).gasLimit ≤ maxU64 from
      hused.trans hlimit)]
  gcongr

def defaultL2GasMultiplier : U256 := 1

def MovedGasFee.withDefaultGasFeeMultiplier : MovedGasFee := ⟨defaultL2GasMultiplier⟩

structure Eip1559GasFee where
  elasticityMultiplier : ℕ
  baseFeeMaxChangeDenominator : U256
  deriving DecidableEq, Repr

/-- Division of 256-bit words; dividing by zero panics. -/
def checkedDiv (a b : U256) : Option U256 := if b = 0 then none else some (a / b)

def Eip1559GasFee.baseFeePerGas (fee : Eip1559GasFee)
    (parentGasLimit parentGasUsed : ℕ) (parentBaseFeePerGas : U256) : Option U256 :=
  if fee.elasticityMultiplier = 0 then none
  else
    let gasTarget := parentGasLimit / fee.elasticityMultiplier
    let share (distance : ℕ) : Option U256 := do
      let scaled ← checkedDiv
        (U256.saturatingMul parentBaseFeePerGas (BitVec.ofNat 256 distance))
        (BitVec.ofNat 256 gasTarget)
      checkedDiv scaled fee.baseFeeMaxChangeDenominator
    if gasTarget < parentGasUsed then do
      let delta ← share (parentGasUsed - gasTarget)
      some (U256.saturatingAdd parentBaseFeePerGas (U256.max delta 1))
    else if parentGasUsed < gasTarget then do
      let delta ← share (gasTarget - parentGasUsed)
      some (U256.saturatingSub parentBaseFeePerGas delta)
    else some parentBaseFeePerGas

end OpMove.GasFees
