import OpMove.GasFees
import OpMove.Rlp

/-!
Transaction envelopes as block building sees them, and their normalised form.
The consensus library that defines the envelopes is outside the repository: its
codec, signature recovery and hash are the fields of `Codec`. What the repository
itself decides, which envelope types are supported and which fee fields a
normalised transaction gets, is defined here. The fields `to` and `from` of the
source are called `target` and `origin`.
-/

namespace OpMove.Transactions

open Primitives GasFees

inductive TxKind
  | create
  | call (target : Address)
  deriving DecidableEq, Repr

def TxKind.target : TxKind → Option Address
  | .create => none
  | .call a => some a

structure TxLegacy where
  chainId : Option ℕ
  nonce : ℕ
  gasPrice : ℕ
  gasLimit : ℕ
  target : TxKind
  value : U256
  input : Bytes
  deriving DecidableEq, Repr

structure TxEip2930 where
  chainId : ℕ
  nonce : ℕ
  gasPrice : ℕ
  gasLimit : ℕ
  target : TxKind
  value : U256
  input : Bytes
  deriving DecidableEq, Repr

structure TxEip1559 where
  chainId : ℕ
  nonce : ℕ
  gasLimit : ℕ
  maxFeePerGas : ℕ
  maxPriorityFeePerGas : ℕ
  target : TxKind
  value : U256
  input : Bytes
  deriving DecidableEq, Repr

/-- Set-code transactions are decoded but never executed. -/
structure TxEip7702 where
  chainId : ℕ
  nonce : ℕ
  gasLimit : ℕ
  maxFeePerGas : ℕ
  maxPriorityFeePerGas : ℕ
  target : Address
  value : U256
  input : Bytes
  deriving DecidableEq, Repr

/-- A transaction with the bytes of its signature. -/
structure Signed (T : Type) where
  tx : T
  signature : Bytes
  deriving DecidableEq, Repr

structure TxDeposit where
  sourceHash : B256
  origin : Address
  target : TxKind
  mint : Option U128
  value : U256
  gasLimit : ℕ
  isSystemTransaction : Bool
  input : Bytes
  deriving DecidableEq, Repr

inductive OpTxEnvelope
  | legacy (tx : Signed TxLegacy)
  | eip2930 (tx : Signed TxEip2930)
  | eip1559 (tx : Signed TxEip1559)
  | eip7702 (tx : Signed TxEip7702)
  | deposit (tx : TxDeposit)
  deriving DecidableEq, Repr

def OpTxEnvelope.asDeposit : OpTxEnvelope → Option TxDeposit
  | .deposit tx => some tx
  | _ => none

theorem OpTxEnvelope.asDeposit_eq_some {envelope : OpTxEnvelope} {tx : TxDeposit} :
    envelope.asDeposit = some tx ↔ envelope = .deposit tx := by
  cases envelope <;> simp [asDeposit]

/-- What a user submits; blob transactions have no counterpart on this chain. -/
inductive TxEnvelope
  | legacy (tx : Signed TxLegacy)
  | eip2930 (tx : Signed TxEip2930)
  | eip1559 (tx : Signed TxEip1559)
  | eip4844 (blob : Bytes)
  | eip7702 (tx : Signed TxEip7702)
  deriving DecidableEq, Repr

def OpTxEnvelope.tryFromEthEnvelope : TxEnvelope → Option OpTxEnvelope
  | .legacy tx => some (.legacy tx)
  | .eip2930 tx => some (.eip2930 tx)
  | .eip1559 tx => some (.eip1559 tx)
  | .eip4844 _ => none
  | .eip7702 tx => some (.eip7702 tx)

/-- The operations of the consensus library. `decode` also returns the bytes the
decoder left in the slice. -/
structure Codec where
  decode : Bytes → Option (OpTxEnvelope × Bytes)
  encode2718 : OpTxEnvelope → Bytes
  recoverSigner : OpTxEnvelope → Option Address
  keccak256 : Bytes → B256

/-- The RLP header of a byte string of the given length (at least two bytes). -/
def rlpStringHeader (len : ℕ) : Bytes := Rlp.header 0x80 len

namespace Codec

variable (codec : Codec)

def trieHash (tx : OpTxEnvelope) : B256 := codec.keccak256 (codec.encode2718 tx)

/-- `Encodable::encode`: a typed envelope is wrapped in an RLP string header, a
legacy transaction is already an RLP list. -/
def encode (tx : OpTxEnvelope) : Bytes :=
  match tx with
  | .legacy _ => codec.encode2718 tx
  | _ => rlpStringHeader (codec.encode2718 tx).length ++ codec.encode2718 tx

end Codec

structure NormalizedEthTransaction where
  signer : Address
  target : TxKind
  nonce : ℕ
  value : U256
  data : Bytes
  chainId : Option ℕ
  gasLimitWord : U256
  maxPriorityFeePerGas : U256
  maxFeePerGas : U256
  deriving DecidableEq, Repr

namespace NormalizedEthTransaction

/-- A limit that does not fit 64 bits is read as the largest one that does. -/
def gasLimit (tx : NormalizedEthTransaction) : ℕ :=
  if tx.gasLimitWord.toNat < 2 ^ 64 then tx.gasLimitWord.toNat else 2 ^ 64 - 1

def tipPerGas (tx : NormalizedEthTransaction) (baseFee : U256) : U256 :=
  let extraFee := if baseFee.toNat ≤ tx.maxFeePerGas.toNat then tx.maxFeePerGas - baseFee else 0
  U256.min tx.maxPriorityFeePerGas extraFee

def effectiveGasPrice (tx : NormalizedEthTransaction) (baseFee : U256) : U256 :=
  tx.tipPerGas baseFee + baseFee

end NormalizedEthTransaction

inductive NormalizedExtendedTxEnvelope
  | canonical (tx : NormalizedEthTransaction)
  | depositedTx (tx : TxDeposit)
  deriving DecidableEq, Repr

namespace NormalizedExtendedTxEnvelope

/-- `TryFrom<OpTxEnvelope>`: `none` for an unsupported type and for a signature
from which no signer is recovered. -/
def ofEnvelope (codec : Codec) (tx : OpTxEnvelope) : Option NormalizedExtendedTxEnvelope :=
  match tx with
  | .eip1559 signed => do
      let signer ← codec.recoverSigner tx
      some (.canonical {
        signer := signer
        target := signed.tx.target
        nonce := signed.tx.nonce
        value := signed.tx.value
        chainId := some signed.tx.chainId
        gasLimitWord := BitVec.ofNat 256 signed.tx.gasLimit
        maxPriorityFeePerGas := BitVec.ofNat 256 signed.tx.maxPriorityFeePerGas
        maxFeePerGas := BitVec.ofNat 256 signed.tx.maxFeePerGas
        data := signed.tx.input })
  | .eip2930 signed => do
      let signer ← codec.recoverSigner tx
      some (.canonical {
        signer := signer
        target := signed.tx.target
        nonce := signed.tx.nonce
        value := signed.tx.value
        chainId := some signed.tx.chainId
        gasLimitWord := BitVec.ofNat 256 signed.tx.gasLimit
        maxPriorityFeePerGas := BitVec.ofNat 256 signed.tx.gasPrice
        maxFeePerGas := BitVec.ofNat 256 signed.tx.gasPrice
        data := signed.tx.input })
  | .legacy signed => do
      let signer ← codec.recoverSigner tx
      some (.canonical {
        signer := signer
        target := signed.tx.target
        nonce := signed.tx.nonce
        value := signed.tx.value
        chainId := signed.tx.chainId
        gasLimitWord := BitVec.ofNat 256 signed.tx.gasLimit
        maxPriorityFeePerGas := BitVec.ofNat 256 signed.tx.gasPrice
        maxFeePerGas := BitVec.ofNat 256 signed.tx.gasPrice
        data := signed.tx.input })
  | .deposit deposit => some (.depositedTx deposit)
  | .eip7702 _ => none

def tipPerGas (baseFee : U256) : NormalizedExtendedTxEnvelope → U256
  | .depositedTx _ => 0
  | .canonical tx => tx.tipPerGas baseFee

def gasLimit : NormalizedExtendedTxEnvelope → ℕ
  | .depositedTx _ => 0
  | .canonical tx => tx.gasLimit

def effectiveGasPrice (baseFee : U256) : NormalizedExtendedTxEnvelope → U256
  | .depositedTx _ => 0
  | .canonical tx => tx.effectiveGasPrice baseFee

def recipient : NormalizedExtendedTxEnvelope → Option Address
  | .canonical tx => tx.target.target
  | .depositedTx tx => tx.target.target

def sender : NormalizedExtendedTxEnvelope → Address
  | .canonical tx => tx.signer
  | .depositedTx tx => tx.origin

/-- A supported envelope is a deposit or has a recoverable signer. -/
theorem signer_of_ofEnvelope {codec : Codec} {tx : OpTxEnvelope}
    {normalized : NormalizedExtendedTxEnvelope} (h : ofEnvelope codec tx = some normalized) :
    (∃ deposit, tx = .deposit deposit) ∨ (codec.recoverSigner tx).isSome := by
  cases tx with
  | legacy signed =>
    obtain ⟨signer, hsigner, -⟩ := Option.bind_eq_some_iff.mp h
    exact Or.inr (by simp [hsigner])
  | eip2930 signed =>
    obtain ⟨signer, hsigner, -⟩ := Option.bind_eq_some_iff.mp h
    exact Or.inr (by simp [hsigner])
  | eip1559 signed =>
    obtain ⟨signer, hsigner, -⟩ := Option.bind_eq_some_iff.mp h
    exact Or.inr (by simp [hsigner])
  | eip7702 signed => simp [ofEnvelope] at h
  | deposit deposit => exact Or.inl ⟨deposit, rfl⟩

end NormalizedExtendedTxEnvelope

structure Log where
  address : Address
  topics : List B256
  data : Bytes
  deriving DecidableEq, Repr

abbrev Bloom := BitVec 2048

structure Receipt where
  status : Bool
  cumulativeGasUsed : ℕ
  logs : List Log
  deriving DecidableEq, Repr

inductive OpReceiptEnvelope
  | legacy (receipt : Receipt) (bloom : Bloom)
  | eip2930 (receipt : Receipt) (bloom : Bloom)
  | eip1559 (receipt : Receipt) (bloom : Bloom)
  | deposit (receipt : Receipt) (bloom : Bloom) (depositNonce : Option ℕ)
      (depositReceiptVersion : Option ℕ)
  deriving DecidableEq, Repr

def depositReceiptVersion : ℕ := 1

/-- `wrap_receipt`; set-code envelopes reach an `unreachable!` arm. A deposit's
own nonce is zero. -/
def wrapReceipt (tx : OpTxEnvelope) (receipt : Receipt) (bloom : Bloom) :
    Option OpReceiptEnvelope :=
  match tx with
  | .legacy _ => some (.legacy receipt bloom)
  | .eip1559 _ => some (.eip1559 receipt bloom)
  | .eip2930 _ => some (.eip2930 receipt bloom)
  | .deposit _ => some (.deposit receipt bloom (some 0) (some depositReceiptVersion))
  | .eip7702 _ => none

end OpMove.Transactions
