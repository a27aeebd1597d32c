import Mathlib

/-!
# Transaction and block primitives

`COutPoint`, `CTxOut` and the script predicates that the coins cache and block
validation read (`primitives/transaction.h`, `script/script.h`). A `uint256`
is its value as a natural number; a script is its byte vector.
-/

namespace UnitedBitcoin

/-- `OP_RETURN`. -/
def opReturn : UInt8 := 0x6a

/-- `OP_DUP`. -/
def opDup : UInt8 := 0x76

/-- `OP_EQUAL`. -/
def opEqual : UInt8 := 0x87

/-- `OP_EQUALVERIFY`. -/
def opEqualVerify : UInt8 := 0x88

/-- `OP_HASH160`. -/
def opHash160 : UInt8 := 0xa9

/-- `OP_CHECKSIG`. -/
def opCheckSig : UInt8 := 0xac

/-- `OP_CREATE_NATIVE`. -/
def opCreateNative : UInt8 := 0xc0

/-- `OP_CREATE`: publishes a contract. -/
def opCreate : UInt8 := 0xc1

/-- `OP_UPGRADE`: names a contract, which only its creator may do. -/
def opUpgrade : UInt8 := 0xc2

/-- `OP_DESTROY`. -/
def opDestroy : UInt8 := 0xc3

/-- `OP_CALL`: calls a contract's API. -/
def opCall : UInt8 := 0xc4

/-- `OP_SPEND`: a withdrawal from a contract. -/
def opSpend : UInt8 := 0xc5

/-- `OP_DEPOSIT_TO_CONTRACT`. -/
def opDepositToContract : UInt8 := 0xc6

/-- `MAX_SCRIPT_SIZE` as this repository sets it. -/
def maxScriptSize : Nat := 129000

/-- `CScript`, the serialized script bytes. -/
abbrev CScript := List UInt8

/-- `CScript::IsUnspendable`: an `OP_RETURN` script or an oversized one. -/
def isUnspendable (script : CScript) : Bool :=
  (match script with
    | opcode :: _ => opcode == opReturn
    | [] => false) || decide (maxScriptSize < script.length)

/-- `COutPoint`: a transaction hash and an output index. -/
structure COutPoint where
  hash : Nat
  n : UInt32
  deriving DecidableEq, Repr

/-- `CTxOut`. -/
structure CTxOut where
  nValue : Int
  scriptPubKey : CScript
  deriving DecidableEq, Repr

namespace CTxOut

/-- `CTxOut()`, which calls `SetNull`. -/
def null : CTxOut := ⟨-1, []⟩

/-- `CTxOut::IsNull`. -/
def isNull (out : CTxOut) : Bool := out.nValue == -1

/-- `CTxOut::IsEmpty`: value zero and an empty script. -/
def isEmpty (out : CTxOut) : Bool := out.nValue == 0 && out.scriptPubKey.isEmpty

@[simp]
theorem isNull_null : null.isNull = true := rfl

end CTxOut

/-- `COutPoint::IsNull`: the null hash with index `(uint32_t)-1`, the coinbase's input. -/
def COutPoint.isNull (prevout : COutPoint) : Bool :=
  prevout.hash == 0 && prevout.n == 0xFFFFFFFF

/-- `CTxIn`: the outpoint it spends and its unlocking script. `nSequence` and the
witness are read only by the script and sequence-lock checks, which the model takes
as given functions. -/
structure CTxIn where
  prevout : COutPoint
  scriptSig : CScript
  deriving DecidableEq, Repr

/-- `CTransaction`: its inputs and outputs with the hash it caches, computed in the
source from its serialization. -/
structure CTransaction where
  hash : Nat
  vin : List CTxIn
  vout : List CTxOut
  deriving DecidableEq, Repr

namespace CTransaction

/-- `CTransaction::IsCoinBase`: one input, spending the null outpoint. -/
def isCoinBase (tx : CTransaction) : Bool :=
  match tx.vin with
  | [txin] => txin.prevout.isNull
  | _ => false

/-- `CTransaction::IsNull`: no inputs and no outputs. -/
def isNull (tx : CTransaction) : Bool := tx.vin.isEmpty && tx.vout.isEmpty

/-- `CTransaction::IsCoinStake`: one input and two outputs, the first one empty. -/
def isCoinStake (tx : CTransaction) : Bool :=
  tx.vin.length == 1 &&
    match tx.vout with
    | [first, _] => first.isEmpty
    | _ => false

/-- `CTransaction::GetValueOut`, for outputs whose values `CheckTransaction` has put in
range, where it does not throw. -/
def getValueOut (tx : CTransaction) : Int :=
  (tx.vout.map CTxOut.nValue).sum

end CTransaction

/-! ## Blocks

`CBlock` with the header fields block validation reads (`primitives/block.h`).
The proof-of-stake mark is a bit of the peer-supplied `nVersion`.
-/

/-- `MINING_TYPE_POS`. -/
def miningTypePos : UInt32 := 0x01000000

/-- `MINING_TYPE_POW`. -/
def miningTypePow : UInt32 := 0x02000000

/-- `CBlock`: the header fields validation reads and the transactions. `nVersion` is
an `int32_t` in the source; the bit tests read the same bits. -/
structure CBlock where
  nVersion : UInt32
  hashPrevBlock : Nat
  nTime : UInt32
  nBits : UInt32
  vtx : List CTransaction
  deriving DecidableEq, Repr

/-- `CBlockHeader::IsProofOfStake`. -/
def CBlock.isProofOfStake (block : CBlock) : Bool :=
  block.nVersion &&& miningTypePos != 0

/-- `CBlockHeader::IsProofOfWork`. -/
def CBlock.isProofOfWork (block : CBlock) : Bool :=
  block.nVersion &&& miningTypePow != 0

/-- `CBlockHeader::IsNull`. -/
def CBlock.isNull (block : CBlock) : Bool := block.nBits == 0

/-- The header `CBlockHeader::SetNull` leaves. -/
def CBlock.null : CBlock := ⟨0, 0, 0, 0, []⟩

/-- The `CBlockHeader` of a block, as the block with no transactions that
`CBlock(const CBlockHeader&)` makes of it. -/
def CBlock.header (block : CBlock) : CBlock := { block with vtx := [] }

end UnitedBitcoin
