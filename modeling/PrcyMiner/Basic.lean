import Mathlib.Order.Basic
import Mathlib.Algebra.Group.Int

/-!
# Data model: transactions, blocks and templates as `miner.cpp` sees them

Only the fields the miner reads or writes are kept.  Hashes, key images and
amounts are unbounded integers; the `uint32` fields whose overflow the miner
can reach (`nNonce`, `nTime`, audit heights) wrap explicitly where the code
writes them.

The collaborators `miner.cpp` calls but does not define (consensus, mempool,
coins view, wallet, masternode payments) are the fields of `Node`: the model
takes them as given, as the spec's section 6 does.
-/

namespace Prcy

/-- `COutPoint`: the output an input spends. -/
structure COutPoint where
  hash : Nat
  n : Nat
  deriving DecidableEq, Repr

/-- `COutPoint::SetNull`: null hash, index `(uint32_t)-1`. -/
def COutPoint.null : COutPoint := ⟨0, 2 ^ 32 - 1⟩

/-- What the miner pushes into a script: `<< n` (a number), `<< OP_x` (an
opcode), `<< ToByteVector(..)` (bytes). -/
inductive ScriptItem where
  | num (n : Int)
  | op (code : Nat)
  | bytes (b : List Nat)
  deriving DecidableEq, Repr

abbrev CScript := List ScriptItem

/-- `OP_0`. -/
def OP_0 : ScriptItem := .op 0

/-- `OP_CHECKSIG`. -/
def OP_CHECKSIG : ScriptItem := .op 0xac

structure CTxIn where
  prevout : COutPoint
  keyImage : Nat
  scriptSig : CScript
  deriving DecidableEq, Repr

structure CTxOut where
  nValue : Int
  scriptPubKey : CScript
  txPub : List Nat
  txPriv : List Nat
  commitment : List Nat
  /-- the amount as `EncodeTxOutAmount` hides it -/
  maskAmount : Nat
  deriving DecidableEq, Repr

/-- `CTxOut::SetEmpty`: value 0 and an empty script. -/
def CTxOut.SetEmpty (o : CTxOut) : CTxOut := { o with nValue := 0, scriptPubKey := [] }

/-- The transaction type tag (`TX_TYPE_...`). -/
inductive TxType where
  | standard | revealAmount | coinbase | coinstake
  deriving DecidableEq, Repr

structure CTransaction where
  vin : List CTxIn
  vout : List CTxOut
  nTxFee : Int
  txType : TxType
  /-- the Schnorr signature `MakeShnorrSignature` writes into a coinstake -/
  schnorrSig : List Nat
  deriving DecidableEq, Repr

/-- Key images of all inputs, in input order. -/
def CTransaction.keyImages (tx : CTransaction) : List Nat := tx.vin.map (·.keyImage)

/-- `vout[i] = f vout[i]` (no change when there is no such output). -/
def CTransaction.modifyVout (tx : CTransaction) (i : Nat) (f : CTxOut → CTxOut) : CTransaction :=
  { tx with vout := tx.vout.modify f i }

@[simp] theorem CTransaction.keyImages_modifyVout (tx : CTransaction) (i : Nat)
    (f : CTxOut → CTxOut) : (tx.modifyVout i f).keyImages = tx.keyImages := rfl

/-- `TxPriority` (line 72): `(dPriority, feeRate, ptx)`.  Priorities are
`double` in the source; the miner only orders them, adds the mempool's delta
and passes them to `AllowFree`. -/
structure TxPriority where
  dPriority : Int
  feeRate : Int
  tx : CTransaction
  deriving DecidableEq, Repr

/-- `PoSBlockSummary`: one audited PoS block. `nTime = 0` records a failed re-verification. -/
structure PoSBlockSummary where
  hash : Nat
  nTime : Nat
  height : Nat
  deriving DecidableEq, Repr

structure CBlockHeader where
  nVersion : Int
  hashPrevBlock : Nat
  hashMerkleRoot : Nat
  /-- `uint32_t`: every write stores its value modulo `2^32` -/
  nTime : Nat
  nBits : Nat
  nNonce : Nat
  nAccumulatorCheckpoint : Nat
  hashPrevPoABlock : Nat
  hashPoAMerkleRoot : Nat
  minedHash : Nat
  deriving DecidableEq, Repr

structure CBlock where
  header : CBlockHeader
  vtx : List CTransaction
  vchBlockSig : List Nat
  payee : CScript
  posBlocksAudited : List PoSBlockSummary
  deriving DecidableEq, Repr

/-- `CBlock::SetNull` (and a fresh `CBlock()`): every field zero or empty. -/
def CBlock.null : CBlock :=
  ⟨⟨0, 0, 0, 0, 0, 0, 0, 0, 0, 0⟩, [], [], [], []⟩

/-- `vtx[i] = f vtx[i]`. -/
def CBlock.modifyTx (b : CBlock) (i : Nat) (f : CTransaction → CTransaction) : CBlock :=
  { b with vtx := b.vtx.modify f i }

/-- `CBlockTemplate`: the block and the per-transaction fees and sig-op counts. -/
structure CBlockTemplate where
  block : CBlock
  vTxFees : List Int
  vTxSigOps : List Int
  deriving DecidableEq, Repr

/-- The three pushes that add one transaction to a template (lines 200-202, 386-388). -/
def CBlockTemplate.push (t : CBlockTemplate) (tx : CTransaction) (fee sigops : Int) :
    CBlockTemplate :=
  ⟨{ t.block with vtx := t.block.vtx ++ [tx] }, t.vTxFees ++ [fee], t.vTxSigOps ++ [sigops]⟩

@[simp] theorem CBlockTemplate.push_vtx (t : CBlockTemplate) (tx : CTransaction) (f s : Int) :
    (t.push tx f s).block.vtx = t.block.vtx ++ [tx] := rfl

@[simp] theorem CBlockTemplate.push_vTxFees (t : CBlockTemplate) (tx : CTransaction) (f s : Int) :
    (t.push tx f s).vTxFees = t.vTxFees ++ [f] := rfl

@[simp] theorem CBlockTemplate.push_vTxSigOps (t : CBlockTemplate) (tx : CTransaction)
    (f s : Int) : (t.push tx f s).vTxSigOps = t.vTxSigOps ++ [s] := rfl

/-- `CBlockIndex`, as far as the miner reads one: height, hash, median time past. -/
structure CBlockIndex where
  nHeight : Nat
  phashBlock : Nat
  medianTimePast : Nat
  deriving DecidableEq, Repr

/-- `Params()`: the consensus constants the miner reads. -/
structure ChainParams where
  LAST_POW_BLOCK : Nat
  START_POA_BLOCK : Nat
  MAX_NUM_POS_BLOCKS_AUDITED : Nat
  HardFork : Nat
  MineBlocksOnDemand : Bool
  AllowMinDifficultyBlocks : Bool
  MiningRequiresPeers : Bool
  /-- the block version `SetVersionPoABlock` writes and `IsPoABlockByVersion` tests -/
  POA_BLOCK_VERSION : Int
  deriving DecidableEq, Repr

/-- `COIN`. -/
def COIN : Int := 100000000

/-- A coins view: the outpoints it can spend. -/
abbrev CoinsView := List COutPoint

/-- `GetArg` values for the block-size options, `int64` as `GetArg` returns them
(the defaults already applied). -/
structure MinerArgs where
  blockmaxsize : Int
  blockprioritysize : Int
  blockminsize : Int
  blockversion : Int
  deriving DecidableEq, Repr

/-- The node around the miner: everything `miner.cpp` calls and does not define.
A wallet key store is a list of keys; `signHash ks h` signs the hash `h` with
it, `none` when it holds no suitable key. -/
structure Node where
  IsCoinBase : CTransaction → Bool
  IsCoinStake : CTransaction → Bool
  txHash : CTransaction → Nat
  GetSerializeSize : CTransaction → Nat
  GetHash : CBlockHeader → Nat
  BlockMerkleRoot : List CTransaction → Nat
  ComputePoAMerkleTree : List PoSBlockSummary → Nat
  ComputeMinedHash : CBlock → Nat
  GetLegacySigOpCount : CTransaction → Int
  COINBASE_FLAGS : CScript
  GetBlockValue : Nat → Int
  GetNextWorkRequired : CBlockIndex → CBlockHeader → Nat
  GetAdjustedTime : Nat
  IsFinalTx : CTransaction → Nat → Bool
  GetPriority : CTransaction → Nat → Int
  AllowFree : Int → Bool
  /-- `CFeeRate(nFeePaid, nSize)`, as its per-kB rate -/
  CFeeRate : Int → Nat → Int
  IsSpentKeyImage : Nat → Bool
  /-- `invalid_out::ContainsOutPoint` -/
  ContainsOutPoint : COutPoint → Bool
  /-- `mempool.mapTx`, in map order -/
  mapTx : List CTransaction
  /-- `mempool.ApplyDeltas`: priority and fee deltas by transaction hash -/
  mapDeltas : Nat → Int × Int
  pcoinsTip : CoinsView
  CheckInputs : CTransaction → CoinsView → Bool
  FillBlockPayee : CTransaction → Int → Bool → CTransaction
  /-- `CreateCoinStake(nBits, nSearchInterval)`: the coinstake and its time -/
  CreateCoinStake : Nat → Int → Option (CTransaction × Nat)
  /-- `EncodeTxOutAmount`: the hidden amount for a value and a shared secret -/
  EncodeTxOutAmount : Int → List Nat → Nat
  /-- `CreateCommitment(zeroBlind, value)` -/
  CreateCommitment : Int → Option (List Nat)
  MakeShnorrSignature : CTransaction → Option (List Nat)
  VerifyShnorrKeyImageTx : CTransaction → Bool
  signHash : List Nat → Nat → Option (List Nat)
  /-- the key `AddComputedPrivateKey` derives from a coinstake output -/
  ComputedPrivateKey : CTxOut → Nat
  args : MinerArgs
  MAX_BLOCK_SIZE_CURRENT : Nat
  /-- `ReVerifyPoSBlock` (the PoA audit's re-check of a PoS block) -/
  ReVerifyPoSBlock : CBlock → Bool
  /-- `ReadBlockFromDisk(block, pindex)`: the block of a chain index reads back
  from disk -/
  ReadBlockFromDisk : CBlock → Bool
  /-- `uint256().SetCompact(nBits)` -/
  SetCompact : Nat → Nat
  /-- `GetMedianTimePast` of the tip of a chain -/
  GetMedianTimePast : List CBlock → Nat
  /-- `pwallet->GenerateAddress(pubkey, txPub, priv)`: the public key, the
  ephemeral public and private keys -/
  GenerateAddress : Option (List Nat × List Nat × List Nat)
  /-- `std::pop_heap` on a heap: which of its greatest entries the library
  moves out, as an index among them (the standard leaves it unspecified) -/
  heapPick : List TxPriority → Nat

/-- `CheckHaveInputs(view, tx)`.
Modelled from the spec: every prevout the transaction spends is in the view. -/
def CheckHaveInputs (view : CoinsView) (tx : CTransaction) : Bool :=
  tx.vin.all fun txin => txin.prevout ∈ view

/-- `UpdateCoins(tx, view, undo, height)`.
Modelled from the spec: the inputs are spent and the outputs become spendable. -/
def UpdateCoins (N : Node) (tx : CTransaction) (view : CoinsView) : CoinsView :=
  view.filter (fun o => o ∉ tx.vin.map (·.prevout)) ++
    (List.range tx.vout.length).map fun i => ⟨N.txHash tx, i⟩

end Prcy
