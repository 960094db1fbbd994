import PrcyMiner.Rounds

/-!
# `CreateNewBlock`: the PoW and PoS template (lines 160-507)

`CreateNewBlock` is the composition of the phases below, in the source's
order: the coinbase (lines 187-202), the stake search (207-233), the budgets
(235-249), the selection (254-413), the payee (415-427), the final coinbase
(429-441), the reward commitment and Schnorr signature (443-477), the header
(479-487) and, for PoS, the extra nonce and the block signature (489-503).

The tip is read three times (lines 175, 196, 257); `TipReads` keeps the three
reads apart, and `TipReads.single` is the build that sees one tip.

* `CreateNewBlock_shape`: a returned template is the coinbase, in PoS the
  coinstake, then the admitted transactions, which are a sub-multiset of the
  candidates; the fee and sig-op vectors hold one entry for the coinbase and
  one per admitted transaction.
* `CreateNewBlock_selection`: a returned template is the selection's, completed;
  `PrcyMiner.Contents` reads the selection's rounds through it.
* `CreateNewBlock_header`: the template is on the tip read under `LOCK2`,
  with the work `GetNextWorkRequired` asks on it, at nonce 0.
* `CreateNewBlock_admitted_keyImages_nodup`: the admitted transactions' key images are
  pairwise distinct.
* `CreateNewBlock_stakeClock`: only the stake search moves the statics
  `nLastCoinStakeSearchTime` and `nLastCoinStakeSearchInterval`, forward to
  the adjusted time.
-/

namespace Prcy

/-- The process-wide state of `miner.cpp`: the static `nLastCoinStakeSearchTime`
(line 205), `nLastCoinStakeSearchInterval`, `nLastBlockTx`, `nLastBlockSize`,
the static `hashPrevBlock` of `IncrementExtraNonce` (line 612), and the
wallet's key store, which `AddComputedPrivateKey` extends. -/
structure MinerState where
  nLastCoinStakeSearchTime : Int
  nLastCoinStakeSearchInterval : Int
  nLastBlockTx : Nat
  nLastBlockSize : Nat
  hashPrevBlock : Nat
  keys : List Nat
  deriving DecidableEq, Repr

/-- The tips `CreateNewBlock` reads: at entry (line 175), for the subsidy
(line 196) and under `LOCK2` (line 257). -/
structure TipReads where
  atEntry : CBlockIndex
  forSubsidy : CBlockIndex
  underLock : CBlockIndex
  deriving DecidableEq, Repr

/-- A build during which the tip does not move. -/
def TipReads.single (t : CBlockIndex) : TipReads := ⟨t, t, t⟩

/-- `scriptSig` of input 0 of `vtx[0]` := `s`. -/
def CTransaction.setScriptSig (tx : CTransaction) (s : CScript) : CTransaction :=
  { tx with vin := tx.vin.modify (fun i => { i with scriptSig := s }) 0 }

@[simp] theorem CTransaction.setScriptSig_vout (tx : CTransaction) (s : CScript) :
    (tx.setScriptSig s).vout = tx.vout := rfl

/-- Lines 188-198: one null input; one output paying `scriptPubKeyIn` with the
ephemeral keys and the value `nValue`. -/
def coinbaseTx (scriptPubKeyIn : CScript) (txPub txPriv : List Nat) (nValue : Int) :
    CTransaction :=
  ⟨[⟨COutPoint.null, 0, []⟩], [⟨nValue, scriptPubKeyIn, txPub, txPriv, [], 0⟩], 0, .standard, []⟩

/-- Lines 180-185. -/
def blockVersion (N : Node) (P : ChainParams) : Int :=
  if P.MineBlocksOnDemand then N.args.blockversion else 5

/-- `CBlock::IsProofOfStake`: `vtx[1]` is a coinstake. -/
def CBlock.IsProofOfStake (N : Node) (b : CBlock) : Bool :=
  match b.vtx with
  | _ :: cs :: _ => N.IsCoinStake cs
  | _ => false

/-- `vtx[i].vout[j].nValue` (0 when there is no such output). -/
def CBlock.outValue (b : CBlock) (i j : Nat) : Int :=
  ((b.vtx[i]?).bind (·.vout[j]?)).elim 0 (·.nValue)

/-- `vtx[i].vout[j].txPub`. -/
def CBlock.outTxPub (b : CBlock) (i j : Nat) : List Nat :=
  ((b.vtx[i]?).bind (·.vout[j]?)).elim [] (·.txPub)

/-! ## Phases -/

/-- Lines 165-202: a fresh template holding the coinbase, with `-1` as its
fee and sig-op count until line 437 and 487 fill them in. -/
def newTemplate (N : Node) (P : ChainParams) (txNew : CTransaction) : CBlockTemplate :=
  ⟨{ CBlock.null with
      header := { CBlock.null.header with nVersion := blockVersion N P }
      vtx := [txNew] }, [-1], [-1]⟩

/-- Lines 207-233: a PoS template needs a stake.  The search window is the
time since the last search; both counters move whenever a search runs.  The
search time is read back from the `uint32_t` `nTime` (lines 209, 212). -/
def stakeSearch (N : Node) (pindexPrev : CBlockIndex) (st : MinerState) (t : CBlockTemplate) :
    MinerState × Option CBlockTemplate :=
  let hdr := { t.block.header with nTime := N.GetAdjustedTime % 2 ^ 32 }
  let hdr := { hdr with nBits := N.GetNextWorkRequired pindexPrev hdr }
  let nSearchTime : Int := hdr.nTime
  if st.nLastCoinStakeSearchTime ≤ nSearchTime then
    let st' := { st with
      nLastCoinStakeSearchInterval := nSearchTime - st.nLastCoinStakeSearchTime
      nLastCoinStakeSearchTime := nSearchTime }
    match N.CreateCoinStake hdr.nBits (nSearchTime - st.nLastCoinStakeSearchTime) with
    | some (txCoinStake, nTxNewTime) =>
      let b := t.block.modifyTx 0 (·.modifyVout 0 CTxOut.SetEmpty)
      (st', some { t with block :=
        { b with header := { hdr with nTime := nTxNewTime % 2 ^ 32 }, vtx := b.vtx ++ [txCoinStake] } })
    | none => (st', none)
  else (st, none)

/-- `(unsigned int)` of an `int64`. -/
def toUInt32 (x : Int) : Nat := (x % 2 ^ 32).toNat

/-- Lines 235-249: the budgets from `-blockmaxsize`, `-blockprioritysize`,
`-blockminsize`, narrowed to `unsigned int`. -/
def blockBudgets (N : Node) : Budgets :=
  let nBlockMaxSize := max 1000
    (min (toUInt32 ((N.MAX_BLOCK_SIZE_CURRENT : Int) - 1000)) (toUInt32 N.args.blockmaxsize))
  ⟨nBlockMaxSize, min nBlockMaxSize (toUInt32 N.args.blockprioritysize),
    min nBlockMaxSize (toUInt32 N.args.blockminsize)⟩

/-- Lines 325-331: the loop starts at size 1000 with no fees, sorted by fee
when no priority area is reserved, and `make_heap` makes the candidates a
heap for that mode's comparator. -/
def initSelState (B : Budgets) (c : Candidates) (view : CoinsView) (t : CBlockTemplate) :
    SelState :=
  let fSortedByFee := decide (B.nBlockPrioritySize = 0)
  ⟨c.vecPriority, fSortedByFee, fSortedByFee, some fSortedByFee, 1000, 0, 0, view, t, [], []⟩

theorem initSelState_heapOk (B : Budgets) (c : Candidates) (view : CoinsView)
    (t : CBlockTemplate) : (initSelState B c view t).HeapOk := ⟨rfl, rfl⟩

/-- Lines 415-426: `FillBlockPayee` completes the local `txNew`.  `txNew` was
copied into `vtx[0]` at line 200 and is not copied back: the block receives
only `payee`.  Returns the local `txNew` with the block. -/
def fillPayee (N : Node) (txNew : CTransaction) (nFees : Int) (pindexPrev : CBlockIndex)
    (b : CBlock) : CTransaction × CBlock :=
  let txNew := N.FillBlockPayee txNew nFees false
  if h : 1 < txNew.vout.length then (txNew, { b with payee := (txNew.vout[1]).scriptPubKey })
  else
    ((txNew.modifyVout 0 fun o => { o with nValue := nFees + N.GetBlockValue pindexPrev.nHeight })
      |>.setScriptSig [.num (pindexPrev.nHeight + 1), OP_0], b)

/-- Lines 432-441: the coinbase's `scriptSig` and type; the fees go to the
coinbase output (PoW) or to the coinstake's `vout[2]` (PoS). -/
def finalizeCoinbase (nHeight : Nat) (fProofOfStake : Bool) (nFees : Int) (t : CBlockTemplate) :
    CBlockTemplate :=
  let b := t.block.modifyTx 0 fun tx =>
    { (tx.setScriptSig [.num nHeight, OP_0]) with txType := .revealAmount }
  let b := if !fProofOfStake then b.modifyTx 0 (·.modifyVout 0 fun o => { o with nValue := o.nValue + nFees })
    else b.modifyTx 1 (·.modifyVout 2 fun o => { o with nValue := o.nValue + nFees })
  ⟨b, t.vTxFees.set 0 nFees, t.vTxSigOps⟩

/-- Lines 443-477.  PoW: hide and commit the coinbase amount.  PoS: merge
`vout[2]` into `vout[1]` of the coinstake, commit that, then the wallet's
Schnorr signature, which must verify. -/
def commitReward (N : Node) (txPub : List Nat) (b : CBlock) : Option CBlock :=
  if !b.IsProofOfStake N then
    let b := b.modifyTx 0 (·.modifyVout 0 fun o => { o with maskAmount := N.EncodeTxOutAmount o.nValue txPub })
    (N.CreateCommitment (b.outValue 0 0)).map fun c =>
      b.modifyTx 0 (·.modifyVout 0 fun o => { o with commitment := c })
  else
    let b := b.modifyTx 1 (·.modifyVout 1 fun o => { o with nValue := o.nValue + b.outValue 1 2 })
    let b := b.modifyTx 1 (·.modifyVout 2 CTxOut.SetEmpty)
    let sharedSec := b.outTxPub 1 1
    let b := b.modifyTx 1 (·.modifyVout 1 fun o =>
      { o with maskAmount := N.EncodeTxOutAmount o.nValue sharedSec, commitment := [] })
    match N.CreateCommitment (b.outValue 1 1) with
    | none => none
    | some c =>
      let b := b.modifyTx 1 (·.modifyVout 1 fun o => { o with commitment := c })
      match b.vtx[1]? with
      | none => none
      | some cs =>
        match N.MakeShnorrSignature cs with
        | none => none
        | some sig =>
          let b := b.modifyTx 1 fun tx => { tx with schnorrSig := sig }
          if (b.vtx[1]?).all N.VerifyShnorrKeyImageTx then some b else none

/-- `UpdateTime` (lines 94-101): the `int64_t` maximum is stored in the
`uint32_t` `nTime`. -/
def UpdateTime (N : Node) (P : ChainParams) (pindexPrev : CBlockIndex) (h : CBlockHeader) :
    CBlockHeader :=
  let h := { h with nTime := max (pindexPrev.medianTimePast + 1) N.GetAdjustedTime % 2 ^ 32 }
  if P.AllowMinDifficultyBlocks then { h with nBits := N.GetNextWorkRequired pindexPrev h } else h

@[simp] theorem UpdateTime_hashMerkleRoot (N : Node) (P : ChainParams) (p : CBlockIndex)
    (h : CBlockHeader) : (UpdateTime N P p h).hashMerkleRoot = h.hashMerkleRoot := by
  unfold UpdateTime; split_ifs <;> rfl

@[simp] theorem UpdateTime_hashPrevBlock (N : Node) (P : ChainParams) (p : CBlockIndex)
    (h : CBlockHeader) : (UpdateTime N P p h).hashPrevBlock = h.hashPrevBlock := by
  unfold UpdateTime; split_ifs <;> rfl

@[simp] theorem UpdateTime_nNonce (N : Node) (P : ChainParams) (p : CBlockIndex)
    (h : CBlockHeader) : (UpdateTime N P p h).nNonce = h.nNonce := by
  unfold UpdateTime; split_ifs <;> rfl

@[simp] theorem UpdateTime_nTime (N : Node) (P : ChainParams) (p : CBlockIndex)
    (h : CBlockHeader) :
    (UpdateTime N P p h).nTime = max (p.medianTimePast + 1) N.GetAdjustedTime % 2 ^ 32 := by
  unfold UpdateTime; split_ifs <;> rfl

/-- Without `AllowMinDifficultyBlocks`, `UpdateTime` keeps the work. -/
theorem UpdateTime_nBits_of_not {N : Node} {P : ChainParams} (hA : P.AllowMinDifficultyBlocks = false)
    (p : CBlockIndex) (h : CBlockHeader) : (UpdateTime N P p h).nBits = h.nBits := by
  simp [UpdateTime, hA]

/-- Lines 479-487. -/
def fillHeader (N : Node) (P : ChainParams) (pindexPrev : CBlockIndex) (fProofOfStake : Bool)
    (t : CBlockTemplate) : CBlockTemplate :=
  let h := { t.block.header with hashPrevBlock := pindexPrev.phashBlock }
  let h := if !fProofOfStake then UpdateTime N P pindexPrev h else h
  let h := { h with
    nBits := N.GetNextWorkRequired pindexPrev h
    nNonce := 0
    nAccumulatorCheckpoint := 0 }
  ⟨{ t.block with header := h }, t.vTxFees,
    t.vTxSigOps.set 0 ((t.block.vtx.head?.map N.GetLegacySigOpCount).getD 0)⟩

/-- `IncrementExtraNonce` (lines 609-625), with its static `hashPrevBlock`
passed in and returned: the new static, `nExtraNonce` and the block. -/
def IncrementExtraNonce (N : Node) (hashPrevBlock : Nat) (b : CBlock) (pindexPrev : CBlockIndex)
    (nExtraNonce : Nat) : Nat × Nat × CBlock :=
  let nExtraNonce := if hashPrevBlock ≠ b.header.hashPrevBlock then 0 else nExtraNonce
  let nExtraNonce := (nExtraNonce + 1) % 2 ^ 32
  let b := b.modifyTx 0 (·.setScriptSig
    ([.num (pindexPrev.nHeight + 1), .num nExtraNonce] ++ N.COINBASE_FLAGS))
  (b.header.hashPrevBlock, nExtraNonce,
    { b with header := { b.header with hashMerkleRoot := N.BlockMerkleRoot b.vtx } })

/-- `SignBlock(block, keystore)`.
Modelled from the spec: the wallet signs the block's header hash, and fails
when its key store holds no suitable key. -/
def SignBlock (N : Node) (keys : List Nat) (b : CBlock) : Option CBlock :=
  (N.signHash keys (N.GetHash b.header)).map fun sig => { b with vchBlockSig := sig }

/-- Lines 493-502 and 792-801: sign; on failure add the key computed from the
coinstake's `vout[1]` (`AddComputedPrivateKey`) and sign once more. -/
def signWithRetry (N : Node) (keys : List Nat) (b : CBlock) : List Nat × Option CBlock :=
  match SignBlock N keys b with
  | some b' => (keys, some b')
  | none =>
    let keys := match (b.vtx[1]?).bind (·.vout[1]?) with
      | some o => N.ComputedPrivateKey o :: keys
      | none => keys
    (keys, SignBlock N keys b)

/-! ## Frame lemmas: which transactions a phase touches -/

theorem drop_modify_of_lt {α : Type} (f : α → α) {i k : Nat} (h : i < k) (l : List α) :
    (l.modify f i).drop k = l.drop k := by
  induction l generalizing i k with
  | nil => simp
  | cons a l ih =>
    obtain ⟨k, rfl⟩ : ∃ k', k = k' + 1 := ⟨k - 1, by omega⟩
    cases i with
    | zero => simp
    | succ i => simp [ih (Nat.lt_of_succ_lt_succ h)]

/-- `b'` has as many transactions as `b`, and the same ones from index `k` on. -/
def CBlock.KeepsFrom (k : Nat) (b b' : CBlock) : Prop :=
  b'.vtx.length = b.vtx.length ∧ b'.vtx.drop k = b.vtx.drop k

theorem CBlock.KeepsFrom.refl (k : Nat) (b : CBlock) : b.KeepsFrom k b := ⟨rfl, rfl⟩

theorem CBlock.KeepsFrom.trans {k : Nat} {b₁ b₂ b₃ : CBlock} (h₁ : b₁.KeepsFrom k b₂)
    (h₂ : b₂.KeepsFrom k b₃) : b₁.KeepsFrom k b₃ :=
  ⟨h₂.1.trans h₁.1, h₂.2.trans h₁.2⟩

theorem CBlock.KeepsFrom.of_vtx {k : Nat} {b b' : CBlock} (h : b'.vtx = b.vtx) :
    b.KeepsFrom k b' := by simp [CBlock.KeepsFrom, h]

theorem CBlock.KeepsFrom.mono {k k' : Nat} {b b' : CBlock} (h : b.KeepsFrom k b') (hk : k ≤ k') :
    b.KeepsFrom k' b' := by
  refine ⟨h.1, ?_⟩
  have := congrArg (List.drop (k' - k)) h.2
  have e : k + (k' - k) = k' := by omega
  simpa [List.drop_drop, e] using this

theorem CBlock.modifyTx_keepsFrom {i k : Nat} (hi : i < k) (b : CBlock)
    (f : CTransaction → CTransaction) : b.KeepsFrom k (b.modifyTx i f) :=
  ⟨List.length_modify _ _ _, drop_modify_of_lt f hi _⟩

theorem finalizeCoinbase_keepsFrom (nHeight : Nat) (fProofOfStake : Bool) (nFees : Int)
    (t : CBlockTemplate) :
    t.block.KeepsFrom 2 (finalizeCoinbase nHeight fProofOfStake nFees t).block ∧
      (fProofOfStake = false →
        t.block.KeepsFrom 1 (finalizeCoinbase nHeight fProofOfStake nFees t).block) := by
  unfold finalizeCoinbase
  cases fProofOfStake
  · refine ⟨?_, fun _ => ?_⟩ <;> exact (CBlock.modifyTx_keepsFrom (i := 0) (by decide) _ _).trans
      (CBlock.modifyTx_keepsFrom (i := 0) (by decide) _ _)
  · exact ⟨(CBlock.modifyTx_keepsFrom (i := 0) (by decide) _ _).trans
      (CBlock.modifyTx_keepsFrom (i := 1) (by decide) _ _), nofun⟩

/-- `commitReward` touches only `vtx[0]` and `vtx[1]`, and only `vtx[0]` when
`vtx[1]` is not a coinstake. -/
theorem commitReward_keepsFrom {N : Node} {txPub : List Nat} {b b' : CBlock}
    (h : commitReward N txPub b = some b') :
    b.KeepsFrom 2 b' ∧ (b.IsProofOfStake N = false → b.KeepsFrom 1 b') := by
  unfold commitReward at h
  split at h
  · obtain ⟨c, -, rfl⟩ := Option.map_eq_some'.1 h
    refine ⟨?_, fun _ => ?_⟩ <;> exact (CBlock.modifyTx_keepsFrom (i := 0) (by decide) _ _).trans
      (CBlock.modifyTx_keepsFrom (i := 0) (by decide) _ _)
  · next hpos =>
    refine ⟨?_, fun h' => by simp [h'] at hpos⟩
    have m := fun (b : CBlock) (f : CTransaction → CTransaction) =>
      CBlock.modifyTx_keepsFrom (k := 2) (i := 1) (by decide) b f
    dsimp only at h
    split at h
    · cases h
    · split at h
      · cases h
      · split at h
        · cases h
        · split at h
          · cases h
            exact ((((m _ _).trans (m _ _)).trans (m _ _)).trans (m _ _)).trans (m _ _)
          · cases h

theorem IncrementExtraNonce_keepsFrom (N : Node) (h : Nat) (b : CBlock) (p : CBlockIndex)
    (n : Nat) : b.KeepsFrom 1 (IncrementExtraNonce N h b p n).2.2 :=
  CBlock.modifyTx_keepsFrom (by decide) b _

/-- A signed block is the block with the wallet's signature of its header hash. -/
theorem SignBlock_signed {N : Node} {keys : List Nat} {b b' : CBlock}
    (h : SignBlock N keys b = some b') :
    b' = { b with vchBlockSig := b'.vchBlockSig } ∧
      ∃ ks, N.signHash ks (N.GetHash b.header) = some b'.vchBlockSig := by
  obtain ⟨sig, hsig, rfl⟩ := Option.map_eq_some'.1 h
  exact ⟨rfl, keys, hsig⟩

theorem signWithRetry_signed {N : Node} {keys : List Nat} {b b' : CBlock}
    (h : (signWithRetry N keys b).2 = some b') :
    b' = { b with vchBlockSig := b'.vchBlockSig } ∧
      ∃ ks, N.signHash ks (N.GetHash b.header) = some b'.vchBlockSig := by
  unfold signWithRetry at h
  split at h
  · next hs => exact SignBlock_signed ((Option.some.inj h) ▸ hs)
  · exact SignBlock_signed h

theorem signWithRetry_vtx {N : Node} {keys : List Nat} {b b' : CBlock}
    (h : (signWithRetry N keys b).2 = some b') : b'.vtx = b.vtx := by
  rw [(signWithRetry_signed h).1]

/-- `IncrementExtraNonce` writes the height after `pindexPrev` and the new
extra nonce into the coinbase, and of the header changes only the Merkle root. -/
theorem IncrementExtraNonce_block (N : Node) (h : Nat) (b : CBlock) (p : CBlockIndex) (n : Nat) :
    (IncrementExtraNonce N h b p n).2.2.header.hashPrevBlock = b.header.hashPrevBlock ∧
      (IncrementExtraNonce N h b p n).2.2.header.nBits = b.header.nBits ∧
      (IncrementExtraNonce N h b p n).2.2.header.nNonce = b.header.nNonce ∧
      (IncrementExtraNonce N h b p n).2.2.vtx = b.vtx.modify (·.setScriptSig
        ([.num (p.nHeight + 1), .num (IncrementExtraNonce N h b p n).2.1] ++ N.COINBASE_FLAGS)) 0 :=
  ⟨rfl, rfl, rfl, rfl⟩

@[simp] theorem fillHeader_vtx (N : Node) (P : ChainParams) (p : CBlockIndex) (f : Bool)
    (t : CBlockTemplate) : (fillHeader N P p f t).block.vtx = t.block.vtx := rfl

/-- The header `fillHeader` writes: on `pindexPrev`, with the work
`GetNextWorkRequired` asks on it for a header on it, and nonce 0. -/
theorem fillHeader_header (N : Node) (P : ChainParams) (p : CBlockIndex) (f : Bool)
    (t : CBlockTemplate) :
    (fillHeader N P p f t).block.header.hashPrevBlock = p.phashBlock ∧
      (∃ hdr : CBlockHeader, hdr.hashPrevBlock = p.phashBlock ∧
        (fillHeader N P p f t).block.header.nBits = N.GetNextWorkRequired p hdr) ∧
      (fillHeader N P p f t).block.header.nNonce = 0 := by
  unfold fillHeader
  refine ⟨?_, ⟨_, ?_, rfl⟩, rfl⟩ <;> cases f <;> simp

@[simp] theorem fillHeader_vTxFees (N : Node) (P : ChainParams) (p : CBlockIndex) (f : Bool)
    (t : CBlockTemplate) : (fillHeader N P p f t).vTxFees = t.vTxFees := rfl

@[simp] theorem finalizeCoinbase_vTxFees (n : Nat) (f : Bool) (nFees : Int) (t : CBlockTemplate) :
    (finalizeCoinbase n f nFees t).vTxFees = t.vTxFees.set 0 nFees := rfl

@[simp] theorem finalizeCoinbase_vTxSigOps (n : Nat) (f : Bool) (nFees : Int)
    (t : CBlockTemplate) : (finalizeCoinbase n f nFees t).vTxSigOps = t.vTxSigOps := rfl

/-! ## `CreateNewBlock` -/

/-- Lines 254-413: candidates and selection under `LOCK2`, on the tip read there. -/
def selectTransactions (N : Node) (pindexPrev : CBlockIndex) (t : CBlockTemplate) : SelState :=
  let c := collectCandidates N pindexPrev N.pcoinsTip
  selectLoop N (blockBudgets N) c.vecPriority.length (initSelState (blockBudgets N) c N.pcoinsTip t)

/-- The rounds of the selection `CreateNewBlock` runs on the tip `pindexPrev`
from the template `t`. -/
def selectionRounds (N : Node) (pindexPrev : CBlockIndex) (t : CBlockTemplate) :
    List (SelState × TxPriority) :=
  let c := collectCandidates N pindexPrev N.pcoinsTip
  selectRounds N (blockBudgets N) c.vecPriority.length (initSelState (blockBudgets N) c N.pcoinsTip t)

/-- The transactions that selection admits, in order. -/
def selectedTxs (N : Node) (pindexPrev : CBlockIndex) (t : CBlockTemplate) : List CTransaction :=
  admittedTxs N (blockBudgets N) (selectionRounds N pindexPrev t)

/-- Lines 415-507, after the selection. -/
def completeBlock (N : Node) (P : ChainParams) (p : CBlockIndex) (st : MinerState)
    (txNew : CTransaction) (txPub : List Nat) (fProofOfStake : Bool) (s : SelState) :
    MinerState × Option CBlockTemplate :=
  let b := if fProofOfStake then s.tpl.block else (fillPayee N txNew s.nFees p s.tpl.block).2
  let st := { st with nLastBlockTx := s.nBlockTx, nLastBlockSize := s.nBlockSize }
  let t := finalizeCoinbase (p.nHeight + 1) fProofOfStake s.nFees { s.tpl with block := b }
  match commitReward N txPub t.block with
  | none => (st, none)
  | some b =>
    let t := fillHeader N P p fProofOfStake { t with block := b }
    if fProofOfStake then
      let (h, _, b) := IncrementExtraNonce N st.hashPrevBlock t.block p 0
      let (keys, b?) := signWithRetry N st.keys b
      ({ st with hashPrevBlock := h, keys }, b?.map fun b => { t with block := b })
    else (st, some t)

/-- `CreateNewBlock(scriptPubKeyIn, txPub, txPriv, pwallet, fProofOfStake)`. -/
def CreateNewBlock (N : Node) (P : ChainParams) (tips : TipReads) (st : MinerState)
    (scriptPubKeyIn : CScript) (txPub txPriv : List Nat) (fProofOfStake : Bool) :
    MinerState × Option CBlockTemplate :=
  let txNew := coinbaseTx scriptPubKeyIn txPub txPriv (N.GetBlockValue tips.forSubsidy.nHeight)
  let t := newTemplate N P txNew
  let (st, t?) := if fProofOfStake then stakeSearch N tips.atEntry st t else (st, some t)
  match t? with
  | none => (st, none)
  | some t =>
    completeBlock N P tips.underLock st txNew txPub fProofOfStake
      (selectTransactions N tips.underLock t)

/-! ## Shape of a template -/

theorem CBlock.IsProofOfStake_eq (N : Node) (b : CBlock) :
    b.IsProofOfStake N = ((b.vtx.drop 1).head?.map N.IsCoinStake).getD false := by
  rcases b with ⟨_, _ | ⟨_, _ | ⟨_, _⟩⟩, _, _, _⟩ <;> rfl

theorem CBlock.KeepsFrom.IsProofOfStake_eq {N : Node} {b b' : CBlock} (h : b.KeepsFrom 1 b') :
    b'.IsProofOfStake N = b.IsProofOfStake N := by
  rw [CBlock.IsProofOfStake_eq, CBlock.IsProofOfStake_eq, h.2]

/-- A successful stake search empties the coinbase output and appends the
coinstake `CreateCoinStake` returned. -/
theorem stakeSearch_some {N : Node} {p : CBlockIndex} {st : MinerState}
    {t t' : CBlockTemplate} (h : (stakeSearch N p st t).2 = some t') :
    ∃ cs, (∃ nBits nSearchInterval nTime, N.CreateCoinStake nBits nSearchInterval = some (cs, nTime)) ∧
      t'.block.vtx = t.block.vtx.modify (·.modifyVout 0 CTxOut.SetEmpty) 0 ++ [cs] ∧
      t'.vTxFees = t.vTxFees ∧ t'.vTxSigOps = t.vTxSigOps := by
  unfold stakeSearch at h
  dsimp only at h
  split at h
  · split at h
    · next cs _ hcs =>
      obtain rfl := Option.some.inj h
      exact ⟨cs, ⟨_, _, _, hcs⟩, rfl, rfl, rfl⟩
    · simp at h
  · simp at h

theorem fillPayee_vtx (N : Node) (txNew : CTransaction) (nFees : Int) (p : CBlockIndex)
    (b : CBlock) : (fillPayee N txNew nFees p b).2.vtx = b.vtx := by
  unfold fillPayee
  dsimp only
  split <;> rfl

/-- The selection's accounts: from size 1000, no transaction and no fees. -/
theorem selectTransactions_accounts (N : Node) (p : CBlockIndex) (t : CBlockTemplate) :
    Accounts N (initSelState (blockBudgets N) (collectCandidates N p N.pcoinsTip) N.pcoinsTip t)
      (selectTransactions N p t) (selectedTxs N p t) :=
  selectLoop_accounts _ rfl

/-- The selection pushes the admitted transactions, a sub-multiset of the
candidates. -/
theorem selectTransactions_spec (N : Node) (p : CBlockIndex) (t : CBlockTemplate) :
    (selectTransactions N p t).tpl = pushAll t (selectedTxs N p t) ∧
      (selectedTxs N p t).Subperm ((collectCandidates N p N.pcoinsTip).vecPriority.map (·.tx)) := by
  have ht : (selectTransactions N p t).tpl = pushAll t (selectedTxs N p t) :=
    (selectTransactions_accounts N p t).tpl
  obtain ⟨adm, ht', hp, -⟩ := selectLoop_spec N (blockBudgets N)
    (collectCandidates N p N.pcoinsTip).vecPriority.length (s := initSelState _ _ _ t) rfl
  have hadm : adm = selectedTxs N p t :=
    List.append_cancel_left (congrArg (·.block.vtx) (ht'.symm.trans ht))
  subst hadm
  exact ⟨ht, (List.sublist_append_left _ _).subperm.trans hp⟩

theorem not_coinStake_of_candidate {N : Node} {p : CBlockIndex} {view : CoinsView}
    {tx : CTransaction} (h : tx ∈ (collectCandidates N p view).vecPriority.map (·.tx)) :
    N.IsCoinStake tx = false := by
  obtain ⟨e, he, rfl⟩ := List.mem_map.1 h
  exact (passesFilter_eq_true.1 (mem_collectCandidates he).2.1).2.1

/-- From a template holding only the coinbase, the selection's block is no
PoS block: its `vtx[1]`, if any, is a candidate, and no candidate is a
coinstake. -/
theorem selectTransactions_not_pos (N : Node) (p : CBlockIndex) {t : CBlockTemplate}
    (h : t.block.vtx.length = 1) : (selectTransactions N p t).tpl.block.IsProofOfStake N = false := by
  obtain ⟨hs, hsub⟩ := selectTransactions_spec N p t
  rw [hs, CBlock.IsProofOfStake_eq]
  revert hsub
  cases selectedTxs N p t with
  | nil => intro _; simp [pushAll, List.getElem?_eq_none (by omega : t.block.vtx.length ≤ 1)]
  | cons a adm =>
    intro hsub
    simpa [pushAll, List.drop_left' h] using
      not_coinStake_of_candidate (hsub.subset (List.mem_cons_self a adm))

/-- After the selection, only the first `k` transactions change (`k = 2` in
PoS, `1` in PoW, where `vtx[1]` is no coinstake); the fee and sig-op vectors
change only at index 0. -/
theorem completeBlock_spec {N : Node} {P : ChainParams} {p : CBlockIndex}
    {st st' : MinerState} {txNew : CTransaction} {txPub : List Nat} {fPoS : Bool}
    {s : SelState} {t : CBlockTemplate}
    (h : completeBlock N P p st txNew txPub fPoS s = (st', some t))
    (hcs : fPoS = false → s.tpl.block.IsProofOfStake N = false) :
    s.tpl.block.KeepsFrom (if fPoS then 2 else 1) t.block ∧
      t.vTxFees = s.tpl.vTxFees.set 0 s.nFees ∧ ∃ x, t.vTxSigOps = s.tpl.vTxSigOps.set 0 x := by
  unfold completeBlock at h
  dsimp only at h
  cases fPoS
  · simp only [Bool.false_eq_true, ↓reduceIte] at h ⊢
    split at h
    · simp at h
    · next b₂ hc =>
      simp only [Prod.mk.injEq, Option.some.injEq] at h
      obtain ⟨-, rfl⟩ := h
      have h₁ := CBlock.KeepsFrom.of_vtx (k := 1) (fillPayee_vtx N txNew s.nFees p s.tpl.block)
      have h₂ := (finalizeCoinbase_keepsFrom (p.nHeight + 1) false s.nFees
        { s.tpl with block := (fillPayee N txNew s.nFees p s.tpl.block).2 }).2 rfl
      have h₃ := (commitReward_keepsFrom hc).2 (by
        rw [h₂.IsProofOfStake_eq, h₁.IsProofOfStake_eq]; exact hcs rfl)
      exact ⟨h₁.trans (h₂.trans h₃), by simp, _, rfl⟩
  · simp only [↓reduceIte] at h ⊢
    split at h
    · simp at h
    · next b₂ hc =>
      simp only [Prod.mk.injEq] at h
      obtain ⟨-, h⟩ := h
      obtain ⟨b₃, hsign, rfl⟩ := Option.map_eq_some'.1 h
      refine ⟨?_, by simp, _, rfl⟩
      exact (finalizeCoinbase_keepsFrom _ true _ _).1.trans ((commitReward_keepsFrom hc).1.trans
        ((CBlock.KeepsFrom.of_vtx (fillHeader_vtx ..)).trans
        (((IncrementExtraNonce_keepsFrom ..).mono (by decide)).trans
        (.of_vtx (signWithRetry_vtx hsign)))))

/-- The header a completed template carries: on `pindexPrev`, with the work
`GetNextWorkRequired` asks on it for a header on it, and nonce 0. -/
theorem completeBlock_header {N : Node} {P : ChainParams} {p : CBlockIndex}
    {st st' : MinerState} {txNew : CTransaction} {txPub : List Nat} {fPoS : Bool}
    {s : SelState} {t : CBlockTemplate}
    (h : completeBlock N P p st txNew txPub fPoS s = (st', some t)) :
    t.block.header.hashPrevBlock = p.phashBlock ∧
      (∃ hdr : CBlockHeader, hdr.hashPrevBlock = p.phashBlock ∧
        t.block.header.nBits = N.GetNextWorkRequired p hdr) ∧ t.block.header.nNonce = 0 := by
  unfold completeBlock at h
  dsimp only at h
  split at h
  · simp at h
  · next b₂ _ =>
    have hf := fillHeader_header N P p fPoS
      { finalizeCoinbase (p.nHeight + 1) fPoS s.nFees
        { s.tpl with block := if fPoS then s.tpl.block
          else (fillPayee N txNew s.nFees p s.tpl.block).2 } with block := b₂ }
    cases fPoS
    · simp only [Bool.false_eq_true, ↓reduceIte, Prod.mk.injEq, Option.some.injEq] at h
      obtain ⟨-, rfl⟩ := h
      exact hf
    · simp only [↓reduceIte, Prod.mk.injEq] at h
      obtain ⟨-, h⟩ := h
      obtain ⟨b₃, hsign, rfl⟩ := Option.map_eq_some'.1 h
      obtain ⟨hp, hb, hn, -⟩ := IncrementExtraNonce_block N st.hashPrevBlock
        (fillHeader N P p true _).block p 0
      rw [(signWithRetry_signed hsign).1]
      exact ⟨hp.trans hf.1, hf.2.1.imp fun _ ⟨h₁, h₂⟩ => ⟨h₁, hb.trans h₂⟩, hn.trans hf.2.2⟩

/-- **What `CreateNewBlock` does**: select from the template holding the
coinbase (and, in PoS, what the stake search returned), then complete. -/
theorem CreateNewBlock_some {N : Node} {P : ChainParams} {tips : TipReads}
    {st st' : MinerState} {spk : CScript} {txPub txPriv : List Nat} {fPoS : Bool}
    {t : CBlockTemplate} (h : CreateNewBlock N P tips st spk txPub txPriv fPoS = (st', some t)) :
    ∃ st₁ t₀, (if fPoS then stakeSearch N tips.atEntry st (newTemplate N P
        (coinbaseTx spk txPub txPriv (N.GetBlockValue tips.forSubsidy.nHeight))) = (st₁, some t₀)
      else st₁ = st ∧
        t₀ = newTemplate N P (coinbaseTx spk txPub txPriv (N.GetBlockValue tips.forSubsidy.nHeight))) ∧
      completeBlock N P tips.underLock st₁
        (coinbaseTx spk txPub txPriv (N.GetBlockValue tips.forSubsidy.nHeight)) txPub fPoS
        (selectTransactions N tips.underLock t₀) = (st', some t) := by
  unfold CreateNewBlock at h
  cases fPoS
  · exact ⟨st, _, ⟨rfl, rfl⟩, h⟩
  · dsimp only [↓reduceIte] at h
    rcases hs : stakeSearch N tips.atEntry st (newTemplate N P
      (coinbaseTx spk txPub txPriv (N.GetBlockValue tips.forSubsidy.nHeight))) with ⟨st₁, _ | t₀⟩
    · rw [hs] at h; cases h
    · rw [hs] at h; exact ⟨st₁, t₀, rfl, h⟩

/-- How one build may move the statics of lines 205 and 225-226: not at all,
or, in a PoS build, forward to the clock `now`, the interval then recording
the window just handed to `CreateCoinStake`. -/
def StakeClock (fProofOfStake : Bool) (now : Int) (st st' : MinerState) : Prop :=
  (st'.nLastCoinStakeSearchTime = st.nLastCoinStakeSearchTime ∧
    st'.nLastCoinStakeSearchInterval = st.nLastCoinStakeSearchInterval) ∨
  (fProofOfStake = true ∧ st.nLastCoinStakeSearchTime ≤ now ∧
    st'.nLastCoinStakeSearchTime = now ∧
    st'.nLastCoinStakeSearchInterval = now - st.nLastCoinStakeSearchTime)

section StakeClock

variable {f : Bool} {now : Int} {st st' st'' : MinerState}

theorem StakeClock.refl : StakeClock f now st st := .inl ⟨rfl, rfl⟩

/-- Work after the search that leaves both statics alone. -/
theorem StakeClock.frame (h : StakeClock f now st st')
    (h' : st''.nLastCoinStakeSearchTime = st'.nLastCoinStakeSearchTime ∧
      st''.nLastCoinStakeSearchInterval = st'.nLastCoinStakeSearchInterval) :
    StakeClock f now st st'' := by
  unfold StakeClock at *
  rw [h'.1, h'.2]
  exact h

theorem StakeClock.time_le (h : StakeClock f now st st') :
    st.nLastCoinStakeSearchTime ≤ st'.nLastCoinStakeSearchTime := by
  rcases h with ⟨h, -⟩ | ⟨-, hle, h, -⟩ <;> omega

end StakeClock

/-- Lines 211-227: a search to the adjusted time moves the statics there,
whether a stake is found or not; a clock behind them leaves them. -/
theorem stakeSearch_stakeClock (N : Node) (p : CBlockIndex) (st : MinerState)
    (t : CBlockTemplate) : StakeClock true (N.GetAdjustedTime % 2 ^ 32) st (stakeSearch N p st t).1 := by
  unfold stakeSearch
  dsimp only
  split_ifs with h
  · split <;> exact .inr ⟨rfl, h, rfl, rfl⟩
  · exact .refl

theorem completeBlock_stakeStatics (N : Node) (P : ChainParams) (p : CBlockIndex)
    (st : MinerState) (txNew : CTransaction) (txPub : List Nat) (fPoS : Bool) (s : SelState) :
    (completeBlock N P p st txNew txPub fPoS s).1.nLastCoinStakeSearchTime =
        st.nLastCoinStakeSearchTime ∧
      (completeBlock N P p st txNew txPub fPoS s).1.nLastCoinStakeSearchInterval =
        st.nLastCoinStakeSearchInterval := by
  unfold completeBlock
  dsimp only
  split
  · exact ⟨rfl, rfl⟩
  · split <;> exact ⟨rfl, rfl⟩

/-- Line 491: a PoS template sets the static `hashPrevBlock` of
`IncrementExtraNonce` to its own parent; a PoW template leaves it. -/
theorem completeBlock_hashPrevBlock {N : Node} {P : ChainParams} {p : CBlockIndex}
    {st st' : MinerState} {txNew : CTransaction} {txPub : List Nat} {fPoS : Bool}
    {s : SelState} {t : CBlockTemplate}
    (h : completeBlock N P p st txNew txPub fPoS s = (st', some t)) :
    st'.hashPrevBlock = if fPoS then t.block.header.hashPrevBlock else st.hashPrevBlock := by
  unfold completeBlock at h
  dsimp only at h
  split at h
  · simp at h
  · cases fPoS
    · simp only [Bool.false_eq_true, ↓reduceIte, Prod.mk.injEq] at h ⊢
      rw [← h.1]
    · simp only [↓reduceIte, Prod.mk.injEq, Option.map_eq_some'] at h ⊢
      obtain ⟨rfl, b, hb, rfl⟩ := h
      rw [(signWithRetry_signed hb).1]
      rfl

theorem CreateNewBlock_hashPrevBlock {N : Node} {P : ChainParams} {tips : TipReads}
    {st st' : MinerState} {spk : CScript} {txPub txPriv : List Nat} {fPoS : Bool}
    {t : CBlockTemplate} (h : CreateNewBlock N P tips st spk txPub txPriv fPoS = (st', some t)) :
    st'.hashPrevBlock = if fPoS then t.block.header.hashPrevBlock else st.hashPrevBlock := by
  obtain ⟨st₁, t₀, hs, hc⟩ := CreateNewBlock_some h
  rw [completeBlock_hashPrevBlock hc]
  cases fPoS
  · rw [hs.1]
  · rfl

/-- `CreateNewBlock` moves the statics only by its stake search. -/
theorem CreateNewBlock_stakeClock (N : Node) (P : ChainParams) (tips : TipReads)
    (st : MinerState) (spk : CScript) (txPub txPriv : List Nat) (fPoS : Bool) :
    StakeClock fPoS (N.GetAdjustedTime % 2 ^ 32) st (CreateNewBlock N P tips st spk txPub txPriv fPoS).1 := by
  unfold CreateNewBlock
  cases fPoS
  · exact .inl (completeBlock_stakeStatics ..)
  · have hs := stakeSearch_stakeClock N tips.atEntry st (newTemplate N P
      (coinbaseTx spk txPub txPriv (N.GetBlockValue tips.forSubsidy.nHeight)))
    simp only [↓reduceIte]
    rcases hq : stakeSearch N tips.atEntry st (newTemplate N P
      (coinbaseTx spk txPub txPriv (N.GetBlockValue tips.forSubsidy.nHeight))) with
      ⟨st₁, _ | t₀⟩ <;> rw [hq] at hs
    · exact hs
    · exact hs.frame (completeBlock_stakeStatics ..)


/-- The list arithmetic behind `CreateNewBlock_shape`: a template grown from
one with `k` transactions and one fee and sig-op entry by pushing `adm`, then
changed only below `k` and at index 0 of the two vectors. -/
theorem shape_of_keepsFrom {k : Nat} {t₀ t : CBlockTemplate} {adm : List CTransaction}
    {nFees x : Int} (h : (pushAll t₀ adm).block.KeepsFrom k t.block)
    (hfees : t.vTxFees = (pushAll t₀ adm).vTxFees.set 0 nFees)
    (hsig : t.vTxSigOps = (pushAll t₀ adm).vTxSigOps.set 0 x)
    (hk : t₀.block.vtx.length = k) (hf : t₀.vTxFees.length = 1) (hs : t₀.vTxSigOps.length = 1) :
    t.block.vtx.length = k + adm.length ∧ t.block.vtx.drop k = adm ∧
      t.vTxFees.length = 1 + adm.length ∧ t.vTxFees.drop 1 = adm.map (·.nTxFee) ∧
      t.vTxSigOps.length = 1 + adm.length ∧ t.vTxSigOps.drop 1 = adm.map fun _ => 0 := by
  obtain ⟨hl, hd⟩ := h
  simp only [pushAll] at hl hd hfees hsig
  refine ⟨by simp [hl, hk], by rw [hd, List.drop_left' hk], by simp [hfees, hf], ?_,
    by simp [hsig, hs], ?_⟩
  · rw [hfees, List.drop_set_of_lt _ _ (by decide), List.drop_left' hf]
  · rw [hsig, List.drop_set_of_lt _ _ (by decide), List.drop_left' hs]

/-- **A returned template from its selection.**  `CreateNewBlock` selected
from a template `t₀` holding the coinbase (and, in PoS, the coinstake the
stake search returned) and completed the result.  The returned template holds
`k` leading transactions (the coinbase, and in PoS the coinstake), then
exactly the transactions the selection admitted; its fee and sig-op vectors
hold one entry for the coinbase, then each admitted transaction's fee and
sig-op count 0. -/
theorem CreateNewBlock_selection {N : Node} {P : ChainParams} {tips : TipReads}
    {st st' : MinerState} {spk : CScript} {txPub txPriv : List Nat} {fPoS : Bool}
    {t : CBlockTemplate} (h : CreateNewBlock N P tips st spk txPub txPriv fPoS = (st', some t)) :
    ∃ st₁ t₀, (if fPoS then stakeSearch N tips.atEntry st (newTemplate N P
        (coinbaseTx spk txPub txPriv (N.GetBlockValue tips.forSubsidy.nHeight))) = (st₁, some t₀)
      else st₁ = st ∧
        t₀ = newTemplate N P (coinbaseTx spk txPub txPriv (N.GetBlockValue tips.forSubsidy.nHeight))) ∧
      completeBlock N P tips.underLock st₁
        (coinbaseTx spk txPub txPriv (N.GetBlockValue tips.forSubsidy.nHeight)) txPub fPoS
        (selectTransactions N tips.underLock t₀) = (st', some t) ∧
      t.block.vtx.length = (if fPoS then 2 else 1) + (selectedTxs N tips.underLock t₀).length ∧
      t.block.vtx.drop (if fPoS then 2 else 1) = selectedTxs N tips.underLock t₀ ∧
      t.vTxFees.length = 1 + (selectedTxs N tips.underLock t₀).length ∧
      t.vTxFees.drop 1 = (selectedTxs N tips.underLock t₀).map (·.nTxFee) ∧
      t.vTxSigOps.length = 1 + (selectedTxs N tips.underLock t₀).length ∧
      t.vTxSigOps.drop 1 = (selectedTxs N tips.underLock t₀).map fun _ => 0 := by
  obtain ⟨st₁, t₀, hcase, hc⟩ := CreateNewBlock_some h
  obtain ⟨hs, hsub⟩ := selectTransactions_spec N tips.underLock t₀
  refine ⟨st₁, t₀, hcase, hc, ?_⟩
  cases fPoS
  · simp only [Bool.false_eq_true, ↓reduceIte] at hcase ⊢
    obtain ⟨-, rfl⟩ := hcase
    obtain ⟨hk, hf, x, hsig⟩ := completeBlock_spec hc fun _ => selectTransactions_not_pos N _ rfl
    rw [hs] at hk hf hsig
    exact shape_of_keepsFrom hk hf hsig rfl rfl rfl
  · simp only [↓reduceIte] at hcase ⊢
    obtain ⟨cs, -, hv, hf₁, hs₁⟩ := stakeSearch_some (by rw [hcase])
    obtain ⟨hk, hf, x, hsig⟩ := completeBlock_spec hc nofun
    rw [hs] at hk hf hsig
    exact shape_of_keepsFrom hk hf hsig (by simp [hv, newTemplate])
      (by simp [hf₁, newTemplate]) (by simp [hs₁, newTemplate])

/-- **Shape of a template.**  A template `CreateNewBlock` returns holds `k`
leading transactions (the coinbase, and in PoS the coinstake) and then `adm`,
the admitted mempool transactions, a sub-multiset of the candidates; its fee
and sig-op vectors hold one entry for the coinbase and then one per admitted
transaction, with that transaction's fee and sig-op count 0. -/
theorem CreateNewBlock_shape {N : Node} {P : ChainParams} {tips : TipReads}
    {st st' : MinerState} {spk : CScript} {txPub txPriv : List Nat} {fPoS : Bool}
    {t : CBlockTemplate} (h : CreateNewBlock N P tips st spk txPub txPriv fPoS = (st', some t)) :
    ∃ adm : List CTransaction,
      adm.Subperm ((collectCandidates N tips.underLock N.pcoinsTip).vecPriority.map (·.tx)) ∧
      t.block.vtx.length = (if fPoS then 2 else 1) + adm.length ∧
      t.block.vtx.drop (if fPoS then 2 else 1) = adm ∧
      t.vTxFees.length = 1 + adm.length ∧ t.vTxFees.drop 1 = adm.map (·.nTxFee) ∧
      t.vTxSigOps.length = 1 + adm.length ∧ t.vTxSigOps.drop 1 = adm.map fun _ => 0 := by
  obtain ⟨-, t₀, -, -, hshape⟩ := CreateNewBlock_selection h
  exact ⟨_, (selectTransactions_spec N tips.underLock t₀).2, hshape⟩

/-- A template is built on the tip read under `LOCK2` (line 257): its
`hashPrevBlock` and its work both come from that read; its nonce is 0
(line 484). -/
theorem CreateNewBlock_header {N : Node} {P : ChainParams} {tips : TipReads}
    {st st' : MinerState} {spk : CScript} {txPub txPriv : List Nat} {fPoS : Bool}
    {t : CBlockTemplate} (h : CreateNewBlock N P tips st spk txPub txPriv fPoS = (st', some t)) :
    t.block.header.hashPrevBlock = tips.underLock.phashBlock ∧
      (∃ hdr : CBlockHeader, hdr.hashPrevBlock = tips.underLock.phashBlock ∧
        t.block.header.nBits = N.GetNextWorkRequired tips.underLock hdr) ∧
      t.block.header.nNonce = 0 := by
  unfold CreateNewBlock at h
  dsimp only at h
  cases fPoS
  · exact completeBlock_header h
  · simp only [↓reduceIte] at h
    split at h
    · simp at h
    · exact completeBlock_header h

/-- A PoW template's time is the one `UpdateTime` sets on the tip read under
`LOCK2` (line 481): past that tip's median time. -/
theorem CreateNewBlock_nTime_pow {N : Node} {P : ChainParams} {tips : TipReads}
    {st st' : MinerState} {spk : CScript} {txPub txPriv : List Nat} {t : CBlockTemplate}
    (h : CreateNewBlock N P tips st spk txPub txPriv false = (st', some t)) :
    t.block.header.nTime = max (tips.underLock.medianTimePast + 1) N.GetAdjustedTime % 2 ^ 32 := by
  obtain ⟨st₁, t₀, -, hc, -⟩ := CreateNewBlock_selection h
  unfold completeBlock at hc
  dsimp only at hc
  split at hc
  · simp at hc
  · simp only [Bool.false_eq_true, ↓reduceIte, Prod.mk.injEq, Option.some.injEq] at hc
    obtain ⟨-, rfl⟩ := hc
    simp [fillHeader]

/-! ## Key images, fees and the admitted transactions -/

theorem nodup_flatMap_of_subperm {α β : Type} {f : α → List β} {l₁ l₂ : List α}
    (h : l₁.Subperm l₂) (hn : (l₂.flatMap f).Nodup) : (l₁.flatMap f).Nodup := by
  obtain ⟨l, hp, hs⟩ := h
  rw [List.nodup_flatMap] at hn ⊢
  exact ⟨fun x hx => hn.1 x (hs.subset (hp.mem_iff.2 hx)),
    (hn.2.sublist hs).perm hp fun h => List.disjoint_symm h⟩

/-- **The admitted transactions share no key image**: in every template
`CreateNewBlock` returns, PoW or PoS, the key images of the transactions after
the coinbase (and the coinstake) are pairwise distinct, within one
transaction and across two. -/
theorem CreateNewBlock_admitted_keyImages_nodup {N : Node} {P : ChainParams} {tips : TipReads}
    {st st' : MinerState} {spk : CScript} {txPub txPriv : List Nat} {fPoS : Bool}
    {t : CBlockTemplate} (h : CreateNewBlock N P tips st spk txPub txPriv fPoS = (st', some t)) :
    ((t.block.vtx.drop (if fPoS then 2 else 1)).flatMap (·.keyImages)).Nodup := by
  obtain ⟨adm, hsub, -, hdrop, -⟩ := CreateNewBlock_shape h
  rw [hdrop]
  refine nodup_flatMap_of_subperm hsub ?_
  simpa [entryKeyImages, List.flatMap_map] using
    collectCandidates_keyImages_nodup N tips.underLock N.pcoinsTip

/-- A node for the concrete builds below: a one-transaction mempool spending
the coin `⟨1, 0⟩` with key image 7, and a wallet whose coinstake spends
`⟨2, 0⟩` with the same key image. -/
def stakeNode : Node where
  IsCoinBase tx := tx.vin.any (·.prevout == COutPoint.null)
  IsCoinStake tx := tx.txType == .coinstake
  txHash _ := 0
  GetSerializeSize _ := 250
  GetHash h := h.nNonce
  BlockMerkleRoot vtx := vtx.length
  ComputePoAMerkleTree l := l.length
  ComputeMinedHash _ := 0
  GetLegacySigOpCount _ := 1
  COINBASE_FLAGS := []
  GetBlockValue _ := 50
  GetNextWorkRequired _ _ := 1
  GetAdjustedTime := 100
  IsFinalTx _ _ := true
  GetPriority _ _ := 0
  AllowFree _ := true
  CFeeRate fee size := fee * 1000 / size
  IsSpentKeyImage _ := false
  ContainsOutPoint _ := false
  mapTx := [⟨[⟨⟨1, 0⟩, 7, []⟩], [], 10000, .standard, []⟩]
  mapDeltas _ := (0, 0)
  pcoinsTip := [⟨1, 0⟩]
  CheckInputs _ _ := true
  FillBlockPayee tx _ _ := tx
  CreateCoinStake _ _ := some (⟨[⟨⟨2, 0⟩, 7, []⟩],
    [⟨0, [], [], [], [], 0⟩, ⟨5, [], [], [], [], 0⟩, ⟨5, [], [], [], [], 0⟩], 0, .coinstake, []⟩, 100)
  EncodeTxOutAmount _ _ := 0
  CreateCommitment _ := some []
  MakeShnorrSignature _ := some []
  VerifyShnorrKeyImageTx _ := true
  signHash _ _ := some []
  ComputedPrivateKey _ := 0
  args := ⟨750000, 50000, 0, 5⟩
  MAX_BLOCK_SIZE_CURRENT := 2000000
  ReVerifyPoSBlock _ := true
  ReadBlockFromDisk _ := true
  SetCompact n := n
  GetMedianTimePast _ := 0
  GenerateAddress := some ([1], [], [])
  heapPick _ := 0

/-- Parameters and a tip for the concrete builds. -/
def demoParams : ChainParams := ⟨200, 300, 59, 1000, false, false, true, 100⟩

def demoTip : CBlockIndex := ⟨250, 42, 0⟩

def demoState : MinerState := ⟨0, 0, 0, 0, 0, []⟩

/-- The PoS build on `stakeNode`. -/
def stakeBuild : MinerState × Option CBlockTemplate :=
  CreateNewBlock stakeNode demoParams (TipReads.single demoTip) demoState [] [] [] true

/-- The template `stakeBuild` returns. -/
def stakeTemplate : CBlockTemplate := stakeBuild.2.getD ⟨CBlock.null, [], []⟩

theorem stakeBuild_eq : stakeBuild = (stakeBuild.1, some stakeTemplate) := by decide

/-- The mempool transaction admitted next to the coinstake has distinct key images. -/
theorem stakeBuild_admitted_keyImages_nodup :
    stakeBuild = (stakeBuild.1, some stakeTemplate) ∧
      ((stakeTemplate.block.vtx.drop 2).flatMap (·.keyImages)).Nodup :=
  ⟨stakeBuild_eq, CreateNewBlock_admitted_keyImages_nodup stakeBuild_eq⟩

/-- **The coinstake is not checked against the mempool.**  The per-build
`keyImages` set starts empty (line 269), so a mempool transaction reusing the
coinstake's key image is admitted next to it: the key images after the
coinbase are not pairwise distinct. -/
theorem CreateNewBlock_coinstake_keyImage_reused :
    ¬ ∀ (N : Node) (P : ChainParams) (tips : TipReads) (st st' : MinerState) (spk : CScript)
      (txPub txPriv : List Nat) (fPoS : Bool) (t : CBlockTemplate),
      CreateNewBlock N P tips st spk txPub txPriv fPoS = (st', some t) →
      ((t.block.vtx.drop 1).flatMap (·.keyImages)).Nodup := by
  intro h
  have hv : stakeBuild.2.map (fun t => (t.block.vtx.drop 1).flatMap (·.keyImages)) =
      some [7, 7] := by decide
  match hr : stakeBuild with
  | (st', some t) =>
    rw [hr] at hv
    have := h _ _ _ _ _ _ _ _ _ _ hr
    simp only [Option.map_some', Option.some.injEq] at hv
    rw [hv] at this
    exact absurd this (by decide)
  | (_, none) => rw [hr] at hv; cases hv

/-- **PoS fee vectors are one short.**  The coinstake is pushed into `vtx`
(line 221) with no entry in `vTxFees` or `vTxSigOps`, so in every PoS
template both vectors have one entry fewer than `vtx`, and from index 1 on
each entry belongs to the transaction after the one at its index. -/
theorem CreateNewBlock_pos_vTxFees_short {N : Node} {P : ChainParams} {tips : TipReads}
    {st st' : MinerState} {spk : CScript} {txPub txPriv : List Nat} {t : CBlockTemplate}
    (h : CreateNewBlock N P tips st spk txPub txPriv true = (st', some t)) :
    t.vTxFees.length + 1 = t.block.vtx.length ∧ t.vTxSigOps.length + 1 = t.block.vtx.length ∧
      t.vTxFees.drop 1 = (t.block.vtx.drop 2).map (·.nTxFee) := by
  obtain ⟨adm, -, hl, hd, hfl, hfd, hsl, -⟩ := CreateNewBlock_shape h
  simp only [↓reduceIte] at hl hd
  exact ⟨by omega, by omega, by rw [hfd, hd]⟩

theorem stakeBuild_vTxFees_short :
    stakeBuild = (stakeBuild.1, some stakeTemplate) ∧
      stakeTemplate.vTxFees.length + 1 = stakeTemplate.block.vtx.length :=
  ⟨stakeBuild_eq, (CreateNewBlock_pos_vTxFees_short stakeBuild_eq).1⟩

/-- A mempool transaction whose first input spends the blacklisted outpoint
`⟨3, 0⟩` and whose second input carries the key image 10, spent on chain. -/
def blacklistTx : CTransaction := ⟨[⟨⟨3, 0⟩, 9, []⟩, ⟨⟨4, 0⟩, 10, []⟩], [], 10000, .standard, []⟩

def blacklistNode : Node :=
  { stakeNode with
    ContainsOutPoint := fun o => o == ⟨3, 0⟩
    IsSpentKeyImage := fun k => k == 10
    mapTx := [blacklistTx]
    pcoinsTip := [⟨3, 0⟩, ⟨4, 0⟩] }

/-- **A blacklisted prevout lets its transaction through.**  The input loop
of lines 278-289 leaves at the blacklisted prevout without clearing
`fKeyImageCheck`, so the key image of the second input is never looked up and
`blacklistTx` is admitted into the PoW template. -/
theorem CreateNewBlock_admits_blacklisted_input :
    blacklistNode.ContainsOutPoint ⟨3, 0⟩ = true ∧ blacklistNode.IsSpentKeyImage 10 = true ∧
      (CreateNewBlock blacklistNode demoParams (TipReads.single demoTip) demoState [] [] []
        false).2.map (·.block.vtx.drop 1) = some [blacklistTx] := by
  decide

end Prcy
