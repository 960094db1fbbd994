import PrcyMiner.Template

/-!
# What a template holds: sizes, fee policy, order, inputs and reward

The selection's accounts (`PrcyMiner.Rounds`) read through `CreateNewBlock`.

* `CreateNewBlock_block_sizes`: the budgets of lines 235-249 are clamped, the
  running size stays within `nBlockMaxSize` at every round with no overflow of
  its `uint64_t`, and the miner state records 1000 plus the sizes of the
  admitted transactions, and their number;
* `switchBuild_escapes_floor`: the entry whose pop switches the heap to fee
  mode is admitted without the free-transaction floor;
  `selectTransactions_feePolicy`: every other admitted entry meets the policy,
  and at most one round switches;
* `selectTransactions_heapSort`: the selection pops every candidate exactly
  once, in a priority-mode phase and then a fee-mode phase, each sorted by its
  comparator, and ends with the heap empty;
* `CreateNewBlock_admission_order`: the admitted transactions are the
  selection's, each greatest in the heap when popped, a priority-mode prefix
  then a fee-mode suffix, each sorted;
* `CreateNewBlock_inputs_in_tip`: every admitted transaction spends only coins
  of the tip, so a child of an admitted transaction is never admitted
  (`chainBuild_drops_child`);
* `CreateNewBlock_pow_coinbase`: a PoW coinbase is the one pushed at line 200,
  with one output paying the subsidy and the fees, so the payee output
  `FillBlockPayee` adds to the local `txNew` is lost (`payeeBuild_drops_payee`);
* `CreateNewBlock_reward`: `vTxFees[0]` and the reward outputs of both modes
  carry the fees, committed to, after every later step.
-/

namespace Prcy

/-! ## Budgets and sizes -/

/-- **The selection is a heap sort in two phases.**  The loop of lines
325-413 pops each transaction the filter of lines 270-321 kept in exactly one
round and ends with the heap empty: no candidate is lost and none is
considered twice.  The pops come in a priority-mode prefix, non-increasing in
(priority, fee rate), then a fee-mode suffix, non-increasing in (fee rate,
priority); with `-blockprioritysize=0` the heap starts sorted by fee
(line 326) and there is no prefix.  (The template gets the popped entries that
pass the checks of their round, `selectedTxs`.) -/
theorem selectTransactions_heapSort (N : Node) (p : CBlockIndex) (t : CBlockTemplate) :
    (∃ pre suf : List TxPriority,
      (selectionRounds N p t).map (fun r => (r.1.fSortedByFee, r.2)) =
        pre.map (false, ·) ++ suf.map (true, ·) ∧
      pre.Pairwise (fun a b => sortKey false b ≤ sortKey false a) ∧
      suf.Pairwise (fun a b => sortKey true b ≤ sortKey true a) ∧
      (pre ++ suf).Perm (collectCandidates N p N.pcoinsTip).vecPriority ∧
      ((blockBudgets N).nBlockPrioritySize = 0 → pre = [])) ∧
    (selectTransactions N p t).vecPriority = [] := by
  refine ⟨?_, selectLoop_vecPriority_nil N _ rfl le_rfl⟩
  obtain ⟨pre, suf, h₁, h₂, h₃, h₄, h₅⟩ := selectRounds_heapSort (N := N) (B := blockBudgets N)
    (s := initSelState (blockBudgets N) (collectCandidates N p N.pcoinsTip) N.pcoinsTip t) rfl
    (initSelState_heapOk _ _ _ _) le_rfl
  exact ⟨pre, suf, h₁, h₂, h₃, h₄, fun h0 => h₅ (by simp [initSelState, h0])⟩

/-! ## The round that switches modes -/

/-- A free mempool transaction spending `⟨1, 0⟩`. -/
def freeTx : CTransaction := ⟨[⟨⟨1, 0⟩, 7, []⟩], [], 0, .standard, []⟩

/-- `stakeNode` with `freeTx` as its mempool, a priority size of 1200 and a
minimum size of 1100. -/
def switchNode : Node :=
  { stakeNode with mapTx := [freeTx], args := ⟨750000, 1200, 1100, 5⟩ }

/-- The PoW template the selection of `switchNode` starts from. -/
def switchStart : CBlockTemplate := newTemplate switchNode demoParams (coinbaseTx [] [] [] 50)

/-- **The switching entry escapes the floor.**  `freeTx` is popped in priority
mode; its size takes the block to 1250, past the priority size, so the pop
switches the heap to fee mode (lines 360-365), but the floor of line 355 was
tested before the switch: the entry is admitted with a fee rate of 0, with the
block past the minimum size, and outside the priority-size window.  The PoW
build returns it after the coinbase. -/
theorem switchBuild_escapes_floor :
    (∃ r ∈ selectionRounds switchNode demoTip switchStart,
      admits switchNode (blockBudgets switchNode) r.1 r.2 = true ∧
      Switches switchNode (blockBudgets switchNode) r.1 ∧
      ¬FeePolicy switchNode (blockBudgets switchNode) r.1 r.2) ∧
    (CreateNewBlock switchNode demoParams (.single demoTip) demoState [] [] [] false).2.map
      (·.block.vtx.drop 1) = some [freeTx] := by decide

/-- **What the fee policy guarantees.**  In every build, each entry the
selection admits meets the policy of lines 355-365 (priority mode and free
under the priority size, the floor, or under the minimum size), or is the
entry whose own pop switched the heap to fee mode; and at most one round
switches. -/
theorem selectTransactions_feePolicy (N : Node) (p : CBlockIndex) (t : CBlockTemplate) :
    (∀ r ∈ selectionRounds N p t, admits N (blockBudgets N) r.1 r.2 = true →
      FeePolicy N (blockBudgets N) r.1 r.2 ∨ Switches N (blockBudgets N) r.1) ∧
    (selectionRounds N p t).Pairwise fun r r' =>
      Switches N (blockBudgets N) r.1 → ¬Switches N (blockBudgets N) r'.1 :=
  selectRounds_feePolicy _ rfl

/-! ## The admission order -/

/-- **Admission order.**  For a returned template, the transactions after the
coinbase (and coinstake) are those the selection rounds admitted, in order;
each was in its round's heap and greatest there under the comparator of the
round's mode (lines 71-92); so the admitted entries are a priority-mode prefix,
non-increasing in (priority, fee rate), then a fee-mode suffix, non-increasing
in (fee rate, priority). -/
theorem CreateNewBlock_admission_order {N : Node} {P : ChainParams} {tips : TipReads}
    {st st' : MinerState} {spk : CScript} {txPub txPriv : List Nat} {fPoS : Bool}
    {t : CBlockTemplate} (h : CreateNewBlock N P tips st spk txPub txPriv fPoS = (st', some t)) :
    ∃ t₀, t.block.vtx.drop (if fPoS then 2 else 1) =
        (admittedEntries N (blockBudgets N) (selectionRounds N tips.underLock t₀)).map (·.2.tx) ∧
      (∀ r ∈ selectionRounds N tips.underLock t₀, admits N (blockBudgets N) r.1 r.2 = true →
        r.2 ∈ r.1.vecPriority ∧
          ∀ x ∈ r.1.vecPriority, sortKey r.1.fSortedByFee x ≤ sortKey r.1.fSortedByFee r.2) ∧
      ∃ pre suf : List TxPriority,
        admittedEntries N (blockBudgets N) (selectionRounds N tips.underLock t₀) =
          pre.map (false, ·) ++ suf.map (true, ·) ∧
        pre.Pairwise (fun a b => sortKey false b ≤ sortKey false a) ∧
        suf.Pairwise (fun a b => sortKey true b ≤ sortKey true a) := by
  obtain ⟨-, t₀, -, -, -, hd, -⟩ := CreateNewBlock_selection h
  refine ⟨t₀, hd, fun r hr _ => ⟨SelState.front_mem (selectRounds_front _ rfl r hr).2,
    selectRounds_front_max _ rfl (initSelState_heapOk _ _ _ _) r hr⟩,
    admittedEntries_sorted _ rfl (initSelState_heapOk _ _ _ _)⟩

theorem stakeBuild_admission_order :
    stakeBuild = (stakeBuild.1, some stakeTemplate) ∧
      ∃ t₀, stakeTemplate.block.vtx.drop 2 =
        (admittedEntries stakeNode (blockBudgets stakeNode) (selectionRounds stakeNode demoTip t₀)).map
          (·.2.tx) :=
  ⟨stakeBuild_eq, (CreateNewBlock_admission_order stakeBuild_eq).imp fun _ h => h.1⟩

/-! ## Dependent transactions -/

/-- **Only coins of the tip are spent.**  Every transaction after the coinbase
(and coinstake) of a returned template has all its inputs in `pcoinsTip`: the
filter of line 295 reads the view before anything is admitted, and the view
changes only for coinstakes (lines 380-383).  A mempool transaction spending
another's output is dropped before the loop, and `mapDependers` stays empty, so
the wake-up of lines 401-412 has nothing to wake. -/
theorem CreateNewBlock_inputs_in_tip {N : Node} {P : ChainParams} {tips : TipReads}
    {st st' : MinerState} {spk : CScript} {txPub txPriv : List Nat} {fPoS : Bool}
    {t : CBlockTemplate} (h : CreateNewBlock N P tips st spk txPub txPriv fPoS = (st', some t)) :
    ∀ tx ∈ t.block.vtx.drop (if fPoS then 2 else 1), ∀ i ∈ tx.vin, i.prevout ∈ N.pcoinsTip := by
  obtain ⟨adm, hsub, -, hd, -⟩ := CreateNewBlock_shape h
  rw [hd]
  intro tx htx i hi
  obtain ⟨e, he, rfl⟩ := List.mem_map.1 (hsub.subset htx)
  have hin := (passesFilter_eq_true.1 (mem_collectCandidates he).2.1).2.2.2.2
  simp only [CheckHaveInputs, List.all_eq_true, decide_eq_true_eq] at hin
  exact hin i hi

theorem stakeBuild_inputs_in_tip :
    stakeBuild = (stakeBuild.1, some stakeTemplate) ∧
      ∀ tx ∈ stakeTemplate.block.vtx.drop (if true then 2 else 1), ∀ i ∈ tx.vin,
        i.prevout ∈ stakeNode.pcoinsTip :=
  ⟨stakeBuild_eq, CreateNewBlock_inputs_in_tip stakeBuild_eq⟩

/-- A mempool transaction spending the coin `⟨1, 0⟩`, with one output. -/
def parentTx : CTransaction := ⟨[⟨⟨1, 0⟩, 7, []⟩], [⟨5, [], [], [], [], 0⟩], 10000, .standard, []⟩

/-- A mempool transaction spending output 0 of `parentTx` (every hash is 0 under
`stakeNode`). -/
def childTx : CTransaction := ⟨[⟨⟨0, 0⟩, 8, []⟩], [], 10000, .standard, []⟩

/-- `stakeNode` with the mempool `parentTx`, `childTx`. -/
def chainNode : Node := { stakeNode with mapTx := [parentTx, childTx] }

/-- **A child of an admitted transaction is not admitted.**  The PoW build
admits `parentTx` alone, though `childTx` spends its output 0 and passes every
other check: with that output in the tip, the same build admits both (in the
order the library's `pop_heap` takes the two equal entries). -/
theorem chainBuild_drops_child :
    (CreateNewBlock chainNode demoParams (.single demoTip) demoState [] [] [] false).2.map
        (·.block.vtx.drop 1) = some [parentTx] ∧
      childTx.vin.map (·.prevout) = [⟨chainNode.txHash parentTx, 0⟩] ∧
      ∃ adm, (CreateNewBlock
          { chainNode with pcoinsTip := ⟨chainNode.txHash parentTx, 0⟩ :: chainNode.pcoinsTip }
          demoParams (.single demoTip) demoState [] [] [] false).2.map (·.block.vtx.drop 1) =
        some adm ∧ adm.Perm [parentTx, childTx] :=
  ⟨by decide, by decide, _, by decide, List.Perm.refl _⟩

/-! ## Reward outputs -/

/-- `vtx[i].vout[j]`, when there is one. -/
def CBlock.out (b : CBlock) (i j : Nat) : Option CTxOut := (b.vtx[i]?).bind (·.vout[j]?)

theorem CBlock.outValue_eq (b : CBlock) (i j : Nat) :
    b.outValue i j = (b.out i j).elim 0 (·.nValue) := rfl

@[simp] theorem CBlock.out_modifyTx_self (b : CBlock) (i j : Nat) (f : CTransaction → CTransaction) :
    (b.modifyTx i f).out i j = (b.vtx[i]?).bind fun tx => (f tx).vout[j]? := by
  simp only [CBlock.out, CBlock.modifyTx, List.getElem?_modify_eq]
  cases b.vtx[i]? <;> rfl

@[simp] theorem CBlock.out_modifyTx_ne (b : CBlock) {i i' : Nat} (h : i ≠ i') (j : Nat)
    (f : CTransaction → CTransaction) : (b.modifyTx i f).out i' j = b.out i' j := by
  simp [CBlock.out, CBlock.modifyTx, h]

@[simp] theorem CTransaction.modifyVout_vout_self (tx : CTransaction) (j : Nat) (g : CTxOut → CTxOut) :
    (tx.modifyVout j g).vout[j]? = (tx.vout[j]?).map g := by
  simp [CTransaction.modifyVout]

@[simp] theorem CTransaction.modifyVout_vout_ne (tx : CTransaction) {j j' : Nat} (h : j ≠ j')
    (g : CTxOut → CTxOut) : (tx.modifyVout j g).vout[j']? = tx.vout[j']? := by
  simp [CTransaction.modifyVout, h]

@[simp] theorem CBlock.modifyTx_vtx (b : CBlock) (i : Nat) (f : CTransaction → CTransaction) :
    (b.modifyTx i f).vtx = b.vtx.modify f i := rfl

theorem CBlock.out_of_vtx {b b' : CBlock} (h : b'.vtx = b.vtx) (i j : Nat) : b'.out i j = b.out i j := by
  simp [CBlock.out, h]

/-- PoW (lines 448-453): the coinbase output keeps its value and gets the
commitment `CreateCommitment` makes of it. -/
theorem commitReward_pow {N : Node} {txPub : List Nat} {b b' : CBlock}
    (hb : b.IsProofOfStake N = false) (h : commitReward N txPub b = some b') {o : CTxOut}
    (ho : b.out 0 0 = some o) :
    ∃ o', b'.out 0 0 = some o' ∧ o'.nValue = o.nValue ∧ N.CreateCommitment o'.nValue = some o'.commitment := by
  unfold commitReward at h
  simp only [hb, Bool.not_false, ↓reduceIte] at h
  obtain ⟨c, hc, rfl⟩ := Option.map_eq_some'.1 h
  obtain ⟨tx, htx, hv⟩ := Option.bind_eq_some.1 ho
  simp only [CBlock.outValue_eq, CBlock.out_modifyTx_self, CBlock.modifyTx_vtx,
    List.getElem?_modify_eq, htx, Option.map_eq_map, Option.map_some', Option.some_bind,
    CTransaction.modifyVout_vout_self, hv, Option.elim] at hc ⊢
  exact ⟨_, rfl, rfl, hc⟩

/-- PoS (lines 454-462): `vout[2]`'s value moves into `vout[1]`, which gets the
commitment of the sum, `vout[2]` is emptied and the coinbase is left as it is. -/
theorem commitReward_pos {N : Node} {txPub : List Nat} {b b' : CBlock}
    (hb : b.IsProofOfStake N = true) (h : commitReward N txPub b = some b') {tx : CTransaction}
    {o₁ o₂ : CTxOut} (htx : b.vtx[1]? = some tx) (h₁ : tx.vout[1]? = some o₁) (h₂ : tx.vout[2]? = some o₂) :
    (∀ j, b'.out 0 j = b.out 0 j) ∧ b'.out 1 2 = some o₂.SetEmpty ∧
      ∃ o', b'.out 1 1 = some o' ∧ o'.nValue = o₁.nValue + o₂.nValue ∧
        N.CreateCommitment o'.nValue = some o'.commitment := by
  unfold commitReward at h
  simp only [hb, Bool.not_true, Bool.false_eq_true, ↓reduceIte] at h
  split at h
  · cases h
  · next c hc =>
    split at h
    · cases h
    · next cs _ =>
      split at h
      · cases h
      · next sig _ =>
        split at h
        · obtain rfl := Option.some.inj h
          simpa [CBlock.outValue, CBlock.outTxPub, CBlock.out, CBlock.modifyTx, CTransaction.modifyVout,
            htx, h₁, h₂, List.getElem?_modify] using hc
        · cases h

/-- Rewriting a transaction without touching its outputs keeps every output. -/
theorem CBlock.out_of_modify {b b' : CBlock} {f : CTransaction → CTransaction} {k : Nat}
    (h : b'.vtx = b.vtx.modify f k) (hf : ∀ tx, (f tx).vout = tx.vout) (i j : Nat) :
    b'.out i j = b.out i j := by
  simp only [CBlock.out, h, List.getElem?_modify]
  split <;> cases b.vtx[i]? <;> simp [hf]

/-- A completed template's outputs are those `commitReward` made from the
block with its coinbase finalized; its fee vector records the fees at index 0. -/
theorem completeBlock_commit {N : Node} {P : ChainParams} {p : CBlockIndex}
    {st st' : MinerState} {txNew : CTransaction} {txPub : List Nat} {fPoS : Bool}
    {s : SelState} {t : CBlockTemplate}
    (h : completeBlock N P p st txNew txPub fPoS s = (st', some t)) :
    ∃ b, commitReward N txPub (finalizeCoinbase (p.nHeight + 1) fPoS s.nFees
        { s.tpl with block := if fPoS then s.tpl.block
          else (fillPayee N txNew s.nFees p s.tpl.block).2 }).block = some b ∧
      (∀ i j, t.block.out i j = b.out i j) ∧ t.vTxFees = s.tpl.vTxFees.set 0 s.nFees := by
  unfold completeBlock at h
  dsimp only at h
  split at h
  · simp at h
  · next b hb =>
    refine ⟨b, hb, ?_⟩
    cases fPoS
    · simp only [Bool.false_eq_true, ↓reduceIte, Prod.mk.injEq, Option.some.injEq] at h
      obtain ⟨-, rfl⟩ := h
      exact ⟨fun i j => rfl, rfl⟩
    · simp only [↓reduceIte, Prod.mk.injEq] at h
      obtain ⟨-, h⟩ := h
      obtain ⟨b₃, hsign, rfl⟩ := Option.map_eq_some'.1 h
      refine ⟨fun i j => ?_, rfl⟩
      rw [CBlock.out_of_vtx (signWithRetry_vtx hsign),
        CBlock.out_of_modify (IncrementExtraNonce_block ..).2.2.2 (fun _ => rfl)]
      rfl

/-- A returned template's outputs are those `commitReward` made of the
selection's block, with its coinbase finalized with the fees of the
transactions after the coinbase (and coinstake). -/
theorem CreateNewBlock_commit {N : Node} {P : ChainParams} {tips : TipReads}
    {st st' : MinerState} {spk : CScript} {txPub txPriv : List Nat} {fPoS : Bool}
    {t : CBlockTemplate} (h : CreateNewBlock N P tips st spk txPub txPriv fPoS = (st', some t)) :
    ∃ (st₁ : MinerState) (t₀ : CBlockTemplate) (s : SelState) (b : CBlock),
      (if fPoS then stakeSearch N tips.atEntry st (newTemplate N P
        (coinbaseTx spk txPub txPriv (N.GetBlockValue tips.forSubsidy.nHeight))) = (st₁, some t₀)
      else st₁ = st ∧
        t₀ = newTemplate N P (coinbaseTx spk txPub txPriv (N.GetBlockValue tips.forSubsidy.nHeight))) ∧
      s.tpl = pushAll t₀ (t.block.vtx.drop (if fPoS then 2 else 1)) ∧
      s.nFees = ((t.block.vtx.drop (if fPoS then 2 else 1)).map (·.nTxFee)).sum ∧
      (t₀.block.vtx.length = 1 → s.tpl.block.IsProofOfStake N = false) ∧
      commitReward N txPub (finalizeCoinbase (tips.underLock.nHeight + 1) fPoS s.nFees
        { s.tpl with block := if fPoS then s.tpl.block
          else (fillPayee N (coinbaseTx spk txPub txPriv (N.GetBlockValue tips.forSubsidy.nHeight))
            s.nFees tips.underLock s.tpl.block).2 }).block = some b ∧
      (∀ i j, t.block.out i j = b.out i j) ∧ t.vTxFees = s.tpl.vTxFees.set 0 s.nFees := by
  obtain ⟨st₁, t₀, hcase, hc, -, hd, -⟩ := CreateNewBlock_selection h
  obtain ⟨b, hb, hout, hfees⟩ := completeBlock_commit hc
  have hF := (selectTransactions_accounts N tips.underLock t₀).nFees
  simp only [initSelState, zero_add] at hF
  rw [hd]
  exact ⟨st₁, t₀, _, b, hcase, (selectTransactions_spec N tips.underLock t₀).1, hF,
    selectTransactions_not_pos N tips.underLock, hb, hout, hfees⟩

/-- PoW: `commitReward` leaves the coinbase's other outputs as they are. -/
theorem commitReward_pow_out_ne {N : Node} {txPub : List Nat} {b b' : CBlock}
    (hb : b.IsProofOfStake N = false) (h : commitReward N txPub b = some b') {j : Nat}
    (hj : j ≠ 0) : b'.out 0 j = b.out 0 j := by
  unfold commitReward at h
  simp only [hb, Bool.not_false, ↓reduceIte] at h
  obtain ⟨c, -, rfl⟩ := Option.map_eq_some'.1 h
  simp only [CBlock.out, CBlock.modifyTx_vtx, List.getElem?_modify_eq]
  cases b.vtx[0]? <;> simp [Ne.symm hj]

/-- **The PoW coinbase.**  Output 0 of a PoW template's coinbase pays
`GetBlockValue` at the subsidy height plus the fees of the transactions after
it, with the commitment of that value, and the coinbase has no other output:
it is the transaction pushed at line 200, whatever `FillBlockPayee` did to the
local `txNew` at line 417. -/
theorem CreateNewBlock_pow_coinbase {N : Node} {P : ChainParams} {tips : TipReads}
    {st st' : MinerState} {spk : CScript} {txPub txPriv : List Nat} {t : CBlockTemplate}
    (h : CreateNewBlock N P tips st spk txPub txPriv false = (st', some t)) :
    (∃ o, t.block.out 0 0 = some o ∧
      o.nValue = N.GetBlockValue tips.forSubsidy.nHeight + ((t.block.vtx.drop 1).map (·.nTxFee)).sum ∧
      N.CreateCommitment o.nValue = some o.commitment) ∧
    ∀ j, j ≠ 0 → t.block.out 0 j = none := by
  obtain ⟨st₁, t₀, s, b, ⟨-, rfl⟩, hs, hF, hnp, hb, hout, -⟩ := CreateNewBlock_commit h
  simp only [Bool.false_eq_true, ↓reduceIte] at hb hs hF
  rw [hF] at hb
  generalize t.block.vtx.drop 1 = adm at *
  generalize hB : (fillPayee N _ _ tips.underLock s.tpl.block).2 = B at hb
  have hBv : B.vtx = s.tpl.block.vtx := hB ▸ fillPayee_vtx ..
  have hpos := (((CBlock.KeepsFrom.of_vtx (k := 1) hBv).trans
    ((finalizeCoinbase_keepsFrom (tips.underLock.nHeight + 1) false (adm.map (·.nTxFee)).sum
      { s.tpl with block := B }).2 rfl)).IsProofOfStake_eq).trans (hnp rfl)
  have hcb : ∀ j, (finalizeCoinbase (tips.underLock.nHeight + 1) false (adm.map (·.nTxFee)).sum
      { s.tpl with block := B }).block.out 0 j =
      [⟨N.GetBlockValue tips.forSubsidy.nHeight + (adm.map (·.nTxFee)).sum, spk, txPub, txPriv, [], 0⟩][j]? := by
    intro j
    simp [finalizeCoinbase, CBlock.out, hBv, hs, pushAll, newTemplate, coinbaseTx,
      CTransaction.modifyVout, CTransaction.setScriptSig]
  obtain ⟨o, ho', hv, hcom⟩ := commitReward_pow hpos hb (hcb 0)
  refine ⟨⟨o, (hout 0 0).trans ho', hv, hcom⟩, fun j hj => ?_⟩
  rw [hout, commitReward_pow_out_ne hpos hb hj, hcb]
  exact List.getElem?_eq_none (by simp; omega)

/-- `stakeNode` whose `FillBlockPayee` adds a payee output of 5 to the script
`[.op 1]`. -/
def payeeNode : Node :=
  { stakeNode with
    FillBlockPayee := fun tx _ _ => { tx with vout := tx.vout ++ [⟨5, [.op 1], [], [], [], 0⟩] } }

/-- **The payee output is lost.**  `FillBlockPayee` adds the payee output to the
local `txNew` and `payee` is set from its `vout[1]` (line 421), but the
coinbase in the block keeps its single output, paying the subsidy of 50 and
the fees of 10000. -/
theorem payeeBuild_drops_payee :
    (CreateNewBlock payeeNode demoParams (.single demoTip) demoState [] [] [] false).2.map
        (fun t => (t.block.payee,
          (t.block.vtx[0]?).map fun tx => tx.vout.map fun o => (o.nValue, o.scriptPubKey))) =
      some ([.op 1], some [(10050, [])]) := by decide

/-- `vTxFees[0]` records the fees of the transactions after the coinbase (and
coinstake), line 437 or 440. -/
theorem CreateNewBlock_vTxFees_head {N : Node} {P : ChainParams} {tips : TipReads}
    {st st' : MinerState} {spk : CScript} {txPub txPriv : List Nat} {fPoS : Bool}
    {t : CBlockTemplate} (h : CreateNewBlock N P tips st spk txPub txPriv fPoS = (st', some t)) :
    t.vTxFees.head? = some ((t.block.vtx.drop (if fPoS then 2 else 1)).map (·.nTxFee)).sum := by
  obtain ⟨st₁, t₀, s, b, hcase, hs, hF, -, -, -, hfees⟩ := CreateNewBlock_commit h
  have ht₀ : t₀.vTxFees = [-1] := by
    cases fPoS
    · exact congrArg CBlockTemplate.vTxFees hcase.2
    · simp only [↓reduceIte] at hcase
      obtain ⟨-, -, -, hf, -⟩ := stakeSearch_some (by rw [hcase])
      exact hf
  simp [hfees, hs, hF, pushAll, ht₀]

/-- **The PoS reward.**  In a PoS template the coinbase output and the
coinstake's `vout[2]` are empty, and `vout[1]` holds what `CreateCoinStake` gave
`vout[1]` and `vout[2]` plus the fees of the transactions after the coinstake,
with the commitment of that value. -/
theorem CreateNewBlock_pos_reward {N : Node} {P : ChainParams} {tips : TipReads}
    {st st' : MinerState} {spk : CScript} {txPub txPriv : List Nat} {t : CBlockTemplate}
    (hcs : ∀ nBits nSearchInterval cs nTime,
      N.CreateCoinStake nBits nSearchInterval = some (cs, nTime) →
        N.IsCoinStake cs = true ∧ 2 < cs.vout.length)
    (hstake : ∀ tx f, N.IsCoinStake (tx.modifyVout 2 f) = N.IsCoinStake tx)
    (h : CreateNewBlock N P tips st spk txPub txPriv true = (st', some t)) :
    (∃ o, t.block.out 0 0 = some o ∧ o.nValue = 0 ∧ o.scriptPubKey = []) ∧
    (∃ o, t.block.out 1 2 = some o ∧ o.nValue = 0 ∧ o.scriptPubKey = []) ∧
    ∃ nBits nSearchInterval nTime cs o₁ o₂ o,
      N.CreateCoinStake nBits nSearchInterval = some (cs, nTime) ∧
      cs.vout[1]? = some o₁ ∧ cs.vout[2]? = some o₂ ∧ t.block.out 1 1 = some o ∧
      o.nValue = o₁.nValue + o₂.nValue + ((t.block.vtx.drop 2).map (·.nTxFee)).sum ∧
      N.CreateCommitment o.nValue = some o.commitment := by
  obtain ⟨st₁, t₀, s, b, hcase, hs, hF, -, hb, hout, -⟩ := CreateNewBlock_commit h
  simp only [↓reduceIte] at hcase hb hs hF
  rw [hF] at hb
  generalize t.block.vtx.drop 2 = adm at *
  generalize (adm.map (·.nTxFee)).sum = F at hb ⊢
  obtain ⟨cs, ⟨nBits, nSI, nTime, hcs'⟩, hv, -⟩ := stakeSearch_some (by rw [hcase])
  obtain ⟨hcoin, hlen⟩ := hcs _ _ _ _ hcs'
  obtain ⟨o₁, h₁⟩ : ∃ o, cs.vout[1]? = some o := ⟨_, List.getElem?_eq_getElem (by omega)⟩
  obtain ⟨o₂, h₂⟩ : ∃ o, cs.vout[2]? = some o := ⟨_, List.getElem?_eq_getElem (by omega)⟩
  have hvtx : s.tpl.block.vtx = (coinbaseTx spk txPub txPriv
      (N.GetBlockValue tips.forSubsidy.nHeight)).modifyVout 0 CTxOut.SetEmpty :: cs :: adm := by
    simp [hs, pushAll, hv, newTemplate]
  have htx : (finalizeCoinbase (tips.underLock.nHeight + 1) true F
      { s.tpl with block := s.tpl.block }).block.vtx[1]? =
      some (cs.modifyVout 2 fun o => { o with nValue := o.nValue + F }) := by
    simp [finalizeCoinbase, hvtx]
  have hpos : (finalizeCoinbase (tips.underLock.nHeight + 1) true F
      { s.tpl with block := s.tpl.block }).block.IsProofOfStake N = true := by
    rw [CBlock.IsProofOfStake_eq, List.head?_drop, htx]
    simp [hstake, hcoin]
  obtain ⟨h0, h2, o, ho, hov, hcom⟩ := commitReward_pos hpos hb htx
    (show (cs.modifyVout 2 _).vout[1]? = some o₁ by simp [h₁])
    (show (cs.modifyVout 2 _).vout[2]? = some { o₂ with nValue := o₂.nValue + F } by simp [h₂])
  have hB0 : (finalizeCoinbase (tips.underLock.nHeight + 1) true F
      { s.tpl with block := s.tpl.block }).block.out 0 0 =
      some (CTxOut.SetEmpty ⟨N.GetBlockValue tips.forSubsidy.nHeight, spk, txPub, txPriv, [], 0⟩) := by
    simp [finalizeCoinbase, CBlock.out, hvtx, coinbaseTx, CTransaction.modifyVout,
      CTransaction.setScriptSig]
  refine ⟨⟨_, (hout 0 0).trans ((h0 0).trans hB0), rfl, rfl⟩, ⟨_, (hout 1 2).trans h2, rfl, rfl⟩,
    nBits, nSI, nTime, cs, o₁, o₂, o, hcs', h₁, h₂, (hout 1 1).trans ho,
    hov.trans (add_assoc _ _ _).symm, hcom⟩

/-- **The reward is the subsidy or the stake plus the fees.**  With `F` the fees
of the transactions after the coinbase (and coinstake): `vTxFees[0]` is `F`; a
PoW coinbase pays `GetBlockValue` at the subsidy height plus `F` and commits to
that value; in a PoS block the coinbase output and the coinstake's `vout[2]`
are empty and `vout[1]` holds what `CreateCoinStake` gave `vout[1]` and
`vout[2]` plus `F`, committed to.  The outputs read are those of the returned
template, after `IncrementExtraNonce` and signing.  The coinstake is assumed to
have the three outputs that lines 439 and 454-455 index, and `IsCoinStake` not
to read the value of `vout[2]`. -/
theorem CreateNewBlock_reward {N : Node} {P : ChainParams} {tips : TipReads}
    {st st' : MinerState} {spk : CScript} {txPub txPriv : List Nat} {fPoS : Bool}
    {t : CBlockTemplate}
    (hcs : ∀ nBits nSearchInterval cs nTime,
      N.CreateCoinStake nBits nSearchInterval = some (cs, nTime) →
        N.IsCoinStake cs = true ∧ 2 < cs.vout.length)
    (hstake : ∀ tx f, N.IsCoinStake (tx.modifyVout 2 f) = N.IsCoinStake tx)
    (h : CreateNewBlock N P tips st spk txPub txPriv fPoS = (st', some t)) :
    t.vTxFees.head? = some ((t.block.vtx.drop (if fPoS then 2 else 1)).map (·.nTxFee)).sum ∧
    (fPoS = false → ∃ o, t.block.out 0 0 = some o ∧
      o.nValue = N.GetBlockValue tips.forSubsidy.nHeight + ((t.block.vtx.drop 1).map (·.nTxFee)).sum ∧
      N.CreateCommitment o.nValue = some o.commitment) ∧
    (fPoS = true →
      (∃ o, t.block.out 0 0 = some o ∧ o.nValue = 0 ∧ o.scriptPubKey = []) ∧
      (∃ o, t.block.out 1 2 = some o ∧ o.nValue = 0 ∧ o.scriptPubKey = []) ∧
      ∃ nBits nSearchInterval nTime cs o₁ o₂ o,
        N.CreateCoinStake nBits nSearchInterval = some (cs, nTime) ∧
        cs.vout[1]? = some o₁ ∧ cs.vout[2]? = some o₂ ∧ t.block.out 1 1 = some o ∧
        o.nValue = o₁.nValue + o₂.nValue + ((t.block.vtx.drop 2).map (·.nTxFee)).sum ∧
        N.CreateCommitment o.nValue = some o.commitment) := by
  cases fPoS
  · exact ⟨CreateNewBlock_vTxFees_head h, fun _ => (CreateNewBlock_pow_coinbase h).1, nofun⟩
  · exact ⟨CreateNewBlock_vTxFees_head h, nofun, fun _ => CreateNewBlock_pos_reward hcs hstake h⟩

theorem stakeBuild_reward :
    (∀ nBits nSearchInterval cs nTime,
      stakeNode.CreateCoinStake nBits nSearchInterval = some (cs, nTime) →
        stakeNode.IsCoinStake cs = true ∧ 2 < cs.vout.length) ∧
    (∀ tx f, stakeNode.IsCoinStake (tx.modifyVout 2 f) = stakeNode.IsCoinStake tx) ∧
    stakeBuild = (stakeBuild.1, some stakeTemplate) ∧
    stakeTemplate.vTxFees.head? = some ((stakeTemplate.block.vtx.drop 2).map (·.nTxFee)).sum := by
  have hcs : ∀ nBits nSearchInterval cs nTime,
      stakeNode.CreateCoinStake nBits nSearchInterval = some (cs, nTime) →
        stakeNode.IsCoinStake cs = true ∧ 2 < cs.vout.length := by
    rintro _ _ _ _ ⟨⟩
    decide
  have hstake : ∀ tx f, stakeNode.IsCoinStake (tx.modifyVout 2 f) = stakeNode.IsCoinStake tx :=
    fun _ _ => rfl
  exact ⟨hcs, hstake, stakeBuild_eq, (CreateNewBlock_reward hcs hstake stakeBuild_eq).1⟩

end Prcy
