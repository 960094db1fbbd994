import PrcyMiner.Audit

/-!
# `BitcoinMiner`: building, submitting and the PoW search (lines 627-893)

One pass of the miner's loop reads the tip (line 777), builds a template
with `CreateNewBlockWithKey`, and sets the extra nonce.  A PoS block is then
signed again and handed to `ProcessBlockFound`; a PoW block is searched: the
inner loop of lines 821-849 hashes nonce after nonce and leaves every 256
nonces for the checkpoint of lines 875-893, which rebuilds, stops, or
refreshes the time and goes on.

`ProcessBlockFound` here runs alone; `PrcyMiner.Submit` interleaves it.
`ProcessNewBlock`'s verdicts and what each checkpoint observes come from the
environment `MinerEnv`.

* `searchRun_unsolved_checkpoint`: unsolved iterations raise the nonce by
  one each and reach the checkpoint within 256 hashes.
* `searchRun_solved_never_leaves`: a solved block whose second submission
  fails is hashed again and again with the same nonce; the inner loop never
  reaches the checkpoint.
* `minerPass_blocks_final`: every block handed to `ProcessBlockFound` carries
  the Merkle root of its transactions and, for PoS, a signature of its final
  header; every `CreateNewPoABlock` template carries its three roots.
* `minerBuild_single_tip`: a build during which the tip does not move is on
  that tip, with its work and the height after it in the coinbase.
* `minerBuild_tip_race`: when the tip moves between line 777 and line 642,
  the template is built against one tip and numbered after the other.
* `minerPass_nonce_bound`: from the nonce 0 a template starts at, the search
  keeps `nNonce` at most `0xffff0000`, below it in the inner loop, so the
  32-bit increment never wraps.
* `minerPass_pow_handed_solved`: every block the search hands to
  `ProcessBlockFound` meets the compact target of its own `nBits`, sits on
  the tip the template was built against, and is no older than the median
  time past of the tips read, through every time refresh and recomputation
  of the work at the checkpoint.
* `minerBuild_extraNonce`: `CreateNewBlock`'s own `IncrementExtraNonce` call
  sets the shared static first, so the `nExtraNonce` of a staking thread
  running alone is never reset on a new tip.
-/

namespace Prcy

/-! ## Building -/

/-- `CreateNewBlockWithKey` (lines 635-655): a fresh address, and no PoW
template once the next height, read from the tip at line 642, is past
`LAST_POW_BLOCK`. -/
def CreateNewBlockWithKey (N : Node) (P : ChainParams) (pindexTip : CBlockIndex) (tips : TipReads)
    (st : MinerState) (fProofOfStake : Bool) : MinerState × Option CBlockTemplate :=
  match N.GenerateAddress with
  | none => (st, none)
  | some (pubkey, txPub, priv) =>
    if (P.LAST_POW_BLOCK : Int) < pindexTip.nHeight + 1 ∧ !fProofOfStake then (st, none)
    else CreateNewBlock N P tips st [.bytes pubkey, OP_CHECKSIG] txPub priv fProofOfStake

/-- The tips one build reads: `BitcoinMiner`'s at line 777,
`CreateNewBlockWithKey`'s at line 642, and `CreateNewBlock`'s three. -/
structure BuildTips where
  miner : CBlockIndex
  withKey : CBlockIndex
  create : TipReads
  deriving DecidableEq, Repr

/-- A build during which the tip does not move. -/
def BuildTips.single (t : CBlockIndex) : BuildTips := ⟨t, t, TipReads.single t⟩

/-- The five reads, in program order. -/
def BuildTips.reads (tips : BuildTips) : List CBlockIndex :=
  [tips.miner, tips.withKey, tips.create.atEntry, tips.create.forSubsidy, tips.create.underLock]

/-- Lines 772-787: the template, then `IncrementExtraNonce` on the tip read at
line 777 with the thread's `nExtraNonce`. -/
def minerBuild (N : Node) (P : ChainParams) (tips : BuildTips) (st : MinerState)
    (nExtraNonce : Nat) (fProofOfStake : Bool) : MinerState × Nat × Option CBlockTemplate :=
  match CreateNewBlockWithKey N P tips.withKey tips.create st fProofOfStake with
  | (st, none) => (st, nExtraNonce, none)
  | (st, some t) =>
    let (hashPrevBlock, nExtraNonce, b) :=
      IncrementExtraNonce N st.hashPrevBlock t.block tips.miner nExtraNonce
    ({ st with hashPrevBlock }, nExtraNonce, some { t with block := b })

/-! ## Submitting -/

/-- `ProcessBlockFound` (lines 668-701) with nothing running in between: a
block not on `g_best_block` is stale; otherwise `ProcessNewBlock` gives its
verdict, and an accepted block becomes the best block.  Returns the result,
the new best block, and whether `ProcessNewBlock` was called. -/
def ProcessBlockFound (N : Node) (best : Nat) (accepted : Bool) (b : CBlock) : Bool × Nat × Bool :=
  if b.header.hashPrevBlock ≠ best then (false, best, false)
  else if accepted then (true, N.GetHash b.header, true) else (false, best, true)

/-! ## The PoW search -/

/-- What a checkpoint (lines 875-893) observes. -/
structure Checkpoint where
  /-- `boost::this_thread::interruption_point()` throws -/
  interrupted : Bool
  /-- `vNodes.empty()` -/
  noPeers : Bool
  /-- `mempool.GetTransactionsUpdated() != nTransactionsUpdatedLast` -/
  mempoolUpdated : Bool
  /-- `GetTime() - nStart` -/
  elapsed : Int
  /-- `pindexPrev != chainActive.Tip()` -/
  tipMoved : Bool
  /-- `GetAdjustedTime()` for `UpdateTime` -/
  now : Nat
  deriving DecidableEq, Repr

/-- The miner's environment: `ProcessNewBlock`'s verdicts in call order, and
what each checkpoint observes, in order. -/
structure MinerEnv where
  pnb : Nat → Bool
  cp : Nat → Checkpoint

/-- Where the search is. -/
inductive SearchPc where
  /-- the inner `while (true)` of lines 821-849 -/
  | inner
  /-- the checks of lines 875-893 -/
  | checkpoint
  /-- back to the outer loop for a new template -/
  | rebuild
  /-- `boost::thread_interrupted` thrown: the thread ends -/
  | interrupted
  deriving DecidableEq, Repr

/-- The search's state.  `best` is `g_best_block`; `nPnb` and `nCp` count the
`ProcessNewBlock` calls and the checkpoints so far; `handed` lists the blocks
handed to `ProcessBlockFound`, in order. -/
structure Search where
  pc : SearchPc
  blk : CBlock
  hashTarget : Nat
  fLastLoopOrphan : Bool
  best : Nat
  nPnb : Nat
  nCp : Nat
  handed : List CBlock

/-- `blk` with `nNonce := n`. -/
def CBlock.setNonce (b : CBlock) (n : Nat) : CBlock := { b with header := { b.header with nNonce := n } }

@[simp] theorem CBlock.setNonce_nNonce (b : CBlock) (n : Nat) : (b.setNonce n).header.nNonce = n :=
  rfl

@[simp] theorem CBlock.setNonce_setNonce (b : CBlock) (m n : Nat) :
    (b.setNonce m).setNonce n = b.setNonce n := rfl

theorem CBlock.setNonce_self (b : CBlock) : b.setNonce b.header.nNonce = b := rfl

/-- One iteration of the inner loop (lines 823-848), or one checkpoint
(lines 875-893).  A solution is handed to `ProcessBlockFound` twice (lines
827-828); when the second call fails the loop `continue`s with the block as
it is. -/
def searchStep (N : Node) (P : ChainParams) (pindexPrev : CBlockIndex) (env : MinerEnv)
    (s : Search) : Search :=
  match s.pc with
  | .inner =>
    if N.GetHash s.blk.header ≤ s.hashTarget then
      let (_, best, called₁) := ProcessBlockFound N s.best (env.pnb s.nPnb) s.blk
      let nPnb := if called₁ then s.nPnb + 1 else s.nPnb
      let (ok, best, called₂) := ProcessBlockFound N best (env.pnb nPnb) s.blk
      let s := { s with
        best
        nPnb := if called₂ then nPnb + 1 else nPnb
        handed := s.handed ++ [s.blk, s.blk] }
      if !ok then { s with fLastLoopOrphan := true }
      else if P.MineBlocksOnDemand then { s with pc := .interrupted }
      else { s with pc := .checkpoint }
    else
      let nNonce := (s.blk.header.nNonce + 1) % 2 ^ 32
      let s := { s with blk := s.blk.setNonce nNonce }
      if nNonce &&& 0xFF = 0 then { s with pc := .checkpoint } else s
  | .checkpoint =>
    let e := env.cp s.nCp
    let s := { s with nCp := s.nCp + 1 }
    if e.interrupted then { s with pc := .interrupted }
    else if (e.noPeers && P.MiningRequiresPeers) || decide (0xffff0000 ≤ s.blk.header.nNonce) ||
      (e.mempoolUpdated && decide (60 < e.elapsed)) || e.tipMoved then { s with pc := .rebuild }
    else
      let h := UpdateTime { N with GetAdjustedTime := e.now } P pindexPrev s.blk.header
      { s with
        pc := .inner
        blk := { s.blk with header := h }
        hashTarget := if P.AllowMinDifficultyBlocks then N.SetCompact h.nBits else s.hashTarget }
  | _ => s

/-- `n` steps of the search. -/
def searchRun (N : Node) (P : ChainParams) (pindexPrev : CBlockIndex) (env : MinerEnv) :
    Nat → Search → Search
  | 0, s => s
  | n + 1, s => searchRun N P pindexPrev env n (searchStep N P pindexPrev env s)

/-- The search's start (line 815): the target from the block's `nBits`. -/
def searchInit (N : Node) (b : CBlock) (fLastLoopOrphan : Bool) (best : Nat) : Search :=
  ⟨.inner, b, N.SetCompact b.header.nBits, fLastLoopOrphan, best, 0, 0, []⟩

/-- Lines 772-893: one pass of `BitcoinMiner`'s loop past its gating, the PoW
search cut after `fuel` steps.  A PoS block is signed once more (lines
791-801) and handed to `ProcessBlockFound`; the returned record then stands
for that submission. -/
def minerPass (N : Node) (P : ChainParams) (tips : BuildTips) (env : MinerEnv) (fuel : Nat)
    (st : MinerState) (nExtraNonce : Nat) (fLastLoopOrphan : Bool) (best : Nat)
    (fProofOfStake : Bool) : MinerState × Nat × Option Search :=
  match minerBuild N P tips st nExtraNonce fProofOfStake with
  | (st, n, none) => (st, n, none)
  | (st, n, some t) =>
    if fProofOfStake then
      let (keys, b?) := signWithRetry N st.keys t.block
      let st := { st with keys }
      match b? with
      | none => (st, n, none)
      | some b =>
        let (_, best, called) := ProcessBlockFound N best (env.pnb 0) b
        (st, n, some ⟨.rebuild, b, 0, fLastLoopOrphan, best, if called then 1 else 0, 0, [b]⟩)
    else
      (st, n, some (searchRun N P tips.miner env fuel (searchInit N t.block fLastLoopOrphan best)))

end Prcy

namespace Prcy

/-! ## A solution that cannot be submitted -/

section Search

variable {N : Node} {P : ChainParams} {p : CBlockIndex} {env : MinerEnv} {s : Search}

/-- A solution is handed over twice (lines 827-828); the block and its target
stay as they are. -/
theorem searchStep_solved (hpc : s.pc = .inner) (hsol : N.GetHash s.blk.header ≤ s.hashTarget) :
    (searchStep N P p env s).blk = s.blk ∧ (searchStep N P p env s).hashTarget = s.hashTarget ∧
      (searchStep N P p env s).handed = s.handed ++ [s.blk, s.blk] := by
  simp only [searchStep, hpc, hsol, if_true]
  rcases ProcessBlockFound N s.best (env.pnb s.nPnb) s.blk with ⟨-, b₁, c₁⟩
  rcases ProcessBlockFound N b₁ _ s.blk with ⟨ok, b₂, c₂⟩
  cases ok <;> cases P.MineBlocksOnDemand <;> exact ⟨rfl, rfl, rfl⟩

/-- A stale solution: both calls of lines 827-828 fail, and the loop goes on
with the block as it is. -/
theorem searchStep_solved_stale (hpc : s.pc = .inner)
    (hsol : N.GetHash s.blk.header ≤ s.hashTarget) (hstale : s.blk.header.hashPrevBlock ≠ s.best) :
    searchStep N P p env s =
      { s with handed := s.handed ++ [s.blk, s.blk], fLastLoopOrphan := true } := by
  simp [searchStep, hpc, hsol, ProcessBlockFound, hstale]

/-- A fresh solution that `ProcessNewBlock` accepts becomes the best block at
line 827, so the call of line 828 finds it stale. -/
theorem searchStep_solved_accepted (hpc : s.pc = .inner)
    (hsol : N.GetHash s.blk.header ≤ s.hashTarget) (hbest : s.blk.header.hashPrevBlock = s.best)
    (hacc : env.pnb s.nPnb = true) (hself : N.GetHash s.blk.header ≠ s.blk.header.hashPrevBlock) :
    searchStep N P p env s = { s with
      best := N.GetHash s.blk.header
      nPnb := s.nPnb + 1
      handed := s.handed ++ [s.blk, s.blk]
      fLastLoopOrphan := true } := by
  have h' : s.best ≠ N.GetHash s.blk.header := fun e => hself (hbest.trans e).symm
  simp [searchStep, hpc, hsol, ProcessBlockFound, hbest, hacc, h']

/-- From a stale solution, every step stays in the inner loop on the same
block and hands it over twice more. -/
theorem searchRun_solved_stale (hpc : s.pc = .inner)
    (hsol : N.GetHash s.blk.header ≤ s.hashTarget) (hstale : s.blk.header.hashPrevBlock ≠ s.best)
    (n : Nat) :
    (searchRun N P p env n s).pc = .inner ∧ (searchRun N P p env n s).blk = s.blk ∧
      (searchRun N P p env n s).handed.length = s.handed.length + 2 * n := by
  induction n generalizing s with
  | zero => simp [searchRun, hpc]
  | succ n ih =>
    rw [searchRun, searchStep_solved_stale hpc hsol hstale]
    obtain ⟨h₁, h₂, h₃⟩ := ih (s := { s with
      handed := s.handed ++ [s.blk, s.blk]
      fLastLoopOrphan := true }) hpc hsol hstale
    exact ⟨h₁, h₂, by simp only [List.length_append] at h₃; simp [h₃]; omega⟩

/-- **A solved block is hashed forever.**  On a solution that is stale, or
fresh and accepted by `ProcessNewBlock` (so stale for the second call of line
828), the inner loop never reaches the checkpoint: after any number of
iterations, each one hash of the header, it is still in the inner loop with
`nNonce` unchanged. -/
theorem searchRun_solved_never_leaves (hpc : s.pc = .inner)
    (hsol : N.GetHash s.blk.header ≤ s.hashTarget)
    (hsub : s.blk.header.hashPrevBlock ≠ s.best ∨ (s.blk.header.hashPrevBlock = s.best ∧
      env.pnb s.nPnb = true ∧ N.GetHash s.blk.header ≠ s.blk.header.hashPrevBlock))
    (n : Nat) :
    (searchRun N P p env n s).pc = .inner ∧
      (searchRun N P p env n s).blk.header.nNonce = s.blk.header.nNonce := by
  rcases hsub with hstale | ⟨hbest, hacc, hself⟩
  · obtain ⟨h₁, h₂, -⟩ := @searchRun_solved_stale N P p env s hpc hsol hstale n
    exact ⟨h₁, by rw [h₂]⟩
  · cases n with
    | zero => exact ⟨hpc, rfl⟩
    | succ n =>
      rw [searchRun, searchStep_solved_accepted hpc hsol hbest hacc hself]
      obtain ⟨h₁, h₂, -⟩ := @searchRun_solved_stale N P p env
        { s with
          best := N.GetHash s.blk.header
          nPnb := s.nPnb + 1
          handed := s.handed ++ [s.blk, s.blk]
          fLastLoopOrphan := true }
        hpc hsol (Ne.symm hself) n
      exact ⟨h₁, by rw [h₂]⟩

end Search

/-- A PoW block on `demoTip` with `nBits = 1`, whose header hashes to 0 under
`stakeNode`. -/
def solvedBlock : CBlock :=
  { CBlock.null with header := { CBlock.null.header with hashPrevBlock := 42, nBits := 1 } }

/-- `ProcessNewBlock` accepts every block; no checkpoint stops the search. -/
def acceptingEnv : MinerEnv := ⟨fun _ => true, fun _ => ⟨false, false, false, 0, false, 0⟩⟩

theorem solvedBlock_never_leaves :
    (searchInit stakeNode solvedBlock false 42).pc = .inner ∧
    stakeNode.GetHash solvedBlock.header ≤ (searchInit stakeNode solvedBlock false 42).hashTarget ∧
    (solvedBlock.header.hashPrevBlock = 42 ∧ acceptingEnv.pnb 0 = true ∧
      stakeNode.GetHash solvedBlock.header ≠ solvedBlock.header.hashPrevBlock) ∧
    ∀ n, (searchRun stakeNode demoParams demoTip acceptingEnv n
        (searchInit stakeNode solvedBlock false 42)).pc = .inner ∧
      (searchRun stakeNode demoParams demoTip acceptingEnv n
        (searchInit stakeNode solvedBlock false 42)).blk.header.nNonce = solvedBlock.header.nNonce :=
  ⟨rfl, by decide, ⟨rfl, rfl, by decide⟩,
    searchRun_solved_never_leaves rfl (by decide) (.inr ⟨rfl, rfl, by decide⟩)⟩

/-! ## Unsolved nonces reach the checkpoint -/

section Unsolved

variable {N : Node} {P : ChainParams} {p : CBlockIndex} {env : MinerEnv} {s : Search}

/-- An unsolved iteration: `nNonce` goes up by one modulo `2^32`, and the loop
leaves for the checkpoint when the new nonce is a multiple of 256. -/
theorem searchStep_unsolved (hpc : s.pc = .inner) (hsol : ¬ N.GetHash s.blk.header ≤ s.hashTarget) :
    searchStep N P p env s =
      if (s.blk.header.nNonce + 1) % 2 ^ 32 % 256 = 0 then
        { s with blk := s.blk.setNonce ((s.blk.header.nNonce + 1) % 2 ^ 32), pc := .checkpoint }
      else { s with blk := s.blk.setNonce ((s.blk.header.nNonce + 1) % 2 ^ 32) } := by
  have hmask : ∀ x : Nat, x &&& 0xFF = x % 256 := fun x => Nat.and_pow_two_sub_one_eq_mod x 8
  simp only [searchStep, hpc, hsol, if_false, hmask]

/-- The run lemma: with `d` nonces to go to the next multiple of 256, none
solving the block, the loop stays in the inner loop for `d` iterations, each
raising the nonce by one, and is at the checkpoint after them, its nonce at
that multiple (0 past `2^32 - 1`). -/
theorem searchRun_unsolved (d : Nat) (hpc : s.pc = .inner) (hn : s.blk.header.nNonce < 2 ^ 32)
    (hd : s.blk.header.nNonce % 256 + d = 256)
    (hsol : ∀ k < d, ¬ N.GetHash (s.blk.setNonce (s.blk.header.nNonce + k)).header ≤ s.hashTarget) :
    (∀ k < d, (searchRun N P p env k s).pc = .inner ∧
        (searchRun N P p env k s).blk = s.blk.setNonce (s.blk.header.nNonce + k)) ∧
      (searchRun N P p env d s).pc = .checkpoint ∧
      (searchRun N P p env d s).blk = s.blk.setNonce ((s.blk.header.nNonce + d) % 2 ^ 32) := by
  induction d generalizing s with
  | zero => omega
  | succ d ih =>
    have h0 := hsol 0 (Nat.succ_pos d)
    rw [Nat.add_zero, CBlock.setNonce_self] at h0
    have hmod : (s.blk.header.nNonce + 1) % 2 ^ 32 % 256 = (s.blk.header.nNonce + 1) % 256 :=
      Nat.mod_mod_of_dvd _ (by decide)
    have first : ∀ k, k = 0 → (searchRun N P p env k s).pc = .inner ∧
        (searchRun N P p env k s).blk = s.blk.setNonce (s.blk.header.nNonce + k) := by
      rintro _ rfl
      exact ⟨hpc, (CBlock.setNonce_self _).symm⟩
    rcases Nat.eq_zero_or_pos d with rfl | hpos
    · -- the last nonce before the multiple of 256
      have hz : (s.blk.header.nNonce + 1) % 256 = 0 := by omega
      refine ⟨fun k hk => first k (by omega), ?_⟩
      rw [searchRun, searchStep_unsolved hpc h0]
      simp only [hmod, hz, if_true]
      exact ⟨rfl, rfl⟩
    · -- an inner nonce: no wrap, no checkpoint
      have hlt : s.blk.header.nNonce + 1 < 2 ^ 32 := by
        have h255 : (2 ^ 32 - 1) % 256 = 255 := by decide
        by_contra hge
        rw [show s.blk.header.nNonce = 2 ^ 32 - 1 by omega, h255] at hd
        omega
      have hstep : searchStep N P p env s =
          { s with blk := s.blk.setNonce (s.blk.header.nNonce + 1) } := by
        have hne : (s.blk.header.nNonce + 1) % 256 ≠ 0 := by omega
        rw [searchStep_unsolved hpc h0, hmod, if_neg hne, Nat.mod_eq_of_lt hlt]
      obtain ⟨hin, hpc', hblk⟩ := ih (s := { s with blk := s.blk.setNonce (s.blk.header.nNonce + 1) })
        hpc hlt (by simp only [CBlock.setNonce_nNonce]; omega)
        fun k hk => by simpa [Nat.add_assoc, Nat.add_comm 1 k] using hsol (k + 1) (by omega)
      refine ⟨fun k hk => ?_, ?_⟩
      · rcases k with _ | k
        · exact first 0 rfl
        · rw [searchRun, hstep]
          simpa [Nat.add_assoc, Nat.add_comm 1 k] using hin k (by omega)
      · rw [searchRun, hstep]
        simpa [Nat.add_assoc, Nat.add_comm 1 d] using And.intro hpc' hblk

/-- **Unsolved nonces reach the checkpoint.**  From the inner loop, when none
of the nonces up to the next multiple of 256 solves the block, each
iteration hashes once and raises `nNonce` by one, and the loop reaches the
checkpoint of line 876 after `256 - nNonce % 256` iterations, at most 256. -/
theorem searchRun_unsolved_checkpoint (hpc : s.pc = .inner) (hn : s.blk.header.nNonce < 2 ^ 32)
    (hsol : ∀ k < 256 - s.blk.header.nNonce % 256,
      ¬ N.GetHash (s.blk.setNonce (s.blk.header.nNonce + k)).header ≤ s.hashTarget) :
    (∀ k < 256 - s.blk.header.nNonce % 256, (searchRun N P p env k s).pc = .inner ∧
        (searchRun N P p env k s).blk.header.nNonce = s.blk.header.nNonce + k) ∧
      (searchRun N P p env (256 - s.blk.header.nNonce % 256) s).pc = .checkpoint := by
  obtain ⟨hin, hcp, -⟩ := @searchRun_unsolved N P p env s _ hpc hn
    (by have := Nat.mod_lt s.blk.header.nNonce (show 0 < 256 by decide); omega) hsol
  exact ⟨fun k hk => ⟨(hin k hk).1, by rw [(hin k hk).2, CBlock.setNonce_nNonce]⟩, hcp⟩

end Unsolved

/-- A search from the nonce 1 against the target 0 of `stakeNode`. -/
def unsolvedSearch : Search := searchInit stakeNode (CBlock.null.setNonce 1) false 0

theorem unsolvedSearch_checkpoint :
    (∀ k < 256 - unsolvedSearch.blk.header.nNonce % 256,
        (searchRun stakeNode demoParams demoTip acceptingEnv k unsolvedSearch).pc = .inner ∧
        (searchRun stakeNode demoParams demoTip acceptingEnv k unsolvedSearch).blk.header.nNonce =
          unsolvedSearch.blk.header.nNonce + k) ∧
      (searchRun stakeNode demoParams demoTip acceptingEnv
        (256 - unsolvedSearch.blk.header.nNonce % 256) unsolvedSearch).pc = .checkpoint :=
  searchRun_unsolved_checkpoint rfl (by decide) fun k _ => by
    show ¬ 1 + k ≤ 0
    omega

/-! ## Merkle roots and signatures of the blocks handed over -/

/-- The header carries the Merkle root of the block's transactions. -/
def CBlock.HasMerkleRoot (N : Node) (b : CBlock) : Prop :=
  b.header.hashMerkleRoot = N.BlockMerkleRoot b.vtx

section Handed

variable {N : Node} {P : ChainParams} {p : CBlockIndex} {env : MinerEnv}

/-- A search step changes neither the transactions nor the Merkle root, and
hands over only the current block. -/
theorem searchStep_frame (s : Search) :
    (searchStep N P p env s).blk.vtx = s.blk.vtx ∧
    (searchStep N P p env s).blk.header.hashMerkleRoot = s.blk.header.hashMerkleRoot ∧
    ∃ k, (searchStep N P p env s).handed = s.handed ++ List.replicate k s.blk := by
  unfold searchStep
  split
  · by_cases hsol : N.GetHash s.blk.header ≤ s.hashTarget
    · simp only [hsol, if_true]
      rcases ProcessBlockFound N s.best (env.pnb s.nPnb) s.blk with ⟨-, b₁, c₁⟩
      rcases ProcessBlockFound N b₁ _ s.blk with ⟨ok, b₂, c₂⟩
      simp only [apply_ite Search.blk, apply_ite Search.handed, ite_self]
      exact ⟨trivial, trivial, 2, rfl⟩
    · simp only [hsol, if_false, apply_ite Search.blk, apply_ite Search.handed, ite_self]
      exact ⟨rfl, rfl, 0, by simp⟩
  · simp only [apply_ite Search.blk, apply_ite Search.handed, apply_ite CBlock.vtx,
      apply_ite CBlock.header, apply_ite CBlockHeader.hashMerkleRoot, UpdateTime_hashMerkleRoot,
      ite_self]
    exact ⟨trivial, trivial, 0, by simp⟩
  · exact ⟨rfl, rfl, 0, by simp⟩

theorem searchRun_merkle (n : Nat) {s : Search} (hb : s.blk.HasMerkleRoot N)
    (hh : ∀ b ∈ s.handed, b.HasMerkleRoot N) :
    (searchRun N P p env n s).blk.HasMerkleRoot N ∧
      ∀ b ∈ (searchRun N P p env n s).handed, b.HasMerkleRoot N := by
  induction n generalizing s with
  | zero => exact ⟨hb, hh⟩
  | succ n ih =>
    obtain ⟨hv, hr, k, hk⟩ := @searchStep_frame N P p env s
    refine ih (by rw [CBlock.HasMerkleRoot, hv, hr]; exact hb) fun b hb' => ?_
    rw [hk] at hb'
    rcases List.mem_append.1 hb' with h | h
    · exact hh b h
    · rw [List.eq_of_mem_replicate h]; exact hb

theorem minerBuild_merkle {tips : BuildTips} {st st' : MinerState} {n n' : Nat} {fPoS : Bool}
    {t : CBlockTemplate} (h : minerBuild N P tips st n fPoS = (st', n', some t)) :
    t.block.HasMerkleRoot N := by
  unfold minerBuild at h
  split at h
  · cases h
  · cases h; rfl

end Handed

/-- **Every block handed over is final.**  Each block a pass of `BitcoinMiner`
hands to `ProcessBlockFound` carries the Merkle root of its transactions, and
a PoS block carries the wallet's signature of its final header; a PoA
template's three roots are computed over its final transactions, audit list
and header. -/
theorem minerPass_blocks_final :
    (∀ (N : Node) (P : ChainParams) (tips : BuildTips) (env : MinerEnv) (fuel : Nat)
      (st st' : MinerState) (n n' : Nat) (f : Bool) (best : Nat) (fPoS : Bool) (s : Search),
      minerPass N P tips env fuel st n f best fPoS = (st', n', some s) →
      ∀ b ∈ s.handed, b.HasMerkleRoot N ∧
        (fPoS = true → ∃ keys, N.signHash keys (N.GetHash b.header) = some b.vchBlockSig)) ∧
    (∀ (N : Node) (P : ChainParams) (c : ActiveChain) (spk : CScript) (txPub txPriv : List Nat)
      (t : CBlockTemplate), CreateNewPoABlock N P c spk txPub txPriv = pure (some t) →
      t.block.HasMerkleRoot N ∧
      t.block.header.hashPoAMerkleRoot = N.ComputePoAMerkleTree t.block.posBlocksAudited ∧
      t.block.header.minedHash =
        N.ComputeMinedHash { t.block with header := { t.block.header with minedHash := 0 } }) := by
  refine ⟨fun N P tips env fuel st st' n n' f best fPoS s h => ?_, fun N P c spk txPub txPriv t h => ?_⟩
  · unfold minerPass at h
    split at h
    · cases h
    · next st₁ n₁ t hb =>
      have hroot := minerBuild_merkle hb
      cases fPoS
      · simp only [Bool.false_eq_true, ↓reduceIte, Prod.mk.injEq, Option.some.injEq] at h
        obtain ⟨-, -, rfl⟩ := h
        intro b hb'
        exact ⟨(searchRun_merkle fuel (s := searchInit N t.block f best) hroot nofun).2 b hb',
          nofun⟩
      · simp only [↓reduceIte] at h
        split at h
        · cases h
        · next b hsign =>
          simp only [Prod.mk.injEq, Option.some.injEq] at h
          obtain ⟨-, -, rfl⟩ := h
          intro b' hb'
          obtain rfl := List.mem_singleton.1 hb'
          obtain ⟨hb, ks, hks⟩ := signWithRetry_signed hsign
          rw [hb]
          exact ⟨hroot, fun _ => ⟨ks, hks⟩⟩
  · obtain ⟨-, -, -, -, -, -, -, h₁, h₂, h₃⟩ := CreateNewPoABlock_spec h
    exact ⟨h₁, h₂, h₃⟩

/-! ## The tip can move inside a build -/

/-- The coinbase's first `scriptSig`. -/
def CBlock.coinbaseScriptSig (b : CBlock) : Option CScript :=
  (b.vtx.head?.bind (·.vin.head?)).map (·.scriptSig)

/-- What `CreateNewBlockWithKey` returns: a `CreateNewBlock` template paid to
a fresh key, and a PoW template only while the height after the tip it read
is at most `LAST_POW_BLOCK`. -/
theorem CreateNewBlockWithKey_some {N : Node} {P : ChainParams} {T : CBlockIndex}
    {tips : TipReads} {st st' : MinerState} {fPoS : Bool} {t : CBlockTemplate}
    (h : CreateNewBlockWithKey N P T tips st fPoS = (st', some t)) :
    (fPoS = false → T.nHeight + 1 ≤ P.LAST_POW_BLOCK) ∧
      ∃ pubkey txPub priv,
        CreateNewBlock N P tips st [.bytes pubkey, OP_CHECKSIG] txPub priv fPoS = (st', some t) := by
  unfold CreateNewBlockWithKey at h
  split at h
  · cases h
  · next pubkey txPub priv _ =>
    split_ifs at h with hpow
    · cases h
    · refine ⟨fun hf => ?_, pubkey, txPub, priv, h⟩
      subst hf
      simp only [Bool.not_false, and_true, not_lt] at hpow
      omega

/-- **A build on a tip that does not move is consistent.**  When every read
of one build sees the tip `T`, the template is on `T`, its work is the one
`GetNextWorkRequired` asks on `T`, the coinbase carries the height after `T`
with the new extra nonce, and a PoW template is built only while that height
is at most `LAST_POW_BLOCK`. -/
theorem minerBuild_single_tip {N : Node} {P : ChainParams} {T : CBlockIndex}
    {st st' : MinerState} {n n' : Nat} {fPoS : Bool} {t : CBlockTemplate}
    (h : minerBuild N P (BuildTips.single T) st n fPoS = (st', n', some t)) :
    t.block.header.hashPrevBlock = T.phashBlock ∧
      (∃ hdr : CBlockHeader, hdr.hashPrevBlock = T.phashBlock ∧
        t.block.header.nBits = N.GetNextWorkRequired T hdr) ∧
      (∃ (cb : CTransaction) (rest : List CTransaction), t.block.vtx =
        cb.setScriptSig ([.num (T.nHeight + 1), .num n'] ++ N.COINBASE_FLAGS) :: rest) ∧
      (fPoS = false → T.nHeight + 1 ≤ P.LAST_POW_BLOCK) := by
  unfold minerBuild at h
  split at h
  · cases h
  · next st₁ t₁ hk =>
    obtain ⟨hpow, _, _, _, hc⟩ := CreateNewBlockWithKey_some hk
    obtain ⟨hp, hb, -⟩ := CreateNewBlock_header hc
    obtain ⟨adm, -, hl, -⟩ := CreateNewBlock_shape hc
    obtain ⟨hp', hb', -, hv⟩ := IncrementExtraNonce_block N st₁.hashPrevBlock t₁.block T n
    simp only [Prod.mk.injEq, Option.some.injEq] at h
    obtain ⟨-, rfl, rfl⟩ := h
    obtain ⟨cb, rest, hcr⟩ := List.exists_cons_of_ne_nil
      (List.ne_nil_of_length_pos (by rw [hl]; split <;> omega))
    exact ⟨hp'.trans hp, hb.imp fun _ ⟨h₁, h₂⟩ => ⟨h₁, hb'.trans h₂⟩,
      ⟨cb, rest, hv.trans (by rw [hcr]; rfl)⟩, hpow⟩

/-- The PoS build of `stakeNode` on `demoTip`, which does not move. -/
def stakeMinerBuild : MinerState × Nat × Option CBlockTemplate :=
  minerBuild stakeNode demoParams (.single demoTip) demoState 0 true

/-- The template `stakeMinerBuild` returns. -/
def stakeMinerTemplate : CBlockTemplate := stakeMinerBuild.2.2.getD ⟨CBlock.null, [], []⟩

theorem stakeMinerBuild_eq :
    stakeMinerBuild = (stakeMinerBuild.1, stakeMinerBuild.2.1, some stakeMinerTemplate) := by
  have h : stakeMinerBuild.2.2.isSome = true := by decide
  unfold stakeMinerTemplate
  generalize stakeMinerBuild = x at h ⊢
  obtain ⟨a, b, _ | t⟩ := x
  · cases h
  · rfl

theorem stakeMinerBuild_single_tip :
    stakeMinerBuild = (stakeMinerBuild.1, stakeMinerBuild.2.1, some stakeMinerTemplate) ∧
    stakeMinerTemplate.block.header.hashPrevBlock = demoTip.phashBlock ∧
      (∃ hdr : CBlockHeader, hdr.hashPrevBlock = demoTip.phashBlock ∧
        stakeMinerTemplate.block.header.nBits = stakeNode.GetNextWorkRequired demoTip hdr) ∧
      (∃ (cb : CTransaction) (rest : List CTransaction), stakeMinerTemplate.block.vtx =
        cb.setScriptSig ([.num (demoTip.nHeight + 1), .num stakeMinerBuild.2.1] ++
          stakeNode.COINBASE_FLAGS) :: rest) ∧
      (true = false → demoTip.nHeight + 1 ≤ demoParams.LAST_POW_BLOCK) :=
  ⟨stakeMinerBuild_eq, minerBuild_single_tip stakeMinerBuild_eq⟩

/-- The tip after `demoTip`. -/
def nextTip : CBlockIndex := ⟨251, 43, 0⟩

/-- The tip moves from `demoTip` to `nextTip` between line 777 and line 642. -/
def raceTips : BuildTips := ⟨demoTip, nextTip, TipReads.single nextTip⟩

/-- **A template against two tips.**  When the tip moves between line 777 and
line 642, `CreateNewBlock` builds on the new tip (`hashPrevBlock` 43) but
`IncrementExtraNonce` writes the height after the old one (251) into the
coinbase, where the new tip's successor has height 252. -/
theorem minerBuild_tip_race :
    (minerBuild stakeNode demoParams raceTips demoState 0 true).2.2.map
      (fun t => (t.block.header.hashPrevBlock, t.block.coinbaseScriptSig)) =
      some (43, some [.num 251, .num 1]) := by
  decide

/-! ## The nonce never wraps -/

/-- The nonce bound of lines 845 and 882: at most `0xffff0000`, and below it
in the inner loop. -/
def NonceBounded (s : Search) : Prop :=
  s.blk.header.nNonce ≤ 0xffff0000 ∧ (s.pc = .inner → s.blk.header.nNonce < 0xffff0000)

instance : DecidablePred NonceBounded := fun _ => inferInstanceAs (Decidable (_ ∧ _))

section Nonce

variable {N : Node} {P : ChainParams} {p : CBlockIndex} {env : MinerEnv}

/-- One step keeps the bound.  An unsolved iteration raises the nonce by one
and stays inside only below a multiple of 256, which `0xffff0000` is; a
solution keeps the nonce; the checkpoint goes back inside only below
`0xffff0000` (line 882), and `UpdateTime` keeps the nonce. -/
theorem searchStep_nonceBounded {s : Search} (h : NonceBounded s) :
    NonceBounded (searchStep N P p env s) := by
  obtain ⟨hle, hin⟩ := h
  cases hpc : s.pc with
  | inner =>
    have hlt := hin hpc
    by_cases hsol : N.GetHash s.blk.header ≤ s.hashTarget
    · simp only [searchStep, hpc, hsol, if_true]
      rcases ProcessBlockFound N s.best (env.pnb s.nPnb) s.blk with ⟨-, b₁, c₁⟩
      rcases ProcessBlockFound N b₁ _ s.blk with ⟨ok, b₂, c₂⟩
      cases ok <;> cases P.MineBlocksOnDemand <;> exact ⟨hle, fun _ => hlt⟩
    · have hmod : (s.blk.header.nNonce + 1) % 2 ^ 32 = s.blk.header.nNonce + 1 :=
        Nat.mod_eq_of_lt (by omega)
      rw [searchStep_unsolved hpc hsol, hmod]
      split
      · exact ⟨by simp only [CBlock.setNonce_nNonce]; omega, nofun⟩
      · exact ⟨by simp only [CBlock.setNonce_nNonce]; omega,
          fun _ => by simp only [CBlock.setNonce_nNonce]; omega⟩
  | checkpoint =>
    simp only [searchStep, hpc]
    split
    · exact ⟨hle, nofun⟩
    split
    · exact ⟨hle, nofun⟩
    next hr =>
      simp only [Bool.or_eq_true, decide_eq_true_eq, not_or] at hr
      have hn := UpdateTime_nNonce { N with GetAdjustedTime := (env.cp s.nCp).now } P p s.blk.header
      exact ⟨hn ▸ hle, fun _ => hn ▸ Nat.lt_of_not_le hr.1.1.2⟩
  | rebuild => simp only [searchStep, hpc]; exact ⟨hle, hin⟩
  | interrupted => simp only [searchStep, hpc]; exact ⟨hle, hin⟩

/-- Every run keeps the bound. -/
theorem searchRun_nonceBounded (n : Nat) {s : Search} (h : NonceBounded s) :
    NonceBounded (searchRun N P p env n s) := by
  induction n generalizing s with
  | zero => exact h
  | succ n ih => exact ih (searchStep_nonceBounded h)

/-- A template handed to the search starts at nonce 0 (line 484), which
`IncrementExtraNonce` keeps. -/
theorem minerBuild_nNonce {tips : BuildTips} {st st' : MinerState} {n n' : Nat} {fPoS : Bool}
    {t : CBlockTemplate} (h : minerBuild N P tips st n fPoS = (st', n', some t)) :
    t.block.header.nNonce = 0 := by
  unfold minerBuild at h
  split at h
  · cases h
  · next st₁ t₁ hk =>
    obtain ⟨-, _, _, _, hc⟩ := CreateNewBlockWithKey_some hk
    simp only [Prod.mk.injEq, Option.some.injEq] at h
    obtain ⟨-, -, rfl⟩ := h
    exact (IncrementExtraNonce_block ..).2.2.1.trans (CreateNewBlock_header hc).2.2

end Nonce

/-- **The nonce never wraps.**  In a PoW pass of `BitcoinMiner`, after any
number of steps of the search, whatever the hashes, the solutions, the
verdicts of `ProcessNewBlock` and what the checkpoints observe, `nNonce` is at
most `0xffff0000`, and in the inner loop below it, so the increment of line
845 does not wrap. -/
theorem minerPass_nonce_bound {N : Node} {P : ChainParams} {tips : BuildTips} {env : MinerEnv}
    {fuel : Nat} {st st' : MinerState} {n n' : Nat} {f : Bool} {best : Nat} {s : Search}
    (h : minerPass N P tips env fuel st n f best false = (st', n', some s)) :
    s.blk.header.nNonce ≤ 0xffff0000 ∧ (s.pc = .inner → s.blk.header.nNonce < 0xffff0000 ∧
      (s.blk.header.nNonce + 1) % 2 ^ 32 = s.blk.header.nNonce + 1) := by
  unfold minerPass at h
  split at h
  · cases h
  · next st₁ n₁ t hb =>
    simp only [Bool.false_eq_true, ↓reduceIte, Prod.mk.injEq, Option.some.injEq] at h
    obtain ⟨-, -, rfl⟩ := h
    have h0 : (searchInit N t.block f best).blk.header.nNonce = 0 := minerBuild_nNonce hb
    obtain ⟨hle, hin⟩ := @searchRun_nonceBounded N P tips.miner env fuel
      (searchInit N t.block f best) ⟨by omega, fun _ => by omega⟩
    exact ⟨hle, fun hpc => ⟨hin hpc, Nat.mod_eq_of_lt (by have := hin hpc; omega)⟩⟩

/-- A tip below `LAST_POW_BLOCK` of `demoParams`. -/
def powTip : CBlockIndex := ⟨100, 42, 0⟩

/-- A PoW pass of `stakeNode` on `powTip`, three search steps long. -/
def powPass : MinerState × Nat × Option Search :=
  minerPass stakeNode demoParams (.single powTip) acceptingEnv 3 demoState 0 false 42 false

/-- The search state `powPass` returns. -/
def powSearch : Search := powPass.2.2.getD (searchInit stakeNode solvedBlock false 42)

theorem powPass_eq : powPass = (powPass.1, powPass.2.1, some powSearch) := by
  have h : powPass.2.2.isSome = true := by decide
  unfold powSearch
  generalize powPass = x at h ⊢
  obtain ⟨a, b, _ | s⟩ := x
  · cases h
  · rfl

theorem powPass_nonce_bound :
    powPass = (powPass.1, powPass.2.1, some powSearch) ∧
      powSearch.blk.header.nNonce ≤ 0xffff0000 ∧ (powSearch.pc = .inner →
        powSearch.blk.header.nNonce < 0xffff0000 ∧
          (powSearch.blk.header.nNonce + 1) % 2 ^ 32 = powSearch.blk.header.nNonce + 1) :=
  ⟨powPass_eq, minerPass_nonce_bound powPass_eq⟩

/-! ## What the PoW search hands over -/

/-- `b` is the template block `b₀` with only its nonce, time and work moved,
at a time of at least `lo`. -/
def CBlock.SearchedFrom (b b₀ : CBlock) (lo : Nat) : Prop :=
  b.vtx = b₀.vtx ∧ b.header.hashPrevBlock = b₀.header.hashPrevBlock ∧
    b.header.hashMerkleRoot = b₀.header.hashMerkleRoot ∧ lo ≤ b.header.nTime

/-- The PoW search's invariant: the target is the one the header's `nBits`
encodes (lines 815 and 889-892); the block is the template's; and every block
handed to `ProcessBlockFound` is the template's and hashes at or below the
target its own header encodes. -/
structure SearchSound (N : Node) (b₀ : CBlock) (lo : Nat) (s : Search) : Prop where
  target : s.hashTarget = N.SetCompact s.blk.header.nBits
  blk : s.blk.SearchedFrom b₀ lo
  handed : ∀ b ∈ s.handed, b.SearchedFrom b₀ lo ∧ N.GetHash b.header ≤ N.SetCompact b.header.nBits

section Sound

variable {N : Node} {P : ChainParams} {p : CBlockIndex} {env : MinerEnv} {b₀ : CBlock} {lo : Nat}

/-- One step keeps the invariant, on a tip whose median time is at least
`lo - 1`, while that median time and the checkpoints' clocks fit the
`uint32_t` `nTime`.  A solution is handed over as the block stands, below its
target; an unsolved iteration moves only the nonce; a checkpoint moves only
the time and, with `AllowMinDifficultyBlocks`, the work and the target
together. -/
theorem searchStep_sound (hlo : lo ≤ p.medianTimePast + 1) (hmtp : p.medianTimePast + 1 < 2 ^ 32)
    (hcp : ∀ n, (env.cp n).now < 2 ^ 32) {s : Search}
    (h : SearchSound N b₀ lo s) : SearchSound N b₀ lo (searchStep N P p env s) := by
  obtain ⟨ht, hb, hh⟩ := h
  cases hpc : s.pc with
  | inner =>
    by_cases hsol : N.GetHash s.blk.header ≤ s.hashTarget
    · obtain ⟨hblk, htar, hhand⟩ := @searchStep_solved N P p env s hpc hsol
      refine ⟨by rw [htar, hblk, ht], hblk ▸ hb, fun b hb' => ?_⟩
      rw [hhand] at hb'
      simp only [List.mem_append, List.mem_cons, List.mem_singleton, List.not_mem_nil,
        or_false] at hb'
      rcases hb' with hb' | rfl | rfl
      · exact hh b hb'
      all_goals exact ⟨hb, ht ▸ hsol⟩
    · rw [searchStep_unsolved hpc hsol]
      split <;> exact ⟨ht, hb, hh⟩
  | checkpoint =>
    simp only [searchStep, hpc]
    split
    · exact ⟨ht, hb, hh⟩
    split
    · exact ⟨ht, hb, hh⟩
    · obtain ⟨h₁, h₂, h₃, -⟩ := hb
      have hnow := hcp s.nCp
      refine ⟨?_, ⟨h₁, by simpa using h₂, by simpa using h₃, ?_⟩, hh⟩
      · cases hA : P.AllowMinDifficultyBlocks
        · simpa [hA, UpdateTime_nBits_of_not hA] using ht
        · simp [hA]
      · rw [UpdateTime_nTime, Nat.mod_eq_of_lt (max_lt hmtp hnow)]
        exact hlo.trans (le_max_left _ _)
  | rebuild => simp only [searchStep, hpc]; exact ⟨ht, hb, hh⟩
  | interrupted => simp only [searchStep, hpc]; exact ⟨ht, hb, hh⟩

/-- Every run keeps the invariant. -/
theorem searchRun_sound (hlo : lo ≤ p.medianTimePast + 1) (hmtp : p.medianTimePast + 1 < 2 ^ 32)
    (hcp : ∀ n, (env.cp n).now < 2 ^ 32) (n : Nat) {s : Search}
    (h : SearchSound N b₀ lo s) : SearchSound N b₀ lo (searchRun N P p env n s) := by
  induction n generalizing s with
  | zero => exact h
  | succ n ih => exact ih (searchStep_sound hlo hmtp hcp h)

/-- A PoW template handed to the search is on the tip `CreateNewBlock` read
under `LOCK2`, at a time past that tip's median time while both fit the
`uint32_t` `nTime`. -/
theorem minerBuild_pow_header {tips : BuildTips} {st st' : MinerState} {n n' : Nat}
    {t : CBlockTemplate} (h : minerBuild N P tips st n false = (st', n', some t))
    (hmtp : tips.create.underLock.medianTimePast + 1 < 2 ^ 32) (hnow : N.GetAdjustedTime < 2 ^ 32) :
    t.block.header.hashPrevBlock = tips.create.underLock.phashBlock ∧
      tips.create.underLock.medianTimePast + 1 ≤ t.block.header.nTime := by
  unfold minerBuild at h
  split at h
  · cases h
  · next st₁ t₁ hk =>
    obtain ⟨-, _, _, _, hc⟩ := CreateNewBlockWithKey_some hk
    simp only [Prod.mk.injEq, Option.some.injEq] at h
    obtain ⟨-, -, rfl⟩ := h
    refine ⟨(IncrementExtraNonce_block ..).1.trans (CreateNewBlock_header hc).1, ?_⟩
    show _ ≤ t₁.block.header.nTime
    rw [CreateNewBlock_nTime_pow hc, Nat.mod_eq_of_lt (max_lt hmtp hnow)]
    exact le_max_left _ _

end Sound

/-- **The PoW miner hands over only solved blocks.**  In a PoW pass of
`BitcoinMiner`, after any number of search steps, whatever the hashes, the
verdicts of `ProcessNewBlock` and what the checkpoints observe, every block
handed to `ProcessBlockFound` hashes at or below the target its own `nBits`
encodes, is on the tip `CreateNewBlock` built on, and has a time past the
median time of that tip or of the one the search refreshes the time on, as
long as the clocks and those median times fit the `uint32_t` `nTime` (until
2106). -/
theorem minerPass_pow_handed_solved {N : Node} {P : ChainParams} {tips : BuildTips}
    {env : MinerEnv} {fuel : Nat} {st st' : MinerState} {n n' : Nat} {f : Bool} {best : Nat}
    {s : Search} (h : minerPass N P tips env fuel st n f best false = (st', n', some s))
    (hnow : N.GetAdjustedTime < 2 ^ 32) (hcp : ∀ n, (env.cp n).now < 2 ^ 32)
    (hmtp : tips.create.underLock.medianTimePast + 1 < 2 ^ 32)
    (hmtp' : tips.miner.medianTimePast + 1 < 2 ^ 32) :
    ∀ b ∈ s.handed, N.GetHash b.header ≤ N.SetCompact b.header.nBits ∧
      b.header.hashPrevBlock = tips.create.underLock.phashBlock ∧
      min tips.create.underLock.medianTimePast tips.miner.medianTimePast + 1 ≤ b.header.nTime := by
  unfold minerPass at h
  split at h
  · cases h
  · next st₁ n₁ t hb =>
    simp only [Bool.false_eq_true, ↓reduceIte, Prod.mk.injEq, Option.some.injEq] at h
    obtain ⟨-, -, rfl⟩ := h
    obtain ⟨hprev, htime⟩ := minerBuild_pow_header hb hmtp hnow
    have hlo : min tips.create.underLock.medianTimePast tips.miner.medianTimePast + 1 ≤
        t.block.header.nTime := by omega
    have hs := @searchRun_sound N P tips.miner env t.block
      (min tips.create.underLock.medianTimePast tips.miner.medianTimePast + 1) (by omega) hmtp' hcp
      fuel (searchInit N t.block f best) ⟨rfl, ⟨rfl, rfl, rfl, hlo⟩, nofun⟩
    intro b hb'
    obtain ⟨⟨-, hp, -, ht⟩, hsol⟩ := hs.handed b hb'
    exact ⟨hsol, hp.trans hprev, ht⟩

theorem powPass_handed_solved :
    powPass = (powPass.1, powPass.2.1, some powSearch) ∧ stakeNode.GetAdjustedTime < 2 ^ 32 ∧
      powTip.medianTimePast + 1 < 2 ^ 32 ∧
      ∀ b ∈ powSearch.handed, stakeNode.GetHash b.header ≤ stakeNode.SetCompact b.header.nBits ∧
        b.header.hashPrevBlock = powTip.phashBlock ∧
        min powTip.medianTimePast powTip.medianTimePast + 1 ≤ b.header.nTime :=
  ⟨powPass_eq, by decide, by decide,
    minerPass_pow_handed_solved powPass_eq (by decide) (fun _ => by simp [acceptingEnv]) (by decide)
      (by decide)⟩

/-! ## The stake-search statics across a pass -/

section Statics

variable {N : Node} {P : ChainParams} {st : MinerState} {fPoS : Bool}

theorem CreateNewBlockWithKey_stakeClock (T : CBlockIndex) (tips : TipReads) :
    StakeClock fPoS (N.GetAdjustedTime % 2 ^ 32) st (CreateNewBlockWithKey N P T tips st fPoS).1 := by
  unfold CreateNewBlockWithKey
  split
  · exact .refl
  · split_ifs
    · exact .refl
    · exact CreateNewBlock_stakeClock ..

theorem minerBuild_stakeClock (tips : BuildTips) (n : Nat) :
    StakeClock fPoS (N.GetAdjustedTime % 2 ^ 32) st (minerBuild N P tips st n fPoS).1 := by
  have h := @CreateNewBlockWithKey_stakeClock N P st fPoS tips.withKey tips.create
  unfold minerBuild
  split <;> rename_i heq <;> rw [heq] at h
  · exact h
  · exact h.frame ⟨rfl, rfl⟩

/-- A pass moves the statics only by its template's stake search: the
extra nonce, the signature and the search leave them. -/
theorem minerPass_stakeClock (tips : BuildTips) (env : MinerEnv) (fuel n : Nat) (o : Bool)
    (best : Nat) :
    StakeClock fPoS (N.GetAdjustedTime % 2 ^ 32) st (minerPass N P tips env fuel st n o best fPoS).1 := by
  have h := @minerBuild_stakeClock N P st fPoS tips n
  unfold minerPass
  split <;> rename_i heq <;> rw [heq] at h
  · exact h
  · split
    · split
      split <;> exact h.frame ⟨rfl, rfl⟩
    · exact h

/-- **A staking thread's extra nonce is never reset.**  In a build of a
thread that is the only one running `BitcoinMiner` (so that no other thread
calls `IncrementExtraNonce` between lines 491 and 787), `CreateNewBlock` has
just set the static `hashPrevBlock` of `IncrementExtraNonce` to the new PoS
block's parent (line 491), so the call of line 787 finds it equal and skips
the reset of lines 613-616: a PoS template raises the thread's `nExtraNonce`
by one whatever tip it is on.  A PoW template starts it again at 1 on a
parent other than that of the template before.  Both leave the static at the
template's parent. -/
theorem minerBuild_extraNonce {tips : BuildTips} {n n' : Nat} {st' : MinerState}
    {t : CBlockTemplate} (h : minerBuild N P tips st n fPoS = (st', n', some t)) :
    n' = ((if fPoS = false ∧ st.hashPrevBlock ≠ t.block.header.hashPrevBlock then 0 else n) + 1) %
        2 ^ 32 ∧
      st'.hashPrevBlock = t.block.header.hashPrevBlock := by
  unfold minerBuild at h
  split at h
  · cases h
  · next st₁ t₁ hb =>
    obtain ⟨-, pubkey, txPub, priv, hc⟩ := CreateNewBlockWithKey_some hb
    have hp := CreateNewBlock_hashPrevBlock hc
    simp only [Prod.mk.injEq, Option.some.injEq] at h
    obtain ⟨rfl, rfl, rfl⟩ := h
    refine ⟨?_, rfl⟩
    cases fPoS <;> simp [IncrementExtraNonce, hp, CBlock.modifyTx]

theorem stakeMinerBuild_extraNonce :
    stakeMinerBuild = (stakeMinerBuild.1, stakeMinerBuild.2.1, some stakeMinerTemplate) ∧
      stakeMinerBuild.2.1 = ((if true = false ∧
          demoState.hashPrevBlock ≠ stakeMinerTemplate.block.header.hashPrevBlock then 0 else 0) + 1) %
        2 ^ 32 ∧
      stakeMinerBuild.1.hashPrevBlock = stakeMinerTemplate.block.header.hashPrevBlock :=
  ⟨stakeMinerBuild_eq, minerBuild_extraNonce stakeMinerBuild_eq⟩

end Statics

end Prcy
