import PrcyMiner.Miner

/-!
# The `BitcoinMiner` loop, step by step (lines 709-893)

A miner thread runs the loop test and the switch to staking (lines 719-720),
then either the staking gate (lines 722-758) or the PoW exit test (lines
763-770), then a build: a PoS block is signed and handed over (`minerPass`),
a PoW block is searched (`searchStep`) until the search leaves for a new
template or the thread is interrupted.

Everything the thread reads from outside comes from the step's `LoopReads`:
the flag `fGeneratePrcycoins`, the tip, the clock, the wallet, the peers, the
sync state, `mapHashedBlocks`, and what a build reads.  A run is any list of
reads, so the results hold however the rest of the node interleaves with the
thread.  A pending interruption ends the thread at the step's interruption
point: the sleeps of lines 649, 732 and 756, line 208, or the search's line
876.  The miner's process state (`MinerState`) and the globals
`fMintableCoins` and `nMintableLastCheck` are the thread's: no other miner
thread runs.

* `minerTrace_stake_build_gated`: every PoS build comes right after a stop
  test that read `fGeneratePrcycoins` true and found no hashed tip to wait
  for, which came right after a gate test that either passed (peers, an
  unlocked wallet, mintable coins, a balance above the reserve, a synced
  node) or read `fGeneratePrcycoins` false and broke out of the wait;
  `raceTrace_build_gated` builds after a gate that saw a locked wallet.
* `minerRun_stake_stops`: a staking thread outside a build reads
  `fGeneratePrcycoins` at most five times before it stops, with
  `nLastCoinStakeSearchInterval` reset, or is interrupted.
* `minerTrace_powExit_tip_jump`: the PoW thread returns at line 768 only if
  the tip it reads there is at least eight blocks above the one it read at
  line 720 one step before; with one tip, the return is dead code.
* `minerTrace_orphan_never_waits`: `fLastLoopOrphan` is never reset, so once
  set the thread never again waits for a hashed tip.
* `minerTrace_mintable_rechecked`: `nMintableLastCheck` is an `int`, so from
  2038 on every staking iteration asks `MintableCoins()` again.
* `minerTrace_stake_windows`: in a staking thread that runs alone, only a PoS
  build moves the static `nLastCoinStakeSearchTime`, forward to the `uint32_t`
  time it reads, so the windows handed to `CreateCoinStake` never overlap.
-/

namespace Prcy

/-- `(int)` of an `int64_t`: the value modulo `2^32`, in `[-2^31, 2^31)`. -/
def toInt32 (x : Int) : Int := (x + 2 ^ 31) % 2 ^ 32 - 2 ^ 31

/-- What one step of the loop reads outside the thread. -/
structure LoopReads where
  /-- `fGeneratePrcycoins` (lines 719, 739, 744) -/
  fGeneratePrcycoins : Bool
  /-- `chainActive.Tip()` (lines 720, 751-754, 764) -/
  tip : CBlockIndex
  /-- `GetTime()` -/
  now : Int
  /-- `vNodes.empty()` -/
  noPeers : Bool
  /-- `pwallet->IsLocked()` -/
  IsLocked : Bool
  /-- `pwallet->MintableCoins()` -/
  MintableCoins : Bool
  nReserveBalance : Int
  /-- `pwallet->GetBalance()` -/
  GetBalance : Int
  /-- `masternodeSync.IsSynced()` -/
  IsSynced : Bool
  /-- `mapHashedBlocks`: when a height was hashed, if it was -/
  mapHashedBlocks : Nat → Option Int
  /-- `pwallet->nHashInterval` -/
  nHashInterval : Nat
  /-- an interruption is pending: the step's interruption point throws (the
  sleeps of lines 649, 732 and 756, line 208) -/
  interrupted : Bool
  /-- what a build reads: the node, its tips, `g_best_block`, and what its
  `ProcessNewBlock` calls and checkpoints observe -/
  node : Node
  tips : BuildTips
  best : Nat
  env : MinerEnv

/-- A PoW search under way (lines 815-893): the node it hashes with, the tip
read at line 777, and what its submissions and checkpoints observe. -/
structure PowSearch where
  node : Node
  pindexPrev : CBlockIndex
  env : MinerEnv
  s : Search

/-- Where a miner thread is. -/
inductive LoopPc where
  /-- line 719: the loop test, and the switch of line 720 -/
  | top
  /-- lines 721-727 for PoS, lines 763-770 for PoW -/
  | branch
  /-- one test of the `while` of line 729, and its body -/
  | gate
  /-- lines 744-758: the stop test and the wait for a hashed tip -/
  | stop
  /-- lines 772-811: a template, then for PoS its signature and submission -/
  | build
  /-- the PoW search of lines 815-893 -/
  | search (w : PowSearch)
  /-- `BitcoinMiner` returned after its loop -/
  | exited
  /-- line 768: the PoW thread returned -/
  | powExit
  /-- `boost::thread_interrupted` ended the thread -/
  | interrupted

/-- A miner thread: where it is, its locals `fProofOfStake`, `nExtraNonce`
and `fLastLoopOrphan`, the miner's process state, and the mintable cache. -/
structure MinerThread where
  pc : LoopPc
  fProofOfStake : Bool
  nExtraNonce : Nat
  fLastLoopOrphan : Bool
  st : MinerState
  fMintableCoins : Bool
  nMintableLastCheck : Int

/-- Lines 723-727 and 734-738: `MintableCoins()` is asked again once more
than `age` seconds have passed since `nMintableLastCheck`, an `int`. -/
def MinerThread.checkMintable (age : Int) (r : LoopReads) (t : MinerThread) : MinerThread :=
  if age < r.now - t.nMintableLastCheck then
    { t with nMintableLastCheck := toInt32 r.now, fMintableCoins := r.MintableCoins }
  else t

/-- The condition of the `while` at line 729. -/
def LoopReads.stakeBlocked (r : LoopReads) (fMintableCoins : Bool) : Bool :=
  r.noPeers || r.IsLocked || !fMintableCoins || decide (r.GetBalance ≤ r.nReserveBalance) ||
    !r.IsSynced

/-- Lines 751-758: the tip's height was hashed less than
`max(nHashInterval, 1)` seconds ago, and the last loop did not orphan. -/
def LoopReads.hashWait (r : LoopReads) (fLastLoopOrphan : Bool) : Bool :=
  match r.mapHashedBlocks r.tip.nHeight with
  | some t => !fLastLoopOrphan && decide (r.now - t < max r.nHashInterval 1)
  | none => false

/-- Where a search goes on: back to the loop for a new template, out of the
thread, or on searching.  `fLastLoopOrphan` is the search's. -/
def MinerThread.leaveSearch (t : MinerThread) (w : PowSearch) : MinerThread :=
  let t := { t with fLastLoopOrphan := w.s.fLastLoopOrphan }
  match w.s.pc with
  | .rebuild => { t with pc := .top }
  | .interrupted => { t with pc := .interrupted }
  | _ => { t with pc := .search w }

/-- Whether a build meets an interruption point: once `GenerateAddress`
succeeds, line 208 for PoS, and for PoW the sleep of line 649 before the
abort of lines 646-650 on a tip past `LAST_POW_BLOCK`. -/
def LoopReads.buildPoint (P : ChainParams) (r : LoopReads) (fProofOfStake : Bool) : Bool :=
  r.node.GenerateAddress.isSome &&
    (fProofOfStake || decide ((P.LAST_POW_BLOCK : Int) < r.tips.withKey.nHeight + 1))

/-- Lines 772-811: the template, which may first meet an interruption point,
then `IncrementExtraNonce`, then for PoS the signature and
`ProcessBlockFound`, for PoW the search's start.  A null template or a failed
signature `continue`s. -/
def MinerThread.build (P : ChainParams) (r : LoopReads) (t : MinerThread) : MinerThread :=
  if r.interrupted && r.buildPoint P t.fProofOfStake then { t with pc := .interrupted }
  else
    match minerPass r.node P r.tips r.env 0 t.st t.nExtraNonce t.fLastLoopOrphan r.best
        t.fProofOfStake with
    | (st, n, none) => { t with pc := .top, st, nExtraNonce := n }
    | (st, n, some s) => { t with st, nExtraNonce := n }.leaveSearch ⟨r.node, r.tips.miner, r.env, s⟩

/-- One step of `BitcoinMiner`'s loop. -/
def minerStep (P : ChainParams) (r : LoopReads) (t : MinerThread) : MinerThread :=
  match t.pc with
  | .top =>
    if !(r.fGeneratePrcycoins || t.fProofOfStake) then { t with pc := .exited }
    else
      { t with
        pc := .branch
        fProofOfStake := t.fProofOfStake || decide (P.LAST_POW_BLOCK ≤ r.tip.nHeight) }
  | .branch =>
    if t.fProofOfStake then { t.checkMintable (5 * 60) r with pc := .gate }
    else if (P.LAST_POW_BLOCK : Int) < (r.tip.nHeight : Int) - 6 then { t with pc := .powExit }
    else { t with pc := .build }
  | .gate =>
    if r.stakeBlocked t.fMintableCoins then
      let t := { t with st := { t.st with nLastCoinStakeSearchInterval := 0 } }
      if r.interrupted then { t with pc := .interrupted }
      else
        let t := if t.fMintableCoins then t else t.checkMintable 60 r
        if r.fGeneratePrcycoins then t else { t with pc := .stop }
    else { t with pc := .stop }
  | .stop =>
    if !r.fGeneratePrcycoins then
      { t with pc := .exited, st := { t.st with nLastCoinStakeSearchInterval := 0 } }
    else if r.hashWait t.fLastLoopOrphan then
      { t with pc := if r.interrupted then .interrupted else .top }
    else { t with pc := .build }
  | .build => t.build P r
  | .search w => t.leaveSearch { w with s := searchStep w.node P w.pindexPrev w.env w.s }
  | .exited | .powExit | .interrupted => t

/-- The steps of a run: the thread before each step, and what it reads. -/
def minerTrace (P : ChainParams) : List LoopReads → MinerThread → List (MinerThread × LoopReads)
  | [], _ => []
  | r :: rs, t => (t, r) :: minerTrace P rs (minerStep P r t)

/-! ## The search and the pass, seen from the loop -/

section Pass

variable {N : Node} {P : ChainParams} {p : CBlockIndex} {env : MinerEnv}

theorem searchStep_fLastLoopOrphan {s : Search} (h : s.fLastLoopOrphan = true) :
    (searchStep N P p env s).fLastLoopOrphan = true := by
  unfold searchStep
  split
  · split <;> simp only [apply_ite Search.fLastLoopOrphan, h, ite_self]
  · simp only [apply_ite Search.fLastLoopOrphan, h, ite_self]
  · exact h

theorem searchRun_fLastLoopOrphan (n : Nat) {s : Search} (h : s.fLastLoopOrphan = true) :
    (searchRun N P p env n s).fLastLoopOrphan = true := by
  induction n generalizing s with
  | zero => exact h
  | succ n ih => exact ih (searchStep_fLastLoopOrphan h)

/-- A PoS pass hands its block over and goes back for a new template; no
pass clears `fLastLoopOrphan`. -/
theorem minerPass_search {tips : BuildTips} {fuel : Nat} {st st' : MinerState} {n n' : Nat}
    {o : Bool} {best : Nat} {fPoS : Bool} {s : Search}
    (h : minerPass N P tips env fuel st n o best fPoS = (st', n', some s)) :
    (fPoS = true → s.pc = .rebuild) ∧ (o = true → s.fLastLoopOrphan = true) := by
  unfold minerPass at h
  split at h
  · cases h
  · cases fPoS
    · simp only [Bool.false_eq_true, ↓reduceIte, Prod.mk.injEq, Option.some.injEq] at h
      obtain ⟨-, -, rfl⟩ := h
      exact ⟨nofun, fun ho => searchRun_fLastLoopOrphan fuel ho⟩
    · simp only [↓reduceIte] at h
      split at h
      · cases h
      · simp only [Prod.mk.injEq, Option.some.injEq] at h
        obtain ⟨-, -, rfl⟩ := h
        exact ⟨fun _ => rfl, id⟩

end Pass

/-! ## What each step keeps -/

section Fields

variable {a : Int} {r : LoopReads} {t : MinerThread} {w : PowSearch}

@[simp] theorem MinerThread.checkMintable_pc : (t.checkMintable a r).pc = t.pc := by
  unfold MinerThread.checkMintable; split <;> rfl

@[simp] theorem MinerThread.checkMintable_fProofOfStake :
    (t.checkMintable a r).fProofOfStake = t.fProofOfStake := by
  unfold MinerThread.checkMintable; split <;> rfl

@[simp] theorem MinerThread.checkMintable_fLastLoopOrphan :
    (t.checkMintable a r).fLastLoopOrphan = t.fLastLoopOrphan := by
  unfold MinerThread.checkMintable; split <;> rfl

@[simp] theorem MinerThread.checkMintable_st : (t.checkMintable a r).st = t.st := by
  unfold MinerThread.checkMintable; split <;> rfl

theorem MinerThread.checkMintable_of_lt (h : a < r.now - t.nMintableLastCheck) :
    t.checkMintable a r =
      { t with nMintableLastCheck := toInt32 r.now, fMintableCoins := r.MintableCoins } :=
  if_pos h

/-- A check keeps the check time, or sets it to the clock. -/
theorem MinerThread.checkMintable_nMintableLastCheck :
    (t.checkMintable a r).nMintableLastCheck = t.nMintableLastCheck ∨
      (t.checkMintable a r).nMintableLastCheck = toInt32 r.now := by
  unfold MinerThread.checkMintable; split <;> simp

@[simp] theorem MinerThread.leaveSearch_nMintableLastCheck :
    (t.leaveSearch w).nMintableLastCheck = t.nMintableLastCheck := by
  unfold MinerThread.leaveSearch; split <;> rfl

@[simp] theorem MinerThread.leaveSearch_fProofOfStake :
    (t.leaveSearch w).fProofOfStake = t.fProofOfStake := by
  unfold MinerThread.leaveSearch; split <;> rfl

@[simp] theorem MinerThread.leaveSearch_fLastLoopOrphan :
    (t.leaveSearch w).fLastLoopOrphan = w.s.fLastLoopOrphan := by
  unfold MinerThread.leaveSearch; split <;> rfl

@[simp] theorem MinerThread.leaveSearch_st : (t.leaveSearch w).st = t.st := by
  unfold MinerThread.leaveSearch; split <;> rfl

/-- A search goes back to the loop's head, ends the thread, or goes on. -/
theorem MinerThread.leaveSearch_pc :
    (t.leaveSearch w).pc = .top ∨ (t.leaveSearch w).pc = .interrupted ∨
      (t.leaveSearch w).pc = .search w := by
  unfold MinerThread.leaveSearch; split <;> simp

theorem MinerThread.leaveSearch_eq_search {w' : PowSearch} (h : (t.leaveSearch w).pc = .search w') :
    w' = w := by
  rcases MinerThread.leaveSearch_pc (t := t) (w := w) with h' | h' | h' <;> rw [h'] at h <;> cases h
  rfl

@[simp] theorem MinerThread.build_fProofOfStake (P : ChainParams) :
    (t.build P r).fProofOfStake = t.fProofOfStake := by
  unfold MinerThread.build; split
  · rfl
  · split <;> simp

@[simp] theorem MinerThread.build_nMintableLastCheck (P : ChainParams) :
    (t.build P r).nMintableLastCheck = t.nMintableLastCheck := by
  unfold MinerThread.build; split
  · rfl
  · split <;> simp

/-- A build moves the stake-search statics as its pass does, at the clock of
the node it reads. -/
theorem MinerThread.build_stakeClock (P : ChainParams) :
    StakeClock t.fProofOfStake (r.node.GetAdjustedTime % 2 ^ 32) t.st (t.build P r).st := by
  have h := @minerPass_stakeClock r.node P t.st t.fProofOfStake r.tips r.env 0 t.nExtraNonce
    t.fLastLoopOrphan r.best
  unfold MinerThread.build; split
  · exact .refl
  · split <;> rename_i heq <;> rw [heq] at h <;> simpa using h

/-- A build goes back to the loop's head, ends the thread, or starts a search. -/
theorem MinerThread.build_pc (P : ChainParams) :
    (t.build P r).pc = .top ∨ (t.build P r).pc = .interrupted ∨
      ∃ w, (t.build P r).pc = .search w := by
  unfold MinerThread.build; split
  · exact .inr (.inl rfl)
  · split
    · exact .inl rfl
    · exact MinerThread.leaveSearch_pc.imp_right (.imp_right fun h => ⟨_, h⟩)

@[simp] theorem LoopReads.hashWait_orphan (r : LoopReads) : r.hashWait true = false := by
  unfold LoopReads.hashWait; split <;> simp

end Fields

/-! ## Runs and traces -/

section Trace

variable {P : ChainParams}

theorem minerTrace_getElem_zero {rs : List LoopReads} {t : MinerThread}
    {x : MinerThread × LoopReads} (h : (minerTrace P rs t)[0]? = some x) : x.1 = t := by
  cases rs with
  | nil => simp [minerTrace] at h
  | cons r rs => simp only [minerTrace, List.getElem?_cons_zero, Option.some.injEq] at h; rw [← h]

/-- Each step of a trace but the first follows from the one before it. -/
theorem minerTrace_getElem_succ {rs : List LoopReads} {t : MinerThread} {i : Nat}
    {y : MinerThread × LoopReads} (h : (minerTrace P rs t)[i + 1]? = some y) :
    ∃ x, (minerTrace P rs t)[i]? = some x ∧ y.1 = minerStep P x.2 x.1 := by
  induction rs generalizing t i with
  | nil => simp [minerTrace] at h
  | cons r rs ih =>
    simp only [minerTrace, List.getElem?_cons_succ] at h
    cases i with
    | zero => exact ⟨(t, r), by simp [minerTrace], minerTrace_getElem_zero h⟩
    | succ i => simpa only [minerTrace, List.getElem?_cons_succ] using ih h

/-- **Induction over the steps**: a property every step keeps, under the
reads a run makes, holds at every step of the run. -/
theorem minerTrace_induct {R : LoopReads → Prop} {I : MinerThread → Prop}
    (step : ∀ r t, R r → I t → I (minerStep P r t)) :
    ∀ {rs : List LoopReads} {t : MinerThread}, (∀ r ∈ rs, R r) → I t →
      ∀ x ∈ minerTrace P rs t, I x.1 ∧ R x.2
  | [], _, _, _, _, hx => by simp [minerTrace] at hx
  | r :: rs, t, hr, h, x, hx => by
    have hr₀ := hr r (List.mem_cons_self _ _)
    rcases List.mem_cons.1 hx with rfl | hx
    · exact ⟨h, hr₀⟩
    · exact minerTrace_induct step (fun r' h' => hr r' (List.mem_cons_of_mem _ h')) (step r t hr₀ h) x hx

end Trace

/-! ## What leads where -/

section Steps

variable {P : ChainParams} {r : LoopReads} {t : MinerThread}

/-- A build or a search step goes back to the loop's head, ends the thread,
or searches. -/
theorem minerStep_pc_of_build_search (h : t.pc = .build ∨ ∃ w, t.pc = .search w) :
    (minerStep P r t).pc = .top ∨ (minerStep P r t).pc = .interrupted ∨
      ∃ w, (minerStep P r t).pc = .search w := by
  rcases h with h | ⟨w, h⟩
  · simpa only [minerStep, h] using MinerThread.build_pc P
  · simp only [minerStep, h]
    exact MinerThread.leaveSearch_pc.imp_right (.imp_right fun h' => ⟨_, h'⟩)

/-- **What one step can do** to the program counter and to
`fProofOfStake`, with the reads that decide it. -/
theorem minerStep_cases :
    (t.pc = .top ∧ (((minerStep P r t).pc = .exited ∧ r.fGeneratePrcycoins = false ∧
      t.fProofOfStake = false) ∨ ((minerStep P r t).pc = .branch ∧
      (minerStep P r t).fProofOfStake =
        (t.fProofOfStake || decide (P.LAST_POW_BLOCK ≤ r.tip.nHeight))))) ∨
    (t.pc = .branch ∧ (minerStep P r t).fProofOfStake = t.fProofOfStake ∧
      ((t.fProofOfStake = true ∧ (minerStep P r t).pc = .gate) ∨
        (t.fProofOfStake = false ∧ (((minerStep P r t).pc = .powExit ∧
          P.LAST_POW_BLOCK + 7 ≤ r.tip.nHeight) ∨ (minerStep P r t).pc = .build)))) ∨
    (t.pc = .gate ∧ (minerStep P r t).fProofOfStake = t.fProofOfStake ∧
      (((minerStep P r t).pc = .gate ∧ r.fGeneratePrcycoins = true) ∨
        ((minerStep P r t).pc = .interrupted ∧ r.interrupted = true) ∨
        ((minerStep P r t).pc = .stop ∧
          (r.stakeBlocked t.fMintableCoins = false ∨ r.fGeneratePrcycoins = false)))) ∨
    (t.pc = .stop ∧ (minerStep P r t).fProofOfStake = t.fProofOfStake ∧
      (((minerStep P r t).pc = .exited ∧ r.fGeneratePrcycoins = false ∧
          (minerStep P r t).st.nLastCoinStakeSearchInterval = 0) ∨
        (((minerStep P r t).pc = .top ∨ (minerStep P r t).pc = .interrupted) ∧
          r.fGeneratePrcycoins = true ∧ r.hashWait t.fLastLoopOrphan = true) ∨
        ((minerStep P r t).pc = .build ∧ r.fGeneratePrcycoins = true ∧
          r.hashWait t.fLastLoopOrphan = false))) ∨
    ((t.pc = .build ∨ ∃ w, t.pc = .search w) ∧ (minerStep P r t).fProofOfStake = t.fProofOfStake ∧
      ((minerStep P r t).pc = .top ∨ (minerStep P r t).pc = .interrupted ∨
        ∃ w, (minerStep P r t).pc = .search w)) ∨
    ((t.pc = .exited ∨ t.pc = .powExit ∨ t.pc = .interrupted) ∧ minerStep P r t = t) := by
  cases hpc : t.pc with
  | top =>
    refine .inl ⟨rfl, ?_⟩
    simp only [minerStep, hpc]
    split <;> simp_all
  | branch =>
    refine .inr (.inl ⟨rfl, ?_⟩)
    simp only [minerStep, hpc]
    cases hp : t.fProofOfStake
    · simp only [Bool.false_eq_true, ↓reduceIte]
      split
      · exact ⟨rfl, .inr ⟨trivial, .inl ⟨rfl, by omega⟩⟩⟩
      · simp
    · simp [hp]
  | gate =>
    refine .inr (.inr (.inl ⟨rfl, ?_⟩))
    simp only [minerStep, hpc]
    split_ifs <;> simp_all
  | stop =>
    refine .inr (.inr (.inr (.inl ⟨rfl, ?_⟩)))
    simp only [minerStep, hpc]
    split_ifs <;> simp_all
  | build =>
    refine .inr (.inr (.inr (.inr (.inl ⟨.inl rfl, ?_, minerStep_pc_of_build_search (.inl hpc)⟩))))
    simp [minerStep, hpc]
  | search w =>
    refine .inr (.inr (.inr (.inr (.inl ⟨.inr ⟨w, rfl⟩, ?_,
      minerStep_pc_of_build_search (.inr ⟨w, hpc⟩)⟩))))
    simp [minerStep, hpc]
  | exited | powExit | interrupted =>
    exact .inr (.inr (.inr (.inr (.inr ⟨by simp, by simp [minerStep, hpc]⟩))))

/-- Only a stop test that read `fGeneratePrcycoins` true and found no hashed
tip to wait for, and the PoW branch, lead to a build. -/
theorem minerStep_eq_build (h : (minerStep P r t).pc = .build) :
    (minerStep P r t).fProofOfStake = t.fProofOfStake ∧
      ((t.pc = .stop ∧ r.fGeneratePrcycoins = true ∧ r.hashWait t.fLastLoopOrphan = false) ∨
        (t.pc = .branch ∧ t.fProofOfStake = false)) := by
  rcases minerStep_cases (P := P) (r := r) (t := t) with h' | h' | h' | h' | h' | h' <;> simp_all

/-- Only the gate leads to the stop test: after a test that passed, or one
that read `fGeneratePrcycoins` false. -/
theorem minerStep_eq_stop (h : (minerStep P r t).pc = .stop) :
    t.pc = .gate ∧ (r.stakeBlocked t.fMintableCoins = false ∨ r.fGeneratePrcycoins = false) := by
  rcases minerStep_cases (P := P) (r := r) (t := t) with h' | h' | h' | h' | h' | h' <;> simp_all

/-- Only the loop test leads to the branch. -/
theorem minerStep_eq_branch (h : (minerStep P r t).pc = .branch) :
    t.pc = .top ∧ (minerStep P r t).fProofOfStake =
      (t.fProofOfStake || decide (P.LAST_POW_BLOCK ≤ r.tip.nHeight)) := by
  rcases minerStep_cases (P := P) (r := r) (t := t) with h' | h' | h' | h' | h' | h' <;> simp_all

/-- A PoW branch returns at line 768 only on a tip more than six blocks past
`LAST_POW_BLOCK`. -/
theorem minerStep_branch_powExit (hb : t.pc = .branch) (h : (minerStep P r t).pc = .powExit) :
    t.fProofOfStake = false ∧ P.LAST_POW_BLOCK + 7 ≤ r.tip.nHeight := by
  rcases minerStep_cases (P := P) (r := r) (t := t) with h' | h' | h' | h' | h' | h' <;> simp_all

theorem minerStep_of_final (h : t.pc = .exited ∨ t.pc = .powExit ∨ t.pc = .interrupted) :
    minerStep P r t = t := by
  rcases h with h | h | h <;> simp [minerStep, h]

/-- A step keeps `nMintableLastCheck`, or sets it to the clock. -/
theorem minerStep_nMintableLastCheck :
    (minerStep P r t).nMintableLastCheck = t.nMintableLastCheck ∨
      (minerStep P r t).nMintableLastCheck = toInt32 r.now := by
  cases hpc : t.pc with
  | branch =>
    simp only [minerStep, hpc]
    split_ifs
    · exact MinerThread.checkMintable_nMintableLastCheck
    all_goals exact .inl rfl
  | gate =>
    simp only [minerStep, hpc]
    split_ifs
    all_goals first | exact .inl rfl | exact MinerThread.checkMintable_nMintableLastCheck
  | build | search _ => simp [minerStep, hpc]
  | top | stop => simp only [minerStep, hpc]; split_ifs <;> exact .inl rfl
  | exited | powExit | interrupted => simp [minerStep, hpc]

theorem LoopReads.stakeBlocked_eq_false {m : Bool} :
    r.stakeBlocked m = false ↔ r.noPeers = false ∧ r.IsLocked = false ∧ m = true ∧
      r.nReserveBalance < r.GetBalance ∧ r.IsSynced = true := by
  simp [LoopReads.stakeBlocked, not_le, and_assoc]

/-- Only a PoS build moves `nLastCoinStakeSearchTime`: forward, to the clock
it reads, the interval recording the window searched. -/
theorem minerStep_stakeSearchTime :
    (minerStep P r t).st.nLastCoinStakeSearchTime = t.st.nLastCoinStakeSearchTime ∨
      (t.pc = .build ∧ t.fProofOfStake = true ∧
        t.st.nLastCoinStakeSearchTime ≤ r.node.GetAdjustedTime % 2 ^ 32 ∧
        (minerStep P r t).st.nLastCoinStakeSearchTime = r.node.GetAdjustedTime % 2 ^ 32 ∧
        (minerStep P r t).st.nLastCoinStakeSearchInterval =
          r.node.GetAdjustedTime % 2 ^ 32 - t.st.nLastCoinStakeSearchTime) := by
  cases hpc : t.pc with
  | build =>
    simp only [minerStep, hpc]
    rcases MinerThread.build_stakeClock (t := t) (r := r) P with ⟨h, -⟩ | ⟨hp, h⟩
    · exact .inl h
    · exact .inr ⟨trivial, hp, h⟩
  | top | branch | gate | stop =>
    left
    simp only [minerStep, hpc, apply_ite MinerThread.st, MinerThread.checkMintable_st,
      apply_ite MinerState.nLastCoinStakeSearchTime, ite_self]
  | _ => left; simp [minerStep, hpc]

theorem minerStep_stakeSearchTime_le :
    t.st.nLastCoinStakeSearchTime ≤ (minerStep P r t).st.nLastCoinStakeSearchTime := by
  rcases minerStep_stakeSearchTime (P := P) (r := r) (t := t) with h | ⟨-, -, hle, h, -⟩ <;> omega

end Steps

/-! ## Staking builds pass the gate -/

section Runs

variable {P : ChainParams}

/-- Reads under which a staking thread goes straight through: peers, an
unlocked wallet with mintable coins above the reserve, a synced node, and no
hashed tip. -/
def idleReads : LoopReads :=
  ⟨true, demoTip, 1000, false, false, true, 0, 100, true, fun _ => none, 0, false, stakeNode,
    .single demoTip, 0, acceptingEnv⟩

/-- A staking thread at the loop's head. -/
def stakeThread : MinerThread := ⟨.top, true, 0, false, demoState, true, 0⟩

/-- `fGeneratePrcycoins` is off when the gate reads it, with the wallet
locked, and on again when the stop test reads it. -/
def raceReads : List LoopReads :=
  [idleReads, idleReads, { idleReads with IsLocked := true, fGeneratePrcycoins := false },
    idleReads, idleReads]

/-- **Every staking build passed the gate and the stop test.**  In every run
from the loop's head, the step before a PoS build is a stop test that read
`fGeneratePrcycoins` true and found no hashed tip to wait for, and the step
before that a gate test that either passed, or read `fGeneratePrcycoins`
false and broke out of the wait (line 739) without passing. -/
theorem minerTrace_stake_build_gated {rs : List LoopReads} {t : MinerThread} (h : t.pc = .top)
    {i : Nat} {x : MinerThread × LoopReads} (hx : (minerTrace P rs t)[i]? = some x)
    (hb : x.1.pc = .build) (hp : x.1.fProofOfStake = true) :
    ∃ j g s, i = j + 2 ∧ (minerTrace P rs t)[j]? = some g ∧ (minerTrace P rs t)[j + 1]? = some s ∧
      g.1.pc = .gate ∧
      ((g.2.noPeers = false ∧ g.2.IsLocked = false ∧ g.1.fMintableCoins = true ∧
          g.2.nReserveBalance < g.2.GetBalance ∧ g.2.IsSynced = true) ∨
        g.2.fGeneratePrcycoins = false) ∧
      s.1.pc = .stop ∧ s.2.fGeneratePrcycoins = true ∧ s.2.hashWait s.1.fLastLoopOrphan = false := by
  cases i with
  | zero => rw [minerTrace_getElem_zero hx, h] at hb; cases hb
  | succ k =>
    obtain ⟨s, hs, hsx⟩ := minerTrace_getElem_succ hx
    rw [hsx] at hb hp
    obtain ⟨hpp, ⟨hspc, hg, hw⟩ | ⟨-, hf⟩⟩ := minerStep_eq_build hb
    · cases k with
      | zero => rw [minerTrace_getElem_zero hs, h] at hspc; cases hspc
      | succ j =>
        obtain ⟨g, hg', hgs⟩ := minerTrace_getElem_succ hs
        obtain ⟨hgpc, hgate⟩ := minerStep_eq_stop (hgs ▸ hspc)
        exact ⟨j, g, s, rfl, hg', hs, hgpc,
          hgate.imp_left LoopReads.stakeBlocked_eq_false.1, hspc, hg, hw⟩
    · rw [hpp, hf] at hp; cases hp

/-- The race: the gate sees a locked wallet and the flag off, the stop test
sees the flag on, and the thread builds. -/
theorem raceTrace_build_gated :
    ((minerTrace demoParams raceReads stakeThread)[2]?.map fun g => g.2.IsLocked) = some true ∧
    ∃ j g s, 4 = j + 2 ∧ (minerTrace demoParams raceReads stakeThread)[j]? = some g ∧
      (minerTrace demoParams raceReads stakeThread)[j + 1]? = some s ∧ g.1.pc = .gate ∧
      ((g.2.noPeers = false ∧ g.2.IsLocked = false ∧ g.1.fMintableCoins = true ∧
          g.2.nReserveBalance < g.2.GetBalance ∧ g.2.IsSynced = true) ∨
        g.2.fGeneratePrcycoins = false) ∧
      s.1.pc = .stop ∧ s.2.fGeneratePrcycoins = true ∧ s.2.hashWait s.1.fLastLoopOrphan = false :=
  ⟨rfl, minerTrace_stake_build_gated rfl rfl rfl rfl⟩

/-! ## A staking thread stops -/

/-- **Line 768 needs the tip to jump.**  In every run from the loop's head,
the PoW thread returns at line 768 only at a branch whose tip read is past
`LAST_POW_BLOCK + 6` while the loop test one step before read a tip below
`LAST_POW_BLOCK` (else line 720 had made the thread a staker): the tip rose
by at least eight blocks between the two reads.  On one tip the return is
dead code, and a PoW thread past `LAST_POW_BLOCK` stakes instead. -/
theorem minerTrace_powExit_tip_jump {rs : List LoopReads} {t : MinerThread} (h : t.pc = .top)
    {i : Nat} {x : MinerThread × LoopReads} (hx : (minerTrace P rs t)[i]? = some x)
    (hb : x.1.pc = .branch) (he : (minerStep P x.2 x.1).pc = .powExit) :
    ∃ j y, i = j + 1 ∧ (minerTrace P rs t)[j]? = some y ∧ y.1.pc = .top ∧
      y.2.tip.nHeight < P.LAST_POW_BLOCK ∧ P.LAST_POW_BLOCK + 7 ≤ x.2.tip.nHeight := by
  obtain ⟨hf, hjump⟩ := minerStep_branch_powExit hb he
  cases i with
  | zero => rw [minerTrace_getElem_zero hx, h] at hb; cases hb
  | succ j =>
    obtain ⟨y, hy, hxy⟩ := minerTrace_getElem_succ hx
    obtain ⟨hypc, hyp⟩ := minerStep_eq_branch (hxy ▸ hb)
    rw [← hxy, hf] at hyp
    refine ⟨j, y, rfl, hy, hypc, ?_, hjump⟩
    simpa using (Bool.or_eq_false_iff.1 hyp.symm).2

/-- A PoW thread at the loop's head. -/
def powThread : MinerThread := ⟨.top, false, 0, false, demoState, false, 0⟩

/-- A tip past `LAST_POW_BLOCK + 6` of `demoParams`. -/
def jumpTip : CBlockIndex := ⟨210, 43, 0⟩

/-- The tip jumps from `powTip` to `jumpTip` between lines 720 and 764. -/
theorem jumpTrace_powExit :
    ∃ j y, 1 = j + 1 ∧
      (minerTrace demoParams [{ idleReads with tip := powTip }, { idleReads with tip := jumpTip }]
        powThread)[j]? = some y ∧ y.1.pc = .top ∧
      y.2.tip.nHeight < demoParams.LAST_POW_BLOCK ∧ demoParams.LAST_POW_BLOCK + 7 ≤ jumpTip.nHeight :=
  minerTrace_powExit_tip_jump (x := ({ powThread with pc := .branch }, { idleReads with tip := jumpTip }))
    rfl rfl rfl rfl

/-! ## `fLastLoopOrphan` is never reset -/

/-- `fLastLoopOrphan` is set, in the thread and in the search under way. -/
def MinerThread.OrphanSet (t : MinerThread) : Prop :=
  t.fLastLoopOrphan = true ∧ ∀ w, t.pc = .search w → w.s.fLastLoopOrphan = true

theorem minerStep_orphanSet {r : LoopReads} {t : MinerThread} (h : t.OrphanSet) :
    (minerStep P r t).OrphanSet := by
  obtain ⟨ho, hw⟩ := h
  cases hpc : t.pc with
  | build =>
    simp only [minerStep, hpc, MinerThread.build]
    split
    · exact ⟨ho, by simp⟩
    · split
      · exact ⟨ho, by simp⟩
      · next hp =>
        have hs := (minerPass_search hp).2 ho
        exact ⟨by simpa using hs, fun _ hw' => MinerThread.leaveSearch_eq_search hw' ▸ hs⟩
  | search w =>
    have hs := @searchStep_fLastLoopOrphan w.node P w.pindexPrev w.env w.s (hw w hpc)
    simp only [minerStep, hpc]
    exact ⟨by simpa using hs, fun _ hw' => MinerThread.leaveSearch_eq_search hw' ▸ hs⟩
  | top | branch | gate | stop =>
    simp only [minerStep, hpc]
    split_ifs <;> simp_all [MinerThread.OrphanSet]
  | exited | powExit | interrupted => rw [minerStep_of_final (by simp [hpc])]; exact ⟨ho, hw⟩

/-- **`fLastLoopOrphan` is never reset.**  Line 832 sets it when a PoW
solution's second submission fails, and nothing clears it: in every run from
a loop head where it is set, it stays set, and every stop test that reads
`fGeneratePrcycoins` true goes straight to a build, never waiting for a
hashed tip (line 751). -/
theorem minerTrace_orphan_never_waits {rs : List LoopReads} {t : MinerThread} (h : t.pc = .top)
    (ho : t.fLastLoopOrphan = true) :
    ∀ x ∈ minerTrace P rs t, x.1.fLastLoopOrphan = true ∧
      (x.1.pc = .stop → x.2.fGeneratePrcycoins = true → (minerStep P x.2 x.1).pc = .build) := by
  intro x hx
  obtain ⟨⟨hxo, -⟩, -⟩ := minerTrace_induct (R := fun _ => True)
    (fun r t _ h => minerStep_orphanSet (P := P) (r := r) h) (fun _ _ => trivial)
    ⟨ho, fun w hw => by rw [h] at hw; cases hw⟩ x hx
  refine ⟨hxo, fun hpc hg => ?_⟩
  rcases minerStep_cases (P := P) (r := x.2) (t := x.1) with h' | h' | h' | h' | h' | h' <;>
    simp_all

/-- Reads on a tip hashed a moment ago, which a thread without the flag waits for. -/
def hashedReads : LoopReads :=
  { idleReads with mapHashedBlocks := fun _ => some 1000, nHashInterval := 60 }

/-- The stop test of a staking thread that orphaned a PoW block. -/
def orphanStop : MinerThread := ⟨.stop, true, 0, true, demoState, true, 1000⟩

/-- At the stop test, on a tip hashed a moment ago, the thread builds. -/
theorem orphanThread_never_waits :
    orphanStop.fLastLoopOrphan = true ∧
      (orphanStop.pc = .stop → hashedReads.fGeneratePrcycoins = true →
        (minerStep demoParams hashedReads orphanStop).pc = .build) :=
  @minerTrace_orphan_never_waits demoParams (List.replicate 5 hashedReads)
    { stakeThread with fLastLoopOrphan := true } rfl rfl (orphanStop, hashedReads)
    (List.getElem?_mem (n := 3) rfl)

/-! ## After 2038 the mintable cache never holds -/

theorem toInt32_of_lt {x : Int} (h₁ : 2 ^ 31 ≤ x) (h₂ : x < 2 ^ 32) : toInt32 x = x - 2 ^ 32 := by
  unfold toInt32; omega

/-- **`nMintableLastCheck` is an `int`.**  From 2038 (a `GetTime()` of
`2^31`) to 2106 (`2^32`), line 725 stores a negative `(int)GetTime()`, so
`GetTime() - nMintableLastCheck` always exceeds five minutes: in every run
whose clock reads fall in those years, from a check time of at most 0 (its
value at startup), every staking iteration asks `MintableCoins()` again
(line 723), and so does every wait at the gate while no coins were mintable
(line 734), unless an interruption ends the thread at the sleep of line 732
before it. -/
theorem minerTrace_mintable_rechecked {rs : List LoopReads} {t : MinerThread}
    (h0 : t.nMintableLastCheck ≤ 0) (hnow : ∀ r ∈ rs, 2 ^ 31 ≤ r.now ∧ r.now < 2 ^ 32) :
    ∀ x ∈ minerTrace P rs t,
      (x.1.pc = .branch → x.1.fProofOfStake = true →
        (minerStep P x.2 x.1).fMintableCoins = x.2.MintableCoins) ∧
      (x.1.pc = .gate → x.2.stakeBlocked x.1.fMintableCoins = true → x.1.fMintableCoins = false →
        (minerStep P x.2 x.1).pc = .interrupted ∨
          (minerStep P x.2 x.1).fMintableCoins = x.2.MintableCoins) := by
  intro x hx
  obtain ⟨hI, hR⟩ := minerTrace_induct (I := fun t => t.nMintableLastCheck ≤ 0)
    (fun r t hr ht => by
      rcases minerStep_nMintableLastCheck (P := P) (r := r) (t := t) with h | h <;>
        rw [h] <;> [exact ht; (rw [toInt32_of_lt hr.1 hr.2]; omega)]) hnow h0 x hx
  have hlt : ∀ a : Int, a ≤ 300 → a < x.2.now - x.1.nMintableLastCheck := fun a ha => by omega
  refine ⟨fun hpc hp => ?_, fun hpc hb hf => ?_⟩
  · simp only [minerStep, hpc, hp, if_true]
    rw [MinerThread.checkMintable_of_lt (hlt _ (by omega))]
  · rw [hf] at hb
    simp only [minerStep, hpc, hb, hf, if_true, Bool.false_eq_true, if_false,
      MinerThread.checkMintable, hlt 60 (by omega)]
    split
    · exact .inl rfl
    · exact .inr (by split <;> rfl)

/-- A clock in 2038, and no mintable coins. -/
def reads2038 : LoopReads := { idleReads with now := 2 ^ 31 + 1000, MintableCoins := false }

/-- A staking thread at the gate, having stored `(int)GetTime()` of 2038. -/
def gate2038 : MinerThread := ⟨.gate, true, 0, false, demoState, false, 2 ^ 31 + 1000 - 2 ^ 32⟩

/-- At the gate with no mintable coins, the thread asks again at once: the
check time it stored in the same second is negative. -/
theorem stakeThread_mintable_2038 :
    (gate2038.pc = .branch → gate2038.fProofOfStake = true →
        (minerStep demoParams reads2038 gate2038).fMintableCoins = reads2038.MintableCoins) ∧
      (gate2038.pc = .gate → reads2038.stakeBlocked gate2038.fMintableCoins = true →
        gate2038.fMintableCoins = false →
        (minerStep demoParams reads2038 gate2038).pc = .interrupted ∨
          (minerStep demoParams reads2038 gate2038).fMintableCoins = reads2038.MintableCoins) :=
  @minerTrace_mintable_rechecked demoParams (List.replicate 4 reads2038) stakeThread (le_refl _)
    (by simp [reads2038, idleReads]) (gate2038, reads2038) (List.getElem?_mem (n := 2) rfl)

/-! ## The stake-search windows never overlap -/

/-- `nLastCoinStakeSearchTime` never moves back along a run. -/
theorem minerTrace_stakeSearchTime_le {rs : List LoopReads} {t : MinerThread} {i j : Nat}
    {x z : MinerThread × LoopReads} (hx : (minerTrace P rs t)[i]? = some x)
    (hz : (minerTrace P rs t)[j]? = some z) (hij : i ≤ j) :
    x.1.st.nLastCoinStakeSearchTime ≤ z.1.st.nLastCoinStakeSearchTime := by
  induction j, hij using Nat.le_induction generalizing z with
  | base => rw [hx, Option.some.injEq] at hz; rw [hz]
  | succ j _ ih =>
    obtain ⟨y, hy, hzy⟩ := minerTrace_getElem_succ hz
    exact (ih hy).trans (hzy ▸ minerStep_stakeSearchTime_le)

/-- **Each stake time is searched once.**  In every run of a thread that is
the only one running `BitcoinMiner` (so that no other thread writes the
static between its steps), a step moves the static `nLastCoinStakeSearchTime`
of line 205 only as a PoS build, forward to the adjusted time it reads as the
`uint32_t` `nTime` holds it (lines 209-212), with
`nLastCoinStakeSearchInterval` the width of the window handed to
`CreateCoinStake`; and the static never goes back, so that window ends before
any window a later step searches begins. -/
theorem minerTrace_stake_windows {rs : List LoopReads} {t : MinerThread} {i : Nat}
    {x y : MinerThread × LoopReads} (hx : (minerTrace P rs t)[i]? = some x)
    (hy : (minerTrace P rs t)[i + 1]? = some y) :
    (y.1.st.nLastCoinStakeSearchTime = x.1.st.nLastCoinStakeSearchTime ∨
      (x.1.pc = .build ∧ x.1.fProofOfStake = true ∧
        x.1.st.nLastCoinStakeSearchTime ≤ x.2.node.GetAdjustedTime % 2 ^ 32 ∧
        y.1.st.nLastCoinStakeSearchTime = x.2.node.GetAdjustedTime % 2 ^ 32 ∧
        y.1.st.nLastCoinStakeSearchInterval =
          x.2.node.GetAdjustedTime % 2 ^ 32 - x.1.st.nLastCoinStakeSearchTime)) ∧
    ∀ j z, i + 1 ≤ j → (minerTrace P rs t)[j]? = some z →
      y.1.st.nLastCoinStakeSearchTime ≤ z.1.st.nLastCoinStakeSearchTime := by
  obtain ⟨x', hx', hyx⟩ := minerTrace_getElem_succ hy
  rw [hx, Option.some.injEq] at hx'
  subst hx'
  exact ⟨hyx ▸ minerStep_stakeSearchTime, fun j z hj hz => minerTrace_stakeSearchTime_le hy hz hj⟩

/-- A staking build from `demoState` at the adjusted time of `stakeNode`. -/
theorem stakeBuild_windows :
    ((minerStep demoParams idleReads { stakeThread with pc := .build }).st.nLastCoinStakeSearchTime =
        demoState.nLastCoinStakeSearchTime ∨
      (LoopPc.build = .build ∧ true = true ∧
        demoState.nLastCoinStakeSearchTime ≤ stakeNode.GetAdjustedTime % 2 ^ 32 ∧
        (minerStep demoParams idleReads { stakeThread with pc := .build }).st.nLastCoinStakeSearchTime =
          stakeNode.GetAdjustedTime % 2 ^ 32 ∧
        (minerStep demoParams idleReads
            { stakeThread with pc := .build }).st.nLastCoinStakeSearchInterval =
          stakeNode.GetAdjustedTime % 2 ^ 32 - demoState.nLastCoinStakeSearchTime)) ∧
    ∀ j z, 1 ≤ j →
      (minerTrace demoParams [idleReads, idleReads] { stakeThread with pc := .build })[j]? = some z →
      (minerStep demoParams idleReads { stakeThread with pc := .build }).st.nLastCoinStakeSearchTime ≤
        z.1.st.nLastCoinStakeSearchTime :=
  minerTrace_stake_windows
    (x := ({ stakeThread with pc := .build }, idleReads))
    (y := (minerStep demoParams idleReads { stakeThread with pc := .build }, idleReads)) rfl rfl

end Runs

end Prcy
