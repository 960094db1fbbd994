import PrcyMiner.Template

/-!
# The miner threads: `GeneratePrcycoins` and `ThreadBitcoinMiner` (lines 703-975)

`GeneratePrcycoins` interrupts the previous `minerThreads` group and deletes it
without a join (lines 963-967), then starts `nThreads` new workers.  A worker
stops only at an interruption point (the sleeps of lines 732 and 756, lines
208, 876 and 899) or when it reads `fGeneratePrcycoins` false (lines 719,
744); its PoW path from the loop test to a submitted block passes none.  A
worker is a program counter over those points; `poolStep` is one move of the
system (a worker step, a call, a tip move) and a run is any list of moves.
The log records each call's return and each template built and
`ProcessBlockFound` call, with the worker's group.

* `poolRun_uninterrupted_le`: the workers with no pending interruption never
  exceed the `nThreads` of the last call (none after `GeneratePrcycoins(false)`).
* `poolRun_build_after_interrupt_le`: once interrupted, a worker builds at most
  one more template.
* `poolRun_stop_bounds`: the two together, what the call guarantees.
* `GeneratePrcycoins_stop_race`: after `GeneratePrcycoins(false)` has returned,
  a worker of the stopped group is still running and submits a block.
-/

namespace Prcy

/-- Where a worker is, at the granularity of its interruption points and
its reads of `fGeneratePrcycoins`. -/
inductive WorkerPc where
  /-- line 899: the thread's first interruption point, then line 901 -/
  | start
  /-- line 714: `BitcoinMiner` sets `fGeneratePrcycoins = true` -/
  | enter
  /-- lines 719-787: the loop test, then a template is built -/
  | loop
  /-- lines 821-849: the PoW nonce loop -/
  | search
  /-- lines 806 and 831: `ProcessBlockFound` -/
  | submit
  /-- line 876: the PoW search's interruption point, then the rebuild tests -/
  | checkpoint
  /-- the thread has returned -/
  | exited
  deriving DecidableEq, Repr

/-- A worker: the group (the `minerThreads`) that created it, where it is,
whether `interrupt_all` has reached it, and its `fProofOfStake`. -/
structure Worker where
  group : Nat
  pc : WorkerPc
  interrupted : Bool
  fProofOfStake : Bool
  deriving DecidableEq, Repr

inductive PoolEvent where
  /-- a `GeneratePrcycoins(fGenerate, pwallet, nThreads)` call returned -/
  | generate (fGenerate : Bool) (nThreads : Nat)
  /-- worker `worker` of group `group` built a template -/
  | build (worker group : Nat)
  /-- worker `worker` of group `group` called `ProcessBlockFound` -/
  | submit (worker group : Nat)
  deriving DecidableEq, Repr

/-- The shared state: `fGeneratePrcycoins`, the tip height, the group the
static `minerThreads` holds, the next group's number, the workers started so
far (by number), and the log. -/
structure PoolState where
  fGeneratePrcycoins : Bool
  tipHeight : Nat
  minerThreads : Option Nat
  nextGroup : Nat
  workers : List Worker
  log : List PoolEvent
  deriving DecidableEq, Repr

/-- What `GeneratePrcycoins` reads for `nThreads < 0`. -/
structure PoolEnv where
  DefaultMinerThreads : Nat
  hardware_concurrency : Nat
  deriving DecidableEq, Repr

/-- The `nThreads` lines 956-961 settle on. -/
def PoolEnv.threads (E : PoolEnv) (nThreads : Int) : Nat :=
  if nThreads < 0 then
    (if E.DefaultMinerThreads ≠ 0 then E.DefaultMinerThreads else E.hardware_concurrency)
  else nThreads.toNat

/-- `minerThreads->interrupt_all()`: every worker of the group `minerThreads`
holds gets an interruption request; there is none when it holds no group. -/
def PoolState.interruptAll (s : PoolState) : List Worker :=
  s.workers.map fun w => if s.minerThreads = some w.group then { w with interrupted := true } else w

/-- `GeneratePrcycoins(fGenerate, pwallet, nThreads)` (lines 950-975): the old
group is interrupted and dropped, never joined. -/
def GeneratePrcycoins (E : PoolEnv) (s : PoolState) (fGenerate : Bool) (nThreads : Int) :
    PoolState :=
  let n := E.threads nThreads
  let workers := s.interruptAll
  let log := s.log ++ [.generate fGenerate n]
  if n = 0 ∨ fGenerate = false then
    { s with fGeneratePrcycoins := fGenerate, minerThreads := none, workers := workers, log := log }
  else
    { s with
      fGeneratePrcycoins := fGenerate
      minerThreads := some s.nextGroup
      nextGroup := s.nextGroup + 1
      workers := workers ++ List.replicate n ⟨s.nextGroup, .start, false, false⟩
      log := log }

/-- Lines 719-787 for a worker whose `fProofOfStake` line 720 has already set:
the loop test, the PoS stop test (line 744), and the build.  A PoS iteration
past the stop test meets an interruption point unless `GenerateAddress`
fails (line 639): the sleep of line 732 or 756, or line 208 on the way to a
template; `c` is that it builds one, `pt` that it meets the point without
one.  A PoW iteration meets none: the sleep of line 649 needs a tip past
`LAST_POW_BLOCK`, which line 720 has turned to staking. -/
def loopStep (fGen : Bool) (j : Nat) (w : Worker) (c pt : Bool) : Worker × Bool × List PoolEvent :=
  if !(fGen || w.fProofOfStake) then ({ w with pc := .exited }, fGen, [])
  else if w.fProofOfStake then
    if !fGen || ((c || pt) && w.interrupted) then ({ w with pc := .exited }, fGen, [])
    else if c then ({ w with pc := .submit }, fGen, [.build j w.group])
    else (w, fGen, [])
  else if c then ({ w with pc := .search }, fGen, [.build j w.group])
  else (w, fGen, [])

/-- One step of worker `j` at tip height `tip` under the flag `fGen`: the
worker after it, the flag it leaves and what it logs.  `c` is what the world
outside the pool decides there: a template was built (lines 779-781), a
solution was found (line 827), the PoS block was signed (lines 791-802) or
the second `ProcessBlockFound` returned true (line 831), a rebuild test holds
(lines 878-885); `pt` is read by the PoS loop only.  A solution is handed to
`ProcessBlockFound` twice (lines 830-831). -/
def workerStep (P : ChainParams) (tip : Nat) (fGen : Bool) (j : Nat) (w : Worker) (c pt : Bool) :
    Worker × Bool × List PoolEvent :=
  match w.pc with
  | .start =>
    if w.interrupted then ({ w with pc := .exited }, fGen, [])
    else ({ w with pc := .enter, fProofOfStake := decide (P.LAST_POW_BLOCK ≤ tip) }, fGen, [])
  | .enter => ({ w with pc := .loop }, true, [])
  | .loop =>
    loopStep fGen j { w with fProofOfStake := w.fProofOfStake || decide (P.LAST_POW_BLOCK ≤ tip) }
      c pt
  | .search => ({ w with pc := if c then .submit else .checkpoint }, fGen, [])
  | .submit =>
    if w.fProofOfStake then ({ w with pc := .loop }, fGen, if c then [.submit j w.group] else [])
    else
      let pc := if !c then .search else if P.MineBlocksOnDemand then .exited else .checkpoint
      ({ w with pc := pc }, fGen, [.submit j w.group, .submit j w.group])
  | .checkpoint =>
    ({ w with pc := if w.interrupted then .exited else if c then .loop else .search }, fGen, [])
  | .exited => (w, fGen, [])

/-- Worker `j` takes a step. -/
def workerMove (P : ChainParams) (s : PoolState) (j : Nat) (c pt : Bool) : PoolState :=
  match s.workers[j]? with
  | none => s
  | some w =>
    let r := workerStep P s.tipHeight s.fGeneratePrcycoins j w c pt
    { s with workers := s.workers.set j r.1, fGeneratePrcycoins := r.2.1, log := s.log ++ r.2.2 }

/-- A move of the system. -/
inductive PoolMove where
  | generate (fGenerate : Bool) (nThreads : Int)
  | worker (j : Nat) (c pt : Bool)
  | tip (h : Nat)
  deriving DecidableEq, Repr

def poolStep (P : ChainParams) (E : PoolEnv) (s : PoolState) : PoolMove → PoolState
  | .generate f n => GeneratePrcycoins E s f n
  | .worker j c pt => workerMove P s j c pt
  | .tip h => { s with tipHeight := h }

/-- The state after the moves `ms`, in order. -/
def poolRun (P : ChainParams) (E : PoolEnv) (s : PoolState) (ms : List PoolMove) : PoolState :=
  ms.foldl (poolStep P E) s

/-- Before any call: no thread, `fGeneratePrcycoins = false`. -/
def poolInit (tip : Nat) : PoolState := ⟨false, tip, none, 0, [], []⟩

/-! ## What a worker step can do -/

section Steps

variable {P : ChainParams} {tip : Nat} {fGen : Bool} {j : Nat} {w : Worker} {c pt : Bool}

theorem loopStep_frame (fGen : Bool) (j : Nat) (w : Worker) (c pt : Bool) :
    (loopStep fGen j w c pt).1.group = w.group ∧
      (loopStep fGen j w c pt).1.interrupted = w.interrupted ∧
      ∀ e ∈ (loopStep fGen j w c pt).2.2, e = .build j w.group := by
  rcases w with ⟨g, pc, i, f⟩
  cases fGen <;> cases f <;> cases c <;> cases pt <;> cases i <;> simp [loopStep]

/-- A worker step keeps the worker's group and interruption, and logs only
builds and submissions of that worker. -/
theorem workerStep_frame :
    (workerStep P tip fGen j w c pt).1.group = w.group ∧
      (workerStep P tip fGen j w c pt).1.interrupted = w.interrupted ∧
      ∀ e ∈ (workerStep P tip fGen j w c pt).2.2, e = .build j w.group ∨ e = .submit j w.group := by
  unfold workerStep
  split
  case h_3 =>
    obtain ⟨h₁, h₂, h₃⟩ := loopStep_frame fGen j
      { w with fProofOfStake := w.fProofOfStake || decide (P.LAST_POW_BLOCK ≤ tip) } c pt
    exact ⟨h₁, h₂, fun e he => .inl (h₃ e he)⟩
  all_goals (try split_ifs) <;> simp

/-- The templates an interrupted worker can still build: one while it is
before the build of a PoW iteration, none otherwise. -/
def Worker.buildsLeft (w : Worker) : Nat :=
  match w.pc with
  | .enter | .loop => if w.fProofOfStake then 0 else 1
  | _ => 0

theorem Worker.buildsLeft_le_one (w : Worker) : w.buildsLeft ≤ 1 := by
  unfold Worker.buildsLeft; split <;> (try split) <;> omega

def PoolEvent.isBuildOf (j : Nat) : PoolEvent → Bool
  | .build k _ => k == j
  | _ => false

@[simp] theorem PoolEvent.isBuildOf_submit (j k g : Nat) : (PoolEvent.submit k g).isBuildOf j = false :=
  rfl

@[simp] theorem PoolEvent.isBuildOf_generate (j : Nat) (f : Bool) (n : Nat) :
    (PoolEvent.generate f n).isBuildOf j = false := rfl

@[simp] theorem PoolEvent.isBuildOf_build (j k g : Nat) : (PoolEvent.build k g).isBuildOf j = (k == j) :=
  rfl

theorem loopStep_buildsLeft (hpc : w.pc = .loop) (hw : w.interrupted = true) :
    (loopStep fGen j w c pt).2.2.countP (PoolEvent.isBuildOf j) +
      (loopStep fGen j w c pt).1.buildsLeft ≤
      w.buildsLeft := by
  unfold loopStep Worker.buildsLeft
  cases fGen <;> cases hp : w.fProofOfStake <;> cases c <;> cases pt <;> simp [hp, hw, hpc]

/-- An interrupted worker's builds in a step are paid for by `buildsLeft`. -/
theorem workerStep_buildsLeft (hw : w.interrupted = true) :
    (workerStep P tip fGen j w c pt).2.2.countP (PoolEvent.isBuildOf j) +
      (workerStep P tip fGen j w c pt).1.buildsLeft ≤ w.buildsLeft := by
  unfold workerStep
  split
  case h_3 hpc =>
    refine (loopStep_buildsLeft
      (w := { w with fProofOfStake := w.fProofOfStake || decide (P.LAST_POW_BLOCK ≤ tip) }) hpc hw).trans ?_
    cases hp : w.fProofOfStake <;> simp [Worker.buildsLeft, hpc, hp]
    split <;> omega
  all_goals (try split_ifs) <;> simp [Worker.buildsLeft, *]

end Steps

/-! ## The threads a call leaves running -/

/-- The threads the last `GeneratePrcycoins` call asked for: its `nThreads`
when it started a group, none otherwise (and before any call). -/
def threadsRequested (log : List PoolEvent) : Nat :=
  log.foldl (fun n e => match e with
    | .generate f k => if f then k else 0
    | _ => n) 0

theorem threadsRequested_append_generate (log : List PoolEvent) (f : Bool) (k : Nat) :
    threadsRequested (log ++ [.generate f k]) = if f then k else 0 := by
  simp [threadsRequested]

/-- Events other than a call's return leave `threadsRequested` alone. -/
theorem threadsRequested_append_of (log l : List PoolEvent)
    (hl : ∀ e ∈ l, ∀ f k, e ≠ .generate f k) : threadsRequested (log ++ l) = threadsRequested log := by
  induction l using List.reverseRecOn with
  | nil => simp
  | append_singleton l e ih =>
    rw [← List.append_assoc, threadsRequested, List.foldl_append, ← threadsRequested,
      ih fun e' he' => hl e' (List.mem_append_left _ he')]
    cases e with
    | generate f k => exact absurd rfl (hl _ (by simp) f k)
    | build => rfl
    | submit => rfl

/-- The pool's invariant: group numbers are fresh, a worker with no pending
interruption belongs to the group `minerThreads` holds, and that group has
the size the last call asked for. -/
structure PoolInv (s : PoolState) : Prop where
  group_lt : ∀ w ∈ s.workers, w.group < s.nextGroup
  running : ∀ w ∈ s.workers, w.interrupted = false → s.minerThreads = some w.group
  size : s.workers.countP (fun w => s.minerThreads = some w.group) = threadsRequested s.log

theorem countP_set_of_eq {α : Type} {p : α → Bool} {l : List α} {i : Nat} {a b : α}
    (hi : l[i]? = some a) (hp : p b = p a) : (l.set i b).countP p = l.countP p := by
  obtain ⟨hlt, rfl⟩ := List.getElem?_eq_some_iff.1 hi
  have : (if p l[i] then 1 else 0) ≤ l.countP p := by
    split
    · exact List.countP_pos_iff.2 ⟨_, List.getElem_mem hlt, ‹_›⟩
    · omega
  rw [List.countP_set p l i b hlt, hp]
  omega

section Inv

variable {P : ChainParams} {E : PoolEnv} {s : PoolState}

theorem PoolInv.init (tip : Nat) : PoolInv (poolInit tip) :=
  ⟨fun _ h => absurd h (List.not_mem_nil _), fun _ h => absurd h (List.not_mem_nil _), rfl⟩

/-- After `interrupt_all`, every worker has an interruption pending. -/
theorem PoolInv.interruptAll (h : PoolInv s) : ∀ w ∈ s.interruptAll, w.interrupted = true := by
  simp only [PoolState.interruptAll, List.mem_map]
  rintro _ ⟨w, hw, rfl⟩
  split
  · rfl
  · next hne =>
    cases hf : w.interrupted
    · exact absurd (h.running w hw hf) hne
    · rfl

theorem PoolInv.generate (h : PoolInv s) (f : Bool) (n : Int) :
    PoolInv (GeneratePrcycoins E s f n) := by
  have hint := h.interruptAll
  have hlt : ∀ w ∈ s.interruptAll, w.group < s.nextGroup := by
    simp only [PoolState.interruptAll, List.mem_map]
    rintro _ ⟨w, hw, rfl⟩
    split <;> exact h.group_lt w hw
  unfold GeneratePrcycoins
  dsimp only
  split_ifs with hn
  · refine ⟨fun w hw => (hlt w hw), fun w hw hf => absurd (hint w hw) (by simp [hf]), ?_⟩
    rw [threadsRequested_append_generate]
    rcases hn with hn | hn <;> simp [hn]
  · obtain ⟨hn, hf⟩ := not_or.1 hn
    obtain rfl : f = true := by simpa using hf
    refine ⟨fun w hw => ?_, fun w hw hf => ?_, ?_⟩
    · rcases List.mem_append.1 hw with hw | hw
      · exact Nat.lt_succ_of_lt (hlt w hw)
      · rw [List.eq_of_mem_replicate hw]; exact Nat.lt_succ_self _
    · rcases List.mem_append.1 hw with hw | hw
      · exact absurd (hint w hw) (by simp [hf])
      · rw [List.eq_of_mem_replicate hw]
    · rw [threadsRequested_append_generate, List.countP_append, List.countP_replicate,
        List.countP_eq_zero.2 fun w hw => by simpa using (hlt w hw).ne']
      simp

theorem PoolInv.worker (h : PoolInv s) (j : Nat) (c pt : Bool) :
    PoolInv (workerMove P s j c pt) := by
  unfold workerMove
  split
  · exact h
  · next w hj =>
    obtain ⟨hg, hi, hev⟩ := @workerStep_frame P s.tipHeight s.fGeneratePrcycoins j w c pt
    have hw := List.getElem?_mem hj
    refine ⟨fun w' hw' => ?_, fun w' hw' hf => ?_, ?_⟩
    · rcases List.mem_or_eq_of_mem_set hw' with hw' | rfl
      · exact h.group_lt w' hw'
      · exact hg ▸ h.group_lt w hw
    · rcases List.mem_or_eq_of_mem_set hw' with hw' | rfl
      · exact h.running w' hw' hf
      · exact hg ▸ h.running w hw (hi ▸ hf)
    · simp only
      rw [countP_set_of_eq hj (by rw [hg]), threadsRequested_append_of _ _ fun e he f k => by
        rcases hev e he with rfl | rfl <;> exact nofun]
      exact h.size

theorem PoolInv.poolRun (h : PoolInv s) (ms : List PoolMove) : PoolInv (poolRun P E s ms) := by
  induction ms generalizing s with
  | nil => exact h
  | cons m ms ih =>
    apply ih
    cases m with
    | generate f n => exact h.generate f n
    | worker j c pt => exact h.worker j c pt
    | tip t => exact ⟨h.group_lt, h.running, h.size⟩

/-- **The running threads are bounded by the last call.**  Along every
interleaving from the start, the workers with no interruption pending are at
most the `nThreads` of the last `GeneratePrcycoins` call, and none after a
call with `fGenerate = false` or `nThreads = 0`. -/
theorem poolRun_uninterrupted_le (tip : Nat) (ms : List PoolMove) :
    (poolRun P E (poolInit tip) ms).workers.countP (fun w => !w.interrupted) ≤
      threadsRequested (poolRun P E (poolInit tip) ms).log := by
  have h := (PoolInv.init tip).poolRun (P := P) (E := E) ms
  rw [← h.size]
  exact List.countP_mono_left fun w hw hf => by simpa using h.running w hw (by simpa using hf)

end Inv

/-! ## An interrupted worker -/

/-- The templates worker `j` has built, as the log records them. -/
def buildsOf (j : Nat) (log : List PoolEvent) : Nat :=
  log.countP (PoolEvent.isBuildOf j)

section Interrupted

variable {P : ChainParams} {E : PoolEnv} {s : PoolState} {j : Nat} {w : Worker}

theorem GeneratePrcycoins_log (f : Bool) (n : Int) :
    (GeneratePrcycoins E s f n).log = s.log ++ [.generate f (E.threads n)] := by
  unfold GeneratePrcycoins
  dsimp only
  split_ifs <;> rfl

theorem GeneratePrcycoins_workers (f : Bool) (n : Int) :
    (GeneratePrcycoins E s f n).workers = s.interruptAll ++
      if E.threads n = 0 ∨ f = false then []
      else List.replicate (E.threads n) ⟨s.nextGroup, .start, false, false⟩ := by
  unfold GeneratePrcycoins
  dsimp only
  split_ifs <;> simp

/-- A call keeps every worker's place and program; it only adds interruptions. -/
theorem GeneratePrcycoins_getElem? (f : Bool) (n : Int) (hj : s.workers[j]? = some w) :
    (GeneratePrcycoins E s f n).workers[j]? =
      some (if s.minerThreads = some w.group then { w with interrupted := true } else w) := by
  have hlt : j < s.interruptAll.length := by
    simpa [PoolState.interruptAll] using (List.getElem?_eq_some_iff.1 hj).1
  have : s.interruptAll[j]? =
      some (if s.minerThreads = some w.group then { w with interrupted := true } else w) := by
    simp [PoolState.interruptAll, hj]
  rw [GeneratePrcycoins_workers, List.getElem?_append_left hlt, this]

/-- One move keeps worker `j`'s interruption and pays for its builds out of
`buildsLeft`. -/
theorem poolStep_interrupted (m : PoolMove) (hj : s.workers[j]? = some w)
    (hw : w.interrupted = true) :
    ∃ w', (poolStep P E s m).workers[j]? = some w' ∧ w'.interrupted = true ∧
      buildsOf j (poolStep P E s m).log + w'.buildsLeft ≤ buildsOf j s.log + w.buildsLeft := by
  cases m with
  | generate f n =>
    refine ⟨_, GeneratePrcycoins_getElem? f n hj, by split <;> simp [hw], ?_⟩
    have : (if s.minerThreads = some w.group then { w with interrupted := true } else w).buildsLeft =
        w.buildsLeft := by split <;> rfl
    simp [poolStep, GeneratePrcycoins_log, buildsOf, this]
  | worker k c pt =>
    simp only [poolStep, workerMove]
    split
    · exact ⟨w, hj, hw, le_rfl⟩
    · next wk hk =>
      obtain ⟨-, hi, hev⟩ := @workerStep_frame P s.tipHeight s.fGeneratePrcycoins k wk c pt
      by_cases hkj : k = j
      · subst hkj
        obtain rfl : wk = w := Option.some.inj (hk.symm.trans hj)
        refine ⟨_, List.getElem?_set_self (List.getElem?_eq_some_iff.1 hj).1, hi.trans hw, ?_⟩
        have := @workerStep_buildsLeft P s.tipHeight s.fGeneratePrcycoins k _ c pt hw
        simp only [buildsOf, List.countP_append] at this ⊢
        omega
      · refine ⟨w, by rw [List.getElem?_set_ne hkj]; exact hj, hw, ?_⟩
        have : (workerStep P s.tipHeight s.fGeneratePrcycoins k wk c pt).2.2.countP
            (PoolEvent.isBuildOf j) = 0 :=
          List.countP_eq_zero.2 fun e he => by rcases hev e he with rfl | rfl <;> simp [hkj]
        simp only [buildsOf, List.countP_append, this, Nat.add_zero, le_refl]
  | tip t => exact ⟨w, hj, hw, le_rfl⟩

theorem poolRun_interrupted (ms : List PoolMove) (hj : s.workers[j]? = some w)
    (hw : w.interrupted = true) :
    ∃ w', (poolRun P E s ms).workers[j]? = some w' ∧ w'.interrupted = true ∧
      buildsOf j (poolRun P E s ms).log + w'.buildsLeft ≤ buildsOf j s.log + w.buildsLeft := by
  induction ms generalizing s w with
  | nil => exact ⟨w, hj, hw, le_rfl⟩
  | cons m ms ih =>
    obtain ⟨w₁, hj₁, hw₁, hb₁⟩ := poolStep_interrupted (P := P) (E := E) m hj hw
    obtain ⟨w', hj', hw', hb'⟩ := ih hj₁ hw₁
    exact ⟨w', hj', hw', hb'.trans hb₁⟩

/-- **An interrupted worker builds at most one more template.**  From any
state in which worker `j` has an interruption pending, along every
interleaving of moves, the log gains at most one template built by `j`: a
PoW worker interrupted before its build still builds and searches, and
only then reaches line 876. -/
theorem poolRun_build_after_interrupt_le (ms : List PoolMove) (hj : s.workers[j]? = some w)
    (hw : w.interrupted = true) : buildsOf j (poolRun P E s ms).log ≤ buildsOf j s.log + 1 := by
  obtain ⟨w', -, -, hb⟩ := poolRun_interrupted (P := P) (E := E) ms hj hw
  have := w.buildsLeft_le_one
  omega

end Interrupted

/-- **What `GeneratePrcycoins` guarantees without a join.**  Along every
interleaving from the start, the workers with no interruption pending are at
most the `nThreads` of the last call, none after a call with
`fGenerate = false` or `nThreads = 0`; and from any state, along every
interleaving, a worker with an interruption pending builds at most one more
template. -/
theorem poolRun_stop_bounds :
    (∀ (P : ChainParams) (E : PoolEnv) (tip : Nat) (ms : List PoolMove),
      (poolRun P E (poolInit tip) ms).workers.countP (fun w => !w.interrupted) ≤
        threadsRequested (poolRun P E (poolInit tip) ms).log) ∧
    (∀ (P : ChainParams) (E : PoolEnv) (s : PoolState) (j : Nat) (w : Worker) (ms : List PoolMove),
      s.workers[j]? = some w → w.interrupted = true →
        buildsOf j (poolRun P E s ms).log ≤ buildsOf j s.log + 1) :=
  ⟨fun _ _ tip ms => poolRun_uninterrupted_le tip ms,
    fun _ _ _ _ _ ms hj hw => poolRun_build_after_interrupt_le ms hj hw⟩

/-! ## `GeneratePrcycoins(false)` does not wait -/

/-- One worker, started below `LAST_POW_BLOCK`, builds a PoW template; then
`GeneratePrcycoins(false, .., 0)` returns; then the worker finds a solution
and submits it, and reaches its checkpoint. -/
def stopRace : List PoolMove :=
  [.generate true 1, .worker 0 true false, .worker 0 true false, .worker 0 true false,
    .generate false 0, .worker 0 true false, .worker 0 true false]

/-- **A stopped worker still submits.**  After `GeneratePrcycoins(false)`
has returned, the worker of the group it stopped is still running (it is at
line 876) and has handed its block to `ProcessBlockFound`, twice: the call
interrupted the group and dropped it without a join. -/
theorem GeneratePrcycoins_stop_race :
    (poolRun demoParams ⟨1, 1⟩ (poolInit 0) stopRace).log =
        [.generate true 1, .build 0 0, .generate false 0, .submit 0 0, .submit 0 0] ∧
      (poolRun demoParams ⟨1, 1⟩ (poolInit 0) stopRace).workers.map (·.pc) = [.checkpoint] ∧
      threadsRequested (poolRun demoParams ⟨1, 1⟩ (poolInit 0) stopRace).log = 0 :=
  ⟨rfl, rfl, rfl⟩

/-- The stopped worker of `stopRace`, interrupted before its search, and the
moves after the call. -/
theorem stopRace_bounds :
    (poolRun demoParams ⟨1, 1⟩ (poolInit 0) stopRace).workers.countP (fun w => !w.interrupted) ≤
        threadsRequested (poolRun demoParams ⟨1, 1⟩ (poolInit 0) stopRace).log ∧
      buildsOf 0 (poolRun demoParams ⟨1, 1⟩ (poolRun demoParams ⟨1, 1⟩ (poolInit 0) (stopRace.take 5))
          (stopRace.drop 5)).log ≤
        buildsOf 0 (poolRun demoParams ⟨1, 1⟩ (poolInit 0) (stopRace.take 5)).log + 1 :=
  ⟨poolRun_stop_bounds.1 demoParams ⟨1, 1⟩ 0 stopRace,
    poolRun_stop_bounds.2 demoParams ⟨1, 1⟩ _ 0 _ (stopRace.drop 5) rfl rfl⟩

end Prcy
