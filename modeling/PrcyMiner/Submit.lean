import PrcyMiner.Miner

/-!
# `ProcessBlockFound` under interleaving (lines 668-701)

Several miner threads may be inside `ProcessBlockFound` at once, and the best
block moves under them.  The staleness test holds `g_best_block_mutex` for
lines 674-677 only; `ProcessNewBlock` runs later, at line 693.  A call is a
program counter over the source's lines; `pbfStep` is the code at each, and
`SubmitStep` interleaves the calls with best-block updates.  Each event of
interest is logged with the best block at that moment.

* `SubmitReach.checked_before`: every signal, `ProcessNewBlock` and broadcast
  of a call comes after a passing staleness test in that call.
* `ProcessBlockFound_race`: two threads with blocks on one tip both pass the
  test; the second submits and broadcasts its block after the first one's
  made it stale.
-/

namespace Prcy

/-- `ProcessBlockFound`'s program points. -/
inductive PbfPc where
  /-- lines 673-677: `g_best_block_mutex` held, the staleness test -/
  | check
  /-- line 680: `reservekey.KeepKey()` -/
  | keepKey
  /-- lines 683-686: `mapRequestCount[hash] = 0` -/
  | track
  /-- line 689: `GetMainSignals().BlockFound` -/
  | signal
  /-- line 693: `ProcessNewBlock` -/
  | process
  /-- lines 696-698: the inventory pushed to every peer -/
  | broadcast
  /-- returned `ok` -/
  | done (ok : Bool)
  deriving DecidableEq, Repr

/-- What the log records. -/
inductive SubmitKind where
  | checked | signal | process | broadcast
  deriving DecidableEq, Repr

/-- An event of call `call`, with `g_best_block` at that moment. -/
structure SubmitEvent where
  call : Nat
  kind : SubmitKind
  best : Nat
  deriving DecidableEq, Repr

/-- The calls in progress (the block each submits and where it is),
`g_best_block`, the `ProcessNewBlock` calls so far, and the log. -/
structure SubmitState where
  calls : List (CBlock × PbfPc)
  best : Nat
  nPnb : Nat
  log : List SubmitEvent
  deriving DecidableEq, Repr

/-- The next step of call `i`: the code at its program point.  `ProcessNewBlock`
gives the verdict `pnb k` to its `k`-th call; an accepted block on the best
block becomes the best block. -/
def pbfStep (N : Node) (pnb : Nat → Bool) (s : SubmitState) (i : Nat) : SubmitState :=
  match s.calls[i]? with
  | none => s
  | some (b, pc) =>
    let go := fun pc' => s.calls.set i (b, pc')
    match pc with
    | .check =>
      if b.header.hashPrevBlock ≠ s.best then { s with calls := go (.done false) }
      else { s with calls := go .keepKey, log := s.log ++ [⟨i, .checked, s.best⟩] }
    | .keepKey => { s with calls := go .track }
    | .track => { s with calls := go .signal }
    | .signal => { s with calls := go .process, log := s.log ++ [⟨i, .signal, s.best⟩] }
    | .process =>
      { s with
        calls := go (if pnb s.nPnb then .broadcast else .done false)
        best := if pnb s.nPnb ∧ b.header.hashPrevBlock = s.best then N.GetHash b.header else s.best
        nPnb := s.nPnb + 1
        log := s.log ++ [⟨i, .process, s.best⟩] }
    | .broadcast => { s with calls := go (.done true), log := s.log ++ [⟨i, .broadcast, s.best⟩] }
    | .done _ => s

/-- One step of the system: a call moves, or a block from elsewhere becomes the
best block. -/
inductive SubmitStep (N : Node) (pnb : Nat → Bool) : SubmitState → SubmitState → Prop
  | call (s : SubmitState) (i : Nat) : SubmitStep N pnb s (pbfStep N pnb s i)
  | tip (s : SubmitState) (h : Nat) : SubmitStep N pnb s { s with best := h }

/-- The states reachable from `s₀`. -/
inductive SubmitReach (N : Node) (pnb : Nat → Bool) (s₀ : SubmitState) : SubmitState → Prop
  | init : SubmitReach N pnb s₀ s₀
  | step {s s' : SubmitState} : SubmitReach N pnb s₀ s → SubmitStep N pnb s s' →
      SubmitReach N pnb s₀ s'

/-- Calls started at the staleness test, with nothing logged. -/
def SubmitState.Fresh (s : SubmitState) : Prop :=
  (∀ c ∈ s.calls, c.2 = .check) ∧ s.log = []

/-! ## Every submission follows a passing test -/

/-- Call `i`, submitting `b`, passed the staleness test as logged in `log`. -/
def PassedCheck (log : List SubmitEvent) (i : Nat) (b : CBlock) : Prop :=
  ∃ e ∈ log, e.call = i ∧ e.kind = .checked ∧ b.header.hashPrevBlock = e.best

theorem PassedCheck.mono {log : List SubmitEvent} {i : Nat} {b : CBlock} (h : PassedCheck log i b)
    (l : List SubmitEvent) : PassedCheck (log ++ l) i b :=
  let ⟨e, he, h'⟩ := h
  ⟨e, List.mem_append_left _ he, h'⟩

/-- The invariant: the calls keep their blocks; a call past its test passed
it; and every event but a test comes after its call's passing test. -/
structure SubmitInv (s₀ s : SubmitState) : Prop where
  blocks : s.calls.map (·.1) = s₀.calls.map (·.1)
  passed : ∀ i b pc, s.calls[i]? = some (b, pc) → pc ≠ .check → pc ≠ .done false →
    PassedCheck s.log i b
  before : ∀ n e, s.log[n]? = some e → e.kind ≠ .checked →
    ∃ b, (s₀.calls[e.call]?).map (·.1) = some b ∧ PassedCheck (s.log.take n) e.call b

section Inv

variable {N : Node} {pnb : Nat → Bool} {s₀ s : SubmitState}

theorem map_fst_set {l : List (CBlock × PbfPc)} {i : Nat} {b : CBlock} {pc pc' : PbfPc}
    (h : l[i]? = some (b, pc)) : (l.set i (b, pc')).map (·.1) = l.map (·.1) := by
  apply List.ext_getElem?
  intro j
  by_cases hj : i = j
  · subst hj
    simp only [List.getElem?_map, List.getElem?_set_self (List.getElem?_eq_some_iff.1 h).1, h,
      Option.map_some']
  · simp [List.getElem?_set_ne hj]

/-- Appending an event `x` of a call that passed its test keeps `before`. -/
theorem before_append {log : List SubmitEvent} {x : SubmitEvent}
    (hb : ∀ n e, log[n]? = some e → e.kind ≠ .checked →
      ∃ b, (s₀.calls[e.call]?).map (·.1) = some b ∧ PassedCheck (log.take n) e.call b)
    (hx : x.kind ≠ .checked → ∃ b, (s₀.calls[x.call]?).map (·.1) = some b ∧ PassedCheck log x.call b) :
    ∀ n e, (log ++ [x])[n]? = some e → e.kind ≠ .checked →
      ∃ b, (s₀.calls[e.call]?).map (·.1) = some b ∧ PassedCheck ((log ++ [x]).take n) e.call b := by
  intro n e hn hk
  rcases Nat.lt_or_ge n log.length with hlt | hge
  · rw [List.getElem?_append_left hlt] at hn
    rw [List.take_append_of_le_length hlt.le]
    exact hb n e hn hk
  · have : n = log.length := by
      have := (List.getElem?_eq_some_iff.1 hn).1; simp at this; omega
    subst this
    rw [List.getElem?_append_right le_rfl, Nat.sub_self] at hn
    obtain rfl := Option.some.inj hn
    rw [List.take_left' rfl]
    exact hx hk

theorem SubmitInv.init (h₀ : s₀.Fresh) : SubmitInv s₀ s₀ := by
  refine ⟨rfl, fun i b pc h hc _ => absurd (h₀.1 _ (List.getElem?_mem h)) hc, ?_⟩
  intro n e hn; simp [h₀.2] at hn

theorem SubmitInv.tip (hinv : SubmitInv s₀ s) (h : Nat) : SubmitInv s₀ { s with best := h } :=
  ⟨hinv.blocks, hinv.passed, hinv.before⟩

/-- The block of call `i`, as it was at the start. -/
theorem SubmitInv.block_of (hinv : SubmitInv s₀ s) {i : Nat} {b : CBlock} {pc : PbfPc}
    (h : s.calls[i]? = some (b, pc)) : (s₀.calls[i]?).map (·.1) = some b := by
  have := congrArg (·[i]?) hinv.blocks
  simp only [List.getElem?_map, h] at this
  exact this.symm

/-- Moving call `i` on to `pc'` and logging at most one event of `i` keeps
the invariant, when the call has passed its test wherever `pc'` needs it. -/
theorem SubmitInv.move (hinv : SubmitInv s₀ s) {i : Nat} {b : CBlock} {pc : PbfPc}
    (hi : s.calls[i]? = some (b, pc)) (pc' : PbfPc) (l : List SubmitEvent) (best nPnb : Nat)
    (hpc : pc' ≠ .check → pc' ≠ .done false → PassedCheck (s.log ++ l) i b)
    (hl : ∀ x ∈ l, x.call = i ∧ (x.kind ≠ .checked → PassedCheck s.log i b)) (hlen : l.length ≤ 1) :
    SubmitInv s₀ ⟨s.calls.set i (b, pc'), best, nPnb, s.log ++ l⟩ := by
  refine ⟨(map_fst_set hi).trans hinv.blocks, fun j b' q hj hq hq' => ?_, ?_⟩
  · by_cases hij : i = j
    · subst hij
      rw [List.getElem?_set_self (List.getElem?_eq_some_iff.1 hi).1] at hj
      obtain ⟨rfl, rfl⟩ := Prod.mk.inj (Option.some.inj hj)
      exact hpc hq hq'
    · rw [List.getElem?_set_ne hij] at hj
      exact (hinv.passed j b' q hj hq hq').mono l
  · match l, hlen with
    | [], _ => simpa using hinv.before
    | [x], _ =>
      refine before_append hinv.before fun hk => ?_
      obtain ⟨hxi, hx⟩ := hl x (List.mem_singleton_self x)
      exact ⟨b, hxi ▸ hinv.block_of hi, hxi ▸ hx hk⟩

theorem SubmitInv.call (hinv : SubmitInv s₀ s) (i : Nat) : SubmitInv s₀ (pbfStep N pnb s i) := by
  unfold pbfStep
  split
  · exact hinv
  · next b pc hi =>
    have hp : pc ≠ .check → pc ≠ .done false → PassedCheck s.log i b := hinv.passed i b pc hi
    split
    · split_ifs with hs
      · simpa using hinv.move hi (.done false) [] s.best s.nPnb (fun _ h => absurd rfl h)
          (by simp) (by simp)
      · exact hinv.move hi .keepKey [⟨i, .checked, s.best⟩] s.best s.nPnb
          (fun _ _ => ⟨_, List.mem_append_right _ (List.mem_singleton_self _), rfl, rfl,
            not_not.1 hs⟩) (by simp) (by simp)
    · simpa using hinv.move hi .track [] s.best s.nPnb (fun _ _ => by simpa using hp nofun nofun)
        (by simp) (by simp)
    · simpa using hinv.move hi .signal [] s.best s.nPnb (fun _ _ => by simpa using hp nofun nofun)
        (by simp) (by simp)
    · exact hinv.move hi .process _ _ _ (fun _ _ => (hp nofun nofun).mono _)
        (by simp [hp nofun nofun]) (by simp)
    · exact hinv.move hi _ _ _ _ (fun _ _ => (hp nofun nofun).mono _) (by simp [hp nofun nofun])
        (by simp)
    · exact hinv.move hi (.done true) _ _ _ (fun _ _ => (hp nofun nofun).mono _)
        (by simp [hp nofun nofun]) (by simp)
    · exact hinv

theorem SubmitReach.inv (h₀ : s₀.Fresh) {s : SubmitState} (hr : SubmitReach N pnb s₀ s) :
    SubmitInv s₀ s := by
  induction hr with
  | init => exact SubmitInv.init h₀
  | step _ hs ih =>
    cases hs with
    | call i => exact ih.call i
    | tip h => exact ih.tip h

/-- **A submission follows a passing test in its call.**  Along every
interleaving, each `BlockFound` signal, `ProcessNewBlock` call and broadcast
of a call is preceded, in the log, by that call's staleness test, which found
its block on the best block of that moment. -/
theorem SubmitReach.checked_before (h₀ : s₀.Fresh) {s : SubmitState}
    (hr : SubmitReach N pnb s₀ s) (n : Nat) (e : SubmitEvent) (he : s.log[n]? = some e)
    (hk : e.kind ≠ .checked) :
    ∃ b, (s₀.calls[e.call]?).map (·.1) = some b ∧ PassedCheck (s.log.take n) e.call b :=
  (hr.inv h₀).before n e he hk

end Inv

/-! ## Two threads on one tip -/

/-- Runs the calls in the order `l`. -/
def runCalls (N : Node) (pnb : Nat → Bool) (s : SubmitState) (l : List Nat) : SubmitState :=
  l.foldl (pbfStep N pnb) s

theorem SubmitReach.runCalls {N : Node} {pnb : Nat → Bool} {s₀ s : SubmitState}
    (h : SubmitReach N pnb s₀ s) (l : List Nat) : SubmitReach N pnb s₀ (runCalls N pnb s l) := by
  induction l generalizing s with
  | nil => exact h
  | cons i l ih => exact ih (.step h (.call s i))

/-- Two blocks on the tip 42, whose hashes under `stakeNode` are 1 and 2. -/
def raceStart : SubmitState :=
  ⟨[(solvedBlock.setNonce 1, .check), (solvedBlock.setNonce 2, .check)], 42, 0, []⟩

/-- Both threads pass the test; the first block is submitted and accepted,
then the second is submitted; both broadcast. -/
def raceEnd : SubmitState :=
  runCalls stakeNode (fun _ => true) raceStart [0, 1, 0, 0, 0, 0, 1, 1, 1, 1, 1, 0]

/-- **A stale block is submitted and broadcast.**  Both threads find their
block on the tip 42 at line 674; the first one's `ProcessNewBlock` makes block
1 the best block; the second thread then signals, submits and broadcasts its
block on 42 while the best block is 1. -/
theorem ProcessBlockFound_race :
    SubmitReach stakeNode (fun _ => true) raceStart raceEnd ∧
      (solvedBlock.setNonce 2).header.hashPrevBlock = 42 ∧
      ⟨1, .signal, 1⟩ ∈ raceEnd.log ∧ ⟨1, .process, 1⟩ ∈ raceEnd.log ∧
      ⟨1, .broadcast, 1⟩ ∈ raceEnd.log :=
  ⟨SubmitReach.init.runCalls _, rfl, by decide, by decide, by decide⟩

/-- In the race, the second thread's `ProcessNewBlock` (log entry 5) follows
its passing test. -/
theorem raceEnd_checked_before :
    ∃ b, (raceStart.calls[1]?).map (·.1) = some b ∧ PassedCheck (raceEnd.log.take 5) 1 b :=
  SubmitReach.checked_before (e := ⟨1, .process, 1⟩) ⟨by decide, rfl⟩ (SubmitReach.init.runCalls _) 5
    (by decide) nofun

end Prcy
