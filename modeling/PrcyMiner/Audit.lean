import PrcyMiner.Template

/-!
# `GetListOfPoSInfo` and `CreateNewPoABlock`: the PoA template (lines 103-158, 509-607)

A PoA block audits the PoS blocks connected since the previous PoA block.
`GetListOfPoSInfo` scans back from the tip for that block (lines 107-113).
With none above `START_POA_BLOCK` it audits the `MAX_NUM_POS_BLOCKS_AUDITED`
blocks after `LAST_POW_BLOCK` (lines 114-124); otherwise the PoS blocks after
the last height the previous PoA block audited, at most
`MAX_NUM_POS_BLOCKS_AUDITED` of them (lines 125-156).

The previous PoA block and every block the forward scan visits are read back
from disk, and a failed read throws (lines 130-131, 138-139).

The backward scan also stops at a PoA block at `START_POA_BLOCK` itself, but
line 114 reads that stop as "no PoA block": such a chain is audited from
`LAST_POW_BLOCK + 1` again, while line 583 still links to that block.

* `findPrevPoA_of_lastPoA`, `findPrevPoA_of_noPoA`: the backward scan finds
  the last PoA block, or stops just below `START_POA_BLOCK`.
* `auditFrom_eq`: the forward scan keeps the first PoS heights, at most
  `MAX_NUM_POS_BLOCKS_AUDITED` in all, unless a block does not read back.
* `GetListOfPoSInfo_of_lastPoA`, `GetListOfPoSInfo_of_noPoA`: the audit list
  in both cases, or the exception `readBlockError`;
  `GetListOfPoSInfo_congr`: only heights above `LAST_POW_BLOCK` and up to the
  tip are read.
* `CreateNewPoABlock_spec`: what a returned PoA template holds.
* `GetListOfPoSInfo_reaudits_at_start`: a last PoA block at `START_POA_BLOCK`
  is linked to but not audited after.
* `GetListOfPoSInfo_correct`: the audit list and the link on every other chain.
-/

namespace Prcy

/-- `chainActive`: the blocks of the active chain by height, from the genesis
block.  Heights are `int`, so there are at most `2^31` of them. -/
structure ActiveChain where
  blocks : List CBlock
  nonempty : blocks ≠ []
  length_le : blocks.length ≤ 2 ^ 31

namespace ActiveChain

/-- `chainActive.Height()`. -/
def height (c : ActiveChain) : Nat := c.blocks.length - 1

/-- The block at height `h`; the null block past the tip. -/
def blockAt (c : ActiveChain) (h : Nat) : CBlock := (c.blocks[h]?).getD CBlock.null

/-- `chainActive.Tip()`: height, hash and median time past. -/
def tip (N : Node) (c : ActiveChain) : CBlockIndex :=
  ⟨c.height, N.GetHash (c.blockAt c.height).header, N.GetMedianTimePast c.blocks⟩

/-- The chain with `b` connected on its tip. -/
def push (c : ActiveChain) (b : CBlock) (h : c.blocks.length < 2 ^ 31) : ActiveChain :=
  ⟨c.blocks ++ [b], by simp, by simp; omega⟩

end ActiveChain

/-- `IsPoABlockByVersion`.
Modelled from the spec: `SetVersionPoABlock` writes `POA_BLOCK_VERSION` and
this tests for it. -/
def CBlock.IsPoABlockByVersion (P : ChainParams) (b : CBlock) : Bool :=
  b.header.nVersion == P.POA_BLOCK_VERSION

/-- The block at height `h` is a PoA block (`false` past the tip). -/
def ActiveChain.isPoAAt (P : ChainParams) (c : ActiveChain) (h : Nat) : Bool :=
  (c.blocks[h]?).any (·.IsPoABlockByVersion P)

/-- The block at height `h` is a PoS block (`false` past the tip). -/
def ActiveChain.isPoSAt (N : Node) (c : ActiveChain) (h : Nat) : Bool :=
  (c.blocks[h]?).any (·.IsProofOfStake N)

/-! ## `GetListOfPoSInfo` -/

/-- Lines 107-113: from `h = currentHeight` down, the first height below
`START_POA_BLOCK` or holding a PoA block.  A read past the tip dereferences
`NULL` and is `none`; so is the `uint32_t` wrap of `nloopIdx` below 0, which
only `START_POA_BLOCK = 0` reaches (`chainActive[2^32 - 1]` is `NULL`). -/
def findPrevPoA (P : ChainParams) (c : ActiveChain) (h : Nat) : Option Nat :=
  if h < P.START_POA_BLOCK then some h
  else (c.blocks[h]?).bind fun b =>
    if b.IsPoABlockByVersion P then some h
    else match h with
      | 0 => none
      | h + 1 => findPrevPoA P c h

/-- Lines 117-122 and 143-148: the summary of the block `b` at height `h`.
`mapBlockIndex[pos.hash]` is the index of `b` itself. -/
def posSummary (N : Node) (h : Nat) (b : CBlock) : PoSBlockSummary :=
  ⟨N.GetHash b.header, if N.ReVerifyPoSBlock b then b.header.nTime else 0, h⟩

/-! ## Calls that throw

`GetListOfPoSInfo` and `CreateNewPoABlock` run in `ExceptT String Option`:
`none` is a `NULL` dereference or `back()` of an empty vector, `.error` the
`std::runtime_error` thrown when a block does not read back from disk. -/

instance decEqExcept {ε α : Type} [DecidableEq ε] [DecidableEq α] : DecidableEq (Except ε α)
  | .error a, .error b => decidable_of_iff (a = b) (by simp)
  | .ok a, .ok b => decidable_of_iff (a = b) (by simp)
  | .error _, .ok _ => isFalse (by simp)
  | .ok _, .error _ => isFalse (by simp)

instance decEqExceptTOption {ε α : Type} [DecidableEq ε] [DecidableEq α] :
    DecidableEq (ExceptT ε Option α) :=
  inferInstanceAs (DecidableEq (Option (Except ε α)))

section Throwing

variable {α β : Type}

theorem bind_eq_pure {x : ExceptT String Option α} {f : α → ExceptT String Option β} {b : β} :
    x >>= f = pure b ↔ ∃ a, x = pure a ∧ f a = pure b := by
  change ExceptT.bind x f = _ ↔ _
  match x with
  | none => exact ⟨nofun, fun ⟨_, h, _⟩ => nomatch h⟩
  | some (.error _) => exact ⟨nofun, fun ⟨_, h, _⟩ => nomatch h⟩
  | some (.ok a) => exact ⟨fun h => ⟨a, rfl, h⟩, fun ⟨_, h, h'⟩ => by cases h; exact h'⟩

@[simp] theorem liftM_some_bind (a : α) (f : α → ExceptT String Option β) :
    (liftM (some a) >>= f : ExceptT String Option β) = f a := rfl

@[simp] theorem throw_bind (e : String) (f : α → ExceptT String Option β) :
    (throw e >>= f : ExceptT String Option β) = throw e := rfl

theorem pure_ne_throw (a : α) (e : String) : (pure a : ExceptT String Option α) ≠ throw e := nofun

theorem pure_inj {a b : α} : (pure a : ExceptT String Option α) = pure b ↔ a = b :=
  ⟨fun h => by simpa using congrArg ExceptT.run h, congrArg _⟩

theorem liftM_eq_pure {o : Option α} {a : α} : (liftM o : ExceptT String Option α) = pure a ↔ o = some a :=
  match o with
  | none => ⟨nofun, nofun⟩
  | some _ => (pure_inj (α := α)).trans Option.some_inj.symm

end Throwing

/-- The message of the exception of lines 131 and 139. -/
def readBlockError : String := "Can't read block from disk"

/-- Lines 136-154 over the heights `hs` (`nextAuditHeight` upward): read each
block back from disk, append the PoS blocks' summaries, and stop once
`audits` holds `MAX_NUM_POS_BLOCKS_AUDITED` of them. -/
def auditFrom (N : Node) (P : ChainParams) (c : ActiveChain) :
    List Nat → List PoSBlockSummary → ExceptT String Option (List PoSBlockSummary)
  | [], audits => pure audits
  | h :: hs, audits => do
    let posBlock ← (c.blocks[h]? : Option CBlock)
    unless N.ReadBlockFromDisk posBlock do throw readBlockError
    let audits := if posBlock.IsProofOfStake N then audits ++ [posSummary N h posBlock] else audits
    if audits.length = P.MAX_NUM_POS_BLOCKS_AUDITED then pure audits
    else auditFrom N P c hs audits

/-- `GetListOfPoSInfo(currentHeight, audits)` (lines 103-158): the height
where the backward scan stopped, and `audits` with the new summaries.
The `start > START_POA_BLOCK` test of line 127 holds in the `else` branch. -/
def GetListOfPoSInfo (N : Node) (P : ChainParams) (c : ActiveChain) (currentHeight : Nat)
    (audits : List PoSBlockSummary) : ExceptT String Option (Nat × List PoSBlockSummary) := do
  let nloopIdx ← (findPrevPoA P c currentHeight : Option Nat)
  if nloopIdx ≤ P.START_POA_BLOCK then
    let l ← ((List.range' (P.LAST_POW_BLOCK + 1) P.MAX_NUM_POS_BLOCKS_AUDITED).mapM fun i =>
      (c.blocks[i]?).map (posSummary N i) : Option (List PoSBlockSummary))
    pure (nloopIdx, audits ++ l)
  else
    let block ← (c.blocks[nloopIdx]? : Option CBlock)
    unless N.ReadBlockFromDisk block do throw readBlockError
    let back ← (block.posBlocksAudited.getLast? : Option PoSBlockSummary)
    let nextAuditHeight := (back.height + 1) % 2 ^ 32
    let audits ← auditFrom N P c
      (List.range' nextAuditHeight (currentHeight + 1 - nextAuditHeight)) audits
    pure (nloopIdx, audits)

/-! ## The chain as the audit reads it -/

namespace ActiveChain

/-- The summary `GetListOfPoSInfo` writes for height `h`. -/
def summaryAt (N : Node) (c : ActiveChain) (h : Nat) : PoSBlockSummary :=
  posSummary N h (c.blockAt h)

/-- The heights in `[lo, hi]` holding PoS blocks, increasing. -/
def posHeights (N : Node) (c : ActiveChain) (lo hi : Nat) : List Nat :=
  (List.range' lo (hi + 1 - lo)).filter (c.isPoSAt N)

/-- The last height the block at `p` audits. -/
def lastAudited (c : ActiveChain) (p : Nat) : Option Nat :=
  ((c.blockAt p).posBlocksAudited.getLast?).map (·.height)

/-- `c` and `c'` hold the same blocks at the heights in `[lo, hi]`. -/
def AgreeOn (c c' : ActiveChain) (lo hi : Nat) : Prop :=
  ∀ h, lo ≤ h → h ≤ hi → c'.blocks[h]? = c.blocks[h]?

/-- The blocks at the heights in `[lo, hi]` read back from disk. -/
def ReadsBack (N : Node) (c : ActiveChain) (lo hi : Nat) : Prop :=
  ∀ h, lo ≤ h → h ≤ hi → N.ReadBlockFromDisk (c.blockAt h) = true

theorem ReadsBack.mono {N : Node} {c : ActiveChain} {lo hi lo' hi' : Nat} (hr : c.ReadsBack N lo hi)
    (h₁ : lo ≤ lo') (h₂ : hi' ≤ hi) : c.ReadsBack N lo' hi' :=
  fun h hl hh => hr h (by omega) (by omega)

theorem getElem?_eq_blockAt (c : ActiveChain) {h : Nat} (hh : h < c.blocks.length) :
    c.blocks[h]? = some (c.blockAt h) := by
  simp [blockAt, List.getElem?_eq_getElem hh]

theorem isPoAAt_of_lt (P : ChainParams) (c : ActiveChain) {h : Nat} (hh : h < c.blocks.length) :
    c.isPoAAt P h = (c.blockAt h).IsPoABlockByVersion P := by
  simp [isPoAAt, c.getElem?_eq_blockAt hh]

theorem isPoSAt_of_lt (N : Node) (c : ActiveChain) {h : Nat} (hh : h < c.blocks.length) :
    c.isPoSAt N h = (c.blockAt h).IsProofOfStake N := by
  simp [isPoSAt, c.getElem?_eq_blockAt hh]

theorem height_lt (c : ActiveChain) : c.height < c.blocks.length := by
  have := List.length_pos.2 c.nonempty
  unfold height; omega

end ActiveChain

/-- `x` returns `a`, unless a block at a height in `[lo, hi]` does not read
back from disk; it then throws `readBlockError`. -/
def ReturnsOrThrows {α : Type} (N : Node) (c : ActiveChain) (lo hi : Nat)
    (x : ExceptT String Option α) (a : α) : Prop :=
  x = pure a ∨ (¬ c.ReadsBack N lo hi ∧ x = throw readBlockError)

namespace ReturnsOrThrows

variable {α : Type} {N : Node} {c : ActiveChain} {lo hi : Nat} {x : ExceptT String Option α} {a : α}

theorem eq_pure (h : ReturnsOrThrows N c lo hi x a) (hr : c.ReadsBack N lo hi) : x = pure a :=
  h.resolve_right fun ⟨hn, _⟩ => hn hr

theorem eq_of_pure {b : α} (h : ReturnsOrThrows N c lo hi x a) (hx : x = pure b) : b = a := by
  rcases h with h | ⟨-, h⟩
  · simpa using congrArg ExceptT.run (hx.symm.trans h)
  · exact absurd (hx.symm.trans h) (pure_ne_throw _ _)

theorem widen {lo' hi' : Nat} (h : ReturnsOrThrows N c lo hi x a) (hlo : lo' ≤ lo) (hhi : hi ≤ hi') :
    ReturnsOrThrows N c lo' hi' x a :=
  h.imp_right fun ⟨hn, hx⟩ => ⟨fun hr => hn fun k h₁ h₂ => hr k (by omega) (by omega), hx⟩

end ReturnsOrThrows

/-- `p` is the greatest height in `[START_POA_BLOCK, cur]` holding a PoA block. -/
def IsLastPoA (P : ChainParams) (c : ActiveChain) (cur p : Nat) : Prop :=
  P.START_POA_BLOCK ≤ p ∧ p ≤ cur ∧ c.isPoAAt P p = true ∧
    ∀ k < cur + 1, p < k → c.isPoAAt P k = false

instance (P : ChainParams) (c : ActiveChain) (cur p : Nat) : Decidable (IsLastPoA P c cur p) :=
  inferInstanceAs (Decidable (_ ∧ _ ∧ _ ∧ _))

/-- No height in `[START_POA_BLOCK, cur]` holds a PoA block. -/
def NoPoAUpTo (P : ChainParams) (c : ActiveChain) (cur : Nat) : Prop :=
  ∀ k < cur + 1, P.START_POA_BLOCK ≤ k → c.isPoAAt P k = false

theorem lastPoA_or_noPoA (P : ChainParams) (c : ActiveChain) :
    ∀ cur, (∃ p, IsLastPoA P c cur p) ∨ NoPoAUpTo P c cur
  | 0 => by
    by_cases h : P.START_POA_BLOCK ≤ 0 ∧ c.isPoAAt P 0 = true
    · exact .inl ⟨0, h.1, le_rfl, h.2, fun k hk h' => by omega⟩
    · refine .inr fun k hk hs => ?_
      obtain rfl : k = 0 := by omega
      simpa [hs] using h
  | cur + 1 => by
    by_cases h : P.START_POA_BLOCK ≤ cur + 1 ∧ c.isPoAAt P (cur + 1) = true
    · exact .inl ⟨cur + 1, h.1, le_rfl, h.2, fun k hk h' => by omega⟩
    · have hlast : P.START_POA_BLOCK ≤ cur + 1 → c.isPoAAt P (cur + 1) = false := by
        simpa using h
      rcases lastPoA_or_noPoA P c cur with ⟨p, hs, hp, hpoa, hk⟩ | hno
      · refine .inl ⟨p, hs, by omega, hpoa, fun k hk' hpk => ?_⟩
        rcases Nat.lt_or_eq_of_le (Nat.le_of_lt_succ hk') with hk' | rfl
        · exact hk k hk' hpk
        · exact hlast (by omega)
      · refine .inr fun k hk hs => ?_
        rcases Nat.lt_or_eq_of_le (Nat.le_of_lt_succ hk) with hk | rfl
        · exact hno k hk hs
        · exact hlast hs

/-! ## The two scans -/

section Scans

variable {N : Node} {P : ChainParams} {c : ActiveChain}

theorem findPrevPoA_succ (h : Nat) :
    findPrevPoA P c (h + 1) = if h + 1 < P.START_POA_BLOCK then some (h + 1) else
      (c.blocks[h + 1]?).bind fun b =>
        if b.IsPoABlockByVersion P then some (h + 1) else findPrevPoA P c h := by
  rw [findPrevPoA]

/-- The backward scan stops at the last PoA block. -/
theorem findPrevPoA_of_lastPoA {p : Nat} (h : Nat) (hp : IsLastPoA P c h p)
    (hh : h < c.blocks.length) : findPrevPoA P c h = some p := by
  obtain ⟨hs, hph, hpoa, hlast⟩ := hp
  induction h with
  | zero =>
    obtain rfl : p = 0 := by omega
    rw [c.isPoAAt_of_lt P hh] at hpoa
    simp [findPrevPoA, c.getElem?_eq_blockAt hh, hpoa]
  | succ h ih =>
    rw [findPrevPoA_succ, if_neg (by omega), c.getElem?_eq_blockAt hh, Option.some_bind]
    rcases Nat.lt_or_eq_of_le hph with hlt | rfl
    · have hno := hlast (h + 1) (by omega) hlt
      rw [c.isPoAAt_of_lt P hh] at hno
      rw [hno, if_neg Bool.false_ne_true]
      exact ih (by omega) (by omega) fun k hk => hlast k (by omega)
    · rw [c.isPoAAt_of_lt P hh] at hpoa
      rw [if_pos hpoa]

/-- With no PoA block from `START_POA_BLOCK` up, the backward scan stops just
below `START_POA_BLOCK`. -/
theorem findPrevPoA_of_noPoA (hS : 0 < P.START_POA_BLOCK) (h : Nat)
    (hlo : P.START_POA_BLOCK ≤ h + 1) (hh : h < c.blocks.length) (hno : NoPoAUpTo P c h) :
    findPrevPoA P c h = some (P.START_POA_BLOCK - 1) := by
  induction h with
  | zero => simp [findPrevPoA, hS]; omega
  | succ h ih =>
    rw [findPrevPoA_succ]
    split_ifs with hlt
    · congr 1; omega
    · have hb := hno (h + 1) (by omega) (by omega)
      rw [c.isPoAAt_of_lt P hh] at hb
      rw [c.getElem?_eq_blockAt hh, Option.some_bind, hb, if_neg Bool.false_ne_true]
      exact ih (by omega) (by omega) (fun k hk => hno k (by omega))

/-- With `START_POA_BLOCK = 0` and no PoA block, `nloopIdx` wraps below 0. -/
theorem findPrevPoA_of_start_zero (hS : P.START_POA_BLOCK = 0) (h : Nat)
    (hh : h < c.blocks.length) (hno : NoPoAUpTo P c h) : findPrevPoA P c h = none := by
  have hb : ∀ k ≤ h, (c.blockAt k).IsPoABlockByVersion P = false := fun k hk => by
    rw [← c.isPoAAt_of_lt P (by omega)]; exact hno k (by omega) (by omega)
  induction h with
  | zero => simp [findPrevPoA, hS, c.getElem?_eq_blockAt hh, hb 0 le_rfl]
  | succ h ih =>
    rw [findPrevPoA_succ, if_neg (by omega), c.getElem?_eq_blockAt hh, Option.some_bind,
      hb _ le_rfl, if_neg Bool.false_ne_true]
    exact ih (by omega) (fun k hk => hno k (by omega)) fun k hk => hb k (by omega)

theorem auditFrom_cons {h : Nat} {b : CBlock} (hs : List Nat) (acc : List PoSBlockSummary)
    (hb : c.blocks[h]? = some b) :
    auditFrom N P c (h :: hs) acc = if N.ReadBlockFromDisk b then
      (let acc := if b.IsProofOfStake N then acc ++ [posSummary N h b] else acc
        if acc.length = P.MAX_NUM_POS_BLOCKS_AUDITED then pure acc else auditFrom N P c hs acc)
      else throw readBlockError := by
  rw [auditFrom, hb, liftM_some_bind]
  cases N.ReadBlockFromDisk b <;> rfl

/-- The forward scan from `acc`: the first PoS heights of `hs`, until
`MAX_NUM_POS_BLOCKS_AUDITED` summaries are held, unless a block of `hs` does
not read back. -/
theorem auditFrom_eq : ∀ (hs : List Nat) (acc : List PoSBlockSummary),
    acc.length < P.MAX_NUM_POS_BLOCKS_AUDITED → (∀ h ∈ hs, h < c.blocks.length) →
    auditFrom N P c hs acc = pure (acc ++ ((hs.filter (c.isPoSAt N)).take
      (P.MAX_NUM_POS_BLOCKS_AUDITED - acc.length)).map (c.summaryAt N)) ∨
    ((∃ h ∈ hs, N.ReadBlockFromDisk (c.blockAt h) = false) ∧
      auditFrom N P c hs acc = throw readBlockError)
  | [], acc, _, _ => .inl (by simp [auditFrom])
  | h :: hs, acc, hlt, hin => by
    have hh := hin h (List.mem_cons_self _ _)
    have ih := fun acc hlt => auditFrom_eq hs acc hlt fun x hx => hin x (List.mem_cons_of_mem _ hx)
    have lift : ∀ {x : ExceptT String Option (List PoSBlockSummary)} {v},
        (x = pure v ∨ ((∃ k ∈ hs, N.ReadBlockFromDisk (c.blockAt k) = false) ∧
          x = throw readBlockError)) →
        (x = pure v ∨ ((∃ k ∈ h :: hs, N.ReadBlockFromDisk (c.blockAt k) = false) ∧
          x = throw readBlockError)) :=
      fun e => e.imp_right fun ⟨⟨k, hk, hr⟩, hx⟩ => ⟨⟨k, List.mem_cons_of_mem _ hk, hr⟩, hx⟩
    rw [auditFrom_cons hs acc (c.getElem?_eq_blockAt hh)]
    cases hread : N.ReadBlockFromDisk (c.blockAt h)
    · exact .inr ⟨⟨h, List.mem_cons_self _ _, hread⟩, rfl⟩
    rw [if_pos rfl]
    dsimp only
    cases hpos : (c.blockAt h).IsProofOfStake N
    · have : c.isPoSAt N h = false := by rw [c.isPoSAt_of_lt N hh, hpos]
      rw [if_neg Bool.false_ne_true, if_neg (Nat.ne_of_lt hlt),
        List.filter_cons_of_neg (by simp [this])]
      exact lift (ih acc hlt)
    · have : c.isPoSAt N h = true := by rw [c.isPoSAt_of_lt N hh, hpos]
      obtain ⟨k, hk⟩ : ∃ k, P.MAX_NUM_POS_BLOCKS_AUDITED - acc.length = k + 1 :=
        ⟨P.MAX_NUM_POS_BLOCKS_AUDITED - acc.length - 1, by omega⟩
      rw [if_pos rfl, List.filter_cons_of_pos this, hk, List.take_succ_cons, List.map_cons]
      split_ifs with heq
      · obtain rfl : k = 0 := by simp at heq; omega
        exact .inl (by simp [ActiveChain.summaryAt])
      · refine lift ((ih _ (by simp at heq ⊢; omega)).imp_left fun e => e.trans ?_)
        have : P.MAX_NUM_POS_BLOCKS_AUDITED - (acc ++ [posSummary N h (c.blockAt h)]).length = k := by
          simp; omega
        rw [this]
        simp [ActiveChain.summaryAt]

theorem mapM_posSummary : ∀ l : List Nat, (∀ i ∈ l, i < c.blocks.length) →
    l.mapM (fun i => (c.blocks[i]?).map (posSummary N i)) = some (l.map (c.summaryAt N))
  | [], _ => rfl
  | i :: l, hl => by
    simp only [List.mapM_cons, c.getElem?_eq_blockAt (hl i (List.mem_cons_self _ _)),
      mapM_posSummary l fun j hj => hl j (List.mem_cons_of_mem _ hj), Option.map_some',
      Option.bind_eq_bind, Option.some_bind]
    rfl

end Scans

/-! ## `GetListOfPoSInfo` from `currentHeight = cur` -/

section Audit

variable {N : Node} {P : ChainParams} {c : ActiveChain} {cur : Nat}

/-- **After a PoA block above `START_POA_BLOCK`**: the first
`MAX_NUM_POS_BLOCKS_AUDITED` PoS heights after the last one it audited,
unless a block from there up does not read back from disk. -/
theorem GetListOfPoSInfo_of_lastPoA {p L : Nat} (hMAX : 0 < P.MAX_NUM_POS_BLOCKS_AUDITED)
    (hcur : cur < c.blocks.length) (hp : IsLastPoA P c cur p) (hS : P.START_POA_BLOCK < p)
    (hL : c.lastAudited p = some L) (hLp : L < p) :
    ReturnsOrThrows N c (L + 1) cur (GetListOfPoSInfo N P c cur [])
      (p, ((c.posHeights N (L + 1) cur).take P.MAX_NUM_POS_BLOCKS_AUDITED).map (c.summaryAt N)) := by
  obtain ⟨s, hs, rfl⟩ := Option.map_eq_some'.1 hL
  have hpl : p < c.blocks.length := by have := hp.2.1; omega
  have hmod : (s.height + 1) % 2 ^ 32 = s.height + 1 :=
    Nat.mod_eq_of_lt (by have := c.length_le; omega)
  rw [GetListOfPoSInfo, findPrevPoA_of_lastPoA cur hp hcur, liftM_some_bind,
    if_neg (Nat.not_le_of_lt hS), c.getElem?_eq_blockAt hpl, liftM_some_bind]
  cases hread : N.ReadBlockFromDisk (c.blockAt p)
  · exact .inr ⟨fun hr => absurd (hr p (by omega) hp.2.1) (by simp [hread]), rfl⟩
  simp only [↓reduceIte, pure_bind, hs, liftM_some_bind, hmod]
  rcases auditFrom_eq (N := N) (P := P) (c := c) (List.range' (s.height + 1) (cur + 1 - (s.height + 1))) []
      (by simpa using hMAX) fun h hh => by
        simp only [List.mem_range'_1] at hh; omega with e | ⟨⟨h, hh, hr⟩, e⟩
  · exact .inl (by rw [e]; simp [ActiveChain.posHeights])
  · simp only [List.mem_range'_1] at hh
    exact .inr ⟨fun hb => absurd (hb h (by omega) (by omega)) (by simp [hr]), by rw [e]; rfl⟩

/-- **With no PoA block from `START_POA_BLOCK` up**: the
`MAX_NUM_POS_BLOCKS_AUDITED` heights after `LAST_POW_BLOCK`, with no block
read from disk. -/
theorem GetListOfPoSInfo_of_noPoA (hS : 0 < P.START_POA_BLOCK)
    (hpar : P.LAST_POW_BLOCK + P.MAX_NUM_POS_BLOCKS_AUDITED ≤ P.START_POA_BLOCK)
    (hcur : P.START_POA_BLOCK ≤ cur) (hlen : cur < c.blocks.length) (hno : NoPoAUpTo P c cur) :
    GetListOfPoSInfo N P c cur [] = pure (P.START_POA_BLOCK - 1,
      (List.range' (P.LAST_POW_BLOCK + 1) P.MAX_NUM_POS_BLOCKS_AUDITED).map (c.summaryAt N)) := by
  rw [GetListOfPoSInfo, findPrevPoA_of_noPoA hS cur (by omega) hlen hno, liftM_some_bind,
    if_pos (Nat.sub_le _ 1), mapM_posSummary _ fun i hi => by
      simp only [List.mem_range'_1] at hi; omega, liftM_some_bind]
  rfl

theorem IsLastPoA.unique {p q : Nat} (hp : IsLastPoA P c cur p) (hq : IsLastPoA P c cur q) :
    p = q := by
  by_contra hne
  rcases Nat.lt_or_gt_of_ne hne with h | h
  · exact Bool.false_ne_true ((hp.2.2.2 q (by have := hq.2.1; omega) h).symm.trans hq.2.2.1)
  · exact Bool.false_ne_true ((hq.2.2.2 p (by have := hp.2.1; omega) h).symm.trans hp.2.2.1)

theorem IsLastPoA.not_noPoA {p : Nat} (hp : IsLastPoA P c cur p) : ¬ NoPoAUpTo P c cur :=
  fun hno => Bool.false_ne_true ((hno p (by have := hp.2.1; omega) hp.1).symm.trans hp.2.2.1)

/-- A last PoA block other than the one at `START_POA_BLOCK` is above it. -/
theorem IsLastPoA.start_lt {p : Nat} (hp : IsLastPoA P c cur p)
    (hstart : c.isPoAAt P P.START_POA_BLOCK = false) : P.START_POA_BLOCK < p :=
  lt_of_le_of_ne hp.1 fun e => by simp [e, hp.2.2.1] at hstart

end Audit

/-! ## Only the heights above `LAST_POW_BLOCK` are read -/

namespace ActiveChain.AgreeOn

variable {N : Node} {P : ChainParams} {c c' : ActiveChain} {lo hi h : Nat}

theorem isPoAAt (hag : c.AgreeOn c' lo hi) (h₁ : lo ≤ h) (h₂ : h ≤ hi) :
    c'.isPoAAt P h = c.isPoAAt P h := by
  simp [ActiveChain.isPoAAt, hag h h₁ h₂]

theorem blockAt (hag : c.AgreeOn c' lo hi) (h₁ : lo ≤ h) (h₂ : h ≤ hi) :
    c'.blockAt h = c.blockAt h := by
  simp [ActiveChain.blockAt, hag h h₁ h₂]

theorem posHeights (hag : c.AgreeOn c' lo hi) {a b : Nat} (ha : lo ≤ a) (hb : b ≤ hi) :
    c'.posHeights N a b = c.posHeights N a b :=
  List.filter_congr fun h hh => by
    simp only [List.mem_range'_1] at hh
    simp [ActiveChain.isPoSAt, hag h (by omega) (by omega)]

theorem map_summaryAt (hag : c.AgreeOn c' lo hi) {l : List Nat} (hl : ∀ h ∈ l, lo ≤ h ∧ h ≤ hi) :
    l.map (c'.summaryAt N) = l.map (c.summaryAt N) :=
  List.map_congr_left fun h hh => by
    simp [ActiveChain.summaryAt, hag.blockAt (hl h hh).1 (hl h hh).2]

theorem isLastPoA (hag : c.AgreeOn c' lo hi) {cur p : Nat} (hlo : lo ≤ P.START_POA_BLOCK)
    (hcur : cur ≤ hi) (hp : IsLastPoA P c cur p) : IsLastPoA P c' cur p := by
  obtain ⟨hs, hpc, hpoa, hlast⟩ := hp
  refine ⟨hs, hpc, by rwa [hag.isPoAAt (by omega) (by omega)], fun k hk hpk => ?_⟩
  rw [hag.isPoAAt (by omega) (by omega)]
  exact hlast k hk hpk

theorem noPoAUpTo (hag : c.AgreeOn c' lo hi) {cur : Nat} (hlo : lo ≤ P.START_POA_BLOCK)
    (hcur : cur ≤ hi) (hno : NoPoAUpTo P c cur) : NoPoAUpTo P c' cur := fun k hk hs => by
  rw [hag.isPoAAt (by omega) (by omega)]
  exact hno k hk hs

/-- The blocks of `[lo', hi']` inside `[lo, hi]` read back in `c'` as in `c`. -/
theorem readsBack (hag : c.AgreeOn c' lo hi) {lo' hi' : Nat} (h₁ : lo ≤ lo') (h₂ : hi' ≤ hi)
    (hr : c.ReadsBack N lo' hi') : c'.ReadsBack N lo' hi' := fun h hl hh => by
  rw [hag.blockAt (by omega) (by omega)]; exact hr h hl hh

theorem length_lt (hag : c.AgreeOn c' lo hi) (h₁ : lo ≤ h) (h₂ : h ≤ hi)
    (hh : h < c.blocks.length) : h < c'.blocks.length := by
  have := hag h h₁ h₂
  rw [c.getElem?_eq_blockAt hh] at this
  exact (List.getElem?_eq_some_iff.1 this).1

end ActiveChain.AgreeOn

section Reads

variable {N : Node} {P : ChainParams} {c c' : ActiveChain} {cur : Nat}

variable (hMAX : 0 < P.MAX_NUM_POS_BLOCKS_AUDITED)
  (hpar : P.LAST_POW_BLOCK + P.MAX_NUM_POS_BLOCKS_AUDITED ≤ P.START_POA_BLOCK)
  (hcur : P.START_POA_BLOCK ≤ cur) (hlen : cur < c.blocks.length)
  (hlast : ∀ p, IsLastPoA P c cur p → P.START_POA_BLOCK < p ∧
    ∃ L, c.lastAudited p = some L ∧ P.LAST_POW_BLOCK ≤ L ∧ L < p)
include hMAX hpar hcur hlen hlast

/-- The result of the audit in the two cases of the chain, unless a block
above `LAST_POW_BLOCK` does not read back from disk. -/
theorem GetListOfPoSInfo_cases :
    ∃ r audits, ReturnsOrThrows N c (P.LAST_POW_BLOCK + 1) cur (GetListOfPoSInfo N P c cur [])
        (r, audits) ∧
      (∀ p L, IsLastPoA P c cur p → c.lastAudited p = some L → r = p ∧
        audits = ((c.posHeights N (L + 1) cur).take P.MAX_NUM_POS_BLOCKS_AUDITED).map
          (c.summaryAt N)) ∧
      (NoPoAUpTo P c cur → r < P.START_POA_BLOCK ∧
        audits = (List.range' (P.LAST_POW_BLOCK + 1) P.MAX_NUM_POS_BLOCKS_AUDITED).map
          (c.summaryAt N)) := by
  rcases lastPoA_or_noPoA P c cur with ⟨p, hp⟩ | hno
  · obtain ⟨hSp, L, hL, hL₁, hLp⟩ := hlast p hp
    refine ⟨_, _, (GetListOfPoSInfo_of_lastPoA hMAX hlen hp hSp hL hLp).widen (by omega) le_rfl,
      fun p' L' hp' hL' => ?_, fun hno => absurd hno hp.not_noPoA⟩
    obtain rfl := hp.unique hp'
    obtain rfl : L = L' := Option.some.inj (hL.symm.trans hL')
    exact ⟨rfl, rfl⟩
  · exact ⟨_, _, .inl (GetListOfPoSInfo_of_noPoA (by omega) hpar hcur hlen hno),
      fun _ _ hp => absurd hno hp.not_noPoA, fun _ => ⟨by omega, rfl⟩⟩

/-- **The audit reads only `[LAST_POW_BLOCK + 1, cur]`**: when those blocks
read back from disk, two chains that agree there give the same result. -/
theorem GetListOfPoSInfo_congr (hread : c.ReadsBack N (P.LAST_POW_BLOCK + 1) cur)
    (hag : c.AgreeOn c' (P.LAST_POW_BLOCK + 1) cur) :
    GetListOfPoSInfo N P c' cur [] = GetListOfPoSInfo N P c cur [] := by
  have hlo : P.LAST_POW_BLOCK + 1 ≤ P.START_POA_BLOCK := by omega
  have hlen' := hag.length_lt (h := cur) (by omega) le_rfl hlen
  rcases lastPoA_or_noPoA P c cur with ⟨p, hp⟩ | hno
  · obtain ⟨hSp, L, hL, hL₁, hLp⟩ := hlast p hp
    have hL' : c'.lastAudited p = some L := by
      rw [ActiveChain.lastAudited, hag.blockAt (by omega) hp.2.1]; exact hL
    have hr : c.ReadsBack N (L + 1) cur := hread.mono (by omega) le_rfl
    rw [(GetListOfPoSInfo_of_lastPoA hMAX hlen hp hSp hL hLp).eq_pure hr,
      (GetListOfPoSInfo_of_lastPoA hMAX hlen' (hag.isLastPoA hlo le_rfl hp) hSp hL' hLp).eq_pure
        (hag.readsBack (by omega) le_rfl hr),
      hag.posHeights (by omega) le_rfl, hag.map_summaryAt fun h hh => ?_]
    have := List.mem_filter.1 (List.mem_of_mem_take hh)
    simp only [List.mem_range'_1] at this
    omega
  · rw [GetListOfPoSInfo_of_noPoA (by omega) hpar hcur hlen hno,
      GetListOfPoSInfo_of_noPoA (by omega) hpar hcur hlen' (hag.noPoAUpTo hlo le_rfl hno),
      hag.map_summaryAt fun h hh => ?_]
    simp only [List.mem_range'_1] at hh
    omega

end Reads

/-! ## `CreateNewPoABlock` -/

/-- Lines 553-573: the reward in the coinbase output, hidden with the shared
secret `txPub`, committed to, and hidden once more. -/
def poaReward (N : Node) (txPub : List Nat) (nReward : Int) (b : CBlock) : Option CBlock :=
  let encode := fun o : CTxOut => { o with maskAmount := N.EncodeTxOutAmount o.nValue txPub }
  let b := b.modifyTx 0 fun tx =>
    { tx.modifyVout 0 (fun o => encode { o with nValue := nReward }) with txType := .revealAmount }
  (N.CreateCommitment (b.outValue 0 0)).map fun commitment =>
    b.modifyTx 0 (·.modifyVout 0 fun o => encode { o with commitment })

/-- Lines 580-604, in order: the links to the tip and the previous PoA block,
the work, the sig-op count, the final coinbase `scriptSig`, and the three
roots. -/
def poaFinish (N : Node) (pindexPrev : CBlockIndex) (hdr : CBlockHeader) (hashPrevPoABlock : Nat)
    (b : CBlock) : CBlockTemplate :=
  let hdr := { hdr with hashPrevBlock := pindexPrev.phashBlock, hashPrevPoABlock }
  let hdr := { hdr with nBits := N.GetNextWorkRequired pindexPrev hdr, nNonce := 0 }
  let nSigOps := (b.vtx.head?.map N.GetLegacySigOpCount).getD 0
  let b := b.modifyTx 0 (·.setScriptSig ([.num (pindexPrev.nHeight + 1), .num 1] ++ N.COINBASE_FLAGS))
  let b := { b with header := { hdr with hashMerkleRoot := N.BlockMerkleRoot b.vtx } }
  let b := { b with header := { b.header with
    hashPoAMerkleRoot := N.ComputePoAMerkleTree b.posBlocksAudited } }
  let b := { b with header := { b.header with minedHash := N.ComputeMinedHash b } }
  ⟨b, [-1], [nSigOps]⟩

/-- `CreateNewPoABlock` (lines 509-607): a template, `NULL`, or the exception
`GetListOfPoSInfo` throws.  `nReward` is `size * 0.25 * COIN` (or `0.5`) in
`double`, which is exact: `COIN` is a multiple of 4.  The link to the
previous PoA block reads `chainActive[nprevPoAHeight]`, `none` past the tip. -/
def CreateNewPoABlock (N : Node) (P : ChainParams) (c : ActiveChain) (scriptPubKeyIn : CScript)
    (txPub txPriv : List Nat) : ExceptT String Option (Option CBlockTemplate) :=
  let pindexPrev := c.tip N
  if pindexPrev.nHeight < P.START_POA_BLOCK then pure none else
  let b : CBlock := { CBlock.null with vtx := [coinbaseTx scriptPubKeyIn txPub txPriv (-1)] }
  let hdr := { b.header with nTime := N.GetAdjustedTime % 2 ^ 32 }
  let hdr := { hdr with nBits := N.GetNextWorkRequired pindexPrev hdr }
  GetListOfPoSInfo N P c pindexPrev.nHeight b.posBlocksAudited >>= fun (nprevPoAHeight, audits) =>
  if audits.length = 0 then pure none else
  let hdr := { hdr with nVersion := P.POA_BLOCK_VERSION, nTime := N.GetAdjustedTime % 2 ^ 32 }
  let nReward : Int := if P.HardFork ≤ pindexPrev.nHeight then audits.length * COIN / 4
    else audits.length * COIN / 2
  match poaReward N txPub nReward { b with posBlocksAudited := audits } with
  | none => pure none
  | some b =>
    liftM (if P.START_POA_BLOCK ≤ nprevPoAHeight then
      (c.blocks[nprevPoAHeight]?).map (N.GetHash ·.header) else some 0) >>= fun hashPrevPoABlock =>
    pure (some (poaFinish N pindexPrev hdr hashPrevPoABlock b))

/-- `CreateNewPoABlockWithKey` (lines 657-666): a fresh address, paid by
`<pubkey> OP_CHECKSIG`. -/
def CreateNewPoABlockWithKey (N : Node) (P : ChainParams) (c : ActiveChain) :
    ExceptT String Option (Option CBlockTemplate) :=
  match N.GenerateAddress with
  | none => pure none
  | some (pubkey, txPub, txPriv) =>
    CreateNewPoABlock N P c [.bytes pubkey, OP_CHECKSIG] txPub txPriv

theorem poaReward_frame {N : Node} {txPub : List Nat} {nReward : Int} {b b' : CBlock}
    (h : poaReward N txPub nReward b = some b') :
    b'.vtx.length = b.vtx.length ∧ b'.posBlocksAudited = b.posBlocksAudited := by
  obtain ⟨cm, -, rfl⟩ := Option.map_eq_some'.1 h
  simp [CBlock.modifyTx]

/-- `poaFinish` computes each root last: over the final transactions, the
final audit list, and the final header (with `minedHash` still 0). -/
theorem poaFinish_roots (N : Node) (p : CBlockIndex) (hdr : CBlockHeader) (hp : Nat) (b : CBlock)
    (h0 : hdr.minedHash = 0) :
    let t := poaFinish N p hdr hp b
    t.block.header.hashMerkleRoot = N.BlockMerkleRoot t.block.vtx ∧
      t.block.header.hashPoAMerkleRoot = N.ComputePoAMerkleTree t.block.posBlocksAudited ∧
      t.block.header.minedHash =
        N.ComputeMinedHash { t.block with header := { t.block.header with minedHash := 0 } } := by
  simp [poaFinish, h0]

@[simp] theorem poaFinish_posBlocksAudited (N : Node) (p : CBlockIndex) (hdr : CBlockHeader)
    (hp : Nat) (b : CBlock) : (poaFinish N p hdr hp b).block.posBlocksAudited = b.posBlocksAudited :=
  rfl

@[simp] theorem poaFinish_vtx_length (N : Node) (p : CBlockIndex) (hdr : CBlockHeader)
    (hp : Nat) (b : CBlock) : (poaFinish N p hdr hp b).block.vtx.length = b.vtx.length := by
  simp [poaFinish, CBlock.modifyTx]

@[simp] theorem ActiveChain.tip_nHeight (N : Node) (c : ActiveChain) : (c.tip N).nHeight = c.height :=
  rfl

/-- What a returned PoA template holds: the audit list `GetListOfPoSInfo`
computed on the tip, non-empty; the PoA version; the coinbase alone; the
previous-PoA link read at the height the scan stopped; and the three roots,
each computed over the final transactions and audit list. -/
theorem CreateNewPoABlock_spec {N : Node} {P : ChainParams} {c : ActiveChain} {spk : CScript}
    {txPub txPriv : List Nat} {t : CBlockTemplate}
    (h : CreateNewPoABlock N P c spk txPub txPriv = pure (some t)) :
    ∃ r, P.START_POA_BLOCK ≤ c.height ∧
      GetListOfPoSInfo N P c c.height [] = pure (r, t.block.posBlocksAudited) ∧
      t.block.posBlocksAudited ≠ [] ∧ t.block.IsPoABlockByVersion P = true ∧
      t.block.vtx.length = 1 ∧
      t.block.header.hashPrevPoABlock =
        (if P.START_POA_BLOCK ≤ r then N.GetHash (c.blockAt r).header else 0) ∧
      t.block.header.hashMerkleRoot = N.BlockMerkleRoot t.block.vtx ∧
      t.block.header.hashPoAMerkleRoot = N.ComputePoAMerkleTree t.block.posBlocksAudited ∧
      t.block.header.minedHash =
        N.ComputeMinedHash { t.block with header := { t.block.header with minedHash := 0 } } := by
  unfold CreateNewPoABlock at h
  dsimp only at h
  have h₁ : ¬ (c.tip N).nHeight < P.START_POA_BLOCK := fun h₁ => by
    rw [if_pos h₁, pure_inj] at h; cases h
  rw [if_neg h₁] at h
  obtain ⟨⟨r, audits⟩, hget, h⟩ := bind_eq_pure.1 h
  have h₂ : ¬ audits.length = 0 := fun h₂ => by rw [if_pos h₂, pure_inj] at h; cases h
  rw [if_neg h₂] at h
  split at h
  · rw [pure_inj] at h; cases h
  next b hb =>
  obtain ⟨hp, hprev, h⟩ := bind_eq_pure.1 h
  obtain rfl := Option.some.inj (pure_inj.1 h).symm
  obtain ⟨hlen, haud⟩ := poaReward_frame hb
  refine ⟨r, Nat.le_of_not_lt h₁, by simpa [haud] using hget,
    by simpa [haud] using List.ne_nil_of_length_pos (Nat.pos_of_ne_zero h₂),
    by simp [CBlock.IsPoABlockByVersion, poaFinish], by simp [hlen], ?_,
    poaFinish_roots N _ _ _ _ rfl⟩
  rw [liftM_eq_pure] at hprev
  split_ifs at hprev with h₃
  · obtain ⟨b, hb, rfl⟩ := Option.map_eq_some'.1 hprev
    simp [poaFinish, ActiveChain.blockAt, hb, h₃]
  · cases hprev
    simp [poaFinish, h₃]

/-! ## The audit list and the previous-PoA link -/

/-- Parameters with PoA blocks from height 1 on and one PoS block per audit. -/
def boundaryParams : ChainParams := ⟨0, 1, 1, 1000, false, false, true, 100⟩

/-- A PoS block for `stakeNode`: its second transaction is a coinstake. -/
def posBlock : CBlock :=
  { CBlock.null with vtx := [coinbaseTx [] [] [] 0, ⟨[], [], 0, .coinstake, []⟩] }

/-- A PoA block of `boundaryParams` auditing the heights `hs`. -/
def poaBlock (hs : List Nat) : CBlock :=
  { CBlock.null with
    header := { CBlock.null.header with nVersion := 100 }
    vtx := [coinbaseTx [] [] [] 0]
    posBlocksAudited := hs.map fun h => ⟨0, 0, h⟩ }

/-- **A PoA block at `START_POA_BLOCK` is taken for none.**  When the last
PoA block of the chain sits at `START_POA_BLOCK` itself, the scan of lines
107-113 stops there, but line 114 takes the branch of a first PoA block: the
audit is the `MAX_NUM_POS_BLOCKS_AUDITED` heights after `LAST_POW_BLOCK`
again, whatever that block audited, while line 583 links the template to
that very block. -/
theorem GetListOfPoSInfo_reaudits_at_start {N : Node} {P : ChainParams} {c : ActiveChain}
    (hpar : P.LAST_POW_BLOCK + P.MAX_NUM_POS_BLOCKS_AUDITED ≤ P.START_POA_BLOCK)
    (hp : IsLastPoA P c c.height P.START_POA_BLOCK) :
    GetListOfPoSInfo N P c c.height [] = pure (P.START_POA_BLOCK,
      (List.range' (P.LAST_POW_BLOCK + 1) P.MAX_NUM_POS_BLOCKS_AUDITED).map (c.summaryAt N)) ∧
    ∀ spk txPub txPriv t, CreateNewPoABlock N P c spk txPub txPriv = pure (some t) →
      t.block.header.hashPrevPoABlock = N.GetHash (c.blockAt P.START_POA_BLOCK).header := by
  have hlen := c.height_lt
  have hS := hp.2.1
  have hget : GetListOfPoSInfo N P c c.height [] = pure (P.START_POA_BLOCK,
      (List.range' (P.LAST_POW_BLOCK + 1) P.MAX_NUM_POS_BLOCKS_AUDITED).map (c.summaryAt N)) := by
    rw [GetListOfPoSInfo, findPrevPoA_of_lastPoA _ hp hlen, liftM_some_bind, if_pos le_rfl,
      mapM_posSummary _ fun i hi => by simp only [List.mem_range'_1] at hi; omega, liftM_some_bind]
    rfl
  refine ⟨hget, fun spk txPub txPriv t ht => ?_⟩
  obtain ⟨r, -, hget', -, -, -, hprev, -⟩ := CreateNewPoABlock_spec ht
  obtain rfl : r = P.START_POA_BLOCK := congrArg Prod.fst (pure_inj.1 (hget'.symm.trans hget))
  rw [hprev, if_pos le_rfl]

/-- The genesis block, a PoA block at `START_POA_BLOCK = 1` auditing height
0, a PoS block. -/
def boundaryChain : ActiveChain := ⟨[CBlock.null, poaBlock [0], posBlock], by simp, by decide⟩

/-- On `boundaryChain` the PoS block at height 2, the one after the last
audited height 0, is not audited: the audit is height 1, the PoA block
itself, and the template links to that block. -/
theorem boundaryChain_reaudits :
    (boundaryParams.LAST_POW_BLOCK + boundaryParams.MAX_NUM_POS_BLOCKS_AUDITED ≤
        boundaryParams.START_POA_BLOCK ∧
      IsLastPoA boundaryParams boundaryChain boundaryChain.height boundaryParams.START_POA_BLOCK ∧
      boundaryChain.lastAudited 1 = some 0 ∧
      boundaryChain.posHeights stakeNode 1 boundaryChain.height = [2]) ∧
    GetListOfPoSInfo stakeNode boundaryParams boundaryChain boundaryChain.height [] =
      pure (boundaryParams.START_POA_BLOCK,
        (List.range' (boundaryParams.LAST_POW_BLOCK + 1)
          boundaryParams.MAX_NUM_POS_BLOCKS_AUDITED).map (boundaryChain.summaryAt stakeNode)) ∧
    ∀ spk txPub txPriv t,
      CreateNewPoABlock stakeNode boundaryParams boundaryChain spk txPub txPriv = pure (some t) →
      t.block.header.hashPrevPoABlock =
        stakeNode.GetHash (boundaryChain.blockAt boundaryParams.START_POA_BLOCK).header :=
  ⟨by decide, GetListOfPoSInfo_reaudits_at_start (by decide) (by decide)⟩

/-- **The audit list of a PoA template.**  On a chain whose last PoA block
`p`, if there is one, is above `START_POA_BLOCK` and audits up to a height in
`[LAST_POW_BLOCK, p)`, and whose blocks above `LAST_POW_BLOCK` read back from
disk, the audit from the tip returns, after `p`, the first
`MAX_NUM_POS_BLOCKS_AUDITED` PoS heights past the last height `p` audited,
and with no PoA block the `MAX_NUM_POS_BLOCKS_AUDITED` heights after
`LAST_POW_BLOCK`.  It reads only `[LAST_POW_BLOCK + 1, tip]`, and
`CreateNewPoABlock` links to `p`, or to null. -/
theorem GetListOfPoSInfo_correct {N : Node} {P : ChainParams} {c : ActiveChain}
    (hMAX : 0 < P.MAX_NUM_POS_BLOCKS_AUDITED)
    (hpar : P.LAST_POW_BLOCK + P.MAX_NUM_POS_BLOCKS_AUDITED ≤ P.START_POA_BLOCK)
    (hcur : P.START_POA_BLOCK ≤ c.height)
    (hlast : ∀ p, IsLastPoA P c c.height p → P.START_POA_BLOCK < p ∧
      ∃ L, c.lastAudited p = some L ∧ P.LAST_POW_BLOCK ≤ L ∧ L < p)
    (hread : c.ReadsBack N (P.LAST_POW_BLOCK + 1) c.height) :
    ∃ r audits, GetListOfPoSInfo N P c c.height [] = pure (r, audits) ∧
      (∀ c' : ActiveChain, c.AgreeOn c' (P.LAST_POW_BLOCK + 1) c.height →
        GetListOfPoSInfo N P c' c.height [] = pure (r, audits)) ∧
      (∀ p L, IsLastPoA P c c.height p → c.lastAudited p = some L → r = p ∧
        audits = ((c.posHeights N (L + 1) c.height).take P.MAX_NUM_POS_BLOCKS_AUDITED).map
          (c.summaryAt N)) ∧
      (NoPoAUpTo P c c.height → r < P.START_POA_BLOCK ∧
        audits = (List.range' (P.LAST_POW_BLOCK + 1) P.MAX_NUM_POS_BLOCKS_AUDITED).map
          (c.summaryAt N)) ∧
      ∀ spk txPub txPriv t, CreateNewPoABlock N P c spk txPub txPriv = pure (some t) →
        t.block.header.hashPrevPoABlock =
          if P.START_POA_BLOCK ≤ r then N.GetHash (c.blockAt r).header else 0 := by
  obtain ⟨r, audits, hget, hlast', hno⟩ :=
    GetListOfPoSInfo_cases (N := N) hMAX hpar hcur c.height_lt hlast
  have hget := hget.eq_pure hread
  refine ⟨r, audits, hget, fun c' hag =>
    (GetListOfPoSInfo_congr hMAX hpar hcur c.height_lt hlast hread hag).trans hget, hlast', hno,
    fun spk txPub txPriv t ht => ?_⟩
  obtain ⟨r', -, hget', -, -, -, hprev, -⟩ := CreateNewPoABlock_spec ht
  obtain rfl : r' = r := congrArg Prod.fst (pure_inj.1 (hget'.symm.trans hget))
  exact hprev

/-- PoS at 1, a PoA block at 2 auditing it, PoS at 3. -/
def auditChain : ActiveChain :=
  ⟨[CBlock.null, posBlock, poaBlock [1], posBlock], by simp, by decide⟩

theorem auditChain_audit :
    (0 < boundaryParams.MAX_NUM_POS_BLOCKS_AUDITED ∧
      boundaryParams.LAST_POW_BLOCK + boundaryParams.MAX_NUM_POS_BLOCKS_AUDITED ≤
        boundaryParams.START_POA_BLOCK ∧
      boundaryParams.START_POA_BLOCK ≤ auditChain.height) ∧
    ∃ r audits, GetListOfPoSInfo stakeNode boundaryParams auditChain auditChain.height [] =
      pure (r, audits) ∧
      (∀ c' : ActiveChain, auditChain.AgreeOn c' (boundaryParams.LAST_POW_BLOCK + 1)
          auditChain.height →
        GetListOfPoSInfo stakeNode boundaryParams c' auditChain.height [] = pure (r, audits)) ∧
      (∀ p L, IsLastPoA boundaryParams auditChain auditChain.height p →
        auditChain.lastAudited p = some L → r = p ∧
        audits = ((auditChain.posHeights stakeNode (L + 1) auditChain.height).take
          boundaryParams.MAX_NUM_POS_BLOCKS_AUDITED).map (auditChain.summaryAt stakeNode)) ∧
      (NoPoAUpTo boundaryParams auditChain auditChain.height →
        r < boundaryParams.START_POA_BLOCK ∧
        audits = (List.range' (boundaryParams.LAST_POW_BLOCK + 1)
          boundaryParams.MAX_NUM_POS_BLOCKS_AUDITED).map (auditChain.summaryAt stakeNode)) ∧
      ∀ spk txPub txPriv t,
        CreateNewPoABlock stakeNode boundaryParams auditChain spk txPub txPriv = pure (some t) →
        t.block.header.hashPrevPoABlock = if boundaryParams.START_POA_BLOCK ≤ r then
          stakeNode.GetHash (auditChain.blockAt r).header else 0 := by
  have hlast : ∀ p, IsLastPoA boundaryParams auditChain auditChain.height p →
      boundaryParams.START_POA_BLOCK < p ∧ ∃ L, auditChain.lastAudited p = some L ∧
        boundaryParams.LAST_POW_BLOCK ≤ L ∧ L < p := fun p hp => by
    have h2 : IsLastPoA boundaryParams auditChain auditChain.height 2 := by decide
    obtain rfl := hp.unique h2
    exact ⟨by decide, 1, by decide, by decide, by decide⟩
  exact ⟨by decide, GetListOfPoSInfo_correct (by decide) (by decide) (by decide) hlast
    fun _ _ _ => rfl⟩

end Prcy
