import PrcyMiner.Basic
import Mathlib.Data.List.Perm.Subperm
import Mathlib.Data.List.Nodup
import Mathlib.Data.Prod.Lex

/-!
# Transaction selection in `CreateNewBlock` (lines 261-413)

Two phases.  `collectCandidates` walks the mempool (lines 270-321) and keeps a
transaction as a heap entry when it is not a coinbase or coinstake, is final,
passes the on-chain key-image check, has its inputs in the view and shares no
key image with an earlier candidate.  `selectLoop` then pops the heap
(lines 335-413), applies the size, free-transaction and priority rules and
appends the admitted transactions to the template.

* `selectLoop_spec`: the admitted transactions and those still in the
  heap are always a sub-multiset of the candidates, so every property of the
  candidates that survives taking a sub-multiset holds of what is admitted;
* `collectCandidates_keyImages_nodup`: the candidates' key images are pairwise
  distinct, within one transaction and across two;
* `selectLoop_vecPriority_nil`: the loop empties the heap within as many
  rounds as the heap has entries.

`vecPriority` is kept as the multiset of its entries together with
`heapFor`, the comparator it is currently a heap for: `make_heap` sets it
(lines 331 and 363), `pop_heap` and `push_heap` with that comparator keep it,
and anything else leaves no heap.  `heapFront` gives what `front()` reads: on
a heap for the comparator in force, one of the greatest entries, the library's
choice among them (`Node.heapPick`); on anything else, any entry.
`selectStep_heapOk`: every round keeps `vecPriority` a heap for the mode's
comparator, the switch of lines 360-365 by rebuilding it.  `vOrphan` and
`mapDependers` are never filled (lines 262-263 and 297 declare them, nothing
inserts), which `selectStep_spec` records.
-/

namespace Prcy

/-! ## The priority heap -/

/-- `TxPriorityCompare(byFee)(a, b)`: `a` sorts below `b` in the max-heap. -/
def TxPriorityCompare (byFee : Bool) (a b : TxPriority) : Bool :=
  if byFee then
    if a.feeRate = b.feeRate then a.dPriority < b.dPriority else a.feeRate < b.feeRate
  else
    if a.dPriority = b.dPriority then a.feeRate < b.feeRate else a.dPriority < b.dPriority

/-- The entries no entry sorts above under `lt`. -/
def heapMaxima {α : Type} (lt : α → α → Bool) (l : List α) : List α :=
  l.filter fun a => l.all fun b => !lt a b

/-- `vecPriority.front()` (lines 337-339), read before `pop_heap` with
`TxPriorityCompare(comparer)`.  On a heap for that comparator (`heapFor =
some comparer`) the front is one of the greatest entries, the one the
library moves out (`pick`, an index among them).  On a vector that is not a
heap for it, `pop_heap`'s precondition fails and the front may be any entry. -/
def heapFront (pick : List TxPriority → Nat) (comparer : Bool) (heapFor : Option Bool)
    (l : List TxPriority) : Option TxPriority :=
  let top := if heapFor = some comparer then heapMaxima (TxPriorityCompare comparer) l else l
  top[pick l % top.length]?

theorem foldl_max_mem {α : Type} (lt : α → α → Bool) (l : List α) (a : α) :
    l.foldl (fun b c => if lt b c then c else b) a ∈ a :: l := by
  induction l generalizing a with
  | nil => simp
  | cons c l ih =>
    simp only [List.foldl_cons]
    split
    · exact List.mem_cons_of_mem _ (ih c)
    · rcases List.mem_cons.1 (ih a) with h | h
      · rw [h]; exact List.mem_cons_self _ _
      · exact List.mem_cons_of_mem _ (List.mem_cons_of_mem _ h)

/-- The key `TxPriorityCompare` orders by, lexicographically: (fee rate,
priority) by fee, (priority, fee rate) otherwise. -/
def sortKey (byFee : Bool) (a : TxPriority) : Lex (Int × Int) :=
  toLex (if byFee then (a.feeRate, a.dPriority) else (a.dPriority, a.feeRate))

/-- The lexicographic order on pairs, in the form `TxPriorityCompare` writes it:
the first keys, and the second ones on a tie. -/
theorem decide_toLex_lt (x y u v : Int) :
    decide (toLex (x, y) < toLex (u, v)) = if x = u then decide (y < v) else decide (x < u) := by
  by_cases h : x = u
  · subst h; simp [Prod.Lex.lt_iff]
  · simp [Prod.Lex.lt_iff, h]

/-- `TxPriorityCompare` is the strict order of `sortKey`. -/
theorem TxPriorityCompare_eq (byFee : Bool) :
    TxPriorityCompare byFee = fun a b => decide (sortKey byFee a < sortKey byFee b) := by
  funext a b
  cases byFee <;> simp only [TxPriorityCompare, sortKey, decide_toLex_lt, Bool.false_eq_true, ↓reduceIte]

theorem foldl_max_ge {α β : Type} [LinearOrder β] (key : α → β) (l : List α) (a : α) :
    ∀ x ∈ a :: l, key x ≤ key (l.foldl (fun b c => if decide (key b < key c) then c else b) a) := by
  induction l generalizing a with
  | nil => simp
  | cons c l ih =>
    have hm : key a ≤ key (if decide (key a < key c) then c else a) ∧
        key c ≤ key (if decide (key a < key c) then c else a) := by
      split_ifs with h
      · exact ⟨le_of_lt (of_decide_eq_true h), le_rfl⟩
      · exact ⟨le_rfl, not_lt.1 (of_decide_eq_false (Bool.eq_false_iff.2 h))⟩
    have hm' := ih (if decide (key a < key c) then c else a)
    intro x hx
    rcases List.mem_cons.1 hx with rfl | hx
    · exact hm.1.trans (hm' _ (List.mem_cons_self _ _))
    rcases List.mem_cons.1 hx with rfl | hx
    · exact hm.2.trans (hm' _ (List.mem_cons_self _ _))
    · exact hm' x (List.mem_cons_of_mem _ hx)

/-- An entry is among the greatest exactly when no entry has a larger key. -/
theorem mem_heapMaxima {byFee : Bool} {l : List TxPriority} {m : TxPriority} :
    m ∈ heapMaxima (TxPriorityCompare byFee) l ↔
      m ∈ l ∧ ∀ x ∈ l, sortKey byFee x ≤ sortKey byFee m := by
  simp [heapMaxima, TxPriorityCompare_eq]

/-- A nonempty heap has a greatest entry. -/
theorem heapMaxima_ne_nil {byFee : Bool} {l : List TxPriority} (h : l ≠ []) :
    heapMaxima (TxPriorityCompare byFee) l ≠ [] := by
  obtain ⟨a, l, rfl⟩ := List.exists_cons_of_ne_nil h
  exact List.ne_nil_of_mem (mem_heapMaxima.2
    ⟨foldl_max_mem (fun b c => decide (sortKey byFee b < sortKey byFee c)) l a,
      foldl_max_ge (sortKey byFee) l a⟩)

/-- **The front of a heap is greatest** under the comparator it is a heap
for: what `make_heap` establishes and `pop_heap` relies on. -/
theorem heapFront_max {pick : List TxPriority → Nat} {byFee : Bool} {heapFor : Option Bool}
    {l : List TxPriority} {m : TxPriority} (hh : heapFor = some byFee)
    (h : heapFront pick byFee heapFor l = some m) : ∀ x ∈ l, sortKey byFee x ≤ sortKey byFee m := by
  simp only [heapFront, hh, ↓reduceIte] at h
  exact (mem_heapMaxima.1 (List.getElem?_mem h)).2

theorem heapFront_mem {pick : List TxPriority → Nat} {byFee : Bool} {heapFor : Option Bool}
    {l : List TxPriority} {m : TxPriority} (h : heapFront pick byFee heapFor l = some m) : m ∈ l := by
  simp only [heapFront] at h
  split_ifs at h
  · exact (List.mem_filter.1 (List.getElem?_mem h)).1
  · exact List.getElem?_mem h

@[simp] theorem heapFront_eq_none {pick : List TxPriority → Nat} {byFee : Bool}
    {heapFor : Option Bool} {l : List TxPriority} : heapFront pick byFee heapFor l = none ↔ l = [] := by
  refine ⟨fun h => ?_, fun h => by simp [heapFront, heapMaxima, h]⟩
  by_contra hne
  have hc : (if heapFor = some byFee then heapMaxima (TxPriorityCompare byFee) l else l) ≠ [] := by
    split_ifs
    · exact heapMaxima_ne_nil hne
    · exact hne
  simp only [heapFront, List.getElem?_eq_none_iff] at h
  exact absurd h (Nat.not_le.2 (Nat.mod_lt _ (List.length_pos.2 hc)))

/-! ## Candidates (lines 270-321) -/

/-- Lines 276-289: `false` at the first input whose key image is spent on
chain; the loop leaves at the first blacklisted prevout with the flag still
`true`. -/
def keyImageCheck (N : Node) : List CTxIn → Bool
  | [] => true
  | txin :: rest =>
    if N.IsSpentKeyImage txin.keyImage then false
    else if N.ContainsOutPoint txin.prevout then true
    else keyImageCheck N rest

/-- Lines 310-318: insert each key image into the per-build set `keyImages`,
stopping with `isDuplicate` at the first one already there (the earlier
inserts stay). -/
def insertKeyImages : List Nat → List Nat → Bool × List Nat
  | [], s => (false, s)
  | k :: ks, s => if k ∈ s then (true, s) else insertKeyImages ks (k :: s)

/-- The candidate phase's state: `vecPriority` and the per-build `keyImages`. -/
structure Candidates where
  vecPriority : List TxPriority
  keyImages : List Nat

/-- The tests of lines 273-295 that come before the duplicate check: not a
coinbase or coinstake, final at the next height, key images unspent (as
`keyImageCheck` reads that), inputs in the view.  `pindexPrev` is the tip read
under `LOCK2` (line 257). -/
def passesFilter (N : Node) (pindexPrev : CBlockIndex) (view : CoinsView) (tx : CTransaction) :
    Bool :=
  !N.IsCoinBase tx && !N.IsCoinStake tx && N.IsFinalTx tx (pindexPrev.nHeight + 1) &&
    keyImageCheck N tx.vin && CheckHaveInputs view tx

theorem passesFilter_eq_true {N : Node} {p : CBlockIndex} {view : CoinsView}
    {tx : CTransaction} :
    passesFilter N p view tx = true ↔ N.IsCoinBase tx = false ∧ N.IsCoinStake tx = false ∧
      N.IsFinalTx tx (p.nHeight + 1) = true ∧ keyImageCheck N tx.vin = true ∧
      CheckHaveInputs view tx = true := by
  simp [passesFilter, and_assoc]

/-- `unsigned int nTxSize = ::GetSerializeSize(tx, SER_NETWORK, PROTOCOL_VERSION)`
(lines 301 and 345): the serialized size narrowed to 32 bits. -/
def txSize (N : Node) (tx : CTransaction) : Nat := N.GetSerializeSize tx % 2 ^ 32

/-- The heap entry of lines 302-308 and 320: priority (with the mempool's
delta; `chainActive.Height()` at line 303 is the tip's height) and fee rate. -/
def candidateEntry (N : Node) (pindexPrev : CBlockIndex) (tx : CTransaction) : TxPriority :=
  ⟨N.GetPriority tx pindexPrev.nHeight + (N.mapDeltas (N.txHash tx)).1,
    N.CFeeRate tx.nTxFee (txSize N tx), tx⟩

/-- One mempool entry, lines 272-320. -/
def addCandidate (N : Node) (pindexPrev : CBlockIndex) (view : CoinsView) (c : Candidates)
    (tx : CTransaction) : Candidates :=
  if !passesFilter N pindexPrev view tx then c
  else
    match insertKeyImages tx.keyImages c.keyImages with
    | (true, s) => { c with keyImages := s }
    | (false, s) => ⟨c.vecPriority ++ [candidateEntry N pindexPrev tx], s⟩

/-- Lines 267-321: the heap entries built from the mempool. -/
def collectCandidates (N : Node) (pindexPrev : CBlockIndex) (view : CoinsView) : Candidates :=
  N.mapTx.foldl (addCandidate N pindexPrev view) ⟨[], []⟩

/-! ### Candidate lemmas -/

/-- What `insertKeyImages` does: without a duplicate, the key images were
distinct and new, and they are now in the set; the set only grows. -/
theorem insertKeyImages_spec (ks s : List Nat) :
    (∀ x ∈ s, x ∈ (insertKeyImages ks s).2) ∧
    ((insertKeyImages ks s).1 = false →
      ks.Nodup ∧ (∀ k ∈ ks, k ∉ s) ∧ ∀ k ∈ ks, k ∈ (insertKeyImages ks s).2) := by
  induction ks generalizing s with
  | nil => simp [insertKeyImages]
  | cons k ks ih =>
    unfold insertKeyImages
    split
    · simp_all
    · obtain ⟨hsub, hnew⟩ := ih (k :: s)
      refine ⟨fun x hx => hsub x (List.mem_cons_of_mem _ hx), fun hf => ?_⟩
      obtain ⟨hnd, hfresh, hin⟩ := hnew hf
      refine ⟨List.nodup_cons.2 ⟨fun hk => hfresh k hk (List.mem_cons_self _ _), hnd⟩, ?_, ?_⟩
      · intro x hx hxs
        rcases List.mem_cons.1 hx with rfl | hx
        · contradiction
        · exact hfresh x hx (List.mem_cons_of_mem _ hxs)
      · intro x hx
        rcases List.mem_cons.1 hx with rfl | hx
        · exact hsub _ (List.mem_cons_self _ _)
        · exact hin x hx

/-- The key images of a list of heap entries, in order. -/
def entryKeyImages (l : List TxPriority) : List Nat := l.flatMap (·.tx.keyImages)

/-- The candidate phase's invariant: the candidates' key images are pairwise
distinct and all in the per-build set. -/
def Candidates.Inv (c : Candidates) : Prop :=
  (entryKeyImages c.vecPriority).Nodup ∧ ∀ k ∈ entryKeyImages c.vecPriority, k ∈ c.keyImages

theorem addCandidate_inv (N : Node) (p : CBlockIndex) (view : CoinsView) {c : Candidates}
    (hc : c.Inv) (tx : CTransaction) : (addCandidate N p view c tx).Inv := by
  obtain ⟨hsub, hnew⟩ := insertKeyImages_spec tx.keyImages c.keyImages
  unfold addCandidate
  split
  · exact hc
  · split
    · next s h => exact ⟨hc.1, fun k hk => by simpa [h] using hsub k (hc.2 k hk)⟩
    · next s h =>
      simp only [h, true_implies] at hsub hnew
      obtain ⟨hnd, hfresh, hin⟩ := hnew
      refine ⟨?_, ?_⟩
      · simp only [entryKeyImages, List.flatMap_append, List.flatMap_singleton] at hc ⊢
        exact List.nodup_append.2 ⟨hc.1, by simpa [candidateEntry] using hnd,
          fun k hk hk' => hfresh k (by simpa [candidateEntry] using hk') (hc.2 k hk)⟩
      · intro k hk
        simp only [entryKeyImages, List.flatMap_append, List.flatMap_singleton,
          List.mem_append] at hk
        rcases hk with hk | hk
        · exact hsub k (hc.2 k hk)
        · exact hin k (by simpa [candidateEntry] using hk)

/-- **The candidates share no key image**: within one transaction or across two. -/
theorem collectCandidates_keyImages_nodup (N : Node) (p : CBlockIndex) (view : CoinsView) :
    (entryKeyImages (collectCandidates N p view).vecPriority).Nodup := by
  suffices ∀ (l : List CTransaction) (c : Candidates), c.Inv →
      (l.foldl (addCandidate N p view) c).Inv from
    (this N.mapTx ⟨[], []⟩ ⟨List.nodup_nil, by simp [entryKeyImages]⟩).1
  intro l
  induction l with
  | nil => exact fun c hc => hc
  | cons tx l ih => exact fun c hc => ih _ (addCandidate_inv N p view hc tx)

/-- Every candidate is a mempool transaction that passed the filter, with the
priority and fee rate of lines 302-308. -/
theorem mem_collectCandidates {N : Node} {p : CBlockIndex} {view : CoinsView} {e : TxPriority}
    (he : e ∈ (collectCandidates N p view).vecPriority) :
    e.tx ∈ N.mapTx ∧ passesFilter N p view e.tx = true ∧ e = candidateEntry N p e.tx := by
  suffices ∀ (l : List CTransaction) (c : Candidates), e ∈ (l.foldl (addCandidate N p view) c).vecPriority →
      e ∈ c.vecPriority ∨ (e.tx ∈ l ∧ passesFilter N p view e.tx = true ∧ e = candidateEntry N p e.tx) by
    simpa using this N.mapTx ⟨[], []⟩ he
  intro l
  induction l with
  | nil => exact fun c h => .inl h
  | cons tx l ih =>
    intro c h
    rcases ih _ h with h | ⟨hl, hrest⟩
    · unfold addCandidate at h
      split at h
      · exact .inl h
      · split at h
        · exact .inl h
        · rcases List.mem_append.1 h with h | h
          · exact .inl h
          · rw [List.mem_singleton] at h; subst h
            exact .inr ⟨List.mem_cons_self _ _, by simp_all [candidateEntry], rfl⟩
    · exact .inr ⟨List.mem_cons_of_mem _ hl, hrest⟩

/-! ## The selection loop (lines 325-413) -/

/-- `COrphan`: a transaction waiting for mempool parents (lines 52-63). -/
structure COrphan where
  ptx : CTransaction
  setDependsOn : List Nat
  feeRate : Int
  dPriority : Int
  deriving DecidableEq, Repr

/-- The three size budgets of lines 235-249. -/
structure Budgets where
  nBlockMaxSize : Nat
  nBlockPrioritySize : Nat
  nBlockMinSize : Nat
  deriving DecidableEq, Repr

/-- The loop's state: the heap, the mode and the comparator
`TxPriorityCompare(comparer)`, the running totals, the coins view, the
template being filled, and the orphan arena with `mapDependers` (hash ↦
indices into `vOrphan`).  `heapFor` is the comparator `vecPriority` is a heap
for, if any: what `make_heap` (lines 331, 363) establishes. -/
structure SelState where
  vecPriority : List TxPriority
  fSortedByFee : Bool
  comparer : Bool
  heapFor : Option Bool
  nBlockSize : Nat
  nBlockTx : Nat
  nFees : Int
  view : CoinsView
  tpl : CBlockTemplate
  vOrphan : List COrphan
  mapDependers : List (Nat × List Nat)

/-- `CFeeRate customMinRelayTxFee = CFeeRate(5000)` (line 354). -/
def customMinRelayTxFee : Int := 5000

/-- After `pop_heap` or `push_heap` with `comparer` (lines 340, 408): a heap
for `comparer` stays one; on anything else the precondition fails and the
vector is no heap. -/
def SelState.heapOp (s : SelState) : Option Bool :=
  if s.heapFor = some s.comparer then s.heapFor else none

/-- Lines 403-410 for one orphan index. -/
def wakeOne (hash : Nat) (s : SelState) (i : Nat) : SelState :=
  match s.vOrphan[i]? with
  | none => s
  | some o =>
    if o.setDependsOn = [] then s
    else
      let o' := { o with setDependsOn := o.setDependsOn.filter (· ≠ hash) }
      let s := { s with vOrphan := s.vOrphan.set i o' }
      if o'.setDependsOn = [] then
        { s with
          vecPriority := s.vecPriority ++ [⟨o.dPriority, o.feeRate, o.ptx⟩]
          heapFor := s.heapOp }
      else s

/-- Lines 401-412: the orphans waiting on `hash` drop it; those left with no
parent go onto the heap. -/
def wakeDependers (hash : Nat) (s : SelState) : SelState :=
  match s.mapDependers.lookup hash with
  | none => s
  | some idxs => idxs.foldl (wakeOne hash) s

/-- Lines 380-391: admit `tx`.  (`UpdateCoins` also takes `nHeight`; the view
keeps no coin heights.) -/
def admitTx (N : Node) (s : SelState) (tx : CTransaction) (nTxSize : Nat) :
    SelState :=
  { s with
    view := if N.IsCoinStake tx then UpdateCoins N tx s.view else s.view
    tpl := s.tpl.push tx tx.nTxFee 0
    nBlockSize := s.nBlockSize + nTxSize
    nBlockTx := s.nBlockTx + 1
    nFees := s.nFees + tx.nTxFee }

/-- Lines 358-365: in priority mode, an entry past the priority size or not
allowed free switches the loop to fee mode: the comparator is replaced and
the heap rebuilt with it (`make_heap`, line 363). -/
def prioritySwitch (N : Node) (B : Budgets) (s : SelState) (e : TxPriority) : SelState :=
  if !s.fSortedByFee ∧ (B.nBlockPrioritySize ≤ s.nBlockSize + txSize N e.tx ∨
      N.AllowFree e.dPriority = false) then
    { s with fSortedByFee := true, comparer := true, heapFor := some true }
  else s

/-- Lines 344-412 for the popped entry `e` (the heap already without it). -/
def considerTx (N : Node) (B : Budgets) (s : SelState) (e : TxPriority) :
    SelState :=
  let nTxSize := txSize N e.tx
  if B.nBlockMaxSize ≤ s.nBlockSize + nTxSize then s
  else if s.fSortedByFee ∧ e.feeRate < customMinRelayTxFee ∧
      B.nBlockMinSize ≤ s.nBlockSize + nTxSize then s
  else
    let s := prioritySwitch N B s e
    if !CheckHaveInputs s.view e.tx || !N.CheckInputs e.tx s.view then s
    else wakeDependers (N.txHash e.tx) (admitTx N s e.tx nTxSize)

/-- The entry `front()` reads at lines 337-339. -/
def SelState.front (N : Node) (s : SelState) : Option TxPriority :=
  heapFront N.heapPick s.comparer s.heapFor s.vecPriority

/-- Lines 340-341: `pop_heap` and `pop_back` take the entry `e` off the heap. -/
def SelState.popped (s : SelState) (e : TxPriority) : SelState :=
  { s with vecPriority := s.vecPriority.erase e, heapFor := s.heapOp }

/-- One round of `while (!vecPriority.empty())`. -/
def selectStep (N : Node) (B : Budgets) (s : SelState) : SelState :=
  match s.front N with
  | none => s
  | some e => considerTx N B (s.popped e) e

/-- The loop, run for at most `fuel` rounds. -/
def selectLoop (N : Node) (B : Budgets) : Nat → SelState → SelState
  | 0, s => s
  | fuel + 1, s => if s.vecPriority = [] then s else selectLoop N B fuel (selectStep N B s)

/-! ### Loop lemmas -/

/-- The template with `adm` pushed in order, each with its fee and sig-op count
0 (lines 386-388). -/
def pushAll (t : CBlockTemplate) (adm : List CTransaction) : CBlockTemplate :=
  ⟨{ t.block with vtx := t.block.vtx ++ adm }, t.vTxFees ++ adm.map (·.nTxFee),
    t.vTxSigOps ++ adm.map fun _ => 0⟩

@[simp] theorem pushAll_nil (t : CBlockTemplate) : pushAll t [] = t := by simp [pushAll]

theorem pushAll_append (t : CBlockTemplate) (a b : List CTransaction) :
    pushAll (pushAll t a) b = pushAll t (a ++ b) := by simp [pushAll]

/-- The mode after the priority check of lines 360-365 for the entry `e`. -/
def modeAfter (N : Node) (B : Budgets) (s : SelState) (e : TxPriority) : Bool :=
  if !s.fSortedByFee ∧ (B.nBlockPrioritySize ≤ s.nBlockSize + txSize N e.tx ∨
      N.AllowFree e.dPriority = false) then true else s.fSortedByFee

/-- Lines 346-356: the entry fits under `nBlockMaxSize`, and is not a free
transaction past the minimum size in fee mode. -/
def fitsBlock (N : Node) (B : Budgets) (s : SelState) (e : TxPriority) : Bool :=
  decide (¬B.nBlockMaxSize ≤ s.nBlockSize + txSize N e.tx ∧
    ¬(s.fSortedByFee ∧ e.feeRate < customMinRelayTxFee ∧
      B.nBlockMinSize ≤ s.nBlockSize + txSize N e.tx))

/-- Lines 346-378: the entry fits and its inputs are in the view and check. -/
def admits (N : Node) (B : Budgets) (s : SelState) (e : TxPriority) : Bool :=
  fitsBlock N B s e && CheckHaveInputs s.view e.tx && N.CheckInputs e.tx s.view

section Fields

variable {N : Node} {B : Budgets} {s : SelState} {e e' : TxPriority}

@[simp] theorem modeAfter_popped : modeAfter N B (s.popped e') e = modeAfter N B s e := rfl

@[simp] theorem fitsBlock_popped : fitsBlock N B (s.popped e') e = fitsBlock N B s e := rfl

@[simp] theorem admits_popped : admits N B (s.popped e') e = admits N B s e := rfl

@[simp] theorem SelState.popped_vecPriority : (s.popped e).vecPriority = s.vecPriority.erase e := rfl

@[simp] theorem SelState.popped_mapDependers : (s.popped e).mapDependers = s.mapDependers := rfl

@[simp] theorem SelState.popped_fSortedByFee : (s.popped e).fSortedByFee = s.fSortedByFee := rfl

@[simp] theorem SelState.popped_tpl : (s.popped e).tpl = s.tpl := rfl

@[simp] theorem SelState.popped_nBlockSize : (s.popped e).nBlockSize = s.nBlockSize := rfl

@[simp] theorem SelState.popped_nBlockTx : (s.popped e).nBlockTx = s.nBlockTx := rfl

@[simp] theorem SelState.popped_nFees : (s.popped e).nFees = s.nFees := rfl

/-- The switch changes the mode, the comparator and the heap, and nothing else. -/
theorem prioritySwitch_eq : prioritySwitch N B s e = { s with
    fSortedByFee := modeAfter N B s e
    comparer := if modeAfter N B s e = s.fSortedByFee then s.comparer else true
    heapFor := if modeAfter N B s e = s.fSortedByFee then s.heapFor else some true } := by
  unfold prioritySwitch modeAfter
  split_ifs with h₁ h₂ <;> simp_all

@[simp] theorem prioritySwitch_fSortedByFee :
    (prioritySwitch N B s e).fSortedByFee = modeAfter N B s e := by rw [prioritySwitch_eq]

@[simp] theorem prioritySwitch_view : (prioritySwitch N B s e).view = s.view := by
  rw [prioritySwitch_eq]

@[simp] theorem prioritySwitch_vecPriority :
    (prioritySwitch N B s e).vecPriority = s.vecPriority := by rw [prioritySwitch_eq]

@[simp] theorem prioritySwitch_mapDependers :
    (prioritySwitch N B s e).mapDependers = s.mapDependers := by rw [prioritySwitch_eq]

@[simp] theorem prioritySwitch_tpl : (prioritySwitch N B s e).tpl = s.tpl := by
  rw [prioritySwitch_eq]

@[simp] theorem prioritySwitch_nBlockSize :
    (prioritySwitch N B s e).nBlockSize = s.nBlockSize := by rw [prioritySwitch_eq]

@[simp] theorem prioritySwitch_nBlockTx : (prioritySwitch N B s e).nBlockTx = s.nBlockTx := by
  rw [prioritySwitch_eq]

@[simp] theorem prioritySwitch_nFees : (prioritySwitch N B s e).nFees = s.nFees := by
  rw [prioritySwitch_eq]

@[simp] theorem SelState.front_eq_none : s.front N = none ↔ s.vecPriority = [] :=
  heapFront_eq_none

theorem SelState.front_mem (h : s.front N = some e) : e ∈ s.vecPriority := heapFront_mem h

end Fields

theorem admits_eq_true {N : Node} {B : Budgets} {s : SelState} {e : TxPriority} :
    admits N B s e = true ↔ s.nBlockSize + txSize N e.tx < B.nBlockMaxSize ∧
      ¬(s.fSortedByFee = true ∧ e.feeRate < customMinRelayTxFee ∧
        B.nBlockMinSize ≤ s.nBlockSize + txSize N e.tx) ∧
      CheckHaveInputs s.view e.tx = true ∧ N.CheckInputs e.tx s.view = true := by
  simp only [admits, fitsBlock, Bool.and_eq_true, decide_eq_true_eq, Nat.not_le, and_assoc]

theorem wakeDependers_of_nil {s : SelState} (h : s.mapDependers = []) (hash : Nat) :
    wakeDependers hash s = s := by simp [wakeDependers, h]

/-- **What one popped entry does**: admitted, after the switch of lines
360-365, when it passes every check; otherwise only the switch may happen,
and it does only for an entry that fits. -/
theorem considerTx_eq (N : Node) (B : Budgets) (s : SelState) (e : TxPriority) :
    considerTx N B s e = if admits N B s e then
      wakeDependers (N.txHash e.tx) (admitTx N (prioritySwitch N B s e) e.tx (txSize N e.tx))
    else if fitsBlock N B s e then prioritySwitch N B s e else s := by
  unfold considerTx admits
  cases hf : fitsBlock N B s e
  · have hf' := of_decide_eq_false hf
    by_cases h1 : B.nBlockMaxSize ≤ s.nBlockSize + txSize N e.tx
    · rw [if_pos h1]; rfl
    · rw [if_neg h1, if_pos (not_not.1 fun h2 => hf' ⟨h1, h2⟩)]; rfl
  · obtain ⟨h1, h2⟩ := of_decide_eq_true hf
    dsimp only
    rw [if_neg h1, if_neg h2, prioritySwitch_view]
    cases CheckHaveInputs s.view e.tx <;> cases N.CheckInputs e.tx s.view <;> rfl

/-- One popped entry, with `mapDependers` empty: the heap is untouched and
either nothing or the entry's transaction is pushed. -/
theorem considerTx_eff (N : Node) (B : Budgets) {s : SelState} (hm : s.mapDependers = [])
    (e : TxPriority) : ∃ adm, adm.Sublist [e.tx] ∧
      (considerTx N B s e).tpl = pushAll s.tpl adm ∧
      (considerTx N B s e).vecPriority = s.vecPriority ∧
      (considerTx N B s e).mapDependers = [] := by
  rw [considerTx_eq]
  split
  · rw [wakeDependers_of_nil (by simpa [admitTx] using hm)]
    exact ⟨[e.tx], List.Sublist.refl _, by simp [admitTx, pushAll, CBlockTemplate.push], by
      simp [admitTx], by simpa [admitTx] using hm⟩
  · split <;> exact ⟨[], List.nil_sublist _, by simp, by simp, by simpa using hm⟩

/-! ### The heap invariant -/

/-- The loop's heap invariant: the comparator is the mode's, and
`vecPriority` is a heap for it.  `make_heap` establishes it at line 331 and
again, with the new comparator, at line 363; `pop_heap` needs it. -/
def SelState.HeapOk (s : SelState) : Prop :=
  s.comparer = s.fSortedByFee ∧ s.heapFor = some s.fSortedByFee

section HeapOk

variable {N : Node} {B : Budgets} {s : SelState} {e : TxPriority}

theorem SelState.HeapOk.heapOp (h : s.HeapOk) : s.heapOp = s.heapFor := by
  simp [SelState.heapOp, h.1, h.2]

/-- The front of the loop's heap is greatest under the mode's comparator. -/
theorem SelState.HeapOk.front_max (h : s.HeapOk) (hf : s.front N = some e) :
    ∀ x ∈ s.vecPriority, sortKey s.fSortedByFee x ≤ sortKey s.fSortedByFee e := by
  unfold SelState.front at hf
  rw [h.1] at hf
  exact heapFront_max h.2 hf

/-- Line 363: the switch rebuilds the heap for the new comparator. -/
theorem prioritySwitch_heapOk (h : s.HeapOk) : (prioritySwitch N B s e).HeapOk := by
  unfold prioritySwitch
  split
  · exact ⟨rfl, rfl⟩
  · exact h

/-- Line 408: a push with the comparator in force keeps the heap. -/
theorem wakeOne_heapOk (hash i : Nat) (h : s.HeapOk) : (wakeOne hash s i).HeapOk := by
  unfold wakeOne
  split
  · exact h
  · split
    · exact h
    · dsimp only
      split
      · exact ⟨h.1, by simp [SelState.heapOp, h.1, h.2]⟩
      · exact h

theorem wakeDependers_heapOk (hash : Nat) (h : s.HeapOk) : (wakeDependers hash s).HeapOk := by
  unfold wakeDependers
  split
  · exact h
  · next idxs hl =>
    clear hl
    induction idxs generalizing s with
    | nil => exact h
    | cons i idxs ih => exact ih (wakeOne_heapOk hash i h)

theorem considerTx_heapOk (h : s.HeapOk) : (considerTx N B s e).HeapOk := by
  rw [considerTx_eq]
  split
  · exact wakeDependers_heapOk _ (prioritySwitch_heapOk h)
  · split
    · exact prioritySwitch_heapOk h
    · exact h

/-- **Every round keeps the heap invariant**: a pop keeps a heap for its
comparator one, and the switch rebuilds it. -/
theorem selectStep_heapOk (h : s.HeapOk) : (selectStep N B s).HeapOk := by
  unfold selectStep
  split
  · exact h
  · exact considerTx_heapOk ⟨h.1, h.heapOp.trans h.2⟩

end HeapOk

/-- **One round**: what it pushes and what it leaves on the heap are a
sub-multiset of the heap it started from; the heap shrinks by one. -/
theorem selectStep_spec (N : Node) (B : Budgets) {s : SelState} (hm : s.mapDependers = []) :
    ∃ adm, (selectStep N B s).tpl = pushAll s.tpl adm ∧
      (adm ++ (selectStep N B s).vecPriority.map (·.tx)).Subperm (s.vecPriority.map (·.tx)) ∧
      (selectStep N B s).mapDependers = [] ∧
      (s.vecPriority ≠ [] → (selectStep N B s).vecPriority.length + 1 = s.vecPriority.length) := by
  unfold selectStep
  split
  · next h =>
    refine ⟨[], by simp, List.Subperm.refl _, hm, fun hne => ?_⟩
    exact absurd (SelState.front_eq_none.1 h) hne
  · next e h =>
    have he := SelState.front_mem h
    obtain ⟨adm, hadm, htpl, hvec, hmap⟩ := considerTx_eff N B (s := s.popped e) hm e
    refine ⟨adm, htpl, ?_, hmap, fun _ => ?_⟩
    · rw [hvec, SelState.popped_vecPriority]
      have hp := (List.perm_cons_erase he).map (·.tx)
      refine List.Subperm.trans ?_ hp.symm.subperm
      simp only [List.map_cons]
      exact (List.Sublist.append_right hadm _).subperm
    · rw [hvec, SelState.popped_vecPriority, List.length_erase_of_mem he]
      exact Nat.succ_pred_eq_of_pos (List.length_pos_of_mem he)

/-- **The loop**: after any number of rounds the template is the initial one
with some `adm` pushed, and `adm` together with the heap left is a
sub-multiset of the initial heap. -/
theorem selectLoop_spec (N : Node) (B : Budgets) (fuel : Nat) {s : SelState}
    (hm : s.mapDependers = []) :
    ∃ adm, (selectLoop N B fuel s).tpl = pushAll s.tpl adm ∧
      (adm ++ (selectLoop N B fuel s).vecPriority.map (·.tx)).Subperm
        (s.vecPriority.map (·.tx)) ∧
      (selectLoop N B fuel s).mapDependers = [] := by
  induction fuel generalizing s with
  | zero => exact ⟨[], by simp [selectLoop], List.Subperm.refl _, hm⟩
  | succ fuel ih =>
    unfold selectLoop
    split
    · exact ⟨[], by simp, List.Subperm.refl _, hm⟩
    · obtain ⟨a₁, ht₁, hp₁, hm₁, -⟩ := selectStep_spec N B hm
      obtain ⟨a₂, ht₂, hp₂, hm₂⟩ := ih hm₁
      refine ⟨a₁ ++ a₂, by rw [ht₂, ht₁, pushAll_append], ?_, hm₂⟩
      rw [List.append_assoc]
      exact ((List.subperm_append_left a₁).2 hp₂).trans hp₁

/-- **The loop ends**: with `mapDependers` empty, as many rounds as the heap
has entries empty it. -/
theorem selectLoop_vecPriority_nil (N : Node) (B : Budgets) {fuel : Nat} {s : SelState}
    (hm : s.mapDependers = []) (hf : s.vecPriority.length ≤ fuel) :
    (selectLoop N B fuel s).vecPriority = [] := by
  induction fuel generalizing s with
  | zero => simpa [selectLoop] using hf
  | succ fuel ih =>
    unfold selectLoop
    split
    · assumption
    · next hne =>
      obtain ⟨-, -, -, hm₁, hlen⟩ := selectStep_spec N B hm
      exact ih hm₁ (by have := hlen hne; omega)

end Prcy
