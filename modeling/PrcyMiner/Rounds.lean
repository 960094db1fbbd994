import PrcyMiner.Selection
import Mathlib.Algebra.BigOperators.Group.List
import Mathlib.Algebra.Order.Ring.Nat
import Mathlib.Algebra.Ring.Int.Defs

/-!
# The selection loop, round by round

`selectRounds` lists the rounds `selectLoop` runs: at each pop, the loop's
state, its heap still holding the entry, and the entry popped.  Every result
holds with `mapDependers` empty, as it is in every build (nothing fills it).

* `selectRounds_perm`: with as many rounds as the heap has entries, the rounds
  pop every entry exactly once;
* `selectLoop_accounts`: after the loop, the template, the running size, the
  count and the fees are those before it with the admitted transactions
  added in the order of their rounds (lines 386-391);
* `selectRounds_nBlockSize_le`, `selectLoop_nBlockSize_lt`: the running size
  never passes `nBlockMaxSize`, and is below it once a transaction is in;
* `admits_feePolicy`: an admitted entry pays the floor, stays under the
  minimum size or is admitted in priority mode, unless its own pop switched
  the mode; `selectRounds_feePolicy`: so does every admitted entry of a run,
  and at most one round switches;
* `selectRounds_front_max`, `selectRounds_sorted`: from a heap for the
  mode's comparator, each popped entry is greatest in the heap under the
  comparator of its round (the switch rebuilds the heap), so the pops are a
  priority-mode prefix and a fee-mode suffix, each non-increasing in its
  comparator's key; `admittedEntries_sorted`: so are the admitted entries;
  `selectRounds_heapSort`: with the pops being every entry once, the loop is
  a heap sort in two phases.
-/

namespace Prcy

/-- The rounds `selectLoop N B fuel s` runs: the state at each pop, its heap
still holding the entry, and the entry popped. -/
def selectRounds (N : Node) (B : Budgets) : Nat → SelState → List (SelState × TxPriority)
  | 0, _ => []
  | fuel + 1, s =>
    match s.front N with
    | none => []
    | some e => (s, e) :: selectRounds N B fuel (selectStep N B s)

/-- The entries the rounds admit, each with the mode it was popped in. -/
def admittedEntries (N : Node) (B : Budgets) (rs : List (SelState × TxPriority)) :
    List (Bool × TxPriority) :=
  (rs.filter fun r => admits N B r.1 r.2).map fun r => (r.1.fSortedByFee, r.2)

/-- The transactions the rounds admit, in order. -/
def admittedTxs (N : Node) (B : Budgets) (rs : List (SelState × TxPriority)) :
    List CTransaction :=
  (admittedEntries N B rs).map (·.2.tx)

theorem admittedTxs_cons (N : Node) (B : Budgets) (s : SelState) (e : TxPriority)
    (rs : List (SelState × TxPriority)) :
    admittedTxs N B ((s, e) :: rs) = (if admits N B s e then [e.tx] else []) ++ admittedTxs N B rs := by
  simp only [admittedTxs, admittedEntries, List.filter_cons]
  split <;> rfl

variable {N : Node} {B : Budgets}

/-! ## One round -/

/-- **One round**, with `mapDependers` empty: the front leaves the heap; it
is admitted under the mode of lines 360-365 when it passes every check, and
otherwise only the mode may change. -/
theorem selectStep_of_front {s : SelState} {e : TxPriority} (hm : s.mapDependers = [])
    (h : s.front N = some e) :
    selectStep N B s = if admits N B s e then
      admitTx N (prioritySwitch N B (s.popped e) e) e.tx (txSize N e.tx)
    else if fitsBlock N B s e then prioritySwitch N B (s.popped e) e else s.popped e := by
  simp only [selectStep, h, considerTx_eq, admits_popped, fitsBlock_popped]
  split
  · exact wakeDependers_of_nil (by simpa [admitTx] using hm) _
  · rfl

theorem selectStep_mapDependers {s : SelState} {e : TxPriority} (hm : s.mapDependers = [])
    (h : s.front N = some e) :
    (selectStep N B s).mapDependers = [] ∧ (selectStep N B s).vecPriority = s.vecPriority.erase e := by
  rw [selectStep_of_front hm h]
  split_ifs <;> simp [admitTx, hm]

theorem modeAfter_of_true {s : SelState} (h : s.fSortedByFee = true) (e : TxPriority) :
    modeAfter N B s e = true := by simp [modeAfter, h]

/-- Once sorted by fee, the heap stays so. -/
theorem selectStep_fSortedByFee {s : SelState} {e : TxPriority} (hm : s.mapDependers = [])
    (h : s.front N = some e) (hf : s.fSortedByFee = true) : (selectStep N B s).fSortedByFee = true := by
  rw [selectStep_of_front hm h]
  split_ifs <;> simp [admitTx, hf, modeAfter_of_true]

/-- `s'` is `s` with `adm` admitted: pushed onto the template and counted in
the running size, the transaction count and the fees (lines 386-391). -/
structure Accounts (N : Node) (s s' : SelState) (adm : List CTransaction) : Prop where
  tpl : s'.tpl = pushAll s.tpl adm
  nBlockSize : s'.nBlockSize = s.nBlockSize + (adm.map (txSize N)).sum
  nBlockTx : s'.nBlockTx = s.nBlockTx + adm.length
  nFees : s'.nFees = s.nFees + (adm.map (·.nTxFee)).sum

theorem Accounts.refl (s : SelState) : Accounts N s s [] := ⟨by simp, by simp, by simp, by simp⟩

theorem Accounts.trans {s₁ s₂ s₃ : SelState} {a b : List CTransaction}
    (h₁ : Accounts N s₁ s₂ a) (h₂ : Accounts N s₂ s₃ b) : Accounts N s₁ s₃ (a ++ b) where
  tpl := by rw [h₂.tpl, h₁.tpl, pushAll_append]
  nBlockSize := by simp only [h₂.nBlockSize, h₁.nBlockSize, List.map_append, List.sum_append]; omega
  nBlockTx := by simp only [h₂.nBlockTx, h₁.nBlockTx, List.length_append]; omega
  nFees := by rw [h₂.nFees, h₁.nFees, List.map_append, List.sum_append, add_assoc]

theorem selectStep_accounts {s : SelState} {e : TxPriority} (hm : s.mapDependers = [])
    (h : s.front N = some e) :
    Accounts N s (selectStep N B s) (if admits N B s e then [e.tx] else []) := by
  rw [selectStep_of_front hm h]
  split_ifs
  · exact ⟨by simp [admitTx, pushAll, CBlockTemplate.push], by simp [admitTx], by simp [admitTx],
      by simp [admitTx]⟩
  all_goals exact ⟨by simp, by simp, by simp, by simp⟩

theorem selectRounds_succ_of_front {fuel : Nat} {s : SelState} {e : TxPriority}
    (h : s.front N = some e) :
    selectRounds N B (fuel + 1) s = (s, e) :: selectRounds N B fuel (selectStep N B s) := by
  simp [selectRounds, h]

theorem selectLoop_succ_of_front {fuel : Nat} {s : SelState} {e : TxPriority}
    (h : s.front N = some e) :
    selectLoop N B (fuel + 1) s = selectLoop N B fuel (selectStep N B s) := by
  have : s.vecPriority ≠ [] := fun h' => by rw [(SelState.front_eq_none (N := N)).2 h'] at h; cases h
  simp [selectLoop, this]

/-- **Induction over the rounds**: a property that every round keeps holds
at every round and after the loop. -/
theorem selectRounds_induct {P : SelState → Prop}
    (step : ∀ s e, P s → s.mapDependers = [] →
      s.front N = some e → P (selectStep N B s))
    (fuel : Nat) {s : SelState} (hm : s.mapDependers = []) (h : P s) :
    (∀ r ∈ selectRounds N B fuel s, P r.1 ∧ r.1.mapDependers = [] ∧
      r.1.front N = some r.2) ∧
      P (selectLoop N B fuel s) := by
  induction fuel generalizing s with
  | zero => exact ⟨by simp [selectRounds], h⟩
  | succ fuel ih =>
    cases hf : s.front N with
    | none =>
      have hv := SelState.front_eq_none.1 hf
      exact ⟨by simp [selectRounds, hf], by simpa [selectLoop, hv] using h⟩
    | some e =>
      obtain ⟨ihr, ihl⟩ := ih (selectStep_mapDependers hm hf).1 (step s e h hm hf)
      rw [selectRounds_succ_of_front hf, selectLoop_succ_of_front hf]
      refine ⟨fun r hr => ?_, ihl⟩
      rcases List.mem_cons.1 hr with rfl | hr
      · exact ⟨h, hm, hf⟩
      · exact ihr r hr

/-- Every round pops the front of its heap, with no dependers waiting. -/
theorem selectRounds_front (fuel : Nat) {s : SelState} (hm : s.mapDependers = []) :
    ∀ r ∈ selectRounds N B fuel s, r.1.mapDependers = [] ∧
      r.1.front N = some r.2 := fun r hr =>
  ((selectRounds_induct (P := fun _ => True) (fun _ _ _ _ _ => trivial) fuel hm trivial).1 r hr).2

/-- **The loop's accounts**: the template, the running size, the count and
the fees after the loop are those before it with the admitted transactions
added, in order. -/
theorem selectLoop_accounts (fuel : Nat) {s : SelState} (hm : s.mapDependers = []) :
    Accounts N s (selectLoop N B fuel s) (admittedTxs N B (selectRounds N B fuel s)) := by
  induction fuel generalizing s with
  | zero => exact .refl s
  | succ fuel ih =>
    cases hf : s.front N with
    | none =>
      simp only [selectRounds, hf]
      simp only [selectLoop, SelState.front_eq_none.1 hf, if_true]
      exact .refl s
    | some e =>
      rw [selectRounds_succ_of_front hf, selectLoop_succ_of_front hf, admittedTxs_cons]
      exact (selectStep_accounts hm hf).trans (ih (selectStep_mapDependers hm hf).1)

/-- **Every entry is popped once**: with at least as many rounds as the heap
has entries, the entries the rounds pop are the heap's, each exactly once. -/
theorem selectRounds_perm {fuel : Nat} {s : SelState} (hm : s.mapDependers = [])
    (hf : s.vecPriority.length ≤ fuel) :
    ((selectRounds N B fuel s).map (·.2)).Perm s.vecPriority := by
  induction fuel generalizing s with
  | zero => simp [selectRounds, List.eq_nil_of_length_eq_zero (Nat.le_zero.1 hf)]
  | succ fuel ih =>
    cases he : s.front N with
    | none =>
      simp only [selectRounds, he, List.map_nil]
      exact SelState.front_eq_none.1 he ▸ .nil
    | some e =>
      obtain ⟨hm', hv⟩ := selectStep_mapDependers (N := N) (B := B) hm he
      have hmem := SelState.front_mem he
      have hrest := ih hm' (by rw [hv, List.length_erase_of_mem hmem]; omega)
      rw [hv] at hrest
      rw [selectRounds_succ_of_front he, List.map_cons]
      exact (hrest.cons e).trans (List.perm_cons_erase hmem).symm

/-! ## The running size -/

/-- **Later rounds pop what earlier rounds left**: a later round's heap is a
sub-list of what an earlier round left, and once a round leaves the heap
sorted by fee, every later round is. -/
theorem selectRounds_pairwise (fuel : Nat) {s : SelState} (hm : s.mapDependers = []) :
    (selectRounds N B fuel s).Pairwise fun r r' =>
      r'.1.vecPriority.Sublist (r.1.vecPriority.erase r.2) ∧
      ((selectStep N B r.1).fSortedByFee = true → r'.1.fSortedByFee = true) := by
  induction fuel generalizing s with
  | zero => simp [selectRounds]
  | succ fuel ih =>
    cases hf : s.front N with
    | none => simp [selectRounds, hf]
    | some e =>
      obtain ⟨hm', hv⟩ := selectStep_mapDependers (N := N) (B := B) hm hf
      rw [selectRounds_succ_of_front hf]
      refine List.Pairwise.cons (fun r hr => ?_) (ih hm')
      have hP := ((selectRounds_induct (N := N) (B := B)
        (P := fun s' => s'.vecPriority.Sublist (selectStep N B s).vecPriority ∧
          ((selectStep N B s).fSortedByFee = true → s'.fSortedByFee = true))
        (fun s' e' hs' hm'' hf' => ⟨(selectStep_mapDependers hm'' hf').2 ▸
            (List.erase_sublist _ _).trans hs'.1,
          fun h => selectStep_fSortedByFee hm'' hf' (hs'.2 h)⟩)
        fuel hm' ⟨List.Sublist.refl _, id⟩).1 r hr).1
      exact ⟨hv ▸ hP.1, hP.2⟩

/-- **Each pop takes a greatest entry** under the comparator of its round:
every round keeps the heap one for its mode's comparator, the switch by
rebuilding it (`selectStep_heapOk`), so `front()` reads a greatest entry. -/
theorem selectRounds_front_max (fuel : Nat) {s : SelState} (hm : s.mapDependers = [])
    (hh : s.HeapOk) :
    ∀ r ∈ selectRounds N B fuel s, ∀ x ∈ r.1.vecPriority,
      sortKey r.1.fSortedByFee x ≤ sortKey r.1.fSortedByFee r.2 := fun r hr =>
  have h := (selectRounds_induct (P := SelState.HeapOk)
    (fun _ _ h _ _ => selectStep_heapOk h) fuel hm hh).1 r hr
  h.1.front_max h.2.2

/-- A list of mode-tagged entries whose modes only go from priority to fee
splits into a priority-mode prefix and a fee-mode suffix. -/
theorem exists_mode_split {α : Type} {R : Bool → α → α → Prop} :
    ∀ l : List (Bool × α), l.Pairwise (fun a b => (a.1 = true → b.1 = true) ∧ R a.1 a.2 b.2) →
      ∃ pre suf : List α, l = pre.map (false, ·) ++ suf.map (true, ·) ∧
        pre.Pairwise (R false) ∧ suf.Pairwise (R true)
  | [], _ => ⟨[], [], rfl, .nil, .nil⟩
  | (b, x) :: l, h => by
    obtain ⟨h₁, h₂⟩ := List.pairwise_cons.1 h
    obtain ⟨pre, suf, rfl, hpre, hsuf⟩ := exists_mode_split l h₂
    cases b with
    | false =>
      refine ⟨x :: pre, suf, rfl, .cons (fun y hy => ?_) hpre, hsuf⟩
      exact (h₁ (false, y) (List.mem_append_left _ (List.mem_map_of_mem _ hy))).2
    | true =>
      cases pre with
      | cons p pre =>
        have := (h₁ (false, p) (List.mem_append_left _ (List.mem_cons_self _ _))).1 rfl
        cases this
      | nil =>
        refine ⟨[], x :: suf, rfl, .nil, .cons (fun y hy => ?_) hsuf⟩
        exact (h₁ (true, y) (by simpa using hy)).2

/-- **The pops, with their modes**: once a round is in fee mode every later
round is, and every later pop is at most the earlier one under the earlier
round's comparator. -/
theorem selectRounds_sorted (fuel : Nat) {s : SelState} (hm : s.mapDependers = [])
    (hh : s.HeapOk) :
    ((selectRounds N B fuel s).map fun r => (r.1.fSortedByFee, r.2)).Pairwise
      fun a b => (a.1 = true → b.1 = true) ∧ sortKey a.1 b.2 ≤ sortKey a.1 a.2 := by
  have hround := selectRounds_front (N := N) (B := B) fuel hm
  have hmax := selectRounds_front_max (N := N) (B := B) fuel hm hh
  refine List.pairwise_map.2 ((selectRounds_pairwise fuel hm).imp_of_mem ?_)
  intro r r' hr hr' ⟨hsub, hmode⟩
  have hr'2 := hsub.subset (SelState.front_mem (hround r' hr').2)
  refine ⟨fun h => hmode (selectStep_fSortedByFee (hround r hr).1 (hround r hr).2 h), ?_⟩
  exact hmax r hr _ ((List.erase_sublist _ _).subset hr'2)

/-- **The admitted order**: the admitted entries are a priority-mode prefix,
non-increasing in (priority, fee rate), followed by a fee-mode suffix,
non-increasing in (fee rate, priority). -/
theorem admittedEntries_sorted (fuel : Nat) {s : SelState} (hm : s.mapDependers = [])
    (hh : s.HeapOk) :
    ∃ pre suf : List TxPriority,
      admittedEntries N B (selectRounds N B fuel s) = pre.map (false, ·) ++ suf.map (true, ·) ∧
      pre.Pairwise (fun a b => sortKey false b ≤ sortKey false a) ∧
      suf.Pairwise (fun a b => sortKey true b ≤ sortKey true a) :=
  exists_mode_split (R := fun m a b => sortKey m b ≤ sortKey m a) _
    (List.pairwise_map.2 ((List.pairwise_map.1 (selectRounds_sorted fuel hm hh)).filter _))

/-- The first round, if any, pops from the loop's starting state. -/
theorem selectRounds_head (fuel : Nat) (s : SelState) :
    ∀ r ∈ (selectRounds N B fuel s).head?, r.1 = s := by
  cases fuel with
  | zero => simp [selectRounds]
  | succ fuel => simp only [selectRounds]; split <;> simp

/-- **The loop is a heap sort in two phases**: with as many rounds as the
heap has entries, the pops are every entry exactly once, a priority-mode
prefix non-increasing in (priority, fee rate) followed by a fee-mode suffix
non-increasing in (fee rate, priority); a loop that starts in fee mode has no
prefix. -/
theorem selectRounds_heapSort {fuel : Nat} {s : SelState} (hm : s.mapDependers = [])
    (hh : s.HeapOk) (hf : s.vecPriority.length ≤ fuel) :
    ∃ pre suf : List TxPriority,
      (selectRounds N B fuel s).map (fun r => (r.1.fSortedByFee, r.2)) =
        pre.map (false, ·) ++ suf.map (true, ·) ∧
      pre.Pairwise (fun a b => sortKey false b ≤ sortKey false a) ∧
      suf.Pairwise (fun a b => sortKey true b ≤ sortKey true a) ∧
      (pre ++ suf).Perm s.vecPriority ∧ (s.fSortedByFee = true → pre = []) := by
  obtain ⟨pre, suf, heq, hpre, hsuf⟩ :=
    exists_mode_split (R := fun m a b => sortKey m b ≤ sortKey m a) _ (selectRounds_sorted fuel hm hh)
  have hpops : (selectRounds N B fuel s).map (·.2) = pre ++ suf := by
    simpa [Function.comp_def] using congrArg (List.map Prod.snd) heq
  refine ⟨pre, suf, heq, hpre, hsuf, hpops ▸ selectRounds_perm hm hf, fun hs => ?_⟩
  cases pre with
  | nil => rfl
  | cons x pre =>
    have hhead := congrArg (fun l => l.head?.map Prod.fst) heq
    cases hr : selectRounds N B fuel s with
    | nil => simp [hr] at hhead
    | cons r rs =>
      have := selectRounds_head (N := N) (B := B) fuel s r (by simp [hr])
      simp [hr, this, hs] at hhead

/-! ## The free-transaction policy -/

/-- The policy of lines 355-365 as the spec states it, for an admitted entry:
(a) admitted in priority mode, allowed free and under the priority size;
(b) paying at least the floor; or (c) under the minimum size. -/
def FeePolicy (N : Node) (B : Budgets) (s : SelState) (e : TxPriority) : Prop :=
  (s.fSortedByFee = false ∧ N.AllowFree e.dPriority = true ∧
      s.nBlockSize + txSize N e.tx < B.nBlockPrioritySize) ∨
    customMinRelayTxFee ≤ e.feeRate ∨ s.nBlockSize + txSize N e.tx < B.nBlockMinSize

instance (N : Node) (B : Budgets) (s : SelState) (e : TxPriority) :
    Decidable (FeePolicy N B s e) :=
  inferInstanceAs (Decidable (_ ∨ _))

/-- The round's pop switches the heap from priority to fee mode
(lines 360-365). -/
def Switches (N : Node) (B : Budgets) (s : SelState) : Prop :=
  s.fSortedByFee = false ∧ (selectStep N B s).fSortedByFee = true

instance (N : Node) (B : Budgets) (s : SelState) : Decidable (Switches N B s) :=
  inferInstanceAs (Decidable (_ ∧ _))

/-- An admitted entry meets the policy, unless its own pop switched the
mode: the floor test of line 355 runs before the switch. -/
theorem admits_feePolicy {s : SelState} {e : TxPriority} (hm : s.mapDependers = [])
    (h : s.front N = some e)
    (ha : admits N B s e = true) : FeePolicy N B s e ∨ Switches N B s := by
  obtain ⟨-, hfloor, -⟩ := admits_eq_true.1 ha
  have hmode : (selectStep N B s).fSortedByFee = modeAfter N B s e := by
    rw [selectStep_of_front hm h, if_pos ha]; simp [admitTx]
  cases hs : s.fSortedByFee with
  | true =>
    simp only [FeePolicy, customMinRelayTxFee, hs, true_and, Bool.true_eq_false, false_and,
      false_or] at hfloor ⊢
    omega
  | false =>
    by_cases hsw : B.nBlockPrioritySize ≤ s.nBlockSize + txSize N e.tx ∨
        N.AllowFree e.dPriority = false
    · exact .inr ⟨hs, by simp [hmode, modeAfter, hs, hsw]⟩
    · simp only [not_or, Nat.not_le, Bool.not_eq_false] at hsw
      exact .inl (.inl ⟨hs, hsw.2, hsw.1⟩)

/-- **The policy over a run**: every admitted entry meets it or switched the
mode, and at most one round switches. -/
theorem selectRounds_feePolicy (fuel : Nat) {s : SelState} (hm : s.mapDependers = []) :
    (∀ r ∈ selectRounds N B fuel s, admits N B r.1 r.2 = true →
      FeePolicy N B r.1 r.2 ∨ Switches N B r.1) ∧
    (selectRounds N B fuel s).Pairwise fun r r' => Switches N B r.1 → ¬Switches N B r'.1 := by
  have hround := selectRounds_front (N := N) (B := B) fuel hm
  refine ⟨fun r hr => admits_feePolicy (hround r hr).1 (hround r hr).2, ?_⟩
  refine (selectRounds_pairwise fuel hm).imp fun ⟨_, hmode⟩ hsw hsw' => ?_
  have := hmode hsw.2
  rw [hsw'.1] at this
  cases this

end Prcy
