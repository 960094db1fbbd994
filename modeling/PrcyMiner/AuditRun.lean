import PrcyMiner.Audit

/-!
# Runs of PoS and PoA blocks: the audit invariant

A run starts from an active chain with no PoA block whose blocks above
`LAST_POW_BLOCK` are PoS, and connects one block at a time: a PoS block, or
the PoA template `CreateNewPoABlock` builds on the tip.  Along every run
(`ChainReach.auditInv`) the PoA blocks audit, between them, every PoS block
up to the last audited height exactly once and in order, and each links to
the one before it.

* `AuditInv.init`, `AuditInv.push_pos`, `AuditInv.push_poa`: the invariant
  holds at the start and one step of either kind keeps it.
* `ChainReach_audits`: what the invariant says of every reachable chain.
-/

namespace Prcy

/-! ## Connecting a block -/

/-- The audit heights of a block: its audit list if it is a PoA block. -/
def CBlock.auditHeights (P : ChainParams) (b : CBlock) : List Nat :=
  if b.IsPoABlockByVersion P then b.posBlocksAudited.map (·.height) else []

namespace ActiveChain

/-- The audit heights of all PoA blocks, in chain order. -/
def allAudited (P : ChainParams) (c : ActiveChain) : List Nat :=
  c.blocks.flatMap (·.auditHeights P)

variable {N : Node} {P : ChainParams} {c : ActiveChain} {b : CBlock}
  {hb : c.blocks.length < 2 ^ 31}

theorem push_getElem? (k : Nat) :
    (c.push b hb).blocks[k]? = if k = c.blocks.length then some b else c.blocks[k]? := by
  simp only [push]
  split_ifs with h
  · simp [h]
  · rcases Nat.lt_or_gt_of_ne h with h | h
    · exact List.getElem?_append_left h
    · rw [List.getElem?_eq_none (by simp; omega), List.getElem?_eq_none (by omega)]

theorem isPoAAt_push (k : Nat) : (c.push b hb).isPoAAt P k =
    if k = c.blocks.length then b.IsPoABlockByVersion P else c.isPoAAt P k := by
  simp only [isPoAAt, push_getElem?]
  split_ifs <;> rfl

theorem isPoSAt_push (k : Nat) : (c.push b hb).isPoSAt N k =
    if k = c.blocks.length then b.IsProofOfStake N else c.isPoSAt N k := by
  simp only [isPoSAt, push_getElem?]
  split_ifs <;> rfl

theorem blockAt_push (k : Nat) :
    (c.push b hb).blockAt k = if k = c.blocks.length then b else c.blockAt k := by
  simp only [blockAt, push_getElem?]
  split_ifs <;> rfl

@[simp] theorem push_height : (c.push b hb).height = c.blocks.length := by
  simp [push, height]

@[simp] theorem push_length : (c.push b hb).blocks.length = c.blocks.length + 1 := by
  simp [push]

theorem height_eq (c : ActiveChain) : c.height = c.blocks.length - 1 := rfl

theorem allAudited_push : (c.push b hb).allAudited P = c.allAudited P ++ b.auditHeights P := by
  simp [allAudited, push]

theorem isPoAAt_of_le {k : Nat} (hk : c.blocks.length ≤ k) : c.isPoAAt P k = false := by
  simp [isPoAAt, List.getElem?_eq_none hk]

theorem length_pos (c : ActiveChain) : 0 < c.blocks.length := List.length_pos.2 c.nonempty

theorem isPoAAt_lt {k : Nat} (hk : c.isPoAAt P k = true) : k < c.blocks.length :=
  Nat.lt_of_not_le fun h => by simp [isPoAAt_of_le h] at hk

/-- A PoA height of the chain with `b` connected: `b` itself, or an old PoA
block, unchanged. -/
theorem isPoAAt_push_cases {k : Nat} (hk : (c.push b hb).isPoAAt P k = true) :
    (k = c.blocks.length ∧ (c.push b hb).blockAt k = b) ∨
      (k < c.blocks.length ∧ c.isPoAAt P k = true ∧ (c.push b hb).blockAt k = c.blockAt k) := by
  rw [isPoAAt_push] at hk
  rw [blockAt_push]
  split_ifs at hk ⊢ with h
  · exact .inl ⟨h, rfl⟩
  · exact .inr ⟨isPoAAt_lt hk, hk, rfl⟩

/-- An audit height of the chain is one of a PoA block's. -/
theorem mem_allAudited {h : Nat} (hh : h ∈ c.allAudited P) :
    ∃ p, c.isPoAAt P p = true ∧ ∃ s ∈ (c.blockAt p).posBlocksAudited, s.height = h := by
  obtain ⟨b, hbm, hh⟩ := List.mem_flatMap.1 hh
  obtain ⟨p, hp, rfl⟩ := List.getElem_of_mem hbm
  have hget := c.getElem?_eq_blockAt hp
  rw [List.getElem?_eq_getElem hp, Option.some.injEq] at hget
  unfold CBlock.auditHeights at hh
  split_ifs at hh with hpoa
  · refine ⟨p, by rw [c.isPoAAt_of_lt P hp, ← hget, hpoa], ?_⟩
    simpa [← hget] using hh
  · cases hh

end ActiveChain

/-- `q` is the PoA block before height `p`: the greatest PoA height below `p`. -/
def IsPrevPoA (P : ChainParams) (c : ActiveChain) (p q : Nat) : Prop :=
  q < p ∧ c.isPoAAt P q = true ∧ ∀ k < p, q < k → c.isPoAAt P k = false

theorem isPrevPoA_push {P : ChainParams} {c : ActiveChain} {b : CBlock}
    {hb : c.blocks.length < 2 ^ 31} {p q : Nat} (hp : p ≤ c.blocks.length) :
    IsPrevPoA P (c.push b hb) p q ↔ IsPrevPoA P c p q := by
  have e : ∀ k < p, (c.push b hb).isPoAAt P k = c.isPoAAt P k := fun k hk => by
    rw [ActiveChain.isPoAAt_push, if_neg (by omega)]
  unfold IsPrevPoA
  constructor
  · rintro ⟨hq, hpoa, hk⟩
    exact ⟨hq, e q hq ▸ hpoa, fun k hkp hqk => e k hkp ▸ hk k hkp hqk⟩
  · rintro ⟨hq, hpoa, hk⟩
    exact ⟨hq, (e q hq).symm ▸ hpoa, fun k hkp hqk => (e k hkp).symm ▸ hk k hkp hqk⟩

/-! ## Runs -/

/-- One step of a run: a PoS block, or the PoA template built on the tip, is
connected. -/
inductive ChainStep (N : Node) (P : ChainParams) : ActiveChain → ActiveChain → Prop
  | pos (c : ActiveChain) (b : CBlock) (hb : c.blocks.length < 2 ^ 31) :
      b.IsProofOfStake N = true → b.IsPoABlockByVersion P = false →
      ChainStep N P c (c.push b hb)
  | poa (c : ActiveChain) (spk : CScript) (txPub txPriv : List Nat) (t : CBlockTemplate)
      (hb : c.blocks.length < 2 ^ 31) : CreateNewPoABlock N P c spk txPub txPriv = pure (some t) →
      ChainStep N P c (c.push t.block hb)

/-- The chains a run from `c₀` reaches. -/
inductive ChainReach (N : Node) (P : ChainParams) (c₀ : ActiveChain) : ActiveChain → Prop
  | init : ChainReach N P c₀ c₀
  | step {c c' : ActiveChain} : ChainReach N P c₀ c → ChainStep N P c c' → ChainReach N P c₀ c'

/-- A run's start: no PoA block, and PoS blocks above `LAST_POW_BLOCK`. -/
def InitChain (N : Node) (P : ChainParams) (c : ActiveChain) : Prop :=
  ∀ h < c.blocks.length, c.isPoAAt P h = false ∧ (P.LAST_POW_BLOCK < h → c.isPoSAt N h = true)

instance (N : Node) (P : ChainParams) (c : ActiveChain) : Decidable (InitChain N P c) :=
  inferInstanceAs (Decidable (∀ h < c.blocks.length, _))

/-- The audit invariant. -/
structure AuditInv (N : Node) (P : ChainParams) (c : ActiveChain) : Prop where
  /-- above `LAST_POW_BLOCK` every block is a PoS or a PoA block -/
  kind : ∀ h < c.blocks.length, P.LAST_POW_BLOCK < h →
    c.isPoSAt N h = true ∨ c.isPoAAt P h = true
  pos_not_poa : ∀ h, c.isPoSAt N h = true → c.isPoAAt P h = false
  poa_above : ∀ p, c.isPoAAt P p = true → P.START_POA_BLOCK < p
  audit_size : ∀ p, c.isPoAAt P p = true → (c.blockAt p).posBlocksAudited ≠ [] ∧
    (c.blockAt p).posBlocksAudited.length ≤ P.MAX_NUM_POS_BLOCKS_AUDITED
  audit_pos : ∀ p, c.isPoAAt P p = true → ∀ s ∈ (c.blockAt p).posBlocksAudited,
    P.LAST_POW_BLOCK < s.height ∧ s.height < p ∧ c.isPoSAt N s.height = true
  sorted : (c.allAudited P).Pairwise (· < ·)
  complete : ∀ L, (c.allAudited P).getLast? = some L → ∀ h, P.LAST_POW_BLOCK < h → h ≤ L →
    c.isPoSAt N h = true → h ∈ c.allAudited P
  /-- the last audit height is the last PoA block's -/
  last : ∀ p, IsLastPoA P c c.height p → (c.allAudited P).getLast? = c.lastAudited p
  none_yet : NoPoAUpTo P c c.height → c.allAudited P = []
  link_prev : ∀ p q, c.isPoAAt P p = true → IsPrevPoA P c p q →
    (c.blockAt p).header.hashPrevPoABlock = N.GetHash (c.blockAt q).header
  link_first : ∀ p, c.isPoAAt P p = true → (∀ k < p, c.isPoAAt P k = false) →
    (c.blockAt p).header.hashPrevPoABlock = 0

/-! ## Increasing lists -/

section Increasing

variable {l : List Nat} {L x : Nat}

theorem le_of_mem_of_getLast? (hs : l.Pairwise (· < ·)) (hL : l.getLast? = some L)
    (hx : x ∈ l) : x ≤ L := by
  obtain ⟨l', rfl⟩ := List.getLast?_eq_some_iff.1 hL
  rcases List.mem_append.1 hx with hx | hx
  · exact Nat.le_of_lt ((List.pairwise_append.1 hs).2.2 x hx L (List.mem_singleton_self _))
  · exact Nat.le_of_eq (List.mem_singleton.1 hx)

/-- In an increasing list, whatever is at most the last element of a prefix is
in the prefix. -/
theorem mem_take_of_le_getLast? {k : Nat} (hs : l.Pairwise (· < ·)) (hx : x ∈ l)
    (hL : (l.take k).getLast? = some L) (hxL : x ≤ L) : x ∈ l.take k := by
  rw [← List.take_append_drop k l] at hx hs
  rcases List.mem_append.1 hx with hx | hx
  · exact hx
  · exact absurd hxL (Nat.not_le_of_lt
      ((List.pairwise_append.1 hs).2.2 L (List.mem_of_getLast?_eq_some hL) x hx))

end Increasing

theorem map_height_summaryAt (N : Node) (c : ActiveChain) (l : List Nat) :
    (l.map (c.summaryAt N)).map (·.height) = l := by
  rw [List.map_map]; exact List.map_id'' (fun _ => rfl) l

theorem ActiveChain.mem_posHeights {N : Node} {c : ActiveChain} {a b h : Nat} :
    h ∈ c.posHeights N a b ↔ (a ≤ h ∧ h ≤ b) ∧ c.isPoSAt N h = true := by
  simp only [ActiveChain.posHeights, List.mem_filter, List.mem_range'_1]
  exact and_congr_left fun _ => by omega

theorem CBlock.IsProofOfStake_of_length {N : Node} {b : CBlock} (h : b.vtx.length = 1) :
    b.IsProofOfStake N = false := by
  obtain ⟨tx, htx⟩ := List.length_eq_one.1 h
  simp [CBlock.IsProofOfStake, htx]

/-! ## The invariant along a run -/

theorem AuditInv.init {N : Node} {P : ChainParams} {c : ActiveChain} (h : InitChain N P c) :
    AuditInv N P c := by
  have hno : ∀ k, c.isPoAAt P k = false := fun k =>
    if hk : k < c.blocks.length then (h k hk).1 else c.isPoAAt_of_le (Nat.le_of_not_lt hk)
  have hnil : c.allAudited P = [] := List.eq_nil_iff_forall_not_mem.2 fun x hx => by
    obtain ⟨p, hp, -⟩ := ActiveChain.mem_allAudited hx
    simp [hno p] at hp
  refine ⟨fun k hk hl => .inl ((h k hk).2 hl), fun k _ => hno k, ?_, ?_, ?_, by simp [hnil], ?_,
    ?_, fun _ => hnil, ?_, ?_⟩ <;> simp [hno, hnil, IsLastPoA]

section Step

variable {N : Node} {P : ChainParams} {c : ActiveChain} {hb : c.blocks.length < 2 ^ 31}

/-- **Connecting a PoS block** keeps the invariant: it is audited by no one,
and lies above every audited height. -/
theorem AuditInv.push_pos {b : CBlock} (hinv : AuditInv N P c) (hpos : b.IsProofOfStake N = true)
    (hpoa : b.IsPoABlockByVersion P = false) : AuditInv N P (c.push b hb) := by
  have poa : ∀ k, (c.push b hb).isPoAAt P k = c.isPoAAt P k := fun k => by
    rw [ActiveChain.isPoAAt_push]
    split_ifs with hk
    · rw [hpoa, c.isPoAAt_of_le (by omega)]
    · rfl
  have blk : ∀ {k}, c.isPoAAt P k = true → (c.push b hb).blockAt k = c.blockAt k := fun hk => by
    rw [ActiveChain.blockAt_push, if_neg (Nat.ne_of_lt (ActiveChain.isPoAAt_lt hk))]
  have pos : ∀ k, (c.push b hb).isPoSAt N k = (decide (k = c.blocks.length) || c.isPoSAt N k) :=
    fun k => by rw [ActiveChain.isPoSAt_push]; split_ifs with hk <;> simp [hk, hpos]
  have aud : (c.push b hb).allAudited P = c.allAudited P := by
    simp [ActiveChain.allAudited_push, CBlock.auditHeights, hpoa]
  have lt_of_mem : ∀ h ∈ c.allAudited P, h < c.blocks.length := fun h hh => by
    obtain ⟨p, hp, s, hs, rfl⟩ := ActiveChain.mem_allAudited hh
    have := (hinv.audit_pos p hp s hs).2.1
    have := ActiveChain.isPoAAt_lt hp
    omega
  have hn := c.length_pos
  constructor
  · intro k hk hl
    rw [pos, poa]
    rcases Nat.lt_or_ge k c.blocks.length with hk' | hk'
    · rcases hinv.kind k hk' hl with h | h
      · exact .inl (by rw [h, Bool.or_true])
      · exact .inr h
    · simp [show k = c.blocks.length by simp at hk; omega]
  · intro k hk
    rw [poa]
    rw [pos] at hk
    rcases Bool.or_eq_true_iff.1 hk with hk | hk
    · exact c.isPoAAt_of_le (by simp at hk; omega)
    · exact hinv.pos_not_poa k hk
  · intro p hp; rw [poa] at hp; exact hinv.poa_above p hp
  · intro p hp; rw [poa] at hp; rw [blk hp]; exact hinv.audit_size p hp
  · intro p hp s hs
    rw [poa] at hp; rw [blk hp] at hs
    obtain ⟨h₁, h₂, h₃⟩ := hinv.audit_pos p hp s hs
    exact ⟨h₁, h₂, by rw [pos, h₃, Bool.or_true]⟩
  · rw [aud]; exact hinv.sorted
  · intro L hL h hl hhL hh
    rw [aud] at hL ⊢
    rw [pos] at hh
    rcases Bool.or_eq_true_iff.1 hh with hh | hh
    · have := lt_of_mem L (List.mem_of_getLast?_eq_some hL)
      simp at hh; omega
    · exact hinv.complete L hL h hl hhL hh
  · rintro p ⟨hs, hpn, hp, hk⟩
    rw [poa] at hp
    have hpn : p ≤ c.height := by
      have := ActiveChain.isPoAAt_lt hp; rw [ActiveChain.height_eq]; omega
    rw [aud, hinv.last p ⟨hs, hpn, hp, fun k hk' hpk => by
      rw [← poa]; exact hk k (by simp [ActiveChain.height_eq] at hk' ⊢; omega) hpk⟩]
    simp [ActiveChain.lastAudited, blk hp]
  · intro hno
    rw [aud]
    exact hinv.none_yet fun k hk hs => by
      rw [← poa]; exact hno k (by simp [ActiveChain.height_eq] at hk ⊢; omega) hs
  · intro p q hp hq
    rw [poa] at hp
    have hpn := ActiveChain.isPoAAt_lt hp
    rw [isPrevPoA_push hpn.le] at hq
    rw [blk hp, blk hq.2.1]
    exact hinv.link_prev p q hp hq
  · intro p hp hk
    rw [poa] at hp
    rw [blk hp]
    exact hinv.link_first p hp fun k hkp => by rw [← poa]; exact hk k hkp

/-- What the audit list of a new PoA block, as heights `hs`, must satisfy for
the invariant to survive connecting it. -/
structure AuditExtends (N : Node) (P : ChainParams) (c : ActiveChain) (hs : List Nat) : Prop where
  size : hs.length ≤ P.MAX_NUM_POS_BLOCKS_AUDITED
  pos : ∀ h ∈ hs, P.LAST_POW_BLOCK < h ∧ h < c.blocks.length ∧ c.isPoSAt N h = true
  sorted : (c.allAudited P ++ hs).Pairwise (· < ·)
  complete : ∀ L, hs.getLast? = some L → ∀ h, P.LAST_POW_BLOCK < h → h ≤ L →
    c.isPoSAt N h = true → h ∈ c.allAudited P ++ hs

/-- After a PoA block `p` that audited up to `L`: the next PoS heights. -/
theorem AuditInv.extends_after (hinv : AuditInv N P c) {p L : Nat}
    (hp : IsLastPoA P c c.height p) (hL : c.lastAudited p = some L) (hL₁ : P.LAST_POW_BLOCK < L) :
    AuditExtends N P c ((c.posHeights N (L + 1) c.height).take P.MAX_NUM_POS_BLOCKS_AUDITED) := by
  have hlast : (c.allAudited P).getLast? = some L := (hinv.last p hp).trans hL
  have hsorted : (c.posHeights N (L + 1) c.height).Pairwise (· < ·) :=
    (List.pairwise_lt_range' _ _).filter _
  have hlen := c.height_lt
  refine ⟨List.length_take_le _ _, fun h hh => ?_, ?_, fun L' hL' h hl hhL' hh => ?_⟩
  · obtain ⟨⟨h₁, h₂⟩, h₃⟩ := ActiveChain.mem_posHeights.1 (List.mem_of_mem_take hh)
    exact ⟨by omega, by omega, h₃⟩
  · refine List.pairwise_append.2 ⟨hinv.sorted, hsorted.sublist (List.take_sublist _ _),
      fun x hx y hy => ?_⟩
    have := le_of_mem_of_getLast? hinv.sorted hlast hx
    have := (ActiveChain.mem_posHeights.1 (List.mem_of_mem_take hy)).1.1
    omega
  · rcases le_or_lt h L with hhL | hhL
    · exact List.mem_append_left _ (hinv.complete L hlast h hl hhL hh)
    · have := (ActiveChain.mem_posHeights.1
        (List.mem_of_mem_take (List.mem_of_getLast?_eq_some hL'))).1.2
      exact List.mem_append_right _ (mem_take_of_le_getLast? hsorted
        (ActiveChain.mem_posHeights.2 ⟨⟨hhL, by omega⟩, hh⟩) hL' hhL')

/-- Before any PoA block: the `MAX_NUM_POS_BLOCKS_AUDITED` blocks after
`LAST_POW_BLOCK`, all PoS since no PoA block sits at or below
`START_POA_BLOCK`. -/
theorem AuditInv.extends_first (hinv : AuditInv N P c)
    (hpar : P.LAST_POW_BLOCK + P.MAX_NUM_POS_BLOCKS_AUDITED ≤ P.START_POA_BLOCK)
    (hS : P.START_POA_BLOCK ≤ c.height) (hno : NoPoAUpTo P c c.height) :
    AuditExtends N P c (List.range' (P.LAST_POW_BLOCK + 1) P.MAX_NUM_POS_BLOCKS_AUDITED) := by
  have hlen := c.height_lt
  have hnil := hinv.none_yet hno
  refine ⟨by simp, fun h hh => ?_, by simpa [hnil] using List.pairwise_lt_range' _ _,
    fun L hL h hl hhL _ => ?_⟩
  · have hh := List.mem_range'_1.1 hh
    refine ⟨by omega, by omega, ?_⟩
    rcases hinv.kind h (by omega) (by omega) with hpos | hpoa
    · exact hpos
    · have := hinv.poa_above h hpoa; omega
  · have := List.mem_range'_1.1 (List.mem_of_getLast?_eq_some hL)
    rw [hnil, List.nil_append, List.mem_range'_1]
    omega

/-- The audit a PoA template carries, seen from the invariant: it extends the
chain's audits, and the scan stopped at the last PoA block, or below
`START_POA_BLOCK` when there is none. -/
theorem AuditInv.audit_step (hinv : AuditInv N P c)
    (hpar : P.LAST_POW_BLOCK + P.MAX_NUM_POS_BLOCKS_AUDITED ≤ P.START_POA_BLOCK)
    (hS : P.START_POA_BLOCK ≤ c.height) {r : Nat} {A : List PoSBlockSummary}
    (hget : GetListOfPoSInfo N P c c.height [] = pure (r, A)) (hne : A ≠ []) :
    AuditExtends N P c (A.map (·.height)) ∧ (∀ q, IsLastPoA P c c.height q → r = q) ∧
      (NoPoAUpTo P c c.height → r < P.START_POA_BLOCK) := by
  have haud : ∀ p ≤ c.height, c.isPoAAt P p = true →
      ∃ L, c.lastAudited p = some L ∧ P.LAST_POW_BLOCK < L ∧ L < p := fun p _ hp => by
    have hne' := (hinv.audit_size p hp).1
    have hs := hinv.audit_pos p hp _ (List.getLast_mem hne')
    exact ⟨_, by simp [ActiveChain.lastAudited, List.getLast?_eq_getLast _ hne'], hs.1, hs.2.1⟩
  have hlast : ∀ p, IsLastPoA P c c.height p → P.START_POA_BLOCK < p ∧
      ∃ L, c.lastAudited p = some L ∧ P.LAST_POW_BLOCK ≤ L ∧ L < p := fun p hp =>
    ⟨hinv.poa_above p hp.2.2.1, (haud p hp.2.1 hp.2.2.1).imp fun _ ⟨h₁, h₂, h₃⟩ => ⟨h₁, h₂.le, h₃⟩⟩
  have hMAX : 0 < P.MAX_NUM_POS_BLOCKS_AUDITED := by
    refine Nat.pos_of_ne_zero fun h0 => ?_
    have hno : NoPoAUpTo P c c.height := fun k _ _ => by
      cases hk : c.isPoAAt P k
      · rfl
      · obtain ⟨hne', hle⟩ := hinv.audit_size k hk
        exact absurd (List.eq_nil_of_length_eq_zero (by omega)) hne'
    rcases Nat.eq_zero_or_pos P.START_POA_BLOCK with hS0 | hSpos
    · rw [GetListOfPoSInfo, findPrevPoA_of_start_zero hS0 _ c.height_lt hno, bind_eq_pure] at hget
      obtain ⟨_, h, -⟩ := hget
      exact absurd (liftM_eq_pure.1 h) nofun
    · rw [GetListOfPoSInfo_of_noPoA hSpos hpar hS c.height_lt hno, h0, pure_inj] at hget
      simp only [List.range'_zero, List.map_nil, Prod.mk.injEq] at hget
      exact hne hget.2.symm
  obtain ⟨r', A', hget', hlast', hnone⟩ :=
    GetListOfPoSInfo_cases (N := N) hMAX hpar hS c.height_lt hlast
  obtain ⟨rfl, rfl⟩ := Prod.mk.inj (hget'.eq_of_pure hget)
  rcases lastPoA_or_noPoA P c c.height with ⟨p, hp⟩ | hno
  · obtain ⟨L, hL, hL₁, -⟩ := haud p hp.2.1 hp.2.2.1
    obtain ⟨rfl, rfl⟩ := hlast' p L hp hL
    exact ⟨by rw [map_height_summaryAt]; exact hinv.extends_after hp hL hL₁,
      fun q hq => hp.unique hq, fun hno => absurd hno hp.not_noPoA⟩
  · obtain ⟨hr, rfl⟩ := hnone hno
    exact ⟨by rw [map_height_summaryAt]; exact hinv.extends_first hpar hS hno,
      fun q hq => absurd hno hq.not_noPoA, fun _ => hr⟩

/-- **Connecting the PoA template** keeps the invariant. -/
theorem AuditInv.push_poa {spk : CScript} {txPub txPriv : List Nat} {t : CBlockTemplate}
    (hpar : P.LAST_POW_BLOCK + P.MAX_NUM_POS_BLOCKS_AUDITED ≤ P.START_POA_BLOCK)
    (hinv : AuditInv N P c) (ht : CreateNewPoABlock N P c spk txPub txPriv = pure (some t)) :
    AuditInv N P (c.push t.block hb) := by
  obtain ⟨r, hS, hget, hne, hpoa, hlen1, hprev, -⟩ := CreateNewPoABlock_spec ht
  obtain ⟨ext, hr_last, hr_none⟩ := hinv.audit_step hpar hS hget hne
  have hn : c.height + 1 = c.blocks.length := by have := c.length_pos; rw [c.height_eq]; omega
  have hnotpos := CBlock.IsProofOfStake_of_length (N := N) hlen1
  have poa : ∀ k, (c.push t.block hb).isPoAAt P k =
      (decide (k = c.blocks.length) || c.isPoAAt P k) := fun k => by
    rw [ActiveChain.isPoAAt_push]; split_ifs with hk <;> simp [hk, hpoa]
  have pos : ∀ k, (c.push t.block hb).isPoSAt N k =
      (!decide (k = c.blocks.length) && c.isPoSAt N k) := fun k => by
    rw [ActiveChain.isPoSAt_push]; split_ifs with hk <;> simp [hk, hnotpos]
  have old : ∀ {k}, k ≠ c.blocks.length → (c.push t.block hb).blockAt k = c.blockAt k :=
    fun hk => by rw [ActiveChain.blockAt_push, if_neg hk]
  have new : (c.push t.block hb).blockAt c.blocks.length = t.block := by
    rw [ActiveChain.blockAt_push, if_pos rfl]
  have aud : (c.push t.block hb).allAudited P =
      c.allAudited P ++ t.block.posBlocksAudited.map (·.height) := by
    simp [ActiveChain.allAudited_push, CBlock.auditHeights, hpoa]
  have hlast : ((c.push t.block hb).allAudited P).getLast? =
      (t.block.posBlocksAudited.map (·.height)).getLast? := by
    rw [aud, List.getLast?_append, List.getLast?_map,
      List.getLast?_eq_getLast _ hne, Option.map_some']
    rfl
  have lastPoA_new : ∀ {q}, IsPrevPoA P c c.blocks.length q → IsLastPoA P c c.height q :=
    fun {q} ⟨hq, hqp, hk⟩ => ⟨(hinv.poa_above q hqp).le, by omega, hqp,
      fun k hk' hqk => hk k (by omega) hqk⟩
  constructor
  · intro k hk hl
    rw [pos, poa]
    by_cases hkn : k = c.blocks.length
    · simp [hkn]
    · rcases hinv.kind k (by simp at hk; omega) hl with h | h <;> simp [hkn, h]
  · intro k hk
    rw [pos, Bool.and_eq_true, Bool.not_eq_true', decide_eq_false_iff_not] at hk
    rw [poa, hinv.pos_not_poa k hk.2]
    simp [hk.1]
  · intro p hp
    rcases ActiveChain.isPoAAt_push_cases hp with ⟨rfl, -⟩ | ⟨-, hp, -⟩
    · omega
    · exact hinv.poa_above p hp
  · intro p hp
    rcases ActiveChain.isPoAAt_push_cases hp with ⟨rfl, hbk⟩ | ⟨-, hp, hbk⟩ <;> rw [hbk]
    · exact ⟨hne, by simpa using ext.size⟩
    · exact hinv.audit_size p hp
  · intro p hp s hs
    rcases ActiveChain.isPoAAt_push_cases hp with ⟨rfl, hbk⟩ | ⟨hlt, hp, hbk⟩ <;> rw [hbk] at hs
    · obtain ⟨h₁, h₂, h₃⟩ := ext.pos s.height (List.mem_map_of_mem _ hs)
      exact ⟨h₁, h₂, by rw [pos, h₃]; simp; omega⟩
    · obtain ⟨h₁, h₂, h₃⟩ := hinv.audit_pos p hp s hs
      exact ⟨h₁, h₂, by rw [pos, h₃]; simp; omega⟩
  · rw [aud]; exact ext.sorted
  · intro L hL h hl hhL hh
    rw [hlast] at hL
    rw [pos, Bool.and_eq_true] at hh
    rw [aud]
    exact ext.complete L hL h hl hhL hh.2
  · rintro p ⟨-, hpn, -, hk⟩
    have hpn : p = c.blocks.length := by
      by_contra hne'
      have := hk c.blocks.length (by simp) (by simp at hpn; omega)
      simp [poa] at this
    rw [hlast, hpn, ActiveChain.lastAudited, new, List.getLast?_map]
  · intro hno
    have := hno c.blocks.length (by simp) (by omega)
    simp [poa] at this
  · intro p q hp hq
    rcases ActiveChain.isPoAAt_push_cases hp with ⟨rfl, hbk⟩ | ⟨hlt, hp, hbk⟩
    · rw [isPrevPoA_push le_rfl] at hq
      obtain rfl := hr_last q (lastPoA_new hq)
      rw [hbk, hprev, if_pos (hinv.poa_above r hq.2.1).le, old (Nat.ne_of_lt hq.1)]
    · rw [isPrevPoA_push hlt.le] at hq
      rw [hbk, old (Nat.ne_of_lt (hq.1.trans hlt))]
      exact hinv.link_prev p q hp hq
  · intro p hp hk
    rcases ActiveChain.isPoAAt_push_cases hp with ⟨rfl, hbk⟩ | ⟨hlt, hp, hbk⟩ <;> rw [hbk]
    · have hno : NoPoAUpTo P c c.height := fun k hk' _ => by
        simpa [poa, show k ≠ c.blocks.length by omega] using hk k (by omega)
      rw [hprev, if_neg (Nat.not_le_of_lt (hr_none hno))]
    · exact hinv.link_first p hp fun k hkp => by
        simpa [poa, show k ≠ c.blocks.length by omega] using hk k hkp

end Step

/-- **The audit invariant holds along every run.** -/
theorem ChainReach.auditInv {N : Node} {P : ChainParams} {c₀ c : ActiveChain}
    (hpar : P.LAST_POW_BLOCK + P.MAX_NUM_POS_BLOCKS_AUDITED ≤ P.START_POA_BLOCK)
    (hinit : InitChain N P c₀) (hr : ChainReach N P c₀ c) : AuditInv N P c := by
  induction hr with
  | init => exact AuditInv.init hinit
  | step _ hs ih =>
    cases hs with
    | pos b hb hpos hpoa => exact ih.push_pos hpos hpoa
    | poa spk txPub txPriv t hb ht => exact ih.push_poa hpar ht

/-- **PoA audits along a run.**  In every chain a run reaches, each PoA block
audits between 1 and `MAX_NUM_POS_BLOCKS_AUDITED` blocks, all PoS and below
it; the audits, PoA block by PoA block, are strictly increasing, so no PoS
block is audited twice; every PoS block above `LAST_POW_BLOCK` up to the last
audited height is audited; and each PoA block links to the previous one, or
to null. -/
theorem ChainReach_audits {N : Node} {P : ChainParams} {c₀ c : ActiveChain}
    (hpar : P.LAST_POW_BLOCK + P.MAX_NUM_POS_BLOCKS_AUDITED ≤ P.START_POA_BLOCK)
    (hinit : InitChain N P c₀) (hr : ChainReach N P c₀ c) :
    (∀ p, c.isPoAAt P p = true → 1 ≤ (c.blockAt p).posBlocksAudited.length ∧
      (c.blockAt p).posBlocksAudited.length ≤ P.MAX_NUM_POS_BLOCKS_AUDITED) ∧
    (c.allAudited P).Pairwise (· < ·) ∧
    (∀ p, c.isPoAAt P p = true → ∀ s ∈ (c.blockAt p).posBlocksAudited,
      s.height < p ∧ c.isPoSAt N s.height = true) ∧
    (∀ L, (c.allAudited P).getLast? = some L → ∀ h, P.LAST_POW_BLOCK < h → h ≤ L →
      c.isPoSAt N h = true → h ∈ c.allAudited P) ∧
    (∀ p q, c.isPoAAt P p = true → IsPrevPoA P c p q →
      (c.blockAt p).header.hashPrevPoABlock = N.GetHash (c.blockAt q).header) ∧
    (∀ p, c.isPoAAt P p = true → (∀ k < p, c.isPoAAt P k = false) →
      (c.blockAt p).header.hashPrevPoABlock = 0) :=
  have hinv := hr.auditInv hpar hinit
  ⟨fun p hp => ⟨List.length_pos.2 (hinv.audit_size p hp).1, (hinv.audit_size p hp).2⟩,
    hinv.sorted, fun p hp s hs => (hinv.audit_pos p hp s hs).2, hinv.complete, hinv.link_prev,
    hinv.link_first⟩

/-- The genesis block and one PoS block. -/
def runStart : ActiveChain := ⟨[CBlock.null, posBlock], by simp, by decide⟩

/-- The PoA template `stakeNode` builds on `runStart`. -/
def runTemplate : CBlockTemplate :=
  (((CreateNewPoABlock stakeNode boundaryParams runStart [] [] []).run.bind Except.toOption).join).getD
    ⟨CBlock.null, [], []⟩

/-- `runStart` with its PoA block connected. -/
def runEnd : ActiveChain := runStart.push runTemplate.block (by decide)

theorem runEnd_reach : ChainReach stakeNode boundaryParams runStart runEnd :=
  .step .init (.poa runStart [] [] [] runTemplate (by decide) (by decide))

theorem runEnd_audits :
    boundaryParams.LAST_POW_BLOCK + boundaryParams.MAX_NUM_POS_BLOCKS_AUDITED ≤
      boundaryParams.START_POA_BLOCK ∧
    InitChain stakeNode boundaryParams runStart ∧
    ChainReach stakeNode boundaryParams runStart runEnd ∧
    runEnd.isPoAAt boundaryParams 2 = true ∧
    (∀ p, runEnd.isPoAAt boundaryParams p = true →
      1 ≤ (runEnd.blockAt p).posBlocksAudited.length ∧
      (runEnd.blockAt p).posBlocksAudited.length ≤ boundaryParams.MAX_NUM_POS_BLOCKS_AUDITED) ∧
    (runEnd.allAudited boundaryParams).Pairwise (· < ·) ∧
    (∀ p, runEnd.isPoAAt boundaryParams p = true → ∀ s ∈ (runEnd.blockAt p).posBlocksAudited,
      s.height < p ∧ runEnd.isPoSAt stakeNode s.height = true) ∧
    (∀ L, (runEnd.allAudited boundaryParams).getLast? = some L → ∀ h,
      boundaryParams.LAST_POW_BLOCK < h → h ≤ L → runEnd.isPoSAt stakeNode h = true →
      h ∈ runEnd.allAudited boundaryParams) ∧
    (∀ p q, runEnd.isPoAAt boundaryParams p = true → IsPrevPoA boundaryParams runEnd p q →
      (runEnd.blockAt p).header.hashPrevPoABlock = stakeNode.GetHash (runEnd.blockAt q).header) ∧
    (∀ p, runEnd.isPoAAt boundaryParams p = true → (∀ k < p, runEnd.isPoAAt boundaryParams k = false) →
      (runEnd.blockAt p).header.hashPrevPoABlock = 0) :=
  ⟨by decide, by decide, runEnd_reach, by decide,
    ChainReach_audits (by decide) (by decide) runEnd_reach⟩

end Prcy
