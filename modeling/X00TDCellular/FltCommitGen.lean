import X00TDCellular.FltCommitTables

/-! The second pass over the tables of a family: every table with rules gets fresh memory,
and what the hardware reads stays as it is. -/

namespace X00TDCellular
open Function

/-- The table has a header word in one of the two buffers. -/
def FltTblKey.Addressed : FltTblKey → Prop
  | .glob _ => True
  | .ep idx _ => idx < 6 ∨ 11 ≤ idx ∧ idx < 20

namespace FltHeads

/-- The header word of a table. -/
def get (heads : FltHeads) : FltTblKey → UInt32
  | .glob _ => heads.head1.getD 0 0
  | .ep idx _ => if idx < 6 then heads.head1.getD (1+idx) 0 else heads.head2.getD (idx-11) 0

structure WellFormed (heads : FltHeads) : Prop where
  head1 : heads.head1.length = 7
  head2 : heads.head2.length = 9

theorem wellFormed_start (cfg : FltHwCfg) : (start cfg).WellFormed := ⟨rfl, rfl⟩

theorem get_start (cfg : FltHwCfg) {k : FltTblKey} (hk : k.Addressed) :
    (start cfg).get k = cfg.emptyRtTblMem := by
  cases k with
  | glob ip => rfl
  | ep idx ip =>
    have hidx : idx < 6 ∨ 11 ≤ idx ∧ idx < 20 := hk
    by_cases hlow : idx < 6
    · have hlt : 1 + idx < 7 := by omega
      simp only [get, start, if_pos hlow, List.getD_replicate _ hlt]
    · have hlt : idx - 11 < 9 := by omega
      simp only [get, start, if_neg hlow, List.getD_replicate _ hlt]

theorem WellFormed.write {heads : FltHeads} (h : heads.WellFormed) (a : UInt32) (k : FltTblKey) :
    (heads.write a k).WellFormed := by
  cases k with
  | glob ip => exact ⟨(List.length_set).trans h.head1, h.head2⟩
  | ep idx ip =>
    unfold FltHeads.write
    dsimp only
    split_ifs
    · exact ⟨(List.length_set).trans h.head1, h.head2⟩
    · exact h
    · exact ⟨h.head1, (List.length_set).trans h.head2⟩
    · exact h

theorem getD_set_self {l : List UInt32} {i : ℕ} (hi : i < l.length) (a : UInt32) :
    (l.set i a).getD i 0 = a := by
  rw [List.getD_eq_getElem?_getD, List.getElem?_set_self hi, Option.getD_some]

theorem getD_set_of_ne {l : List UInt32} {i j : ℕ} (h : i ≠ j) (a : UInt32) :
    (l.set i a).getD j 0 = l.getD j 0 := by
  rw [List.getD_eq_getElem?_getD, List.getElem?_set_ne h, ← List.getD_eq_getElem?_getD]

theorem get_write_self {heads : FltHeads} (h : heads.WellFormed) {k : FltTblKey}
    (hk : k.Addressed) (a : UInt32) : (heads.write a k).get k = a := by
  have hhead1 := h.head1
  have hhead2 := h.head2
  cases k with
  | glob ip => exact getD_set_self (by omega) a
  | ep idx ip =>
    have hidx : idx < 6 ∨ 11 ≤ idx ∧ idx < 20 := hk
    by_cases hlow : idx < 6
    · have hwrite : heads.write a (.ep idx ip) =
          { heads with head1 := heads.head1.set (1+idx) a } := if_pos (by omega)
      simp only [hwrite, get, if_pos hlow]
      exact getD_set_self (by omega) a
    · have hwrite : heads.write a (.ep idx ip) =
          { heads with head2 := heads.head2.set (idx-11) a } :=
        (if_neg (by omega)).trans ((if_neg (by omega)).trans (if_pos (by omega)))
      simp only [hwrite, get, if_neg hlow]
      exact getD_set_self (by omega) a

/-- The tables of a family have words of their own. -/
theorem get_write_of_ne (heads : FltHeads) {k k' : FltTblKey} (hip : k'.ip = k.ip)
    (hne : k' ≠ k) (hk' : k'.Addressed) (a : UInt32) : (heads.write a k).get k' = heads.get k' := by
  cases k with
  | glob ip =>
    cases k' with
    | glob ip' =>
      obtain rfl : ip' = ip := hip
      exact absurd rfl hne
    | ep idx' ip' =>
      unfold FltHeads.write get
      dsimp only
      split
      · exact getD_set_of_ne (by omega) a
      · rfl
  | ep idx ip =>
    unfold FltHeads.write
    dsimp only
    cases k' with
    | glob ip' =>
      unfold get
      split_ifs
      · exact getD_set_of_ne (by omega) a
      · rfl
      · rfl
      · rfl
    | ep idx' ip' =>
      obtain rfl : ip' = ip := hip
      have hidx : idx' ≠ idx := fun h => hne (h ▸ rfl)
      have hidx' : idx' < 6 ∨ 11 ≤ idx' ∧ idx' < 20 := hk'
      unfold get
      dsimp only
      by_cases hlow : idx' < 6
      · simp only [if_pos hlow]
        split_ifs
        · exact getD_set_of_ne (by omega) a
        · rfl
        · rfl
        · rfl
      · simp only [if_neg hlow]
        split_ifs
        · rfl
        · rfl
        · exact getD_set_of_ne (by omega) a
        · rfl

end FltHeads

/-- What the readers of each family use. -/
abbrev FltPins := IpaIpType → Set UInt32

theorem FltHw.dmaAlloc_eq_some {s : FltHw} {answer : Option UInt32} {a : UInt32}
    (h : s.dmaAlloc answer = some a) : s.pool.heap a = none := by
  have hfilter := (Option.filter_eq_some_iff.mp h).2
  simp only [Bool.decide_and, Bool.and_eq_true, decide_eq_true_eq] at hfilter
  exact Option.isNone_iff_eq_none.mp hfilter.2.2

/-- A table that is generated has new memory with its rules. -/
theorem FltGen.table_eq_some {ip : IpaIpType} {g g' : FltGen} {k : FltTblKey}
    (hready : (g.s.tbl k).Ready ip) (hne : (g.s.tbl k).entries ≠ [])
    (h : g.table ip k = some g') :
    ∃ a, g.s.pool.heap a = none ∧ g' =
      { s := { g.s with pool := (g.s.pool.put a (tblImage ip (g.s.tbl k).entries)).stage k a }
        heads := g.heads.write a k, allocs := g.allocs.tail } := by
  obtain ⟨hbody, hsz⟩ := hready hne
  unfold FltGen.table at h
  rw [if_neg hsz] at h
  obtain ⟨a, halloc, h⟩ := Option.bind_eq_some_iff.mp h
  obtain ⟨body, hbody', h⟩ := Option.bind_eq_some_iff.mp h
  obtain rfl := Option.some.inj (hbody.symm.trans hbody')
  exact ⟨a, FltHw.dmaAlloc_eq_some halloc, (Option.some.inj h).symm⟩

/-- What the second pass does, wherever it ends. -/
structure GenPass (ip : IpaIpType) (pins : FltPins) (ks : List FltTblKey) (g : FltGen)
    (r : FltGen × Bool) : Prop where
  tbl : r.1.s.tbl = g.s.tbl
  sram : r.1.s.sram = g.s.sram
  sound : r.1.s.pool.Sound FltTblKey.ip pins
  heap : ∀ a, (g.s.pool.heap a).isSome → r.1.s.pool.heap a = g.s.pool.heap a
  spare : ∀ a, (g.s.pool.heap a).isSome → (∀ k, ¬ g.s.pool.Holds k a) →
    ∀ k, ¬ r.1.s.pool.Holds k a
  slot : ∀ k ∉ ks, r.1.s.pool.slot k = g.s.pool.slot k
  heads : r.1.heads.WellFormed
  word : ∀ k, k.Addressed → k.ip = ip → k ∉ ks ∨ (g.s.tbl k).entries = [] →
    r.1.heads.get k = g.heads.get k
  staged : r.2 = true → ∀ k ∈ ks, (g.s.tbl k).entries ≠ [] →
    ∃ a, (r.1.s.pool.slot k).curr = some a ∧
      r.1.s.pool.heap a = some (tblImage ip (g.s.tbl k).entries) ∧
      (k.Addressed → r.1.heads.get k = a)

/-- A pass that ends before any table. -/
theorem GenPass.stop {ip : IpaIpType} {pins : FltPins} {g : FltGen} (ks : List FltTblKey)
    (hs : g.s.pool.Sound FltTblKey.ip pins) (hheads : g.heads.WellFormed) :
    GenPass ip pins ks g (g, false) :=
  ⟨rfl, rfl, hs, fun _ _ => rfl, fun _ _ hfree => hfree, fun _ _ => rfl, hheads,
    fun _ _ _ _ => rfl, fun hfalse => absurd hfalse Bool.false_ne_true⟩

/-- Generating one table, in front of the rest of the pass. -/
theorem GenPass.cons {ip : IpaIpType} {pins : FltPins} {k : FltTblKey} {ks : List FltTblKey}
    {g g' : FltGen} {r : FltGen × Bool} (hip : k.ip = ip) (hk : k ∉ ks)
    (hheads : g.heads.WellFormed) (hready : (g.s.tbl k).Ready ip) (hne : (g.s.tbl k).entries ≠ [])
    (hg : g.table ip k = some g') (h : GenPass ip pins ks g' r) :
    GenPass ip pins (k :: ks) g r := by
  obtain ⟨a, hfresh, rfl⟩ := FltGen.table_eq_some hready hne hg
  -- memory in use keeps its content: the new buffer was free
  have hheap (x : UInt32) (hx : (g.s.pool.heap x).isSome) :
      update g.s.pool.heap a (some (tblImage ip (g.s.tbl k).entries)) x = g.s.pool.heap x := by
    refine update_of_ne ?_ _ _
    rintro rfl
    rw [hfresh] at hx
    cases hx
  refine ⟨h.tbl, h.sram, h.sound, fun x hx => ?heap, fun x hx hfree => ?spare,
    fun k' hk' => ?slot, h.heads, fun k' haddr hip' hk' => ?word, fun htrue k' hk' hne' => ?staged⟩
  case heap => exact (h.heap x (by rwa [← hheap x hx] at hx)).trans (hheap x hx)
  case spare =>
    refine h.spare x (by rwa [← hheap x hx] at hx) fun k' hk' => ?_
    rcases BufferPool.holds_stage hk' with hold | ⟨-, rfl⟩
    · exact hfree k' hold
    · rw [hfresh] at hx
      cases hx
  case slot =>
    exact (h.slot k' (List.not_mem_of_not_mem_cons hk')).trans
      (update_of_ne (List.ne_of_not_mem_cons hk') _ _)
  case word =>
    have hkk : k' ≠ k := by
      rintro rfl
      exact hk'.elim (fun hnot => hnot List.mem_cons_self) hne
    rw [h.word k' haddr hip' (hk'.imp_left List.not_mem_of_not_mem_cons)]
    exact FltHeads.get_write_of_ne g.heads (hip'.trans hip.symm) hkk haddr a
  case staged =>
    rcases List.mem_cons.mp hk' with rfl | hk'
    · refine ⟨a, ?curr, ?heap, fun haddr => ?head⟩
      case curr =>
        rw [h.slot k' hk]
        simp only [BufferPool.stage, update_self]
      case heap =>
        have hnew : update g.s.pool.heap a (some (tblImage ip (g.s.tbl k').entries)) a =
            some (tblImage ip (g.s.tbl k').entries) := update_self _ _ _
        rw [← hnew]
        refine h.heap a ?_
        simp only [BufferPool.stage, BufferPool.put, update_self, Option.isSome_some]
      case head =>
        rw [h.word k' haddr hip (.inl hk)]
        exact FltHeads.get_write_self hheads haddr a
    · exact h.staged htrue k' hk' hne'

theorem ipaGenerateFltHwTblCommon_spec {ip : IpaIpType} {pins : FltPins} {ks : List FltTblKey}
    (hip : ∀ k ∈ ks, k.ip = ip) (hnodup : ks.Nodup) {g : FltGen}
    (hs : g.s.pool.Sound FltTblKey.ip pins) (hheads : g.heads.WellFormed)
    (hready : ∀ k ∈ ks, (g.s.tbl k).Ready ip) :
    GenPass ip pins ks g (ipaGenerateFltHwTblCommon ip ks g) := by
  induction ks generalizing g with
  | nil =>
    exact ⟨rfl, rfl, hs, fun _ _ => rfl, fun _ _ hfree => hfree, fun _ _ => rfl, hheads,
      fun _ _ _ _ => rfl, fun _ k hk => absurd hk List.not_mem_nil⟩
  | cons k ks ih =>
    obtain ⟨hk, hnodup⟩ := List.nodup_cons.mp hnodup
    have hip' : ∀ k' ∈ ks, k'.ip = ip := fun k' hk' => hip k' (List.mem_cons_of_mem k hk')
    have hready' : ∀ k' ∈ ks, (g.s.tbl k').Ready ip := fun k' hk' =>
      hready k' (List.mem_cons_of_mem k hk')
    rw [ipaGenerateFltHwTblCommon]
    by_cases hempty : (g.s.tbl k).entries = []
    · rw [if_pos hempty]
      have h := ih hip' hnodup hs hheads hready'
      refine ⟨h.tbl, h.sram, h.sound, h.heap, h.spare,
        fun k' hk' => h.slot k' (List.not_mem_of_not_mem_cons hk'), h.heads,
        fun k' haddr hipk hk' =>
          h.word k' haddr hipk (hk'.imp_left List.not_mem_of_not_mem_cons),
        fun htrue k' hk' hne' => ?_⟩
      · rcases List.mem_cons.mp hk' with rfl | hk'
        · exact absurd hempty hne'
        · exact h.staged htrue k' hk' hne'
    · rw [if_neg hempty]
      cases hg : g.table ip k with
      -- the tables before keep their new buffers, which no header word names
      | none => exact .stop (k :: ks) hs hheads
      | some g' =>
        have hfirst := hready k List.mem_cons_self
        refine .cons (hip k List.mem_cons_self) hk hheads hfirst hempty hg ?_
        obtain ⟨a, hfresh, rfl⟩ := FltGen.table_eq_some hfirst hempty hg
        have hs' := hs.put_stage hfresh (tblImage ip (g.s.tbl k).entries) k
        exact ih hip' hnodup hs' (hheads.write a k) hready'

end X00TDCellular
