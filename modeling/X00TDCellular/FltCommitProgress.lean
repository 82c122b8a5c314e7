import X00TDCellular.FltCommitRuns

/-! Commits that go through: with memory enough, only the rules decide. -/

namespace X00TDCellular
open Function

section Supply

/-- Good answers of the allocator: aligned memory that is not in use, each time another. -/
structure FltHw.Supply (s : FltHw) (fresh : List UInt32) : Prop where
  nodup : fresh.Nodup
  aligned : ∀ a ∈ fresh, a ≠ 0 ∧ a.toNat % 4 = 0
  unused : ∀ a ∈ fresh, s.pool.heap a = none

namespace FltHw.Supply

variable {s : FltHw} {a : UInt32} {fresh : List UInt32}

theorem dmaAlloc (h : s.Supply (a :: fresh)) : s.dmaAlloc (some a) = some a := by
  have haligned := h.aligned a List.mem_cons_self
  have hunused : (s.pool.heap a).isNone := by
    rw [h.unused a List.mem_cons_self, Option.isNone_none]
  exact Option.filter_some_pos (decide_eq_true ⟨haligned.1, haligned.2, hunused⟩)

/-- What is left when the first piece has been filled. -/
theorem put (h : s.Supply (a :: fresh)) (bytes : List UInt8) : (s.put a bytes).Supply fresh where
  nodup := (List.nodup_cons.mp h.nodup).2
  aligned b hb := h.aligned b (List.mem_cons_of_mem a hb)
  unused b hb := by
    have hne : b ≠ a := fun heq => (List.nodup_cons.mp h.nodup).1 (heq ▸ hb)
    exact (update_of_ne hne _ _).trans (h.unused b (List.mem_cons_of_mem a hb))

/-- The supply is a matter of the memory alone. -/
theorem of_heap (h : s.Supply fresh) {s' : FltHw} (hheap : s'.pool.heap = s.pool.heap) :
    s'.Supply fresh := ⟨h.nodup, h.aligned, fun a ha => by rw [hheap]; exact h.unused a ha⟩

end FltHw.Supply

variable {ip : IpaIpType}

/-- A table whose allocation is answered is generated. -/
theorem FltGen.table_supply {g : FltGen} {k : FltTblKey} {a : UInt32} {fresh : List UInt32}
    (hready : (g.s.tbl k).Ready ip) (hne : (g.s.tbl k).entries ≠ [])
    (hallocs : g.allocs = (a :: fresh).map some) (hsupply : g.s.Supply (a :: fresh)) :
    ∃ g', g.table ip k = some g' ∧ g'.s.tbl = g.s.tbl ∧ g'.allocs = fresh.map some ∧
      g'.s.Supply fresh := by
  obtain ⟨hbody, hsz⟩ := hready hne
  have halloc : g.s.dmaAlloc (g.allocs.headD none) = some a := by
    rw [hallocs]
    exact hsupply.dmaAlloc
  have hput := hsupply.put (tblImage ip (g.s.tbl k).entries)
  refine ⟨{ s := { g.s with pool :=
              (g.s.pool.put a (tblImage ip (g.s.tbl k).entries)).stage k a },
            heads := g.heads.write a k, allocs := g.allocs.tail }, ?table, rfl, ?allocs,
    hput.of_heap rfl⟩
  case table =>
    rw [FltGen.table, if_neg hsz, halloc, hbody]
    rfl
  case allocs => rw [hallocs, List.map_cons, List.tail_cons]

/-- The second pass goes through as long as the allocations are answered. -/
theorem ipaGenerateFltHwTblCommon_supply {ks : List FltTblKey} {g : FltGen}
    {fresh : List UInt32} (hready : ∀ k ∈ ks, (g.s.tbl k).Ready ip)
    (hallocs : g.allocs = fresh.map some) (hsupply : g.s.Supply fresh)
    (hlen : ks.length ≤ fresh.length) : (ipaGenerateFltHwTblCommon ip ks g).2 = true := by
  induction ks generalizing g fresh with
  | nil => rfl
  | cons k ks ih =>
    have hready' : ∀ k' ∈ ks, (g.s.tbl k').Ready ip := fun k' hk' =>
      hready k' (List.mem_cons_of_mem k hk')
    rw [List.length_cons] at hlen
    rw [ipaGenerateFltHwTblCommon]
    by_cases hempty : (g.s.tbl k).entries = []
    · rw [if_pos hempty]
      exact ih hready' hallocs hsupply (by omega)
    · rw [if_neg hempty]
      obtain ⟨a, rest, rfl⟩ : ∃ a rest, fresh = a :: rest :=
        List.exists_cons_of_length_pos (by omega)
      obtain ⟨g', htable, htbl, hallocs', hsupply'⟩ :=
        FltGen.table_supply (hready k List.mem_cons_self) hempty hallocs hsupply
      rw [htable]
      rw [List.length_cons] at hlen
      exact ih (fun k' hk' => htbl ▸ hready' k' hk') hallocs' hsupply' (by omega)

end Supply

section Commit

variable {cfg : FltHwCfg} {committed : FltTblKey → List FltHwEntry} {s : FltHw}

/-- Nothing goes wrong around a commit that may need `n` pieces of memory. -/
structure CommitOutcome.Good (o : CommitOutcome) (s : FltHw) (n : ℕ) : Prop where
  desc : o.descOk = true
  cmd : o.cmdOk = true
  sent : o.sent = true
  allocs : ∃ fresh, o.allocs = fresh.map some ∧ s.Supply fresh ∧ n ≤ fresh.length

theorem ipaGenerateFltHwTblV2_supply {ip : IpaIpType} (h : s.Inv cfg committed)
    {head1 head2 : UInt32} {fresh : List UInt32}
    (hsupply : s.Supply (head1 :: head2 :: fresh))
    (hlen : (cfg.tblKeys ip).length ≤ fresh.length)
    (hwritable : ∀ k ∈ cfg.tblKeys ip, Writable ip (s.tbl k).entries) :
    (s.ipaGenerateFltHwTblV2 cfg ip ((head1 :: head2 :: fresh).map some)).2 =
      some (head1, head2) := by
  have hsupply1 := hsupply.put ((FltHeads.start cfg).head1.flatMap le32)
  have hsupply2 := hsupply1.put ((FltHeads.start cfg).head2.flatMap le32)
  have hsize := ipaGetFltHwTblSize_spec (fun k hk => cfg.mem_tblKeys hk) (cfg.nodup_tblKeys ip)
    (s := (s.put head1 ((FltHeads.start cfg).head1.flatMap le32)).put head2
      ((FltHeads.start cfg).head2.flatMap le32)) h.measured
  have hsized := hsize.ok.mpr hwritable
  have hgen := ipaGenerateFltHwTblCommon_supply (g := ⟨_, .start cfg, fresh.map some⟩)
    (hsize.ready hsized) rfl (hsupply2.of_heap (congrArg (·.heap) hsize.pool)) hlen
  unfold FltHw.ipaGenerateFltHwTblV2
  simp only [List.map_cons, List.headD_cons, List.tail_cons, hsupply.dmaAlloc, hsupply1.dmaAlloc,
    if_pos hsized, if_pos hgen]

theorem ipa2CommitFlt_eq_zero {ip : IpaIpType} (hip : ip ≠ .max) (o : CommitOutcome) :
    (s.ipa2CommitFlt cfg ip o).2 = 0 ↔ (s.ipaCommitFltV2 cfg ip o).2 = 0 := by
  rw [FltHw.ipa2CommitFlt, if_neg hip]
  refine ⟨fun hzero => not_not.mp fun hrc => ?_, fun hrc => if_pos hrc⟩
  have hperm : ePerm = 0 := (if_neg hrc).symm.trans hzero
  exact absurd hperm (by decide)

/-- Where nothing goes wrong around it, a commit succeeds if and only if every rule of the
family can be written. -/
theorem ipa2CommitFlt_eq_zero_iff {ip : IpaIpType} (hip : ip ≠ .max) (h : s.Inv cfg committed)
    {o : CommitOutcome} (ho : o.Good s ((cfg.tblKeys ip).length + 2)) :
    (s.ipa2CommitFlt cfg ip o).2 = 0 ↔
      ∀ k ∈ cfg.tblKeys ip, Writable ip (s.tbl k).entries := by
  rw [ipa2CommitFlt_eq_zero hip]
  constructor
  · intro hzero
    rcases ipaCommitFltV2_spec hip o h with ⟨-, hwritable, -⟩ | ⟨hrc, -, -⟩
    · exact hwritable
    · exact absurd hzero hrc
  · intro hwritable
    obtain ⟨fresh, hallocs, hsupply, hlen⟩ := ho.allocs
    obtain ⟨head1, rest, rfl⟩ : ∃ a rest, fresh = a :: rest :=
      List.exists_cons_of_length_pos (by omega)
    rw [List.length_cons] at hlen
    obtain ⟨head2, rest, rfl⟩ : ∃ a rest', rest = a :: rest' :=
      List.exists_cons_of_length_pos (by omega)
    rw [List.length_cons] at hlen
    have hgen := ipaGenerateFltHwTblV2_supply h hsupply (by omega) hwritable
    have hstart : ¬ (¬ o.descOk ∨ ¬ o.cmdOk) := by
      rw [ho.desc, ho.cmd]
      decide
    unfold FltHw.ipaCommitFltV2
    rw [if_neg hstart, hallocs]
    simp only [hgen, if_pos ho.sent]

end Commit

end X00TDCellular
