import X00TDCellular.FltCommitGen

/-! The commands of a commit, and what is freed behind them: each header word of the
driver comes to name the new memory of its table. -/

namespace X00TDCellular
open Function

namespace FltHwCfg

variable (cfg : FltHwCfg)

/-- The header word is one that the driver writes. -/
def Owned (k : FltTblKey) : Prop := k.ip ≠ .max ∧ k ∈ cfg.cmdKeys k.ip

theorem mem_cmdKeys {ip : IpaIpType} {k : FltTblKey} (h : k ∈ cfg.cmdKeys ip) :
    k.ip = ip ∧ k.Addressed ∧ k ∈ cfg.tblKeys ip := by
  have hpipes := cfg.pipes
  rcases List.mem_cons.mp h with rfl | h
  · exact ⟨rfl, trivial, List.mem_cons_self⟩
  · obtain ⟨idx, hidx, rfl⟩ := List.mem_map.mp h
    have hrange : idx < 6 ∨ 11 ≤ idx ∧ idx < cfg.ipaNumPipes := by
      rcases List.mem_append.mp hidx with hlow | hhigh
      · exact .inl (List.mem_range.mp (List.mem_filter.mp hlow).1)
      · have hmem := List.mem_range'_1.mp (List.mem_filter.mp hhigh).1
        omega
    have haddr : idx < 6 ∨ 11 ≤ idx ∧ idx < 20 := by omega
    have hlt : idx < cfg.ipaNumPipes := by omega
    exact ⟨rfl, haddr, List.mem_cons_of_mem _ (List.mem_map_of_mem (List.mem_range.mpr hlt))⟩

theorem Owned.mem_cmdKeys_iff {cfg : FltHwCfg} {k : FltTblKey} (hk : cfg.Owned k)
    (ip : IpaIpType) : k ∈ cfg.cmdKeys ip ↔ k.ip = ip :=
  ⟨fun hmem => (cfg.mem_cmdKeys hmem).1, fun hip => hip ▸ hk.2⟩

theorem mem_tblKeys {ip : IpaIpType} {k : FltTblKey} (h : k ∈ cfg.tblKeys ip) : k.ip = ip := by
  rcases List.mem_cons.mp h with rfl | h
  · rfl
  · obtain ⟨idx, -, rfl⟩ := List.mem_map.mp h
    rfl

theorem mem_tblKeys_ep {idx : ℕ} {ip : IpaIpType} :
    .ep idx ip ∈ cfg.tblKeys ip ↔ idx < cfg.ipaNumPipes := by
  have hep (i : ℕ) : FltTblKey.ep i ip = .ep idx ip ↔ i = idx := by simp
  simp only [tblKeys, List.mem_cons, reduceCtorEq, false_or, List.mem_map, hep, exists_eq_right,
    List.mem_range]

theorem nodup_ep {idxs : List ℕ} (h : idxs.Nodup) (ip : IpaIpType) :
    (FltTblKey.glob ip :: idxs.map fun idx => FltTblKey.ep idx ip).Nodup := by
  refine List.nodup_cons.mpr ⟨fun hmem => ?_, h.map fun i j hij => (FltTblKey.ep.inj hij).1⟩
  obtain ⟨idx, -, heq⟩ := List.mem_map.mp hmem
  cases heq

theorem nodup_tblKeys (ip : IpaIpType) : (cfg.tblKeys ip).Nodup := nodup_ep List.nodup_range ip

theorem nodup_cmdKeys (ip : IpaIpType) : (cfg.cmdKeys ip).Nodup := by
  refine nodup_ep (List.nodup_append.mpr ⟨List.nodup_range.filter _,
    List.Nodup.filter _ List.nodup_range', fun i hi j hj => ?_⟩) ip
  have hlow := List.mem_range.mp (List.mem_filter.mp hi).1
  have hhigh := List.mem_range'_1.mp (List.mem_filter.mp hj).1
  omega

/-- The place of word `i` of a family's header: the bitmap, the word of the global table,
then those of the pipes. -/
def hdrWord (ip : IpaIpType) (i : ℕ) : ℕ := cfg.smemRestrictedBytes + cfg.fltOfst ip + 4*i

def wordIdx : FltTblKey → ℕ
  | .glob _ => 1
  | .ep idx _ => idx + 2

/-- The families have their words apart, and the words of a family are numbered. -/
theorem hdrWord_inj {ip ip' : IpaIpType} (hip : ip ≠ .max) (hip' : ip' ≠ .max) {i j : ℕ}
    (hi : i < 22) (hj : j < 22) (h : cfg.hdrWord ip i = cfg.hdrWord ip' j) :
    ip = ip' ∧ i = j := by
  have hapart := cfg.apart
  unfold hdrWord at h
  cases ip with
  | max => exact absurd rfl hip
  | v4 =>
    cases ip' with
    | max => exact absurd rfl hip'
    | v4 => exact ⟨rfl, by omega⟩
    | v6 =>
      dsimp only [fltOfst] at h
      omega
  | v6 =>
    cases ip' with
    | max => exact absurd rfl hip'
    | v4 =>
      dsimp only [fltOfst] at h
      omega
    | v6 => exact ⟨rfl, by omega⟩

theorem localAddr_eq {k : FltTblKey} (hk : k.Addressed) :
    cfg.localAddr k = cfg.hdrWord k.ip (wordIdx k) ∧ wordIdx k < 22 := by
  cases k with
  | glob ip => exact ⟨rfl, Nat.one_lt_ofNat⟩
  | ep idx ip =>
    have hidx : idx < 6 ∨ 11 ≤ idx ∧ idx < 20 := hk
    unfold localAddr hdrWord wordIdx
    dsimp only [FltTblKey.ip]
    split
    · omega
    · omega

/-- A header word of the driver that stands at a given place. -/
theorem Owned.of_localAddr {cfg : FltHwCfg} {k : FltTblKey} (hk : cfg.Owned k) {ip : IpaIpType}
    (hip : ip ≠ .max) {i : ℕ} (hi : i < 22) (h : cfg.localAddr k = cfg.hdrWord ip i) :
    k.ip = ip ∧ wordIdx k = i := by
  obtain ⟨haddr, hlt⟩ := cfg.localAddr_eq (cfg.mem_cmdKeys hk.2).2.1
  exact cfg.hdrWord_inj hk.1 hip hlt hi (haddr.symm.trans h)

/-- No two header words of the driver share their place. -/
theorem localAddr_inj {k k' : FltTblKey} (hk : cfg.Owned k) (hk' : cfg.Owned k')
    (h : cfg.localAddr k = cfg.localAddr k') : k = k' := by
  obtain ⟨haddr', hlt'⟩ := cfg.localAddr_eq (cfg.mem_cmdKeys hk'.2).2.1
  obtain ⟨hip, hidx⟩ := hk.of_localAddr hk'.1 hlt' (h.trans haddr')
  cases k with
  | glob ip =>
    cases k' with
    | glob ip' => exact congrArg FltTblKey.glob hip
    | ep idx' ip' => exact absurd (Nat.succ.inj hidx).symm (Nat.succ_ne_zero idx')
  | ep idx ip =>
    cases k' with
    | glob ip' => exact absurd (Nat.succ.inj hidx) (Nat.succ_ne_zero idx)
    | ep idx' ip' => exact congrArg₂ FltTblKey.ep (Nat.add_right_cancel hidx) hip

theorem mem_cmdKeys_ep {idx : ℕ} {ip : IpaIpType} : .ep idx ip ∈ cfg.cmdKeys ip ↔
    idx < 6 ∧ cfg.ownsLow idx ∨ 11 ≤ idx ∧ idx < cfg.ipaNumPipes ∧ cfg.ownsHigh idx := by
  have hrange : idx ∈ List.range' 11 (cfg.ipaNumPipes - 11) ↔
      11 ≤ idx ∧ idx < cfg.ipaNumPipes := by
    rw [List.mem_range'_1]
    omega
  have hep (i : ℕ) : FltTblKey.ep i ip = .ep idx ip ↔ i = idx := by simp
  simp only [cmdKeys, List.mem_cons, reduceCtorEq, false_or, List.mem_map, hep, exists_eq_right,
    List.mem_append, List.mem_filter, List.mem_range, hrange, and_assoc]

/-- Shared memory that is no header word of the driver. -/
def Foreign (x : ℕ) : Prop := ∀ k, cfg.Owned k → cfg.localAddr k ≠ x

/-- The pipes whose header words the driver leaves alone: those that it skips, with the
modem's among them, and those that are not there or have no word in its two buffers. -/
def ForeignPipe (idx : ℕ) : Prop :=
  idx < 6 ∧ ¬ cfg.ownsLow idx ∨ 6 ≤ idx ∧ idx ≤ 10 ∨
    11 ≤ idx ∧ idx < 20 ∧ ¬ (idx < cfg.ipaNumPipes ∧ cfg.ownsHigh idx)

theorem foreign_bitmap {ip : IpaIpType} (hip : ip ≠ .max) : cfg.Foreign (cfg.hdrWord ip 0) := by
  intro k hk haddr
  have hidx := (hk.of_localAddr hip (by omega) haddr).2
  cases k with
  | glob ip' => exact absurd hidx Nat.one_ne_zero
  | ep idx' ip' => exact absurd hidx (Nat.succ_ne_zero _)

theorem foreign_pipe {ip : IpaIpType} (hip : ip ≠ .max) {idx : ℕ} (hidx : cfg.ForeignPipe idx) :
    cfg.Foreign (cfg.hdrWord ip (idx+2)) := by
  unfold ForeignPipe at hidx
  intro k hk haddr
  obtain ⟨rfl, hword⟩ := hk.of_localAddr hip (by omega) haddr
  cases k with
  | glob ip' => exact absurd (Nat.succ.inj hword) (Nat.succ_ne_zero idx).symm
  | ep idx' ip' =>
    -- a word of the driver at this place could only be that of the pipe itself
    obtain rfl : idx' = idx := Nat.add_right_cancel hword
    rcases cfg.mem_cmdKeys_ep.mp hk.2 with ⟨hlow, howns⟩ | ⟨hhigh, hlt, howns⟩
    · rcases hidx with ⟨-, hnot⟩ | hnone | ⟨hhigh, -⟩
      · exact hnot howns
      · omega
      · omega
    · rcases hidx with ⟨hlow, -⟩ | hnone | ⟨-, -, hnot⟩
      · omega
      · omega
      · exact hnot ⟨hlt, howns⟩

end FltHwCfg

namespace CmdArray

/-- The first entries hold the given commands, and the rest of the 16 is unused. -/
structure Holds (a : CmdArray) (cs : List DmaSharedMem) : Prop where
  len : a.cmd.length = 16
  numDesc : a.numDesc = cs.length
  sent : a.sent = cs

variable {a : CmdArray} {cs : List DmaSharedMem}

theorem Holds.put (h : a.Holds cs) (c : DmaSharedMem) (hroom : cs.length < 16) :
    ∃ a', a.put c = some a' ∧ a'.Holds (cs ++ [c]) := by
  have hlt : a.numDesc < a.cmd.length := by
    rw [h.len, h.numDesc]
    exact hroom
  refine ⟨⟨a.cmd.set a.numDesc c, a.numDesc+1⟩, if_pos hlt, ?len, ?numDesc, ?sent⟩
  case len => rw [List.length_set, h.len]
  case numDesc => rw [List.length_append, h.numDesc, List.length_singleton]
  case sent =>
    calc (a.cmd.set a.numDesc c).take (a.numDesc+1)
        = (a.cmd.set a.numDesc c).take a.numDesc ++
            (a.cmd.set a.numDesc c)[a.numDesc]?.toList := List.take_add_one
      _ = a.sent ++ [c] := by
        rw [List.take_set_of_le (Nat.le_refl _), List.getElem?_set_self hlt]
        rfl
      _ = cs ++ [c] := by rw [h.sent]

/-- A loop over pipes, of which some have a command. -/
theorem Holds.loop {f : CmdArray → ℕ → Option CmdArray} (owns : ℕ → Bool)
    (c : ℕ → DmaSharedMem) (hf : ∀ a i, f a i = if owns i then a.put (c i) else some a)
    (is : List ℕ) (h : a.Holds cs) (hroom : cs.length + (is.filter owns).length ≤ 16) :
    ∃ a', is.foldlM f a = some a' ∧ a'.Holds (cs ++ (is.filter owns).map c) := by
  induction is generalizing a cs with
  | nil => exact ⟨a, rfl, by rwa [List.filter_nil, List.map_nil, List.append_nil]⟩
  | cons i is ih =>
    rw [List.foldlM_cons, hf]
    cases howns : owns i with
    | false =>
      rw [List.filter_cons_of_neg (by rw [howns]; decide)] at hroom ⊢
      exact ih h hroom
    | true =>
      -- the command takes one of the places that the rest of the loop leaves
      rw [List.filter_cons_of_pos howns, List.length_cons] at hroom
      obtain ⟨a₁, hput, hholds⟩ := h.put (c i) (by omega)
      have hrest : (cs ++ [c i]).length + (is.filter owns).length ≤ 16 := by
        rw [List.length_append, List.length_singleton]
        omega
      obtain ⟨a', hloop, hholds'⟩ := ih hholds hrest
      refine ⟨a', ?run, ?holds⟩
      case run =>
        rw [if_pos rfl, hput]
        exact hloop
      case holds =>
        rw [List.filter_cons_of_pos howns, List.map_cons, List.append_cons]
        exact hholds'

end CmdArray

/-- The loops of the commit never write behind the end of their arrays, whatever pipes there
are and are skipped; what they leave there is the list of commands that `ipaCommitFltV2`
sends, those of the tables whose header words are the driver's. -/
theorem fltCmds_inBounds (cfg : FltHwCfg) (ip : IpaIpType) (head1 head2 : UInt32) :
    ∃ a, fltCmds cfg ip head1 head2 = some a ∧
      a.sent = (cfg.cmdKeys ip).map (dmaCmd cfg head1 head2) := by
  have hpipes := cfg.pipes
  have hlow := List.length_filter_le cfg.ownsLow (List.range 6)
  have hhigh := List.length_filter_le cfg.ownsHigh (List.range' 11 (cfg.ipaNumPipes - 11))
  -- one command for the global table, at most 6 for the low pipes and 9 for the high ones
  rw [List.length_range] at hlow
  rw [List.length_range'] at hhigh
  have hstart : CmdArray.kzalloc.Holds [] := ⟨rfl, rfl, rfl⟩
  obtain ⟨a₁, hglob, h₁⟩ := hstart.put (dmaCmd cfg head1 head2 (.glob ip)) (by decide)
  rw [List.nil_append] at h₁
  obtain ⟨a₂, hlowRun, h₂⟩ := h₁.loop cfg.ownsLow (fun i => dmaCmd cfg head1 head2 (.ep i ip))
    (fun _ _ => rfl) (List.range 6) (by
      rw [List.length_singleton]
      omega)
  obtain ⟨a₃, hhighRun, h₃⟩ := h₂.loop cfg.ownsHigh (fun i => dmaCmd cfg head1 head2 (.ep i ip))
    (fun _ _ => rfl) (List.range' 11 (cfg.ipaNumPipes - 11)) (by
      rw [List.length_append, List.length_singleton, List.length_map]
      omega)
  refine ⟨a₃, ?run, ?sent⟩
  case run =>
    rw [fltCmds, hglob]
    exact (congrArg (· >>= _) hlowRun).trans hhighRun
  case sent =>
    rw [h₃.sent]
    simp only [FltHwCfg.cmdKeys, List.map_cons, List.map_append, List.map_map, List.cons_append,
      List.nil_append]
    rfl

section Words

/-- Copying a buffer writes the words of its place, and no others. -/
theorem storeWords_of_notMem {ws : List UInt32} {place x : ℕ}
    (h : ∀ i < ws.length, x ≠ place + 4*i) (sram : ℕ → UInt32) :
    storeWords place ws sram x = sram x := by
  induction ws generalizing place sram with
  | nil => rfl
  | cons w ws ih =>
    have hrest (i : ℕ) (hi : i < ws.length) : x ≠ place + 4 + 4*i := by
      have hnext := h (i+1) (Nat.succ_lt_succ hi)
      omega
    exact (ih hrest (update sram place w)).trans (update_of_ne (h 0 (Nat.succ_pos _)) w sram)

theorem storeWords_word {ws : List UInt32} {i : ℕ} (h : i < ws.length) (place : ℕ)
    (sram : ℕ → UInt32) : storeWords place ws sram (place + 4*i) = ws[i] := by
  induction ws generalizing i place sram with
  | nil => exact absurd h (Nat.not_lt_zero i)
  | cons w ws ih =>
    cases i with
    | zero =>
      have hfirst : ∀ j < ws.length, place ≠ place + 4 + 4*j := fun j _ => by omega
      exact (storeWords_of_notMem hfirst _).trans (update_self place w sram)
    | succ i =>
      have hplace : place + 4*(i+1) = place + 4 + 4*i := by omega
      rw [hplace]
      exact ih (Nat.lt_of_succ_lt_succ h) (place+4) (update sram place w)

/-- The words of a family after its initialization. -/
theorem ipaInitFltV2_hdrWord (cfg : FltHwCfg) (ip : IpaIpType) (sram : ℕ → UInt32) {i : ℕ}
    (hi : i ≤ cfg.ipaNumPipes) :
    ipaInitFltV2 cfg ip sram (cfg.hdrWord ip (i+1)) = cfg.emptyRtTblMem := by
  have hlen : i + 1 <
      (0x1FFFFF :: List.replicate (cfg.ipaNumPipes+1) cfg.emptyRtTblMem).length := by
    rw [List.length_cons, List.length_replicate]
    omega
  calc ipaInitFltV2 cfg ip sram (cfg.hdrWord ip (i+1))
      = (0x1FFFFF :: List.replicate (cfg.ipaNumPipes+1) cfg.emptyRtTblMem)[i+1] :=
        storeWords_word hlen _ sram
    _ = cfg.emptyRtTblMem := by rw [List.getElem_cons_succ, List.getElem_replicate]

/-- The other family keeps its words. -/
theorem ipaInitFltV2_other (cfg : FltHwCfg) {ip ip' : IpaIpType} (hip : ip ≠ .max)
    (hip' : ip' ≠ .max) (hne : ip' ≠ ip) (sram : ℕ → UInt32) {i : ℕ} (hi : i < 22) :
    ipaInitFltV2 cfg ip sram (cfg.hdrWord ip' i) = sram (cfg.hdrWord ip' i) := by
  have hpipes := cfg.pipes
  refine storeWords_of_notMem (fun j hj heq => ?_) sram
  rw [List.length_cons, List.length_replicate] at hj
  exact hne (cfg.hdrWord_inj hip' hip hi (by omega) heq).1

theorem wordAt_le32 (w : UInt32) (rest : List UInt8) : wordAt (le32 w ++ rest) 0 = w := by
  obtain ⟨b0, b1, b2, b3, hbytes, hw⟩ := getLe32_le32 w
  rw [hbytes]
  exact hw

theorem wordAt_skip (w : UInt32) (rest : List UInt8) (o : ℕ) :
    wordAt (le32 w ++ rest) (o+4) = wordAt rest o := rfl

/-- The words of a buffer of words. -/
theorem wordAt_flatMap {words : List UInt32} {i : ℕ} (h : i < words.length) :
    wordAt (words.flatMap le32) (4*i) = words.getD i 0 := by
  induction words generalizing i with
  | nil => exact absurd h (Nat.not_lt_zero i)
  | cons w words ih =>
    cases i with
    | zero => exact wordAt_le32 w _
    | succ i =>
      calc wordAt ((w :: words).flatMap le32) (4*(i+1))
          = wordAt (words.flatMap le32) (4*i) := wordAt_skip w _ (4*i)
        _ = words.getD i 0 := ih (Nat.lt_of_succ_lt_succ h)
        _ = (w :: words).getD (i+1) 0 := rfl

end Words

namespace FltHw

theorem foldl_dmaSharedMem (cmds : List DmaSharedMem) (s : FltHw) :
    (cmds.foldl dmaSharedMem s).pool = s.pool ∧ (cmds.foldl dmaSharedMem s).tbl = s.tbl ∧
      ∀ x ∉ cmds.map (·.localAddr), (cmds.foldl dmaSharedMem s).sram x = s.sram x := by
  induction cmds generalizing s with
  | nil => exact ⟨rfl, rfl, fun _ _ => rfl⟩
  | cons cmd cmds ih =>
    obtain ⟨hpool, htbl, hsram⟩ := ih (s.dmaSharedMem cmd)
    refine ⟨hpool, htbl, fun x hx => ?_⟩
    rw [List.map_cons] at hx
    exact (hsram x (List.not_mem_of_not_mem_cons hx)).trans
      (update_of_ne (List.ne_of_not_mem_cons hx) _ _)

theorem sram_foldl_dmaSharedMem {cmds : List DmaSharedMem}
    (hnodup : (cmds.map (·.localAddr)).Nodup) {cmd : DmaSharedMem} (hcmd : cmd ∈ cmds)
    (s : FltHw) : (cmds.foldl dmaSharedMem s).sram cmd.localAddr =
      wordAt ((s.pool.heap cmd.buffer).getD []) cmd.offset := by
  induction cmds generalizing s with
  | nil => exact absurd hcmd List.not_mem_nil
  | cons first cmds ih =>
    obtain ⟨hfirst, hnodup⟩ := List.nodup_cons.mp hnodup
    rcases List.mem_cons.mp hcmd with rfl | hcmd
    · exact ((foldl_dmaSharedMem cmds (s.dmaSharedMem cmd)).2.2 _ hfirst).trans
        (update_self _ _ _)
    · exact ih hnodup hcmd (s.dmaSharedMem first)

/-- Each command carries the word of its table. -/
theorem wordAt_dmaCmd {s : FltHw} {cfg : FltHwCfg} {head1 head2 : UInt32} {heads : FltHeads}
    (hheads : heads.WellFormed) (h1 : s.pool.heap head1 = some (heads.head1.flatMap le32))
    (h2 : s.pool.heap head2 = some (heads.head2.flatMap le32)) {k : FltTblKey}
    (hk : k.Addressed) :
    wordAt ((s.pool.heap (dmaCmd cfg head1 head2 k).buffer).getD [])
      (dmaCmd cfg head1 head2 k).offset = heads.get k := by
  have hlen1 := hheads.head1
  have hlen2 := hheads.head2
  cases k with
  | glob ip =>
    simp only [dmaCmd, h1, Option.getD_some]
    exact wordAt_flatMap (i := 0) (by omega)
  | ep idx ip =>
    have hidx : idx < 6 ∨ 11 ≤ idx ∧ idx < 20 := hk
    by_cases hlow : idx < 6
    · have hofs : 4 + idx*4 = 4*(1+idx) := by omega
      simp only [dmaCmd, FltHeads.get, if_pos hlow, h1, Option.getD_some, hofs]
      exact wordAt_flatMap (by omega)
    · have hofs : (idx-11)*4 = 4*(idx-11) := by omega
      simp only [dmaCmd, FltHeads.get, if_neg hlow, h2, Option.getD_some, hofs]
      exact wordAt_flatMap (by omega)

theorem localAddr_dmaCmd (cfg : FltHwCfg) (head1 head2 : UInt32) (k : FltTblKey) :
    (dmaCmd cfg head1 head2 k).localAddr = cfg.localAddr k := by
  cases k with
  | glob ip => rfl
  | ep idx ip =>
    unfold dmaCmd
    dsimp only
    split <;> rfl

theorem map_localAddr_dmaCmd (cfg : FltHwCfg) (head1 head2 : UInt32) (ks : List FltTblKey) :
    (ks.map (dmaCmd cfg head1 head2)).map (·.localAddr) = ks.map cfg.localAddr := by
  rw [List.map_map]
  exact List.map_congr_left fun k _ => localAddr_dmaCmd cfg head1 head2 k

/-- After some of the commands the words of their tables are those of the two buffers, and
no other word of the driver has changed. -/
theorem sram_send {s : FltHw} {cfg : FltHwCfg} {ip : IpaIpType} (hip : ip ≠ .max)
    {head1 head2 : UInt32} {heads : FltHeads} (hheads : heads.WellFormed)
    (h1 : s.pool.heap head1 = some (heads.head1.flatMap le32))
    (h2 : s.pool.heap head2 = some (heads.head2.flatMap le32)) {ks : List FltTblKey}
    (hks : ks.Sublist (cfg.cmdKeys ip)) {k : FltTblKey} (hk : cfg.Owned k) :
    ((ks.map (dmaCmd cfg head1 head2)).foldl dmaSharedMem s).sram (cfg.localAddr k) =
      if k ∈ ks then heads.get k else s.sram (cfg.localAddr k) := by
  have howned (k' : FltTblKey) (hk' : k' ∈ ks) : cfg.Owned k' := by
    have hmem := hks.subset hk'
    have hkip := (cfg.mem_cmdKeys hmem).1
    exact ⟨hkip ▸ hip, hkip ▸ hmem⟩
  by_cases hmem : k ∈ ks
  · have hnodup : ((ks.map (dmaCmd cfg head1 head2)).map (·.localAddr)).Nodup := by
      rw [map_localAddr_dmaCmd]
      exact ((cfg.nodup_cmdKeys ip).sublist hks).map_on fun k' hk' k'' hk'' heq =>
        cfg.localAddr_inj (howned k' hk') (howned k'' hk'') heq
    have hsram := sram_foldl_dmaSharedMem hnodup (List.mem_map_of_mem hmem) s
    rw [localAddr_dmaCmd] at hsram
    rw [if_pos hmem]
    exact hsram.trans (wordAt_dmaCmd hheads h1 h2 (cfg.mem_cmdKeys hk.2).2.1)
  · rw [if_neg hmem]
    refine (foldl_dmaSharedMem _ s).2.2 _ ?_
    rw [map_localAddr_dmaCmd]
    intro haddr
    obtain ⟨k', hk', heq⟩ := List.mem_map.mp haddr
    obtain rfl := cfg.localAddr_inj (howned k' hk') hk heq
    exact hmem hk'

end FltHw

end X00TDCellular
