import X00TDCellular.BufferPool
import X00TDCellular.FltRuleImages

/-! `__ipa_commit_flt_v2`: the tables of a family are written to fresh memory, the header
words in shared memory are moved to them, and what they replace is freed. All tables lie
in system memory, as the controllers from v2.0 on have them. -/

namespace X00TDCellular
open Function

/-- `struct ipa_flt_tbl`, with its buffers in the pool. -/
structure FltHwTbl where
  entries : List FltHwEntry := []
  sz : ℕ := 0

/-- `pool` has `curr_mem`, `prev_mem` and the coherent memory, `sram` the words of the
shared memory by their address. -/
structure FltHw where
  tbl : FltTblKey → FltHwTbl
  pool : BufferPool FltTblKey UInt32 (List UInt8)
  sram : ℕ → UInt32

/-- The sizes and places that the commit takes from `ipa_ctx`; the four pipes are those of
`ipa2_get_ep_mapping`. A header table has 22 words. -/
structure FltHwCfg where
  smemRestrictedBytes : ℕ
  v4FltOfst : ℕ
  v6FltOfst : ℕ
  ipaNumPipes : ℕ
  skipEpCfgShadow : ℕ → Bool
  modemCfgEmbPipeFlt : Bool
  appsWanCons : ℕ
  appsLanCons : ℕ
  appsCmdProd : ℕ
  appsLanWanProd : ℕ
  emptyRtTblMem : UInt32
  pipes : 6 ≤ ipaNumPipes ∧ ipaNumPipes ≤ 20
  apart : v4FltOfst + 88 ≤ v6FltOfst

/-- How the allocations of a commit and its transfer turn out: the two `kzalloc`, then the
answers of `dma_alloc_coherent` in turn. -/
structure CommitOutcome where
  descOk : Bool := true
  cmdOk : Bool := true
  allocs : List (Option UInt32) := []
  sent : Bool := true

namespace FltHw

/-- Memory that is handed out is not in use, and is aligned. -/
def dmaAlloc (s : FltHw) (answer : Option UInt32) : Option UInt32 :=
  answer.filter fun a => a ≠ 0 ∧ a.toNat % 4 = 0 ∧ (s.pool.heap a).isNone

/-- What a buffer holds, whether it is new or not. -/
def put (s : FltHw) (a : UInt32) (bytes : List UInt8) : FltHw :=
  { s with pool := s.pool.put a bytes }

def dmaFree (s : FltHw) (a : UInt32) : FltHw := { s with pool := s.pool.free a }

end FltHw

section Size

variable (ip : IpaIpType)

/-- The first pass over the rules of a table, up to the first one that fails. -/
def sizeEntries : List FltHwEntry → List FltHwEntry × Bool
  | [] => ([], true)
  | entry :: es =>
    match ipaGenerateFltHwRule ip entry [] with
    | none => (entry :: es, false)
    | some (entry, _) =>
      let rest := sizeEntries es
      (entry :: rest.1, rest.2)

def FltHwTbl.size (tbl : FltHwTbl) : FltHwTbl × Bool :=
  let sized := sizeEntries ip tbl.entries
  let ruleSetSz := (sized.1.map (·.hwLen)).sum
  if sized.2 ∧ ruleSetSz ≠ 0 then ({ entries := sized.1, sz := ruleSetSz + 4 }, true)
  else ({ tbl with entries := sized.1 }, sized.2)

/-- `ipa_get_flt_hw_tbl_size` of the tables; false is `-EPERM`. -/
def ipaGetFltHwTblSize : List FltTblKey → FltHw → FltHw × Bool
  | [], s => (s, true)
  | k :: ks, s =>
    let sized := (s.tbl k).size ip
    let s := { s with tbl := update s.tbl k sized.1 }
    if sized.2 then ipaGetFltHwTblSize ks s else (s, false)

end Size

/-- The words of the two header buffers. -/
structure FltHeads where
  head1 : List UInt32
  head2 : List UInt32

namespace FltHeads

def start (cfg : FltHwCfg) : FltHeads where
  head1 := List.replicate 7 cfg.emptyRtTblMem
  head2 := List.replicate 9 cfg.emptyRtTblMem

/-- `IPA_WRITE_FLT_HDR`, and the first word for the global table. The pipes from 6 to 10
have no word. -/
def write (heads : FltHeads) (a : UInt32) : FltTblKey → FltHeads
  | .glob _ => { heads with head1 := heads.head1.set 0 a }
  | .ep idx _ =>
    if idx ≤ 5 then { heads with head1 := heads.head1.set (1+idx) a }
    else if 6 ≤ idx ∧ idx ≤ 10 then heads
    else if 11 ≤ idx ∧ idx ≤ 19 then { heads with head2 := heads.head2.set (idx-11) a }
    else heads

end FltHeads

/-- The state of `ipa_generate_flt_hw_tbl_common`. -/
structure FltGen where
  s : FltHw
  heads : FltHeads
  allocs : List (Option UInt32)

section Generate

variable (ip : IpaIpType)

/-- The second pass over the rules: the buffer up to where the next one goes. -/
def genEntries : List FltHwEntry → List UInt8 → Option (List UInt8)
  | [], buf => some buf
  | entry :: es, buf => (ipaGenerateFltHwRule ip entry buf).bind fun r => genEntries es r.2

/-- The memory of a table: zero at first, then the rules and the word that ends them. There
is none for a second pass that goes wrong, which the first one excludes. -/
def FltHwTbl.membody (tbl : FltHwTbl) : Option (List UInt8) :=
  (genEntries ip tbl.entries []).map fun rules =>
    rules ++ le32 0 ++ List.replicate (tbl.sz - (rules.length + 4)) 0

/-- One table that has rules. -/
def FltGen.table (g : FltGen) (k : FltTblKey) : Option FltGen :=
  if (g.s.tbl k).sz = 0 then none
  else do
    let a ← g.s.dmaAlloc (g.allocs.headD none)
    let body ← (g.s.tbl k).membody ip
    let s := g.s.put a body
    return { s := { s with pool := s.pool.stage k a }, heads := g.heads.write a k,
             allocs := g.allocs.tail }

/-- `ipa_generate_flt_hw_tbl_common`; when it fails, the tables before keep their new
buffers. -/
def ipaGenerateFltHwTblCommon : List FltTblKey → FltGen → FltGen × Bool
  | [], g => (g, true)
  | k :: ks, g =>
    if (g.s.tbl k).entries = [] then ipaGenerateFltHwTblCommon ks g
    else
      match g.table ip k with
      | none => (g, false)
      | some g => ipaGenerateFltHwTblCommon ks g

end Generate

namespace FltHwCfg

variable (cfg : FltHwCfg)

def fltOfst : IpaIpType → ℕ
  | .v4 => cfg.v4FltOfst
  | _ => cfg.v6FltOfst

/-- The tables of a family, in the order in which the driver goes through them. -/
def tblKeys (ip : IpaIpType) : List FltTblKey :=
  .glob ip :: (List.range cfg.ipaNumPipes).map fun idx => .ep idx ip

/-- The pipes from 0 to 5 whose header words belong to the driver. -/
def ownsLow (idx : ℕ) : Bool :=
  ¬ cfg.skipEpCfgShadow idx ∧ ¬ (cfg.appsWanCons = idx ∨ cfg.appsLanCons = idx ∨
    cfg.appsCmdProd = idx ∨ (cfg.appsLanWanProd = idx ∧ cfg.modemCfgEmbPipeFlt))

/-- The pipes from 11 on. -/
def ownsHigh (idx : ℕ) : Bool :=
  ¬ cfg.skipEpCfgShadow idx ∧ ¬ (cfg.appsLanWanProd = idx ∧ cfg.modemCfgEmbPipeFlt)

/-- The tables whose header words a commit writes. -/
def cmdKeys (ip : IpaIpType) : List FltTblKey :=
  .glob ip :: (((List.range 6).filter cfg.ownsLow ++
    (List.range' 11 (cfg.ipaNumPipes - 11)).filter cfg.ownsHigh).map fun idx => .ep idx ip)

/-- The place of a table's header word. -/
def localAddr : FltTblKey → ℕ
  | .glob ip => cfg.smemRestrictedBytes + cfg.fltOfst ip + 4
  | .ep idx ip =>
    if idx < 6 then cfg.smemRestrictedBytes + cfg.fltOfst ip + 8 + idx*4
    else cfg.smemRestrictedBytes + cfg.fltOfst ip + 13*4 + (idx-11)*4

end FltHwCfg

/-- The words of a buffer, copied to a place in shared memory. -/
def storeWords (place : ℕ) : List UInt32 → (ℕ → UInt32) → ℕ → UInt32
  | [], sram => sram
  | w :: ws, sram => storeWords (place+4) ws (update sram place w)

/-- `_ipa_init_flt4_v2` and `_ipa_init_flt6_v2`: the bitmap of the tables, then the empty
table for the global one and for each pipe. -/
def ipaInitFltV2 (cfg : FltHwCfg) (ip : IpaIpType) (sram : ℕ → UInt32) : ℕ → UInt32 :=
  storeWords (cfg.smemRestrictedBytes + cfg.fltOfst ip)
    (0x1FFFFF :: List.replicate (cfg.ipaNumPipes+1) cfg.emptyRtTblMem) sram

/-- `struct ipa_hw_imm_cmd_dma_shared_mem` for a word; `system_addr` is a place in a
buffer. -/
structure DmaSharedMem where
  buffer : UInt32
  offset : ℕ
  localAddr : ℕ

def dmaCmd (cfg : FltHwCfg) (head1 head2 : UInt32) (k : FltTblKey) : DmaSharedMem :=
  match k with
  | .glob _ => ⟨head1, 0, cfg.localAddr k⟩
  | .ep idx _ =>
    if idx < 6 then ⟨head1, 4 + idx*4, cfg.localAddr k⟩
    else ⟨head2, (idx-11)*4, cfg.localAddr k⟩

/-- The arrays `cmd` and `desc`, which are filled side by side, with `num_desc`. -/
structure CmdArray where
  cmd : List DmaSharedMem
  numDesc : ℕ

namespace CmdArray

def kzalloc : CmdArray := ⟨List.replicate 16 ⟨0, 0, 0⟩, 0⟩

/-- The entry `num_desc++`; there is none for a write behind the end. -/
def put (a : CmdArray) (c : DmaSharedMem) : Option CmdArray :=
  if a.numDesc < a.cmd.length then some ⟨a.cmd.set a.numDesc c, a.numDesc+1⟩ else none

/-- What `ipa_send_cmd` is given. -/
def sent (a : CmdArray) : List DmaSharedMem := a.cmd.take a.numDesc

end CmdArray

/-- The three places of `__ipa_commit_flt_v2` where commands are made: the global table, the
pipes from 0 to 5, and those from 11 on. -/
def fltCmds (cfg : FltHwCfg) (ip : IpaIpType) (head1 head2 : UInt32) : Option CmdArray := do
  let pipe (owns : ℕ → Bool) (a : CmdArray) (i : ℕ) : Option CmdArray :=
    if owns i then a.put (dmaCmd cfg head1 head2 (.ep i ip)) else some a
  let a ← CmdArray.kzalloc.put (dmaCmd cfg head1 head2 (.glob ip))
  let a ← (List.range 6).foldlM (pipe cfg.ownsLow) a
  (List.range' 11 (cfg.ipaNumPipes - 11)).foldlM (pipe cfg.ownsHigh) a

/-- The word at an offset of a buffer. -/
def wordAt (bytes : List UInt8) (offset : ℕ) : UInt32 :=
  getLe32 (bytes.getD offset 0) (bytes.getD (offset+1) 0) (bytes.getD (offset+2) 0)
    (bytes.getD (offset+3) 0)

namespace FltHw

/-- `IPA_DMA_SHARED_MEM`. -/
def dmaSharedMem (s : FltHw) (cmd : DmaSharedMem) : FltHw :=
  let w := wordAt ((s.pool.heap cmd.buffer).getD []) cmd.offset
  { s with sram := update s.sram cmd.localAddr w }

def reapTbl (s : FltHw) (k : FltTblKey) : FltHw :=
  let s := { s with pool := s.pool.reapPrev k }
  if (s.tbl k).entries = [] then { s with pool := s.pool.reapCurr k } else s

/-- `__ipa_reap_sys_flt_tbls`. -/
def ipaReapSysFltTbls (s : FltHw) (keys : List FltTblKey) : FltHw := keys.foldl reapTbl s

/-- `ipa_generate_flt_hw_tbl_v2`: the two header buffers, or none for `-EPERM`. -/
def ipaGenerateFltHwTblV2 (cfg : FltHwCfg) (ip : IpaIpType) (allocs : List (Option UInt32))
    (s : FltHw) : FltHw × Option (UInt32 × UInt32) :=
  match s.dmaAlloc (allocs.headD none) with
  | none => (s, none)
  | some head1 =>
    let s := s.put head1 ((FltHeads.start cfg).head1.flatMap le32)
    match s.dmaAlloc (allocs.tail.headD none) with
    | none => (s.dmaFree head1, none)
    | some head2 =>
      let s := s.put head2 ((FltHeads.start cfg).head2.flatMap le32)
      let sized := ipaGetFltHwTblSize ip (cfg.tblKeys ip) s
      if sized.2 then
        let gen := ipaGenerateFltHwTblCommon ip (cfg.tblKeys ip)
          ⟨sized.1, .start cfg, allocs.tail.tail⟩
        let s := (gen.1.s.put head1 (gen.1.heads.head1.flatMap le32)).put head2
          (gen.1.heads.head2.flatMap le32)
        if gen.2 then (s, some (head1, head2)) else ((s.dmaFree head2).dmaFree head1, none)
      else ((sized.1.dmaFree head2).dmaFree head1, none)

/-- `__ipa_commit_flt_v2`. -/
def ipaCommitFltV2 (cfg : FltHwCfg) (ip : IpaIpType) (o : CommitOutcome) (s : FltHw) :
    FltHw × ℤ :=
  if ¬ o.descOk ∨ ¬ o.cmdOk then (s, eNoMem)
  else
    let gen := ipaGenerateFltHwTblV2 cfg ip o.allocs s
    match gen.2 with
    | none => (gen.1, eFault)
    | some (head1, head2) =>
      if o.sent then
        let s := (((cfg.cmdKeys ip).map (dmaCmd cfg head1 head2)).foldl dmaSharedMem
          gen.1).ipaReapSysFltTbls (cfg.tblKeys ip)
        ((s.dmaFree head1).dmaFree head2, 0)
      else ((gen.1.dmaFree head1).dmaFree head2, eFault)

/-- `ipa2_commit_flt`. -/
def ipa2CommitFlt (cfg : FltHwCfg) (ip : IpaIpType) (o : CommitOutcome) (s : FltHw) :
    FltHw × ℤ :=
  if ip = .max then (s, eInval)
  else
    let r := s.ipaCommitFltV2 cfg ip o
    (r.1, if r.2 = 0 then 0 else ePerm)

end FltHw

end X00TDCellular
