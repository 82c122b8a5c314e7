import Mathlib.Data.List.Nodup
import Mathlib.Data.List.Perm.Basic
import X00TDCellular.VendorInitRequests

/-! The mux ids that `bind_mux` has bound when it returns 0. -/

namespace X00TDCellular
namespace VendorInit
open Buffer RecordFormat EnvProgram EnvProgram.Prog EnvProgram.Monitor

/-- The value of the first TLV of a type, as `qmi_tlv_find` finds it in the bytes that are
sent. -/
def QmiRequest.valueOf (r : QmiRequest) (type : UInt8) : Option (List UInt8) := do
  let (msg, off) ← r.build (List.replicate r.bufSz 0)
  let (o, l) ← (qmiTlvFind msg off type).join
  return (msg.drop o).take l

theorem QmiRequest.valueOf_eq {r : QmiRequest} (hbuf : 7 + bodySize r.tlvs ≤ r.bufSz)
    {pre post : List TlvCall} {c : TlvCall} (htlvs : r.tlvs = pre ++ c :: post)
    (hpre : ∀ d ∈ pre, d.type ≠ c.type) : r.valueOf c.type = some c.payload := by
  have hzero : (List.replicate r.bufSz (0 : UInt8)).length = r.bufSz := List.length_replicate
  let front := qmiHeader r.txid r.msg.toUInt16 (UInt16.ofNat (bodySize r.tlvs))
  let tail := (List.replicate r.bufSz (0 : UInt8)).drop (7 + bodySize r.tlvs)
  have hbuild : r.build (List.replicate r.bufSz 0) =
      some (front ++ qmiTlv.encode (r.tlvs.map TlvCall.record) ++ tail, 7 + bodySize r.tlvs) :=
    buildRequest_eq _ r.txid r.msg.toUInt16 r.tlvs (by omega)
  have hfind := qmiTlvFind_message front tail (r.tlvs.map TlvCall.record) c.type rfl
  rw [encode_records_length, locate_record htlvs hpre] at hfind
  have hval := slice_value front tail (pre.map TlvCall.record) (post.map TlvCall.record) c.record
  have hsplit : pre.map TlvCall.record ++ c.record :: post.map TlvCall.record =
      r.tlvs.map TlvCall.record := by
    rw [htlvs, List.map_append, List.map_cons]
  rw [hsplit, encode_records_length] at hval
  simp only [valueOf, hbuild, Option.bind_eq_bind, Option.bind_some, hfind, Option.join_some,
    Option.pure_def]
  exact congrArg some hval

/-- The mux id that a request carries. -/
def QmiRequest.muxId (r : QmiRequest) : Option UInt8 :=
  match r.valueOf 0x11 with
  | some [id] => some id
  | _ => none

theorem muxId_bindMuxDataPort (txid : UInt16) (m : ℕ) :
    (bindMuxDataPort txid m).muxId = some (UInt8.ofNat m) := by
  have hbuf : 7 + bodySize (bindMuxDataPort txid m).tlvs ≤ (bindMuxDataPort txid m).bufSz := by
    simp [bindMuxDataPort, bodySize, TlvCall.payload, epInfo]
  have hbefore : ∀ d ∈ [TlvCall.bytes 0x10 epInfo], d.type ≠ 0x11 := by
    simp [TlvCall.type]
  have hvalue : (bindMuxDataPort txid m).valueOf 0x11 = some [UInt8.ofNat m] :=
    QmiRequest.valueOf_eq (c := .u8 0x11 (UInt8.ofNat m)) hbuf rfl hbefore
  simp [QmiRequest.muxId, hvalue]

/-- The requests that are sent. -/
def requests (tr : Trace) : List QmiRequest :=
  tr.filterMap fun e => match e with
    | ⟨.qrtrTxn _ _ req _ _, _⟩ => some req
    | _ => none

/-- The binding requests whose reply has no error. -/
def boundBy (tr : Trace) : List QmiRequest :=
  tr.filterMap fun e => match e with
    | ⟨.qrtrTxn _ _ req _ _, some resp⟩ =>
      if req.msg = .bindMux ∧ resultOf resp = 0 then some req else none
    | _ => none

/-- The ids from 1 to `numMuxes` are bound, each once, and no transaction id is used
twice. -/
structure BindsAll (numMuxes : ℤ) (tr : Trace) : Prop where
  one_le : 1 ≤ numMuxes
  ids : ((boundBy tr).map fun r => r.muxId.map UInt8.toNat).Perm
    ((List.range numMuxes.toNat).map fun i => some (i+1))
  nonzero : ∀ r ∈ boundBy tr, ∃ id, r.muxId = some id ∧ id ≠ 0
  txid_nodup : ((requests tr).map QmiRequest.txid).Nodup
  txid_ne_zero : ∀ r ∈ requests tr, r.txid ≠ 0

/-- The requests of so many rounds of the loop. -/
def bindRequests (left m : ℕ) (txid : UInt16) : List QmiRequest :=
  (List.range left).map fun i => bindMuxDataPort (txid + UInt16.ofNat i) (m+i)

theorem bindRequests_succ (left m : ℕ) (txid : UInt16) :
    bindRequests (left+1) m txid = bindMuxDataPort txid m :: bindRequests left (m+1) (txid+1) := by
  simp only [bindRequests, List.range_succ_eq_map, List.map_cons, List.map_map]
  congr 1
  · simp
  · apply List.map_congr_left
    intro i _
    have htxid : txid + UInt16.ofNat (i+1) = txid + 1 + UInt16.ofNat i := by
      rw [UInt16.ofNat_add, UInt16.add_comm (UInt16.ofNat i), ← UInt16.add_assoc]
      rfl
    have hm : m + (i+1) = m + 1 + i := by omega
    simp only [Function.comp_apply, Nat.succ_eq_add_one, htxid, hm]

/-- A loop that comes to its end has bound in every round. -/
theorem ends_bindMuxes {left m : ℕ} {ctx ctx' : ViCtx} {tr : Trace}
    (h : (bindMuxes left m ctx).Ends tr (0, ctx')) :
    requests tr = bindRequests left m ctx.txid ∧ boundBy tr = bindRequests left m ctx.txid := by
  induction left generalizing m ctx tr with
  | zero =>
    obtain ⟨rfl, _⟩ := ends_ret.mp h
    exact ⟨rfl, rfl⟩
  | succ left ih =>
    obtain ⟨resp, tr', rfl, hrest⟩ := ends_ask_bind.mp h
    cases resp with
    -- a round without a reply, or with an error in it, does not end with 0
    | none =>
      obtain ⟨_, hrc⟩ := ends_ret.mp hrest
      cases hrc
    | some resp =>
      dsimp only at hrest
      split at hrest
      · obtain ⟨_, hrc⟩ := ends_ret.mp hrest
        cases hrc
      · rename_i hok
        obtain ⟨hreq, hbound⟩ := ih hrest
        rw [bindRequests_succ, ← hreq]
        refine ⟨rfl, ?_⟩
        have hmsg : (bindMuxDataPort ctx.txid m).msg = .bindMux ∧ resultOf resp = 0 :=
          ⟨rfl, not_not.mp hok⟩
        simp only [boundBy, List.filterMap_cons, if_pos hmsg]
        rw [hreq]
        exact congrArg _ hbound

theorem ends_stageBindMux {ctx ctx' : ViCtx} {tr : Trace} (hdry : ctx.dryRun = false)
    (h : (stageBindMux ctx).Ends tr (0, ctx')) :
    requests tr = bindRequests ctx.numMuxes.toNat 1 1 ∧
      boundBy tr = bindRequests ctx.numMuxes.toNat 1 1 := by
  have hlive : ¬ ctx.dryRun = true := by simp [hdry]
  rw [stageBindMux, if_neg hlive] at h
  obtain ⟨fd, tr₁, rfl, hopen⟩ := ends_ask_bind.mp h
  split at hopen
  · obtain ⟨_, hrc⟩ := ends_ret.mp hopen
    cases hrc
  obtain ⟨port, tr₂, rfl, hlookup⟩ := ends_ask_bind.mp hopen
  split at hlookup
  · obtain ⟨_, tr₃, rfl, hclose⟩ := ends_ask_bind.mp hlookup
    obtain ⟨_, hrc⟩ := ends_ret.mp hclose
    cases hrc
  obtain ⟨ok, tr₃, rfl, hrecord⟩ := ends_ask_bind.mp hlookup
  obtain ⟨⟨rc, ctx₁⟩, tr₄, tr₅, rfl, hloop, hlast⟩ := ends_bind.mp hrecord
  dsimp only at hlast
  split at hlast
  · rename_i hrc
    obtain ⟨_, hpair⟩ := ends_ret.mp hlast
    cases hpair
    exact absurd rfl hrc
  · rename_i hrc
    obtain ⟨_, tr₆, rfl, hend⟩ := ends_ask_bind.mp hlast
    obtain ⟨rfl, _⟩ := ends_ret.mp hend
    rw [not_not.mp hrc] at hloop
    obtain ⟨hreq, hbound⟩ := ends_bindMuxes hloop
    refine ⟨?_, ?_⟩
    · rw [← hreq]
      simp only [requests, List.filterMap_cons, List.filterMap_append, List.filterMap_nil,
        List.append_nil]
    · rw [← hbound]
      simp only [boundBy, List.filterMap_cons, List.filterMap_append, List.filterMap_nil,
        List.append_nil]

section Ids

variable {numMuxes : ℤ} {tr : Trace}

/-- The ids from 256 on do not come in a byte. -/
theorem BindsAll.le_255 (h : BindsAll numMuxes tr) : numMuxes ≤ 255 := by
  by_contra hlarge
  have hmem : some 256 ∈ (List.range numMuxes.toNat).map fun i => some (i+1) :=
    List.mem_map.mpr ⟨255, List.mem_range.mpr (by omega), rfl⟩
  obtain ⟨r, _, hid⟩ := List.mem_map.mp (h.ids.mem_iff.mpr hmem)
  obtain ⟨id, _, hnat⟩ := Option.map_eq_some_iff.mp hid
  have hbyte : id.toNat < 256 := id.toNat_lt
  omega

theorem bindsAll_of_requests (hone : 1 ≤ numMuxes) (hle : numMuxes ≤ 255)
    (hreq : requests tr = bindRequests numMuxes.toNat 1 1)
    (hbound : boundBy tr = bindRequests numMuxes.toNat 1 1) : BindsAll numMuxes tr where
  one_le := hone
  ids := by
    have heq : (bindRequests numMuxes.toNat 1 1).map (fun r => r.muxId.map UInt8.toNat) =
        (List.range numMuxes.toNat).map fun i => some (i+1) := by
      rw [bindRequests, List.map_map]
      apply List.map_congr_left
      intro i hi
      have hlt : i < numMuxes.toNat := List.mem_range.mp hi
      have hmod : (1 + i) % 256 = i + 1 := by omega
      simp only [Function.comp_apply, muxId_bindMuxDataPort, Option.map_some,
        UInt8.toNat_ofNat', Nat.reducePow, hmod]
    rw [hbound, heq]
  nonzero := by
    intro r hr
    rw [hbound] at hr
    obtain ⟨i, hi, rfl⟩ := List.mem_map.mp hr
    have hlt : i < numMuxes.toNat := List.mem_range.mp hi
    refine ⟨_, muxId_bindMuxDataPort _ _, ?_⟩
    intro hzero
    have hnat := congrArg UInt8.toNat hzero
    simp only [UInt8.toNat_ofNat', Nat.reducePow, UInt8.toNat_zero] at hnat
    omega
  txid_nodup := by
    rw [hreq, bindRequests, List.map_map]
    apply List.Nodup.map_on _ List.nodup_range
    intro i hi j hj heq
    have hi' : i < numMuxes.toNat := List.mem_range.mp hi
    have hj' : j < numMuxes.toNat := List.mem_range.mp hj
    -- the transaction ids count up from 1 and do not come round
    have hnat := congrArg UInt16.toNat heq
    simp only [Function.comp_apply, bindMuxDataPort, UInt16.toNat_add, UInt16.toNat_one,
      UInt16.toNat_ofNat', Nat.reducePow] at hnat
    omega
  txid_ne_zero := by
    intro r hr hzero
    rw [hreq] at hr
    obtain ⟨i, hi, rfl⟩ := List.mem_map.mp hr
    have hlt : i < numMuxes.toNat := List.mem_range.mp hi
    have hnat := congrArg UInt16.toNat hzero
    simp only [bindMuxDataPort, UInt16.toNat_add, UInt16.toNat_one, UInt16.toNat_ofNat',
      Nat.reducePow, UInt16.toNat_zero] at hnat
    omega

end Ids

/-- When `bind_mux` returns 0, the muxes asked for are bound exactly when there are from 1
to 255 of them. -/
theorem bindMux_bindsAll_iff {ctx ctx' : ViCtx} {tr : Trace} (hdry : ctx.dryRun = false)
    (h : (stageBindMux ctx).Ends tr (0, ctx')) :
    BindsAll ctx.numMuxes tr ↔ 1 ≤ ctx.numMuxes ∧ ctx.numMuxes ≤ 255 := by
  obtain ⟨hreq, hbound⟩ := ends_stageBindMux hdry h
  constructor
  · intro hall
    exact ⟨hall.one_le, hall.le_255⟩
  · rintro ⟨hone, hle⟩
    exact bindsAll_of_requests hone hle hreq hbound

/-- The bytes of a reply without error. -/
def successReply : List UInt8 := [2, 1, 0, 0xA2, 0, 7, 0, 0x02, 4, 0, 0, 0, 0, 0]

/-- The run that binds so many muxes, all requests being accepted. -/
def bindTrace (numMuxes : ℤ) : Trace :=
  (stageBindMux { apn := defaultApn, numMuxes := numMuxes }).events (answering successReply)

theorem bindMux_bindsAll_two :
    (∃ ctx', (stageBindMux { apn := defaultApn, numMuxes := 2 }).Ends (bindTrace 2) (0, ctx')) ∧
      BindsAll 2 (bindTrace 2) := by
  have hend := ends_answering successReply
    (p := stageBindMux { apn := defaultApn, numMuxes := 2 }) (by decide +kernel)
  exact ⟨⟨_, hend⟩, (bindMux_bindsAll_iff rfl hend).mpr ⟨by decide, by decide⟩⟩

/-- The stage returns 0 without a mux, and with one more than there are ids. -/
theorem bindMux_not_bindsAll :
    (∃ ctx', (stageBindMux { apn := defaultApn, numMuxes := 0 }).Ends (bindTrace 0) (0, ctx') ∧
        ¬ BindsAll 0 (bindTrace 0)) ∧
      ∃ ctx', (stageBindMux { apn := defaultApn, numMuxes := 256 }).Ends
          (bindTrace 256) (0, ctx') ∧ ¬ BindsAll 256 (bindTrace 256) := by
  constructor
  · refine ⟨_, ends_answering successReply (by decide +kernel), ?_⟩
    intro h
    exact absurd h.one_le (by decide)
  · refine ⟨_, ends_answering successReply (by decide +kernel), ?_⟩
    intro h
    exact absurd h.le_255 (by decide)

end VendorInit
end X00TDCellular
