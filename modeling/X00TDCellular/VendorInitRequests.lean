import X00TDCellular.VendorInitSockets

/-! The requests of the stages as bytes: which of them stay inside the buffer they are
built in, and what they carry. -/

namespace X00TDCellular
open Buffer RecordFormat

/-- An appending call stores as many bytes as it moves the offset, all inside the buffer. -/
theorem TlvCall.length_of_write {b b' : List UInt8} {off off' : ℕ} {c : TlvCall}
    (h : c.write b off = some (b', off')) :
    off' = off + 3 + c.payload.length ∧ off' ≤ b.length ∧ b'.length = b.length := by
  have hlen : c.payload.length = (UInt16.ofNat c.payload.length).toNat := by
    simp [Nat.mod_eq_of_lt c.payload_length_lt]
  rw [TlvCall.write_eq, qmiTlvBytes_eq_pokes _ _ _ _ _ hlen, ← hlen] at h
  obtain ⟨b₁, hpokes, hpair⟩ := Option.map_eq_some_iff.mp h
  cases hpair
  obtain ⟨hend, hkeep⟩ := length_of_pokes hpokes
  have hin := hend (List.cons_ne_nil _ _)
  simp only [List.length_cons] at hin
  exact ⟨rfl, by omega, hkeep⟩

theorem length_of_writeTlvs {b b' : List UInt8} {off off' : ℕ} {calls : List TlvCall}
    (h : writeTlvs b off calls = some (b', off')) (hoff : off ≤ b.length) :
    off' = off + bodySize calls ∧ off' ≤ b.length := by
  induction calls generalizing b off with
  | nil =>
    cases h
    exact ⟨rfl, hoff⟩
  | cons c calls ih =>
    obtain ⟨⟨b₁, off₁⟩, hfirst, hrest⟩ := Option.bind_eq_some_iff.mp h
    obtain ⟨hoff₁, hin, hkeep⟩ := c.length_of_write hfirst
    obtain ⟨hend, hle⟩ := ih hrest (by omega)
    rw [hkeep] at hle
    refine ⟨?_, hle⟩
    rw [hend, hoff₁]
    simp only [bodySize, List.map_cons, List.sum_cons]
    omega

/-- A request that is built needs no byte behind the buffer. -/
theorem bodySize_of_buildRequest {b msg : List UInt8} {txid msgId : UInt16}
    {calls : List TlvCall} {off : ℕ} (h : buildRequest b txid msgId calls = some (msg, off)) :
    7 + bodySize calls ≤ b.length := by
  obtain ⟨⟨b₁, afterHdr⟩, hhdr, hrest⟩ := Option.bind_eq_some_iff.mp h
  obtain ⟨⟨b₂, off₂⟩, htlvs, _⟩ := Option.bind_eq_some_iff.mp hrest
  have hseven : 7 ≤ b.length := by
    rw [qmiHdrReq_eq_pokes] at hhdr
    obtain ⟨b₃, hpokes, _⟩ := Option.map_eq_some_iff.mp hhdr
    have hin := (length_of_pokes hpokes).1 (List.cons_ne_nil _ _)
    rw [Nat.zero_add] at hin
    exact hin
  rw [qmiHdrReq_eq b txid msgId 0 hseven] at hhdr
  cases hhdr
  have hlen : (qmiHeader txid msgId 0 ++ b.drop 7).length = b.length := by
    rw [List.length_append, List.length_drop]
    have hheader : (qmiHeader txid msgId 0).length = 7 := rfl
    omega
  obtain ⟨hend, hin⟩ := length_of_writeTlvs htlvs (by omega)
  omega

namespace VendorInit
open EnvProgram EnvProgram.Prog EnvProgram.Monitor

/-- The length field of a message. -/
def bodyLength (msg : List UInt8) : ℕ := (getLe16 (msg.getD 5 0) (msg.getD 6 0)).toNat

/-- Whatever the buffer held, the request is built inside it, and as many bytes are sent
behind the header as the length field says. -/
def QmiRequest.Fits (r : QmiRequest) : Prop :=
  ∀ buf : List UInt8, buf.length = r.bufSz →
    ∃ msg off, r.build buf = some (msg, off) ∧ off = 7 + bodyLength msg

theorem QmiRequest.fits_iff {r : QmiRequest} (hsz : r.bufSz ≤ 65536) :
    r.Fits ↔ 7 + bodySize r.tlvs ≤ r.bufSz := by
  constructor
  · intro h
    obtain ⟨msg, off, hbuild, _⟩ := h (List.replicate r.bufSz 0) List.length_replicate
    have hin := bodySize_of_buildRequest hbuild
    rw [List.length_replicate] at hin
    exact hin
  · intro h buf hbuf
    rw [← hbuf] at h
    refine ⟨_, _, buildRequest_eq buf r.txid r.msg.toUInt16 r.tlvs h, ?_⟩
    have hmod : bodySize r.tlvs % 65536 = bodySize r.tlvs := by omega
    have hfield : bodyLength (qmiHeader r.txid r.msg.toUInt16 (UInt16.ofNat (bodySize r.tlvs)) ++
        qmiTlv.encode (r.tlvs.map TlvCall.record) ++ buf.drop (7 + bodySize r.tlvs)) =
        bodySize r.tlvs := by
      change (getLe16 (byte0 (UInt16.ofNat (bodySize r.tlvs)))
        (byte1 (UInt16.ofNat (bodySize r.tlvs)))).toNat = _
      rw [toNat_getLe16, toNat_byte0, toNat_byte1]
      simp only [UInt16.toNat_ofNat', Nat.reducePow, hmod]
      omega
    rw [hfield]

/-- A modem that answers every request with the same bytes. -/
def answering (reply : List UInt8) : (c : Call) → Answer c
  | .qrtrOpen => (3 : ℤ)
  | .qrtrLookup _ _ => (1 : UInt32)
  | .qrtrTxn _ _ _ _ _ => some reply
  | .close _ => ()
  | .writeFile _ _ => true
  | .system _ => (0 : ℤ)
  | .tryWrite _ _ => true
  | .lteRounds => (0 : ℕ)
  | .gStop => false
  | .pause => ()

/-- A run against such a modem that returns 0. -/
theorem ends_answering (reply : List UInt8) {p : Vi (ℕ × ViCtx)}
    (h : (p.outcome (answering reply)).1 = 0) :
    p.Ends (p.events (answering reply)) (0, (p.outcome (answering reply)).2) := by
  rw [← h]
  exact ends_events _ _

/-- The request of a call stays inside its buffer. -/
def Call.Fits : Call → Prop
  | .qrtrTxn _ _ req _ _ => req.Fits
  | _ => True

section WdsStart

variable {α : Type} {R : α → Prop}

theorem fits_txn {fd : ℤ} {port : UInt32} {req : QmiRequest} {respSz timeoutMs : ℕ}
    {f : Option (List UInt8) → Vi α} (hreq : req.Fits)
    (h : ∀ resp, Only Call.Fits R (f resp)) :
    Only Call.Fits R (qrtrTxn fd port req respSz timeoutMs >>= f) :=
  only_ask_bind hreq h

theorem fits_record {key : StateFile} {value : StateValue} {f : Bool → Vi α}
    (h : ∀ ok, Only Call.Fits R (f ok)) : Only Call.Fits R (stateRecord key value >>= f) :=
  only_ask_bind trivial h

theorem fits_recordU32 {resp : List UInt8} {type : UInt8} {key : StateFile}
    {value : UInt32 → StateValue} {f : Unit → Vi α} (h : Only Call.Fits R (f ())) :
    Only Call.Fits R (recordU32 resp type key value >>= f) := by
  apply only_bind (R := fun _ => True)
  · unfold recordU32
    split
    · exact fits_record fun _ => trivial
    · exact trivial
  · exact fun _ _ => h

theorem fits_issueGetSettings (ctx : ViCtx) :
    Only Call.Fits (fun _ => True) (issueGetSettings ctx) := by
  have hreq : (getCurrentSettings ctx.txid).Fits :=
    (QmiRequest.fits_iff (by simp [getCurrentSettings])).mpr
      (by simp [getCurrentSettings, bodySize, TlvCall.payload, le32])
  apply fits_txn hreq
  intro resp
  cases resp with
  | none => exact trivial
  | some resp =>
    apply fits_recordU32
    apply fits_recordU32
    apply fits_recordU32
    apply fits_recordU32
    exact trivial

/-- The longest APN, as its 16-bit length counts it, that leaves room for the other TLVs. -/
def longestApn (simple : Bool) : ℕ := if simple then 242 else 226

theorem bodySize_startNetwork (ctx : ViCtx) :
    7 + bodySize (startNetwork ctx).tlvs =
      256 + ctx.apn.length % 65536 - longestApn ctx.simpleWds := by
  have htake : (ctx.apn.take (ctx.apn.length % 65536)).length = ctx.apn.length % 65536 := by
    rw [List.length_take]
    omega
  cases hform : ctx.simpleWds with
  | true =>
    simp only [startNetwork, hform, if_true, longestApn, bodySize, List.map_cons, List.map_nil,
      List.sum_cons, List.sum_nil, apnTlv, TlvCall.payload, htake, List.length_cons,
      List.length_nil]
    omega
  | false =>
    simp only [startNetwork, hform, longestApn, bodySize, List.map_cons, List.map_nil,
      List.sum_cons, List.sum_nil, apnTlv, TlvCall.payload, htake, List.length_cons,
      List.length_nil, Bool.false_eq_true, if_false]
    omega

theorem startNetwork_fits_iff (ctx : ViCtx) :
    (startNetwork ctx).Fits ↔ ctx.apn.length % 65536 ≤ longestApn ctx.simpleWds := by
  have hsz : (startNetwork ctx).bufSz = 256 := rfl
  have hlongest : longestApn ctx.simpleWds ≤ 242 := by
    unfold longestApn
    split <;> omega
  rw [QmiRequest.fits_iff (by omega), bodySize_startNetwork, hsz]
  omega

theorem fits_issueStartNetwork {ctx : ViCtx} (h : (startNetwork ctx).Fits) :
    Only Call.Fits (fun _ => True) (issueStartNetwork ctx) := by
  apply fits_txn h
  intro resp
  cases resp with
  | none => exact trivial
  | some resp =>
    dsimp only
    split
    · exact fits_record fun _ => trivial
    · apply fits_recordU32
      apply fits_record
      intro _
      apply only_bind (fits_issueGetSettings _)
      exact fun _ _ => trivial

/-- The two requests that the full form sends first. -/
theorem fits_precedents (txid : UInt16) : (afSetMode txid).Fits ∧ (setIpFamily txid).Fits :=
  ⟨(QmiRequest.fits_iff (by simp [afSetMode])).mpr
      (by simp [afSetMode, bodySize, TlvCall.payload, le32]),
    (QmiRequest.fits_iff (by simp [setIpFamily])).mpr
      (by simp [setIpFamily, bodySize, TlvCall.payload])⟩

theorem fits_wdsStart {ctx : ViCtx}
    (h : ctx.apn.length % 65536 ≤ longestApn ctx.simpleWds) :
    Only Call.Fits (fun _ => True) (stageWdsStart ctx) := by
  unfold stageWdsStart
  split
  · exact trivial
  split
  · exact trivial
  split
  · exact fits_issueStartNetwork ((startNetwork_fits_iff ctx).mpr h)
  apply fits_txn (fits_precedents _).1
  intro af
  split
  · exact trivial
  apply fits_txn (fits_precedents _).2
  intro family
  split
  · exact trivial
  · exact fits_issueStartNetwork ((startNetwork_fits_iff _).mpr h)

theorem runs_txn {fd : ℤ} {port : UInt32} {req : QmiRequest} {respSz timeoutMs : ℕ}
    {f : Option (List UInt8) → Vi α} {tr : Trace} {p : Vi α} (resp : Option (List UInt8))
    (h : Runs (f resp) tr p) :
    Runs (qrtrTxn fd port req respSz timeoutMs >>= f)
      (⟨.qrtrTxn fd port req respSz timeoutMs, resp⟩ :: tr) p :=
  .step h

/-- The call that START_NETWORK is sent by, unanswered. -/
def startEvent (ctx : ViCtx) : Event Call Answer :=
  ⟨.qrtrTxn ctx.fd ctx.wdsPort (startNetwork ctx) 512 10000, (none : Option (List UInt8))⟩

theorem runs_issueStartNetwork (ctx : ViCtx) :
    ∃ p, Runs (issueStartNetwork ctx) [startEvent ctx] p :=
  ⟨_, runs_txn none (.stop _)⟩

/-- A run in which START_NETWORK is sent. -/
theorem runs_startNetwork {ctx : ViCtx} (hdry : ctx.dryRun = false) (hport : ctx.wdsPort ≠ 0) :
    ∃ tr p ctx', Runs (stageWdsStart ctx) tr p ∧ ctx'.apn = ctx.apn ∧
      ctx'.simpleWds = ctx.simpleWds ∧ startEvent ctx' ∈ tr := by
  cases hform : ctx.simpleWds with
  | true =>
    obtain ⟨p, hlast⟩ := runs_issueStartNetwork ctx
    have hstage : stageWdsStart ctx = issueStartNetwork ctx := by
      simp [stageWdsStart, hdry, hport, hform]
    exact ⟨_, p, ctx, hstage ▸ hlast, rfl, hform, List.mem_cons_self⟩
  | false =>
    obtain ⟨p, hlast⟩ := runs_issueStartNetwork { ctx with txid := ctx.txid + 2 }
    have hrun : Runs (stageWdsStart ctx)
        [⟨.qrtrTxn ctx.fd ctx.wdsPort (afSetMode ctx.txid) 512 2000, some ([] : List UInt8)⟩,
          ⟨.qrtrTxn ctx.fd ctx.wdsPort (setIpFamily (ctx.txid + 1)) 512 2000,
            some ([] : List UInt8)⟩,
          startEvent { ctx with txid := ctx.txid + 2 }] p := by
      have hlive : ¬ ctx.dryRun = true := by simp [hdry]
      have hfull : ¬ ctx.simpleWds = true := by simp [hform]
      unfold stageWdsStart
      rw [if_neg hlive, if_neg hport, if_neg hfull]
      apply runs_txn (some [])
      simp only [Option.isNone_some, Bool.false_eq_true, if_false]
      apply runs_txn (some [])
      simp only [Option.isNone_some, Bool.false_eq_true, if_false]
      exact hlast
    exact ⟨_, p, { ctx with txid := ctx.txid + 2 }, hrun, rfl, hform, by simp⟩

/-- Every request of `wds_start` is built inside its buffer, and sent with the length that
its length field has, exactly when the APN leaves room for the other TLVs. -/
theorem wdsStart_fits_iff (ctx : ViCtx) :
    (∀ tr p, Runs (stageWdsStart ctx) tr p → ∀ e ∈ tr, e.call.Fits) ↔
      ctx.dryRun = true ∨ ctx.wdsPort = 0 ∨
        ctx.apn.length % 65536 ≤ longestApn ctx.simpleWds := by
  constructor
  · intro h
    by_contra hlong
    push Not at hlong
    obtain ⟨hdry, hport, hlong⟩ := hlong
    obtain ⟨tr, p, ctx', hrun, hapn, hform, hsent⟩ :=
      runs_startNetwork (Bool.not_eq_true _ ▸ hdry) hport
    have hfits : (startNetwork ctx').Fits := h tr p hrun _ hsent
    rw [startNetwork_fits_iff, hapn, hform] at hfits
    omega
  · rintro (hdry | hport | hapn) tr p hrun e he
    · have hstage : stageWdsStart ctx = pure (0, ctx) := by simp [stageWdsStart, hdry]
      rw [hstage] at hrun
      cases hrun
      cases he
    · have honly : Only Call.Fits (fun _ => True) (stageWdsStart ctx) := by
        unfold stageWdsStart
        split
        · exact trivial
        · exact trivial
      exact (honly.runs hrun).1 e he
    · exact ((fits_wdsStart hapn).runs hrun).1 e he

/-- `--apn` with a name of 243 letters. -/
def longApn : List UInt8 := List.replicate 243 0x61

/-- The request for that APN runs over the end of its buffer, whatever that held. -/
theorem startNetwork_overruns :
    ∃ ctx tr p, parseOpts { apn := defaultApn } [.apn longApn] = .ok ctx ∧
      Runs (stageWdsStart { ctx with wdsPort := 1 }) tr p ∧
      ∃ req r, ⟨.qrtrTxn (-1) 1 req 512 10000, r⟩ ∈ tr ∧ req.bufSz = 256 ∧
        ∀ buf : List UInt8, buf.length = 256 → req.build buf = none := by
  let ctx : ViCtx := { apn := longApn, wdsPort := 1 }
  obtain ⟨p, hlast⟩ := runs_issueStartNetwork ctx
  have hstage : stageWdsStart ctx = issueStartNetwork ctx := by
    simp [stageWdsStart, ctx]
  refine ⟨{ apn := longApn }, _, p, rfl, hstage ▸ hlast, startNetwork ctx, _,
    List.mem_cons_self, rfl, ?_⟩
  intro buf hbuf
  rw [Option.eq_none_iff_forall_ne_some]
  rintro ⟨msg, off⟩ hbuild
  have hin := bodySize_of_buildRequest hbuild
  have hlen : ctx.apn.length = 243 := List.length_replicate
  have hlongest : longestApn ctx.simpleWds = 242 := rfl
  rw [bodySize_startNetwork, hbuf] at hin
  omega

end WdsStart

end VendorInit
end X00TDCellular
