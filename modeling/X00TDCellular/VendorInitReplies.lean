import X00TDCellular.QmiHostile
import X00TDCellular.VendorInitRequests

/-! What the stages make of a reply, whatever its bytes are. -/

namespace X00TDCellular
namespace VendorInit
open Buffer RecordFormat EnvProgram EnvProgram.Prog EnvProgram.Monitor

/-- The TLVs of a reply, up to the first that is not whole. -/
def tlvsOf (resp : List UInt8) : List qmiTlv.Record := qmiTlv.decode (resp.drop 7)

/-- The first TLV of a type, and where `qmi_tlv_find` sees it. -/
theorem tlvOf_cases (resp : List UInt8) (t : UInt8) :
    (tlvOf resp t = none ∧ firstTlv t (tlvsOf resp) = none) ∨
      ∃ x off, tlvOf resp t = some (off, x.value.length) ∧
        firstTlv t (tlvsOf resp) = some x ∧ off + x.value.length ≤ resp.length ∧
        (resp.drop off).take x.value.length = x.value := by
  rcases qmiTlvFind_cases resp t with ⟨hfind, hnone⟩ | ⟨pre, x, post, hxs, -, -, hfirst, hfind⟩
  · exact Or.inl ⟨by rw [tlvOf, hfind]; rfl, hnone⟩
  · obtain ⟨hend, _, hval⟩ := tlv_place_of_decode hxs
    exact Or.inr ⟨x, _, by rw [tlvOf, hfind]; rfl, hfirst, hend, hval⟩

section Serving

/-- The interface to go by: LTE before UMTS before the first one. -/
def preferred (rs : List UInt8) : UInt8 :=
  if radioIfLte ∈ rs then radioIfLte
  else if radioIfUmts ∈ rs then radioIfUmts
  else rs.headD radioIfNone

/-- The radio interfaces in the value of a serving system TLV, if its count stays inside the
value. -/
def listed (value : List UInt8) : List UInt8 :=
  if 5 + (value.getD 4 0).toNat ≤ value.length then
    (value.drop 5).take (value.getD 4 0).toNat
  else []

/-- What a reply says about the interface. -/
def reportedInterface (resp : List UInt8) : UInt8 :=
  if (firstTlv 0x15 (tlvsOf resp)).isSome then radioIfLte
  else preferred (((firstTlv 0x01 (tlvsOf resp)).map fun x => listed x.value).getD [])

/-- The loop keeps the best interface seen so far. -/
theorem bestInterface_eq (best : UInt8) (rs : List UInt8) :
    bestInterface best rs = preferred (best :: rs) := by
  have hdistinct : radioIfUmts ≠ radioIfLte := by decide
  induction rs generalizing best with
  | nil =>
    simp only [bestInterface, preferred, List.mem_singleton, List.headD_cons]
    split
    · rename_i h
      exact h.symm
    · split
      · rename_i h
        exact h.symm
      · rfl
  | cons r rs ih =>
    rw [bestInterface]
    by_cases hlte : r = radioIfLte
    · simp [hlte, preferred]
    · have hr : radioIfLte ≠ r := fun h => hlte h.symm
      rw [if_neg hlte]
      by_cases hbest : best = radioIfLte
      · simp [hbest, ih, preferred]
      · have hb : radioIfLte ≠ best := fun h => hbest h.symm
        by_cases humts : r = radioIfUmts
        · rw [if_pos ⟨humts, hbest⟩, ih, humts]
          simp [preferred, hb, hdistinct.symm]
        · have hu : radioIfUmts ≠ r := fun h => humts h.symm
          rw [if_neg (fun h => humts h.1), ih]
          simp [preferred, hr, hu]

/-- The bytes behind the count of a TLV that starts at `off`, as many as it says. -/
def behindCount (resp : List UInt8) (off : ℕ) : List UInt8 :=
  (resp.drop (off+5)).take (resp.getD (off+4) 0).toNat

/-- The count runs past the value of the TLV but not past the message, and an interface is
found in what lies there. -/
def CountOverruns (resp : List UInt8) : Prop :=
  tlvOf resp 0x15 = none ∧
    ∃ off len, tlvOf resp 0x01 = some (off, len) ∧ 5 ≤ len ∧
      len < 5 + (resp.getD (off+4) 0).toNat ∧
      off + 5 + (resp.getD (off+4) 0).toNat ≤ resp.length ∧
      (radioIfLte ∈ behindCount resp off ∨ radioIfUmts ∈ behindCount resp off ∨
        (behindCount resp off).head? ≠ some radioIfNone)

theorem preferred_eq_none_iff {rs : List UInt8} (hne : rs ≠ []) :
    preferred rs = radioIfNone ↔
      ¬ (radioIfLte ∈ rs ∨ radioIfUmts ∈ rs ∨ rs.head? ≠ some radioIfNone) := by
  have hlte : radioIfLte ≠ radioIfNone := by decide
  have humts : radioIfUmts ≠ radioIfNone := by decide
  cases rs with
  | nil => exact absurd rfl hne
  | cons r rs =>
    unfold preferred
    split
    · rename_i h
      simp [h, hlte]
    · rename_i h
      split
      · rename_i h'
        simp [h', humts]
      · rename_i h'
        simp [h, h']

/-- What the loop of `poll_serving_system` runs over. -/
theorem cons_behindCount {resp : List UInt8} {off : ℕ}
    (hcount : (resp.getD (off+4) 0).toNat ≠ 0)
    (hend : off + 5 + (resp.getD (off+4) 0).toNat ≤ resp.length) :
    resp.getD (off+5) 0 :: (resp.drop (off+6)).take ((resp.getD (off+4) 0).toNat - 1) =
      behindCount resp off := by
  obtain ⟨c, hc⟩ := Nat.exists_eq_succ_of_ne_zero hcount
  have hlt : off + 5 < resp.length := by omega
  rw [behindCount, hc, List.drop_eq_getElem_cons hlt, List.take_succ_cons,
    List.getD_eq_getElem?_getD, List.getElem?_eq_getElem hlt]
  rfl

/-- A count that stays inside the value lists bytes of the value only. -/
theorem listed_value {resp value : List UInt8} {off : ℕ}
    (hval : (resp.drop off).take value.length = value) (hlen : 5 ≤ value.length) :
    value.getD 4 0 = resp.getD (off+4) 0 ∧
      (5 + (resp.getD (off+4) 0).toNat ≤ value.length → listed value = behindCount resp off) := by
  have hcount : value.getD 4 0 = resp.getD (off+4) 0 := by
    rw [List.getD_eq_getElem?_getD, List.getD_eq_getElem?_getD,
      getElem?_of_slice hval (i := 4) (by omega)]
  refine ⟨hcount, ?_⟩
  intro hinside
  rw [listed, hcount, if_pos hinside, behindCount]
  have hdrop : value.drop 5 = ((resp.drop (off+5)).take (value.length-5)) := by
    rw [← hval, List.drop_take, List.drop_drop, List.length_take]
    congr 1
    have hle : value.length ≤ (resp.drop off).length := by
      have hmin := congrArg List.length hval
      rw [List.length_take] at hmin
      omega
    omega
  rw [hdrop, List.take_take]
  congr 1
  omega

/-- A value of five bytes or more is read as it should be exactly when nothing is found
behind it. -/
theorem interfaceAt_eq_iff {resp value : List UInt8} {off : ℕ}
    (hval : (resp.drop off).take value.length = value) (hlen : 5 ≤ value.length) :
    (if (resp.getD (off+4) 0).toNat = 0 ∨
          off + 5 + (resp.getD (off+4) 0).toNat > resp.length then radioIfNone
      else bestInterface (resp.getD (off+5) 0)
        ((resp.drop (off+6)).take ((resp.getD (off+4) 0).toNat - 1))) =
        preferred (listed value) ↔
      ¬ (value.length < 5 + (resp.getD (off+4) 0).toNat ∧
        off + 5 + (resp.getD (off+4) 0).toNat ≤ resp.length ∧
        (radioIfLte ∈ behindCount resp off ∨ radioIfUmts ∈ behindCount resp off ∨
          (behindCount resp off).head? ≠ some radioIfNone)) := by
  obtain ⟨hcount, hlisted⟩ := listed_value hval hlen
  have hnil : preferred [] = radioIfNone := by simp [preferred]
  by_cases hbad : (resp.getD (off+4) 0).toNat = 0 ∨
      off + 5 + (resp.getD (off+4) 0).toNat > resp.length
  · have hempty : listed value = [] := by
      rw [listed, hcount]
      split
      · have hzero : (resp.getD (off+4) 0).toNat = 0 := by
          have hmin := congrArg List.length hval
          rw [List.length_take, List.length_drop] at hmin
          omega
        rw [hzero, List.take_zero]
      · rfl
    rw [if_pos hbad, hempty, hnil]
    simp only [true_iff]
    omega
  · rw [if_neg hbad, bestInterface_eq, cons_behindCount (by omega) (by omega)]
    by_cases hinside : 5 + (resp.getD (off+4) 0).toNat ≤ value.length
    · rw [hlisted hinside]
      simp only [true_iff]
      omega
    · have hempty : listed value = [] := by
        rw [listed, hcount, if_neg hinside]
      have hne : behindCount resp off ≠ [] := by
        rw [← cons_behindCount (by omega) (by omega)]
        exact List.cons_ne_nil _ _
      rw [hempty, hnil, preferred_eq_none_iff hne]
      simp only [not_iff_not]
      constructor
      · intro hfound
        exact ⟨by omega, by omega, hfound⟩
      · exact fun h => h.2.2

/-- A reply without error is decoded as it should be exactly when no interface is taken from
behind the end of the serving system TLV. -/
theorem servingInterface_eq_iff {resp : List UInt8} (hresult : resultOf resp = 0) :
    servingInterface resp = reportedInterface resp ↔ ¬ CountOverruns resp := by
  rw [servingInterface, if_neg (not_not.mpr hresult), reportedInterface]
  rcases tlvOf_cases resp 0x15 with ⟨htac, hnone⟩ | ⟨tac, off', htac, hsome, -, -⟩
  · have hlive : ¬ (none : Option (ℕ × ℕ)).isSome = true := by simp
    have hlive' : ¬ (none : Option qmiTlv.Record).isSome = true := by simp
    rw [htac, hnone, if_neg hlive, if_neg hlive']
    rcases tlvOf_cases resp 0x01 with ⟨hserving, hfirst⟩ | ⟨x, off, hserving, hfirst, hend, hval⟩
    · rw [hserving, hfirst]
      simp [CountOverruns, hserving, preferred]
    -- the interfaces are taken from the value, or from what lies behind it
    · rw [hserving, hfirst]
      have hover : CountOverruns resp ↔ 5 ≤ x.value.length ∧
          x.value.length < 5 + (resp.getD (off+4) 0).toNat ∧
          off + 5 + (resp.getD (off+4) 0).toNat ≤ resp.length ∧
          (radioIfLte ∈ behindCount resp off ∨ radioIfUmts ∈ behindCount resp off ∨
            (behindCount resp off).head? ≠ some radioIfNone) := by
        simp [CountOverruns, htac, hserving]
      rw [hover]
      by_cases hshort : x.value.length < 5
      · have hempty : listed x.value = [] := if_neg (by omega)
        simp only [if_pos hshort, Option.map_some, Option.getD_some, hempty]
        simp [preferred, Nat.not_le_of_lt hshort]
      · have hlen : 5 ≤ x.value.length := Nat.le_of_not_lt hshort
        simp only [if_neg hshort, Option.map_some, Option.getD_some, hlen, true_and]
        exact interfaceAt_eq_iff hval hlen
  · simp [CountOverruns, htac, hsome]

/-- A poll that is answered without error returns the interface that the answer reports
exactly when the count of the answer does not overrun. -/
theorem poll_reported_iff {fd : ℤ} {nasPort : UInt32} {txid : UInt16} {resp : List UInt8}
    {tr : Trace} {r : UInt8} (hend : (pollServingSystem fd nasPort txid).Ends tr r)
    (hanswer : tr = [⟨.qrtrTxn fd nasPort (getServingSystem txid) 1024 2000, some resp⟩])
    (hresult : resultOf resp = 0) : r = reportedInterface resp ↔ ¬ CountOverruns resp := by
  obtain ⟨resp', tr', htr, hret⟩ := ends_ask_bind.mp hend
  obtain ⟨rfl, rfl⟩ := ends_ret.mp hret
  rw [hanswer] at htr
  cases htr
  exact servingInterface_eq_iff hresult

/-- An answer on UMTS and GSM. -/
def umtsReply : List UInt8 :=
  [2, 1, 0, 0x24, 0, 17, 0, 0x02, 4, 0, 0, 0, 0, 0, 0x01, 7, 0, 1, 1, 1, 2, 2, 4, 5]

theorem poll_reported_umts : reportedInterface umtsReply = radioIfUmts ∧
    ∃ r, (pollServingSystem 3 1 1).Ends
        [⟨.qrtrTxn 3 1 (getServingSystem 1) 1024 2000, some umtsReply⟩] r ∧
      (r = reportedInterface umtsReply ↔ ¬ CountOverruns umtsReply) := by
  have hend : (pollServingSystem 3 1 1).Ends
      [⟨.qrtrTxn 3 1 (getServingSystem 1) 1024 2000, some umtsReply⟩]
      (polledInterface (some umtsReply)) := .step (.stop _)
  exact ⟨by decide +kernel, _, hend, poll_reported_iff hend rfl (by decide +kernel)⟩

/-- An answer whose count says one interface where its value ends, with a TLV of type 8
behind it. -/
def overrunReply : List UInt8 :=
  [2, 1, 0, 0x24, 0, 18, 0, 0x02, 4, 0, 0, 0, 0, 0, 0x01, 5, 0, 1, 1, 1, 2, 1, 0x08, 0, 0]

/-- The type of the next TLV is taken for LTE. -/
theorem poll_not_reported : resultOf overrunReply = 0 ∧
    reportedInterface overrunReply = radioIfNone ∧
    (pollServingSystem 3 1 1).Ends
      [⟨.qrtrTxn 3 1 (getServingSystem 1) 1024 2000, some overrunReply⟩] radioIfLte := by
  have hlte : polledInterface (some overrunReply) = radioIfLte := by decide +kernel
  have hend : (pollServingSystem 3 1 1).Ends
      [⟨.qrtrTxn 3 1 (getServingSystem 1) 1024 2000, some overrunReply⟩]
      (polledInterface (some overrunReply)) := .step (.stop _)
  exact ⟨by decide +kernel, by decide +kernel, hlte ▸ hend⟩

end Serving

section Verdict

/-- The requests whose reply decides on the stage. -/
def MsgId.decides : MsgId → Bool
  | .dpmOpenPortReq | .wdaSetDataFormat | .bindMux | .startNetwork => true
  | _ => false

def Call.decides : Call → Bool
  | .qrtrTxn _ _ req _ _ => req.msg.decides
  | _ => false

/-- The result TLV is there, and its second field, the error code, is 0. -/
def NoError (resp : List UInt8) : Prop :=
  ∃ x, firstTlv 0x02 (tlvsOf resp) = some x ∧ 4 ≤ x.value.length ∧
    x.value.getD 2 0 = 0 ∧ x.value.getD 3 0 = 0

theorem resultOf_eq_zero_iff (resp : List UInt8) : resultOf resp = 0 ↔ NoError resp := by
  rw [resultOf, qmiResult_eq, Option.getD_some]
  change ((firstTlv 0x02 (tlvsOf resp)).map errorCode).getD (-1) = 0 ↔ _
  cases hfirst : firstTlv 0x02 (tlvsOf resp) with
  | none => simp [NoError, hfirst]
  | some x =>
    by_cases hshort : x.value.length < 4
    · simp [NoError, hfirst, errorCode, hshort]
    · have hlen : 4 ≤ x.value.length := by omega
      simp only [NoError, hfirst, Option.map_some, Option.getD_some, errorCode, if_neg hshort,
        toNat_getLe16, Option.some_inj, exists_eq_left', hlen, true_and,
        ← UInt8.toNat_inj, UInt8.toNat_zero]
      omega

/-- Whether the last reply that decides was refused. -/
def refusedNext (refused : Bool) : Event Call Answer → Bool
  | ⟨.qrtrTxn _ _ req _ _, some resp⟩ =>
    if req.msg.decides then decide (resultOf resp ≠ 0) else refused
  | _ => refused

/-- The account of the verdicts: after a refusal no request follows that decides. -/
def verdicts : Monitor Call Answer Bool where
  next := refusedNext
  may refused c := c.decides = true → refused = false
  allows _ _ := True

/-- The stage returns 3 exactly when the last verdict was a refusal. -/
def EndsByVerdict (r : ℕ × ViCtx) (refused : Bool) : Prop := r.1 = 3 ↔ refused = true

theorem silent_of_undecided {c : Call} (hc : c.decides = false) :
    verdicts.Silent (fun _ => True) c := by
  intro refused _
  refine ⟨fun h => ?_, fun r => ?_⟩
  · rw [hc] at h
    cases h
  · cases c with
    | qrtrTxn fd port req respSz timeoutMs =>
      have hreq : ¬ req.msg.decides = true := by
        intro h
        exact absurd (h.symm.trans hc) (by decide)
      cases r with
      | none => rfl
      | some resp => exact if_neg hreq
    | qrtrOpen => rfl
    | qrtrLookup => rfl
    | close => rfl
    | writeFile => rfl
    | system => rfl
    | tryWrite => rfl
    | lteRounds => rfl
    | gStop => rfl
    | pause => rfl

variable {α : Type} {Q : α → Bool → Prop} {s : Bool}

theorem verdicts_skip {c : Call} (hc : c.decides = false) {f : Answer c → Vi α}
    (h : ∀ r, verdicts.wp (f r) Q s) : verdicts.wp (ask c >>= f) Q s :=
  (silent_of_undecided hc).wp_ask_bind trivial h

/-- A request that decides. -/
theorem verdicts_txn {fd : ℤ} {port : UInt32} {req : QmiRequest} {respSz timeoutMs : ℕ}
    {f : Option (List UInt8) → Vi α} (hreq : req.msg.decides = true)
    (hnone : verdicts.wp (f none) Q false)
    (hsome : ∀ resp, verdicts.wp (f (some resp)) Q (decide (resultOf resp ≠ 0))) :
    verdicts.wp (qrtrTxn fd port req respSz timeoutMs >>= f) Q false := by
  apply wp_ask_bind fun _ => rfl
  intro resp _
  cases resp with
  | none => exact hnone
  | some resp =>
    have hnext : verdicts.next false ⟨.qrtrTxn fd port req respSz timeoutMs, some resp⟩ =
        decide (resultOf resp ≠ 0) := if_pos hreq
    rw [hnext]
    exact hsome resp

theorem verdicts_ret {rc : ℕ} {ctx : ViCtx} (h : rc = 3 ↔ s = true) :
    verdicts.wp (pure (rc, ctx) : Vi (ℕ × ViCtx)) EndsByVerdict s := h

/-- A stage that opens a socket and looks up its service. -/
theorem verdicts_open {rc : ℕ} {ctx : ViCtx} {svc : QrtrSvc}
    {f : ℤ → UInt32 → Vi (ℕ × ViCtx)} (hrc : rc ≠ 3)
    (h : ∀ fd port, verdicts.wp (f fd port) EndsByVerdict false) :
    verdicts.wp (qrtrOpen >>= fun fd =>
      if fd < 0 then pure (rc, ctx) else qrtrLookup fd svc >>= f fd) EndsByVerdict false := by
  apply verdicts_skip rfl
  intro fd
  split
  · exact verdicts_ret (iff_of_false hrc Bool.false_ne_true)
  · exact verdicts_skip rfl (h fd)

/-- The return value of a stage that checks the reply last. -/
theorem verdicts_checked {resp : List UInt8} {ctx : ViCtx} :
    verdicts.wp (pure (if resultOf resp ≠ 0 then 3 else 0, ctx) : Vi (ℕ × ViCtx))
      EndsByVerdict (decide (resultOf resp ≠ 0)) := by
  apply verdicts_ret
  by_cases hresult : resultOf resp = 0 <;> simp [hresult]

theorem verdicts_dpmOpen (ctx : ViCtx) : verdicts.wp (stageDpmOpen ctx) EndsByVerdict false := by
  unfold stageDpmOpen
  split
  · exact verdicts_ret (by decide)
  apply verdicts_open (by decide)
  intro fd port
  dsimp only
  split
  · apply verdicts_skip rfl
    intro _
    exact verdicts_skip rfl fun _ => verdicts_ret (by decide)
  apply verdicts_skip rfl
  intro _
  apply verdicts_txn rfl
  · exact verdicts_skip rfl fun _ => verdicts_ret (by decide)
  · intro resp
    apply verdicts_skip rfl
    intro _
    exact verdicts_skip rfl fun _ => verdicts_checked

theorem verdicts_wdaSet (ctx : ViCtx) : verdicts.wp (stageWdaSet ctx) EndsByVerdict false := by
  unfold stageWdaSet
  split
  · exact verdicts_ret (by decide)
  apply verdicts_open (by decide)
  intro fd port
  dsimp only
  split
  · exact verdicts_skip rfl fun _ => verdicts_ret (by decide)
  apply verdicts_skip rfl
  intro _
  apply verdicts_txn rfl
  · exact verdicts_skip rfl fun _ => verdicts_ret (by decide)
  · intro resp
    apply verdicts_skip rfl
    intro _
    split
    · rename_i hresult
      exact verdicts_ret (by simp [hresult])
    · rename_i hresult
      apply verdicts_skip rfl
      intro _
      apply verdicts_skip rfl
      intro _
      apply verdicts_skip rfl
      intro _
      exact verdicts_skip rfl fun _ => verdicts_ret (by simp [hresult])

/-- The loop goes on only after a reply without error. -/
theorem verdicts_bindMuxes (left m : ℕ) (ctx : ViCtx) :
    verdicts.wp (bindMuxes left m ctx) EndsByVerdict false := by
  induction left generalizing m ctx with
  | zero => exact verdicts_ret (by decide)
  | succ left ih =>
    apply verdicts_txn rfl
    · exact verdicts_ret (by decide)
    · intro resp
      dsimp only
      split
      · rename_i hresult
        exact verdicts_ret (by simp [hresult])
      · rename_i hresult
        have hok : decide (resultOf resp ≠ 0) = false := by simp [hresult]
        rw [hok]
        exact ih (m+1) _

theorem verdicts_bindMux (ctx : ViCtx) : verdicts.wp (stageBindMux ctx) EndsByVerdict false := by
  unfold stageBindMux
  split
  · exact verdicts_ret (by decide)
  apply verdicts_open (by decide)
  intro fd port
  split
  · exact verdicts_skip rfl fun _ => verdicts_ret (by decide)
  apply verdicts_skip rfl
  intro _
  apply wp_bind.mpr
  apply wp_mono (verdicts_bindMuxes _ _ _)
  rintro ⟨rc, ctx'⟩ refused hloop
  dsimp only
  split
  · exact hloop
  · rename_i hrc
    have hrefused : refused = false := by
      have hzero : ¬ rc = 3 := by omega
      rw [← Bool.not_eq_true]
      exact fun h => hzero (hloop.mpr h)
    rw [hrefused]
    exact verdicts_skip rfl fun _ => verdicts_ret (by decide)

theorem verdicts_recordU32 {resp : List UInt8} {type : UInt8} {key : StateFile}
    {value : UInt32 → StateValue} {f : Unit → Vi α} (h : verdicts.wp (f ()) Q s) :
    verdicts.wp (recordU32 resp type key value >>= f) Q s := by
  apply wp_bind.mpr
  unfold recordU32
  split
  · exact verdicts_skip rfl fun _ => h
  · exact h

theorem verdicts_issueGetSettings {ctx : ViCtx} {f : ℤ × ViCtx → Vi α}
    (h : ∀ r, verdicts.wp (f r) Q s) : verdicts.wp (issueGetSettings ctx >>= f) Q s := by
  apply wp_bind.mpr
  apply verdicts_skip rfl
  intro resp
  cases resp with
  | none => exact h _
  | some resp =>
    apply verdicts_recordU32
    apply verdicts_recordU32
    apply verdicts_recordU32
    apply verdicts_recordU32
    exact h _

theorem verdicts_issueStartNetwork (ctx : ViCtx) :
    verdicts.wp (issueStartNetwork ctx) EndsByVerdict false := by
  apply verdicts_txn rfl
  · exact verdicts_ret (by decide)
  · intro resp
    dsimp only
    split
    · rename_i hresult
      exact verdicts_skip rfl fun _ => verdicts_ret (by simp [hresult])
    · rename_i hresult
      apply verdicts_recordU32
      apply verdicts_skip rfl
      intro _
      exact verdicts_issueGetSettings fun _ => verdicts_ret (by simp [hresult])

theorem verdicts_wdsStart (ctx : ViCtx) :
    verdicts.wp (stageWdsStart ctx) EndsByVerdict false := by
  unfold stageWdsStart
  split
  · exact verdicts_ret (by decide)
  split
  · exact verdicts_ret (by decide)
  split
  · exact verdicts_issueStartNetwork ctx
  apply verdicts_skip rfl
  intro af
  split
  · exact verdicts_ret (by decide)
  apply verdicts_skip rfl
  intro family
  split
  · exact verdicts_ret (by decide)
  · exact verdicts_issueStartNetwork _

/-- The stages that a reply decides on. -/
def decidedStages : List (ViCtx → Vi (ℕ × ViCtx)) :=
  [stageDpmOpen, stageWdaSet, stageBindMux, stageWdsStart]

theorem verdicts_of_mem {fn : ViCtx → Vi (ℕ × ViCtx)} (h : fn ∈ decidedStages) (ctx : ViCtx) :
    verdicts.wp (fn ctx) EndsByVerdict false := by
  simp only [decidedStages, List.mem_cons, List.not_mem_nil, or_false] at h
  rcases h with rfl | rfl | rfl | rfl
  · exact verdicts_dpmOpen ctx
  · exact verdicts_wdaSet ctx
  · exact verdicts_bindMux ctx
  · exact verdicts_wdsStart ctx

/-- Calls that do not decide leave the verdict. -/
theorem after_undecided {post : Trace} (h : ∀ e ∈ post, e.call.decides = false) (refused : Bool) :
    verdicts.after refused post = refused := by
  induction post generalizing refused with
  | nil => rfl
  | cons e post ih =>
    obtain ⟨he, hpost⟩ := List.forall_mem_cons.mp h
    have hnext : verdicts.next refused e = refused :=
      (silent_of_undecided he refused trivial).2 e.answer
    change verdicts.after (verdicts.next refused e) post = refused
    rw [hnext]
    exact ih hpost refused

/-- No request that decides follows a refusal. -/
theorem undecided_of_refused {post : Trace} (h : verdicts.Obeyed true post) :
    ∀ e ∈ post, e.call.decides = false := by
  induction post with
  | nil => simp
  | cons e post ih =>
    obtain ⟨hmay, hrest⟩ := h
    have he : e.call.decides = false := by
      rw [← Bool.not_eq_true]
      exact fun hdec => Bool.noConfusion (hmay hdec)
    have hnext : verdicts.next true e = true :=
      (silent_of_undecided he true trivial).2 e.answer
    rw [hnext] at hrest
    exact List.forall_mem_cons.mpr ⟨he, ih hrest⟩

/-- After this reply the stage gives up: it sends no other request that decides, and it
returns 3. -/
def GivesUp (post : Trace) (rc : ℕ) : Prop := rc = 3 ∧ ∀ e ∈ post, e.call.decides = false

/-- Each of the stages gives up after a reply to a request that decides exactly when the
reply has no result TLV of four bytes whose error code is 0. -/
theorem givesUp_iff_error {fn : ViCtx → Vi (ℕ × ViCtx)} (hfn : fn ∈ decidedStages)
    {ctx ctx' : ViCtx} {tr pre post : Trace} {rc : ℕ} (hend : (fn ctx).Ends tr (rc, ctx'))
    {fd : ℤ} {port : UInt32} {req : QmiRequest} {respSz timeoutMs : ℕ} {resp : List UInt8}
    (htr : tr = pre ++ ⟨.qrtrTxn fd port req respSz timeoutMs, some resp⟩ :: post)
    (hreq : req.msg.decides = true) : GivesUp post rc ↔ ¬ NoError resp := by
  have hallowed : verdicts.Allowed false tr := allowed_iff.mpr fun _ _ _ _ => trivial
  obtain ⟨hobeyed, hrc⟩ := wp_ends hend (verdicts_of_mem hfn ctx) hallowed
  rw [htr] at hobeyed
  obtain ⟨_, _, hpost⟩ := obeyed_append.mp hobeyed
  have hnext (refused : Bool) : verdicts.next refused
      ⟨.qrtrTxn fd port req respSz timeoutMs, some resp⟩ = decide (resultOf resp ≠ 0) :=
    if_pos hreq
  have hafter : verdicts.after false tr = verdicts.after (decide (resultOf resp ≠ 0)) post := by
    rw [htr, after_append]
    change verdicts.after (verdicts.next _ _) post = _
    rw [hnext]
  rw [hnext] at hpost
  rw [EndsByVerdict, hafter] at hrc
  rw [← resultOf_eq_zero_iff]
  constructor
  -- nothing decides behind the reply, so the verdict at the end is on it
  · rintro ⟨hthree, hlast⟩
    rw [after_undecided hlast] at hrc
    exact of_decide_eq_true (hrc.mp hthree)
  · intro hresult
    have hrefused : decide (resultOf resp ≠ 0) = true := decide_eq_true hresult
    rw [hrefused] at hpost hrc
    have hlast := undecided_of_refused hpost
    rw [after_undecided hlast] at hrc
    exact ⟨hrc.mpr rfl, hlast⟩

/-- A context in which the bearer socket is there. -/
def bearerCtx : ViCtx := { apn := defaultApn, fd := 3, wdsPort := 1 }

theorem givesUp_dpmOpen :
    NoError [2, 1, 0, 0x20, 0, 7, 0, 0x02, 4, 0, 0, 0, 0, 0] ∧
      ¬ GivesUp [⟨.writeFile .dpmOpenResult (.int 0), true⟩, ⟨.close 3, ()⟩] 0 := by
  let reply : List UInt8 := [2, 1, 0, 0x20, 0, 7, 0, 0x02, 4, 0, 0, 0, 0, 0]
  have hok : resultOf reply = 0 := by decide +kernel
  have hend : (stageDpmOpen bearerCtx).Ends
      ([⟨.qrtrOpen, (3 : ℤ)⟩, ⟨.qrtrLookup 3 .dpm, (1 : UInt32)⟩,
          ⟨.writeFile .dpmPort (.int 1), true⟩] ++
        ⟨.qrtrTxn 3 1 openPortReq 256 2000, some reply⟩ ::
          [⟨.writeFile .dpmOpenResult (.int (resultOf reply)), true⟩, ⟨.close 3, ()⟩])
      (if resultOf reply ≠ 0 then 3 else 0, { bearerCtx with dpmPort := 1 }) :=
    .step (.step (.step (.step (.step (.step (.stop _))))))
  rw [hok] at hend
  have hno : NoError reply := (resultOf_eq_zero_iff reply).mp hok
  refine ⟨hno, ?_⟩
  have hfn : stageDpmOpen ∈ decidedStages := List.mem_cons_self
  exact fun hgive => (givesUp_iff_error hfn hend rfl rfl).mp hgive hno

/-- A reply that says FAILURE with the error code 0. -/
def failureReply : List UInt8 := [2, 1, 0, 0x20, 0, 7, 0, 0x02, 4, 0, 1, 0, 0, 0]

/-- All four stages take that reply to each of their requests and return 0. -/
theorem failureReply_taken :
    ((firstTlv 0x02 (tlvsOf failureReply)).map fun x => x.value) = some [1, 0, 0, 0] ∧
      ∀ fn ∈ decidedStages,
        ((fn bearerCtx).events (answering failureReply)).any (fun e => e.call.decides) = true ∧
        ∃ ctx', (fn bearerCtx).Ends ((fn bearerCtx).events (answering failureReply))
          (0, ctx') := by
  refine ⟨by decide +kernel, ?_⟩
  simp only [decidedStages, List.forall_mem_cons]
  refine ⟨⟨?_, _, ends_answering failureReply ?_⟩, ⟨?_, _, ends_answering failureReply ?_⟩,
    ⟨?_, _, ends_answering failureReply ?_⟩, ⟨?_, _, ends_answering failureReply ?_⟩, by simp⟩ <;>
    decide +kernel

end Verdict

end VendorInit
end X00TDCellular
