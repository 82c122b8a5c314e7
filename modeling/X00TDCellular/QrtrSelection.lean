import X00TDCellular.QrtrLookup

/-! Which datagram `qrtr_txn` takes for the response, and what it leaves in `resp` and on
the socket. -/

namespace X00TDCellular

/-- A response to message `msgId`, where `cut` gives the bytes of a datagram that count. -/
def isResponse (msgId : UInt16) (cut : List UInt8 → List UInt8) : RecvEvent → Bool
  | .datagram _ data =>
    5 ≤ (cut data).length ∧ (cut data).getD 0 0 = 0x02 ∧
      getLe16 ((cut data).getD 3 0) ((cut data).getD 4 0) = msgId
  | _ => false

/-- An indication, an ack, or a packet of the service lookup. -/
def RecvEvent.Unrelated : RecvEvent → Prop
  | .datagram _ data =>
    data.getD 0 0 = 0x04 ∨ data.getD 0 0 = 0x01 ∨
      ctrlWord data 0 = qrtrTypeNewServer ∨ ctrlWord data 0 = qrtrTypeNewLookup
  | _ => False

/-- The call stops behind the first response among its 32 events before a timeout and
returns its bytes, or there is none and it fails with the events it could see read. -/
inductive Selects (msgId : UInt16) (cut : List UInt8 → List UInt8) (evs : List RecvEvent)
    (r : TxnResult) : Prop
  | response (pre : List RecvEvent) (src : QrtrAddr) (data : List UInt8)
      (hread : evs = pre ++ .datagram src data :: r.rest) (hlen : pre.length < 32)
      (hfirst : ∀ d ∈ pre, d ≠ .timeout ∧ isResponse msgId cut d = false)
      (hresponse : isResponse msgId cut (.datagram src data) = true)
      (hrelated : ¬ (RecvEvent.datagram src data).Unrelated)
      (hret : r.ret = (cut data).length)
      (hresp : r.resp.take (cut data).length = cut data)
  | none (hnone : ∀ d ∈ window 32 evs, isResponse msgId cut d = false)
      (hread : evs = window 32 evs ++ r.rest ∨ evs = window 32 evs ++ .timeout :: r.rest)
      (hret : r.ret = -1)

theorem accepts_eq_isResponse (msgId : UInt16) (respSz : ℕ) :
    accepts msgId respSz = isResponse msgId (List.take respSz) := by
  funext e
  cases e with
  | timeout => rfl
  | error => rfl
  | datagram src data => rfl

/-- The loop leaves unread what a scan for its response does. -/
theorem qrtrTxnLoop_rest (msgId : UInt16) (respSz tries : ℕ) (resp : List UInt8)
    (sa : QrtrAddr) (evs : List RecvEvent) :
    (qrtrTxnLoop msgId respSz tries resp sa evs).rest =
      (scan (accepts msgId respSz) tries evs).2 := by
  induction tries generalizing resp sa evs with
  | zero => rfl
  | succ tries ih =>
    cases evs with
    | nil => rfl
    | cons e evs =>
      cases e with
      | timeout => rfl
      | error =>
        rw [scan_cons (by simp), if_neg (by simp [accepts])]
        exact ih resp sa evs
      | datagram src data =>
        rw [qrtrTxnLoop_datagram, scan_cons (by simp)]
        by_cases hacc : accepts msgId respSz (.datagram src data) = true
        · rw [if_pos hacc, if_pos hacc]
        · rw [if_neg hacc, if_neg hacc]
          exact ih _ src evs

theorem getLe32_byte0 {b0 b1 b2 b3 : UInt8} {v : UInt32} (h : getLe32 b0 b1 b2 b3 = v) :
    b0.toNat = v.toNat % 256 := by
  have hnat := toNat_getLe32 b0 b1 b2 b3
  have hlt : b0.toNat < 256 := b0.toNat_lt
  rw [h] at hnat
  omega

/-- The first byte of everything unrelated differs from that of a response. -/
theorem RecvEvent.Unrelated.byte0_ne {src : QrtrAddr} {data : List UInt8}
    (h : (RecvEvent.datagram src data).Unrelated) : data.getD 0 0 ≠ 0x02 := by
  intro hctl
  rcases h with h | h | h | h
  · rw [hctl] at h
    exact absurd h (by decide)
  · rw [hctl] at h
    exact absurd h (by decide)
  -- in a control packet it is the low byte of the command
  · have hlow := getLe32_byte0 h
    rw [hctl] at hlow
    exact absurd hlow (by decide)
  · have hlow := getLe32_byte0 h
    rw [hctl] at hlow
    exact absurd hlow (by decide)

theorem accepts_related {msgId : UInt16} {respSz : ℕ} {src : QrtrAddr} {data : List UInt8}
    (h : accepts msgId respSz (.datagram src data) = true) :
    ¬ (RecvEvent.datagram src data).Unrelated := by
  intro hun
  simp only [accepts, decide_eq_true_eq] at h
  obtain ⟨hlen, hctl, -⟩ := h
  rw [List.length_take] at hlen
  have hpos : 0 < respSz := by omega
  rw [List.getD_eq_getElem?_getD, List.getElem?_take_of_lt hpos,
    ← List.getD_eq_getElem?_getD] at hctl
  exact hun.byte0_ne hctl

/-- For every stream of events behind a request that was sent, the call selects the first
response, each datagram cut off at the size of `resp`. -/
theorem qrtrTxn_selects (c : TxnCall) (evs : List RecvEvent) (hsend : c.sendOk = true) :
    Selects c.msgId (List.take c.resp.length) evs (qrtrTxn c evs) := by
  have hcall : qrtrTxn c evs =
      qrtrTxnLoop c.msgId c.resp.length 32 c.resp (c.node, c.port) evs := if_pos hsend
  have hspec := qrtrTxnLoop_spec c.msgId c.resp.length 32 c.resp (c.node, c.port) evs
  have hrest := qrtrTxnLoop_rest c.msgId c.resp.length 32 c.resp (c.node, c.port) evs
  rw [← scan_fst] at hspec
  rw [hcall]
  rcases hscan : scan (accepts c.msgId c.resp.length) 32 evs with ⟨found, rest⟩
  rw [hscan] at hspec hrest
  rw [accepts_eq_isResponse] at hscan
  cases found with
  | none =>
    obtain ⟨hnone, hread⟩ := scan_none hscan
    refine .none hnone ?_ hspec
    rw [hrest]
    exact hread.imp_right And.left
  | some e =>
    obtain ⟨pre, hread, hlen, he, hfirst⟩ := scan_found hscan
    rw [← accepts_eq_isResponse] at he
    obtain ⟨src, data, rfl, -⟩ := accepts_eq_true he
    obtain ⟨hret, -, hresp⟩ := hspec
    have hhead := List.prefix_iff_eq_take.mp hresp
    refine .response pre src data ?_ hlen hfirst ?_ (accepts_related he) hret hhead.symm
    · rw [hrest]
      exact hread
    · rw [← accepts_eq_isResponse]
      exact he

/-- The response to a poll, behind an indication and a packet left over from a lookup. -/
def busySocket : List RecvEvent :=
  [.datagram (0, 20) [0x04, 0x01, 0x00, 0x24, 0x00, 0x00, 0x00], newServer 3 0 20,
    servingSystemReply 1]

theorem qrtrTxn_selects_poll :
    (servingSystemPoll 1).sendOk = true ∧
      Selects 0x24 (List.take (servingSystemPoll 1).resp.length) busySocket
        (qrtrTxn (servingSystemPoll 1) busySocket) :=
  ⟨rfl, qrtrTxn_selects (servingSystemPoll 1) busySocket rfl⟩

/-- A response of 1100 bytes, longer than the buffer of the poll. -/
def longReply : List UInt8 :=
  [0x02, 0x01, 0x00, 0x24, 0x00, 0x45, 0x04] ++ List.replicate 1093 0

theorem longReply_length : longReply.length = 1100 := by
  rw [longReply, List.length_append, List.length_replicate]
  rfl

theorem longReply_ret :
    (qrtrTxn (servingSystemPoll 1) [.datagram (0, 20) longReply]).ret = 1024 := by
  decide +kernel

/-- Of a response longer than `resp` only the front part is returned. -/
theorem qrtrTxn_cut_off :
    ¬ ∀ (c : TxnCall) (evs : List RecvEvent), c.sendOk = true →
      Selects c.msgId id evs (qrtrTxn c evs) := by
  intro h
  rcases h (servingSystemPoll 1) [.datagram (0, 20) longReply] rfl with
    ⟨pre, src, data, hread, -, -, -, -, hret, -⟩ | ⟨-, -, hret⟩
  · have hmem : RecvEvent.datagram src data ∈ [.datagram (0, 20) longReply] := by
      rw [hread]
      exact List.mem_append_right _ List.mem_cons_self
    obtain ⟨-, hdata⟩ := RecvEvent.datagram.inj (List.mem_singleton.mp hmem)
    rw [longReply_ret, hdata, id, longReply_length] at hret
    exact absurd hret (by decide)
  · rw [longReply_ret] at hret
    exact absurd hret (by decide)

end X00TDCellular
