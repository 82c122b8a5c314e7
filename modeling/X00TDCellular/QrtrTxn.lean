import X00TDCellular.QmiCodec

/-! The request/response exchange of `vendor-init/qrtr.c` on one socket. What the
socket delivers over its life is one stream of events, in whatever order the network
produced them; each call consumes a front part of it. -/

namespace X00TDCellular

abbrev QrtrAddr := UInt32 × UInt32

/-- One turn of the receive loop: `poll` times out, `recvfrom` fails, or a datagram
arrives from a node and port. -/
inductive RecvEvent
  | timeout
  | error
  | datagram (src : QrtrAddr) (data : List UInt8)
  deriving DecidableEq, Repr

/-- What a call leaves behind; `sa` is the address `recvfrom` stored last, `rest` the
part of the stream that is still unread. -/
structure TxnResult where
  ret : ℤ
  resp : List UInt8
  sa : QrtrAddr
  rest : List RecvEvent
  deriving DecidableEq, Repr

/-- The receive loop of `qrtr_txn` with some tries left. A stream that has ended is a
socket on which nothing arrives any more. -/
def qrtrTxnLoop (msgId : UInt16) (respSz : ℕ) :
    ℕ → List UInt8 → QrtrAddr → List RecvEvent → TxnResult
  | 0, resp, sa, evs => ⟨-1, resp, sa, evs⟩
  | _+1, resp, sa, [] => ⟨-1, resp, sa, []⟩
  | _+1, resp, sa, .timeout :: evs => ⟨-1, resp, sa, evs⟩
  | tries+1, resp, sa, .error :: evs => qrtrTxnLoop msgId respSz tries resp sa evs
  | tries+1, resp, _, .datagram src data :: evs =>
    let received := data.take respSz
    let n := received.length
    let resp := received ++ resp.drop n
    if n < 5 then qrtrTxnLoop msgId respSz tries resp src evs
    else
      let mid := getLe16 (resp.getD 3 0) (resp.getD 4 0)
      let ctl := resp.getD 0 0
      if ctl = 0x02 ∧ mid = msgId then ⟨n, resp, src, evs⟩
      else qrtrTxnLoop msgId respSz tries resp src evs

/-- The arguments of one call, the contents of `resp` before it, and whether `sendto`
succeeds. -/
structure TxnCall where
  node : UInt32
  port : UInt32
  req : List UInt8
  msgId : UInt16
  resp : List UInt8
  sendOk : Bool
  deriving DecidableEq, Repr

def qrtrTxn (c : TxnCall) (evs : List RecvEvent) : TxnResult :=
  if c.sendOk then qrtrTxnLoop c.msgId c.resp.length 32 c.resp (c.node, c.port) evs
  else ⟨-1, c.resp, (c.node, c.port), evs⟩

/-- The calls on one socket in turn, each with the stream it finds and its result. -/
def qrtrTxns : List TxnCall → List RecvEvent → List (TxnCall × List RecvEvent × TxnResult)
  | [], _ => []
  | c :: cs, evs => (c, evs, qrtrTxn c evs) :: qrtrTxns cs (qrtrTxn c evs).rest

/-- The events that a loop of `tries` turns can get to see. -/
def window (tries : ℕ) (evs : List RecvEvent) : List RecvEvent :=
  (evs.takeWhile (· ≠ .timeout)).take tries

/-- A response to message `msgId`, as far as the loop looks at it. -/
def accepts (msgId : UInt16) (respSz : ℕ) : RecvEvent → Bool
  | .datagram _ data =>
    5 ≤ (data.take respSz).length ∧ (data.take respSz).getD 0 0 = 0x02 ∧
      getLe16 ((data.take respSz).getD 3 0) ((data.take respSz).getD 4 0) = msgId
  | _ => false

/-- The event answers the request of the call: it carries its transaction id and
comes from where the request was sent. -/
def TxnCall.Answers (c : TxnCall) : RecvEvent → Prop
  | .datagram src data =>
    (data.take c.resp.length)[1]? = c.req[1]? ∧ (data.take c.resp.length)[2]? = c.req[2]? ∧
      src = (c.node, c.port)
  | _ => False

/-- A result that is not a failure holds a response to the request of the call. -/
def TxnCall.Matched (c : TxnCall) (r : TxnResult) : Prop :=
  0 ≤ r.ret → r.resp[1]? = c.req[1]? ∧ r.resp[2]? = c.req[2]? ∧ r.sa = (c.node, c.port)

instance (c : TxnCall) (r : TxnResult) : Decidable (c.Matched r) :=
  inferInstanceAs (Decidable (_ → _))

/-- In what the call gets to see, a response with its message id that is not its own
comes only behind one that is. -/
def TxnCall.NoForeignFirst (c : TxnCall) (evs : List RecvEvent) : Prop :=
  c.sendOk = true → ∀ pre e post, window 32 evs = pre ++ e :: post →
    accepts c.msgId c.resp.length e = true →
      (∃ d ∈ pre, accepts c.msgId c.resp.length d = true ∧ c.Answers d) ∨ c.Answers e

/-- The first element with `p` has `q` exactly when every element with `p` has `q` or
stands behind one that has both. -/
theorem find?_forall_iff {α : Type*} (p : α → Bool) (q : α → Prop) (l : List α) :
    (∀ m, l.find? p = some m → q m) ↔
      ∀ pre e post, l = pre ++ e :: post → p e = true →
        (∃ d ∈ pre, p d = true ∧ q d) ∨ q e := by
  constructor
  · intro h pre e post hl he
    cases hpre : pre.find? p with
    | some d =>
      have hfind : l.find? p = some d := by rw [hl, List.find?_append, hpre, Option.some_or]
      exact Or.inl ⟨d, List.mem_of_find?_eq_some hpre, List.find?_some hpre, h d hfind⟩
    | none =>
      have hfind : l.find? p = some e := by
        rw [hl, List.find?_append, hpre, Option.none_or, List.find?_cons_of_pos he]
      exact Or.inr (h e hfind)
  · intro h m hm
    obtain ⟨hp, pre, post, hl, hpre⟩ := List.find?_eq_some_iff_append.mp hm
    rcases h pre m post hl hp with ⟨d, hd, hpd, _⟩ | hq
    · have hnot := hpre d hd
      rw [hpd] at hnot
      cases hnot
    · exact hq

theorem window_cons {tries : ℕ} {evs : List RecvEvent} {e : RecvEvent} (he : e ≠ .timeout) :
    window (tries+1) (e :: evs) = e :: window tries evs := by
  simp [window, he]

theorem getD_received {received tail : List UInt8} {i : ℕ} (hi : i < received.length) :
    (received ++ tail).getD i 0 = received.getD i 0 := by
  rw [List.getD_eq_getElem?_getD, List.getD_eq_getElem?_getD, List.getElem?_append_left hi]

/-- One turn of the loop on a datagram: what it tests in `resp` it tests in the bytes
just received. -/
theorem qrtrTxnLoop_datagram (msgId : UInt16) (respSz tries : ℕ) (resp : List UInt8)
    (sa src : QrtrAddr) (data : List UInt8) (evs : List RecvEvent) :
    qrtrTxnLoop msgId respSz (tries+1) resp sa (.datagram src data :: evs) =
      if accepts msgId respSz (.datagram src data) then
        ⟨(data.take respSz).length,
          data.take respSz ++ resp.drop (data.take respSz).length, src, evs⟩
      else qrtrTxnLoop msgId respSz tries
        (data.take respSz ++ resp.drop (data.take respSz).length) src evs := by
  rw [qrtrTxnLoop]
  simp only [accepts, decide_eq_true_eq]
  generalize data.take respSz = received
  by_cases hn : received.length < 5
  · have hshort : ¬ 5 ≤ received.length := Nat.not_le_of_lt hn
    simp [hn, hshort]
  · have h0 : 0 < received.length := by omega
    have h3 : 3 < received.length := by omega
    have h4 : 4 < received.length := by omega
    have hlong : 5 ≤ received.length := by omega
    rw [if_neg hn, getD_received h0, getD_received h3, getD_received h4]
    simp only [hlong, true_and]

/-- The loop returns the first response in its window, whose bytes are then in front of
`resp`, and fails when the window holds none. -/
theorem qrtrTxnLoop_spec (msgId : UInt16) (respSz tries : ℕ) (resp : List UInt8)
    (sa : QrtrAddr) (evs : List RecvEvent) :
    match (window tries evs).find? (accepts msgId respSz) with
    | some (.datagram src data) =>
      (qrtrTxnLoop msgId respSz tries resp sa evs).ret = (data.take respSz).length ∧
      (qrtrTxnLoop msgId respSz tries resp sa evs).sa = src ∧
      data.take respSz <+: (qrtrTxnLoop msgId respSz tries resp sa evs).resp
    | _ => (qrtrTxnLoop msgId respSz tries resp sa evs).ret = -1 := by
  induction tries generalizing resp sa evs with
  | zero => simp [window, qrtrTxnLoop]
  | succ tries ih =>
    cases evs with
    | nil => simp [window, qrtrTxnLoop]
    | cons e evs =>
      cases e with
      | timeout => simp [window, qrtrTxnLoop]
      -- a failed `recvfrom` uses up a turn and leaves `resp` alone
      | error =>
        rw [window_cons (by simp), List.find?_cons_of_neg (by simp [accepts])]
        exact ih resp sa evs
      | datagram src data =>
        rw [window_cons (by simp), qrtrTxnLoop_datagram]
        by_cases hacc : accepts msgId respSz (.datagram src data) = true
        · rw [List.find?_cons_of_pos hacc, if_pos hacc]
          exact ⟨rfl, rfl, List.prefix_append _ _⟩
        · rw [List.find?_cons_of_neg hacc, if_neg hacc]
          exact ih _ src evs

theorem accepts_eq_true {msgId : UInt16} {respSz : ℕ} {e : RecvEvent}
    (h : accepts msgId respSz e = true) :
    ∃ src data, e = .datagram src data ∧ 5 ≤ (data.take respSz).length := by
  cases e with
  | timeout => cases h
  | error => cases h
  | datagram src data =>
    simp only [accepts, decide_eq_true_eq] at h
    exact ⟨src, data, rfl, h.1⟩

/-- A call that is sent is matched exactly when the first response in its window
answers it. -/
theorem matched_iff_find (c : TxnCall) (evs : List RecvEvent) (hsend : c.sendOk = true) :
    c.Matched (qrtrTxn c evs) ↔
      ∀ e, (window 32 evs).find? (accepts c.msgId c.resp.length) = some e → c.Answers e := by
  have hspec := qrtrTxnLoop_spec c.msgId c.resp.length 32 c.resp (c.node, c.port) evs
  have hcall : qrtrTxn c evs =
      qrtrTxnLoop c.msgId c.resp.length 32 c.resp (c.node, c.port) evs := if_pos hsend
  rw [hcall]
  cases hfind : (window 32 evs).find? (accepts c.msgId c.resp.length) with
  | none =>
    rw [hfind] at hspec
    constructor
    · intro _ e he
      cases he
    · intro _ hret
      rw [hspec] at hret
      exact absurd hret (by decide)
  | some e =>
    obtain ⟨src, data, rfl, hlen⟩ := accepts_eq_true (List.find?_some hfind)
    rw [hfind] at hspec
    obtain ⟨hret, hsa, hresp⟩ := hspec
    -- bytes 1 and 2 of `resp` are those of the datagram
    have hbyte (i : ℕ) (hi : i < 5) :
        (qrtrTxnLoop c.msgId c.resp.length 32 c.resp (c.node, c.port) evs).resp[i]? =
          (data.take c.resp.length)[i]? := by
      obtain ⟨tail, htail⟩ := hresp
      rw [← htail, List.getElem?_append_left (by omega)]
    have hnonneg : (0 : ℤ) ≤ (data.take c.resp.length).length := Int.natCast_nonneg _
    rw [TxnCall.Matched, hret, hsa, hbyte 1 (by decide), hbyte 2 (by decide)]
    constructor
    · intro h e he
      cases he
      exact h hnonneg
    · intro h _
      exact h _ rfl

/-- For every sequence of calls on one socket and every stream of events it delivers,
each result is a response to the request of its own call exactly when in no call a
response with its message id that belongs to another request, or comes from elsewhere,
arrives ahead of its own. -/
theorem qrtrTxns_matched_iff (calls : List TxnCall) (evs : List RecvEvent) :
    (∀ x ∈ qrtrTxns calls evs, x.1.Matched x.2.2) ↔
      ∀ x ∈ qrtrTxns calls evs, x.1.NoForeignFirst x.2.1 := by
  have hone (c : TxnCall) (evs : List RecvEvent) :
      c.Matched (qrtrTxn c evs) ↔ c.NoForeignFirst evs := by
    by_cases hsend : c.sendOk = true
    · rw [matched_iff_find c evs hsend, find?_forall_iff]
      exact ⟨fun h _ => h, fun h => h hsend⟩
    · refine iff_of_true ?_ (fun h => absurd h hsend)
      intro hret
      rw [qrtrTxn, if_neg hsend] at hret
      change (0 : ℤ) ≤ -1 at hret
      exact absurd hret (by decide)
  -- each call starts on what the one before has left in the stream
  induction calls generalizing evs with
  | nil => simp [qrtrTxns]
  | cons c calls ih =>
    simp only [qrtrTxns, List.forall_mem_cons]
    exact and_congr (hone c evs) (ih _)

/-- The calls carry the transaction ids from `txid` on in their requests. -/
def TxidsFrom (txid : UInt16) : List TxnCall → Prop
  | [] => True
  | c :: cs => c.req[1]? = some (byte0 txid) ∧ c.req[2]? = some (byte1 txid) ∧
      TxidsFrom (txid+1) cs

/-- Two polls of the serving system, transaction ids 1 and 2. -/
def servingSystemPoll (txid : UInt8) : TxnCall where
  node := 0
  port := 20
  req := [0x00, txid, 0x00, 0x24, 0x00, 0x00, 0x00]
  msgId := 0x24
  resp := List.replicate 1024 0
  sendOk := true

def servingSystemReply (txid : UInt8) : RecvEvent :=
  .datagram (0, 20) [0x02, txid, 0x00, 0x24, 0x00, 0x07, 0x00,
    0x02, 0x04, 0x00, 0x00, 0x00, 0x00, 0x00]

/-- The first poll times out and its answer is returned by the second. -/
theorem qrtrTxns_late_reply :
    ¬ ∀ (txid : UInt16) (calls : List TxnCall) (evs : List RecvEvent),
      TxidsFrom txid calls → calls.length < 65536 →
        ∀ x ∈ qrtrTxns calls evs, x.1.Matched x.2.2 := by
  intro h
  have hall := h 1 [servingSystemPoll 1, servingSystemPoll 2]
    [.timeout, servingSystemReply 1, servingSystemReply 2]
    ⟨rfl, rfl, rfl, rfl, True.intro⟩ (by decide)
  exact absurd hall (by decide +kernel)

end X00TDCellular
