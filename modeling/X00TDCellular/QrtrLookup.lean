import X00TDCellular.QrtrTxn

/-! The service lookup of `vendor-init/qrtr.c`, on the same stream of events as the
requests that follow it. Both receive loops stop at the first event with a property of
their own; what such a scan finds and leaves unread is stated once for both. -/

namespace X00TDCellular

section Scan

/-- The first event with `p` within `tries` events and before a timeout, and the events
that are still unread then. -/
def scan (p : RecvEvent → Bool) : ℕ → List RecvEvent → Option RecvEvent × List RecvEvent
  | 0, evs => (none, evs)
  | _+1, [] => (none, [])
  | _+1, .timeout :: evs => (none, evs)
  | tries+1, e :: evs => if p e then (some e, evs) else scan p tries evs

variable {p : RecvEvent → Bool} {tries : ℕ} {evs rest : List RecvEvent} {e : RecvEvent}

theorem scan_cons (he : e ≠ .timeout) :
    scan p (tries+1) (e :: evs) = if p e then (some e, evs) else scan p tries evs := by
  cases e with
  | timeout => exact absurd rfl he
  | error => rfl
  | datagram src data => rfl

theorem scan_fst (p : RecvEvent → Bool) (tries : ℕ) (evs : List RecvEvent) :
    (scan p tries evs).1 = (window tries evs).find? p := by
  induction tries generalizing evs with
  | zero => simp [scan, window]
  | succ tries ih =>
    cases evs with
    | nil => simp [scan, window]
    | cons e evs =>
      by_cases he : e = .timeout
      · subst he
        simp [scan, window]
      · rw [scan_cons he, window_cons he]
        by_cases hp : p e = true
        · rw [if_pos hp, List.find?_cons_of_pos hp]
        · rw [if_neg hp, List.find?_cons_of_neg hp]
          exact ih evs

/-- What was read up to the event that is found. -/
theorem scan_found (h : scan p tries evs = (some e, rest)) :
    ∃ pre, evs = pre ++ e :: rest ∧ pre.length < tries ∧ p e = true ∧
      ∀ d ∈ pre, d ≠ .timeout ∧ p d = false := by
  induction tries generalizing evs with
  | zero => cases h
  | succ tries ih =>
    cases evs with
    | nil => cases h
    | cons d evs =>
      by_cases hd : d = .timeout
      · subst hd
        cases h
      rw [scan_cons hd] at h
      by_cases hp : p d = true
      · rw [if_pos hp] at h
        cases h
        exact ⟨[], rfl, Nat.succ_pos tries, hp, List.forall_mem_nil _⟩
      · rw [if_neg hp] at h
        obtain ⟨pre, hsplit, hlen, hpe, hpre⟩ := ih h
        refine ⟨d :: pre, by rw [hsplit, List.cons_append], Nat.succ_lt_succ hlen, hpe, ?_⟩
        exact List.forall_mem_cons.mpr ⟨⟨hd, Bool.eq_false_of_not_eq_true hp⟩, hpre⟩

/-- Where nothing is found the whole window was read, and a timeout that ended it. -/
theorem scan_none (h : scan p tries evs = (none, rest)) :
    (∀ d ∈ window tries evs, p d = false) ∧
      (evs = window tries evs ++ rest ∨
        evs = window tries evs ++ .timeout :: rest ∧ (window tries evs).length < tries) := by
  induction tries generalizing evs with
  | zero =>
    cases h
    simp [window]
  | succ tries ih =>
    cases evs with
    | nil =>
      cases h
      simp [window]
    | cons d evs =>
      by_cases hd : d = .timeout
      · subst hd
        cases h
        simp [window]
      rw [scan_cons hd] at h
      by_cases hp : p d = true
      · rw [if_pos hp] at h
        cases h
      · rw [if_neg hp] at h
        obtain ⟨hnone, hread⟩ := ih h
        rw [window_cons hd]
        refine ⟨List.forall_mem_cons.mpr ⟨Bool.eq_false_of_not_eq_true hp, hnone⟩, ?_⟩
        rcases hread with hread | ⟨hread, hlen⟩
        · exact Or.inl (congrArg (d :: ·) hread)
        · exact Or.inr ⟨congrArg (d :: ·) hread, Nat.succ_lt_succ hlen⟩

end Scan

/-- `sizeof(struct qrtr_ctrl_pkt)`: the command, then the service, instance, node and port
of a server, each a little-endian word. -/
def ctrlPktSize : ℕ := 20

def ctrlWord (pkt : List UInt8) (i : ℕ) : UInt32 :=
  getLe32 (pkt.getD (4*i) 0) (pkt.getD (4*i+1) 0) (pkt.getD (4*i+2) 0) (pkt.getD (4*i+3) 0)

def qrtrTypeNewServer : UInt32 := 4

def qrtrTypeNewLookup : UInt32 := 10

/-- The request, which stands in `pkt` when the loop starts. -/
def newLookupPkt (service : UInt32) : List UInt8 :=
  le32 qrtrTypeNewLookup ++ le32 service ++ le32 0 ++ le32 0 ++ le32 0

/-- What `qrtr_lookup` returns, and the part of the stream that is still unread. -/
structure LookupResult where
  port : UInt32
  rest : List RecvEvent
  deriving DecidableEq, Repr

/-- The loop of `qrtr_lookup` with some turns left. `recvfrom` cuts a datagram off at the
size of `pkt` and leaves what a shorter one does not reach. -/
def qrtrLookupLoop (service : UInt32) : ℕ → List UInt8 → List RecvEvent → LookupResult
  | 0, _, evs => ⟨0, evs⟩
  | _+1, _, [] => ⟨0, []⟩
  | _+1, _, .timeout :: evs => ⟨0, evs⟩
  | i+1, pkt, .error :: evs => qrtrLookupLoop service i pkt evs
  | i+1, pkt, .datagram _ data :: evs =>
    let received := data.take ctrlPktSize
    let n := received.length
    let pkt := received ++ pkt.drop n
    if n < ctrlPktSize then qrtrLookupLoop service i pkt evs
    else if ctrlWord pkt 0 ≠ qrtrTypeNewServer then qrtrLookupLoop service i pkt evs
    else if ctrlWord pkt 1 ≠ service then qrtrLookupLoop service i pkt evs
    else if ctrlWord pkt 4 = 0 then qrtrLookupLoop service i pkt evs
    else ⟨ctrlWord pkt 4, evs⟩

/-- The service, and whether `sendto` succeeds. -/
structure LookupCall where
  service : UInt32
  sendOk : Bool
  deriving DecidableEq, Repr

def qrtrLookup (c : LookupCall) (evs : List RecvEvent) : LookupResult :=
  if c.sendOk then qrtrLookupLoop c.service 64 (newLookupPkt c.service) evs
  else ⟨0, evs⟩

/-- The node that every stage gives to `qrtr_txn` with the port it has looked up. -/
def requestNode : UInt32 := 0

/-- A `NEW_SERVER` for the service that names a port. -/
def announces (service : UInt32) : RecvEvent → Bool
  | .datagram _ data =>
    ctrlPktSize ≤ data.length ∧ ctrlWord data 0 = qrtrTypeNewServer ∧
      ctrlWord data 1 = service ∧ ctrlWord data 4 ≠ 0
  | _ => false

/-- The node and the port that an announcement names. -/
def RecvEvent.server : RecvEvent → QrtrAddr
  | .datagram _ data => (ctrlWord data 3, ctrlWord data 4)
  | _ => (0, 0)

/-- Of the events that the call has read, one announces the port it returns on the node
that requests go to, and where it returns 0 none announces any port there. -/
def LookupCall.Addressable (c : LookupCall) (evs : List RecvEvent) : Prop :=
  ∃ seen, evs = seen ++ (qrtrLookup c evs).rest ∧ seen.length ≤ 64 ∧
    ((qrtrLookup c evs).port ≠ 0 →
      ∃ e ∈ seen, announces c.service e = true ∧
        e.server = (requestNode, (qrtrLookup c evs).port)) ∧
    ((qrtrLookup c evs).port = 0 →
      ∀ e ∈ seen, announces c.service e = true → e.server.1 ≠ requestNode)

/-- In what the call gets to see, the service is announced on another node only behind an
announcement on the node that requests go to. -/
def LookupCall.LocalFirst (c : LookupCall) (evs : List RecvEvent) : Prop :=
  c.sendOk = true → ∀ pre e post, window 64 evs = pre ++ e :: post →
    announces c.service e = true →
      (∃ d ∈ pre, announces c.service d = true ∧ d.server.1 = requestNode) ∨
        e.server.1 = requestNode

theorem ctrlWord_take {data tail : List UInt8} (h : ctrlPktSize ≤ data.length) {i : ℕ}
    (hi : i < 5) : ctrlWord (data.take ctrlPktSize ++ tail) i = ctrlWord data i := by
  have hlen : (data.take ctrlPktSize).length = 20 := by
    rw [List.length_take, Nat.min_eq_left h]
    rfl
  have hbyte (j : ℕ) (hj : j < 20) :
      (data.take ctrlPktSize ++ tail).getD j 0 = data.getD j 0 := by
    rw [getD_received (by omega), List.getD_eq_getElem?_getD, List.getD_eq_getElem?_getD,
      List.getElem?_take_of_lt (show j < ctrlPktSize from hj)]
  unfold ctrlWord
  rw [hbyte (4*i) (by omega), hbyte (4*i+1) (by omega), hbyte (4*i+2) (by omega),
    hbyte (4*i+3) (by omega)]

/-- One turn of the loop on a datagram: what it tests in `pkt` it tests in the datagram. -/
theorem qrtrLookupLoop_datagram (service : UInt32) (i : ℕ) (pkt : List UInt8)
    (src : QrtrAddr) (data : List UInt8) (evs : List RecvEvent) :
    ∃ pkt', qrtrLookupLoop service (i+1) pkt (.datagram src data :: evs) =
      if announces service (.datagram src data) then
        ⟨(RecvEvent.datagram src data).server.2, evs⟩
      else qrtrLookupLoop service i pkt' evs := by
  refine ⟨data.take ctrlPktSize ++ pkt.drop (data.take ctrlPktSize).length, ?_⟩
  rw [qrtrLookupLoop]
  simp only [announces, decide_eq_true_eq, RecvEvent.server, List.length_take]
  by_cases hn : ctrlPktSize ≤ data.length
  · have hfull : ¬ min ctrlPktSize data.length < ctrlPktSize := by omega
    rw [if_neg hfull, ctrlWord_take hn (by decide), ctrlWord_take hn (by decide),
      ctrlWord_take hn (by decide)]
    -- the four tests in a row are one conjunction
    by_cases hcmd : ctrlWord data 0 = qrtrTypeNewServer
    · by_cases hservice : ctrlWord data 1 = service
      · by_cases hport : ctrlWord data 4 = 0
        · simp [hn, hcmd, hservice, hport]
        · simp [hn, hcmd, hservice, hport]
      · simp [hcmd, hservice]
    · simp [hcmd]
  · have hshort : min ctrlPktSize data.length < ctrlPktSize := by omega
    have hnot : ¬ (ctrlPktSize ≤ data.length ∧ ctrlWord data 0 = qrtrTypeNewServer ∧
        ctrlWord data 1 = service ∧ ctrlWord data 4 ≠ 0) := fun h => hn h.1
    rw [if_pos hshort, if_neg hnot]

/-- The loop scans for the first announcement of the service, on whatever node. -/
theorem qrtrLookupLoop_eq_scan (service : UInt32) (i : ℕ) (pkt : List UInt8)
    (evs : List RecvEvent) :
    qrtrLookupLoop service i pkt evs =
      ⟨((scan (announces service) i evs).1.map fun e => e.server.2).getD 0,
        (scan (announces service) i evs).2⟩ := by
  induction i generalizing pkt evs with
  | zero => rfl
  | succ i ih =>
    cases evs with
    | nil => rfl
    | cons e evs =>
      cases e with
      | timeout => rfl
      | error =>
        rw [scan_cons (by simp), if_neg (by simp [announces])]
        exact ih pkt evs
      | datagram src data =>
        obtain ⟨pkt', hturn⟩ := qrtrLookupLoop_datagram service i pkt src data evs
        rw [hturn, scan_cons (by simp)]
        by_cases h : announces service (.datagram src data) = true
        · rw [if_pos h, if_pos h]
          rfl
        · rw [if_neg h, if_neg h]
          exact ih pkt' evs

theorem announces_port {service : UInt32} {e : RecvEvent} (h : announces service e = true) :
    e.server.2 ≠ 0 := by
  cases e with
  | timeout => cases h
  | error => cases h
  | datagram src data =>
    simp only [announces, decide_eq_true_eq] at h
    exact h.2.2.2

/-- A call that is sent is addressable exactly when the first announcement in its window
is on the node of the requests. -/
theorem addressable_iff_find (c : LookupCall) (evs : List RecvEvent) (hsend : c.sendOk = true) :
    c.Addressable evs ↔
      ∀ e, (window 64 evs).find? (announces c.service) = some e → e.server.1 = requestNode := by
  have hcall : qrtrLookup c evs = _ :=
    (if_pos hsend).trans (qrtrLookupLoop_eq_scan c.service 64 (newLookupPkt c.service) evs)
  rw [LookupCall.Addressable, hcall, ← scan_fst]
  rcases hscan : scan (announces c.service) 64 evs with ⟨found, rest⟩
  cases found with
  | none =>
    -- what was read holds no announcement at all, so 0 is right
    obtain ⟨hnone, hread⟩ := scan_none hscan
    have hquiet (d : RecvEvent) (hd : d ∈ window 64 evs) (hann : announces c.service d = true) :
        d.server.1 ≠ requestNode := by
      rw [hnone d hd] at hann
      cases hann
    refine iff_of_true ?_ (fun e he => by cases he)
    rcases hread with hread | ⟨hread, hlen⟩
    · exact ⟨window 64 evs, hread, List.length_take_le _ _, fun h => absurd rfl h,
        fun _ => hquiet⟩
    · refine ⟨window 64 evs ++ [.timeout], ?_, ?_, fun h => absurd rfl h, fun _ d hd => ?_⟩
      · rw [List.append_assoc]
        exact hread
      · rw [List.length_append]
        exact hlen
      · rcases List.mem_append.mp hd with hd | hd
        · exact hquiet d hd
        · rw [List.mem_singleton.mp hd]
          intro hann
          cases hann
  | some e =>
    -- of what was read only the last is an announcement
    obtain ⟨pre, hsplit, hlen, he, hpre⟩ := scan_found hscan
    have hport : e.server.2 ≠ 0 := announces_port he
    have hread : evs = (pre ++ [e]) ++ rest := by rw [hsplit, List.append_assoc]; rfl
    constructor
    · rintro ⟨seen, hseen, -, hfound, -⟩ e' he'
      cases he'
      obtain rfl : seen = pre ++ [e] := List.append_cancel_right (hseen.symm.trans hread)
      obtain ⟨d, hd, hann, hserver⟩ := hfound hport
      rcases List.mem_append.mp hd with hd | hd
      · rw [(hpre d hd).2] at hann
        cases hann
      · rw [List.mem_singleton.mp hd] at hserver
        exact congrArg Prod.fst hserver
    · intro hnode
      refine ⟨pre ++ [e], hread, ?_, fun _ => ⟨e, List.mem_concat_self, he, ?_⟩,
        fun h => absurd h hport⟩
      · rw [List.length_append]
        exact hlen
      · exact Prod.ext (hnode e rfl) rfl

/-- For every stream of events, the lookup finds the address that the stages use exactly
when no announcement on another node arrives ahead of all those on that node. -/
theorem qrtrLookup_addressable_iff (c : LookupCall) (evs : List RecvEvent) :
    c.Addressable evs ↔ c.LocalFirst evs := by
  by_cases hsend : c.sendOk = true
  · rw [addressable_iff_find c evs hsend, find?_forall_iff]
    exact ⟨fun h _ => h, fun h => h hsend⟩
  · -- without a request nothing is read
    refine iff_of_true ?_ (fun h => absurd h hsend)
    rw [LookupCall.Addressable, qrtrLookup, if_neg hsend]
    exact ⟨[], rfl, Nat.zero_le _, fun h => absurd rfl h, fun _ e he => by cases he⟩

/-- A control packet that announces a service. -/
def newServer (service node port : UInt32) : RecvEvent :=
  .datagram (1, 0xfffffffe)
    (le32 qrtrTypeNewServer ++ le32 service ++ le32 1 ++ le32 node ++ le32 port)

/-- WDS is announced on node 1 first and then on node 0: the port returned is that of
node 1. -/
theorem qrtrLookup_foreign_first :
    ¬ LookupCall.Addressable ⟨1, true⟩ [newServer 1 1 17, newServer 1 0 33] := by
  intro h
  have hlocal := (addressable_iff_find ⟨1, true⟩ _ rfl).mp h (newServer 1 1 17) (by decide)
  exact absurd hlocal (by decide)

end X00TDCellular
