import X00TDCellular.VendorInitCalls

/-! The life of the sockets: each is closed once and not used after, the one-shot stages
close their own, and the bearer's is the one that `main` closes last. -/

namespace X00TDCellular
namespace VendorInit
open EnvProgram EnvProgram.Prog EnvProgram.Monitor

/-- The messages that the modem ties to the socket of the bearer. -/
def MsgId.onBearer : MsgId → Bool
  | .bindMux | .afSetMode | .ipFamily4D | .startNetwork | .getSettings => true
  | _ => false

abbrev Trace := List (Event Call Answer)

/-- The account of the sockets. -/
structure Sockets where
  isOpen : List ℤ := []
  /-- the socket that messages of the bearer have been sent on -/
  bearer : Option ℤ := none
  /-- BIND_MUX is one of them -/
  bound : Bool := false
  /-- the bearer's socket has been closed -/
  released : Bool := false

namespace Sockets

def opened (s : Sockets) (fd : ℤ) : Sockets := { s with isOpen := fd :: s.isOpen }

def next (s : Sockets) : Event Call Answer → Sockets
  | ⟨.qrtrOpen, fd⟩ => if 0 ≤ fd then s.opened fd else s
  | ⟨.close fd, _⟩ =>
    { s with isOpen := s.isOpen.erase fd, released := s.released || s.bearer = some fd }
  | ⟨.qrtrTxn fd _ req _ _, _⟩ =>
    if req.msg.onBearer then
      { s with bearer := some fd, bound := s.bound || req.msg = .bindMux }
    else s
  | _ => s

/-- Only an open socket is used or closed. The messages of the bearer keep to one socket:
BIND_MUX if there is a mux to bind, and then the others after it. After the bearer's socket
is closed there is nothing more to do. -/
def may (numMuxes : ℤ) (s : Sockets) (c : Call) : Prop :=
  s.released = false ∧
    match c with
    | .qrtrLookup fd _ => fd ∈ s.isOpen
    | .close fd => fd ∈ s.isOpen
    | .qrtrTxn fd _ req _ _ =>
      fd ∈ s.isOpen ∧ (req.msg.onBearer = true →
        (s.bearer = none ∨ s.bearer = some fd) ∧
          (req.msg = .bindMux ∧ 0 < numMuxes ∨
            req.msg ≠ .bindMux ∧ (s.bound = true ∨ numMuxes ≤ 0)))
    | _ => True

/-- The kernel gives out no descriptor that is in use. -/
def allows (s : Sockets) : Event Call Answer → Prop
  | ⟨.qrtrOpen, fd⟩ => fd ∉ s.isOpen
  | _ => True

instance (s : Sockets) : (e : Event Call Answer) → Decidable (s.allows e)
  | ⟨.qrtrOpen, fd⟩ => inferInstanceAs (Decidable (fd ∉ s.isOpen))
  | ⟨.qrtrLookup _ _, _⟩ | ⟨.qrtrTxn _ _ _ _ _, _⟩ | ⟨.close _, _⟩ | ⟨.writeFile _ _, _⟩
  | ⟨.system _, _⟩ | ⟨.tryWrite _ _, _⟩ | ⟨.lteRounds, _⟩ | ⟨.gStop, _⟩ | ⟨.pause, _⟩ =>
    inferInstanceAs (Decidable True)

end Sockets

def sockets (numMuxes : ℤ) : Monitor Call Answer Sockets where
  next := Sockets.next
  may := Sockets.may numMuxes
  allows := Sockets.allows

instance (numMuxes : ℤ) (s : Sockets) (e : Event Call Answer) :
    Decidable ((sockets numMuxes).allows s e) :=
  inferInstanceAs (Decidable (s.allows e))

/-- The account while a stage runs: nothing is released, and the bearer's socket is open. -/
structure Sockets.Sound (s : Sockets) : Prop where
  released : s.released = false
  bearer : ∀ fd ∈ s.bearer, fd ∈ s.isOpen

section Rules

variable {numMuxes : ℤ} {s : Sockets} {α : Type} {Q : α → Sockets → Prop}

/-- The calls that have nothing to do with sockets. -/
def Call.offSocket : Call → Bool
  | .writeFile _ _ | .system _ | .tryWrite _ _ | .lteRounds | .gStop | .pause => true
  | _ => false

theorem Call.silent_of_offSocket {c : Call} (hc : c.offSocket = true) :
    (sockets numMuxes).Silent Sockets.Sound c := by
  intro s hs
  cases c with
  | writeFile => exact ⟨⟨hs.released, trivial⟩, fun _ => rfl⟩
  | system => exact ⟨⟨hs.released, trivial⟩, fun _ => rfl⟩
  | tryWrite => exact ⟨⟨hs.released, trivial⟩, fun _ => rfl⟩
  | lteRounds => exact ⟨⟨hs.released, trivial⟩, fun _ => rfl⟩
  | gStop => exact ⟨⟨hs.released, trivial⟩, fun _ => rfl⟩
  | pause => exact ⟨⟨hs.released, trivial⟩, fun _ => rfl⟩
  | qrtrOpen => cases hc
  | qrtrLookup => cases hc
  | qrtrTxn => cases hc
  | close => cases hc

theorem wp_offSocket {c : Call} {f : Answer c → Vi α} (hc : c.offSocket = true)
    (hs : s.Sound) (h : ∀ r, (sockets numMuxes).wp (f r) Q s) :
    (sockets numMuxes).wp (ask c >>= f) Q s :=
  (Call.silent_of_offSocket hc).wp_ask_bind hs h

theorem wp_record {key : StateFile} {value : StateValue} {f : Bool → Vi α} (hs : s.Sound)
    (h : ∀ ok, (sockets numMuxes).wp (f ok) Q s) :
    (sockets numMuxes).wp (stateRecord key value >>= f) Q s :=
  wp_offSocket rfl hs h

theorem Sockets.Sound.opened (hs : s.Sound) (fd : ℤ) : (s.opened fd).Sound :=
  ⟨hs.released, fun fd' hfd' => List.mem_cons_of_mem fd (hs.bearer fd' hfd')⟩

/-- A stage that opens a socket of its own. -/
theorem wp_open {rc : α} {f : ℤ → Vi α} (hs : s.Sound) (hfail : Q rc s)
    (h : ∀ fd : ℤ, 0 ≤ fd → fd ∉ s.isOpen → (sockets numMuxes).wp (f fd) Q (s.opened fd)) :
    (sockets numMuxes).wp (qrtrOpen >>= fun fd => if fd < 0 then pure rc else f fd) Q s := by
  apply wp_ask_bind (M := sockets numMuxes) (c := Call.qrtrOpen) ⟨hs.released, trivial⟩
  intro fd hfd
  have hnext : (sockets numMuxes).next s ⟨.qrtrOpen, fd⟩ =
      if 0 ≤ fd then s.opened fd else s := rfl
  rw [hnext]
  by_cases hneg : fd < 0
  · rw [if_neg (not_le.mpr hneg), if_pos hneg]
    exact hfail
  · rw [if_pos (not_lt.mp hneg), if_neg hneg]
    exact h fd (not_lt.mp hneg) hfd

theorem wp_lookup {fd : ℤ} {svc : QrtrSvc} {f : UInt32 → Vi α} (hs : s.Sound)
    (hfd : fd ∈ s.isOpen) (h : ∀ port, (sockets numMuxes).wp (f port) Q s) :
    (sockets numMuxes).wp (qrtrLookup fd svc >>= f) Q s :=
  wp_ask_bind (M := sockets numMuxes) (c := Call.qrtrLookup fd svc) ⟨hs.released, hfd⟩
    fun port _ => h port

/-- A message that any socket may carry. -/
theorem wp_txn {fd : ℤ} {port : UInt32} {req : QmiRequest} {respSz timeoutMs : ℕ}
    {f : Option (List UInt8) → Vi α} (hs : s.Sound) (hfd : fd ∈ s.isOpen)
    (hreq : req.msg.onBearer = false) (h : ∀ resp, (sockets numMuxes).wp (f resp) Q s) :
    (sockets numMuxes).wp (qrtrTxn fd port req respSz timeoutMs >>= f) Q s := by
  apply wp_ask_bind (M := sockets numMuxes) (c := Call.qrtrTxn fd port req respSz timeoutMs)
  · refine ⟨hs.released, hfd, ?_⟩
    intro hon
    exact absurd (hreq.symm.trans hon) Bool.false_ne_true
  · intro resp _
    have hnext : (sockets numMuxes).next s ⟨.qrtrTxn fd port req respSz timeoutMs, resp⟩ = s :=
      if_neg (by rw [hreq]; exact Bool.false_ne_true)
    rw [hnext]
    exact h resp

/-- The socket of the stage is closed again, and the account is what it was. -/
theorem wp_close {fd : ℤ} {f : Unit → Vi α} (hs : s.Sound) (hfd : fd ∉ s.isOpen)
    (h : (sockets numMuxes).wp (f ()) Q s) :
    (sockets numMuxes).wp (close fd >>= f) Q (s.opened fd) := by
  apply wp_ask_bind (M := sockets numMuxes) (c := Call.close fd)
    ⟨(hs.opened fd).released, List.mem_cons_self⟩
  intro r _
  have hother : s.bearer ≠ some fd := fun heq => hfd (hs.bearer fd heq)
  have hnext : (sockets numMuxes).next (s.opened fd) ⟨.close fd, r⟩ = s := by
    show ({ s.opened fd with
      isOpen := (fd :: s.isOpen).erase fd
      released := s.released || decide (s.bearer = some fd) } : Sockets) = s
    rw [List.erase_cons_head, decide_eq_false hother, Bool.or_false]
    rfl
  rw [hnext]
  exact h

end Rules

/-- What a one-shot stage leaves of the context: the fields of the bearer's socket. -/
structure KeepsBearer (ctx ctx' : ViCtx) : Prop where
  fd : ctx'.fd = ctx.fd
  wdsPort : ctx'.wdsPort = ctx.wdsPort
  numMuxes : ctx'.numMuxes = ctx.numMuxes

theorem KeepsBearer.refl (ctx : ViCtx) : KeepsBearer ctx ctx := ⟨rfl, rfl, rfl⟩

/-- A stage whose sockets are closed when it returns, on every path. -/
def OneShot (fn : ViCtx → Vi (ℕ × ViCtx)) : Prop :=
  ∀ (numMuxes : ℤ) (ctx : ViCtx) (s : Sockets), s.Sound →
    (sockets numMuxes).wp (fn ctx) (fun r s' => s' = s ∧ KeepsBearer ctx r.2) s

theorem oneShot_dmsOnline : OneShot stageDmsOnline := by
  intro numMuxes ctx s hs
  have hsame := KeepsBearer.refl ctx
  unfold stageDmsOnline
  split
  · exact ⟨rfl, hsame⟩
  apply wp_open hs ⟨rfl, hsame⟩
  intro fd _ hfd
  have hopen := hs.opened fd
  apply wp_lookup hopen List.mem_cons_self
  intro port
  split
  · exact wp_close hs hfd ⟨rfl, hsame⟩
  apply wp_record hopen
  intro _
  apply wp_txn hopen List.mem_cons_self rfl
  intro resp
  cases resp with
  | none => exact wp_close hs hfd ⟨rfl, hsame⟩
  | some resp =>
    dsimp only
    split
    · apply wp_record hopen
      intro _
      exact wp_close hs hfd ⟨rfl, hsame⟩
    · apply wp_record hopen
      intro _
      split
      · exact wp_close hs hfd ⟨rfl, hsame⟩
      · apply wp_txn hopen List.mem_cons_self rfl
        intro resp'
        cases resp' with
        | none => exact wp_close hs hfd ⟨rfl, hsame⟩
        | some resp' =>
          apply wp_close hs hfd
          apply wp_record hs
          intro _
          exact ⟨rfl, hsame⟩

theorem oneShot_dpmOpen : OneShot stageDpmOpen := by
  intro numMuxes ctx s hs
  unfold stageDpmOpen
  split
  · exact ⟨rfl, KeepsBearer.refl ctx⟩
  apply wp_open hs ⟨rfl, KeepsBearer.refl ctx⟩
  intro fd _ hfd
  have hopen := hs.opened fd
  apply wp_lookup hopen List.mem_cons_self
  intro port
  have hsame : KeepsBearer ctx { ctx with dpmPort := port } := ⟨rfl, rfl, rfl⟩
  dsimp only
  split
  · apply wp_record hopen
    intro _
    exact wp_close hs hfd ⟨rfl, hsame⟩
  apply wp_record hopen
  intro _
  apply wp_txn hopen List.mem_cons_self rfl
  intro resp
  cases resp with
  | none => exact wp_close hs hfd ⟨rfl, hsame⟩
  | some resp =>
    apply wp_record hopen
    intro _
    exact wp_close hs hfd ⟨rfl, hsame⟩

theorem oneShot_wdaSet : OneShot stageWdaSet := by
  intro numMuxes ctx s hs
  unfold stageWdaSet
  split
  · exact ⟨rfl, KeepsBearer.refl ctx⟩
  apply wp_open hs ⟨rfl, KeepsBearer.refl ctx⟩
  intro fd _ hfd
  have hopen := hs.opened fd
  apply wp_lookup hopen List.mem_cons_self
  intro port
  have hsame : KeepsBearer ctx { ctx with wdaPort := port } := ⟨rfl, rfl, rfl⟩
  dsimp only
  split
  · exact wp_close hs hfd ⟨rfl, hsame⟩
  apply wp_record hopen
  intro _
  apply wp_txn hopen List.mem_cons_self rfl
  intro resp
  cases resp with
  | none => exact wp_close hs hfd ⟨rfl, hsame⟩
  | some resp =>
    apply wp_close hs hfd
    split
    · exact ⟨rfl, hsame⟩
    -- the four values of the echo
    apply wp_record hs
    intro _
    apply wp_record hs
    intro _
    apply wp_record hs
    intro _
    apply wp_record hs
    intro _
    exact ⟨rfl, hsame⟩

theorem oneShot_dsd : OneShot stageDsd := by
  intro numMuxes ctx s hs
  unfold stageDsd
  split
  · exact ⟨rfl, KeepsBearer.refl ctx⟩
  apply wp_open hs ⟨rfl, KeepsBearer.refl ctx⟩
  intro fd _ hfd
  have hopen := hs.opened fd
  apply wp_lookup hopen List.mem_cons_self
  intro port
  apply wp_record hopen
  intro _
  exact wp_close hs hfd ⟨rfl, rfl, rfl, rfl⟩

section NasRat

variable {numMuxes : ℤ} {s : Sockets} {α : Type} {Q : α → Sockets → Prop} {fd : ℤ}
  {port : UInt32}

theorem wp_poll {txid : UInt16} {f : UInt8 → Vi α} (hs : s.Sound) (hfd : fd ∈ s.isOpen)
    (h : ∀ r, (sockets numMuxes).wp (f r) Q s) :
    (sockets numMuxes).wp (pollServingSystem fd port txid >>= f) Q s := by
  apply wp_bind.mpr
  apply wp_txn hs hfd rfl
  intro resp
  exact h (polledInterface resp)

theorem wp_issueRequest {req : QmiRequest} {key : StateFile} {f : ℤ → Vi α} (hs : s.Sound)
    (hfd : fd ∈ s.isOpen) (hreq : req.msg.onBearer = false)
    (h : ∀ r, (sockets numMuxes).wp (f r) Q s) :
    (sockets numMuxes).wp (issueRequest fd port req key >>= f) Q s := by
  apply wp_bind.mpr
  apply wp_txn hs hfd hreq
  intro resp
  cases resp with
  | none => exact h _
  | some resp =>
    apply wp_record hs
    intro _
    exact h _

theorem wp_waitForLte (rounds : ℕ) (txid : UInt16) (lastRat : UInt8) (hs : s.Sound)
    (hfd : fd ∈ s.isOpen) :
    (sockets numMuxes).wp (waitForLte fd port rounds txid lastRat) (fun _ s' => s' = s) s := by
  induction rounds generalizing txid lastRat with
  | zero => exact rfl
  | succ rounds ih =>
    apply wp_poll hs hfd
    intro r
    split
    · exact rfl
    · exact ih (txid+1) r

theorem oneShot_nasRat : OneShot stageNasRat := by
  intro numMuxes ctx s hs
  have hsame := KeepsBearer.refl ctx
  unfold stageNasRat
  split
  · exact ⟨rfl, hsame⟩
  apply wp_open hs ⟨rfl, hsame⟩
  intro fd _ hfd
  have hopen := hs.opened fd
  have hmem : fd ∈ (s.opened fd).isOpen := List.mem_cons_self
  apply wp_lookup hopen hmem
  intro port
  split
  · exact wp_close hs hfd ⟨rfl, hsame⟩
  apply wp_record hopen
  intro _
  apply wp_poll hopen hmem
  intro currentRat
  apply wp_record hopen
  intro _
  split
  · exact wp_close hs hfd ⟨rfl, hsame⟩
  apply wp_issueRequest hopen hmem rfl
  intro _
  apply wp_issueRequest hopen hmem rfl
  intro _
  apply wp_offSocket (c := Call.lteRounds) rfl hopen
  intro rounds
  apply wp_bind.mpr
  apply wp_mono (wp_waitForLte rounds 4 currentRat hopen hmem)
  rintro waited _ rfl
  apply wp_record hopen
  intro _
  apply wp_close hs hfd
  split
  · exact ⟨rfl, hsame⟩
  · exact ⟨rfl, rfl, rfl, rfl⟩

end NasRat

/-- The account when the bearer's socket is the only one. -/
structure Sockets.Holds (s : Sockets) (fd : ℤ) : Prop where
  isOpen : s.isOpen = [fd]
  bearer : s.bearer = none ∨ s.bearer = some fd
  released : s.released = false

theorem Sockets.Holds.sound {s : Sockets} {fd : ℤ} (h : s.Holds fd) : s.Sound := by
  refine ⟨h.released, ?_⟩
  intro fd' hfd'
  rcases h.bearer with hnone | hsome
  · rw [hnone] at hfd'
    cases hfd'
  · rw [hsome] at hfd'
    cases hfd'
    rw [h.isOpen]
    exact List.mem_cons_self

section Bearer

variable {numMuxes : ℤ} {s : Sockets} {α : Type} {Q : α → Sockets → Prop} {fd : ℤ}
  {port : UInt32}

/-- A message of the bearer on its socket. -/
theorem wp_bearerTxn {req : QmiRequest} {respSz timeoutMs : ℕ}
    {f : Option (List UInt8) → Vi α} (hs : s.Holds fd) (hreq : req.msg.onBearer = true)
    (hbound : req.msg = .bindMux ∧ 0 < numMuxes ∨
      req.msg ≠ .bindMux ∧ (s.bound = true ∨ numMuxes ≤ 0))
    (h : ∀ resp s', s'.Holds fd → (s.bound = true ∨ req.msg = .bindMux → s'.bound = true) →
      (sockets numMuxes).wp (f resp) Q s') :
    (sockets numMuxes).wp (qrtrTxn fd port req respSz timeoutMs >>= f) Q s := by
  apply wp_ask_bind (M := sockets numMuxes) (c := Call.qrtrTxn fd port req respSz timeoutMs)
  · refine ⟨hs.released, ?_, fun _ => ⟨hs.bearer, hbound⟩⟩
    rw [hs.isOpen]
    exact List.mem_cons_self
  · intro resp _
    have hnext : (sockets numMuxes).next s ⟨.qrtrTxn fd port req respSz timeoutMs, resp⟩ =
        { s with bearer := some fd, bound := s.bound || req.msg = .bindMux } := if_pos hreq
    rw [hnext]
    apply h
    · exact ⟨hs.isOpen, Or.inr rfl, hs.released⟩
    · rintro (hbefore | hnow)
      · dsimp only
        rw [hbefore, Bool.true_or]
      · dsimp only
        rw [decide_eq_true hnow, Bool.or_true]

/-- The messages of the bearer other than BIND_MUX. -/
theorem wp_boundTxn {req : QmiRequest} {respSz timeoutMs : ℕ}
    {f : Option (List UInt8) → Vi α} (hs : s.Holds fd) (hreq : req.msg.onBearer = true)
    (hother : decide (req.msg = .bindMux) = false) (hbound : s.bound = true ∨ numMuxes ≤ 0)
    (h : ∀ resp s', s'.Holds fd → (s'.bound = true ∨ numMuxes ≤ 0) →
      (sockets numMuxes).wp (f resp) Q s') :
    (sockets numMuxes).wp (qrtrTxn fd port req respSz timeoutMs >>= f) Q s := by
  apply wp_bearerTxn hs hreq (Or.inr ⟨of_decide_eq_false hother, hbound⟩)
  intro resp s' hs' hkept
  exact h resp s' hs' (hbound.imp_left fun hset => hkept (Or.inl hset))

/-- The account between two stages. -/
structure Between (numMuxes : ℤ) (ctx : ViCtx) (s : Sockets) : Prop where
  numMuxes : ctx.numMuxes = numMuxes
  none : ctx.fd < 0 → s = {}
  some : 0 ≤ ctx.fd → s.Holds ctx.fd
  wdsPort : ctx.wdsPort ≠ 0 → 0 ≤ ctx.fd

theorem Between.sound {ctx : ViCtx} (h : Between numMuxes ctx s) : s.Sound := by
  by_cases hfd : ctx.fd < 0
  · rw [h.none hfd]
    exact ⟨rfl, fun _ hnone => by cases hnone⟩
  · exact (h.some (not_lt.mp hfd)).sound

theorem Between.of_keeps {ctx ctx' : ViCtx} (h : Between numMuxes ctx s)
    (hkeeps : KeepsBearer ctx ctx') : Between numMuxes ctx' s := by
  refine ⟨hkeeps.numMuxes.trans h.numMuxes, ?_, ?_, ?_⟩
  · rw [hkeeps.fd]
    exact h.none
  · rw [hkeeps.fd]
    exact h.some
  · rw [hkeeps.fd, hkeeps.wdsPort]
    exact h.wdsPort

/-- The muxes are bound on the socket that there is. -/
def Bound (numMuxes : ℤ) (ctx : ViCtx) (s : Sockets) : Prop :=
  0 ≤ ctx.fd → s.bound = true ∨ numMuxes ≤ 0

theorem wp_bindMuxes (left m : ℕ) (ctx : ViCtx) (hs : s.Holds ctx.fd)
    (hleft : 0 < left → 0 < numMuxes) :
    (sockets numMuxes).wp (bindMuxes left m ctx) (fun r s' =>
      KeepsBearer ctx r.2 ∧ s'.Holds ctx.fd ∧
        (r.1 = 0 → s.bound = true ∨ 0 < left → s'.bound = true)) s := by
  induction left generalizing m ctx s with
  | zero =>
    refine ⟨KeepsBearer.refl ctx, hs, fun _ hbound => ?_⟩
    exact hbound.resolve_right (Nat.lt_irrefl 0)
  | succ left ih =>
    have hmux : 0 < numMuxes := hleft (Nat.succ_pos left)
    apply wp_bearerTxn hs rfl (Or.inl ⟨rfl, hmux⟩)
    intro resp s' hs' hbound
    have hbound' : s'.bound = true := hbound (Or.inr rfl)
    cases resp with
    | none => exact ⟨⟨rfl, rfl, rfl⟩, hs', fun _ _ => hbound'⟩
    | some resp =>
      dsimp only
      split
      · exact ⟨⟨rfl, rfl, rfl⟩, hs', fun _ _ => hbound'⟩
      · apply wp_mono (ih (m+1) { ctx with txid := ctx.txid + 1 } hs' fun _ => hmux)
        rintro r s'' ⟨hkeeps, hs'', hdone⟩
        exact ⟨⟨hkeeps.fd, hkeeps.wdsPort, hkeeps.numMuxes⟩, hs'',
          fun hrc _ => hdone hrc (Or.inl hbound')⟩

/-- What a stage leaves behind: the account of a stage boundary, with the muxes bound if
it succeeds. -/
def StageOk (numMuxes : ℤ) (r : ℕ × ViCtx) (s : Sockets) : Prop :=
  Between numMuxes r.2 s ∧ (r.1 = 0 → Bound numMuxes r.2 s)

/-- Before this stage there is no socket at all. -/
theorem wp_stageBindMux {ctx : ViCtx} (hs : Between numMuxes ctx s) (hfd : ctx.fd < 0) :
    (sockets numMuxes).wp (stageBindMux ctx) (StageOk numMuxes) s := by
  have hnone : ctx.wdsPort = 0 := by
    by_contra hport
    exact absurd (hs.wdsPort hport) (not_le.mpr hfd)
  have hvacuous : Bound numMuxes ctx s := fun h => absurd h (not_le.mpr hfd)
  unfold stageBindMux
  split
  · exact ⟨hs, fun _ => hvacuous⟩
  apply wp_open hs.sound ⟨hs, fun _ => hvacuous⟩
  intro fd hpos hnew
  have hopen := hs.sound.opened fd
  apply wp_lookup hopen List.mem_cons_self
  intro port
  split
  · rename_i hport
    apply wp_close hs.sound hnew
    have hkeeps : KeepsBearer ctx { ctx with wdsPort := port } := ⟨rfl, hport.trans hnone.symm, rfl⟩
    exact ⟨hs.of_keeps hkeeps, fun _ => hvacuous⟩
  apply wp_record hopen
  intro _
  apply wp_bind.mpr
  have hholds : (s.opened fd).Holds fd := by
    rw [hs.none hfd]
    exact ⟨rfl, Or.inl rfl, rfl⟩
  have hleft : 0 < ctx.numMuxes.toNat → 0 < numMuxes := by
    rw [hs.numMuxes]
    omega
  apply wp_mono (wp_bindMuxes ctx.numMuxes.toNat 1
    { ctx with wdsPort := port, fd := fd, txid := 1 } hholds hleft)
  rintro ⟨rc, ctx'⟩ s' ⟨hkeeps, hs', hbound⟩
  have hfd' : ctx'.fd = fd := hkeeps.fd
  have hbetween : Between numMuxes ctx' s' := by
    refine ⟨hkeeps.numMuxes.trans hs.numMuxes, ?_, ?_, ?_⟩
    · rw [hfd']
      exact fun hneg => absurd hpos (not_le.mpr hneg)
    · rw [hfd']
      exact fun _ => hs'
    · rw [hfd']
      exact fun _ => hpos
  dsimp only
  split
  · rename_i hrc
    exact ⟨hbetween, fun hzero => absurd hzero hrc⟩
  · rename_i hrc
    apply wp_record hs'.sound
    intro _
    refine ⟨hbetween, fun _ _ => ?_⟩
    -- no request at all is sent for a number of muxes that is not positive
    by_cases hmuxes : numMuxes ≤ 0
    · exact Or.inr hmuxes
    · left
      apply hbound (not_not.mp hrc)
      right
      rw [hs.numMuxes]
      omega

theorem wp_recordU32 {resp : List UInt8} {type : UInt8} {key : StateFile}
    {value : UInt32 → StateValue} {f : Unit → Vi α} (hs : s.Sound)
    (h : (sockets numMuxes).wp (f ()) Q s) :
    (sockets numMuxes).wp (recordU32 resp type key value >>= f) Q s := by
  apply wp_bind.mpr
  unfold recordU32
  split
  · apply wp_record hs
    exact fun _ => h
  · exact h

theorem wp_issueGetSettings {ctx : ViCtx} (hfd : ctx.fd = fd) (hs : s.Holds fd)
    (hbound : s.bound = true ∨ numMuxes ≤ 0) :
    (sockets numMuxes).wp (issueGetSettings ctx) (fun r s' =>
      KeepsBearer ctx r.2 ∧ s'.Holds fd ∧ (s'.bound = true ∨ numMuxes ≤ 0)) s := by
  subst hfd
  apply wp_boundTxn hs rfl rfl hbound
  intro resp s' hs' hbound'
  cases resp with
  | none => exact ⟨⟨rfl, rfl, rfl⟩, hs', hbound'⟩
  | some resp =>
    apply wp_recordU32 hs'.sound
    apply wp_recordU32 hs'.sound
    apply wp_recordU32 hs'.sound
    apply wp_recordU32 hs'.sound
    exact ⟨⟨rfl, rfl, rfl⟩, hs', hbound'⟩

theorem wp_issueStartNetwork {ctx : ViCtx} (hs : s.Holds ctx.fd)
    (hbound : s.bound = true ∨ numMuxes ≤ 0) :
    (sockets numMuxes).wp (issueStartNetwork ctx) (fun r s' =>
      KeepsBearer ctx r.2 ∧ s'.Holds ctx.fd ∧ (s'.bound = true ∨ numMuxes ≤ 0)) s := by
  apply wp_boundTxn hs rfl rfl hbound
  intro resp s' hs' hbound'
  cases resp with
  | none => exact ⟨⟨rfl, rfl, rfl⟩, hs', hbound'⟩
  | some resp =>
    dsimp only
    split
    · apply wp_record hs'.sound
      intro _
      exact ⟨⟨rfl, rfl, rfl⟩, hs', hbound'⟩
    · apply wp_recordU32 hs'.sound
      apply wp_record hs'.sound
      intro _
      apply wp_bind.mpr
      refine wp_mono (wp_issueGetSettings ?_ hs' hbound') ?_
      · rfl
      rintro r s'' ⟨hkeeps, hs'', hbound''⟩
      exact ⟨⟨hkeeps.fd, hkeeps.wdsPort, hkeeps.numMuxes⟩, hs'', hbound''⟩

theorem wp_stageWdsStart {ctx : ViCtx} (hs : Between numMuxes ctx s)
    (hbound : Bound numMuxes ctx s) :
    (sockets numMuxes).wp (stageWdsStart ctx) (StageOk numMuxes) s := by
  -- the stage ends with the socket of its context, whatever it has sent
  have hstage {ctx' : ViCtx} (hfd : 0 ≤ ctx.fd) (hkeeps : KeepsBearer ctx ctx') {s' : Sockets}
      (hs' : s'.Holds ctx.fd) (hbound' : s'.bound = true ∨ numMuxes ≤ 0) {rc : ℕ} :
      (sockets numMuxes).wp (pure (rc, ctx')) (StageOk numMuxes) s' := by
    refine ⟨⟨hkeeps.numMuxes.trans hs.numMuxes, ?_, ?_, ?_⟩, fun _ _ => hbound'⟩
    · rw [hkeeps.fd]
      exact fun hneg => absurd hfd (not_le.mpr hneg)
    · rw [hkeeps.fd]
      exact fun _ => hs'
    · rw [hkeeps.fd]
      exact fun _ => hfd
  have hstart {ctx' : ViCtx} (hfd : 0 ≤ ctx.fd) (hkeeps : KeepsBearer ctx ctx') {s' : Sockets}
      (hs' : s'.Holds ctx.fd) (hbound' : s'.bound = true ∨ numMuxes ≤ 0) :
      (sockets numMuxes).wp (issueStartNetwork ctx') (StageOk numMuxes) s' := by
    rw [← hkeeps.fd] at hs'
    apply wp_mono (wp_issueStartNetwork hs' hbound')
    rintro r s'' ⟨hkeeps', hs'', hbound''⟩
    rw [hkeeps.fd] at hs''
    exact hstage hfd ⟨hkeeps'.fd.trans hkeeps.fd, hkeeps'.wdsPort.trans hkeeps.wdsPort,
      hkeeps'.numMuxes.trans hkeeps.numMuxes⟩ hs'' hbound''
  unfold stageWdsStart
  split
  · exact ⟨hs, fun _ => hbound⟩
  split
  · exact ⟨hs, fun hrc => absurd hrc Nat.one_ne_zero⟩
  rename_i hport
  have hfd := hs.wdsPort hport
  have hholds := hs.some hfd
  split
  · exact hstart hfd (KeepsBearer.refl ctx) hholds (hbound hfd)
  apply wp_boundTxn hholds rfl rfl (hbound hfd)
  intro af s' hs' hbound'
  split
  · refine hstage hfd ?_ hs' hbound'
    exact ⟨rfl, rfl, rfl⟩
  apply wp_boundTxn hs' rfl rfl hbound'
  intro family s'' hs'' hbound''
  split
  · refine hstage hfd ?_ hs'' hbound''
    exact ⟨rfl, rfl, rfl⟩
  · refine hstart hfd ?_ hs'' hbound''
    exact ⟨rfl, rfl, rfl⟩

theorem Call.offSocket_of_postTune {c : Call} (hc : StageName.postTune.Calls c) :
    c.offSocket = true := by
  cases c with
  | qrtrOpen => cases hc
  | qrtrLookup => cases hc
  | close => cases hc
  | qrtrTxn => cases hc
  | gStop => cases hc
  | pause => cases hc
  | writeFile => rfl
  | system => rfl
  | tryWrite => rfl
  | lteRounds => rfl

theorem wp_stagePostTune {ctx : ViCtx} (hs : Between numMuxes ctx s)
    (hbound : Bound numMuxes ctx s) :
    (sockets numMuxes).wp (stagePostTune ctx) (StageOk numMuxes) s := by
  have honly : Only ((sockets numMuxes).Silent Sockets.Sound) (fun r => r = (0, ctx))
      (stagePostTune ctx) :=
    (only_postTune ctx).mono fun c hc =>
      Call.silent_of_offSocket (Call.offSocket_of_postTune hc)
  apply honly.wp hs.sound
  rintro _ rfl
  exact ⟨hs, fun _ => hbound⟩

theorem Call.silent_of_ofMain {c : Call} (hc : c.ofMain = true) :
    (sockets numMuxes).Silent Sockets.Sound c := by
  apply Call.silent_of_offSocket
  cases c with
  | writeFile => rfl
  | gStop => rfl
  | pause => rfl
  | qrtrOpen => cases hc
  | qrtrLookup => cases hc
  | qrtrTxn => cases hc
  | close => cases hc
  | system => cases hc
  | tryWrite => cases hc
  | lteRounds => cases hc

/-- One round of the stage loop. -/
theorem wp_stage {name : StageName} {fn : ViCtx → Vi (ℕ × ViCtx)}
    {rest : List (StageName × (ViCtx → Vi (ℕ × ViCtx)))} {ctx : ViCtx} {J : ViCtx → Sockets → Prop}
    (hs : Between numMuxes ctx s)
    (hfn : (sockets numMuxes).wp (fn ctx) (fun r s' =>
      Between numMuxes r.2 s' ∧ (r.1 = 0 → J r.2 s')) s)
    (hrest : ∀ ctx' s', Between numMuxes ctx' s' → J ctx' s' → (sockets numMuxes).wp
      (runStages rest ctx') (fun r s'' => s''.Sound ∧ Between numMuxes r.2 s'') s') :
    (sockets numMuxes).wp (runStages ((name, fn) :: rest) ctx)
      (fun r s' => s'.Sound ∧ Between numMuxes r.2 s') s := by
  apply wp_runStages_keep (fun c hc => Call.silent_of_ofMain hc) hs.sound hs
  · exact wp_mono hfn fun r s' hr => ⟨hr.1.sound, hr⟩
  · exact fun ctx' s' _ hE hJ => hrest ctx' s' hE hJ

/-- The bearer's socket is still to be opened. -/
def Unheld (ctx : ViCtx) (_ : Sockets) : Prop := ctx.fd < 0

theorem OneShot.wp_of_unheld {fn : ViCtx → Vi (ℕ × ViCtx)} (h : OneShot fn) {ctx : ViCtx}
    (hs : Between numMuxes ctx s) (hfd : ctx.fd < 0) :
    (sockets numMuxes).wp (fn ctx) (fun r s' =>
      Between numMuxes r.2 s' ∧ (r.1 = 0 → Unheld r.2 s')) s := by
  apply wp_mono (h numMuxes ctx s hs.sound)
  rintro r _ ⟨rfl, hkeeps⟩
  refine ⟨hs.of_keeps hkeeps, fun _ => ?_⟩
  unfold Unheld
  rw [hkeeps.fd]
  exact hfd

/-- All stages: five with sockets of their own, the one that opens the bearer's, and two
more. -/
theorem wp_runStages {ctx : ViCtx} (hs : Between numMuxes ctx s) (hfd : ctx.fd < 0) :
    (sockets numMuxes).wp (runStages stages ctx)
      (fun r s' => s'.Sound ∧ Between numMuxes r.2 s') s := by
  apply wp_stage hs (oneShot_dmsOnline.wp_of_unheld hs hfd)
  intro ctx s hs hfd
  apply wp_stage hs (oneShot_nasRat.wp_of_unheld hs hfd)
  intro ctx s hs hfd
  apply wp_stage hs (oneShot_dpmOpen.wp_of_unheld hs hfd)
  intro ctx s hs hfd
  apply wp_stage hs (oneShot_wdaSet.wp_of_unheld hs hfd)
  intro ctx s hs hfd
  apply wp_stage hs (oneShot_dsd.wp_of_unheld hs hfd)
  intro ctx s hs hfd
  apply wp_stage hs (wp_stageBindMux hs hfd)
  intro ctx s hs hbound
  apply wp_stage hs (wp_stageWdsStart hs hbound)
  intro ctx s hs hbound
  apply wp_stage hs (wp_stagePostTune hs hbound)
  exact fun _ _ hs _ => ⟨hs.sound, hs⟩

/-- The socket that is left is closed, and then there is none. -/
theorem wp_lastClose {ctx : ViCtx} (hs : Between numMuxes ctx s) (rc : ℕ) :
    (sockets numMuxes).wp (lastClose ctx rc) (fun _ s' => s'.isOpen = []) s := by
  unfold lastClose
  split
  · rename_i hfd
    have hholds := hs.some hfd
    apply wp_ask_bind (M := sockets numMuxes) (c := Call.close ctx.fd)
    · refine ⟨hholds.released, ?_⟩
      rw [hholds.isOpen]
      exact List.mem_cons_self
    · intro _ _
      show s.isOpen.erase ctx.fd = []
      rw [hholds.isOpen]
      exact List.erase_cons_head ctx.fd []
  · rename_i hfd
    show s.isOpen = []
    rw [hs.none (not_le.mp hfd)]

theorem wp_mainWith_fresh {ctx : ViCtx} (hfd : ctx.fd < 0) (hport : ctx.wdsPort = 0) :
    (sockets ctx.numMuxes).wp (mainWith ctx) (fun _ s' => s'.isOpen = []) {} := by
  have hs : Between ctx.numMuxes ctx {} := by
    refine ⟨rfl, fun _ => rfl, ?_, ?_⟩
    · exact fun hpos => absurd hpos (not_le.mpr hfd)
    · exact fun hne => absurd hport hne
  apply wp_mainWith (fun c hc => Call.silent_of_ofMain hc) hs.sound
  apply wp_mono (wp_runStages hs hfd)
  intro r s' hr
  apply wp_finish (fun c hc => Call.silent_of_ofMain hc) (Call.silent_of_offSocket rfl) hr.1
  exact wp_lastClose hr.2 r.1

end Bearer

/-- The options only set fields that have nothing to do with the sockets yet. -/
theorem parseOpts_keeps {ctx ctx' : ViCtx} {opts : List Opt} (h : parseOpts ctx opts = .ok ctx') :
    ctx'.fd = ctx.fd ∧ ctx'.wdsPort = ctx.wdsPort := by
  have hkeep : ∀ (ctx : ViCtx) (opt : Opt) (ctx' : ViCtx), parseOpts ctx [opt] = .ok ctx' →
      (ctx'.fd, ctx'.wdsPort) = (ctx.fd, ctx.wdsPort) := by
    intro ctx opt ctx' hopt
    cases opt with
    | help => cases hopt
    | unknown => cases hopt
    | _ =>
      cases hopt
      rfl
  have hfold := parseOpts_fold (f := fun ctx : ViCtx => (ctx.fd, ctx.wdsPort))
    (g := fun b _ => b) hkeep h
  rw [List.foldl_fixed] at hfold
  exact Prod.mk.inj hfold

/-- The number of muxes that a command line asks for. -/
def muxesOf (opts : List Opt) : ℤ :=
  match parseOpts { apn := defaultApn } opts with
  | .ok ctx => ctx.numMuxes
  | .error _ => 0

theorem wp_main (opts : List Opt) :
    (sockets (muxesOf opts)).wp (main opts) (fun _ s' => s'.isOpen = []) {} := by
  unfold main muxesOf
  cases hparse : parseOpts { apn := defaultApn } opts with
  | error rc => exact rfl
  | ok ctx =>
    obtain ⟨hfd, hport⟩ := parseOpts_keeps hparse
    have hneg : ctx.fd < 0 := by
      rw [hfd]
      decide
    exact wp_mainWith_fresh hneg hport

end VendorInit
end X00TDCellular
