import X00TDCellular.IpaRmSpec
import X00TDCellular.Tally

/-! What the counters of the resource manager stand for: who counts on which consumer. -/

namespace X00TDCellular
open Function Tally

/-- In the words of `usage_count`, a producer in GRANTED / REQUESTED state. -/
def RmProdRes.active (q : RmProdRes) : Bool :=
  q.state = .granted || q.state = .requestInProgress

namespace RmDepGraph

def prodBw (g : RmDepGraph) (p : RmProd) : BitVec 32 := (g.prods p).elim 0 (·.maxBw)

def consBw (g : RmDepGraph) (c : RmCons) : BitVec 32 := (g.conss c).elim 0 (·.maxBw)

/-- The producer is active and depends on the consumer. -/
def uses (g : RmDepGraph) (p : RmProd) (c : RmCons) : Bool :=
  (g.prods p).any fun q => q.active && (q.peers c).isSome

def asking (g : RmDepGraph) (c : RmCons) : Bool :=
  (g.conss c).any (·.state = .requestInProgress)

/-- The counters, when `U` says who counts on whom. -/
structure Books (g : RmDepGraph) (U : RmProd → RmCons → Bool) : Prop where
  peers : ∀ p c, (g.prods p).bind (·.peers c) = (g.conss c).bind (·.peers p)
  usage : ∀ c k, g.conss c = some k → k.usageCount = count fun p => U p c
  needed : ∀ c k, g.conss c = some k → k.neededBw = tally g.prodBw fun p => U p c
  idle : ∀ c k, g.conss c = some k → k.state = .released ∨ k.state = .releaseInProgress →
    k.usageCount = 0
  supply : ∀ p q, g.prods p = some q →
    q.neededBw = tally g.consBw fun c => (q.peers c).isSome

/-- What holds of a producer between two operations. -/
structure ProdOk (g : RmDepGraph) (q : RmProdRes) : Prop where
  settled : q.state ≠ .releaseInProgress
  granted : q.state = .granted → q.pendingRequest = 0
  waiting : q.state = .requestInProgress → 0 < q.pendingRequest
  pending : q.active = true →
    q.pendingRequest = count fun c => (q.peers c).isSome && g.asking c

structure Inv (g : RmDepGraph) : Prop where
  books : g.Books g.uses
  prods : ∀ p q, g.prods p = some q → g.ProdOk q

/-- The invariant while one producer's own wait may be out of step. -/
structure InvBut (g : RmDepGraph) (p : RmProd) : Prop where
  books : g.Books g.uses
  prods : ∀ p' q, p' ≠ p → g.prods p' = some q → g.ProdOk q
  settled : ∀ q, g.prods p = some q → q.state ≠ .releaseInProgress

theorem Inv.but {g : RmDepGraph} (h : g.Inv) (p : RmProd) : g.InvBut p :=
  ⟨h.books, fun p' q _ => h.prods p' q, fun q hq => (h.prods p q hq).settled⟩

theorem InvBut.inv {g : RmDepGraph} {p : RmProd} (h : g.InvBut p)
    (hp : ∀ q, g.prods p = some q → g.ProdOk q) : g.Inv := by
  refine ⟨h.books, fun p' q hq => ?_⟩
  by_cases hp' : p' = p
  · exact hp q (hp' ▸ hq)
  · exact h.prods p' q hp' hq

variable {g : RmDepGraph} {U : RmProd → RmCons → Bool} {p : RmProd} {c : RmCons}

theorem uses_eq {q : RmProdRes} (hq : g.prods p = some q) (c : RmCons) :
    g.uses p c = (q.active && (q.peers c).isSome) := by
  simp [uses, hq]

theorem uses_eq_false (hq : g.prods p = none) (c : RmCons) : g.uses p c = false := by
  simp [uses, hq]

/-- A consumer that somebody counts on is granted or on the way there. -/
theorem Books.busy (h : g.Books U) {k : RmConsRes} (hk : g.conss c = some k)
    (hU : U p c = true) :
    0 < k.usageCount ∧ (k.state = .granted ∨ k.state = .requestInProgress) := by
  have hpos : 0 < k.usageCount := by
    rw [h.usage c k hk]
    exact count_pos_iff.mpr ⟨p, hU⟩
  refine ⟨hpos, ?_⟩
  have hidle := h.idle c k hk
  cases hstate : k.state
  case granted => exact .inl rfl
  case requestInProgress => exact .inr rfl
  all_goals exact absurd (hidle (by simp [hstate])) (by omega)

theorem Books.exists_cons (h : g.Books U) {q : RmProdRes} (hq : g.prods p = some q)
    (hpeer : (q.peers c).isSome = true) :
    ∃ k, g.conss c = some k ∧ k.peers p = q.peers c := by
  have hpeers := h.peers p c
  cases hk : g.conss c with
  | none =>
    have hnone : q.peers c = none := by simpa [hq, hk] using hpeers
    simp [hnone] at hpeer
  | some k => exact ⟨k, rfl, by simpa [hq, hk] using hpeers.symm⟩

theorem Books.exists_prod (h : g.Books U) {k : RmConsRes} (hk : g.conss c = some k)
    (hpeer : (k.peers p).isSome = true) :
    ∃ q, g.prods p = some q ∧ q.peers c = k.peers p := by
  have hpeers := h.peers p c
  cases hq : g.prods p with
  | none =>
    have hnone : k.peers p = none := by simpa [hq, hk] using hpeers.symm
    simp [hnone] at hpeer
  | some q => exact ⟨q, rfl, by simpa [hq, hk] using hpeers⟩

/-- One record of a consumer is replaced. -/
theorem Books.setCons {U' : RmProd → RmCons → Bool} {k : RmConsRes} (h : g.Books U)
    (hk : g.conss c = some k) (k' : RmConsRes) (hpeers : k'.peers = k.peers)
    (hmax : k'.maxBw = k.maxBw)
    (hcol : ∀ p c', c' ≠ c → U' p c' = U p c')
    (husage : k'.usageCount = count fun p => U' p c)
    (hneeded : k'.neededBw = tally g.prodBw fun p => U' p c)
    (hidle : k'.state = .released ∨ k'.state = .releaseInProgress → k'.usageCount = 0) :
    (g.setCons c k').Books U' := by
  have hconsBw : (g.setCons c k').consBw = g.consBw := by
    funext c'
    by_cases hc : c' = c
    · subst hc
      simp [consBw, hk, hmax]
    · simp [consBw, hc]
  have hlookup : ∀ c' k'', (g.setCons c k').conss c' = some k'' →
      c' = c ∧ k'' = k' ∨ c' ≠ c ∧ g.conss c' = some k'' := by
    intro c' k'' h'
    by_cases hc : c' = c
    · subst hc
      exact .inl ⟨rfl, by simpa using h'.symm⟩
    · exact .inr ⟨hc, by simpa [hc] using h'⟩
  constructor
  case peers =>
    intro p c'
    by_cases hc : c' = c
    · subst hc
      simpa [hk, hpeers] using h.peers p c'
    · simpa [hc] using h.peers p c'
  case usage =>
    intro c' k'' h'
    obtain ⟨rfl, rfl⟩ | ⟨hc, hk''⟩ := hlookup c' k'' h'
    · exact husage
    · simp only [h.usage c' k'' hk'', hcol _ c' hc]
  case needed =>
    intro c' k'' h'
    obtain ⟨rfl, rfl⟩ | ⟨hc, hk''⟩ := hlookup c' k'' h'
    · exact hneeded
    · simp only [h.needed c' k'' hk'', hcol _ c' hc]
      rfl
  case idle =>
    intro c' k'' h'
    obtain ⟨rfl, rfl⟩ | ⟨hc, hk''⟩ := hlookup c' k'' h'
    · exact hidle
    · exact h.idle c' k'' hk''
  case supply =>
    intro p q hq
    rw [hconsBw]
    exact h.supply p q hq

/-- One record of a producer is replaced, its dependencies and bandwidths apart. -/
theorem Books.setProd {q : RmProdRes} (h : g.Books U) (hq : g.prods p = some q)
    (q' : RmProdRes) (hpeers : q'.peers = q.peers) (hmax : q'.maxBw = q.maxBw)
    (hneeded : q'.neededBw = q.neededBw) : (g.setProd p q').Books U := by
  have hprodBw : (g.setProd p q').prodBw = g.prodBw := by
    funext p'
    by_cases hp : p' = p
    · subst hp
      simp [prodBw, hq, hmax]
    · simp [prodBw, hp]
  constructor
  case peers =>
    intro p' c
    by_cases hp : p' = p
    · subst hp
      simpa [RmDepGraph.setProd_conss, hq, hpeers] using h.peers p' c
    · simpa [RmDepGraph.setProd_conss, hp] using h.peers p' c
  case usage => exact h.usage
  case needed =>
    intro c k hk
    rw [hprodBw]
    exact h.needed c k hk
  case idle => exact h.idle
  case supply =>
    intro p' q'' hq''
    by_cases hp : p' = p
    · subst hp
      obtain rfl : q' = q'' := by simpa using hq''
      rw [hneeded, hpeers]
      exact h.supply p' q hq
    · exact h.supply p' q'' (by simpa [hp] using hq'')

/-- Every record of a producer is replaced, dependencies and bandwidths apart. -/
theorem Books.setProds (h : g.Books U) (prods : RmProd → Option RmProdRes)
    (hsame : ∀ p, (prods p).map (fun q => (q.peers, q.maxBw, q.neededBw)) =
      (g.prods p).map fun q => (q.peers, q.maxBw, q.neededBw)) :
    RmDepGraph.Books { g with prods := prods } U := by
  have hlookup : ∀ p q, prods p = some q → ∃ q', g.prods p = some q' ∧
      q'.peers = q.peers ∧ q'.maxBw = q.maxBw ∧ q'.neededBw = q.neededBw := by
    intro p q hq
    have h' := hsame p
    rw [hq, Option.map_some] at h'
    obtain ⟨q', hq', heq⟩ := Option.map_eq_some_iff.mp h'.symm
    simp only [Prod.mk.injEq] at heq
    exact ⟨q', hq', heq⟩
  have hnone : ∀ p, prods p = none → g.prods p = none := by
    intro p hp
    have h' := hsame p
    rw [hp, Option.map_none] at h'
    exact Option.map_eq_none_iff.mp h'.symm
  have hprodBw : RmDepGraph.prodBw { g with prods := prods } = g.prodBw := by
    funext p
    cases hq : prods p with
    | none => simp [prodBw, hq, hnone p hq]
    | some q =>
      obtain ⟨q', hq', -, hmax, -⟩ := hlookup p q hq
      simp [prodBw, hq, hq', hmax]
  constructor
  case peers =>
    intro p c
    rw [← h.peers p c]
    cases hq : prods p with
    | none => simp [hnone p hq, hq]
    | some q =>
      obtain ⟨q', hq', hpeers, -, -⟩ := hlookup p q hq
      simp [hq, hq', hpeers]
  case usage => exact h.usage
  case needed =>
    intro c k hk
    rw [hprodBw]
    exact h.needed c k hk
  case idle => exact h.idle
  case supply =>
    intro p q hq
    obtain ⟨q', hq', hpeers, -, hneeded⟩ := hlookup p q hq
    rw [← hneeded, ← hpeers]
    exact h.supply p q' hq'

theorem asking_setCons (k : RmConsRes) (c' : RmCons) :
    (g.setCons c k).asking c' =
      if c' = c then decide (k.state = .requestInProgress) else g.asking c' := by
  by_cases hc : c' = c
  · subst hc
    simp [asking]
  · simp [asking, hc]

@[simp] theorem asking_setProd (q : RmProdRes) : (g.setProd p q).asking = g.asking := rfl

theorem asking_eq {k : RmConsRes} (hk : g.conss c = some k) :
    g.asking c = decide (k.state = .requestInProgress) := by
  simp [asking, hk]

theorem ProdOk.frame {g' : RmDepGraph} {q : RmProdRes} (h : g.ProdOk q)
    (hkeep : q.active = true → ∀ c, (q.peers c).isSome = true → g'.asking c = g.asking c) :
    g'.ProdOk q := by
  refine ⟨h.settled, h.granted, h.waiting, fun hactive => ?_⟩
  rw [h.pending hactive]
  congr 1
  funext c
  cases hpeer : (q.peers c).isSome
  · rfl
  · rw [hkeep hactive c hpeer]

end RmDepGraph

/-- The environment's answer is one the manager can go on from. -/
def RmReply.Answered (reply : RmReply) : Prop :=
  reply.driver = 0 ∨ reply.driver = eInProgress

instance (reply : RmReply) : Decidable reply.Answered := inferInstanceAs (Decidable (_ ∨ _))

section Consumer

variable {U : RmProd → RmCons → Bool} {p : RmProd} {c : RmCons} {q : RmProdRes}
  {k k' : RmConsRes} {reply : RmReply}

/-- A producer that does not count on the consumer yet requests it. -/
theorem RmDepGraph.Books.requested {g : RmDepGraph} {res : ℤ} (h : g.Books U)
    (hU : U p c = false) (hq : g.prods p = some q) (hk : g.conss c = some k)
    (hreply : reply.Answered) (hreq : k.Requested q.maxBw true false reply k' res) :
    (g.setCons c k').Books (setPair U p c true) ∧
      (res = eInProgress ∧ k'.state = .requestInProgress ∨ res = 0 ∧ k'.state = .granted) ∧
      ((∃ p', U p' c = true) → k'.state = k.state) := by
  have hprodBw : g.prodBw p = q.maxBw := by simp [RmDepGraph.prodBw, hq]
  -- the count and the bandwidth go up in the same way however the request ends
  have hbooks : ∀ state, state = .granted ∨ state = .requestInProgress →
      (g.setCons c (k.opened q.maxBw true state)).Books (setPair U p c true) := by
    intro state hstate
    refine h.setCons hk (k.opened q.maxBw true state) rfl rfl ?_ ?_ ?_ ?_
    · intro p' c' hc
      exact congrFun (setPair_column_of_ne U p c true hc) p'
    · rw [setPair_column, count, tally_join (U := fun p' => U p' c) _ hU]
      exact congrArg (· + 1) (h.usage c k hk)
    · rw [setPair_column, tally_join (U := fun p' => U p' c) _ hU, hprodBw]
      exact congrArg (· + q.maxBw) (h.needed c k hk)
    · intro hidle
      obtain rfl | rfl := hstate <;> simp [RmConsRes.opened] at hidle
  have hbusy : (∃ p', U p' c = true) → k.state = .granted ∨ k.state = .requestInProgress := by
    rintro ⟨p', hp'⟩
    exact (h.busy hk hp').2
  cases hreq
  case failed h0 hprog _ => exact absurd hreply (by simp [RmReply.Answered, h0, hprog])
  case asked hstate =>
    refine ⟨hbooks _ (.inr rfl), .inl ⟨rfl, rfl⟩, fun hp' => ?_⟩
    obtain h' | h' := hbusy hp' <;> simp [h'] at hstate
  case opened hstate =>
    refine ⟨hbooks _ (.inl rfl), .inr ⟨rfl, rfl⟩, fun hp' => ?_⟩
    obtain h' | h' := hbusy hp' <;> simp [h'] at hstate
  case joined hstate => exact ⟨hbooks _ (.inl rfl), .inr ⟨rfl, rfl⟩, fun _ => hstate.symm⟩
  case woken hwake => exact absurd hwake (by decide)
  case waiting hstate => exact ⟨hbooks _ (.inr rfl), .inl ⟨rfl, rfl⟩, fun _ => hstate.symm⟩

/-- A producer that counts on the consumer lets it go. -/
theorem RmDepGraph.Books.closed {g : RmDepGraph} {state : RmState} (h : g.Books U)
    (hU : U p c = true) (hq : g.prods p = some q) (hk : g.conss c = some k)
    (hstate : state = k.state ∨ k.lessUsage true = 0) :
    (g.setCons c (k.closed q.maxBw true state)).Books (setPair U p c false) ∧
      ((∃ p', setPair U p c false p' c = true) → k.lessUsage true ≠ 0) := by
  have hprodBw : g.prodBw p = q.maxBw := by simp [RmDepGraph.prodBw, hq]
  obtain ⟨hpos, hbusy⟩ := h.busy hk hU
  have hless : k.lessUsage true = k.usageCount-1 := by simp [RmConsRes.lessUsage, hpos]
  have hne : k.state ≠ .released := by obtain h' | h' := hbusy <;> simp [h']
  have husage : (k.closed q.maxBw true state).usageCount = k.usageCount-1 := by
    simp [RmConsRes.closed, hne, hless]
  have hcount : k.usageCount-1 = count fun p' => setPair U p c false p' c := by
    rw [setPair_column, count, tally_leave (U := fun p' => U p' c) _ hU]
    exact congrArg (· - 1) (h.usage c k hk)
  constructor
  · refine h.setCons hk (k.closed q.maxBw true state) rfl rfl ?_ ?_ ?_ ?_
    · intro p' c' hc
      exact congrFun (setPair_column_of_ne U p c false hc) p'
    · rw [husage, hcount]
    · rw [setPair_column, tally_leave (U := fun p' => U p' c) _ hU, hprodBw]
      exact congrArg (· - q.maxBw) (h.needed c k hk)
    · intro hidle
      rw [husage, ← hless]
      obtain rfl | hzero := hstate
      · obtain h' | h' := hbusy <;> simp [RmConsRes.closed, h'] at hidle
      · exact hzero
  · intro hsome
    have := count_pos_iff.mpr hsome
    omega

variable {s : Rm}

theorem books_consumerRequest (h : s.Books U) (hU : U p c = false) (hq : s.prods p = some q)
    (hk : s.conss c = some k) (hreply : reply.Answered) :
    let out := ipaRmResourceConsumerRequest s c q.maxBw true false reply
    out.1.Books (setPair U p c true) ∧ out.1.prods = s.prods ∧
      (out.2 = eInProgress ∧ out.1.asking c = true ∨ out.2 = 0 ∧ out.1.asking c = false) ∧
      ∀ c', (c' = c → ∃ p', U p' c = true) → out.1.asking c' = s.asking c' := by
  intro out
  obtain ⟨hgraph, hres⟩ := consumerRequest_graph hk q.maxBw true false reply
  obtain ⟨hbooks, hend, hkeep⟩ :=
    h.requested hU hq hk hreply (k.requested q.maxBw true false reply)
  rw [← hgraph] at hbooks
  rw [← hres] at hend
  have hasking := RmDepGraph.asking_setCons (g := s.toRmDepGraph) (c := c)
    (k.request q.maxBw true false reply).1
  rw [← hgraph] at hasking
  refine ⟨hbooks, (congrArg RmDepGraph.prods hgraph).trans rfl, ?_, ?_⟩
  · rw [hasking, if_pos rfl]
    obtain ⟨h, hstate⟩ | ⟨h, hstate⟩ := hend
    · exact .inl ⟨h, by simp [hstate]⟩
    · exact .inr ⟨h, by simp [hstate]⟩
  · intro c' hc'
    rw [hasking]
    split_ifs with hc
    · rw [hkeep (hc' hc), hc, RmDepGraph.asking_eq hk]
    · rfl

theorem books_consumerRelease (h : s.Books U) (hU : U p c = true) (hq : s.prods p = some q)
    (hk : s.conss c = some k) (reply : RmReply) :
    let out := ipaRmResourceConsumerRelease s c q.maxBw true reply
    out.1.Books (setPair U p c false) ∧ out.1.prods = s.prods ∧
      ∀ c', (c' = c → ∃ p', setPair U p c false p' c = true) →
        out.1.asking c' = s.asking c' := by
  intro out
  obtain ⟨state, hgraph, hstate⟩ := consumerRelease_graph hk q.maxBw true reply
  obtain ⟨hbooks, hkeep⟩ := h.closed hU hq hk (hstate.imp_right And.left)
  rw [← hgraph] at hbooks
  have hasking := RmDepGraph.asking_setCons (g := s.toRmDepGraph) (c := c)
    (k.closed q.maxBw true state)
  rw [← hgraph] at hasking
  refine ⟨hbooks, (congrArg RmDepGraph.prods hgraph).trans rfl, ?_⟩
  intro c' hc'
  rw [hasking]
  split_ifs with hc
  · have hstate' : state = k.state := hstate.resolve_right fun h' => hkeep (hc' hc) h'.1
    rw [hc, RmDepGraph.asking_eq hk, hstate']
    rfl
  · rfl

end Consumer

end X00TDCellular
