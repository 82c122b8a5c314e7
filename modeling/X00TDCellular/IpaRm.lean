import Mathlib.Data.BitVec
import Mathlib.Data.Fintype.Defs
import X00TDCellular.FltTable

/-! The resource manager: `ipa_rm.c`, `ipa_rm_resource.c`, `ipa_rm_peers_list.c` and
`ipa_rm_dependency_graph.c`. What the drivers of the consumers return, and whether the clocks
and pipes can be switched without blocking, is the environment's. -/

namespace X00TDCellular
open Function

def eInProgress : ℤ := -115
def eExist : ℤ := -17

inductive RmState
  | released
  | requestInProgress
  | granted
  | releaseInProgress
  deriving DecidableEq, Repr

inductive RmEvent
  | granted
  | released
  deriving DecidableEq, Repr

/-- The producers of `enum ipa_rm_resource_name`, which are its even values. -/
inductive RmProd
  | q6Prod
  | usbProd
  | usbDplDummyProd
  | hsicProd
  | stdEcmProd
  | rndisProd
  | wwan0Prod
  | wlanProd
  | oduAdaptProd
  | mhiProd
  | ethernetProd
  deriving DecidableEq, Repr

/-- The consumers, at odd values; 11 and 13 name nothing. -/
inductive RmCons
  | q6Cons
  | usbCons
  | usbDplCons
  | hsicCons
  | appsCons
  | wlanCons
  | oduAdaptCons
  | mhiCons
  | ethernetCons
  deriving DecidableEq, Repr

/-- In the order of the peers lists. -/
def RmProd.all : List RmProd :=
  [.q6Prod, .usbProd, .usbDplDummyProd, .hsicProd, .stdEcmProd, .rndisProd, .wwan0Prod,
    .wlanProd, .oduAdaptProd, .mhiProd, .ethernetProd]

def RmCons.all : List RmCons :=
  [.q6Cons, .usbCons, .usbDplCons, .hsicCons, .appsCons, .wlanCons, .oduAdaptCons, .mhiCons,
    .ethernetCons]

theorem RmProd.mem_all (p : RmProd) : p ∈ RmProd.all := by cases p <;> decide

theorem RmCons.mem_all (c : RmCons) : c ∈ RmCons.all := by cases c <;> decide

theorem RmProd.nodup_all : RmProd.all.Nodup := by decide

theorem RmCons.nodup_all : RmCons.all.Nodup := by decide

instance : Fintype RmProd := ⟨⟨RmProd.all, RmProd.nodup_all⟩, RmProd.mem_all⟩

instance : Fintype RmCons := ⟨⟨RmCons.all, RmCons.nodup_all⟩, RmCons.mem_all⟩

abbrev RmName := RmProd ⊕ RmCons

def ipaRmResourceMax : ℕ := 22

def ipaRmResorceIsProd (x : ℕ) : Bool := x < ipaRmResourceMax && x % 2 == 0
def ipaRmResorceIsCons (x : ℕ) : Bool := x < ipaRmResourceMax && x % 2 == 1

def ipaRmProdIndex : ℕ → Option RmProd
  | 0 => some .q6Prod
  | 2 => some .usbProd
  | 4 => some .usbDplDummyProd
  | 6 => some .hsicProd
  | 8 => some .stdEcmProd
  | 10 => some .rndisProd
  | 12 => some .wwan0Prod
  | 14 => some .wlanProd
  | 16 => some .oduAdaptProd
  | 18 => some .mhiProd
  | 20 => some .ethernetProd
  | _ => none

def ipaRmConsIndex : ℕ → Option RmCons
  | 1 => some .q6Cons
  | 3 => some .usbCons
  | 5 => some .usbDplCons
  | 7 => some .hsicCons
  | 9 => some .appsCons
  | 15 => some .wlanCons
  | 17 => some .oduAdaptCons
  | 19 => some .mhiCons
  | 21 => some .ethernetCons
  | _ => none

/-- The value that names a consumer. -/
def RmCons.resourceName : RmCons → ℕ
  | .q6Cons => 1
  | .usbCons => 3
  | .usbDplCons => 5
  | .hsicCons => 7
  | .appsCons => 9
  | .wlanCons => 15
  | .oduAdaptCons => 17
  | .mhiCons => 19
  | .ethernetCons => 21

def ipaRmDepGetIndex (name : ℕ) : Option RmName :=
  if ipaRmResorceIsProd name then (ipaRmProdIndex name).map .inl
  else if ipaRmResorceIsCons name then (ipaRmConsIndex name).map .inr
  else none

theorem ipaRmDepGetIndex_resourceName (c : RmCons) :
    ipaRmDepGetIndex c.resourceName = some (.inr c) := by
  cases c <;> decide

structure RmResource where
  floorVoltage : ℕ
  maxBw : BitVec 32 := 0
  neededBw : BitVec 32 := 0
  state : RmState := .released

structure RmListener where
  notifyCb : ℕ
  userData : ℕ
  explicit : Bool
  deriving DecidableEq, Repr

/-- The entries of a peers list are null or carry `userspace_dep`. -/
structure RmProdRes extends RmResource where
  pendingRequest : ℤ := 0
  pendingRelease : ℤ := 0
  peers : RmCons → Option Bool := fun _ => none
  eventListeners : List RmListener := []

structure RmConsRes extends RmResource where
  usageCount : ℤ := 0
  peers : RmProd → Option Bool := fun _ => none

/-- `prof_vote`. -/
structure RmProfVote where
  volt : RmName → ℕ := fun _ => 0
  bwResources : RmName → BitVec 32 := fun _ => 0
  currVolt : ℕ := 0
  currBw : BitVec 32 := 0

/-- What waits on `ipa_rm_wq`. -/
inductive RmWork
  | notifyProd (p : RmProd) (event : RmEvent) (registeredOnly : Bool)
  | resourceCb (name : ℕ) (event : RmEvent)
  | resume (c : RmCons) (prevState : RmState) (neededBw : BitVec 32) (incUsageCount : Bool)
  | suspend (c : RmCons) (prevState : RmState) (neededBw : BitVec 32)
  | notifyIpa (volt : ℕ) (bw : BitVec 32)
  deriving DecidableEq

/-- What the manager has called. -/
inductive RmCall
  | requestResource (c : RmCons) (result : ℤ)
  | releaseResource (c : RmCons) (result : ℤ)
  | notifyCb (p : RmProd) (listener : RmListener) (event : RmEvent)
  | setRequiredPerfProfile (volt : ℕ) (bw : BitVec 32)
  deriving DecidableEq

/-- `resource_table`, of which every resource in a peers list is an entry. -/
structure RmDepGraph where
  prods : RmProd → Option RmProdRes := fun _ => none
  conss : RmCons → Option RmConsRes := fun _ => none

/-- The manager after `ipa_rm_initialize`; `delayed` are the works of
`ipa_rm_request_resource_with_timer` whose second is not over, and the newest of `calls`
comes first. -/
structure Rm extends RmDepGraph where
  vote : RmProfVote := {}
  wq : List RmWork := []
  delayed : List RmCons := []
  calls : List RmCall := []

/-- How the environment meets one request or release of a consumer: the `no_block` calls
succeed, memory for a work item is there, and what the consumer's driver returns. -/
structure RmReply where
  clksNoBlock : Bool := true
  suspendNoBlock : Bool := true
  alloc : Bool := true
  driver : ℤ := 0
  deriving DecidableEq

abbrev RmEnv := RmProd → RmCons → RmReply

/-- The kernel's `min` on `u32`. -/
def u32Min (a b : BitVec 32) : BitVec 32 := if a < b then a else b

namespace RmDepGraph

def setProd (g : RmDepGraph) (p : RmProd) (q : RmProdRes) : RmDepGraph :=
  { g with prods := update g.prods p (some q) }

def setCons (g : RmDepGraph) (c : RmCons) (k : RmConsRes) : RmDepGraph :=
  { g with conss := update g.conss c (some k) }

def modifyProd (g : RmDepGraph) (p : RmProd) (f : RmProdRes → RmProdRes) : RmDepGraph :=
  { g with prods := update g.prods p ((g.prods p).map f) }

def modifyCons (g : RmDepGraph) (c : RmCons) (f : RmConsRes → RmConsRes) : RmDepGraph :=
  { g with conss := update g.conss c ((g.conss c).map f) }

/-- `ipa_rm_dep_graph_get_resource`. -/
def getResource (g : RmDepGraph) : RmName → Option RmResource
  | .inl p => (g.prods p).map (·.toRmResource)
  | .inr c => (g.conss c).map (·.toRmResource)

end RmDepGraph

namespace Rm

def setProd (s : Rm) (p : RmProd) (q : RmProdRes) : Rm :=
  { s with toRmDepGraph := s.toRmDepGraph.setProd p q }

def setCons (s : Rm) (c : RmCons) (k : RmConsRes) : Rm :=
  { s with toRmDepGraph := s.toRmDepGraph.setCons c k }

def modifyProd (s : Rm) (p : RmProd) (f : RmProdRes → RmProdRes) : Rm :=
  { s with toRmDepGraph := s.toRmDepGraph.modifyProd p f }

def modifyCons (s : Rm) (c : RmCons) (f : RmConsRes → RmConsRes) : Rm :=
  { s with toRmDepGraph := s.toRmDepGraph.modifyCons c f }

def push (s : Rm) (w : RmWork) : Rm := { s with wq := s.wq ++ [w] }

def call (s : Rm) (x : RmCall) : Rm := { s with calls := x :: s.calls }

end Rm

/-- The vote once that of one resource has changed. -/
def RmProfVote.change (v : RmProfVote) (r : RmName) (bw : BitVec 32) (volt : ℕ) : RmProfVote :=
  let bws := update v.bwResources r bw
  let volts := update v.volt r volt
  { bwResources := bws
    volt := volts
    currVolt := (RmProd.all.map (fun p => volts (.inl p)) ++
      RmCons.all.map fun c => volts (.inr c)).foldl max 0
    currBw := u32Min (RmProd.all.map fun p => bws (.inl p)).sum
      (RmCons.all.map fun c => bws (.inr c)).sum }

/-- What a resource votes for in its state. -/
def RmResource.share (r : RmResource) : BitVec 32 × ℕ :=
  match r.state with
  | .granted | .requestInProgress => (u32Min r.maxBw r.neededBw, r.floorVoltage)
  | .releaseInProgress | .released => (0, 0)

/-- `ipa_rm_perf_profile_change`. -/
def ipaRmPerfProfileChange (s : Rm) (name : RmName) : Rm :=
  match s.getResource name with
  | none => s
  | some r =>
    let vote := s.vote.change name r.share.1 r.share.2
    let s' := { s with vote := vote }
    if vote.currVolt = s.vote.currVolt ∧ vote.currBw = s.vote.currBw then s'
    else s'.push (.notifyIpa vote.currVolt vote.currBw)

def ipaRmResourceProducerNotifyClients (s : Rm) (p : RmProd) (event : RmEvent)
    (registeredOnly : Bool) : Rm :=
  match s.prods p with
  | none => s
  | some q =>
    q.eventListeners.foldl (fun s l =>
      if registeredOnly && !l.explicit then s else s.call (.notifyCb p l event)) s

def ipaRmResourceProducerHandleCb (s : Rm) (p : RmProd) (event : RmEvent) : Rm :=
  match s.prods p with
  | none => s
  | some q =>
    match q.state, event with
    | .requestInProgress, .granted =>
      if q.pendingRequest > 0 then
        let s := s.setProd p { q with pendingRequest := q.pendingRequest-1 }
        if q.pendingRequest-1 = 0 then
          let s := s.modifyProd p fun q => { q with state := .granted }
          let s := ipaRmPerfProfileChange s (.inl p)
          ipaRmResourceProducerNotifyClients s p .granted false
        else s
      else s
    | .releaseInProgress, .released =>
      if q.pendingRelease > 0 then
        let s := s.setProd p { q with pendingRelease := q.pendingRelease-1 }
        if q.pendingRelease-1 = 0 then
          let s := s.modifyProd p fun q => { q with state := .released }
          let s := ipaRmPerfProfileChange s (.inl p)
          ipaRmResourceProducerNotifyClients s p .released false
        else s
      else s
    | _, _ => s

/-- The loop of `ipa_rm_resource_consumer_handle_cb` over the producers. -/
def handleCbPeers (peers : RmProd → Option Bool) (event : RmEvent) (s : Rm) : Rm :=
  RmProd.all.foldl (fun s p =>
    if (peers p).isSome then ipaRmResourceProducerHandleCb s p event else s) s

def ipaRmResourceConsumerHandleCb (s : Rm) (c : RmCons) (event : RmEvent) : Rm :=
  match s.conss c with
  | none => s
  | some k =>
    match k.state, event with
    | .requestInProgress, .granted =>
      let s := s.setCons c { k with state := .granted }
      handleCbPeers k.peers event (ipaRmPerfProfileChange s (.inr c))
    | .releaseInProgress, .released =>
      handleCbPeers k.peers event (s.setCons c { k with state := .released })
    | _, _ => s

/-- The driver's -EINPROGRESS is treated as 0. -/
def ipaRmResourceConsumerReleaseWork (s : Rm) (c : RmCons) (prevState : RmState)
    (notifyCompletion : Bool) (driver : ℤ) : Rm × ℤ :=
  let s := s.call (.releaseResource c driver)
  let driverResult := if driver = eInProgress then 0 else driver
  if driverResult ≠ 0 then
    (s.modifyCons c fun k => { k with state := prevState }, driverResult)
  else
    let s := if notifyCompletion then ipaRmResourceConsumerHandleCb s c .released
      else s.modifyCons c fun k => { k with state := .released }
    (ipaRmPerfProfileChange s (.inr c), 0)

def ipaRmResourceConsumerRequestWork (s : Rm) (c : RmCons) (prevState : RmState)
    (prodNeededBw : BitVec 32) (notifyCompletion decClientOnErr : Bool) (driver : ℤ) :
    Rm × ℤ :=
  let s := s.call (.requestResource c driver)
  if driver = 0 then
    if notifyCompletion then (ipaRmResourceConsumerHandleCb s c .granted, 0)
    else
      let s := s.modifyCons c fun k => { k with state := .granted }
      (ipaRmPerfProfileChange s (.inr c), 0)
  else if driver ≠ eInProgress then
    (s.modifyCons c fun k =>
      { k with
        state := prevState
        neededBw := k.neededBw - prodNeededBw
        usageCount := if decClientOnErr then k.usageCount-1 else k.usageCount }, driver)
  else (s, driver)

/-- The switch of `ipa_rm_resource_consumer_request` on the consumer's state. -/
def consumerRequestState (s : Rm) (c : RmCons) (prevState : RmState) (prodNeededBw : BitVec 32)
    (incUsageCount wakeClient : Bool) (reply : RmReply) : Rm × ℤ :=
  match prevState with
  | .released | .releaseInProgress =>
    let s := s.modifyCons c fun k => { k with state := .requestInProgress }
    if prevState = .releaseInProgress ∨ reply.clksNoBlock = false then
      -- the work is lost where there is no memory for it
      (if reply.alloc then s.push (.resume c prevState prodNeededBw incUsageCount) else s,
        eInProgress)
    else ipaRmResourceConsumerRequestWork s c prevState prodNeededBw false incUsageCount
      reply.driver
  | .granted =>
    if wakeClient then
      ipaRmResourceConsumerRequestWork s c prevState prodNeededBw false incUsageCount
        reply.driver
    else (ipaRmPerfProfileChange s (.inr c), 0)
  | .requestInProgress => (s, eInProgress)

def ipaRmResourceConsumerRequest (s : Rm) (c : RmCons) (prodNeededBw : BitVec 32)
    (incUsageCount wakeClient : Bool) (reply : RmReply) : Rm × ℤ :=
  match s.conss c with
  | none => (s, 0)
  | some k =>
    let s := s.setCons c { k with neededBw := k.neededBw + prodNeededBw }
    let out := consumerRequestState s c k.state prodNeededBw incUsageCount wakeClient reply
    (if incUsageCount then out.1.modifyCons c fun k => { k with usageCount := k.usageCount+1 }
      else out.1, out.2)

def ipaRmResourceConsumerRelease (s : Rm) (c : RmCons) (prodNeededBw : BitVec 32)
    (decUsageCount : Bool) (reply : RmReply) : Rm × ℤ :=
  match s.conss c with
  | none => (s, 0)
  | some k =>
    let s := s.setCons c { k with neededBw := k.neededBw - prodNeededBw }
    let usageCount :=
      if decUsageCount = true ∧ k.usageCount > 0 then k.usageCount-1 else k.usageCount
    match k.state with
    | .released => (s, 0)
    | .granted | .requestInProgress =>
      let s := s.modifyCons c fun k => { k with usageCount := usageCount }
      if usageCount = 0 then
        let s := s.modifyCons c fun k => { k with state := .releaseInProgress }
        if k.state = .requestInProgress ∨ reply.suspendNoBlock = false then
          (if reply.alloc then s.push (.suspend c k.state prodNeededBw) else s, eInProgress)
        else ipaRmResourceConsumerReleaseWork s c k.state false reply.driver
      else if k.state = .granted then (ipaRmPerfProfileChange s (.inr c), 0)
      else (s, 0)
    | .releaseInProgress =>
      (s.modifyCons c fun k => { k with usageCount := usageCount }, eInProgress)

/-- `ipa_rm_peers_list_check_dependency`: who added the dependency, if there is one. -/
def ipaRmPeersListCheckDependency (q : RmProdRes) (p : RmProd) (k : RmConsRes) (c : RmCons) :
    Option Bool :=
  match k.peers p with
  | some userspaceDep => some userspaceDep
  | none => q.peers c

namespace Rm

/-- `ipa_rm_peers_list_add_peer` or `ipa_rm_peers_list_remove_peer` on both lists. -/
def setPeers (s : Rm) (p : RmProd) (c : RmCons) (dep : Option Bool) : Rm :=
  (s.modifyProd p fun q => { q with peers := update q.peers c dep }).modifyCons c
    fun k => { k with peers := update k.peers p dep }

def addPendingRequest (s : Rm) (p : RmProd) (n : ℤ) : Rm :=
  s.modifyProd p fun q => { q with pendingRequest := q.pendingRequest+n }

def addPendingRelease (s : Rm) (p : RmProd) (n : ℤ) : Rm :=
  s.modifyProd p fun q => { q with pendingRelease := q.pendingRelease+n }

def setProdState (s : Rm) (p : RmProd) (state : RmState) : Rm :=
  s.modifyProd p fun q => { q with state := state }

end Rm

def ipaRmResourceAddDependency (s : Rm) (p : RmProd) (c : RmCons) (userspaceDep : Bool)
    (reply : RmReply) : Rm × ℤ :=
  match s.prods p, s.conss c with
  | some q, some k =>
    if (ipaRmPeersListCheckDependency q p k c).isSome then (s, eExist)
    else
      let s := s.setPeers p c (some userspaceDep)
      let s := s.modifyProd p fun q => { q with neededBw := q.neededBw + k.maxBw }
      match q.state with
      | .released | .releaseInProgress => (s, 0)
      | .granted | .requestInProgress =>
        let s := (s.setProdState p .requestInProgress).addPendingRequest p 1
        let (s, consumerResult) := ipaRmResourceConsumerRequest s c q.maxBw true false reply
        if consumerResult ≠ eInProgress then
          let s := (s.setProdState p q.state).addPendingRequest p (-1)
          (ipaRmPerfProfileChange s (.inl p), consumerResult)
        else (s, consumerResult)
  | _, _ => (s, eInval)

/-- The switch of `ipa_rm_resource_delete_dependency` on the producer's state; whether the
consumer is released after it. -/
def deleteDependencyState (s : Rm) (p : RmProd) (q : RmProdRes) (k : RmConsRes) : Rm × Bool :=
  match q.state with
  | .released => (s, false)
  | .granted => (ipaRmPerfProfileChange s (.inl p), true)
  | .releaseInProgress =>
    let pending := if q.pendingRelease > 0 then q.pendingRelease-1 else q.pendingRelease
    let s := s.modifyProd p fun q => { q with pendingRelease := pending }
    if k.state = .releaseInProgress ∧ pending = 0 then
      let s := ipaRmPerfProfileChange (s.setProdState p .released) (.inl p)
      (s.push (.notifyProd p .released false), false)
    else (s, false)
  | .requestInProgress =>
    let pending := if q.pendingRequest > 0 then q.pendingRequest-1 else q.pendingRequest
    let s := s.modifyProd p fun q => { q with pendingRequest := pending }
    if k.state = .requestInProgress ∧ pending = 0 then
      let s := ipaRmPerfProfileChange (s.setProdState p .granted) (.inl p)
      (s.push (.notifyProd p .granted false), true)
    else (s, true)

def ipaRmResourceDeleteDependency (s : Rm) (p : RmProd) (c : RmCons) (userspaceDep : Bool)
    (reply : RmReply) : Rm × ℤ :=
  match s.prods p, s.conss c with
  | some q, some k =>
    match ipaRmPeersListCheckDependency q p k c with
    | none => (s, eInval)
    | some addDepByUserspace =>
      if addDepByUserspace ≠ userspaceDep then (s, 0)
      else
        let s := s.modifyProd p fun q => { q with neededBw := q.neededBw - k.maxBw }
        let (s, releaseConsumer) := deleteDependencyState s p q k
        let s := s.setPeers p c none
        if releaseConsumer then ((ipaRmResourceConsumerRelease s c q.maxBw true reply).1, 0)
        else (s, 0)
  | _, _ => (s, eInval)

/-- The loop of `ipa_rm_resource_producer_request`, and whether it was left by `goto bail`. -/
def producerRequestPeers (p : RmProd) (q : RmProdRes) (env : RmCons → RmReply) :
    List RmCons → Rm → ℤ → Rm × ℤ × Bool
  | [], s, result => (s, result, false)
  | c :: cs, s, result =>
    if (q.peers c).isSome then
      let s := s.addPendingRequest p 1
      let (s, consumerResult) := ipaRmResourceConsumerRequest s c q.maxBw true false (env c)
      if consumerResult = eInProgress then producerRequestPeers p q env cs s eInProgress
      else
        let s := s.addPendingRequest p (-1)
        if consumerResult ≠ 0 then (s, consumerResult, true)
        else producerRequestPeers p q env cs s result
    else producerRequestPeers p q env cs s result

def ipaRmResourceProducerRequest (s : Rm) (p : RmProd) (env : RmCons → RmReply) : Rm × ℤ :=
  match s.prods p with
  | none => (s, eInval)
  | some q =>
    match q.state with
    | .granted => (s, 0)
    | .requestInProgress => (s, eInProgress)
    | .released | .releaseInProgress =>
      let s := s.setProd p { q with state := .requestInProgress, pendingRequest := 0 }
      match producerRequestPeers p q env RmCons.all s 0 with
      | (s, result, true) => (s, result)
      | (s, result, false) =>
        if (s.prods p).any (·.pendingRequest = 0) then
          let s := ipaRmPerfProfileChange (s.setProdState p .granted) (.inl p)
          (s.push (.notifyProd p .granted true), 0)
        else (s, result)

/-- The body of the loop of `ipa_rm_resource_producer_release`. -/
def producerReleasePeer (p : RmProd) (q : RmProdRes) (env : RmCons → RmReply) (s : Rm)
    (c : RmCons) : Rm :=
  if (q.peers c).isSome then
    let s := s.addPendingRelease p 1
    let s := (ipaRmResourceConsumerRelease s c q.maxBw true (env c)).1
    s.addPendingRelease p (-1)
  else s

def ipaRmResourceProducerRelease (s : Rm) (p : RmProd) (env : RmCons → RmReply) : Rm × ℤ :=
  match s.prods p with
  | none => (s, ePerm)
  | some q =>
    match q.state with
    | .released => (s, 0)
    | .releaseInProgress => (s, eInProgress)
    | .granted | .requestInProgress =>
      let s := s.setProd p { q with state := .releaseInProgress, pendingRelease := 0 }
      let s := RmCons.all.foldl (producerReleasePeer p q env) s
      if (s.prods p).any (·.pendingRelease = 0) then
        let s := ipaRmPerfProfileChange (s.setProdState p .released) (.inl p)
        (s.push (.notifyProd p .released true), 0)
      else (s, 0)

/-- The body of the loop of `ipa_rm_resource_delete` for a producer. -/
def deletePeerOfProd (p : RmProd) (env : RmEnv) (s : Rm) (c : RmCons) : Rm :=
  match (s.prods p).bind (·.peers c) with
  | none => s
  | some userspaceDep => (ipaRmResourceDeleteDependency s p c userspaceDep (env p c)).1

/-- The same for a consumer. -/
def deletePeerOfCons (c : RmCons) (env : RmEnv) (s : Rm) (p : RmProd) : Rm :=
  match (s.conss c).bind (·.peers p) with
  | none => s
  | some userspaceDep => (ipaRmResourceDeleteDependency s p c userspaceDep (env p c)).1

/-- `ipa_rm_resource_delete` for a producer, and its removal from the graph. -/
def deleteProducer (s : Rm) (p : RmProd) (env : RmEnv) : Rm :=
  let s := RmCons.all.foldl (deletePeerOfProd p env) s
  let s := (ipaRmResourceProducerRelease s p (env p)).1
  { s with prods := update s.prods p none }

/-- `ipa_rm_resource_delete` for a consumer, and its removal from the graph. -/
def deleteConsumer (s : Rm) (c : RmCons) (env : RmEnv) : Rm :=
  let s := RmProd.all.foldl (deletePeerOfCons c env) s
  { s with conss := update s.conss c none }

/-- The body of the loop of `ipa_rm_resource_set_perf_profile` for a producer. -/
def profilePeerOfProd (q : RmProdRes) (bw : BitVec 32) (s : Rm) (c : RmCons) : Rm :=
  if (q.peers c).isSome then
    let s := s.modifyCons c fun k => { k with neededBw := k.neededBw - q.maxBw + bw }
    if (s.conss c).any (·.state = .granted) then ipaRmPerfProfileChange s (.inr c) else s
  else s

/-- The same for a consumer. -/
def profilePeerOfCons (k : RmConsRes) (bw : BitVec 32) (s : Rm) (p : RmProd) : Rm :=
  if (k.peers p).isSome then
    let s := s.modifyProd p fun q => { q with neededBw := q.neededBw - k.maxBw + bw }
    if (s.prods p).any (·.state = .granted) then ipaRmPerfProfileChange s (.inl p) else s
  else s

/-- `ipa_rm_resource_set_perf_profile` with a profile that is not null. -/
def ipaRmResourceSetPerfProfile (s : Rm) (name : RmName) (bw : BitVec 32) : Rm :=
  match name with
  | .inl p =>
    match s.prods p with
    | none => s
    | some q =>
      if bw = q.maxBw then s
      else
        let s := if q.state = .granted ∨ q.state = .requestInProgress then
          RmCons.all.foldl (profilePeerOfProd q bw) s else s
        let s := s.modifyProd p fun q => { q with maxBw := bw }
        if q.state = .granted then ipaRmPerfProfileChange s (.inl p) else s
  | .inr c =>
    match s.conss c with
    | none => s
    | some k =>
      if bw = k.maxBw then s
      else
        let s := RmProd.all.foldl (profilePeerOfCons k bw) s
        let s := s.modifyCons c fun k => { k with maxBw := bw }
        if k.state = .granted then ipaRmPerfProfileChange s (.inr c) else s

/-- `ipa_rm_resource_producer_register`. -/
def ipaRmResourceProducerRegister (q : RmProdRes) (notifyCb userData : ℕ) (explicit : Bool) :
    Option RmProdRes :=
  if q.eventListeners.any (·.notifyCb = notifyCb) then none
  else some { q with eventListeners := ⟨notifyCb, userData, explicit⟩ :: q.eventListeners }

def ipaRmResourceProducerDeregister (q : RmProdRes) (notifyCb : ℕ) : Option RmProdRes :=
  if q.eventListeners.any (·.notifyCb = notifyCb) then
    some { q with eventListeners := q.eventListeners.eraseP (·.notifyCb = notifyCb) }
  else none

/-- `IPA_VOLTAGE_MAX`. -/
def ipaVoltageMax : ℤ := 4

def ipaRmCreateResource (s : Rm) (name : ℕ) (floorVoltage : ℤ) (notifyCb userData : ℕ) :
    Rm × ℤ :=
  if floorVoltage < 0 ∨ floorVoltage ≥ ipaVoltageMax then (s, eInval)
  else
    match ipaRmDepGetIndex name with
    | some (.inl p) =>
      if (s.prods p).isSome then (s, eExist)
      else (s.setProd p { floorVoltage := floorVoltage.toNat
                          eventListeners := [⟨notifyCb, userData, false⟩] }, 0)
    | some (.inr c) =>
      if (s.conss c).isSome then (s, eExist)
      else (s.setCons c { floorVoltage := floorVoltage.toNat }, 0)
    -- the reserved odd names get as far as `ipa_rm_dep_graph_add`
    | none => if ipaRmResorceIsCons name then (s, eInval) else (s, ePerm)

def ipaRmDeleteResource (s : Rm) (name : ℕ) (env : RmEnv) : Rm × ℤ :=
  match ipaRmDepGetIndex name with
  | some (.inl p) => if (s.prods p).isSome then (deleteProducer s p env, 0) else (s, eInval)
  | some (.inr c) => if (s.conss c).isSome then (deleteConsumer s c env, 0) else (s, eInval)
  | none => (s, eInval)

/-- `_ipa_rm_add_dependency`, and the change that `_ipa_rm_add_dependency_sync` makes. -/
def ipaRmAddDependency (s : Rm) (name dependsOn : ℕ) (userspaceDep : Bool) (env : RmEnv) :
    Rm × ℤ :=
  match ipaRmDepGetIndex name, ipaRmDepGetIndex dependsOn with
  | some (.inl p), some (.inr c) => ipaRmResourceAddDependency s p c userspaceDep (env p c)
  | _, _ => (s, eInval)

def ipaRmDeleteDependency (s : Rm) (name dependsOn : ℕ) (userspaceDep : Bool) (env : RmEnv) :
    Rm × ℤ :=
  match ipaRmDepGetIndex name, ipaRmDepGetIndex dependsOn with
  | some (.inl p), some (.inr c) => ipaRmResourceDeleteDependency s p c userspaceDep (env p c)
  | _, _ => (s, eInval)

def ipaRmRequestResource (s : Rm) (name : ℕ) (env : RmEnv) : Rm × ℤ :=
  match ipaRmDepGetIndex name with
  | some (.inl p) =>
    if (s.prods p).isSome then ipaRmResourceProducerRequest s p (env p) else (s, ePerm)
  | _ => (s, eInval)

def ipaRmReleaseResource (s : Rm) (name : ℕ) (env : RmEnv) : Rm × ℤ :=
  match ipaRmDepGetIndex name with
  | some (.inl p) =>
    if (s.prods p).isSome then ipaRmResourceProducerRelease s p (env p) else (s, ePerm)
  | _ => (s, eInval)

/-- `workAlloc`: memory for the delayed work. -/
def ipaRmRequestResourceWithTimer (s : Rm) (name : ℕ) (reply : RmReply) (workAlloc : Bool) :
    Rm × ℤ :=
  if ipaRmResorceIsCons name then
    match ipaRmDepGetIndex name with
    | some (.inr c) =>
      if (s.conss c).isSome then
        let (s, result) := ipaRmResourceConsumerRequest s c 0 false true reply
        if result ≠ 0 ∧ result ≠ eInProgress then (s, ePerm)
        else if workAlloc then ({ s with delayed := s.delayed ++ [c] }, 0)
        else (s, eNoMem)
      else (s, ePerm)
    | _ => (s, ePerm)
  else (s, eInval)

def delayedReleaseWorkFunc (s : Rm) (c : RmCons) (reply : RmReply) : Rm :=
  (ipaRmResourceConsumerRelease { s with delayed := s.delayed.erase c } c 0 false reply).1

def ipaRmRegister (s : Rm) (name notifyCb userData : ℕ) : Rm × ℤ :=
  match ipaRmDepGetIndex name with
  | some (.inl p) =>
    match s.prods p with
    | none => (s, ePerm)
    | some q =>
      match ipaRmResourceProducerRegister q notifyCb userData true with
      | none => (s, ePerm)
      | some q => (s.setProd p q, 0)
  | _ => (s, eInval)

def ipaRmDeregister (s : Rm) (name notifyCb : ℕ) : Rm × ℤ :=
  match ipaRmDepGetIndex name with
  | some (.inl p) =>
    match s.prods p with
    | none => (s, ePerm)
    | some q =>
      match ipaRmResourceProducerDeregister q notifyCb with
      | none => (s, eInval)
      | some q => (s.setProd p q, 0)
  | _ => (s, eInval)

def ipaRmSetPerfProfile (s : Rm) (name : ℕ) (bw : BitVec 32) : Rm × ℤ :=
  match ipaRmDepGetIndex name with
  | none => (s, ePerm)
  | some r => if (s.getResource r).isSome then (ipaRmResourceSetPerfProfile s r bw, 0)
    else (s, ePerm)

def ipaRmNotifyCompletion (s : Rm) (event : RmEvent) (name : ℕ) : Rm × ℤ :=
  if ipaRmResorceIsCons name then (s.push (.resourceCb name event), 0) else (s, eInval)

/-- `ipa_rm_wq_handler`, `ipa_rm_wq_resume_handler`, `ipa_rm_wq_suspend_handler` and
`ipa_rm_perf_profile_notify_to_ipa_work`. -/
def handleWork (s : Rm) (reply : RmReply) : RmWork → Rm
  | .notifyProd p event registeredOnly =>
    ipaRmResourceProducerNotifyClients s p event registeredOnly
  | .resourceCb name event =>
    match ipaRmDepGetIndex name with
    | some (.inr c) => ipaRmResourceConsumerHandleCb s c event
    | _ => s
  | .resume c prevState neededBw incUsageCount =>
    if (s.conss c).isSome then
      (ipaRmResourceConsumerRequestWork s c prevState neededBw true incUsageCount
        reply.driver).1
    else s
  | .suspend c prevState _ =>
    if (s.conss c).isSome then
      (ipaRmResourceConsumerReleaseWork s c prevState true reply.driver).1
    else s
  | .notifyIpa volt bw => s.call (.setRequiredPerfProfile volt bw)

/-- What happens next: a call of the interface, a delayed work whose time is over, or the
worker's next item. -/
inductive RmAction
  | createResource (name : ℕ) (floorVoltage : ℤ) (notifyCb userData : ℕ)
  | deleteResource (name : ℕ) (env : RmEnv)
  | addDependency (name dependsOn : ℕ) (userspaceDep : Bool) (env : RmEnv)
  | deleteDependency (name dependsOn : ℕ) (userspaceDep : Bool) (env : RmEnv)
  | requestResource (name : ℕ) (env : RmEnv)
  | releaseResource (name : ℕ) (env : RmEnv)
  | requestResourceWithTimer (name : ℕ) (reply : RmReply) (workAlloc : Bool)
  | delayedRelease (c : RmCons) (reply : RmReply)
  | register (name notifyCb userData : ℕ)
  | deregister (name notifyCb : ℕ)
  | setPerfProfile (name : ℕ) (bw : BitVec 32)
  | notifyCompletion (event : RmEvent) (name : ℕ)
  | work (reply : RmReply)

def Rm.step (s : Rm) : RmAction → Option Rm
  | .createResource name volt cb userData => some (ipaRmCreateResource s name volt cb userData).1
  | .deleteResource name env => some (ipaRmDeleteResource s name env).1
  | .addDependency name dependsOn user env =>
    some (ipaRmAddDependency s name dependsOn user env).1
  | .deleteDependency name dependsOn user env =>
    some (ipaRmDeleteDependency s name dependsOn user env).1
  | .requestResource name env => some (ipaRmRequestResource s name env).1
  | .releaseResource name env => some (ipaRmReleaseResource s name env).1
  | .requestResourceWithTimer name reply workAlloc =>
    some (ipaRmRequestResourceWithTimer s name reply workAlloc).1
  | .delayedRelease c reply =>
    if c ∈ s.delayed then some (delayedReleaseWorkFunc s c reply) else none
  | .register name cb userData => some (ipaRmRegister s name cb userData).1
  | .deregister name cb => some (ipaRmDeregister s name cb).1
  | .setPerfProfile name bw => some (ipaRmSetPerfProfile s name bw).1
  | .notifyCompletion event name => some (ipaRmNotifyCompletion s event name).1
  | .work reply =>
    match s.wq with
    | [] => none
    | w :: wq => some (handleWork { s with wq := wq } reply w)

end X00TDCellular
