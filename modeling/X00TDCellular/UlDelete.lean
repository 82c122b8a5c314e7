import X00TDCellular.UlRules

/-! The ported `wwan_del_ul_flt_rule_to_ipa`. A handle says which rule goes, and from which
table; the family in the request only says which tables are committed after it. -/

namespace X00TDCellular
open Function

def ipaMaxNumPipes : ℕ := 20

/-- The tables of the driver; a table that no pipe uses is there as well. -/
def fltTblKeys : List FltTblKey :=
  [.glob .v4, .glob .v6] ++
    (List.range ipaMaxNumPipes).flatMap fun i => [.ep i .v4, .ep i .v6]

/-- `struct ipa_flt_rule_del`. -/
structure FltRuleDel where
  hdl : ℕ
  status : ℤ := 0
  deriving DecidableEq, Repr

/-- `struct ipa_ioc_del_flt_rule`. -/
structure DelFltRuleReq where
  commit : Bool
  ip : IpaIpType
  hdls : List FltRuleDel
  deriving DecidableEq, Repr

namespace IpaCtx

/-- `ipa_id_find` for the id of a filter rule: the table that its entry is in. -/
def idFind (s : IpaCtx) (hdl : ℕ) : Option FltTblKey :=
  fltTblKeys.find? fun k => (s.fltTbl k).entries.any (·.id = some hdl)

/-- `__ipa_del_flt_rule`, and whether it succeeds. -/
def delFltRule (s : IpaCtx) (hdl : ℕ) : IpaCtx × Bool :=
  match s.idFind hdl with
  | none => (s, false)
  | some k =>
    ({ s with
      fltTbl := update s.fltTbl k { s.fltTbl k with
        entries := (s.fltTbl k).entries.filter (·.id ≠ some hdl)
        ruleCnt := (s.fltTbl k).ruleCnt - 1 }
      idr := s.idr.erase hdl }, true)

/-- The loop of `ipa2_del_flt_rule`. -/
def delRules (s : IpaCtx) : List FltRuleDel → IpaCtx × List FltRuleDel
  | [] => (s, [])
  | r :: rs =>
    let deleted := s.delFltRule r.hdl
    let rest := deleted.1.delRules rs
    (rest.1, { r with status := if deleted.2 then 0 else -1 } :: rest.2)

/-- `ipa2_del_flt_rule`. As with the add, only the commit can fail the request as a
whole. -/
def ipa2DelFltRule (s : IpaCtx) (req : DelFltRuleReq) (commitOk : Bool) :
    IpaCtx × DelFltRuleReq × ℤ :=
  if req.hdls = [] ∨ req.ip = .max then (s, req, eInval)
  else
    let deleted := s.delRules req.hdls
    let req := { req with hdls := deleted.2 }
    if req.commit then
      (deleted.1.commitFlt req.ip commitOk, req, if commitOk then 0 else ePerm)
    else (deleted.1, req, 0)

end IpaCtx

/-- The value of `enum ipa_ip_type`. -/
def IpaIpType.toNat : IpaIpType → ℕ
  | .v4 => 0
  | .v6 => 1
  | .max => 2

/-- The translation "QMI ip type to IPA driver enum" of the delete. It takes 1 for v4 and
2 for v6, also in a value that is an IPA enum already. -/
def translateIp (ip : IpaIpType) : IpaIpType :=
  if ip.toNat = 1 then .v4 else if ip.toNat = 2 then .v6 else ip

namespace DriverState

def delFltRule (d : DriverState) (req : DelFltRuleReq) (commitOk : Bool) :
    DriverState × DelFltRuleReq × ℤ :=
  let deleted := d.ipa.ipa2DelFltRule req commitOk
  (note { d with ipa := deleted.1 }
    (deleted.2.2 = 0 ∧ ∀ r ∈ deleted.2.1.hdls, r.status = 0), deleted.2)

def ulDelReq (ip : IpaIpType) (hdl : ℕ) : DelFltRuleReq where
  commit := true
  ip := translateIp ip
  hdls := [{ hdl := hdl }]

/-- How the delete's own calls turn out: its allocation, and the commit after each
rule. -/
structure DelOutcome where
  allocOk : Bool := true
  commitOk : ℕ → Bool := fun _ => true

/-- The loop from index `i` on: handle `i` of the driver, and the family that the array
has at `i` by now. -/
def delUlRules (d : DriverState) (commitOk : ℕ → Bool) (i : ℕ) :
    List ExtIntfProp → DriverState × ℤ
  | [] => (d, 0)
  | q :: qs =>
    let deleted := d.delFltRule (ulDelReq q.ip (d.q6UlFilterRuleHdl i)) (commitOk i)
    if deleted.2.2 = 0 then deleted.1.delUlRules commitOk (i+1) qs
    else (deleted.1, eFault)

/-- The ported `wwan_del_ul_flt_rule_to_ipa`; `array` is all of `q6_ul_filter_rule[]`. -/
def wwanDelUlFltRuleToIpa (d : DriverState) (array : List ExtIntfProp) (o : DelOutcome) :
    DriverState × ℤ :=
  if ¬ o.allocOk then (d.note false, eNoMem)
  else
    let deleted := d.delUlRules o.commitOk 0 (array.take d.oldNumQ6Rule)
    if deleted.2 = 0 then ({ deleted.1 with a7UlFltSet := false, oldNumQ6Rule := 0 }, 0)
    else deleted

/-- The array after `copy_ul_filter_rule_to_ipa` has put a new list into it: what the new
list does not reach is still there. -/
def q6Array (old new : List ExtIntfProp) : List ExtIntfProp := new ++ old.drop new.length

end DriverState

namespace IpaCtx

/-- One turn of the loop, by what it does to the tables. -/
structure DelCall where
  hdl : ℕ
  ip : IpaIpType
  commitOk : Bool

def delStep (s : IpaCtx) (c : DelCall) : IpaCtx :=
  (s.delFltRule c.hdl).1.commitFlt c.ip c.commitOk

/-- The loop ends with the first commit that fails. -/
def delSteps (s : IpaCtx) : List DelCall → IpaCtx
  | [] => s
  | c :: cs => if c.commitOk then (s.delStep c).delSteps cs else s.delStep c

theorem entries_delStep (s : IpaCtx) (c : DelCall) (k : FltTblKey) :
    ((s.delStep c).fltTbl k).entries = ((s.delFltRule c.hdl).1.fltTbl k).entries :=
  ((s.delFltRule c.hdl).1.entries_commitFlt c.ip c.commitOk k).1

/-- A rule goes only with its own handle. -/
theorem mem_delStep {s : IpaCtx} {c : DelCall} {k : FltTblKey} {e : FltEntry}
    (he : e ∈ (s.fltTbl k).entries) (hid : e.id ≠ some c.hdl) :
    e ∈ ((s.delStep c).fltTbl k).entries := by
  rw [entries_delStep]
  unfold delFltRule
  split
  · exact he
  · rename_i k' _
    by_cases hk : k = k'
    · rw [hk] at he ⊢
      dsimp only
      rw [update_self]
      exact List.mem_filter.mpr ⟨he, decide_eq_true hid⟩
    · dsimp only
      rw [update_of_ne hk]
      exact he

theorem mem_delSteps {s : IpaCtx} {cs : List DelCall} {k : FltTblKey} {e : FltEntry}
    (he : e ∈ (s.fltTbl k).entries) (hid : ∀ c ∈ cs, e.id ≠ some c.hdl) :
    e ∈ ((s.delSteps cs).fltTbl k).entries := by
  induction cs generalizing s with
  | nil => exact he
  | cons c cs ih =>
    have hone := mem_delStep he (hid c List.mem_cons_self)
    unfold delSteps
    split
    · exact ih hone (fun c' hc' => hid c' (List.mem_cons_of_mem c hc'))
    · exact hone

/-- After a commit that fails nothing more is deleted. -/
theorem delSteps_append_of_not_ok (s : IpaCtx) (cs cs' : List DelCall) {c : DelCall}
    (hc : c.commitOk = false) :
    s.delSteps (cs ++ c :: cs') = s.delSteps (cs ++ [c]) := by
  induction cs generalizing s with
  | nil => simp [delSteps, hc]
  | cons c' cs ih =>
    rw [List.cons_append, List.cons_append, delSteps, delSteps, ih]

theorem lanWanTbl_mem_fltTblKeys {ip : IpaIpType} (hip : ip ≠ .max) :
    lanWanTbl ip ∈ fltTblKeys := by
  cases ip with
  | v4 => decide
  | v6 => decide
  | max => exact absurd rfl hip

/-- A handle that names an entry finds its table. -/
theorem idFind_of_mem {s : IpaCtx} (hwf : s.WellFormed) {k : FltTblKey}
    (hk : k ∈ fltTblKeys) {e : FltEntry} (he : e ∈ (s.fltTbl k).entries) {hdl : ℕ}
    (hid : e.id = some hdl) : s.idFind hdl = some k := by
  have hsome : (s.idFind hdl).isSome := by
    unfold idFind
    rw [List.find?_isSome]
    exact ⟨k, hk, List.any_eq_true.mpr ⟨e, he, decide_eq_true hid⟩⟩
  obtain ⟨k', hk'⟩ := Option.isSome_iff_exists.mp hsome
  have hany : (s.fltTbl k').entries.any (·.id = some hdl) = true :=
    List.find?_some (p := fun k => (s.fltTbl k).entries.any (·.id = some hdl)) hk'
  obtain ⟨e', he', hid'⟩ := List.any_eq_true.mp hany
  rw [hk', (hwf.unique k k' e e' hdl he he' hid (of_decide_eq_true hid')).1]

/-- The handles in `hs` are still to be deleted, one entry of a family's table each, and
`base` counts the rules that stay. -/
structure Pending (s : IpaCtx) (base : IpaIpType → ℕ) (hs : List ℕ) : Prop where
  wellFormed : s.WellFormed
  nodup : hs.Nodup
  home : ∀ h ∈ hs, ∃ ip, ip ≠ .max ∧
    (s.fltTbl (lanWanTbl ip)).entries.countP (·.id = some h) = 1
  counted : ∀ ip, (s.fltTbl (lanWanTbl ip)).ruleCnt =
    base ip + (s.fltTbl (lanWanTbl ip)).entries.countP (·.id ∈ hs.map some)

/-- Deleting a handle that names an entry takes the entry out of its table and leaves the
others as they are. -/
theorem entries_delFltRule {s : IpaCtx} (hwf : s.WellFormed) {k : FltTblKey}
    (hk : k ∈ fltTblKeys) {e : FltEntry} (he : e ∈ (s.fltTbl k).entries) {hdl : ℕ}
    (hid : e.id = some hdl) (k' : FltTblKey) :
    ((s.delFltRule hdl).1.fltTbl k').entries =
      (s.fltTbl k').entries.filter (·.id ≠ some hdl) := by
  have hfind := idFind_of_mem hwf hk he hid
  unfold delFltRule
  rw [hfind]
  dsimp only
  by_cases hkk : k' = k
  · rw [hkk, update_self]
  · rw [update_of_ne hkk]
    symm
    apply List.filter_eq_self.mpr
    intro e' he'
    apply decide_eq_true
    intro hid'
    exact hkk (hwf.unique k' k e' e hdl he' he hid' hid).1

theorem delFltRule_wellFormed {s : IpaCtx} (hwf : s.WellFormed) {k : FltTblKey}
    (hk : k ∈ fltTblKeys) {e : FltEntry} (he : e ∈ (s.fltTbl k).entries) {hdl : ℕ}
    (hid : e.id = some hdl) : (s.delFltRule hdl).1.WellFormed := by
  have hentries := entries_delFltRule hwf hk he hid
  have hidr : (s.delFltRule hdl).1.idr = s.idr.erase hdl := by
    unfold delFltRule
    rw [idFind_of_mem hwf hk he hid]
  constructor
  · intro k' e' he' x hx
    rw [hentries k', List.mem_filter] at he'
    have hne : x ≠ hdl := by
      rintro rfl
      exact of_decide_eq_true he'.2 hx
    rw [hidr]
    exact (List.mem_erase_of_ne hne).mpr (hwf.idr k' e' he'.1 x hx)
  · intro k₁ k₂ e₁ e₂ x he₁ he₂ hx₁ hx₂
    rw [hentries k₁, List.mem_filter] at he₁
    rw [hentries k₂, List.mem_filter] at he₂
    exact hwf.unique k₁ k₂ e₁ e₂ x he₁.1 he₂.1 hx₁ hx₂

theorem commitFlt_wellFormed {s : IpaCtx} (hwf : s.WellFormed) (ip : IpaIpType)
    (ok : Bool) : (s.commitFlt ip ok).WellFormed :=
  ((Grows.refl (s := s) (fun _ => [])).commitFlt ip ok).wellFormed hwf

/-- The entries that carry one of the handles are those of the first and those of the
rest. -/
theorem countP_cons_handles (h : ℕ) (hs : List ℕ) (es : List FltEntry) :
    es.countP (·.id ∈ (h :: hs).map some) =
      es.countP (·.id = some h) +
        (es.filter (·.id ≠ some h)).countP (·.id ∈ hs.map some) := by
  induction es with
  | nil => rfl
  | cons e es ih =>
    rw [List.countP_cons, List.countP_cons, ih]
    by_cases hid : e.id = some h
    · -- the entry of `h` itself, counted on the left only through `h`
      simp [hid]
      omega
    · simp only [List.map_cons, List.mem_cons, hid, false_or, List.filter_cons, ne_eq,
        not_false_eq_true, decide_true, if_true, List.countP_cons]
      simp only [decide_false, Bool.false_eq_true, if_false]
      omega

/-- What one deletion does to the tables: the entry of the handle is gone, and everything
else, the order included, is as it was. -/
theorem Pending.delFltRule {s : IpaCtx} {base : IpaIpType → ℕ} {h : ℕ} {hs : List ℕ}
    (hp : s.Pending base (h :: hs)) :
    (s.delFltRule h).1.Pending base hs ∧
      ∀ k, ((s.delFltRule h).1.fltTbl k).entries =
          (s.fltTbl k).entries.filter (·.id ≠ some h) ∧
        ((s.delFltRule h).1.fltTbl k).stickyRear = (s.fltTbl k).stickyRear := by
  obtain ⟨ip, hip, hone⟩ := hp.home h List.mem_cons_self
  obtain ⟨hnot, hnodup⟩ := List.nodup_cons.mp hp.nodup
  obtain ⟨e, he, hid⟩ : ∃ e ∈ (s.fltTbl (lanWanTbl ip)).entries, e.id = some h := by
    obtain ⟨e, he, hid⟩ := List.countP_pos_iff.mp (by rw [hone]; exact Nat.one_pos)
    exact ⟨e, he, of_decide_eq_true hid⟩
  have hk := lanWanTbl_mem_fltTblKeys hip
  have hentries := entries_delFltRule hp.wellFormed hk he hid
  have hfind := idFind_of_mem hp.wellFormed hk he hid
  have hother (ip' : IpaIpType) (hne : ip' ≠ ip) :
      (s.fltTbl (lanWanTbl ip')).entries.countP (·.id = some h) = 0 := by
    apply List.countP_eq_zero.mpr
    intro e' he' hid'
    have hsame := (hp.wellFormed.unique _ _ e' e h he' he (of_decide_eq_true hid') hid).1
    exact hne (lanWanTbl_injective hsame)
  have hcnt (ip' : IpaIpType) : ((s.delFltRule h).1.fltTbl (lanWanTbl ip')).ruleCnt +
      (s.fltTbl (lanWanTbl ip')).entries.countP (·.id = some h) =
        (s.fltTbl (lanWanTbl ip')).ruleCnt := by
    have hcounted := hp.counted ip'
    rw [countP_cons_handles] at hcounted
    unfold IpaCtx.delFltRule
    rw [hfind]
    dsimp only
    by_cases hii : ip' = ip
    · rw [hii, update_self, hone]
      rw [hii, hone] at hcounted
      dsimp only
      omega
    · rw [update_of_ne (fun heq => hii (lanWanTbl_injective heq)), hother ip' hii, Nat.add_zero]
  refine ⟨⟨delFltRule_wellFormed hp.wellFormed hk he hid, hnodup, ?_, ?_⟩, ?_⟩
  · intro h' hh'
    obtain ⟨ip', hip', hone'⟩ := hp.home h' (List.mem_cons_of_mem h hh')
    refine ⟨ip', hip', ?_⟩
    have hne : h' ≠ h := by
      rintro rfl
      exact hnot hh'
    rw [hentries, List.countP_filter, ← hone']
    apply List.countP_congr
    intro e' _
    simp only [Bool.and_eq_true, decide_eq_true_eq, ne_eq]
    constructor
    · exact fun hboth => hboth.1
    · intro heq
      refine ⟨heq, ?_⟩
      rw [heq]
      exact fun hsome => hne (Option.some.inj hsome)
  · intro ip'
    have hcounted := hp.counted ip'
    rw [countP_cons_handles, ← hentries] at hcounted
    have hthis := hcnt ip'
    omega
  · intro k
    refine ⟨hentries k, ?_⟩
    unfold IpaCtx.delFltRule
    rw [hfind]
    dsimp only
    by_cases hkk : k = lanWanTbl ip
    · rw [hkk, update_self]
    · rw [update_of_ne hkk]

theorem Pending.delStep {s : IpaCtx} {base : IpaIpType → ℕ} {c : DelCall} {hs : List ℕ}
    (hp : s.Pending base (c.hdl :: hs)) :
    (s.delStep c).Pending base hs ∧
      ∀ k, ((s.delStep c).fltTbl k).entries =
          (s.fltTbl k).entries.filter (·.id ≠ some c.hdl) ∧
        ((s.delStep c).fltTbl k).stickyRear = (s.fltTbl k).stickyRear := by
  obtain ⟨hrest, htables⟩ := hp.delFltRule
  have hcommit (k : FltTblKey) :=
    (s.delFltRule c.hdl).1.entries_commitFlt c.ip c.commitOk k
  refine ⟨⟨commitFlt_wellFormed hrest.wellFormed _ _, hrest.nodup, ?_, ?_⟩, ?_⟩
  · intro h hh
    obtain ⟨ip, hip, hone⟩ := hrest.home h hh
    refine ⟨ip, hip, ?_⟩
    rw [entries_delStep]
    exact hone
  · intro ip
    rw [entries_delStep, ← hrest.counted ip]
    exact (hcommit (lanWanTbl ip)).2
  · intro k
    rw [entries_delStep]
    refine ⟨(htables k).1, ?_⟩
    rw [← (htables k).2]
    unfold IpaCtx.delStep commitFlt
    dsimp only
    split
    · rfl
    · rfl

/-- All turns of the loop, when no commit ends it before. -/
theorem delSteps_of_ok {s : IpaCtx} {cs : List DelCall}
    (hok : ∀ c ∈ cs.dropLast, c.commitOk = true) : s.delSteps cs = cs.foldl delStep s := by
  induction cs generalizing s with
  | nil => rfl
  | cons c cs ih =>
    rw [delSteps, List.foldl_cons]
    cases cs with
    | nil =>
      split
      · rfl
      · rfl
    | cons c' cs =>
      rw [if_pos (hok c List.mem_cons_self)]
      exact ih (fun c'' hc'' => hok c'' (List.mem_cons_of_mem c hc''))

/-- After the loop every handle of it is gone, and the counters have gone down with
them. -/
theorem Pending.foldl_delStep {s : IpaCtx} {base : IpaIpType → ℕ} {cs : List DelCall}
    (hp : s.Pending base (cs.map (·.hdl))) :
    (cs.foldl IpaCtx.delStep s).Pending base [] ∧
      ∀ k, ((cs.foldl IpaCtx.delStep s).fltTbl k).entries =
          (s.fltTbl k).entries.filter (·.id ∉ cs.map fun c => some c.hdl) ∧
        ((cs.foldl IpaCtx.delStep s).fltTbl k).stickyRear = (s.fltTbl k).stickyRear := by
  induction cs generalizing s with
  | nil =>
    refine ⟨hp, fun k => ⟨?_, rfl⟩⟩
    symm
    apply List.filter_eq_self.mpr
    intro e _
    exact decide_eq_true List.not_mem_nil
  | cons c cs ih =>
    obtain ⟨hstep, htables⟩ := hp.delStep
    obtain ⟨hrest, htables'⟩ := ih hstep
    refine ⟨hrest, fun k => ⟨?_, (htables' k).2.trans (htables k).2⟩⟩
    rw [List.foldl_cons, (htables' k).1, (htables k).1, List.filter_filter]
    apply List.filter_congr
    intro e _
    by_cases hid : e.id = some c.hdl
    · simp [hid]
    · simp [hid]

theorem hw_delStep (s : IpaCtx) (c : DelCall) (k : FltTblKey) :
    ((s.delStep c).fltTbl k).hw =
      if k.ip = c.ip ∧ c.commitOk then ((s.delStep c).fltTbl k).entries
      else (s.fltTbl k).hw := by
  have hkeep : ((s.delFltRule c.hdl).1.fltTbl k).hw = (s.fltTbl k).hw := by
    unfold IpaCtx.delFltRule
    split
    · rfl
    · rename_i k' _
      dsimp only
      by_cases hk : k = k'
      · rw [hk, update_self]
      · rw [update_of_ne hk]
  unfold delStep commitFlt
  dsimp only
  split
  · rfl
  · exact hkeep

/-- The turn commits the tables of the family. -/
def DelCall.Commits (c : DelCall) (ip : IpaIpType) : Prop := ip = c.ip ∧ c.commitOk = true

theorem hw_delStep_of_commits {s : IpaCtx} {c : DelCall} {ip : IpaIpType}
    (h : c.Commits ip) :
    ((s.delStep c).fltTbl (lanWanTbl ip)).hw =
      ((s.delStep c).fltTbl (lanWanTbl ip)).entries :=
  (s.hw_delStep c (lanWanTbl ip)).trans (if_pos h)

theorem hw_delStep_of_not_commits {s : IpaCtx} {c : DelCall} {ip : IpaIpType}
    (h : ¬ c.Commits ip) :
    ((s.delStep c).fltTbl (lanWanTbl ip)).hw = (s.fltTbl (lanWanTbl ip)).hw :=
  (s.hw_delStep c (lanWanTbl ip)).trans (if_neg h)

/-- Each turn that changes the family's table is followed by a commit of the family, at
once or later. -/
def CommitsFollow (s : IpaCtx) (ip : IpaIpType) : List DelCall → Prop
  | [] => True
  | c :: cs =>
    ((∃ e ∈ (s.fltTbl (lanWanTbl ip)).entries, e.id = some c.hdl) →
      ∃ c' ∈ c :: cs, c'.Commits ip) ∧ s.CommitsFollow ip cs

/-- Then the hardware has the table that the loop leaves, if it had the one before it or
is still to be given one. -/
theorem Pending.hw_eq_entries {s : IpaCtx} {base : IpaIpType → ℕ} {cs : List DelCall}
    {ip : IpaIpType} (hp : s.Pending base (cs.map (·.hdl))) {s₀ : IpaCtx}
    (hsub : ∀ e ∈ (s.fltTbl (lanWanTbl ip)).entries,
      e ∈ (s₀.fltTbl (lanWanTbl ip)).entries)
    (hstart : (s.fltTbl (lanWanTbl ip)).hw = (s.fltTbl (lanWanTbl ip)).entries ∨
      ∃ c ∈ cs, c.Commits ip)
    (hfollow : s₀.CommitsFollow ip cs) :
    ((cs.foldl IpaCtx.delStep s).fltTbl (lanWanTbl ip)).hw =
      ((cs.foldl IpaCtx.delStep s).fltTbl (lanWanTbl ip)).entries := by
  induction cs generalizing s with
  | nil =>
    rcases hstart with heq | ⟨c, hc, _⟩
    · exact heq
    · cases hc
  | cons c cs ih =>
    obtain ⟨hstep, htables⟩ := hp.delStep
    obtain ⟨hentries, _⟩ := htables (lanWanTbl ip)
    obtain ⟨hnow, hlater⟩ := hfollow
    apply ih hstep ?_ ?_ hlater
    · intro e he
      rw [hentries] at he
      exact hsub e (List.mem_filter.mp he).1
    · by_cases hcommits : c.Commits ip
      · exact Or.inl (hw_delStep_of_commits hcommits)
      · -- no commit in this turn: the table has not changed, or a later turn commits it
        by_cases hchange : ∃ e ∈ (s.fltTbl (lanWanTbl ip)).entries, e.id = some c.hdl
        · obtain ⟨e, he, hid⟩ := hchange
          obtain ⟨c', hc', hcc⟩ := hnow ⟨e, hsub e he, hid⟩
          rcases List.mem_cons.mp hc' with rfl | hrest
          · exact absurd hcc hcommits
          · exact Or.inr ⟨c', hrest, hcc⟩
        · have hsame : ((s.delStep c).fltTbl (lanWanTbl ip)).entries =
              (s.fltTbl (lanWanTbl ip)).entries := by
            rw [hentries]
            apply List.filter_eq_self.mpr
            intro e he
            exact decide_eq_true (fun hid => hchange ⟨e, he, hid⟩)
          rcases hstart with heq | ⟨c', hc', hcc⟩
          · left
            rw [hw_delStep_of_not_commits hcommits, hsame, heq]
          · rcases List.mem_cons.mp hc' with rfl | hrest
            · exact absurd hcc hcommits
            · exact Or.inr ⟨c', hrest, hcc⟩

/-- An entry that the hardware has stays there as long as it is in the table or nothing
commits the family. -/
theorem Pending.mem_hw {s : IpaCtx} {base : IpaIpType → ℕ} {cs : List DelCall}
    {ip : IpaIpType} {hs : List ℕ} (hp : s.Pending base (cs.map (·.hdl) ++ hs))
    {e : FltEntry} (he : e ∈ (s.fltTbl (lanWanTbl ip)).entries)
    (hhw : e ∈ (s.fltTbl (lanWanTbl ip)).hw)
    (hid : ∀ c ∈ cs, e.id ≠ some c.hdl) :
    e ∈ ((cs.foldl IpaCtx.delStep s).fltTbl (lanWanTbl ip)).hw := by
  induction cs generalizing s with
  | nil => exact hhw
  | cons c cs ih =>
    obtain ⟨hstep, htables⟩ := hp.delStep
    have hstay : e ∈ ((s.delStep c).fltTbl (lanWanTbl ip)).entries := by
      rw [(htables _).1]
      exact List.mem_filter.mpr ⟨he, decide_eq_true (hid c List.mem_cons_self)⟩
    apply ih hstep hstay ?_ (fun c' hc' => hid c' (List.mem_cons_of_mem c hc'))
    rw [hw_delStep]
    split
    · exact hstay
    · exact hhw

theorem hw_foldl_delStep {s : IpaCtx} {cs : List DelCall} {ip : IpaIpType}
    (hno : ∀ c ∈ cs, ¬ c.Commits ip) :
    ((cs.foldl delStep s).fltTbl (lanWanTbl ip)).hw = (s.fltTbl (lanWanTbl ip)).hw := by
  induction cs generalizing s with
  | nil => rfl
  | cons c cs ih =>
    rw [List.foldl_cons, ih (fun c' hc' => hno c' (List.mem_cons_of_mem c hc'))]
    exact hw_delStep_of_not_commits (hno c List.mem_cons_self)

/-- A turn that changes the table, with no commit of the family from it on, leaves the
hardware with an entry that the table does not have. -/
theorem Pending.hw_ne_entries {s : IpaCtx} {base : IpaIpType → ℕ} {cs : List DelCall}
    {ip : IpaIpType} (hp : s.Pending base (cs.map (·.hdl)))
    (hstart : (s.fltTbl (lanWanTbl ip)).hw = (s.fltTbl (lanWanTbl ip)).entries)
    (hfollow : ¬ s.CommitsFollow ip cs) :
    ((cs.foldl IpaCtx.delStep s).fltTbl (lanWanTbl ip)).hw ≠
        ((cs.foldl IpaCtx.delStep s).fltTbl (lanWanTbl ip)).entries ∧
      ((cs.foldl IpaCtx.delStep s).fltTbl (lanWanTbl ip)).entries ≠
        (s.fltTbl (lanWanTbl ip)).entries := by
  -- the turn in question
  have hturn : ∃ pre c post, cs = pre ++ c :: post ∧
      (∃ e ∈ (s.fltTbl (lanWanTbl ip)).entries, e.id = some c.hdl) ∧
      ∀ c' ∈ c :: post, ¬ c'.Commits ip := by
    clear hp hstart
    induction cs with
    | nil => exact absurd trivial hfollow
    | cons c cs ih =>
      by_cases hlater : s.CommitsFollow ip cs
      · have hnow : ¬ ((∃ e ∈ (s.fltTbl (lanWanTbl ip)).entries, e.id = some c.hdl) →
            ∃ c' ∈ c :: cs, c'.Commits ip) :=
          fun hnow => hfollow ⟨hnow, hlater⟩
        rw [Classical.not_imp] at hnow
        refine ⟨[], c, cs, rfl, hnow.1, ?_⟩
        intro c' hc' hcommits
        exact hnow.2 ⟨c', hc', hcommits⟩
      · obtain ⟨pre, c', post, hsplit, hrest⟩ := ih hlater
        exact ⟨c :: pre, c', post, by rw [hsplit, List.cons_append], hrest⟩
  obtain ⟨pre, c, post, rfl, ⟨e, he, hid⟩, hno⟩ := hturn
  obtain ⟨_, htables⟩ := hp.foldl_delStep
  have hgone : e ∉ ((((pre ++ c :: post).foldl IpaCtx.delStep s)).fltTbl
      (lanWanTbl ip)).entries := by
    rw [(htables _).1, List.mem_filter]
    rintro ⟨_, hnot⟩
    apply of_decide_eq_true hnot
    rw [hid]
    exact List.mem_map.mpr ⟨c, List.mem_append_right _ List.mem_cons_self, rfl⟩
  refine ⟨?_, ?_⟩
  · intro heq
    apply hgone
    rw [← heq, List.foldl_append, hw_foldl_delStep hno]
    have hp' := hp
    rw [List.map_append] at hp'
    apply hp'.mem_hw he (hstart ▸ he)
    -- the handles before it are others
    intro c' hc' hid'
    have hnodup := hp'.nodup
    rw [List.nodup_append] at hnodup
    have hsame : c'.hdl = c.hdl := by
      rw [hid] at hid'
      exact (Option.some.inj hid').symm
    exact hnodup.2.2 c'.hdl (List.mem_map_of_mem hc') c.hdl
      (List.mem_map_of_mem List.mem_cons_self) hsame
  · intro heq
    rw [heq] at hgone
    exact hgone he

theorem commitsFollow_iff {s : IpaCtx} {ip : IpaIpType} {cs : List DelCall} :
    s.CommitsFollow ip cs ↔ ∀ (i : ℕ) (c : DelCall), cs[i]? = some c →
      (∃ e ∈ (s.fltTbl (lanWanTbl ip)).entries, e.id = some c.hdl) →
        ∃ (j : ℕ) (c' : DelCall), i ≤ j ∧ cs[j]? = some c' ∧ c'.Commits ip := by
  induction cs with
  | nil =>
    constructor
    · intro _ i c hc
      cases hc
    · intro _
      trivial
  | cons c cs ih =>
    constructor
    · rintro ⟨hnow, hlater⟩ i c' hc' hin
      cases i with
      | zero =>
        cases hc'
        obtain ⟨c'', hc'', hcommits⟩ := hnow hin
        obtain ⟨j, hj⟩ := List.getElem?_of_mem hc''
        exact ⟨j, c'', Nat.zero_le j, hj, hcommits⟩
      | succ i =>
        obtain ⟨j, c'', hij, hj, hcommits⟩ := ih.mp hlater i c' hc' hin
        exact ⟨j+1, c'', Nat.succ_le_succ hij, hj, hcommits⟩
    · intro hall
      refine ⟨?_, ih.mpr ?_⟩
      · intro hin
        obtain ⟨j, c', _, hj, hcommits⟩ := hall 0 c rfl hin
        exact ⟨c', List.mem_of_getElem? hj, hcommits⟩
      · intro i c' hc' hin
        obtain ⟨j, c'', hij, hj, hcommits⟩ := hall (i+1) c' hc' hin
        obtain ⟨j', rfl⟩ : ∃ j', j = j'+1 := ⟨j - 1, by omega⟩
        exact ⟨j', c'', by omega, hj, hcommits⟩

end IpaCtx

end X00TDCellular
