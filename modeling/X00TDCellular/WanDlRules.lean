import Mathlib.Data.Fintype.Defs
import X00TDCellular.FltEquation

/-! The six WAN-DL rules: the match equations that the port writes out, and the
attributes that its comments name. -/

namespace X00TDCellular
open AddressPrefix

/-- In the order of the FILTER_INSTALLED_NOTIF list. -/
inductive WanDlRule
  | icmpV4
  | mcastV4
  | bcastV4
  | icmpV6
  | mcastV6
  | lnklclV6
  deriving DecidableEq, Repr

namespace WanDlRule

def all : List WanDlRule := [.icmpV4, .mcastV4, .bcastV4, .icmpV6, .mcastV6, .lnklclV6]

theorem mem_all (r : WanDlRule) : r ∈ all := by
  cases r <;> decide

instance : Fintype WanDlRule := ⟨⟨all, by decide⟩, mem_all⟩

def ip : WanDlRule → IpaIpType
  | .icmpV4 => .v4
  | .mcastV4 => .v4
  | .bcastV4 => .v4
  | .icmpV6 => .v6
  | .mcastV6 => .v6
  | .lnklclV6 => .v6

theorem ip_ne_max (r : WanDlRule) : r.ip ≠ .max := by
  cases r <;> decide

/-- One installer adds the ICMP rules, the other one the rest. -/
theorem mem_mcast_iff (r : WanDlRule) :
    r ∈ [WanDlRule.mcastV4, .bcastV4, .mcastV6, .lnklclV6] ↔
      r ∉ [WanDlRule.icmpV4, .icmpV6] := by
  cases r <;> decide

end WanDlRule

def protocolRuleEq (protocol : UInt8) : IpfltriRuleEq :=
  { ruleEqBitmap := eqBit 1, protocolEq := some protocol }

def meq32RuleEq (offset : Int8) (value mask : UInt32) : IpfltriRuleEq :=
  { ruleEqBitmap := eqBit 2, offsetMeq32 := [{ offset := offset, mask := mask, value := value }] }

/-- `eq_attrib` of each rule in `install_icmp_passthrough_rule` and
`install_mcast_bcast_filter_rules`. -/
def WanDlRule.eqAttrib : WanDlRule → IpfltriRuleEq
  | .icmpV4 => protocolRuleEq 1
  | .mcastV4 => meq32RuleEq 12 0xE0000000 0xF0000000
  | .bcastV4 => meq32RuleEq 12 0xFFFFFFFF 0xFFFFFFFF
  | .icmpV6 => protocolRuleEq 58
  | .mcastV6 => meq32RuleEq 24 0xFF000000 0xFF000000
  | .lnklclV6 => meq32RuleEq 24 0xFE800000 0xFFC00000

theorem WanDlRule.eq_of_eqAttrib : ∀ r r' : WanDlRule, r.ip = r'.ip →
    r.eqAttrib = r'.eqAttrib → r = r' := by
  decide

end X00TDCellular
