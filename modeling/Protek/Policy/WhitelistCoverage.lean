import Protek.Policy.Desired

/-! # Which whitelist rules hold

A rule is honoured for the spellings that the match recognises. A value written
with a prefix length is never recognised by an address or a network rule, and a
bare address is recognised by its text or by a network that contains it.
-/
namespace Protek.Policy
open Foundation Foundation.PyText Foundation.IpAddress Foundation.Clock Protek.Store

/-- The eligible values that reach a rule are bare addresses, spelled as some `ip` rule
or inside some `cidr` rule where an `ip` rule names them. -/
def Recognisable (T : CharTable) (db : Db) (now : Instant) : Prop :=
  ∀ v, (∃ r ∈ db.activeRows, r.value = v) → Eligible T db now v →
    (ipAddress v = none → ∀ w ∈ listWhitelist db now, ¬ Blocks v w) ∧
    (∀ a, ipAddress v = some a → ∀ w ∈ listWhitelist db now, w.kind = .ip → Covers w a →
      (∃ w' ∈ listWhitelist db now, w'.kind = .ip ∧ w'.value = v) ∨
      ∃ w' ∈ listWhitelist db now, w'.kind = .cidr ∧ Covers w' a)

/-- Every active rule is an address or a network that `add_whitelist` accepted. -/
def AddressRules (U : CaseMap) (T : CharTable) (db : Db) (now : Instant) : Prop :=
  ∀ w ∈ listWhitelist db now, (w.kind = .ip ∨ w.kind = .cidr) ∧
    ∃ kind raw, checkWhitelist U T kind raw = .ok (w.kind,w.value)

section
variable {U : CaseMap} {T : CharTable} {db : Db} {now : Instant} {v : String}

theorem bare_of_spelled (h : AddressRules U T db now) {w : WhitelistRule} (hw : w ∈ listWhitelist db now)
    (hk : w.kind = .ip) : ∃ a, ipAddress w.value = some a := by
  obtain ⟨_,kind,raw,hc⟩ := h w hw
  rw [hk] at hc
  exact ipAddress_of_checkWhitelist hc

theorem not_whitelisted_iff (h : AddressRules U T db now) :
    whitelisted U db now v = none ↔
      ¬ ((∃ w ∈ listWhitelist db now, w.kind = .ip ∧ w.value = v) ∨
        ∃ a, ipAddress v = some a ∧ ∃ w ∈ listWhitelist db now, w.kind = .cidr ∧ Covers w a) := by
  rw [← Option.not_isSome_iff_eq_none, whitelisted, matchesWhitelist_isSome]
  apply not_congr
  constructor
  · rintro ⟨w,hw,hm⟩
    rcases (ruleMatches_iff (h w hw).1).mp hm with ⟨hk,hv⟩ | ⟨hk,a,n,ha,hn,hin⟩
    · exact Or.inl ⟨w,hw,hk,hv⟩
    · exact Or.inr ⟨a,ha,w,hw,hk,Or.inr ⟨hk,n,hn,hin⟩⟩
  · rintro (⟨w,hw,hk,hv⟩ | ⟨a,ha,w,hw,hk,hcov⟩)
    · exact ⟨w,hw,(ruleMatches_iff (h w hw).1).mpr (Or.inl ⟨hk,hv⟩)⟩
    · rcases hcov with ⟨hip,_⟩ | ⟨_,n,hn,hin⟩
      · rw [hk] at hip
        cases hip
      · exact ⟨w,hw,(ruleMatches_iff (h w hw).1).mpr (Or.inr ⟨hk,a,n,ha,hn,hin⟩)⟩

/-- A value with a prefix length passes every address and network rule. -/
theorem not_whitelisted_of_masked (h : AddressRules U T db now) (hv : ipAddress v = none) :
    whitelisted U db now v = none := by
  rw [not_whitelisted_iff h]
  rintro (⟨w,hw,hk,rfl⟩ | ⟨a,ha,_⟩)
  · obtain ⟨a,ha⟩ := bare_of_spelled h hw hk
    rw [hv] at ha
    cases ha
  · rw [hv] at ha
    cases ha

end

/-- No desired value reaches a whitelisted address exactly when the eligible values
that reach a rule are spelled so that the match recognises them. -/
theorem whitelist_respected_iff (U : CaseMap) (T : CharTable) (db : Db) (now : Instant) (h : AddressRules U T db now) :
    (∀ d ∈ (desiredFromDb U T db now).1, ∀ w ∈ listWhitelist db now, ¬ Blocks d.value w) ↔ Recognisable T db now := by
  constructor
  · intro hgood v hrow helig
    have hpush : whitelisted U db now v = none → ∀ w ∈ listWhitelist db now, ¬ Blocks v w := by
      intro hw
      obtain ⟨d,hd,rfl⟩ := mem_desiredFromDb.mpr ⟨hrow,helig,hw⟩
      exact hgood d hd
    refine ⟨fun hbare => hpush (not_whitelisted_of_masked h hbare),fun a ha w hw hk hcov => ?_⟩
    by_contra hno
    have hnone : whitelisted U db now v = none := by
      rw [not_whitelisted_iff h]
      rintro (hspelled | ⟨b,hb,hin⟩)
      · exact hno (Or.inl hspelled)
      · rw [ha] at hb
        cases hb
        exact hno (Or.inr hin)
    exact hpush hnone w hw ((blocks_iff_of_ipAddress ha w).mpr hcov)
  · intro hrec d hd w hw hblocks
    obtain ⟨hrow,helig,hnone⟩ := mem_desiredFromDb.mp ⟨d,hd,rfl⟩
    obtain ⟨hmasked,hbare⟩ := hrec d.value hrow helig
    rw [not_whitelisted_iff h] at hnone
    cases ha : ipAddress d.value with
    | none => exact hmasked ha w hw hblocks
    | some a =>
      have hcov : Covers w a := (blocks_iff_of_ipAddress ha w).mp hblocks
      rcases (h w hw).1 with hk | hk
      · rcases hbare a ha w hw hk hcov with hspelled | hin
        · exact hnone (Or.inl hspelled)
        · exact hnone (Or.inr ⟨a,ha,hin⟩)
      · exact hnone (Or.inr ⟨a,ha,w,hw,hk,hcov⟩)

/-! ## The host network that the external API stores -/

def hostRule : WhitelistRule := { id := 1, kind := .ip, value := "192.0.2.7" }

def hostRow : DecisionRow where
  id := 0
  originSource := "external:atom"
  lapiId := 1
  value := "192.0.2.7/32"
  scope := "Ip"
  type := "ban"
  scenario := "external/manual"
  origin := "external"
  duration := "4h"
  untilAt := none
  firstSeenAt := ""
  lastSeenAt := ""
  deletedAt := none

/-- The operator whitelists 192.0.2.7, and a script bans it. -/
def hostDb : Db :=
  { Db.empty.upsertDecision hostRow id Db.key_id with whitelist := ⟨[hostRule],List.nodup_singleton _⟩ }

theorem hostDb_rules : listWhitelist hostDb 0 = [hostRule] := by decide

theorem hostDb_addressRules : AddressRules CaseMap.ascii CharTable.ascii hostDb 0 := by
  intro w hw
  rw [hostDb_rules, List.mem_singleton] at hw
  subst hw
  exact ⟨Or.inl rfl,"ip","192.0.2.7",rfl⟩

theorem whitelist_respected_host :
    AddressRules CaseMap.ascii CharTable.ascii hostDb 0 ∧
    ((∀ d ∈ (desiredFromDb CaseMap.ascii CharTable.ascii hostDb 0).1, ∀ w ∈ listWhitelist hostDb 0,
      ¬ Blocks d.value w) ↔ Recognisable CharTable.ascii hostDb 0) :=
  ⟨hostDb_addressRules,whitelist_respected_iff CaseMap.ascii CharTable.ascii hostDb 0 hostDb_addressRules⟩

theorem hostRule_blocked : Blocks "192.0.2.7/32" hostRule := by
  have haddr : (ipAddress "192.0.2.7").isSome = true := by decide
  obtain ⟨a,ha⟩ := Option.isSome_iff_exists.mp haddr
  have hin : (ipNetwork "192.0.2.7/32").any (fun n => (ipAddress "192.0.2.7").any (fun a => n.contains a)) = true := by
    decide
  obtain ⟨n,hn,hc⟩ := Option.any_eq_true _ _ |>.mp hin
  rw [ha] at hc
  exact ⟨n,hn,a,hc,Or.inl ⟨rfl,a,ha,rfl,rfl⟩⟩

/-- The whitelisted address is pushed as its host network. -/
theorem whitelisted_host_pushed :
    ¬ ∀ (U : CaseMap) (T : CharTable) (db : Db) (now : Instant), AddressRules U T db now →
      ∀ d ∈ (desiredFromDb U T db now).1, ∀ w ∈ listWhitelist db now, ¬ Blocks d.value w := by
  intro h
  have hlist : (desiredFromDb CaseMap.ascii CharTable.ascii hostDb 0).1 =
      [⟨"192.0.2.7/32","Ip","external/manual","external","external:atom",1⟩] := by decide
  have hbad := h CaseMap.ascii CharTable.ascii hostDb 0 hostDb_addressRules
    ⟨"192.0.2.7/32","Ip","external/manual","external","external:atom",1⟩ (by rw [hlist]; exact List.mem_singleton_self _)
    hostRule (by rw [hostDb_rules]; exact List.mem_singleton_self _)
  exact hbad hostRule_blocked

end Protek.Policy
