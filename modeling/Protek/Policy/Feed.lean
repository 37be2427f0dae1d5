import Protek.Policy.Desired

/-! # The published feed

`_feed_entries` publishes the active decisions of this instance to third parties, less
the values that a whitelist rule covers. It asks the rules with the ASN that stands in
the decision and without a country; the push path asks with what the geo cache has.
-/
namespace Protek.Policy
open Foundation Foundation.PyText Foundation.Clock Protek.Store

structure FeedEntry where
  ip : String
  scope : String
  scenario : String
  origin : String
  firstSeen : String
  untilAt : Option String
  deriving DecidableEq, Repr

def commaList (raw : String) : List String := ((split raw ',').map strip).filter (fun s => s ≠ "")

/-- `_filter_scenarios`. -/
def feedScenarios (settings : String → Option String) : List String :=
  commaList (orElse (settings "intel.publish.scenarios") "")

/-- `_filter_excluded_origins`. -/
def feedExcludes (settings : String → Option String) : List String :=
  commaList (orElse (settings "intel.publish.exclude_origins") "lists:")

def THIRD_PARTY_ORIGINS : List String := ["capi","cscli-import","lists"]

section
variable (U : CaseMap)

def excluded (origin : String) (excludes : List String) : Bool :=
  if origin = "" then false
  else if U.lower origin ∈ THIRD_PARTY_ORIGINS then true
  else excludes.any (fun pat =>
    if endsWith pat ":" ∨ pat = "*" then
      startsWith origin (rstripChar pat '*') || origin = rstripChar (rstripChar pat '*') ':'
    else pat = origin)

/-- The SELECT of the feed: the newest 10000 rows that are not another's intelligence. -/
def feedRows (db : Db) : List DecisionRow :=
  let scenarios := feedScenarios db.settings
  ((db.activeRows.filter (fun r => sqlLower r.origin ∉ THIRD_PARTY_ORIGINS ∧
    (scenarios = [] ∨ r.scenario ∈ scenarios))).insertionSort (fun a b => b.id ≤ a.id)).take 10000

def feedEntry (r : DecisionRow) : FeedEntry := ⟨r.value,r.scope,r.scenario,r.origin,r.firstSeenAt,r.untilAt⟩

def feedEntries (db : Db) (now : Instant) : List FeedEntry :=
  (((feedRows db).filter (fun r => excluded U r.origin (feedExcludes db.settings) = false)).filter (fun r =>
    (matchesWhitelist U r.value r.asn "" (listWhitelist db now)).isNone)).map feedEntry

end

/-! ## The two suppressions -/

/-- The push path has the value and leaves it out because of a rule. -/
def Suppressed (U : CaseMap) (T : CharTable) (db : Db) (now : Instant) (v : String) : Prop :=
  (∃ d ∈ selectRows T db now, d.value = v) ∧ (whitelisted U db now v).isSome = true

def NamesAsn (U : CaseMap) (asn : String) (w : WhitelistRule) : Prop :=
  w.kind = .asn ∧ asn ≠ "" ∧ U.upper w.value = U.upper asn

def NamesCountry (U : CaseMap) (country : String) (w : WhitelistRule) : Prop :=
  w.kind = .country ∧ country ≠ "" ∧ U.upper w.value = U.upper country

/-- The rule is about addresses and covers the value. -/
def AddressMatch (U : CaseMap) (v : String) (w : WhitelistRule) : Prop := ruleMatches U v "" "" w = true

/-- The rows that the feed publishes unless a rule covers them. -/
def Publishable (U : CaseMap) (db : Db) (r : DecisionRow) : Prop :=
  r ∈ feedRows db ∧ excluded U r.origin (feedExcludes db.settings) = false

/-- Where only the geo cache puts a publishable value under an ASN or a country rule, the
decision itself names the ASN of a rule. -/
def Stamped (U : CaseMap) (T : CharTable) (db : Db) (now : Instant) : Prop :=
  ∀ r, Publishable U db r → qualifies T db now r.value = true →
    (∀ w ∈ listWhitelist db now, ¬ AddressMatch U r.value w) →
    (∃ w ∈ listWhitelist db now, NamesAsn U (asnOf db r.value) w ∨ NamesCountry U (countryOf db r.value) w) →
    ∃ w ∈ listWhitelist db now, NamesAsn U r.asn w

section
variable {U : CaseMap} {T : CharTable} {db : Db} {now : Instant}

/-- A rule matches through the address, the ASN or the country. -/
theorem ruleMatches_split {v asn country : String} {w : WhitelistRule} : ruleMatches U v asn country w = true ↔
    AddressMatch U v w ∨ NamesAsn U asn w ∨ NamesCountry U country w := by
  unfold AddressMatch NamesAsn NamesCountry ruleMatches
  cases hk : w.kind with
  | ip => simp
  | cidr => simp
  | asn => simp
  | country => simp

theorem matches_feed_iff {r : DecisionRow} : (matchesWhitelist U r.value r.asn "" (listWhitelist db now)).isSome = true ↔
    ∃ w ∈ listWhitelist db now, AddressMatch U r.value w ∨ NamesAsn U r.asn w := by
  rw [matchesWhitelist_isSome]
  refine exists_congr (fun w => and_congr_right (fun _ => ?_))
  rw [ruleMatches_split]
  have hno : ¬ NamesCountry U "" w := fun h => h.2.1 rfl
  rw [or_iff_left hno]

theorem whitelisted_iff {v : String} : (whitelisted U db now v).isSome = true ↔
    ∃ w ∈ listWhitelist db now, AddressMatch U v w ∨ NamesAsn U (asnOf db v) w ∨ NamesCountry U (countryOf db v) w := by
  rw [whitelisted, matchesWhitelist_isSome]
  exact exists_congr (fun w => and_congr_right (fun _ => ruleMatches_split))

theorem mem_feedEntries {v : String} : (∃ e ∈ feedEntries U db now, e.ip = v) ↔
    ∃ r, Publishable U db r ∧ r.value = v ∧
      ¬ (matchesWhitelist U r.value r.asn "" (listWhitelist db now)).isSome = true := by
  constructor
  · rintro ⟨e,he,rfl⟩
    obtain ⟨r,hr,rfl⟩ := List.mem_map.mp he
    obtain ⟨hcandidate,hnone⟩ := List.mem_filter.mp hr
    obtain ⟨hfetched,hkept⟩ := List.mem_filter.mp hcandidate
    exact ⟨r,⟨hfetched,of_decide_eq_true hkept⟩,rfl,by simpa using hnone⟩
  · rintro ⟨r,⟨hfetched,hkept⟩,rfl,hnone⟩
    refine ⟨feedEntry r,List.mem_map_of_mem (List.mem_filter.mpr ⟨?_,by simpa using hnone⟩),rfl⟩
    exact List.mem_filter.mpr ⟨hfetched,decide_eq_true hkept⟩

theorem active_of_mem_feedRows {r : DecisionRow} (h : r ∈ feedRows db) : r ∈ db.activeRows := by
  have hsorted := (List.mem_insertionSort _).mp (List.mem_of_mem_take h)
  exact (List.mem_filter.mp hsorted).1

end

/-- No suppressed value is published exactly when the decisions carry the ASN stamps that
stand in for the geo cache. -/
theorem feed_agrees_iff (U : CaseMap) (T : CharTable) (db : Db) (now : Instant) :
    (∀ v, Suppressed U T db now v → ¬ ∃ e ∈ feedEntries U db now, e.ip = v) ↔ Stamped U T db now := by
  constructor
  · intro h r hpub hq haddress hgeo
    have hactive := active_of_mem_feedRows hpub.1
    have hselected := mem_selectRows_value.mpr ⟨⟨r,hactive,rfl⟩,hq⟩
    have hpush : (whitelisted U db now r.value).isSome = true := by
      obtain ⟨w,hw,hnames⟩ := hgeo
      exact whitelisted_iff.mpr ⟨w,hw,Or.inr hnames⟩
    have hfeed : (matchesWhitelist U r.value r.asn "" (listWhitelist db now)).isSome = true := by
      by_contra hno
      exact h r.value ⟨hselected,hpush⟩ (mem_feedEntries.mpr ⟨r,hpub,rfl,hno⟩)
    obtain ⟨w,hw,hmatch | hnames⟩ := matches_feed_iff.mp hfeed
    · exact absurd hmatch (haddress w hw)
    · exact ⟨w,hw,hnames⟩
  · rintro h v ⟨hselected,hpush⟩ hentry
    obtain ⟨r,hpub,rfl,hno⟩ := mem_feedEntries.mp hentry
    obtain ⟨_,hq⟩ := mem_selectRows_value.mp hselected
    refine hno (matches_feed_iff.mpr ?_)
    by_cases haddress : ∃ w ∈ listWhitelist db now, AddressMatch U r.value w
    · obtain ⟨w,hw,hmatch⟩ := haddress
      exact ⟨w,hw,Or.inl hmatch⟩
    · have hnone : ∀ w ∈ listWhitelist db now, ¬ AddressMatch U r.value w := fun w hw hmatch => haddress ⟨w,hw,hmatch⟩
      obtain ⟨w,hw,hmatch | hnames⟩ := whitelisted_iff.mp hpush
      · exact absurd hmatch (hnone w hw)
      · obtain ⟨w',hw',hasn⟩ := h r hpub hq hnone ⟨w,hw,hnames⟩
        exact ⟨w',hw',Or.inr hasn⟩

/-! ## A partner's country -/

def countryRule : WhitelistRule := { id := 1, kind := .country, value := "DE" }

def partnerRow : DecisionRow where
  id := 0
  originSource := "local"
  lapiId := 7
  value := "198.51.100.7"
  scope := "Ip"
  type := "ban"
  scenario := "crowdsecurity/ssh-bf"
  origin := "crowdsec"
  duration := "4h"
  untilAt := none
  firstSeenAt := ""
  lastSeenAt := ""
  deletedAt := none
  asn := "AS64500"

/-- An address of Germany is banned, and the operator whitelists the country. -/
def partnerDb : Db :=
  { Db.empty.upsertDecision partnerRow id Db.key_id with
    whitelist := ⟨[countryRule],List.nodup_singleton _⟩
    geoCache := ⟨[⟨"198.51.100.7","AS64500","DE"⟩],List.nodup_singleton _⟩ }

/-- Reconcile leaves the address alone, and the feed publishes it. -/
theorem whitelisted_country_published :
    ¬ ∀ (U : CaseMap) (T : CharTable) (db : Db) (now : Instant) (v : String), Suppressed U T db now v →
      ¬ ∃ e ∈ feedEntries U db now, e.ip = v := by
  intro h
  have hselected : (selectRows .ascii partnerDb 0).map DesiredRow.value = ["198.51.100.7"] := by decide
  have hpush : (whitelisted .ascii partnerDb 0 "198.51.100.7").isSome = true := by decide
  have hfeed : (feedEntries .ascii partnerDb 0).map FeedEntry.ip = ["198.51.100.7"] := by decide
  refine h .ascii .ascii partnerDb 0 "198.51.100.7" ⟨?_,hpush⟩ ?_
  · exact List.mem_map.mp (by rw [hselected]; exact List.mem_singleton_self _)
  · exact List.mem_map.mp (by rw [hfeed]; exact List.mem_singleton_self _)

end Protek.Policy
