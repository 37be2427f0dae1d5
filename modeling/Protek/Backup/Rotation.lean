import Mathlib.Data.String.Basic
import Protek.Backup.Schedule
import Protek.Foundation.CompactTime
import Protek.Foundation.Ranking

/-! # Rotation and the restore test

Bundles are told apart by age through the order of their keys. Under one kind that order is
the order of time; across kinds the name of the kind comes first.
-/
namespace Protek.Backup
open Foundation Foundation.Clock Foundation.PyText Foundation.Ranking Protek.Store

/-! ## Keys -/

def Kind.name : Kind → String
  | .daily => "daily"
  | .monthly => "monthly"
  | .manual => "manual"
  | .test => "test"

def Kind.folder (kind : Kind) : String := kind.name ++ "/"

/-- `_key_for` -/
def keyFor (kind : Kind) (ts : Instant) : String := kind.folder ++ "protek-" ++ compactStamp ts ++ ".bin"

/-- `list_keys` of a backend that holds these keys. -/
def listKeys (keys : List String) (start : String) : List String :=
  (keys.filter (fun k => startsWith k start)).insertionSort (fun a b => a ≤ b)

/-- `l[:stop]` -/
def sliceTo {α : Type} (l : List α) (stop : ℤ) : List α := if stop < 0 then l.take (l.length - stop.natAbs) else l.take stop.natAbs

/-- The keys that one round of the retention deletes. -/
def evicted (keys : List String) (start : String) (keep : ℤ) : List String :=
  if keep < (listKeys keys start).length then sliceTo (listKeys keys start) (-keep) else []

structure Retention where
  keys : List String
  removed : List (String × ℕ)

def Retention.turn (r : Retention) (kind : Kind) (keep : ℤ) : Retention :=
  let gone := evicted r.keys kind.folder keep
  ⟨r.keys.filter (· ∉ gone),r.removed ++ [(kind.name,gone.length)]⟩

/-- `apply_retention`, `none` where `int` raises. -/
def applyRetention (T : CharTable) (settings : Settings) (keys : List String) : Option Retention := do
  let dailyKeep ← pyInt T (orElse (settings "backup.daily_keep") "30")
  let monthlyKeep ← pyInt T (orElse (settings "backup.monthly_keep") "12")
  return (((⟨keys,[]⟩ : Retention).turn .daily dailyKeep).turn .monthly monthlyKeep).turn .test 7

/-- `max` of strings: the first of the greatest. -/
def pyMax : List String → Option String
  | [] => none
  | k :: ks => some (ks.foldl (fun m x => if m < x then x else m) k)

/-- The key that `restore_test` downloads; without one it raises. -/
def restoreSource (keys : List String) : Option String :=
  pyMax (listKeys keys Kind.daily.folder ++ listKeys keys Kind.monthly.folder ++ listKeys keys Kind.manual.folder)

/-! ## Bundles -/

/-- A bundle that `run_backup` has written. -/
structure Bundle where
  kind : Kind
  writtenAt : Instant
  kind_ne : kind ≠ .test
  bound : writtenAt < endOfTime

def Bundle.key (b : Bundle) : String := keyFor b.kind b.writtenAt

/-- Bundles at distinct seconds. -/
def Apart (bundles : List Bundle) : Prop := (bundles.map (fun b => b.writtenAt / second)).Nodup

/-- The place of a kind in the order of the names. -/
def Kind.rank : Kind → ℕ
  | .daily => 0
  | .manual => 1
  | .monthly => 2
  | .test => 3

/-- The keeps of the rotated kinds. -/
def keepOf (dailyKeep monthlyKeep : ℕ) : Kind → Option ℕ
  | .daily => some dailyKeep
  | .monthly => some monthlyKeep
  | _ => none

/-- The newer bundles of the kind of one. -/
def newer (bundles : List Bundle) (b : Bundle) : ℕ := bundles.countP (fun b' => b'.kind = b.kind ∧ b.writtenAt < b'.writtenAt)

/-- A bundle stays exactly when its kind is not rotated, or has fewer newer ones than its keep. -/
def RotatedByAge (dailyKeep monthlyKeep : ℕ) (bundles : List Bundle) (keys : List String) : Prop :=
  keys ⊆ bundles.map Bundle.key ∧
    ∀ b ∈ bundles, b.key ∈ keys ↔ ∀ keep ∈ keepOf dailyKeep monthlyKeep b.kind, newer bundles b < keep

def Newest (bundles : List Bundle) (b : Bundle) : Prop := b ∈ bundles ∧ ∀ b' ∈ bundles, b'.writtenAt ≤ b.writtenAt

/-! ## The order of the keys -/

theorem toList_keyFor (kind : Kind) (t : Instant) :
    (keyFor kind t).toList = kind.folder.toList ++ ("protek-".toList ++ ((compactStamp t).toList ++ ".bin".toList)) := by
  rw [keyFor, String.toList_append, String.toList_append, String.toList_append, List.append_assoc, List.append_assoc]

/-- The first two letters tell the folders apart. -/
theorem take_keyFor (kind : Kind) (t : Instant) : (keyFor kind t).toList.take 2 = kind.folder.toList.take 2 := by
  rw [toList_keyFor, List.take_append_of_le_length (by cases kind <;> decide)]

theorem folders_apart : ∀ kind kind' : Kind, kind.rank < kind'.rank → kind.folder.toList.take 2 < kind'.folder.toList.take 2 := by
  intro kind kind'
  cases kind <;> cases kind' <;> decide

theorem rank_injective : Function.Injective Kind.rank := by
  intro kind kind' h
  cases kind <;> cases kind' <;> first | rfl | cases h

theorem keyFor_lt_of_rank {kind kind' : Kind} {t u : Instant} (h : kind.rank < kind'.rank) : keyFor kind t < keyFor kind' u := by
  have hlt := folders_apart kind kind' h
  have hlen : ∀ k v, ((keyFor k v).toList.take 2).length = 2 := by
    intro k v
    rw [take_keyFor]
    cases k <;> decide
  rw [← take_keyFor kind t, ← take_keyFor kind' u] at hlt
  change (keyFor kind t).toList < (keyFor kind' u).toList
  rw [← List.take_append_drop 2 (keyFor kind t).toList, ← List.take_append_drop 2 (keyFor kind' u).toList]
  exact append_lt_append (by rw [hlen, hlen]) (Or.inl hlt)

theorem keyFor_lt (kind : Kind) {t u : Instant} (h : t / second < u / second) (ht : t < endOfTime) (hu : u < endOfTime) :
    keyFor kind t < keyFor kind u := by
  change (keyFor kind t).toList < (keyFor kind u).toList
  rw [toList_keyFor, toList_keyFor]
  refine List.append_left_lt (List.append_left_lt ?_)
  exact append_lt_append (by rw [length_compactStamp ht, length_compactStamp hu]) (Or.inl (compactStamp_lt h hu))

theorem keyFor_lt_iff (kind : Kind) {t u : Instant} (ht : t < endOfTime) (hu : u < endOfTime) :
    keyFor kind t < keyFor kind u ↔ t / second < u / second := by
  refine ⟨fun h => ?_,fun h => keyFor_lt kind h ht hu⟩
  rcases Nat.lt_trichotomy (t / second) (u / second) with hlt | heq | hgt
  · exact hlt
  · rw [keyFor, compactStamp_congr heq] at h
    exact absurd h (lt_irrefl _)
  · exact absurd h (keyFor_lt kind hgt hu ht).asymm

/-! ## The keys of bundles -/

section Keys
variable {bundles : List Bundle}

theorem eq_of_second (h : Apart bundles) {b b' : Bundle} (hb : b ∈ bundles) (hb' : b' ∈ bundles)
    (hsame : b.writtenAt / second = b'.writtenAt / second) : b = b' := List.inj_on_of_nodup_map h hb hb' hsame

/-- Of two bundles at distinct seconds the one written earlier has the earlier second. -/
theorem second_lt_iff (h : Apart bundles) {b b' : Bundle} (hb : b ∈ bundles) (hb' : b' ∈ bundles) :
    b.writtenAt / second < b'.writtenAt / second ↔ b.writtenAt < b'.writtenAt := by
  constructor
  · intro hlt
    by_contra hle
    exact absurd (Nat.div_le_div_right (not_lt.mp hle)) (not_le.mpr hlt)
  · intro hlt
    refine lt_of_le_of_ne (Nat.div_le_div_right hlt.le) (fun hsame => ?_)
    rw [eq_of_second h hb hb' hsame] at hlt
    exact lt_irrefl _ hlt

theorem key_lt_iff (h : Apart bundles) {b b' : Bundle} (hb : b ∈ bundles) (hb' : b' ∈ bundles) (hkind : b'.kind = b.kind) :
    b.key < b'.key ↔ b.writtenAt < b'.writtenAt := by
  rw [Bundle.key, Bundle.key, hkind, keyFor_lt_iff b.kind b.bound b'.bound, second_lt_iff h hb hb']

theorem key_inj (h : Apart bundles) {b b' : Bundle} (hb : b ∈ bundles) (hb' : b' ∈ bundles) (hkey : b.key = b'.key) : b = b' := by
  have hkind : b'.kind = b.kind := by
    rcases Nat.lt_trichotomy b.kind.rank b'.kind.rank with hlt | heq | hgt
    · exact absurd hkey (keyFor_lt_of_rank hlt).ne
    · exact (rank_injective heq).symm
    · exact absurd hkey (keyFor_lt_of_rank hgt).ne'
  have hle : ¬ b.writtenAt < b'.writtenAt := by
    rw [← key_lt_iff h hb hb' hkind, hkey]
    exact lt_irrefl _
  have hge : ¬ b'.writtenAt < b.writtenAt := by
    rw [← key_lt_iff h hb' hb hkind.symm, hkey]
    exact lt_irrefl _
  exact eq_of_second h hb hb' (by rw [le_antisymm (not_lt.mp hge) (not_lt.mp hle)])

theorem nodup_keys (h : Apart bundles) : (bundles.map Bundle.key).Nodup :=
  List.Nodup.map_on (fun _ hb _ hb' hkey => key_inj h hb hb' hkey) (List.Nodup.of_map _ h)

theorem startsWith_key {b : Bundle} {kind : Kind} : startsWith b.key kind.folder = true ↔ b.kind = kind := by
  constructor
  · intro h
    obtain ⟨rest,hrest⟩ := List.isPrefixOf_iff_prefix.mp h
    have htake : b.kind.folder.toList.take 2 = kind.folder.toList.take 2 := by
      rw [← take_keyFor b.kind b.writtenAt]
      change b.key.toList.take 2 = _
      rw [← hrest, List.take_append_of_le_length (by cases kind <;> decide)]
    rcases Nat.lt_trichotomy b.kind.rank kind.rank with hlt | heq | hgt
    · exact absurd htake (folders_apart _ _ hlt).ne
    · exact rank_injective heq
    · exact absurd htake (folders_apart _ _ hgt).ne'
  · rintro rfl
    rw [Bundle.key, keyFor, String.append_assoc, String.append_assoc]
    exact startsWith_append _ _

theorem mem_listKeys {kind : Kind} {k : String} :
    k ∈ listKeys (bundles.map Bundle.key) kind.folder ↔ ∃ b ∈ bundles, b.kind = kind ∧ b.key = k := by
  rw [listKeys, List.mem_insertionSort, List.mem_filter, List.mem_map]
  constructor
  · rintro ⟨⟨b,hb,rfl⟩,hstart⟩
    exact ⟨b,hb,startsWith_key.mp hstart,rfl⟩
  · rintro ⟨b,hb,hkind,rfl⟩
    exact ⟨⟨b,hb,rfl⟩,startsWith_key.mpr hkind⟩

theorem countP_listKeys (h : Apart bundles) {b : Bundle} (hb : b ∈ bundles) :
    (listKeys (bundles.map Bundle.key) b.kind.folder).countP (fun k => b.key < k) = newer bundles b := by
  rw [listKeys, (List.perm_insertionSort _ _).countP_eq, List.countP_filter, List.countP_map, newer]
  refine List.countP_congr (fun b' hb' => ?_)
  rw [Function.comp_apply, Bool.and_eq_true, decide_eq_true_iff, decide_eq_true_iff, startsWith_key, And.comm]
  exact and_congr_right (fun hkind => key_lt_iff h hb hb' hkind)

end Keys

/-! ## A round of the rotation -/

section Rounds
variable {bundles : List Bundle} {keep : ℕ}

theorem evicted_eq (keys : List String) (start : String) (hkeep : 0 < keep) :
    evicted keys start keep = (listKeys keys start).take ((listKeys keys start).length - keep) := by
  rw [evicted]
  split_ifs with hmore
  · rw [sliceTo, if_pos (Int.neg_neg_of_pos (Int.natCast_pos.mpr hkeep)), Int.natAbs_neg, Int.natAbs_natCast]
  · rw [Nat.sub_eq_zero_of_le (Int.ofNat_le.mp (not_lt.mp hmore)), List.take_zero]

theorem mem_evicted_iff (h : Apart bundles) (hkeep : 0 < keep) {b : Bundle} (hb : b ∈ bundles) (kind : Kind) :
    b.key ∈ evicted (bundles.map Bundle.key) kind.folder keep ↔ b.kind = kind ∧ keep ≤ newer bundles b := by
  rw [evicted_eq _ _ hkeep]
  by_cases hkind : b.kind = kind
  · subst hkind
    have hsorted : (listKeys (bundles.map Bundle.key) b.kind.folder).Pairwise (· < ·) :=
      ascending_insertionSort ((nodup_keys h).filter _)
    rw [mem_take_iff hsorted (mem_listKeys.mpr ⟨b,hb,rfl,rfl⟩), countP_listKeys h hb]
    exact (and_iff_right rfl).symm
  · refine iff_of_false (fun hmem => ?_) (fun hand => hkind hand.1)
    obtain ⟨b',hb',hkind',hkey⟩ := mem_listKeys.mp (List.mem_of_mem_take hmem)
    rw [key_inj h hb' hb hkey] at hkind'
    exact hkind hkind'

/-- The bundles that a round leaves. -/
def kept (bundles : List Bundle) (kind : Kind) (keep : ℕ) : List Bundle :=
  bundles.filter (fun b => ¬ (b.kind = kind ∧ keep ≤ newer bundles b))

theorem mem_kept {kind : Kind} {b : Bundle} : b ∈ kept bundles kind keep ↔ b ∈ bundles ∧ (b.kind = kind → newer bundles b < keep) := by
  rw [kept, List.mem_filter, decide_eq_true_iff, not_and, not_le]

theorem turn_keys (h : Apart bundles) (hkeep : 0 < keep) (kind : Kind) {r : Retention} (hr : r.keys = bundles.map Bundle.key) :
    (r.turn kind keep).keys = (kept bundles kind keep).map Bundle.key := by
  rw [Retention.turn, kept, hr, List.filter_map]
  refine congrArg (List.map Bundle.key) (List.filter_congr (fun b hb => ?_))
  rw [Function.comp_apply]
  exact decide_eq_decide.mpr (not_congr (mem_evicted_iff h hkeep hb kind))

theorem Apart.kept (h : Apart bundles) (kind : Kind) (keep : ℕ) : Apart (kept bundles kind keep) :=
  List.Nodup.sublist (List.filter_sublist.map _) h

/-- A round leaves the other kinds alone. -/
theorem newer_kept (kind : Kind) {b : Bundle} (hkind : b.kind ≠ kind) : newer (kept bundles kind keep) b = newer bundles b := by
  rw [newer, kept, List.countP_filter, newer]
  refine List.countP_congr (fun b' _ => ?_)
  simp only [Bool.and_eq_true, decide_eq_true_iff]
  refine ⟨fun hand => hand.1,fun hsame => ⟨hsame,fun hgone => hkind ?_⟩⟩
  rw [← hsame.1, hgone.1]

end Rounds

theorem applyRetention_rotates {T : CharTable} {settings : Settings} {bundles : List Bundle} {dailyKeep monthlyKeep : ℕ}
    (h : Apart bundles) (hdaily : pyInt T (orElse (settings "backup.daily_keep") "30") = some (dailyKeep : ℤ))
    (hmonthly : pyInt T (orElse (settings "backup.monthly_keep") "12") = some (monthlyKeep : ℤ))
    (hd : 1 ≤ dailyKeep) (hm : 1 ≤ monthlyKeep) :
    ∃ r, applyRetention T settings (bundles.map Bundle.key) = some r ∧ RotatedByAge dailyKeep monthlyKeep bundles r.keys := by
  have hrun : applyRetention T settings (bundles.map Bundle.key) = some ((((⟨bundles.map Bundle.key,[]⟩ : Retention).turn
      .daily dailyKeep).turn .monthly monthlyKeep).turn .test (7 : ℕ)) := by
    rw [applyRetention, hdaily, hmonthly]
    rfl
  refine ⟨_,hrun,?_⟩
  have hfirst := h.kept .daily dailyKeep
  have hkeys := turn_keys (hfirst.kept .monthly monthlyKeep) (by decide : 0 < 7) .test
    (turn_keys hfirst hm .monthly (turn_keys (r := ⟨bundles.map Bundle.key,[]⟩) h hd .daily rfl))
  rw [hkeys]
  have hmem : ∀ b ∈ bundles, b ∈ kept (kept (kept bundles .daily dailyKeep) .monthly monthlyKeep) .test 7 ↔
      ∀ keep ∈ keepOf dailyKeep monthlyKeep b.kind, newer bundles b < keep := by
    intro b hb
    rw [mem_kept, mem_kept, mem_kept, and_iff_right hb, and_iff_left (fun htest => absurd htest b.kind_ne)]
    cases hkind : b.kind with
    | daily => simp [keepOf]
    | monthly =>
      rw [newer_kept .daily (by rw [hkind]; decide)]
      simp [keepOf]
    | manual => simp [keepOf]
    | test => exact absurd hkind b.kind_ne
  have hsub : kept (kept (kept bundles .daily dailyKeep) .monthly monthlyKeep) .test 7 ⊆ bundles :=
    fun b hb => (mem_kept.mp (mem_kept.mp (mem_kept.mp hb).1).1).1
  refine ⟨List.map_subset _ hsub,fun b hb => ?_⟩
  rw [← hmem b hb, List.mem_map]
  refine ⟨fun ⟨b',hb',hkey⟩ => ?_,fun hmem => ⟨b,hmem,rfl⟩⟩
  rw [← key_inj h (hsub hb') hb hkey]
  exact hb'

/-! ## The restore test -/

theorem pyMax_eq_some_iff {keys : List String} {m : String} : pyMax keys = some m ↔ m ∈ keys ∧ ∀ k ∈ keys, k ≤ m := by
  cases keys with
  | nil => exact iff_of_false (fun h => nomatch h) (fun h => List.not_mem_nil h.1)
  | cons k rest =>
    obtain ⟨hmem,hmax⟩ := foldl_max rest k
    rw [pyMax, Option.some.injEq]
    constructor
    · rintro rfl
      exact ⟨hmem,hmax⟩
    · rintro ⟨hm,hge⟩
      exact le_antisymm (hge _ hmem) (hmax m hm)

theorem restoreSource_eq_some_iff {bundles : List Bundle} {b : Bundle} (hb : b ∈ bundles) :
    restoreSource (bundles.map Bundle.key) = some b.key ↔ ∀ b' ∈ bundles, b'.key ≤ b.key := by
  have hmem : ∀ k, k ∈ listKeys (bundles.map Bundle.key) Kind.daily.folder ++ listKeys (bundles.map Bundle.key) Kind.monthly.folder ++
      listKeys (bundles.map Bundle.key) Kind.manual.folder ↔ ∃ b' ∈ bundles, b'.key = k := by
    intro k
    rw [List.mem_append, List.mem_append, mem_listKeys, mem_listKeys, mem_listKeys]
    constructor
    · rintro ((⟨b',hb',-,hk⟩ | ⟨b',hb',-,hk⟩) | ⟨b',hb',-,hk⟩) <;> exact ⟨b',hb',hk⟩
    · rintro ⟨b',hb',hk⟩
      cases hkind : b'.kind with
      | daily => exact Or.inl (Or.inl ⟨b',hb',hkind,hk⟩)
      | monthly => exact Or.inl (Or.inr ⟨b',hb',hkind,hk⟩)
      | manual => exact Or.inr ⟨b',hb',hkind,hk⟩
      | test => exact absurd hkind b'.kind_ne
  rw [restoreSource, pyMax_eq_some_iff, hmem]
  refine ⟨fun h b' hb' => h.2 b'.key ((hmem _).mpr ⟨b',hb',rfl⟩),fun h => ⟨⟨b,hb,rfl⟩,fun k hk => ?_⟩⟩
  obtain ⟨b',hb',rfl⟩ := (hmem k).mp hk
  exact h b' hb'

/-- The newest bundle is the one under test if no kind named later is there. -/
theorem restoreSource_newest_iff {bundles : List Bundle} {b : Bundle} (h : Newest bundles b) :
    restoreSource (bundles.map Bundle.key) = some b.key ↔ ∀ b' ∈ bundles, b'.kind.rank ≤ b.kind.rank := by
  obtain ⟨hb,hnew⟩ := h
  rw [restoreSource_eq_some_iff hb]
  refine forall₂_congr (fun b' hb' => ⟨fun hle => ?_,fun hrank => ?_⟩)
  · by_contra hlt
    exact absurd hle (not_le.mpr (keyFor_lt_of_rank (not_le.mp hlt)))
  · rcases lt_or_eq_of_le hrank with hlt | heq
    · exact (keyFor_lt_of_rank hlt).le
    · rw [← not_lt, Bundle.key, Bundle.key, rank_injective heq, keyFor_lt_iff b.kind b.bound b'.bound, not_lt]
      exact Nat.div_le_div_right (hnew b' hb')

/-- Rotation and restore test agree on age exactly when the newest bundle is of the kind named last. -/
theorem rotation_and_restore_agree {T : CharTable} {settings : Settings} {bundles : List Bundle} {dailyKeep monthlyKeep : ℕ}
    (h : Apart bundles) (hdaily : pyInt T (orElse (settings "backup.daily_keep") "30") = some (dailyKeep : ℤ))
    (hmonthly : pyInt T (orElse (settings "backup.monthly_keep") "12") = some (monthlyKeep : ℤ))
    (hd : 1 ≤ dailyKeep) (hm : 1 ≤ monthlyKeep) :
    ((∃ r, applyRetention T settings (bundles.map Bundle.key) = some r ∧ RotatedByAge dailyKeep monthlyKeep bundles r.keys) ∧
        ∀ b, Newest bundles b → restoreSource (bundles.map Bundle.key) = some b.key) ↔
      ∀ b, Newest bundles b → ∀ b' ∈ bundles, b'.kind.rank ≤ b.kind.rank := by
  rw [and_iff_right (applyRetention_rotates h hdaily hmonthly hd hm)]
  exact forall₂_congr (fun b hb => restoreSource_newest_iff hb)

/-- A monthly bundle and the daily bundle of the day after. -/
def monthlyThenDaily : List Bundle :=
  [⟨.monthly,1793491200000000,by decide,by decide⟩,⟨.daily,1793577600000000,by decide,by decide⟩]

theorem rotation_and_restore_agree_example :
    ((∃ r, applyRetention CharTable.ascii (fun _ => none) (monthlyThenDaily.map Bundle.key) = some r ∧
        RotatedByAge 30 12 monthlyThenDaily r.keys) ∧
      ∀ b, Newest monthlyThenDaily b → restoreSource (monthlyThenDaily.map Bundle.key) = some b.key) ↔
        ∀ b, Newest monthlyThenDaily b → ∀ b' ∈ monthlyThenDaily, b'.kind.rank ≤ b.kind.rank :=
  rotation_and_restore_agree (by unfold Apart; decide) (by decide) (by decide) (by decide) (by decide)

/-- The restore test downloads the monthly bundle, and the newer daily one is never verified. -/
theorem older_monthly_tested : Apart monthlyThenDaily ∧ Newest monthlyThenDaily (monthlyThenDaily.get ⟨1,by decide⟩) ∧
    restoreSource (monthlyThenDaily.map Bundle.key) = some (monthlyThenDaily.get ⟨0,by decide⟩).key ∧
      (monthlyThenDaily.get ⟨0,by decide⟩).writtenAt < (monthlyThenDaily.get ⟨1,by decide⟩).writtenAt := by
  refine ⟨by unfold Apart; decide,⟨by simp [monthlyThenDaily],?_⟩,?_,by decide⟩
  · intro b' hb'
    simp only [monthlyThenDaily, List.mem_cons, List.not_mem_nil, or_false] at hb'
    rcases hb' with rfl | rfl <;> decide
  · decide +kernel

end Protek.Backup
