import Mathlib.Data.List.Sort
import Protek.Foundation.Fnmatch
import Protek.Policy.Desired

/-! # Which decisions a target gets

`_filter_desired_for_bouncer`: the options of a target that narrow the desired list
before the diff. The regular expressions of `re` are a parameter, `none` for a pattern
that does not compile, and so is the answer of the reputation module, `none` where it
raises.
-/
namespace Protek.Targets
open Foundation Foundation.PyText Foundation.Fnmatch Protek.Policy

/-- `re.compile` with the search of the compiled pattern. -/
abbrev Compile := String → Option (String → Bool)

/-- `reputation.bulk_compute_for_min`. -/
abbrev BulkComputeForMin := ℤ → Option (List String)

inductive SourceFilter
  | csv (text : String)
  | names (l : List String)
  deriving DecidableEq, Repr

structure TargetFilters where
  origins : List String := []
  excludeOrigins : List String := []
  maxEntries : Option ℤ := none
  minReputation : Option ℤ := none
  sourceFilter : Option SourceFilter := none
  scenarioFilter : Option String := none
  deriving DecidableEq, Repr

/-- An option that is unset or 0. -/
def isZero (n : Option ℤ) : Bool := n.getD 0 = 0

namespace TargetFilters

/-- `allowed_sources`: the names without the white space around them. -/
def allowedSources (f : TargetFilters) : List String :=
  let names := match f.sourceFilter with
    | none => []
    | some (.csv text) => split text ','
    | some (.names l) => l
  (names.map strip).filter (fun s => s ≠ "")

/-- No option is set; a source filter that allows nothing is none, but still an option. -/
def isOff (f : TargetFilters) : Bool :=
  f.origins = [] && f.excludeOrigins = [] && isZero f.maxEntries && isZero f.minReputation &&
    (f.sourceFilter = none || f.sourceFilter = some (.csv "") || f.sourceFilter = some (.names [])) &&
    orElse f.scenarioFilter "" = ""

def originOk (f : TargetFilters) (o : String) : Bool :=
  if f.excludeOrigins.any (fnmatchcase o) then false
  else f.origins = [] || f.origins.any (fnmatchcase o)

def sourceOk (f : TargetFilters) (s : String) : Bool := f.allowedSources = [] || s ∈ f.allowedSources

/-- An invalid pattern filters nothing. -/
def scenarioOk (compile : Compile) (f : TargetFilters) (s : String) : Bool :=
  match f.scenarioFilter with
  | none => true
  | some p => if p = "" then true else match compile p with
    | none => true
    | some search => search s

end TargetFilters

/-- `l[:n]`, from the end for a negative `n`. -/
def slice (l : List DesiredRow) (n : ℤ) : List DesiredRow :=
  if n < 0 then l.take (l.length - n.natAbs) else l.take n.natAbs

/-- `out.sort(key=lapi_id, reverse=True)` and the first `n` of it, if there are more. -/
def newest (out : List DesiredRow) (n : ℤ) : List DesiredRow :=
  if n ≠ 0 ∧ n < out.length then slice (out.insertionSort (fun a b => b.lapiId ≤ a.lapiId)) n else out

def keepSources (f : TargetFilters) (out : List DesiredRow) : List DesiredRow :=
  if f.allowedSources = [] then out else out.filter (fun d => d.originSource ∈ f.allowedSources)

def keepScenarios (compile : Compile) (f : TargetFilters) (out : List DesiredRow) : List DesiredRow :=
  match f.scenarioFilter with
  | none => out
  | some p => if p = "" then out else match compile p with
    | none => out
    | some search => out.filter (fun d => search d.scenario)

def keepReputable (reputation : BulkComputeForMin) (f : TargetFilters) (out : List DesiredRow) : List DesiredRow :=
  if isZero f.minReputation then out else match reputation (f.minReputation.getD 0) with
    | none => out
    | some qualifying => out.filter (fun d => d.value ∈ qualifying)

def filterDesiredForBouncer (compile : Compile) (reputation : BulkComputeForMin) (f : TargetFilters)
    (desired : List DesiredRow) : List DesiredRow :=
  if f.isOff then desired
  else
    let out := desired.filter (fun d => f.originOk d.origin)
    let out := keepSources f out
    let out := keepScenarios compile f out
    let out := keepReputable reputation f out
    newest out (f.maxEntries.getD 0)

/-! ## The filters as a test -/

/-- The tests of the filters that look at one decision alone. -/
def TargetFilters.passes (compile : Compile) (f : TargetFilters) (scenario origin source : String) : Bool :=
  f.originOk origin && f.sourceOk source && f.scenarioOk compile scenario

section
variable {compile : Compile} {reputation : BulkComputeForMin} {f : TargetFilters} {desired : List DesiredRow}

theorem TargetFilters.passes_of_isOff (h : f.isOff = true) (scenario origin source : String) :
    f.passes compile scenario origin source = true := by
  unfold TargetFilters.isOff at h
  simp only [Bool.and_eq_true, decide_eq_true_eq, Bool.or_eq_true] at h
  obtain ⟨⟨⟨⟨⟨ho,he⟩,_⟩,_⟩,hs⟩,hp⟩ := h
  have horigin : f.originOk origin = true := by simp [originOk, ho, he]
  have hsource : f.sourceOk source = true := by
    have hallowed : f.allowedSources = [] := by
      unfold allowedSources
      rcases hs with (hs | hs) | hs
      · simp [hs]
      · simp only [hs]
        decide
      · simp [hs]
    simp [sourceOk, hallowed]
  have hscenario : f.scenarioOk compile scenario = true := by
    unfold scenarioOk
    cases hf : f.scenarioFilter with
    | none => rfl
    | some p =>
      have hnil : p = "" := by
        by_contra hne
        rw [hf, orElse_some hne] at hp
        exact hne hp
      simp [hnil]
  simp [passes, horigin, hsource, hscenario]

theorem keepSources_eq (out : List DesiredRow) : keepSources f out = out.filter (fun d => f.sourceOk d.originSource) := by
  unfold keepSources TargetFilters.sourceOk
  by_cases h : f.allowedSources = []
  · simp [h]
  · simp [h]

theorem keepScenarios_eq (out : List DesiredRow) :
    keepScenarios compile f out = out.filter (fun d => f.scenarioOk compile d.scenario) := by
  unfold keepScenarios TargetFilters.scenarioOk
  cases f.scenarioFilter with
  | none => simp
  | some p =>
    by_cases hp : p = ""
    · simp [hp]
    · cases hc : compile p with
      | none => simp [hp, hc]
      | some search => simp [hp, hc]

/-- Without a cap and a reputation the filters are one test of each decision. -/
theorem filterDesiredForBouncer_eq (hmax : isZero f.maxEntries = true) (hrep : isZero f.minReputation = true) :
    filterDesiredForBouncer compile reputation f desired =
      desired.filter (fun d => f.passes compile d.scenario d.origin d.originSource) := by
  unfold filterDesiredForBouncer
  cases hoff : f.isOff with
  | true =>
    have hall : ∀ d ∈ desired, f.passes compile d.scenario d.origin d.originSource = true :=
      fun d _ => TargetFilters.passes_of_isOff hoff d.scenario d.origin d.originSource
    simp [List.filter_eq_self.mpr hall]
  | false =>
    have hzero : f.maxEntries.getD 0 = 0 := by simpa [isZero] using hmax
    have hrest : ∀ out, newest (keepReputable reputation f out) (f.maxEntries.getD 0) = out := by
      intro out
      simp [newest, hzero, keepReputable, hrep]
    simp only [Bool.false_eq_true, if_false, hrest]
    rw [keepScenarios_eq, keepSources_eq, List.filter_filter, List.filter_filter]
    apply List.filter_congr
    intro d _
    unfold TargetFilters.passes
    rw [Bool.and_comm (f.originOk d.origin && _), Bool.and_comm (f.originOk d.origin), Bool.and_assoc]

end
end Protek.Targets
