import Mathlib.Data.List.Dedup
import Mathlib.Data.List.Sort
import Mathlib.Data.String.Basic
import Protek.Connection.Consumers
import Protek.Connection.EnvFile
import Protek.Foundation.Json

/-! # Saving the connection settings

`save` writes the setting `connection.saved_keys`, the environment and the `local` source,
and swaps the file in last. Where a step raises, only the temporary file is taken back.
-/
namespace Protek.Connection
open Foundation Foundation.PyText Foundation.Json

def strOf : Value → Option String
  | .str s => some s
  | _ => none

/-- `_saved_keys`, from the text of the setting. -/
def savedKeys (setting : Option String) : List String :=
  match loads (orElse setting "[]") with
  | some (.arr items) => (items.filterMap strOf).filter (· ∈ managed)
  | some (.obj members) => (members.map Prod.fst).filter (· ∈ managed)
  | _ => []

/-- `sorted(set(_saved_keys()) | set(values))`. -/
def keysAfter (setting : Option String) (values : Values) : List String :=
  (savedKeys setting ++ values.map Prod.fst).dedup.insertionSort (· ≤ ·)

def keysText (setting : Option String) (values : Values) : String :=
  dumps (.arr ((keysAfter setting values).map Value.str))

theorem mem_keysAfter {setting : Option String} {values : Values} {k : String} :
    k ∈ keysAfter setting values ↔ k ∈ savedKeys setting ∨ k ∈ values.map Prod.fst := by
  rw [keysAfter, List.mem_insertionSort, List.mem_dedup, List.mem_append]

/-- The setting that is written has the keys from before and the new ones. -/
theorem mem_savedKeys_keysText {setting : Option String} {values : Values} {k : String} :
    k ∈ savedKeys (some (keysText setting values)) ↔
      (k ∈ savedKeys setting ∨ k ∈ values.map Prod.fst) ∧ k ∈ managed := by
  have hplain : (Value.arr ((keysAfter setting values).map Value.str)).Plain := by
    refine plainAll_iff.mpr (fun v hv => ?_)
    obtain ⟨t,-,rfl⟩ := List.mem_map.mp hv
    trivial
  have hne : keysText setting values ≠ "" := by
    intro hempty
    have hread := loads_dumps hplain
    rw [← keysText, hempty, show loads "" = none by decide] at hread
    cases hread
  have hitems : ((keysAfter setting values).map Value.str).filterMap strOf = keysAfter setting values := by
    rw [List.filterMap_map]
    exact List.filterMap_some
  have hread : savedKeys (some (keysText setting values)) = (keysAfter setting values).filter (· ∈ managed) := by
    rw [savedKeys, orElse_some hne, keysText, loads_dumps hplain]
    dsimp only
    rw [hitems]
  rw [hread, List.mem_filter, mem_keysAfter, decide_eq_true_eq]

/-- The `local` row of `sources`. -/
structure LocalRow where
  url : String
  apiKey : String
  enabled : ℤ
  lastError : Option String
  backoffUntil : Option String
  createdAt : String
  deriving DecidableEq, Repr

/-- What a save writes to; the temporary files are listed newest first. -/
structure World where
  file : Option String
  temps : List String
  setting : Option String
  env : Env
  source : Option LocalRow

/-- Where a save may raise. -/
inductive SaveStep
  | readFile
  | makeTemp
  | writeTemp
  | readSetting
  | writeSetting
  | setEnviron (k : String)
  | seedSource
  | clearBackoff
  | replace
  deriving DecidableEq, Repr

structure Outcome where
  world : World
  raised : Bool

/-- What follows runs unless something was raised. -/
def Outcome.next (o : Outcome) (f : World → Outcome) : Outcome := if o.raised then o else f o.world

section
variable (now : String) (raises : SaveStep → Bool) (values : Values)

/-- `os.unlink(tmp)`. -/
def unlinkTemp (w : World) : World := { w with temps := w.temps.tail }

/-- `_prepare_env`. -/
def prepareTemp (w : World) : Outcome :=
  if raises .readFile ∨ raises .makeTemp then ⟨w,true⟩
  else
    let text := prepareEnv values w.file
    if raises .writeTemp then ⟨unlinkTemp { w with temps := "" :: w.temps },true⟩
    else ⟨{ w with temps := text :: w.temps },false⟩

/-- The loop over `os.environ[k] = v`, which takes no NUL. -/
def setEnviron : Values → World → Outcome
  | [], w => ⟨w,false⟩
  | (k,v) :: rest, w =>
    if '\x00' ∈ v.toList ∨ raises (.setEnviron k) then ⟨w,true⟩
    else setEnviron rest { w with env := Function.update w.env k (some v) }

/-- `seed_local_source`. -/
def seededRow (env : Env) (row : Option LocalRow) : Option LocalRow :=
  match seedLocalSource env with
  | none => row
  | some (url,key) =>
    match row with
    | some r => some { r with url := url, apiKey := key }
    | none => some ⟨url,key,1,some "",none,now⟩

/-- `seed_local_source`, and the update whose errors are only logged. -/
def reseededRow (env : Env) (row : Option LocalRow) : Option LocalRow :=
  if raises .clearBackoff then seededRow now env row
  else (seededRow now env row).map (fun r => { r with backoffUntil := none, lastError := some "" })

def reseedLocalSource (w : World) : Outcome :=
  if raises .seedSource then ⟨w,true⟩ else ⟨{ w with source := reseededRow now raises w.env w.source },false⟩

/-- `os.replace(tmp, env_file())`. -/
def replaceFile (w : World) : Outcome :=
  if raises .replace then ⟨w,true⟩ else ⟨{ w with file := w.temps.head?, temps := w.temps.tail },false⟩

def changesLapi : Bool := values.any (fun p => p.1 ∈ lapiKeys)

/-- The `try` of `save`. -/
def saveBody (w : World) : Outcome :=
  if raises .readSetting ∨ raises .writeSetting then ⟨w,true⟩
  else
    (setEnviron raises values { w with setting := some (keysText w.setting values) }).next (fun w =>
      (if changesLapi values then reseedLocalSource now raises w else ⟨w,false⟩).next (replaceFile raises))

/-- The `except` of `save`. -/
def cleanUp (o : Outcome) : Outcome := if o.raised then ⟨unlinkTemp o.world,true⟩ else o

def save (w : World) : Outcome :=
  if values = [] then ⟨w,false⟩
  else (prepareTemp raises values w).next (fun w => cleanUp (saveBody now raises values w))

end

/-! ## What a save has done where it stops -/

section
variable (now : String) (raises : SaveStep → Bool) (values : Values)

/-- Nothing is written yet. -/
def StopsEarly : Prop := raises .readFile ∨ raises .makeTemp ∨ raises .writeTemp ∨ raises .readSetting ∨ raises .writeSetting

def settable (p : String × String) : Bool := decide ('\x00' ∉ p.2.toList) && !raises (.setEnviron p.1)

/-- The values that reach `os.environ`. -/
def settled : Values := values.takeWhile (settable raises)

/-- The save raises after it has written the setting. -/
def StopsLate : Prop := values ≠ [] ∧ ¬ StopsEarly raises ∧
  (values.all (settable raises) = false ∨ (changesLapi values = true ∧ raises .seedSource = true) ∨ raises .replace = true)

/-- All that a save writes before it stops is there already. -/
structure WrittenBefore (w : World) : Prop where
  setting : w.setting = some (keysText w.setting values)
  environ : ∀ p ∈ settled raises values, w.env p.1 = some p.2
  source : values.all (settable raises) = true → changesLapi values = true → raises .seedSource = false →
    reseededRow now raises w.env w.source = w.source

end

def putAll (env : Env) (values : Values) : Env := values.foldl (fun env p => Function.update env p.1 (some p.2)) env

theorem putAll_apply {values : Values} (hdict : (values.map Prod.fst).Nodup) (env : Env) (k : String) :
    putAll env values k = (values.get k).or (env k) := by
  induction values generalizing env with
  | nil => rfl
  | cons p rest ih =>
    obtain ⟨hp,hrest⟩ := List.nodup_cons.mp hdict
    have hstep : putAll env (p :: rest) k = (Values.get rest k).or (Function.update env p.1 (some p.2) k) := ih hrest _
    rw [hstep]
    by_cases hk : p.1 = k
    · subst hk
      have hnone : Values.get rest p.1 = none := by
        unfold Values.get
        rw [Option.map_eq_none_iff, List.find?_eq_none]
        exact fun q hq hqk => hp (List.mem_map.mpr ⟨q,hq,by simpa using hqk⟩)
      rw [hnone, Function.update_self, Values.get, List.find?_cons_of_pos (by simp)]
      rfl
    · rw [Function.update_of_ne (Ne.symm hk), Values.get, Values.get, List.find?_cons_of_neg (by simpa using hk)]

/-- The environment stays as it was exactly when it already had every value. -/
theorem putAll_eq_self {values : Values} (hdict : (values.map Prod.fst).Nodup) {env : Env} :
    putAll env values = env ↔ ∀ p ∈ values, env p.1 = some p.2 := by
  constructor
  · intro h p hp
    rw [← h, putAll_apply hdict, get_of_mem hdict hp, Option.some_or]
  · intro h
    funext k
    rw [putAll_apply hdict]
    cases hget : values.get k with
    | none => exact Option.none_or
    | some v =>
      obtain ⟨p,hp,rfl⟩ := Option.map_eq_some_iff.mp hget
      have hkey : p.1 = k := by simpa using List.find?_some hp
      rw [Option.some_or, ← hkey]
      exact (h p (List.mem_of_find?_eq_some hp)).symm

section
variable {now : String} {raises : SaveStep → Bool} {values : Values} {w : World}

theorem setEnviron_eq (values : Values) (w : World) : setEnviron raises values w =
    ⟨{ w with env := putAll w.env (settled raises values) },!values.all (settable raises)⟩ := by
  induction values generalizing w with
  | nil => rfl
  | cons p rest ih =>
    obtain ⟨k,v⟩ := p
    unfold setEnviron
    by_cases hstop : '\x00' ∈ v.toList ∨ raises (.setEnviron k) = true
    · have hset : settable raises (k,v) = false := by
        rcases hstop with hnul | hraise
        · simp [settable, hnul]
        · simp [settable, hraise]
      rw [if_pos hstop, settled, List.takeWhile_cons_of_neg (by simp [hset]), List.all_cons, hset]
      rfl
    · have hset : settable raises (k,v) = true := by
        obtain ⟨hnul,hraise⟩ := not_or.mp hstop
        simp [settable, hnul, hraise]
      rw [if_neg hstop, ih, settled, settled, List.takeWhile_cons_of_pos hset, List.all_cons, hset, Bool.true_and]
      rfl

theorem settled_nodup (hdict : (values.map Prod.fst).Nodup) : ((settled raises values).map Prod.fst).Nodup :=
  hdict.sublist ((List.takeWhile_sublist _).map _)

theorem settled_eq_self (h : values.all (settable raises) = true) : settled raises values = values :=
  List.takeWhile_eq_self_iff.mpr (List.all_eq_true.mp h)

/-- The setting and the environment, once the loop over the values is done with. -/
def written (raises : SaveStep → Bool) (values : Values) (w : World) : World :=
  { w with setting := some (keysText w.setting values), env := putAll w.env (settled raises values) }

/-- The source row before the file is swapped. -/
def writtenSource (now : String) (raises : SaveStep → Bool) (values : Values) (w : World) : Option LocalRow :=
  if changesLapi values then reseededRow now raises (putAll w.env values) w.source else w.source

/-- The world with the new temporary file. -/
def prepared (values : Values) (w : World) : World := { w with temps := prepareEnv values w.file :: w.temps }

theorem prepareTemp_stops (h : raises .readFile = true ∨ raises .makeTemp = true ∨ raises .writeTemp = true) :
    prepareTemp raises values w = ⟨w,true⟩ := by
  unfold prepareTemp
  split
  · rfl
  · rename_i hno
    have hwrite : raises .writeTemp = true := (or_assoc.mpr h).resolve_left hno
    simp only [hwrite, if_true]
    rfl

theorem save_prepared (hne : values ≠ []) (h : ¬ (raises .readFile = true ∨ raises .makeTemp = true ∨ raises .writeTemp = true)) :
    save now raises values w = cleanUp (saveBody now raises values (prepared values w)) := by
  simp only [not_or, Bool.not_eq_true] at h
  have hmakes : prepareTemp raises values w = ⟨prepared values w,false⟩ := by
    unfold prepareTemp
    simp only [h.1, h.2.1, h.2.2]
    rfl
  unfold save
  rw [if_neg hne, hmakes]
  rfl

theorem save_early (hne : values ≠ []) (h : StopsEarly raises) : save now raises values w = ⟨w,true⟩ := by
  by_cases htemp : raises .readFile = true ∨ raises .makeTemp = true ∨ raises .writeTemp = true
  · unfold save
    rw [if_neg hne, prepareTemp_stops htemp]
    rfl
  · have hsetting : raises .readSetting = true ∨ raises .writeSetting = true := by
      simp only [not_or] at htemp
      simpa [StopsEarly, htemp] using h
    rw [save_prepared hne htemp, saveBody, if_pos hsetting]
    rfl

/-- A save that stops late leaves what it has written. -/
theorem save_late (hne : values ≠ []) (hearly : ¬ StopsEarly raises) :
    save now raises values w =
      if values.all (settable raises) = false ∨ (changesLapi values = true ∧ raises .seedSource = true) then
        ⟨written raises values w,true⟩
      else if raises .replace then ⟨{ written raises values w with source := writtenSource now raises values w },true⟩
      else ⟨{ written raises values w with source := writtenSource now raises values w, file := savedFile values w.file },false⟩ := by
  simp only [StopsEarly, not_or] at hearly
  have hsetting : ¬ (raises .readSetting = true ∨ raises .writeSetting = true) := not_or.mpr hearly.2.2.2
  rw [save_prepared hne (by simp [hearly]), saveBody, if_neg hsetting, setEnviron_eq]
  cases hall : values.all (settable raises) with
  | false =>
    rw [if_pos (Or.inl rfl)]
    rfl
  | true =>
    have hsaved : savedFile values w.file = some (prepareEnv values w.file) := if_neg hne
    have hsource : writtenSource now raises values w =
        if changesLapi values then reseededRow now raises (putAll w.env (settled raises values)) w.source else w.source := by
      rw [writtenSource, settled_eq_self hall]
    rw [hsaved, hsource]
    unfold reseedLocalSource replaceFile
    cases changesLapi values <;> cases raises .seedSource <;> cases raises .replace <;> rfl

theorem written_eq_self (hdict : (values.map Prod.fst).Nodup) : written raises values w = w ↔
    w.setting = some (keysText w.setting values) ∧ ∀ p ∈ settled raises values, w.env p.1 = some p.2 := by
  rw [← putAll_eq_self (settled_nodup hdict)]
  constructor
  · intro h
    exact ⟨(congrArg World.setting h).symm,congrArg World.env h⟩
  · rintro ⟨hsetting,henv⟩
    rw [written, ← hsetting, henv]

/-- Where nothing stops a save but the file, what it has written was all there before exactly when it changes nothing. -/
theorem sourced_eq_self (hdict : (values.map Prod.fst).Nodup) (hall : values.all (settable raises) = true)
    (hseed : ¬ (changesLapi values = true ∧ raises .seedSource = true)) :
    { written raises values w with source := writtenSource now raises values w } = w ↔ WrittenBefore now raises values w := by
  have hwritten := @written_eq_self raises values w hdict
  have hsettled : settled raises values = values := settled_eq_self hall
  -- the source row is reseeded from the environment that the loop leaves
  have hsource : putAll w.env values = w.env → changesLapi values = true →
      writtenSource now raises values w = reseededRow now raises w.env w.source := by
    intro henv hlapi
    rw [writtenSource, if_pos hlapi, henv]
  constructor
  · intro hworld
    have henv : putAll w.env values = w.env := hsettled ▸ congrArg World.env hworld
    refine ⟨(congrArg World.setting hworld).symm,?_,fun _ hlapi _ => ?_⟩
    · rw [hsettled]
      exact (putAll_eq_self hdict).mp henv
    · rw [← hsource henv hlapi]
      exact congrArg World.source hworld
  · rintro ⟨hsetting,henviron,hrow⟩
    have hsame : written raises values w = w := hwritten.mpr ⟨hsetting,henviron⟩
    have henv : putAll w.env values = w.env := (putAll_eq_self hdict).mpr (hsettled ▸ henviron)
    have hunchanged : writtenSource now raises values w = w.source := by
      cases hlapi : changesLapi values with
      | false => rw [writtenSource, hlapi, if_neg (by decide)]
      | true =>
        have hraise : raises .seedSource = false := by simpa [hlapi] using hseed
        rw [hsource henv hlapi, hrow hall hlapi hraise]
    rw [hsame, hunchanged]

/-- A save that returns has the file and the environment of its values. -/
theorem save_returned (hdict : (values.map Prod.fst).Nodup) (h : (save now raises values w).raised = false) :
    (save now raises values w).world.file = savedFile values w.file ∧
    appliedEnv w.env values = some (save now raises values w).world.env := by
  by_cases hne : values = []
  · have hsave : save now raises values w = ⟨w,false⟩ := if_pos hne
    rw [hsave, savedFile, if_pos hne, hne]
    exact ⟨rfl,rfl⟩
  · have hearly : ¬ StopsEarly raises := by
      intro hearly
      rw [save_early hne hearly] at h
      cases h
    rw [save_late hne hearly] at h ⊢
    split at h
    · cases h
    · rename_i hlate
      rw [if_neg hlate]
      split at h
      · cases h
      · rename_i hreplace
        have hall : values.all (settable raises) = true := by
          by_contra hfalse
          exact hlate (Or.inl (by simpa using hfalse))
        rw [if_neg hreplace]
        refine ⟨rfl,?_⟩
        have hnul : values.any (fun p => '\x00' ∈ p.2.toList) = false := by
          refine List.any_eq_false.mpr (fun p hp => ?_)
          have hset := List.all_eq_true.mp hall p hp
          unfold settable at hset
          have hno := of_decide_eq_true (Bool.and_eq_true _ _ ▸ hset).1
          simpa using hno
        rw [appliedEnv_eq_some hnul, Option.some_inj]
        funext k
        change _ = putAll w.env (settled raises values) k
        rw [settled_eq_self hall, putAll_apply hdict]

end

/-- A save that raises leaves everything as it was exactly when it stops before it writes
anything, or all that it wrote was so already. -/
theorem failed_save_changes_nothing (now : String) (raises : SaveStep → Bool) (values : Values) (w : World)
    (h : (values.map Prod.fst).Nodup) :
    ((save now raises values w).raised = true → (save now raises values w).world = w) ↔
      (StopsLate raises values → WrittenBefore now raises values w) := by
  by_cases hne : values = []
  · have hsave : save now raises values w = ⟨w,false⟩ := if_pos hne
    rw [hsave]
    exact ⟨fun _ hlate => absurd hne hlate.1,fun _ _ => rfl⟩
  by_cases hearly : StopsEarly raises
  · rw [save_early hne hearly]
    exact ⟨fun _ hlate => absurd hearly hlate.2.1,fun _ _ => rfl⟩
  have hwritten := @written_eq_self raises values w h
  rw [save_late hne hearly]
  by_cases hmid : values.all (settable raises) = false ∨ (changesLapi values = true ∧ raises .seedSource = true)
  · rw [if_pos hmid]
    have hlate : StopsLate raises values := ⟨hne,hearly,or_assoc.mp (Or.inl hmid)⟩
    constructor
    · intro hsame _
      obtain ⟨hsetting,henv⟩ := hwritten.mp (hsame rfl)
      refine ⟨hsetting,henv,fun hall hlapi hseed => ?_⟩
      rcases hmid with hnone | ⟨-,hraise⟩
      · rw [hnone] at hall
        cases hall
      · rw [hraise] at hseed
        cases hseed
    · intro hbefore _
      exact hwritten.mpr ⟨(hbefore hlate).setting,(hbefore hlate).environ⟩
  · rw [if_neg hmid]
    obtain ⟨hsome,hseed⟩ := not_or.mp hmid
    have hall : values.all (settable raises) = true := by simpa using hsome
    cases hreplace : raises .replace with
    | false =>
      refine ⟨fun _ hlate => ?_,fun _ hraised => ?_⟩
      · rcases hlate.2.2 with hset | hset | hset
        · exact absurd (Or.inl hset) hmid
        · exact absurd (Or.inr hset) hmid
        · rw [hreplace] at hset
          cases hset
      · cases hraised
    | true =>
      rw [if_pos rfl]
      have hlate : StopsLate raises values := ⟨hne,hearly,Or.inr (Or.inr hreplace)⟩
      have hsourced := @sourced_eq_self now raises values w h hall hseed
      exact ⟨fun hsame _ => hsourced.mp (hsame rfl),fun hbefore _ => hsourced.mpr (hbefore hlate)⟩

/-- One setting is saved where nothing else is set. -/
def hostWorld (host : Option String) : World where
  file := some "DRY_RUN=1\n"
  temps := []
  setting := some (keysText none [("MT_HOST","198.51.100.6")])
  env := fun k => if k = "MT_HOST" then host else none
  source := none

theorem failed_save_changes_nothing_example :
    (save "" (fun s => s = .replace) [("MT_HOST","198.51.100.6")] (hostWorld (some "198.51.100.6"))).world =
      hostWorld (some "198.51.100.6") := by
  refine (failed_save_changes_nothing "" (fun s => s = .replace) [("MT_HOST","198.51.100.6")]
    (hostWorld (some "198.51.100.6")) (by decide)).mpr (fun _ => ⟨?_,?_,?_⟩) ?_
  · decide +kernel
  · decide +kernel
  · intro _ hlapi
    exact absurd hlapi (by decide)
  · decide +kernel

/-- The file cannot be replaced, and this worker uses the host that was not saved. -/
theorem unsaved_host_is_used :
    (save "" (fun s => s = .replace) [("MT_HOST","198.51.100.6")] (hostWorld (some "192.0.2.1"))).raised = true ∧
    (save "" (fun s => s = .replace) [("MT_HOST","198.51.100.6")] (hostWorld (some "192.0.2.1"))).world ≠
      hostWorld (some "192.0.2.1") ∧
    (mikroTik CaseMap.ascii CharTable.ascii
      (save "" (fun s => s = .replace) [("MT_HOST","198.51.100.6")] (hostWorld (some "192.0.2.1"))).world.env).host = "198.51.100.6" := by
  refine ⟨by decide +kernel,fun hsame => ?_,by decide +kernel⟩
  have henv := congrArg (fun w => w.env "MT_HOST") hsame
  exact absurd henv (by decide +kernel)

end Protek.Connection
