import Protek.Diff.Reconcile

/-! # The ownership comment

What `encode_comment` writes on an entry and what `decode_comment` reads back. The
fields lose their colons before they are joined, so that the first two colons of the
body are the delimiters.
-/
namespace Protek.Diff
open Foundation Foundation.PyText

/-- The dict of `decode_comment`. -/
structure CommentFields where
  originSource : String
  scenario : String
  lapiId : String
  deriving DecidableEq, Repr

/-- An empty comment has no prefix, so the test for it is part of the other one. -/
def decodeComment (comment : Option String) : Option CommentFields :=
  match comment with
  | none => none
  | some c =>
    if startsWith c OWNER_PREFIX then
      let parts := splitMax ':' 2 (c.toList.drop OWNER_PREFIX.length)
      some ⟨String.ofList (parts.getD 0 []),String.ofList (parts.getD 1 []),String.ofList (parts.getD 2 [])⟩
    else none

namespace CommentFields

/-- The three fields as `encode_comment` sanitises them. -/
def ofDecision (d : Decision) : CommentFields where
  originSource := sanitize (orElse d.originSource "local")
  scenario := sanitize (orElse d.scenario "")
  lapiId := sanitize (((IdValue.text d.lapiId).or (IdValue.text d.id)).getD "0")

/-- A decoded dict handed to `encode_comment`, which finds no `id` in it. -/
def toDecision (f : CommentFields) : Decision :=
  { originSource := some f.originSource, scenario := some f.scenario, lapiId := some (.str f.lapiId) }

def comment (f : CommentFields) : String :=
  OWNER_PREFIX ++ (f.originSource ++ (":" ++ (f.scenario ++ (":" ++ f.lapiId))))

/-- The defaults in the place of empty fields. -/
def withDefaults (f : CommentFields) : CommentFields where
  originSource := if f.originSource = "" then "local" else f.originSource
  scenario := f.scenario
  lapiId := if f.lapiId = "" then "0" else f.lapiId

end CommentFields

theorem encodeComment_eq (d : Decision) : encodeComment d = (CommentFields.ofDecision d).comment := rfl

/-! ## Sanitised fields -/

theorem colon_not_mem_sanitize (s : String) : ':' ∉ (sanitize s).toList := by
  intro h
  have hmem := mem_of_mem_strip h
  rw [replaceChar, String.toList_ofList, List.mem_map] at hmem
  obtain ⟨c,-,hc⟩ := hmem
  split at hc
  · exact absurd hc (by decide)
  · next hne => exact hne hc

theorem sanitize_eq_self {s : String} (hcolon : ':' ∉ s.toList) (hstrip : strip s = s) : sanitize s = s := by
  have hreplace : s.toList.map (fun c => if c = ':' then '_' else c) = s.toList := by
    refine (List.map_congr_left (fun c hc => if_neg ?_)).trans (List.map_id _)
    exact fun he => hcolon (he ▸ hc)
  rw [sanitize, replaceChar, hreplace, String.ofList_toList, hstrip]

@[simp] theorem sanitize_sanitize (s : String) : sanitize (sanitize s) = sanitize s :=
  sanitize_eq_self (colon_not_mem_sanitize s) (strip_strip _)

/-- Nothing but white space. -/
def IsBlank (s : String) : Prop := ∀ c ∈ s.toList, isSpace c = true

theorem strip_eq_empty {s : String} : strip s = "" ↔ IsBlank s := by
  constructor
  · intro h c hc
    by_contra hspace
    have hmem : c ∈ (strip s).toList := mem_strip_of_not_space hc (Bool.eq_false_iff.mpr hspace)
    rw [h] at hmem
    cases hmem
  · intro h
    rw [← String.toList_eq_nil_iff, toList_strip, List.dropWhile_eq_nil_iff.mpr h, List.rdropWhile_nil]

theorem isBlank_replaceChar {s : String} {a b : Char} (ha : isSpace a = false) (hb : isSpace b = false) :
    IsBlank (replaceChar s a b) ↔ IsBlank s := by
  have hchar : ∀ c, isSpace (if c = a then b else c) = isSpace c := by
    intro c
    split
    · next h => rw [h, ha, hb]
    · rfl
  rw [IsBlank, replaceChar, String.toList_ofList, List.forall_mem_map]
  simp only [hchar]
  rfl

/-- A field comes out empty when there is nothing but white space in it. -/
theorem sanitize_eq_empty {s : String} : sanitize s = "" ↔ IsBlank s := by
  rw [sanitize, strip_eq_empty, isBlank_replaceChar (by decide) (by decide)]

/-! ## Reading back -/

/-- The fields in front of a delimiter do not have it. -/
structure ColonFree (f : CommentFields) : Prop where
  originSource : ':' ∉ f.originSource.toList
  scenario : ':' ∉ f.scenario.toList

theorem colonFree_ofDecision (d : Decision) : ColonFree (CommentFields.ofDecision d) :=
  ⟨colon_not_mem_sanitize _,colon_not_mem_sanitize _⟩

theorem decodeComment_comment {f : CommentFields} (h : ColonFree f) : decodeComment (some f.comment) = some f := by
  have howned : startsWith f.comment OWNER_PREFIX = true := startsWith_append _ _
  have hbody : f.comment.toList.drop OWNER_PREFIX.length =
      f.originSource.toList ++ ':' :: (f.scenario.toList ++ ':' :: f.lapiId.toList) := by
    rw [CommentFields.comment, String.toList_append, String.toList_append, String.toList_append, String.toList_append,
      String.toList_append]
    rfl
  rw [decodeComment]
  simp only [howned, if_true, hbody, splitMax_append h.originSource, splitMax_append h.scenario]
  simp [splitMax]

theorem decodeComment_encodeComment (d : Decision) :
    decodeComment (some (encodeComment d)) = some (CommentFields.ofDecision d) := by
  rw [encodeComment_eq]
  exact decodeComment_comment (colonFree_ofDecision d)

theorem comment_inj {f g : CommentFields} (hf : ColonFree f) (hg : ColonFree g) : f.comment = g.comment ↔ f = g := by
  refine ⟨fun h => Option.some.inj ?_,congrArg _⟩
  rw [← decodeComment_comment hf, ← decodeComment_comment hg, h]

/-! ## Writing again -/

theorem sanitize_orElse {s d : String} (hs : sanitize s = s) (hd : sanitize d = d) :
    sanitize (orElse (some s) d) = if s = "" then d else s := by
  rw [orElse]
  split
  · exact hd
  · exact hs

/-- Decoded fields are sanitised already, so that writing them again only fills the empty ones. -/
theorem ofDecision_toDecision (d : Decision) :
    CommentFields.ofDecision (CommentFields.ofDecision d).toDecision = (CommentFields.ofDecision d).withDefaults := by
  generalize hf : CommentFields.ofDecision d = f
  have hsrc : sanitize f.originSource = f.originSource := by rw [← hf, CommentFields.ofDecision, sanitize_sanitize]
  have hscen : sanitize f.scenario = f.scenario := by rw [← hf, CommentFields.ofDecision, sanitize_sanitize]
  have hlid : sanitize f.lapiId = f.lapiId := by rw [← hf, CommentFields.ofDecision, sanitize_sanitize]
  have hlocal : sanitize "local" = "local" := by decide +kernel
  have hzero : sanitize "0" = "0" := by decide +kernel
  have hempty : sanitize "" = "" := by decide +kernel
  have hid : ((IdValue.text (some (.str f.lapiId))).or (IdValue.text none)).getD "0" = orElse (some f.lapiId) "0" := by
    by_cases h : f.lapiId = "" <;> simp [orElse, IdValue.text, h]
  rw [CommentFields.ofDecision, CommentFields.toDecision, hid, CommentFields.withDefaults, sanitize_orElse hsrc hlocal,
    sanitize_orElse hscen hempty, sanitize_orElse hlid hzero]
  by_cases h : f.scenario = ""
  · rw [if_pos h, h]
  · rw [if_neg h]

theorem withDefaults_eq_self {f : CommentFields} : f.withDefaults = f ↔ f.originSource ≠ "" ∧ f.lapiId ≠ "" := by
  obtain ⟨src,scen,lid⟩ := f
  have hlocal : "local" ≠ "" := by decide
  have hzero : "0" ≠ "" := by decide
  simp only [CommentFields.withDefaults, CommentFields.mk.injEq, true_and]
  constructor
  · rintro ⟨hs,hl⟩
    refine ⟨fun h => ?_,fun h => ?_⟩
    · rw [if_pos h] at hs
      exact hlocal (hs.trans h)
    · rw [if_pos h] at hl
      exact hzero (hl.trans h)
  · rintro ⟨hs,hl⟩
    exact ⟨if_neg hs,if_neg hl⟩

/-- A written comment is owned and decodes to the sanitised fields; writing these again fills the
empty ones with their defaults, and gives the same comment unless source or id was blank. -/
theorem ownership_comment_roundtrip (d : Decision) :
    isOwned (some (encodeComment d)) = true ∧
    decodeComment (some (encodeComment d)) = some (CommentFields.ofDecision d) ∧
    encodeComment (CommentFields.ofDecision d).toDecision = (CommentFields.ofDecision d).withDefaults.comment ∧
    (encodeComment (CommentFields.ofDecision d).toDecision = encodeComment d ↔
      ¬ IsBlank (orElse d.originSource "local") ∧ ¬ IsBlank (((IdValue.text d.lapiId).or (IdValue.text d.id)).getD "0")) := by
  have hagain : encodeComment (CommentFields.ofDecision d).toDecision = (CommentFields.ofDecision d).withDefaults.comment := by
    rw [encodeComment_eq, ofDecision_toDecision]
  refine ⟨isOwned_encodeComment d,decodeComment_encodeComment d,hagain,?_⟩
  rw [encodeComment_eq, encodeComment_eq, comment_inj (colonFree_ofDecision _) (colonFree_ofDecision d), ofDecision_toDecision,
    withDefaults_eq_self]
  exact and_congr (not_congr sanitize_eq_empty) (not_congr sanitize_eq_empty)

/-- A blank source is written as an empty field, which is written as `local` the second time. -/
theorem ownership_comment_blank_source :
    ∃ f, decodeComment (some (encodeComment { originSource := some " " })) = some f ∧
      encodeComment f.toDecision ≠ encodeComment { originSource := some " " } := by
  refine ⟨⟨"","","0"⟩,?_,?_⟩ <;> decide +kernel

end Protek.Diff
