import Mathlib.Data.List.Basic
import Mathlib.Data.List.DropRight
import Mathlib.Data.List.Nodup

/-! # Text files that are edited by lines

`textLines` is what a text file reads as, with universal newlines and without the
empty piece after the last one; `joinLines` writes lines back. `edit` puts one line
for each key in the place of the lines that define it and appends what is missing.
-/
namespace Foundation.LineEdit

/-! ## Lines -/

/-- `open(…).read()` turns `\r\n` and a lone `\r` into `\n`. -/
def universal : List Char → List Char
  | '\r' :: '\n' :: cs => '\n' :: universal cs
  | '\r' :: cs => '\n' :: universal cs
  | c :: cs => c :: universal cs
  | [] => []

def textLines (text : String) : List String :=
  let ls := ((universal text.toList).splitOn '\n').map (fun l => String.ofList (l.rdropWhile (· = '\r')))
  if ls.getLast? = some "" then ls.dropLast else ls

def joinLines (ls : List String) : String := "\n".intercalate ls ++ "\n"

/-- A text of one line. -/
def OneLine (s : String) : Prop := '\n' ∉ s.toList ∧ '\r' ∉ s.toList

theorem not_mem_universal (cs : List Char) : '\r' ∉ universal cs := by
  induction cs using universal.induct with
  | case1 cs ih => simp [universal, ih]
  | case2 cs hne ih =>
    rw [universal]
    · simp [ih]
    · exact hne
  | case3 c cs hne hr ih =>
    rw [universal]
    · rw [List.mem_cons, not_or]
      exact ⟨fun heq => hr heq.symm,ih⟩
    · exact hne
    · exact hr
  | case4 => simp [universal]

theorem universal_eq_self {cs : List Char} (h : '\r' ∉ cs) : universal cs = cs := by
  induction cs with
  | nil => rfl
  | cons c cs ih =>
    rw [List.mem_cons, not_or] at h
    rw [universal, ih h.2]
    · exact fun _ heq => absurd heq.symm h.1
    · exact fun heq => h.1 heq.symm

theorem mem_textLines {text line : String} (h : line ∈ textLines text) :
    ∃ l ∈ (universal text.toList).splitOn '\n', line = String.ofList (l.rdropWhile (· = '\r')) := by
  unfold textLines at h
  dsimp only at h
  have hmem : line ∈ ((universal text.toList).splitOn '\n').map (fun l => String.ofList (l.rdropWhile (· = '\r'))) := by
    split at h
    · exact List.dropLast_subset _ h
    · exact h
  obtain ⟨l,hl,rfl⟩ := List.mem_map.mp hmem
  exact ⟨l,hl,rfl⟩

theorem not_mem_splitOn {c : Char} {cs l : List Char} (h : l ∈ cs.splitOn c) : c ∉ l ∧ ∀ d ∈ l, d ∈ cs := by
  induction cs generalizing l with
  | nil =>
    rw [List.splitOn_nil, List.mem_singleton] at h
    simp [h]
  | cons d cs ih =>
    rw [List.splitOn_cons_eq_if_modifyHead] at h
    split at h
    · rcases List.mem_cons.mp h with rfl | h
      · simp
      · exact ⟨(ih h).1,fun e he => List.mem_cons_of_mem _ ((ih h).2 e he)⟩
    · rename_i hne
      cases hsplit : cs.splitOn c with
      | nil => exact absurd hsplit (List.splitOn_ne_nil c cs)
      | cons head rest =>
        rw [hsplit, List.modifyHead_cons] at h
        rw [hsplit] at ih
        rcases List.mem_cons.mp h with rfl | h
        · obtain ⟨hno,hsub⟩ := ih List.mem_cons_self
          refine ⟨?_,fun e he => ?_⟩
          · rw [List.mem_cons, not_or]
            exact ⟨fun heq => hne (by simp [heq]),hno⟩
          · rcases List.mem_cons.mp he with rfl | he
            · exact List.mem_cons_self
            · exact List.mem_cons_of_mem _ (hsub e he)
        · obtain ⟨hno,hsub⟩ := ih (List.mem_cons_of_mem _ h)
          exact ⟨hno,fun e he => List.mem_cons_of_mem _ (hsub e he)⟩

/-- What is read as a line is one. -/
theorem oneLine_of_mem {text line : String} (h : line ∈ textLines text) : OneLine line := by
  obtain ⟨l,hl,rfl⟩ := mem_textLines h
  obtain ⟨hno,hsub⟩ := not_mem_splitOn hl
  have hr : '\r' ∉ l := fun hmem => not_mem_universal text.toList (hsub _ hmem)
  unfold OneLine
  rw [String.toList_ofList]
  have hpre := (List.rdropWhile_prefix (· = '\r') (l := l)).subset
  exact ⟨fun hmem => hno (hpre hmem),fun hmem => hr (hpre hmem)⟩

theorem joinLines_eq {ls : List String} (h : ls ≠ []) : joinLines ls = "\n".intercalate (ls ++ [""]) := by
  rw [String.intercalate_append_of_ne_nil h (by simp), String.intercalate_singleton, String.append_empty]
  rfl

theorem mem_intercalate {α : Type*} {sep : List α} {ls : List (List α)} {c : α} (h : c ∈ sep.intercalate ls) :
    c ∈ sep ∨ ∃ l ∈ ls, c ∈ l := by
  induction ls with
  | nil => simp at h
  | cons a ls ih => cases ls with
    | nil => exact Or.inr ⟨a,List.mem_cons_self,by simpa using h⟩
    | cons b ls =>
      rw [List.intercalate_cons_cons, List.mem_append, List.mem_append] at h
      rcases h with (h | h) | h
      · exact Or.inr ⟨a,List.mem_cons_self,h⟩
      · exact Or.inl h
      · rcases ih h with h | ⟨l,hl,hc⟩
        · exact Or.inl h
        · exact Or.inr ⟨l,List.mem_cons_of_mem _ hl,hc⟩

/-- Lines that are written are read back. -/
theorem textLines_joinLines {ls : List String} (hne : ls ≠ []) (h : ∀ l ∈ ls, OneLine l) :
    textLines (joinLines ls) = ls := by
  have hall : ∀ l ∈ ls ++ [""], OneLine l := by
    intro l hl
    rcases List.mem_append.mp hl with hl | hl
    · exact h l hl
    · rw [List.mem_singleton.mp hl]
      simp [OneLine]
  have htext : (joinLines ls).toList = ['\n'].intercalate ((ls ++ [""]).map String.toList) := by
    rw [joinLines_eq hne, String.toList_intercalate]
    rfl
  have hr : '\r' ∉ (joinLines ls).toList := by
    rw [htext]
    intro hmem
    rcases mem_intercalate hmem with hmem | ⟨l,hl,hmem⟩
    · simp at hmem
    · obtain ⟨s,hs,rfl⟩ := List.mem_map.mp hl
      exact (hall s hs).2 hmem
  have hsplit : (universal (joinLines ls).toList).splitOn '\n' = (ls ++ [""]).map String.toList := by
    rw [universal_eq_self hr, htext]
    refine List.splitOn_intercalate '\n' (fun l hl => ?_) (by simp)
    obtain ⟨s,hs,rfl⟩ := List.mem_map.mp hl
    exact (hall s hs).1
  have hmap : ((ls ++ [""]).map String.toList).map (fun l => String.ofList (l.rdropWhile (· = '\r'))) = ls ++ [""] := by
    rw [List.map_map]
    refine (List.map_congr_left (fun s hs => ?_)).trans (List.map_id _)
    have hkeep : s.toList.rdropWhile (· = '\r') = s.toList := by
      refine List.rdropWhile_eq_self_iff.mpr (fun hne hlast => (hall s hs).2 ?_)
      rw [← of_decide_eq_true hlast]
      exact List.getLast_mem hne
    dsimp only [Function.comp_apply, id_eq]
    rw [hkeep, String.ofList_toList]
  unfold textLines
  rw [hsplit, hmap]
  simp

/-! ## One line for each key -/

theorem filter_eq_of_nodup {κ : Type*} [DecidableEq κ] {l : List κ} (h : l.Nodup) (k : κ) :
    l.filter (fun j => j = k) = if k ∈ l then [k] else [] := by
  induction l with
  | nil => rfl
  | cons a l ih =>
    obtain ⟨hnot,hl⟩ := List.nodup_cons.mp h
    rcases eq_or_ne a k with rfl | hne
    · rw [List.filter_cons_of_pos (by simp), ih hl, if_neg hnot, if_pos List.mem_cons_self]
    · rw [List.filter_cons_of_neg (by simpa using hne), ih hl]
      simp [hne.symm]

section
variable {κ α : Type*} [DecidableEq κ] (keyOf : α → Option κ) (render : κ → α) (keys : List κ)

/-- The first line of a key is replaced, its further ones go; the keys that were not seen are appended. -/
def edit : List κ → List α → List α
  | seen, [] => (keys.filter (fun k => k ∉ seen)).map render
  | seen, line :: rest =>
    match keyOf line with
    | some k => if k ∈ keys then (if k ∈ seen then edit seen rest else render k :: edit (k :: seen) rest) else line :: edit seen rest
    | none => line :: edit seen rest

def ours (line : α) : Bool := (keyOf line).any (fun k => k ∈ keys)

variable {keyOf render keys}

theorem edit_cons_other {line : α} (h : ours keyOf keys line = false) (seen : List κ) (rest : List α) :
    edit keyOf render keys seen (line :: rest) = line :: edit keyOf render keys seen rest := by
  rw [edit]
  cases hk : keyOf line with
  | none => rfl
  | some k =>
    have hno : k ∉ keys := by simpa [ours, hk] using h
    exact if_neg hno

theorem edit_cons_own {line : α} {k : κ} (hk : keyOf line = some k) (hmem : k ∈ keys) (seen : List κ) (rest : List α) :
    edit keyOf render keys seen (line :: rest) =
      if k ∈ seen then edit keyOf render keys seen rest else render k :: edit keyOf render keys (k :: seen) rest := by
  rw [edit, hk]
  exact if_pos hmem

theorem own_of_ours {line : α} (h : ours keyOf keys line = true) : ∃ k, keyOf line = some k ∧ k ∈ keys := by
  cases hk : keyOf line with
  | none => simp [ours, hk] at h
  | some k => exact ⟨k,rfl,by simpa [ours, hk] using h⟩

variable (hrender : ∀ k ∈ keys, keyOf (render k) = some k)
include hrender

theorem ours_render {k : κ} (hk : k ∈ keys) : ours keyOf keys (render k) = true := by simp [ours, hrender k hk, hk]

/-- The lines of no edited key stay as they are, in their order. -/
theorem filter_edit (seen : List κ) (l : List α) :
    (edit keyOf render keys seen l).filter (fun x => !ours keyOf keys x) = l.filter (fun x => !ours keyOf keys x) := by
  induction l generalizing seen with
  | nil =>
    rw [edit, List.filter_nil, List.filter_eq_nil_iff]
    intro x hx
    obtain ⟨k,hk,rfl⟩ := List.mem_map.mp hx
    simp [ours_render hrender (List.mem_of_mem_filter hk)]
  | cons line rest ih => cases hours : ours keyOf keys line with
    | false => rw [edit_cons_other hours, List.filter_cons_of_pos (by simp [hours]), List.filter_cons_of_pos (by simp [hours]), ih]
    | true =>
      obtain ⟨k,hk,hmem⟩ := own_of_ours hours
      rw [edit_cons_own hk hmem, List.filter_cons_of_neg (by simp [hours])]
      split
      · exact ih seen
      · rw [List.filter_cons_of_neg (by simp [ours_render hrender hmem]), ih]

/-- Each edited key that was not seen has one line. -/
theorem filter_edit_own (hnodup : keys.Nodup) {k : κ} (hk : k ∈ keys) (seen : List κ) (l : List α) :
    (edit keyOf render keys seen l).filter (fun x => keyOf x = some k) = if k ∈ seen then [] else [render k] := by
  induction l generalizing seen with
  | nil =>
    have hkeep : ((keys.filter (fun j => j ∉ seen)).map render).filter (fun x => keyOf x = some k) =
        ((keys.filter (fun j => j ∉ seen)).filter (fun j => j = k)).map render := by
      rw [List.filter_map]
      refine congrArg (List.map render) (List.filter_congr (fun j hj => ?_))
      simp [hrender j (List.mem_of_mem_filter hj)]
    rw [edit, hkeep, filter_eq_of_nodup (hnodup.filter _)]
    by_cases hseen : k ∈ seen <;> simp [hseen, hk]
  | cons line rest ih => cases hours : ours keyOf keys line with
    | false =>
      have hne : keyOf line ≠ some k := by
        intro heq
        simp [ours, heq, hk] at hours
      rw [edit_cons_other hours, List.filter_cons_of_neg (by simpa using hne), ih]
    | true =>
      obtain ⟨j,hj,hmem⟩ := own_of_ours hours
      rw [edit_cons_own hj hmem]
      split
      · exact ih seen
      · rename_i hseen
        rcases eq_or_ne j k with rfl | hne
        · rw [List.filter_cons_of_pos (by simp [hrender j hmem]), ih, if_pos List.mem_cons_self, if_neg hseen]
        · rw [List.filter_cons_of_neg (by simp [hrender j hmem, hne]), ih]
          simp [hne.symm]

theorem edit_map_render {seen ks : List κ} (hsub : ∀ k ∈ ks, k ∈ keys) (hks : ks.Nodup) (hseen : ∀ k ∈ ks, k ∉ seen)
    (hall : ∀ k ∈ keys, k ∈ seen ∨ k ∈ ks) : edit keyOf render keys seen (ks.map render) = ks.map render := by
  induction ks generalizing seen with
  | nil =>
    have hnone : keys.filter (fun k => k ∉ seen) = [] := by
      rw [List.filter_eq_nil_iff]
      intro k hk
      simpa using (hall k hk).resolve_right (List.not_mem_nil)
    rw [List.map_nil, edit, hnone, List.map_nil]
  | cons k ks ih =>
    obtain ⟨hnot,hks⟩ := List.nodup_cons.mp hks
    have hk := hsub k List.mem_cons_self
    rw [List.map_cons, edit_cons_own (hrender k hk) hk, if_neg (hseen k List.mem_cons_self)]
    refine congrArg (render k :: ·) (ih (fun j hj => hsub j (List.mem_cons_of_mem _ hj)) hks (fun j hj => ?_) (fun j hj => ?_))
    · rw [List.mem_cons, not_or]
      exact ⟨fun heq => hnot (heq ▸ hj),hseen j (List.mem_cons_of_mem _ hj)⟩
    · rcases hall j hj with h | h
      · exact Or.inl (List.mem_cons_of_mem _ h)
      · rcases List.mem_cons.mp h with rfl | h
        · exact Or.inl List.mem_cons_self
        · exact Or.inr h

/-- A second edit changes nothing. -/
theorem edit_edit (hnodup : keys.Nodup) (seen : List κ) (l : List α) :
    edit keyOf render keys seen (edit keyOf render keys seen l) = edit keyOf render keys seen l := by
  induction l generalizing seen with
  | nil =>
    rw [edit]
    refine edit_map_render hrender (fun k hk => List.mem_of_mem_filter hk) (hnodup.filter _) (fun k hk => ?_) (fun k hk => ?_)
    · simpa using List.of_mem_filter hk
    · by_cases hseen : k ∈ seen
      · exact Or.inl hseen
      · exact Or.inr (List.mem_filter.mpr ⟨hk,by simpa using hseen⟩)
  | cons line rest ih => cases hours : ours keyOf keys line with
    | false => rw [edit_cons_other hours, edit_cons_other hours, ih]
    | true =>
      obtain ⟨k,hk,hmem⟩ := own_of_ours hours
      rw [edit_cons_own hk hmem]
      split
      · exact ih seen
      · rename_i hseen
        rw [edit_cons_own (hrender k hmem) hmem, if_neg hseen, ih]

omit hrender in
theorem mem_edit {seen : List κ} {l : List α} {x : α} (h : x ∈ edit keyOf render keys seen l) :
    x ∈ l ∨ ∃ k ∈ keys, x = render k := by
  induction l generalizing seen with
  | nil =>
    obtain ⟨k,hk,rfl⟩ := List.mem_map.mp h
    exact Or.inr ⟨k,List.mem_of_mem_filter hk,rfl⟩
  | cons line rest ih =>
    have hrest : ∀ {seen : List κ}, x ∈ edit keyOf render keys seen rest → x ∈ line :: rest ∨ ∃ k ∈ keys, x = render k := by
      intro seen hx
      exact (ih hx).imp_left (List.mem_cons_of_mem _)
    cases hours : ours keyOf keys line with
    | false =>
      rw [edit_cons_other hours] at h
      rcases List.mem_cons.mp h with rfl | h
      · exact Or.inl List.mem_cons_self
      · exact hrest h
    | true =>
      obtain ⟨k,hk,hmem⟩ := own_of_ours hours
      rw [edit_cons_own hk hmem] at h
      split at h
      · exact hrest h
      · rcases List.mem_cons.mp h with rfl | h
        · exact Or.inr ⟨k,hmem,rfl⟩
        · exact hrest h

end

end Foundation.LineEdit
