import Protek.Diff.Reconcile
import Protek.Foundation.AddressText

/-! # Is the comparison of addresses faithful to networks

`_normalize_addr` works on texts: it lowers the case and takes a `/32` or a `/128`
off. A `/32` is a host in IPv4 only, and one IPv6 address has many spellings.
-/
namespace Protek.Diff
open Foundation Foundation.OrderedDict Foundation.PyText Foundation.IpAddress

/-! ## What the code compares -/

/-- The text before the slash and the one after it, in lower case. -/
def lowerParts (s : String) : List Char × Option (List Char) :=
  match (s.toList.splitOn '/').map lower with
  | [cs,mask] => (cs,some mask)
  | parts => (parts.headD [],none)

def fullMask : Version → List Char
  | .v4 => ['3','2']
  | .v6 => ['1','2','8']

/-- The parts of a text, without the full-length prefix of its family. -/
def spelling (v : Version) (s : String) : List Char × Option (List Char) :=
  ((lowerParts s).1,(lowerParts s).2.filter (fun mask => mask ≠ fullMask v))

def SpelledAlike (a b : String) (n m : Network) : Prop := spelling n.version a = spelling m.version b

/-- One text is an IPv6 network of length 32, the other the single address that it begins with. -/
def Clash (a b : String) (n m : Network) : Prop :=
  n.version = .v6 ∧ m.version = .v6 ∧ (lowerParts a).1 = (lowerParts b).1 ∧
  (((lowerParts a).2 = some ['3','2'] ∧ (spelling .v6 b).2 = none) ∨
    ((lowerParts b).2 = some ['3','2'] ∧ (spelling .v6 a).2 = none))

/-- What is left of the parts when either suffix is taken off. -/
def reduced (s : String) : List Char × Option (List Char) :=
  ((lowerParts s).1,(lowerParts s).2.filter (fun mask => mask ≠ ['3','2'] ∧ mask ≠ ['1','2','8']))

/-! ## Suffixes -/

theorem strip_of_plain {s : String} (h : Plain s.toList) : strip s = s := by
  have hdrop : ∀ cs : List Char, (∀ c ∈ cs, isSpace c = false) → cs.dropWhile isSpace = cs := by
    intro cs hcs
    cases cs with
    | nil => rfl
    | cons c rest => rw [List.dropWhile_cons, hcs c List.mem_cons_self]; rfl
  have hspace : ∀ c ∈ s.toList, isSpace c = false := fun c hc => (h c hc).2
  rw [strip, hdrop _ hspace, hdrop _ (fun c hc => hspace c (List.mem_reverse.mp hc)), List.reverse_reverse,
    String.ofList_toList]

theorem suffix_slash_iff {p mask cs : List Char} (hp : '/' ∉ p) (hm : '/' ∉ mask) :
    ('/' :: p) <:+ (cs ++ '/' :: mask) ↔ mask = p := by
  constructor
  · rintro ⟨front,hfront⟩
    have hsplit := congrArg (List.splitOn '/') hfront
    rw [List.splitOn_append_cons_self, List.splitOn_append_cons_self, List.splitOn_eq_singleton hp,
      List.splitOn_eq_singleton hm] at hsplit
    exact (List.singleton_inj.mp (List.append_inj' hsplit rfl).2).symm
  · rintro rfl
    exact List.suffix_append _ _

theorem append_maskChars_inj {xs ys : List Char} {mask mask' : Option (List Char)} (hx : '/' ∉ xs) (hy : '/' ∉ ys)
    (h : xs ++ maskChars mask = ys ++ maskChars mask') : xs = ys ∧ mask = mask' := by
  have hin : ∀ (zs m : List Char), '/' ∈ zs ++ '/' :: m := fun zs m => by simp
  cases mask with
  | none =>
    rw [maskChars, List.append_nil] at h
    cases mask' with
    | none => exact ⟨by rw [h, maskChars, List.append_nil],rfl⟩
    | some m' => exact absurd (h ▸ hin ys m') hx
  | some m =>
    cases mask' with
    | none =>
      rw [maskChars, maskChars, List.append_nil] at h
      exact absurd (h ▸ hin xs m) hy
    | some m' =>
      have hsplit := congrArg (List.splitOn '/') h
      rw [maskChars, maskChars, List.splitOn_append_cons_self_of_not_mem hx, List.splitOn_append_cons_self_of_not_mem hy] at hsplit
      obtain rfl : xs = ys := (List.cons.inj hsplit).1
      exact ⟨rfl,congrArg some (List.cons.inj (List.append_cancel_left h)).2⟩

/-- A text ends with a slash and more exactly when that is its mask. -/
theorem suffix_maskChars_iff {p cs : List Char} {mask : Option (List Char)} (hp : '/' ∉ p) (hcs : '/' ∉ cs)
    (hmask : ∀ m, mask = some m → '/' ∉ m) : ('/' :: p) <:+ (cs ++ maskChars mask) ↔ mask = some p := by
  cases mask with
  | none =>
    rw [maskChars, List.append_nil]
    exact iff_of_false (fun h => hcs (h.subset List.mem_cons_self)) (by simp)
  | some m =>
    rw [maskChars, suffix_slash_iff hp (hmask m rfl), Option.some.injEq]

theorem endsWith_ofList {cs : List Char} {p : String} : endsWith (String.ofList cs) p = true ↔ p.toList <:+ cs := by
  rw [endsWith, String.toList_ofList, List.isSuffixOf_iff_suffix]

theorem dropEnd_ofList_append (cs tail : List Char) : dropEnd (String.ofList (cs ++ tail)) tail.length = String.ofList cs := by
  rw [dropEnd, String.toList_ofList, List.length_append, Nat.add_sub_cancel, List.take_left']
  rfl

section
variable {U : CaseMap} {s : String} {n : Network}

/-- One cut takes its own mask off. -/
theorem cut_suffix {cs p : List Char} {mask : Option (List Char)} {suffix : String} (hsuffix : suffix.toList = '/' :: p)
    (hp : '/' ∉ p) (hcs : '/' ∉ cs) (hmask : ∀ m, mask = some m → '/' ∉ m) :
    (if endsWith (String.ofList (cs ++ maskChars mask)) suffix then dropEnd (String.ofList (cs ++ maskChars mask)) (p.length + 1)
      else String.ofList (cs ++ maskChars mask)) = String.ofList (cs ++ maskChars (mask.filter (fun m => m ≠ p))) := by
  have hends : endsWith (String.ofList (cs ++ maskChars mask)) suffix = true ↔ mask = some p := by
    rw [endsWith_ofList, hsuffix]
    exact suffix_maskChars_iff hp hcs hmask
  by_cases hm : mask = some p
  · rw [if_pos (hends.mpr hm), hm, Option.filter_some_neg (by simp), maskChars, maskChars, List.append_nil]
    exact dropEnd_ofList_append cs ('/' :: p)
  · rw [if_neg (fun h => hm (hends.mp h))]
    cases mask with
    | none => rfl
    | some m =>
      have hne : m ≠ p := fun he => hm (congrArg some he)
      rw [Option.filter_some_pos (by simpa using hne)]

/-- Both cuts on the text of an address with or without a mask. -/
theorem cut_suffixes {cs : List Char} {mask : Option (List Char)} (hcs : '/' ∉ cs) (hmask : ∀ m, mask = some m → '/' ∉ m) :
    (let a := String.ofList (cs ++ maskChars mask)
     let a := if endsWith a "/32" then dropEnd a 3 else a
     if endsWith a "/128" then dropEnd a 4 else a) =
      String.ofList (cs ++ maskChars (mask.filter (fun m => m ≠ ['3','2'] ∧ m ≠ ['1','2','8']))) := by
  have h32 := cut_suffix (show "/32".toList = '/' :: ['3','2'] by decide) (by decide) hcs hmask
  have hleft : ∀ m, mask.filter (fun m => m ≠ ['3','2']) = some m → '/' ∉ m :=
    fun m hm => hmask m (Option.filter_eq_some_iff.mp hm).1
  have h128 := cut_suffix (show "/128".toList = '/' :: ['1','2','8'] by decide) (by decide) hcs hleft
  have hfilter : (mask.filter (fun m => m ≠ ['3','2'])).filter (fun m => m ≠ ['1','2','8']) =
      mask.filter (fun m => m ≠ ['3','2'] ∧ m ≠ ['1','2','8']) := by
    rw [Option.filter_filter]
    simp only [Bool.decide_and]
  dsimp only
  rw [List.length_cons, List.length_singleton] at h32
  rw [h32, ← hfilter]
  exact h128

/-- The code's text of an accepted address. -/
theorem normalizeAddr_of_parts {cs : List Char} {mask : Option (List Char)} (hplain : Plain s.toList)
    (hs : s.toList = cs ++ maskChars mask) (hcs : '/' ∉ cs) (hmask : ∀ m, mask = some m → '/' ∉ m) :
    normalizeAddr U (some s) = String.ofList
      (lower cs ++ maskChars ((mask.map lower).filter (fun m => m ≠ ['3','2'] ∧ m ≠ ['1','2','8']))) := by
  have hraw : U.lower (strip (orElse (some s) "")) = String.ofList (lower cs ++ maskChars (mask.map lower)) := by
    have horElse : orElse (some s) "" = s := by
      by_cases he : s = ""
      · simp [orElse, he]
      · exact orElse_some he ""
    rw [horElse, strip_of_plain hplain]
    apply String.toList_injective
    rw [U.lower_ascii s (fun c hc => (hplain c hc).1), String.toList_ofList, hs, List.map_append]
    cases mask <;> rfl
  unfold normalizeAddr
  rw [hraw]
  refine cut_suffixes (fun h => hcs ((mem_lower (by decide)).mp h)) (fun m hm hslash => ?_)
  obtain ⟨m',hm',rfl⟩ := Option.map_eq_some_iff.mp hm
  exact hmask m' hm' ((mem_lower (by decide)).mp hslash)

theorem lowerParts_of_parts {cs : List Char} {mask : Option (List Char)} (hs : s.toList = cs ++ maskChars mask)
    (hcs : '/' ∉ cs) (hmask : ∀ m, mask = some m → '/' ∉ m) : lowerParts s = (lower cs,mask.map lower) := by
  unfold lowerParts
  rw [hs]
  cases mask with
  | none =>
    rw [maskChars, List.append_nil, List.splitOn_eq_singleton hcs]
    rfl
  | some m =>
    rw [maskChars, List.splitOn_append_cons_self, List.splitOn_eq_singleton hcs, List.splitOn_eq_singleton (hmask m rfl)]
    rfl

/-- What an accepted text is made of. -/
theorem parts_of_spells (h : Spells s n) : ∃ cs mask, s.toList = cs ++ maskChars mask ∧ network n.version cs mask = some n ∧
    '/' ∉ cs ∧ (∀ m, mask = some m → '/' ∉ m) ∧ lowerParts s = (lower cs,mask.map lower) := by
  obtain ⟨cs,mask,hs,hn⟩ := ipNetwork_parts h.network
  obtain ⟨a,p,ha,hp,_⟩ := network_eq_some hn
  have hcs : '/' ∉ cs := slash_not_mem ha
  have hmask : ∀ m, mask = some m → '/' ∉ m := by
    rintro m rfl
    exact slash_not_mem_mask (Option.isSome_of_eq_some hp)
  exact ⟨cs,mask,hs,hn,hcs,hmask,lowerParts_of_parts hs hcs hmask⟩

/-- Accepted texts are the same to the code exactly when their reduced parts are. -/
theorem normalizeAddr_eq_iff {a b : String} {m : Network} (ha : Spells a n) (hb : Spells b m) :
    normalizeAddr U (some a) = normalizeAddr U (some b) ↔ reduced a = reduced b := by
  obtain ⟨cs,mask,hs,_,hcs,hmask,hparts⟩ := parts_of_spells ha
  obtain ⟨cs',mask',hs',_,hcs',hmask',hparts'⟩ := parts_of_spells hb
  rw [normalizeAddr_of_parts ha.plain hs hcs hmask, normalizeAddr_of_parts hb.plain hs' hcs' hmask', String.ofList_inj,
    reduced, reduced, hparts, hparts', Prod.mk.injEq]
  dsimp only
  have hlower : ∀ cs : List Char, '/' ∉ cs → '/' ∉ lower cs := fun cs h hm => h ((mem_lower (by decide)).mp hm)
  constructor
  · exact append_maskChars_inj (hlower cs hcs) (hlower cs' hcs')
  · rintro ⟨h,h'⟩
    rw [h, h']

/-- An IPv4 text has no mask `128`. -/
theorem mask_ne_128 {cs : List Char} {mask : Option (List Char)} (hn : network .v4 cs mask = some n) :
    mask.map lower ≠ some ['1','2','8'] := by
  intro h
  obtain ⟨m,rfl,hm⟩ := Option.map_eq_some_iff.mp h
  obtain ⟨_,p,_,hp,_⟩ := network_eq_some hn
  have hnone : makeNetmask .v4 (some ['1','2','8']) = none := by decide
  rw [← makeNetmask_lower, hm, hnone] at hp
  cases hp

/-- Cutting both suffixes off differs from cutting the long one off where one mask is `32` and the other is nothing. -/
theorem filter_masks_iff (p q : Option (List Char)) :
    p.filter (fun m => m ≠ ['3','2'] ∧ m ≠ ['1','2','8']) = q.filter (fun m => m ≠ ['3','2'] ∧ m ≠ ['1','2','8']) ↔
      p.filter (fun m => m ≠ ['1','2','8']) = q.filter (fun m => m ≠ ['1','2','8']) ∨
        (p = some ['3','2'] ∧ q.filter (fun m => m ≠ ['1','2','8']) = none) ∨
        (q = some ['3','2'] ∧ p.filter (fun m => m ≠ ['1','2','8']) = none) := by
  have hcases : ∀ p : Option (List Char), p = none ∨ p = some ['3','2'] ∨ p = some ['1','2','8'] ∨
      ∃ m, p = some m ∧ m ≠ ['3','2'] ∧ m ≠ ['1','2','8'] ∧ ['3','2'] ≠ m := by
    intro p
    cases p with
    | none => exact Or.inl rfl
    | some m =>
      by_cases h32 : m = ['3','2']
      · exact Or.inr (Or.inl (congrArg some h32))
      · by_cases h128 : m = ['1','2','8']
        · exact Or.inr (Or.inr (Or.inl (congrArg some h128)))
        · exact Or.inr (Or.inr (Or.inr ⟨m,rfl,h32,h128,Ne.symm h32⟩))
  rcases hcases p with rfl | rfl | rfl | ⟨m,rfl,h32,h128,hne⟩ <;>
    rcases hcases q with rfl | rfl | rfl | ⟨m',rfl,h32',h128',hne'⟩ <;> simp [Option.filter_some, *]

/-- One address text, one family: IPv6 has colons. -/
theorem version_eq_of_lower {cs cs' : List Char} {mask mask' : Option (List Char)} {m : Network}
    (hn : network n.version cs mask = some n) (hm : network m.version cs' mask' = some m) (h : lower cs = lower cs') :
    n.version = m.version := by
  obtain ⟨_,_,hcs,_⟩ := network_eq_some hn
  obtain ⟨_,_,hcs',_⟩ := network_eq_some hm
  have hcolon : ':' ∈ cs ↔ ':' ∈ cs' := by
    rw [← mem_lower (by decide), h, mem_lower (by decide)]
  rw [colon_mem_iff hcs, colon_mem_iff hcs'] at hcolon
  cases hv : n.version <;> cases hv' : m.version <;> simp [hv, hv'] at hcolon ⊢

theorem reduced_eq_iff {a b : String} {m : Network} (ha : Spells a n) (hb : Spells b m) :
    reduced a = reduced b ↔ SpelledAlike a b n m ∨ Clash a b n m := by
  obtain ⟨cs,mask,_,hn,_,_,hparts⟩ := parts_of_spells ha
  obtain ⟨cs',mask',_,hm,_,_,hparts'⟩ := parts_of_spells hb
  unfold SpelledAlike Clash reduced spelling
  rw [hparts, hparts']
  by_cases hlower : lower cs = lower cs'
  · have hversion := version_eq_of_lower hn hm hlower
    simp only [Prod.mk.injEq, hlower, true_and, ← hversion]
    cases hv : n.version with
    | v4 =>
      -- no mask `128`, and no clash
      have hcut : ∀ {cs : List Char} {mask : Option (List Char)} {k : Network}, network .v4 cs mask = some k →
          (mask.map lower).filter (fun m => m ≠ ['3','2'] ∧ m ≠ ['1','2','8']) =
            (mask.map lower).filter (fun m => m ≠ fullMask .v4) := by
        intro cs mask k hk
        have hne := mask_ne_128 hk
        cases hmask : mask.map lower with
        | none => rfl
        | some m =>
          have hm : m ≠ ['1','2','8'] := fun he => hne (hmask.trans (congrArg some he))
          by_cases h32 : m = ['3','2'] <;> simp [Option.filter_some, hm, fullMask, h32]
      rw [hcut (hv ▸ hn), hcut (show network .v4 cs' mask' = some m from hv ▸ hversion ▸ hm)]
      simp
    | v6 =>
      simp only [true_and]
      exact filter_masks_iff (mask.map lower) (mask'.map lower)
  · simp [hlower]

/-! ## What the texts denote -/

theorem makeNetmask_spelling (v : Version) (mask : Option (List Char)) :
    makeNetmask v mask = makeNetmask v ((mask.map lower).filter (fun m => m ≠ fullMask v)) := by
  have hfull : makeNetmask v (some (fullMask v)) = makeNetmask v none := by cases v <;> decide
  cases mask with
  | none => rfl
  | some m =>
    rw [← makeNetmask_lower, Option.map_some]
    by_cases hm : lower m = fullMask v
    · rw [hm, hfull, Option.filter_some_neg (by simp)]
    · rw [Option.filter_some_pos (by simpa using hm)]

/-- Texts spelled alike denote one network. -/
theorem SpelledAlike.same {a b : String} {m : Network} (ha : Spells a n) (hb : Spells b m) (h : SpelledAlike a b n m) :
    n.Same m := by
  obtain ⟨cs,mask,_,hn,_,_,hparts⟩ := parts_of_spells ha
  obtain ⟨cs',mask',_,hm,_,_,hparts'⟩ := parts_of_spells hb
  unfold SpelledAlike spelling at h
  rw [hparts, hparts', Prod.mk.injEq] at h
  obtain ⟨hlower,hmask⟩ := h
  have hversion := version_eq_of_lower hn hm hlower
  rw [← hversion] at hm hmask
  refine Network.same_of_lower hn hm hlower ?_
  rw [makeNetmask_spelling n.version mask, makeNetmask_spelling n.version mask']
  exact congrArg (makeNetmask n.version) hmask

theorem prefixLen_of_spelling {mask : Option (List Char)} {cs : List Char} (hn : network n.version cs mask = some n)
    (hv : n.version = .v6) :
    some n.prefixLen = (makeNetmask .v6 ((mask.map lower).filter (fun m => m ≠ fullMask .v6))).map Subtype.val := by
  rw [hv] at hn
  obtain ⟨_,p,_,hp,_,hlen,_⟩ := network_eq_some hn
  rw [← makeNetmask_spelling, hp, hlen]
  rfl

/-- A network of length 32 is not the single address that it begins with. -/
theorem Clash.not_same {a b : String} {m : Network} (ha : Spells a n) (hb : Spells b m) (h : Clash a b n m) :
    ¬ n.Same m := by
  rintro ⟨_,hlen,_⟩
  obtain ⟨cs,mask,_,hn,_,_,hparts⟩ := parts_of_spells ha
  obtain ⟨cs',mask',_,hm,_,_,hparts'⟩ := parts_of_spells hb
  obtain ⟨hv,hv',_,hmasks⟩ := h
  unfold spelling at hmasks
  rw [hparts, hparts'] at hmasks
  have hlen32 : (makeNetmask .v6 ((some ['3','2']).filter (fun m => m ≠ fullMask .v6))).map Subtype.val = some 32 := by decide
  have hlen128 : (makeNetmask .v6 none).map Subtype.val = some 128 := by decide
  have hn' := prefixLen_of_spelling hn hv
  have hm' := prefixLen_of_spelling hm hv'
  rcases hmasks with ⟨h32,hnone⟩ | ⟨h32,hnone⟩
  · dsimp only at h32 hnone
    rw [h32, hlen32] at hn'
    rw [hnone, hlen128, ← hlen, hn'] at hm'
    cases hm'
  · dsimp only at h32 hnone
    rw [h32, hlen32] at hm'
    rw [hnone, hlen128, hlen, hm'] at hn'
    cases hn'

/-- Texts that the code takes for one address are of one family. -/
theorem version_eq_of_normalizeAddr {a b : String} {m : Network} (ha : Spells a n) (hb : Spells b m)
    (h : normalizeAddr U (some a) = normalizeAddr U (some b)) : n.version = m.version := by
  rcases (reduced_eq_iff ha hb).mp ((normalizeAddr_eq_iff ha hb).mp h) with halike | hclash
  · exact (halike.same ha hb).1
  · exact hclash.1.trans hclash.2.1.symm

/-- The pairs on which the comparison of texts is that of networks. -/
def Comparable (a b : String) (n m : Network) : Prop := (n.Same m → SpelledAlike a b n m) ∧ ¬ Clash a b n m

theorem normalizeAddr_faithful_iff {a b : String} {m : Network} (ha : Spells a n) (hb : Spells b m) :
    (normalizeAddr U (some a) = normalizeAddr U (some b) ↔ n.Same m) ↔ Comparable a b n m := by
  rw [normalizeAddr_eq_iff ha hb, reduced_eq_iff ha hb]
  constructor
  · intro h
    have hclash : ¬ Clash a b n m := fun hc => hc.not_same ha hb (h.mp (Or.inr hc))
    exact ⟨fun hsame => (h.mpr hsame).resolve_right hclash,hclash⟩
  · rintro ⟨halike,hclash⟩
    exact ⟨fun h => (h.resolve_right hclash).same ha hb,fun hsame => Or.inl (halike hsame)⟩

end

/-! ## What the diff makes of it -/

/-- A relation of a desired value and an entry, through the networks that both texts denote. -/
def Between (R : String → String → Network → Network → Prop) (k : String) (e : Entry) : Prop :=
  ∃ n s m, Spells k n ∧ e.address = some s ∧ Spells s m ∧ R k s n m

def SameAddress : String → Entry → Prop := Between (fun _ _ n m => n.Same m)

/-- The desired values and the addresses of the owned entries denote networks. -/
structure Addressed (desired : List Decision) (entries : List Entry) : Prop where
  desired : ∀ k ∈ desiredKeys desired, ∃ n, Spells k n
  owned : ∀ e ∈ entries, isOwned e.comment = true → ∃ s n, e.address = some s ∧ Spells s n

/-- The desired addresses that `reconcile` counts as unchanged. -/
def countedUnchanged (U : CaseMap) (desired : List Decision) (entries : List Entry) : List String :=
  (desiredByAddr desired).keys.filter (fun a => normalizeAddr U (some a) ∈ (ownedByAddr U entries).keys)

/-- A desired value that clashes with an owned entry has an owned entry of its own network. -/
def ClashesCovered (desired : List Decision) (entries : List Entry) : Prop :=
  ∀ k ∈ desiredKeys desired, ∀ e ∈ entries, isOwned e.comment = true → Between Clash k e →
    ∃ e' ∈ entries, isOwned e'.comment = true ∧ SameAddress k e'

/-- An owned entry whose network is desired clashes with a desired value or is spelled like one. -/
def SpellingsKept (desired : List Decision) (entries : List Entry) : Prop :=
  ∀ e ∈ entries, isOwned e.comment = true → (∃ k ∈ desiredKeys desired, SameAddress k e) →
    ∃ k ∈ desiredKeys desired, Between SpelledAlike k e ∨ Between Clash k e

section
variable {U : CaseMap} {desired : List Decision} {entries : List Entry} {e : Entry} {k s : String} {n m : Network}

theorem Spells.unique (h : Spells s n) (h' : Spells s m) : n = m := Option.some.inj (h.network.symm.trans h'.network)

theorem between_iff {R : String → String → Network → Network → Prop} (hk : Spells k n) (he : e.address = some s)
    (hs : Spells s m) : Between R k e ↔ R k s n m := by
  constructor
  · rintro ⟨n',s',m',hk',he',hs',hR⟩
    obtain rfl : s = s' := Option.some.inj (he.symm.trans he')
    obtain rfl := Spells.unique hk hk'
    obtain rfl := Spells.unique hs hs'
    exact hR
  · intro hR
    exact ⟨n,s,m,hk,he,hs,hR⟩

/-- The diff takes a desired value and an entry for one address where the texts are alike or clash. -/
theorem normalizeAddr_entry_iff (h : Addressed desired entries) (hk : k ∈ desiredKeys desired) (he : e ∈ entries)
    (ho : isOwned e.comment = true) :
    normalizeAddr U (some k) = normalizeAddr U e.address ↔ Between SpelledAlike k e ∨ Between Clash k e := by
  obtain ⟨n,hn⟩ := h.desired k hk
  obtain ⟨s,m,hs,hm⟩ := h.owned e he ho
  rw [hs, normalizeAddr_eq_iff hn hm, reduced_eq_iff hn hm, between_iff hn hs hm, between_iff hn hs hm]

theorem mem_countedUnchanged : k ∈ countedUnchanged U desired entries ↔ k ∈ desiredKeys desired ∧
    ∃ e ∈ entries, isOwned e.comment = true ∧ normalizeAddr U (some k) = normalizeAddr U e.address := by
  rw [countedUnchanged, List.mem_filter, keys_desiredByAddr, decide_eq_true_iff, mem_keys_ownedByAddr, ownedAddrs,
    List.mem_map]
  simp only [List.mem_filter, and_assoc, eq_comm]

theorem sameAddress_of_alike (h : Between SpelledAlike k e) : SameAddress k e := by
  obtain ⟨n,s,m,hk,he,hs,halike⟩ := h
  exact ⟨n,s,m,hk,he,hs,halike.same hk hs⟩

theorem countedUnchanged_iff (h : Addressed desired entries) :
    (∀ k ∈ countedUnchanged U desired entries, ∃ e ∈ entries, isOwned e.comment = true ∧ SameAddress k e) ↔
      ClashesCovered desired entries := by
  constructor
  · intro hcount k hk e he ho hclash
    exact hcount k (mem_countedUnchanged.mpr ⟨hk,e,he,ho,(normalizeAddr_entry_iff h hk he ho).mpr (Or.inr hclash)⟩)
  · intro hcovered k hk
    obtain ⟨hk,e,he,ho,heq⟩ := mem_countedUnchanged.mp hk
    rcases (normalizeAddr_entry_iff h hk he ho).mp heq with halike | hclash
    · exact ⟨e,he,ho,sameAddress_of_alike halike⟩
    · exact hcovered k hk e he ho hclash

theorem stale_iff (h : Addressed desired entries) :
    (∀ e ∈ entries, IsStale U desired e → ∀ k ∈ desiredKeys desired, ¬ SameAddress k e) ↔
      SpellingsKept desired entries := by
  constructor
  · rintro hstale e he ho ⟨k,hk,hsame⟩
    by_contra hno
    refine hstale e he ⟨ho,fun hmem => ?_⟩ k hk hsame
    obtain ⟨k',hk',heq⟩ := mem_desiredNorm.mp hmem
    exact hno ⟨k',hk',(normalizeAddr_entry_iff h hk' he ho).mp heq⟩
  · rintro hkept e he ⟨ho,hnot⟩ k hk hsame
    obtain ⟨k',hk',hrel⟩ := hkept e he ho ⟨k,hk,hsame⟩
    exact hnot (mem_desiredNorm.mpr ⟨k',hk',(normalizeAddr_entry_iff h hk' he ho).mpr hrel⟩)

end

/-- Texts compare like their networks exactly on the comparable pairs. In a diff of addresses the
unchanged ones have an entry of their network exactly if clashes are covered, and the entries
that the diff lets go have no desired network exactly if spellings are kept. -/
theorem address_comparison_iff (U : CaseMap) :
    (∀ a b n m, Spells a n → Spells b m →
      ((normalizeAddr U (some a) = normalizeAddr U (some b) ↔ n.Same m) ↔ Comparable a b n m)) ∧
    ∀ desired entries, Addressed desired entries →
      ((∀ k ∈ countedUnchanged U desired entries, ∃ e ∈ entries, isOwned e.comment = true ∧ SameAddress k e) ↔
        ClashesCovered desired entries) ∧
      ((∀ e ∈ entries, IsStale U desired e → ∀ k ∈ desiredKeys desired, ¬ SameAddress k e) ↔
        SpellingsKept desired entries) ∧
      ∀ h ∈ (reconcile U desired entries).toRemove, ∃ e ∈ entries, IsStale U desired e ∧ e.eid = h := by
  refine ⟨fun a b n m ha hb => normalizeAddr_faithful_iff ha hb,fun desired entries h => ?_⟩
  refine ⟨countedUnchanged_iff h,stale_iff h,fun handle hh => ?_⟩
  obtain ⟨e,he,hstale,hid,_⟩ := mem_toRemove hh
  exact ⟨e,he,hstale,hid⟩

/-! ## A range and a host of IPv6, and two spellings of one host -/

theorem spells_of_isSome {s : String} (hs : (ipNetwork s).isSome = true) (hzone : '%' ∉ s.toList) : ∃ n, Spells s n := by
  obtain ⟨n,hn⟩ := Option.isSome_iff_exists.mp hs
  exact ⟨n,hn,fun h => absurd h hzone⟩

theorem address_comparison_fails :
    (normalizeAddr .ascii (some "2001:db8::/32") = normalizeAddr .ascii (some "2001:db8::") ∧
      ∃ n m, Spells "2001:db8::/32" n ∧ Spells "2001:db8::" m ∧ ¬ n.Same m) ∧
    normalizeAddr .ascii (some "2001:db8:0::1") ≠ normalizeAddr .ascii (some "2001:db8::1") ∧
      ∃ n m, Spells "2001:db8:0::1" n ∧ Spells "2001:db8::1" m ∧ n.Same m := by
  obtain ⟨range,hrange⟩ := @spells_of_isSome "2001:db8::/32" (by decide) (by decide)
  obtain ⟨host,hhost⟩ := @spells_of_isSome "2001:db8::" (by decide) (by decide)
  obtain ⟨long,hlong⟩ := @spells_of_isSome "2001:db8:0::1" (by decide) (by decide)
  obtain ⟨short,hshort⟩ := @spells_of_isSome "2001:db8::1" (by decide) (by decide)
  refine ⟨⟨by decide,range,host,hrange,hhost,?_⟩,by decide,long,short,hlong,hshort,?_⟩
  · rintro ⟨_,hlen,_⟩
    have hrange32 : (ipNetwork "2001:db8::/32").map Network.prefixLen = some 32 := by decide
    have hhost128 : (ipNetwork "2001:db8::").map Network.prefixLen = some 128 := by decide
    rw [hrange.network, Option.map_some, hlen, ← Option.map_some, ← hhost.network, hhost128] at hrange32
    cases hrange32
  · have hequal : (ipNetwork "2001:db8:0::1").map (fun n => (n.version,n.prefixLen,n.base)) =
        (ipNetwork "2001:db8::1").map (fun n => (n.version,n.prefixLen,n.base)) := by decide
    rw [hlong.network, hshort.network, Option.map_some, Option.map_some, Option.some.injEq, Prod.mk.injEq, Prod.mk.injEq] at hequal
    exact hequal

def ipv6Ban : Decision := { value := some "2001:db8::/32", lapiId := some (.int 7) }

def ipv6Entry : Entry := { id := some "*1", address := some "2001:db8::", comment := some "protek:local:ssh-bf:3" }

/-- The range counts as present, and the entry of the host stays. -/
example : reconcile .ascii [ipv6Ban] [ipv6Entry] = { unchanged := 1 } := by decide

theorem ipv6_addressed : Addressed [ipv6Ban] [ipv6Entry] := by
  constructor
  · intro k hk
    have hkeys : desiredKeys [ipv6Ban] = ["2001:db8::/32"] := by decide
    rw [hkeys, List.mem_singleton] at hk
    rw [hk]
    exact spells_of_isSome (by decide) (by decide)
  · intro e he _
    rw [List.mem_singleton.mp he]
    obtain ⟨n,hn⟩ := @spells_of_isSome "2001:db8::" (by decide) (by decide)
    exact ⟨"2001:db8::",n,rfl,hn⟩

theorem address_comparison_iff_example :
    (∃ n m, Spells "2001:db8::/32" n ∧ Spells "2001:db8::" m ∧
      ((normalizeAddr .ascii (some "2001:db8::/32") = normalizeAddr .ascii (some "2001:db8::") ↔ n.Same m) ↔
        Comparable "2001:db8::/32" "2001:db8::" n m)) ∧
    ((∀ k ∈ countedUnchanged .ascii [ipv6Ban] [ipv6Entry], ∃ e ∈ [ipv6Entry], isOwned e.comment = true ∧ SameAddress k e) ↔
      ClashesCovered [ipv6Ban] [ipv6Entry]) := by
  obtain ⟨n,hn⟩ := @spells_of_isSome "2001:db8::/32" (by decide) (by decide)
  obtain ⟨m,hm⟩ := @spells_of_isSome "2001:db8::" (by decide) (by decide)
  exact ⟨⟨n,m,hn,hm,(address_comparison_iff .ascii).1 _ _ n m hn hm⟩,
    ((address_comparison_iff .ascii).2 [ipv6Ban] [ipv6Entry] ipv6_addressed).1⟩

end Protek.Diff
