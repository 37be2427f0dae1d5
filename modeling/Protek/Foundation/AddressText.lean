import Protek.Foundation.IpAddress
import Mathlib.Data.List.TakeWhile

/-! # Spellings of addresses

What an accepted text looks like: its characters, its parts around the slash, and
that upper and lower case are read alike.
-/
namespace Foundation.IpAddress
open PyText

/-! ## Case -/

theorem toNat_toLower (c : Char) : c.toLower.toNat = if 65 ≤ c.toNat ∧ c.toNat ≤ 90 then c.toNat + 32 else c.toNat := by
  unfold Char.toLower
  split
  · next h =>
    have hle : c.val.toNat ≤ 90 := h.2
    rw [if_pos ⟨h.1,h.2⟩]
    change (c.val + 32).toNat = c.val.toNat + 32
    rw [UInt32.toNat_add]
    change (c.val.toNat + 32) % 2 ^ 32 = _
    omega
  · next h => rw [if_neg (fun hc => h ⟨hc.1,hc.2⟩)]

theorem digit_toLower (b : ℕ) (c : Char) : digit b c.toLower = digit b c := by
  by_cases hup : 65 ≤ c.toNat ∧ c.toNat ≤ 90
  · have hn : c.toLower.toNat = c.toNat + 32 := by rw [toNat_toLower, if_pos hup]
    have hvalue : (if 48 ≤ c.toNat + 32 ∧ c.toNat + 32 ≤ 57 then c.toNat + 32 - 48
        else if 97 ≤ c.toNat + 32 ∧ c.toNat + 32 ≤ 102 then c.toNat + 32 - 87
        else if 65 ≤ c.toNat + 32 ∧ c.toNat + 32 ≤ 70 then c.toNat + 32 - 55 else b) =
        if 48 ≤ c.toNat ∧ c.toNat ≤ 57 then c.toNat - 48 else if 97 ≤ c.toNat ∧ c.toNat ≤ 102 then c.toNat - 87
        else if 65 ≤ c.toNat ∧ c.toNat ≤ 70 then c.toNat - 55 else b := by
      split_ifs <;> omega
    unfold digit
    simp only [hn, hvalue]
  · have hn : c.toLower.toNat = c.toNat := by rw [toNat_toLower, if_neg hup]
    unfold digit
    rw [hn]

/-- A character before `A` has no other case. -/
theorem toLower_eq_iff {c s : Char} (h : s.toNat < 65) : c.toLower = s ↔ c = s := by
  rw [← Char.toNat_inj, ← Char.toNat_inj, toNat_toLower]
  split <;> omega

theorem splitOn_map {α : Type*} [DecidableEq α] {f : α → α} {sep : α} (h : ∀ c, f c = sep ↔ c = sep) (cs : List α) :
    (cs.map f).splitOn sep = (cs.splitOn sep).map (List.map f) := by
  induction cs with
  | nil => rfl
  | cons c rest ih =>
    rw [List.map_cons, List.splitOn_cons_eq_if_modifyHead, List.splitOn_cons_eq_if_modifyHead, ih]
    by_cases hc : c = sep
    · simp [hc, (h sep).mpr rfl]
    · have hfc : f c ≠ sep := fun he => hc ((h c).mp he)
      simp only [beq_iff_eq, hc, hfc, if_false]
      cases rest.splitOn sep <;> rfl

theorem mapM_map_congr {α β : Type*} {f : α → Option β} {g : α → α} (h : ∀ a, f (g a) = f a) (l : List α) :
    (l.map g).mapM f = l.mapM f := by
  induction l with
  | nil => rfl
  | cons a rest ih => rw [List.map_cons, List.mapM_cons, List.mapM_cons, ih, h]

/-- The text in lower case. -/
def lower (cs : List Char) : List Char := cs.map Char.toLower

theorem digits_lower (b : ℕ) (cs : List Char) : digits b (lower cs) = digits b cs :=
  mapM_map_congr (digit_toLower b) cs

@[simp] theorem lower_eq_nil {cs : List Char} : lower cs = [] ↔ cs = [] := List.map_eq_nil_iff

theorem splitOn_lower {sep : Char} (h : sep.toNat < 65) (cs : List Char) :
    (lower cs).splitOn sep = (cs.splitOn sep).map lower := splitOn_map (fun _ => toLower_eq_iff h) cs

theorem mem_lower {sep : Char} (h : sep.toNat < 65) {cs : List Char} : sep ∈ lower cs ↔ sep ∈ cs := by
  rw [lower, List.mem_map]
  simp only [toLower_eq_iff h, exists_eq_right]

theorem parseOctet_lower (cs : List Char) : parseOctet (lower cs) = parseOctet cs := by
  have hzero : lower cs = ['0'] ↔ cs = ['0'] := by
    cases cs with
    | nil => simp [lower]
    | cons c rest => simp [lower, toLower_eq_iff (show '0'.toNat < 65 by decide)]
  have hhead : (lower cs).head? = some '0' ↔ cs.head? = some '0' := by
    cases cs with
    | nil => simp [lower]
    | cons c rest => simp [lower, toLower_eq_iff (show '0'.toNat < 65 by decide)]
  unfold parseOctet
  simp only [digits_lower, ne_eq, hzero, hhead]

theorem parseHextet_lower (cs : List Char) : parseHextet (lower cs) = parseHextet cs := by
  unfold parseHextet
  rw [digits_lower]

theorem v4FromString_lower (cs : List Char) : v4FromString (lower cs) = v4FromString cs := by
  unfold v4FromString
  rw [splitOn_lower (by decide), mapM_map_congr parseOctet_lower]

theorem lower_toDigits (n : ℕ) : lower (Nat.toDigits 16 n) = Nat.toDigits 16 n := by
  have hchar : ∀ d < 16, (Nat.digitChar d).toLower = Nat.digitChar d := by decide
  induction n using Nat.strongRecOn with
  | ind n ih =>
    rw [Nat.toDigits_eq_if (by omega)]
    split
    · next h => rw [lower, List.map_singleton, hchar n h]
    · next h =>
      have hrec := ih (n / 16) (by omega)
      rw [lower] at hrec
      rw [lower, List.map_append, hrec, List.map_singleton, hchar _ (Nat.mod_lt n (by omega))]

theorem getLastD_map_lower (ps : List (List Char)) : (ps.map lower).getLastD [] = lower (ps.getLastD []) := by
  rw [List.getLastD_eq_getLast?, List.getLastD_eq_getLast?, List.getLast?_map]
  cases ps.getLast? <;> rfl

theorem expandTail_lower (ps : List (List Char)) : expandTail (ps.map lower) = (expandTail ps).map (List.map lower) := by
  unfold expandTail
  rw [getLastD_map_lower, v4FromString_lower]
  simp only [mem_lower (show '.'.toNat < 65 by decide)]
  split
  · rw [Option.map_map]
    congr 1
    funext n
    simp [List.map_dropLast, lower_toDigits]
  · rfl

theorem skips_lower (ps : List (List Char)) : skips (ps.map lower) = skips ps := by
  unfold skips
  rw [List.length_map]
  refine List.filter_congr (fun i _ => ?_)
  have hempty : (ps.map lower)[i]? = some [] ↔ ps[i]? = some [] := by
    rw [List.getElem?_map]
    cases ps[i]? <;> simp
  simp only [hempty]

theorem trimEdge_lower (edge : List Char) (side : List (List Char)) :
    trimEdge (lower edge) (side.map lower) = (trimEdge edge side).map (List.map lower) := by
  unfold trimEdge
  simp only [lower_eq_nil, List.length_map]
  split
  · split <;> rfl
  · rfl

theorem hextets_lower (ps : List (List Char)) : hextets (ps.map lower) = hextets ps := by
  have hhead : (ps.map lower).headD [] = lower (ps.headD []) := by cases ps <;> rfl
  unfold hextets
  rw [skips_lower]
  split
  · rw [mapM_map_congr parseHextet_lower]
  · simp only [hhead, getLastD_map_lower, ← List.map_take, ← List.map_drop, trimEdge_lower, Option.bind_eq_bind,
      Option.bind_map, Function.comp_def, mapM_map_congr parseHextet_lower]
  · rfl

theorem v6FromString_val (cs : List Char) : (v6FromString cs).map Fin.val =
    if (cs.splitOn ':').length < 3 then none
    else (expandTail (cs.splitOn ':')).bind (fun ps => if 9 < ps.length then none else (hextets ps).map (ofDigits 65536)) := by
  unfold v6FromString
  dsimp only
  split
  · rfl
  · rw [Option.bind_eq_bind, Option.map_bind]
    congr 1
    funext ps
    dsimp only [Function.comp]
    split
    · rfl
    · split
      · next hs => exact (congrArg (Option.map (ofDigits 65536)) hs).symm
      · next hs => exact (congrArg (Option.map (ofDigits 65536)) hs).symm

theorem v6FromString_lower (cs : List Char) : v6FromString (lower cs) = v6FromString cs := by
  refine Option.map_injective (fun _ _ => Fin.ext) ?_
  rw [v6FromString_val, v6FromString_val, splitOn_lower (by decide), List.length_map, expandTail_lower, Option.bind_map]
  simp only [Function.comp_def, List.length_map, hextets_lower]

theorem splitScopeId_lower (cs : List Char) :
    (splitScopeId (lower cs)).map Prod.fst = (splitScopeId cs).map (fun p => lower p.1) := by
  have hmark : (fun c => decide (c ≠ '%')) ∘ Char.toLower = fun c => decide (c ≠ '%') := by
    funext c
    simp only [Function.comp, ne_eq, toLower_eq_iff (show '%'.toNat < 65 by decide)]
  have hscope : ∀ scope : List Char, ((lower scope = [] ∨ '%' ∈ lower scope) ↔ (scope = [] ∨ '%' ∈ scope)) := fun scope =>
    or_congr lower_eq_nil (mem_lower (by decide))
  unfold splitScopeId
  rw [lower, List.dropWhile_map, List.takeWhile_map, hmark]
  cases cs.dropWhile (fun c => decide (c ≠ '%')) with
  | nil => rfl
  | cons c scope =>
    rw [List.map_cons]
    change Option.map _ (if lower scope = [] ∨ '%' ∈ lower scope then _ else _) = _
    simp only [hscope]
    split <;> rfl

theorem address_v6_val (cs : List Char) (h : '/' ∉ cs) : (address .v6 cs).map Address.value =
    (splitScopeId cs).bind (fun p => (v6FromString p.1).map Fin.val) := by
  unfold address
  rw [if_neg h]
  dsimp only
  rw [Option.bind_eq_bind, Option.map_bind]
  congr 1
  funext p
  obtain ⟨text,scope⟩ := p
  dsimp only [Function.comp]
  rw [Option.map_map]
  rfl

/-- Both cases of an address are one number; the case of a zone stays. -/
theorem address_lower (v : Version) (cs : List Char) :
    (address v (lower cs)).map Address.value = (address v cs).map Address.value := by
  by_cases hslash : '/' ∈ cs
  · have hlower : '/' ∈ lower cs := (mem_lower (by decide)).mpr hslash
    simp only [address, hslash, hlower, if_true, Option.map_none]
  · have hlower : '/' ∉ lower cs := fun h => hslash ((mem_lower (by decide)).mp h)
    cases v with
    | v4 =>
      unfold address
      rw [if_neg hslash, if_neg hlower]
      dsimp only
      rw [v4FromString_lower]
    | v6 =>
      have hsplit := splitScopeId_lower cs
      rw [address_v6_val _ hslash, address_v6_val _ hlower]
      cases hs : splitScopeId cs with
      | none =>
        rw [hs] at hsplit
        rw [Option.map_eq_none_iff.mp hsplit]
      | some p =>
        rw [hs] at hsplit
        obtain ⟨q,hq,hfst⟩ := Option.map_eq_some_iff.mp hsplit
        rw [hq, Option.bind_some, Option.bind_some, hfst, v6FromString_lower]

theorem makeNetmask_lower (v : Version) (mask : List Char) :
    makeNetmask v (some (lower mask)) = makeNetmask v (some mask) := by
  have hdecimal : ∀ bits, prefixFromString bits (lower mask) = prefixFromString bits mask := by
    intro bits
    unfold prefixFromString
    rw [digits_lower]
  cases v with
  | v4 =>
    change (prefixFromString 32 (lower mask)).or (prefixFromIpString (lower mask)) =
      (prefixFromString 32 mask).or (prefixFromIpString mask)
    unfold prefixFromIpString
    rw [hdecimal, v4FromString_lower]
  | v6 => exact hdecimal 128

/-! ## Characters -/

/-- A digit of a base up to 16. -/
def IsHexDigit (c : Char) : Prop :=
  (48 ≤ c.toNat ∧ c.toNat ≤ 57) ∨ (65 ≤ c.toNat ∧ c.toNat ≤ 70) ∨ (97 ≤ c.toNat ∧ c.toNat ≤ 102)

theorem isHexDigit_of_digit {b : ℕ} {c : Char} (h : (digit b c).isSome = true) : IsHexDigit c := by
  by_contra hno
  unfold IsHexDigit at hno
  have hnone : digit b c = none := by
    unfold digit
    dsimp only
    rw [dif_neg]
    split_ifs <;> omega
  rw [hnone] at h
  cases h

theorem mapM_isSome {α β : Type*} {f : α → Option β} {l : List α} (h : (l.mapM f).isSome = true) :
    ∀ a ∈ l, (f a).isSome = true := by
  induction l with
  | nil => simp
  | cons a rest ih =>
    obtain ⟨r,hr⟩ := Option.isSome_iff_exists.mp h
    rw [List.mapM_cons] at hr
    obtain ⟨b,hb,hr⟩ := Option.bind_eq_some_iff.mp hr
    obtain ⟨bs,hbs,_⟩ := Option.bind_eq_some_iff.mp hr
    intro x hx
    rcases List.mem_cons.mp hx with rfl | hx
    · exact Option.isSome_of_eq_some hb
    · exact ih (Option.isSome_of_eq_some hbs) x hx

theorem isHexDigit_of_digits {b : ℕ} {cs : List Char} (h : (digits b cs).isSome = true) : ∀ c ∈ cs, IsHexDigit c :=
  fun c hc => isHexDigit_of_digit (mapM_isSome h c hc)

/-- A character of a text is a separator or stands in one of the parts. -/
theorem mem_splitOn {α : Type*} [DecidableEq α] {sep c : α} {cs : List α} (h : c ∈ cs) :
    c = sep ∨ ∃ p ∈ cs.splitOn sep, c ∈ p := by
  induction cs with
  | nil => cases h
  | cons d rest ih =>
    obtain ⟨p,ps,hps⟩ := List.exists_cons_of_ne_nil (List.splitOn_ne_nil sep rest)
    rw [List.splitOn_cons_eq_if_modifyHead]
    rw [hps] at ih ⊢
    by_cases hd : d = sep
    · rcases List.mem_cons.mp h with rfl | h
      · exact Or.inl hd
      · exact (ih h).imp_right (fun ⟨q,hq,hcq⟩ => ⟨q,by simp [hd, hq],hcq⟩)
    · simp only [beq_iff_eq, hd, if_false, List.modifyHead_cons]
      rcases List.mem_cons.mp h with rfl | h
      · exact Or.inr ⟨c :: p,List.mem_cons_self,List.mem_cons_self⟩
      · refine (ih h).imp_right (fun ⟨q,hq,hcq⟩ => ?_)
        rcases List.mem_cons.mp hq with rfl | hq
        · exact ⟨d :: q,List.mem_cons_self,List.mem_cons_of_mem _ hcq⟩
        · exact ⟨q,List.mem_cons_of_mem _ hq,hcq⟩

theorem chars_v4FromString {cs : List Char} {n : Fin (2 ^ 32)} (h : v4FromString cs = some n) :
    ∀ c ∈ cs, c = '.' ∨ IsHexDigit c := by
  obtain ⟨octets,hoctets,_⟩ := Option.bind_eq_some_iff.mp h
  intro c hc
  refine (@mem_splitOn _ _ '.' c cs hc).imp_right ?_
  rintro ⟨p,hp,hcp⟩
  obtain ⟨o,ho⟩ := Option.isSome_iff_exists.mp (mapM_isSome (Option.isSome_of_eq_some hoctets) p hp)
  obtain ⟨ds,hds,_⟩ := Option.bind_eq_some_iff.mp ho
  exact isHexDigit_of_digits (Option.isSome_of_eq_some hds) c hcp

theorem chars_parseHextet {p : List Char} (h : (parseHextet p).isSome = true) : ∀ c ∈ p, IsHexDigit c := by
  obtain ⟨n,hn⟩ := Option.isSome_iff_exists.mp h
  obtain ⟨ds,hds,_⟩ := Option.bind_eq_some_iff.mp hn
  exact isHexDigit_of_digits (Option.isSome_of_eq_some hds)

/-- A side that is trimmed away held its empty edge alone. -/
theorem chars_trimEdge {edge : List Char} {side r : List (List Char)} (hr : trimEdge edge side = some r)
    (hone : side.length = 1 → side = [edge]) (hparsed : (r.mapM parseHextet).isSome = true) :
    ∀ p ∈ side, ∀ c ∈ p, IsHexDigit c := by
  intro p hp
  unfold trimEdge at hr
  split at hr
  · next he =>
    split at hr
    · next hlen =>
      rw [hone hlen, List.mem_singleton] at hp
      rw [hp, he]
      simp
    · cases hr
  · cases hr
    exact chars_parseHextet (mapM_isSome hparsed p hp)

theorem take_eq_headD {α : Type*} {l : List α} {i : ℕ} (hlen : (l.take i).length = 1) (d : α) : l.take i = [l.headD d] := by
  obtain ⟨q,hq⟩ := List.length_eq_one_iff.mp hlen
  have hl : l = q :: l.drop i := by rw [← List.singleton_append, ← hq, List.take_append_drop]
  rw [hq, hl, List.headD_cons]

theorem drop_eq_getLastD {α : Type*} {l : List α} {i : ℕ} (hlen : (l.drop i).length = 1) (d : α) :
    l.drop i = [l.getLastD d] := by
  obtain ⟨q,hq⟩ := List.length_eq_one_iff.mp hlen
  have hl : l = l.take i ++ [q] := by rw [← hq, List.take_append_drop]
  rw [hq, hl, List.getLastD_concat]

/-- The parts of an accepted address are empty or hextets. -/
theorem chars_hextets {ps : List (List Char)} (h : (hextets ps).isSome = true) :
    ∀ p ∈ ps, ∀ c ∈ p, IsHexDigit c := by
  unfold hextets at h
  split at h
  · obtain ⟨r,hr⟩ := Option.isSome_iff_exists.mp h
    obtain ⟨hs,hhs,_⟩ := Option.bind_eq_some_iff.mp hr
    exact fun p hp => chars_parseHextet (mapM_isSome (Option.isSome_of_eq_some hhs) p hp)
  · next i hi =>
    obtain ⟨r,hr⟩ := Option.isSome_iff_exists.mp h
    obtain ⟨front,hfront,hr⟩ := Option.bind_eq_some_iff.mp hr
    obtain ⟨back,hback,hr⟩ := Option.bind_eq_some_iff.mp hr
    obtain ⟨hs,hhs,hr⟩ := Option.bind_eq_some_iff.mp hr
    obtain ⟨ls,hls,_⟩ := Option.bind_eq_some_iff.mp hr
    have hmem : i ∈ skips ps := hi ▸ List.mem_singleton_self i
    have hskip : 1 ≤ i ∧ i + 1 < ps.length ∧ ps[i]? = some [] := by
      simpa using (List.mem_filter.mp hmem).2
    have hi : i < ps.length := by omega
    intro p hp
    rw [← List.take_append_drop i ps, List.drop_eq_getElem_cons hi, List.mem_append, List.mem_cons] at hp
    rcases hp with hp | hp | hp
    · exact chars_trimEdge hfront (fun hlen => take_eq_headD hlen []) (Option.isSome_of_eq_some hhs) p hp
    · -- the place of the `::`
      have hnil : ps[i] = [] := by simpa [List.getElem?_eq_getElem hi] using hskip.2.2
      rw [hp, hnil]
      simp
    · exact chars_trimEdge hback (fun hlen => drop_eq_getLastD hlen []) (Option.isSome_of_eq_some hls) p hp
  · cases h

theorem chars_v6FromString {cs : List Char} {n : Fin (2 ^ 128)} (h : v6FromString cs = some n) :
    ∀ c ∈ cs, c = ':' ∨ c = '.' ∨ IsHexDigit c := by
  have hval := congrArg (Option.map Fin.val) h
  rw [v6FromString_val] at hval
  split at hval
  · cases hval
  · obtain ⟨ps,hps,hval⟩ := Option.bind_eq_some_iff.mp hval
    split at hval
    · cases hval
    · obtain ⟨hs,hhs,_⟩ := Option.map_eq_some_iff.mp hval
      have hparts := chars_hextets (Option.isSome_of_eq_some hhs)
      intro c hc
      refine (@mem_splitOn _ _ ':' c cs hc).imp_right ?_
      rintro ⟨p,hp,hcp⟩
      unfold expandTail at hps
      split at hps
      · -- the last part is an IPv4 address, the others are hextets
        obtain ⟨tail,htail,rfl⟩ := Option.map_eq_some_iff.mp hps
        obtain ⟨front,q,hfront⟩ := (List.eq_nil_or_concat (cs.splitOn ':')).resolve_left (List.splitOn_ne_nil ':' cs)
        rw [List.concat_eq_append] at hfront
        rw [hfront, List.getLastD_concat] at htail
        rw [hfront, List.dropLast_concat] at hparts
        rw [hfront, List.mem_append, List.mem_singleton] at hp
        rcases hp with hp | rfl
        · exact Or.inr (hparts p (List.mem_append_left _ hp) c hcp)
        · obtain ⟨n,hn,_⟩ := Option.bind_eq_some_iff.mp htail
          exact chars_v4FromString hn c hcp
      · cases hps
        exact Or.inr (hparts p hp c hcp)

theorem colon_mem_of_v6FromString {cs : List Char} {n : Fin (2 ^ 128)} (h : v6FromString cs = some n) : ':' ∈ cs := by
  by_contra hno
  have hval := congrArg (Option.map Fin.val) h
  rw [v6FromString_val, List.splitOn_eq_singleton hno, if_pos (by simp)] at hval
  cases hval

theorem subset_of_splitScopeId {cs text : List Char} {scope : Option String} (h : splitScopeId cs = some (text,scope)) :
    text ⊆ cs ∧ ('%' ∉ cs → text = cs) := by
  unfold splitScopeId at h
  split at h
  · cases h
    exact ⟨List.Subset.refl _,fun _ => rfl⟩
  · next c rest hdrop =>
    split at h
    · cases h
    · cases h
      refine ⟨(List.takeWhile_prefix _).subset,fun hzone => ?_⟩
      have hall : cs.dropWhile (fun c => decide (c ≠ '%')) = [] :=
        List.dropWhile_eq_nil_iff.mpr (fun c hc => decide_eq_true (fun he => hzone (he ▸ hc)))
      rw [hall] at hdrop
      cases hdrop

/-- IPv6 addresses have a colon, IPv4 addresses none. -/
theorem colon_mem_iff {v : Version} {cs : List Char} {a : Address} (h : address v cs = some a) : ':' ∈ cs ↔ v = .v6 := by
  have hslash := slash_not_mem h
  cases v with
  | v4 =>
    simp only [address, if_neg hslash] at h
    obtain ⟨n,hn,_⟩ := Option.map_eq_some_iff.mp h
    refine iff_of_false (fun hm => ?_) (by decide)
    rcases chars_v4FromString hn ':' hm with hc | hc
    · cases hc
    · revert hc
      unfold IsHexDigit
      decide
  | v6 =>
    simp only [address, if_neg hslash] at h
    obtain ⟨⟨text,scope⟩,hsplit,h⟩ := Option.bind_eq_some_iff.mp h
    obtain ⟨n,hn,_⟩ := Option.map_eq_some_iff.mp h
    exact iff_of_true ((subset_of_splitScopeId hsplit).1 (colon_mem_of_v6FromString hn)) rfl

/-- An address without a zone has digits, points and colons. -/
theorem chars_address {v : Version} {cs : List Char} {a : Address} (h : address v cs = some a) (hzone : '%' ∉ cs) :
    ∀ c ∈ cs, c = ':' ∨ c = '.' ∨ IsHexDigit c := by
  have hslash := slash_not_mem h
  cases v with
  | v4 =>
    simp only [address, if_neg hslash] at h
    obtain ⟨n,hn,_⟩ := Option.map_eq_some_iff.mp h
    exact fun c hc => Or.inr (chars_v4FromString hn c hc)
  | v6 =>
    simp only [address, if_neg hslash] at h
    obtain ⟨⟨text,scope⟩,hsplit,h⟩ := Option.bind_eq_some_iff.mp h
    obtain ⟨n,hn,_⟩ := Option.map_eq_some_iff.mp h
    obtain rfl := (subset_of_splitScopeId hsplit).2 hzone
    exact chars_v6FromString hn

theorem chars_makeNetmask {v : Version} {mask : List Char} (h : (makeNetmask v (some mask)).isSome = true) :
    ∀ c ∈ mask, c = '.' ∨ IsHexDigit c := by
  have hdecimal : ∀ bits, (prefixFromString bits mask).isSome = true → ∀ c ∈ mask, IsHexDigit c := by
    intro bits hp
    obtain ⟨p,hp⟩ := Option.isSome_iff_exists.mp hp
    obtain ⟨ds,hds,_⟩ := Option.bind_eq_some_iff.mp hp
    exact isHexDigit_of_digits (Option.isSome_of_eq_some hds)
  cases v with
  | v4 =>
    change ((prefixFromString 32 mask).or (prefixFromIpString mask)).isSome = true at h
    rw [Option.isSome_or, Bool.or_eq_true] at h
    rcases h with h | h
    · exact fun c hc => Or.inr (hdecimal 32 h c hc)
    · obtain ⟨p,hp⟩ := Option.isSome_iff_exists.mp h
      obtain ⟨n,hn,_⟩ := Option.bind_eq_some_iff.mp hp
      exact chars_v4FromString hn
  | v6 => exact fun c hc => Or.inr (hdecimal 128 h c hc)

/-! ## Parts -/

def Plain (cs : List Char) : Prop := ∀ c ∈ cs, c.toNat < 128 ∧ isSpace c = false

theorem IsHexDigit.plain {c : Char} (h : IsHexDigit c) : c.toNat < 128 ∧ isSpace c = false := by
  unfold IsHexDigit at h
  refine ⟨by omega,?_⟩
  simp only [isSpace, Bool.or_eq_false_iff, Bool.and_eq_false_iff, decide_eq_false_iff_not, beq_eq_false_iff_ne]
  omega

theorem IsHexDigit.ne_slash {c : Char} (h : IsHexDigit c) : c ≠ '/' := by
  rintro rfl
  revert h
  unfold IsHexDigit
  decide

def maskChars : Option (List Char) → List Char
  | none => []
  | some m => '/' :: m

/-- `ip_network` takes the text, host bits set or not; a zone, where there is one, is plain ASCII. -/
structure Spells (s : String) (n : Network) : Prop where
  network : ipNetwork s = some n
  zone : '%' ∈ s.toList → Plain s.toList

def Network.Same (n m : Network) : Prop := n.version = m.version ∧ n.prefixLen = m.prefixLen ∧ n.base = m.base

theorem network_eq_some {v : Version} {cs : List Char} {mask : Option (List Char)} {n : Network}
    (h : network v cs mask = some n) : ∃ (a : Address) (p : {p // p ≤ v.bits}), address v cs = some a ∧
      makeNetmask v mask = some p ∧ n.version = v ∧ n.prefixLen = p.val ∧
      n.base = a.value / 2 ^ (v.bits - p.val) * 2 ^ (v.bits - p.val) := by
  unfold network at h
  split at h
  · cases h
  · next a ha =>
    obtain ⟨p,hp,rfl⟩ := Option.map_eq_some_iff.mp h
    obtain rfl := address_version ha
    exact ⟨a,p,ha,hp,rfl,rfl,rfl⟩

/-- An accepted text is an address, alone or with a slash and a mask after it. -/
theorem ipNetwork_parts {s : String} {n : Network} (h : ipNetwork s = some n) :
    ∃ cs mask, s.toList = cs ++ maskChars mask ∧ network n.version cs mask = some n := by
  have hjoin : ['/'].intercalate (s.toList.splitOn '/') = s.toList := List.intercalate_splitOn '/'
  have hversion : ∀ cs mask, (network .v4 cs mask).or (network .v6 cs mask) = some n →
      network n.version cs mask = some n := by
    intro cs mask hor
    rcases Option.or_eq_some_iff.mp hor with h4 | ⟨_,h6⟩
    · obtain ⟨_,_,_,_,hv,_⟩ := network_eq_some h4
      rw [hv, h4]
    · obtain ⟨_,_,_,_,hv,_⟩ := network_eq_some h6
      rw [hv, h6]
  unfold ipNetwork at h
  split at h
  · next cs hsplit =>
    rw [hsplit] at hjoin
    exact ⟨cs,none,by simpa [maskChars] using hjoin.symm,hversion cs none h⟩
  · next cs mask hsplit =>
    rw [hsplit] at hjoin
    exact ⟨cs,some mask,by simpa [maskChars, List.intercalate] using hjoin.symm,hversion cs (some mask) h⟩
  · cases h

theorem slash_not_mem_mask {v : Version} {mask : List Char} (h : (makeNetmask v (some mask)).isSome = true) : '/' ∉ mask := by
  intro hm
  rcases chars_makeNetmask h '/' hm with hc | hc
  · cases hc
  · exact hc.ne_slash rfl

theorem Spells.plain {s : String} {n : Network} (h : Spells s n) : Plain s.toList := by
  by_cases hzone : '%' ∈ s.toList
  · exact h.zone hzone
  · obtain ⟨cs,mask,hs,hn⟩ := ipNetwork_parts h.network
    obtain ⟨a,p,ha,hp,_⟩ := network_eq_some hn
    have haddress := chars_address ha (fun hm => hzone (hs ▸ List.mem_append_left _ hm))
    have hseparator : ∀ c : Char, c = ':' ∨ c = '.' ∨ c = '/' → c.toNat < 128 ∧ isSpace c = false := by
      rintro c (rfl | rfl | rfl) <;> decide
    intro c hc
    rw [hs, List.mem_append] at hc
    rcases hc with hc | hc
    · rcases haddress c hc with hc | hc | hc
      · exact hseparator c (Or.inl hc)
      · exact hseparator c (Or.inr (Or.inl hc))
      · exact hc.plain
    · cases mask with
      | none => cases hc
      | some m =>
        rcases List.mem_cons.mp hc with hc | hc
        · exact hseparator c (Or.inr (Or.inr hc))
        · rcases chars_makeNetmask (Option.isSome_of_eq_some hp) c hc with hc | hc
          · exact hseparator c (Or.inr (Or.inl hc))
          · exact hc.plain

/-- Two texts of one family with the same address up to case and the same prefix denote one network. -/
theorem Network.same_of_lower {v : Version} {cs cs' : List Char} {mask mask' : Option (List Char)} {n m : Network}
    (hn : network v cs mask = some n) (hm : network v cs' mask' = some m) (hcs : lower cs = lower cs')
    (hmask : makeNetmask v mask = makeNetmask v mask') : n.Same m := by
  obtain ⟨a,p,ha,hp,hv,hlen,hbase⟩ := network_eq_some hn
  obtain ⟨b,q,hb,hq,hv',hlen',hbase'⟩ := network_eq_some hm
  have hpq : p = q := Option.some.inj (hp.symm.trans (hmask.trans hq))
  have hvalue : a.value = b.value := by
    have h := (address_lower v cs).symm.trans ((congrArg (fun t => (address v t).map Address.value) hcs).trans (address_lower v cs'))
    rw [ha, hb] at h
    exact Option.some.inj h
  refine ⟨hv.trans hv'.symm,?_,?_⟩
  · rw [hlen, hlen', hpq]
  · rw [hbase, hbase', hpq, hvalue]

/-! ## Texts that are no address -/

/-- No address has in second place a letter that is no digit. -/
theorem address_eq_none {v : Version} {a b : Char} {rest : List Char} (ha : a ≠ '%') (hb : b ≠ '%')
    (hno : ¬ (b = ':' ∨ b = '.' ∨ IsHexDigit b)) : address v (a :: b :: rest) = none := by
  by_contra hsome
  obtain ⟨x,hx⟩ := Option.ne_none_iff_exists'.mp hsome
  have hslash := slash_not_mem hx
  cases v with
  | v4 =>
    simp only [address, if_neg hslash] at hx
    obtain ⟨n,hn,_⟩ := Option.map_eq_some_iff.mp hx
    exact hno (Or.inr (chars_v4FromString hn b (by simp)))
  | v6 =>
    simp only [address, if_neg hslash] at hx
    obtain ⟨⟨text,scope⟩,hsplit,hx⟩ := Option.bind_eq_some_iff.mp hx
    obtain ⟨n,hn,_⟩ := Option.map_eq_some_iff.mp hx
    refine hno (chars_v6FromString hn b ?_)
    -- a zone begins after the two characters
    unfold splitScopeId at hsplit
    split at hsplit
    · cases hsplit
      simp
    · split at hsplit
      · cases hsplit
      · cases hsplit
        simp [ha, hb]

/-- A slash that stands further on begins the mask. -/
theorem front_of_maskChars {a b : Char} {rest cs : List Char} {mask : Option (List Char)} (ha : a ≠ '/') (hb : b ≠ '/')
    (h : a :: b :: rest = cs ++ maskChars mask) : ∃ tail, cs = a :: b :: tail := by
  rcases cs with _ | ⟨c,_ | ⟨d,cs⟩⟩
  · cases mask with
    | none => cases h
    | some m => exact absurd (List.cons.inj h).1 ha
  · cases mask with
    | none => cases h
    | some m => exact absurd (List.cons.inj (List.cons.inj h).2).1 hb
  · obtain ⟨hca,htail⟩ := List.cons.inj h
    obtain ⟨hdb,_⟩ := List.cons.inj htail
    exact ⟨cs,by rw [hca, hdb]⟩

theorem ipNetwork_eq_none {s : String} {a b : Char} {rest : List Char} (hs : s.toList = a :: b :: rest) (ha : a ≠ '%' ∧ a ≠ '/')
    (hb : b ≠ '%' ∧ b ≠ '/') (hno : ¬ (b = ':' ∨ b = '.' ∨ IsHexDigit b)) : ipNetwork s = none := by
  by_contra hsome
  obtain ⟨n,hn⟩ := Option.ne_none_iff_exists'.mp hsome
  obtain ⟨cs,mask,hparts,hnet⟩ := ipNetwork_parts hn
  obtain ⟨x,_,haddress,_⟩ := network_eq_some hnet
  obtain ⟨tail,rfl⟩ := front_of_maskChars ha.2 hb.2 (hs.symm.trans hparts)
  rw [address_eq_none ha.1 hb.1 hno] at haddress
  cases haddress

end Foundation.IpAddress
