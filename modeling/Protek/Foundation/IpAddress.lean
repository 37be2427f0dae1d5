import Protek.Foundation.PyText

/-! # Python's `ipaddress`

`ip_address` and `ip_network(…, strict=False)` on text, membership of an address
in a network, and the texts that `str` gives back. An address is a number below
`2 ^ bits`; a network is an aligned block of them. Strings are taken apart as
character lists, and the bounds come with the parse.
-/
namespace Foundation.IpAddress
open PyText

inductive Version
  | v4
  | v6
  deriving DecidableEq, Repr

def Version.bits : Version → ℕ
  | .v4 => 32
  | .v6 => 128

/-! ## Addresses -/

def parseOctet (cs : List Char) : Option (Fin 256) := do
  let ds ← digits 10 cs
  if ds = [] ∨ 3 < ds.length ∨ (cs ≠ ['0'] ∧ cs.head? = some '0') then none
  else if h : ofDigits 10 ds < 256 then some ⟨ofDigits 10 ds,h⟩ else none

def parseHextet (cs : List Char) : Option (Fin 65536) := do
  let ds ← digits 16 cs
  if h : ds ≠ [] ∧ ds.length ≤ 4 then
    some ⟨ofDigits 16 ds,(ofDigits_lt ds).trans_le (Nat.pow_le_pow_right (by omega) h.2)⟩
  else none

/-- `IPv4Address._ip_int_from_string`. -/
def v4FromString (cs : List Char) : Option (Fin (2 ^ 32)) := do
  let octets ← (cs.splitOn '.').mapM parseOctet
  if h : octets.length = 4 then some ⟨ofDigits 256 octets,(ofDigits_lt_of_length h).trans_eq (by norm_num)⟩ else none

/-- An IPv4 tail stands for two hextets. -/
def expandTail (parts : List (List Char)) : Option (List (List Char)) :=
  if '.' ∈ parts.getLastD [] then
    (v4FromString (parts.getLastD [])).map (fun n =>
      parts.dropLast ++ [Nat.toDigits 16 (n / 65536),Nat.toDigits 16 (n % 65536)])
  else some parts

/-- The places of a `::`, the end points aside. -/
def skips (parts : List (List Char)) : List ℕ :=
  (List.range parts.length).filter (fun i => 1 ≤ i ∧ i + 1 < parts.length ∧ parts[i]? = some [])

/-- A side of the `::` that begins or ends the text must be empty but for that end. -/
def trimEdge (edge : List Char) (side : List (List Char)) : Option (List (List Char)) :=
  if edge = [] then (if side.length = 1 then some [] else none) else some side

def hextets (parts : List (List Char)) : Option (List (Fin 65536)) :=
  match skips parts with
  | [] => do
    let hs ← parts.mapM parseHextet
    if hs.length = 8 then some hs else none
  | [i] => do
    let hi ← trimEdge (parts.headD []) (parts.take i)
    let lo ← trimEdge (parts.getLastD []) (parts.drop (i + 1))
    let hs ← hi.mapM parseHextet
    let ls ← lo.mapM parseHextet
    if 8 ≤ hs.length + ls.length then none
    else some (hs ++ List.replicate (8 - (hs.length + ls.length)) 0 ++ ls)
  | _ => none

theorem hextets_length {parts : List (List Char)} {hs : List (Fin 65536)} (h : hextets parts = some hs) :
    hs.length = 8 := by
  unfold hextets at h
  split at h
  · obtain ⟨l,_,hl⟩ := Option.bind_eq_some_iff.mp h
    split at hl
    · next hlen => rwa [← Option.some.inj hl]
    · cases hl
  · obtain ⟨hi,_,h⟩ := Option.bind_eq_some_iff.mp h
    obtain ⟨lo,_,h⟩ := Option.bind_eq_some_iff.mp h
    obtain ⟨l,_,h⟩ := Option.bind_eq_some_iff.mp h
    obtain ⟨r,_,h⟩ := Option.bind_eq_some_iff.mp h
    split at h
    · cases h
    · rw [← Option.some.inj h]
      simp only [List.length_append, List.length_replicate]
      omega
  · cases h

/-- `IPv6Address._ip_int_from_string`. -/
def v6FromString (cs : List Char) : Option (Fin (2 ^ 128)) := do
  let parts := cs.splitOn ':'
  if parts.length < 3 then none
  else
    let parts ← expandTail parts
    if 9 < parts.length then none
    else
      match h : hextets parts with
      | some hs => some ⟨ofDigits 65536 hs,(ofDigits_lt_of_length (hextets_length h)).trans_eq (by norm_num)⟩
      | none => none

/-- `_split_scope_id`. -/
def splitScopeId (cs : List Char) : Option (List Char × Option String) :=
  match cs.dropWhile (fun c => c ≠ '%') with
  | [] => some (cs,none)
  | _ :: scope =>
    if scope = [] ∨ '%' ∈ scope then none else some (cs.takeWhile (fun c => c ≠ '%'),some (String.ofList scope))

structure Address where
  version : Version
  value : ℕ
  lt : value < 2 ^ version.bits
  scopeId : Option String := none
  deriving DecidableEq, Repr

def address (v : Version) (cs : List Char) : Option Address :=
  if '/' ∈ cs then none
  else match v with
    | .v4 => (v4FromString cs).map (fun n : Fin (2 ^ 32) => ⟨.v4,n.val,n.isLt,none⟩)
    | .v6 => do
      let (text,scope) ← splitScopeId cs
      (v6FromString text).map (fun n : Fin (2 ^ 128) => ⟨.v6,n.val,n.isLt,scope⟩)

def ipAddress (s : String) : Option Address := (address .v4 s.toList).or (address .v6 s.toList)

/-! ## Networks -/

structure Network where
  version : Version
  prefixLen : ℕ
  prefix_le : prefixLen ≤ version.bits
  base : ℕ
  base_lt : base < 2 ^ version.bits
  base_aligned : 2 ^ (version.bits - prefixLen) ∣ base
  scopeId : Option String := none

def Network.hostBits (n : Network) : ℕ := n.version.bits - n.prefixLen

def Network.contains (n : Network) (a : Address) : Bool :=
  n.version = a.version ∧ a.value / 2 ^ n.hostBits * 2 ^ n.hostBits = n.base

/-- The address with its host bits masked away; a scope stays only where nothing was masked. -/
def Address.network (a : Address) (p : ℕ) (hp : p ≤ a.version.bits) : Network :=
  let block := 2 ^ (a.version.bits - p)
  { version := a.version
    prefixLen := p
    prefix_le := hp
    base := a.value / block * block
    base_lt := (Nat.div_mul_le_self _ _).trans_lt a.lt
    base_aligned := Nat.dvd_mul_left _ _
    scopeId := if a.value / block * block = a.value then a.scopeId else none }

/-- `_prefix_from_prefix_string`. -/
def prefixFromString (bits : ℕ) (mask : List Char) : Option {p // p ≤ bits} := do
  let ds ← digits 10 mask
  if h : ds ≠ [] ∧ ofDigits 10 ds ≤ bits then some ⟨ofDigits 10 ds,h.2⟩ else none

/-- `_prefix_from_ip_int`: the mask of `p` leading ones. -/
def prefixFromIpInt (n : ℕ) : Option {p // p ≤ 32} :=
  ((List.finRange 33).find? (fun p => n = 2 ^ 32 - 2 ^ (32 - p.val))).map (fun p : Fin 33 => ⟨p.val,Nat.le_of_lt_succ p.isLt⟩)

/-- A netmask or, failing that, a host mask. -/
def prefixFromIpString (mask : List Char) : Option {p // p ≤ 32} := do
  let n ← v4FromString mask
  (prefixFromIpInt n).or (prefixFromIpInt (2 ^ 32 - 1 - n))

def makeNetmask (v : Version) (mask : Option (List Char)) : Option {p // p ≤ v.bits} :=
  match mask, v with
  | none, v => some ⟨v.bits,le_rfl⟩
  | some m, .v4 => (prefixFromString 32 m).or (prefixFromIpString m)
  | some m, .v6 => prefixFromString 128 m

theorem address_version {v : Version} {cs : List Char} {a : Address} (h : address v cs = some a) : a.version = v := by
  unfold address at h
  split at h
  · cases h
  · cases v with
    | v4 =>
      obtain ⟨n,_,rfl⟩ := Option.map_eq_some_iff.mp h
      rfl
    | v6 =>
      obtain ⟨_,_,h⟩ := Option.bind_eq_some_iff.mp h
      obtain ⟨n,_,rfl⟩ := Option.map_eq_some_iff.mp h
      rfl

def network (v : Version) (cs : List Char) (mask : Option (List Char)) : Option Network :=
  match h : address v cs with
  | none => none
  | some a => (makeNetmask v mask).map (fun p : {p // p ≤ v.bits} => a.network p.val (address_version h ▸ p.2))

/-- `ip_network(s, strict=False)`. -/
def ipNetwork (s : String) : Option Network :=
  match s.toList.splitOn '/' with
  | [cs] => (network .v4 cs none).or (network .v6 cs none)
  | [cs,mask] => (network .v4 cs (some mask)).or (network .v6 cs (some mask))
  | _ => none

theorem slash_not_mem {v : Version} {cs : List Char} {a : Address} (h : address v cs = some a) : '/' ∉ cs := by
  intro hm
  simp [address, hm] at h

theorem network_none {v : Version} {cs : List Char} {a : Address} (h : address v cs = some a) :
    ∃ n, network v cs none = some n ∧
      ∀ b : Address, n.contains b = true ↔ b.version = a.version ∧ b.value = a.value := by
  have hv := address_version h
  refine ⟨a.network v.bits (hv ▸ le_rfl),?_,fun b => ?_⟩
  · unfold network
    split
    · next h' =>
      rw [h] at h'
      cases h'
    · next a' h' =>
      rw [h] at h'
      cases h'
      rfl
  · subst hv
    have hbits : (a.network a.version.bits le_rfl).hostBits = 0 := Nat.sub_self _
    have hbase : (a.network a.version.bits le_rfl).base = a.value := by
      change a.value / 2 ^ (a.version.bits - a.version.bits) * 2 ^ (a.version.bits - a.version.bits) = a.value
      rw [Nat.sub_self, pow_zero, Nat.div_one, Nat.mul_one]
    rw [Network.contains, decide_eq_true_iff, hbits, hbase, pow_zero, Nat.div_one, Nat.mul_one]
    exact and_congr_left (fun _ => eq_comm)

theorem network_eq_none {v : Version} {cs : List Char} {mask : Option (List Char)} (h : address v cs = none) :
    network v cs mask = none := by
  unfold network
  split
  · rfl
  · next a h' =>
    rw [h] at h'
    cases h'

/-- A bare address is the network of that one address. -/
theorem ipNetwork_of_ipAddress {s : String} {a : Address} (h : ipAddress s = some a) :
    ∃ n, ipNetwork s = some n ∧ ∀ b : Address, n.contains b = true ↔ b.version = a.version ∧ b.value = a.value := by
  have hsplit : '/' ∉ s.toList → s.toList.splitOn '/' = [s.toList] := by
    intro hno
    apply List.splitOnP_eq_singleton
    intro c hc
    exact beq_eq_false_iff_ne.mpr (fun he => hno (he ▸ hc))
  unfold ipAddress at h
  cases h4 : address .v4 s.toList with
  | some a4 =>
    rw [h4] at h
    cases h
    obtain ⟨n,hn,hc⟩ := network_none h4
    refine ⟨n,?_,hc⟩
    simp [ipNetwork, hsplit (slash_not_mem h4), hn]
  | none =>
    rw [h4] at h
    obtain ⟨n,hn,hc⟩ := network_none (show address .v6 s.toList = some a from h)
    refine ⟨n,?_,hc⟩
    simp [ipNetwork, hsplit (slash_not_mem (show address .v6 s.toList = some a from h)), hn, network_eq_none h4]

/-! ## Texts -/

def joinChars (sep : String) (parts : List String) : String := sep.intercalate parts

/-- The longest run of zeros, the first of equal ones, as start and length. -/
def longestRun (hs : List ℕ) : ℕ × ℕ :=
  (hs.zipIdx.foldl (fun (best,len) (h,i) =>
    let len := if h = 0 then len + 1 else 0
    (if best.2 < len then (i + 1 - len,len) else best,len)) ((0,0),0)).1

/-- `_compress_hextets`. -/
def compressHextets (hs : List ℕ) : List String :=
  let texts := hs.map (fun h => String.ofList (Nat.toDigits 16 h))
  let (start,len) := longestRun hs
  if len ≤ 1 then texts
  else
    let texts := if start + len = hs.length then texts ++ [""] else texts
    let texts := texts.take start ++ [""] ++ texts.drop (start + len)
    if start = 0 then "" :: texts else texts

def valueText (v : Version) (n : ℕ) : String :=
  match v with
  | .v4 => joinChars "." ([3,2,1,0].map (fun i => String.ofList (Nat.toDigits 10 (n / 256 ^ i % 256))))
  | .v6 => joinChars ":" (compressHextets ([7,6,5,4,3,2,1,0].map (fun i => n / 65536 ^ i % 65536)))

def scopeText (scope : Option String) : String :=
  match scope with
  | some z => "%" ++ z
  | none => ""

def Network.text (n : Network) : String :=
  valueText n.version n.base ++ scopeText n.scopeId ++ "/" ++ String.ofList (Nat.toDigits 10 n.prefixLen)

example : (ipNetwork "10.1.2.3/255.255.0.0").map Network.text = some "10.1.0.0/16" := by decide
example : (ipNetwork "2001:DB8::0:1").map Network.text = some "2001:db8::1/128" := by decide
example : ipAddress "01.2.3.4" = none := by decide

end Foundation.IpAddress
