import Mathlib.Data.List.DropRight
import Mathlib.Data.Nat.Notation

/-! # Resolving a URL against a web site

The states of the WHATWG URL parser that decide scheme, host and port of the result, for
a base URL of http or https. Host parsing is a parameter. A URL of a scheme that is not
special, or of `file`, has an origin of another kind; its other parts are left open.
-/
namespace Foundation.WhatwgUrl
variable {H : Type*}

def isC0OrSpace (c : Char) : Bool := c.toNat ≤ 32

def isTabOrNewline (c : Char) : Bool := c = '\t' || c = '\n' || c = '\r'

/-- Leading and trailing C0 controls and spaces go, then all tabs and newlines. -/
def clean (cs : List Char) : List Char :=
  ((cs.dropWhile isC0OrSpace).rdropWhile isC0OrSpace).filter (fun c => !isTabOrNewline c)

def isSchemeChar (c : Char) : Bool := c.isAlphanum || c = '+' || c = '-' || c = '.'

/-- In a special URL a backslash counts as a slash. -/
def isSlash (c : Char) : Bool := c = '/' || c = '\\'

def endsAuthority (c : Char) : Bool := isSlash c || c = '?' || c = '#'

/-- The default ports of the special schemes, without `file`, which has none. -/
def defaultPort : String → Option ℕ
  | "ftp" => some 21
  | "http" => some 80
  | "https" => some 443
  | "ws" => some 80
  | "wss" => some 443
  | _ => none

/-- What a page's origin consists of; the port is `none` where it is the default one. -/
structure Site (H : Type*) where
  scheme : String
  host : H
  port : Option ℕ
  web : scheme = "http" ∨ scheme = "https"

inductive Resolution (H : Type*)
  | failure
  | special (scheme : String) (host : H) (port : Option ℕ)
  /-- `file`, or a scheme that is not special. -/
  | foreign (scheme : String)
  deriving DecidableEq, Repr

/-- Scheme start state and scheme state: the scheme in lower case and what follows the colon. -/
def schemeOf (cs : List Char) : Option (String × List Char) :=
  if cs.head?.any Char.isAlpha then
    match cs.dropWhile isSchemeChar with
    | ':' :: rest => some (String.ofList ((cs.takeWhile isSchemeChar).map Char.toLower),rest)
    | _ => none
  else none

/-- Host state: the port follows the first colon that is not inside brackets. -/
def splitPort : Bool → List Char → List Char × Option (List Char)
  | _, [] => ([],none)
  | inside, c :: cs =>
    if c = ':' ∧ inside = false then ([],some cs)
    else
      let r := splitPort (if c = '[' then true else if c = ']' then false else inside) cs
      (c :: r.1,r.2)

/-- Port state. -/
def parsePort (default : ℕ) (cs : List Char) : Option (Option ℕ) :=
  if cs.all Char.isDigit then
    match cs with
    | [] => some none
    | _ =>
      let n := cs.foldl (fun n c => n * 10 + (c.toNat - 48)) 0
      if n ≤ 65535 then some (if n = default then none else some n) else none
  else none

section
variable (parseHost : List Char → Option H)

/-- Special authority ignore slashes state, then authority, host and port. -/
def authority (scheme : String) (default : ℕ) (cs : List Char) : Resolution H :=
  let text := (cs.dropWhile isSlash).takeWhile (fun c => !endsAuthority c)
  let r := splitPort false (text.rtakeWhile (fun c => c ≠ '@'))
  if r.1 = [] then .failure
  else
    match parseHost r.1, parsePort default (r.2.getD []) with
    | some host, some port => .special scheme host port
    | _, _ => .failure

/-- Relative state and relative slash state. -/
def relative (site : Site H) (cs : List Char) : Resolution H :=
  match cs with
  | c :: d :: rest =>
    if isSlash c && isSlash d then authority parseHost site.scheme ((defaultPort site.scheme).getD 0) rest
    else .special site.scheme site.host site.port
  | _ => .special site.scheme site.host site.port

def resolve (site : Site H) (input : String) : Resolution H :=
  let cs := clean input.toList
  match schemeOf cs with
  | none => relative parseHost site cs
  | some (scheme,rest) =>
    match defaultPort scheme with
    | none => .foreign scheme
    | some default =>
      -- special relative or authority state, for the scheme of the base
      if scheme = site.scheme ∧ rest.take 2 ≠ ['/','/'] then relative parseHost site rest
      else authority parseHost scheme default rest

/-- The URL keeps the site's scheme, host and port. -/
def SameOrigin (site : Site H) (input : String) : Prop :=
  resolve parseHost site input = .special site.scheme site.host site.port

end

instance [DecidableEq H] (parseHost : List Char → Option H) (site : Site H) (input : String) :
    Decidable (SameOrigin parseHost site input) := inferInstanceAs (Decidable (_ = _))

section
variable {parseHost : List Char → Option H} {site : Site H} {input : String} {rest : List Char}

theorem isSlash_iff {c : Char} : isSlash c = true ↔ c = '/' ∨ c = '\\' := by
  rw [isSlash, Bool.or_eq_true, decide_eq_true_eq, decide_eq_true_eq]

theorem rdropWhile_cons {p : Char → Bool} {c : Char} (hc : ¬ p c = true) (cs : List Char) :
    (c :: cs).rdropWhile p = c :: cs.rdropWhile p := by
  induction cs using List.reverseRecOn with
  | nil => rw [List.rdropWhile_singleton, if_neg hc, List.rdropWhile_nil]
  | append_singleton cs d ih =>
    rw [← List.cons_append]
    by_cases hd : p d = true
    · rw [List.rdropWhile_concat_pos _ _ _ hd, List.rdropWhile_concat_pos _ _ _ hd, ih]
    · rw [List.rdropWhile_concat_neg _ _ _ hd, List.rdropWhile_concat_neg _ _ _ hd, List.cons_append]

/-- Of a path without tabs and newlines only the end is cleaned. -/
theorem clean_rooted (hclean : ∀ c ∈ rest, isTabOrNewline c = false) :
    clean ('/' :: rest) = '/' :: rest.rdropWhile isC0OrSpace := by
  have hslash : ¬ isC0OrSpace '/' = true := by decide
  rw [clean, List.dropWhile_cons_of_neg hslash, rdropWhile_cons hslash, List.filter_eq_self]
  intro c hc
  rcases List.mem_cons.mp hc with rfl | hc
  · decide
  · rw [hclean c ((List.rdropWhile_prefix _ _).subset hc), Bool.not_false]

theorem schemeOf_rooted (cs : List Char) : schemeOf ('/' :: cs) = none := if_neg (by simp)

/-- A single slash in front leads back to the site. -/
theorem sameOrigin_of_rooted (h : input.toList = '/' :: rest) (hslash : ∀ c ∈ rest.head?, isSlash c = false)
    (hclean : ∀ c ∈ rest, isTabOrNewline c = false) : SameOrigin parseHost site input := by
  rw [SameOrigin, resolve, h, clean_rooted hclean]
  simp only [schemeOf_rooted]
  have hhead : ∀ c ∈ (rest.rdropWhile isC0OrSpace).head?, isSlash c = false := by
    obtain ⟨back,hback⟩ := List.rdropWhile_prefix isC0OrSpace rest
    intro c hc
    refine hslash c ?_
    rw [← hback, List.head?_append, Option.mem_def.mp hc]
    rfl
  generalize rest.rdropWhile isC0OrSpace = cs at hhead
  cases cs with
  | nil => rfl
  | cons d cs =>
    have hd : isSlash d = false := hhead d rfl
    rw [relative, hd, Bool.and_false, if_neg Bool.false_ne_true]

/-- With a second one, of either kind, the URL leads to another host. -/
example : resolve some ⟨"https","here".toList,none,Or.inr rfl⟩ " /\t\\there:8443/x" = .special "https" "there".toList (some 8443) := by
  decide +kernel

end
end Foundation.WhatwgUrl
