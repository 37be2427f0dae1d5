import Mathlib.Data.List.Basic
import Protek.Foundation.Trace
import Protek.Store.Settings

/-! # The key that signs the feed

The key stands in two settings, sealed and in public. `_ensure_keypair` reads the one and
then the other, and where it makes a new key it writes the one and then the other; every
request of the public feed calls it, in any worker.
-/
namespace Protek.Policy.Signing
open Foundation Foundation.PyText Protek.Store

/-! ## The keys -/

/-- Ed25519 and AES-GCM as the feed uses them: texts in base64, keys that are sealed under `SECRET_KEY`. -/
structure Signer (κ : Type*) where
  publicText : κ → String
  sign : κ → String → String
  verify : String → String → String → Bool
  /-- The text of a nonce and of the key enciphered with it. -/
  encrypt : String → List UInt8 → κ → String
  /-- `none` where the text cannot be decoded or deciphered. -/
  decrypt : String → String → Option κ

variable {κ ι : Type*} {S : Signer κ}

/-- A signature is good for the key that made it, and a sealed key opens to itself or not at all. -/
structure Signer.Documented (S : Signer κ) : Prop where
  publicText_ne : ∀ k, S.publicText k ≠ ""
  decrypt_encrypt : ∀ secret nonce k, S.decrypt secret (S.encrypt secret nonce k) = some k
  decrypt_own : ∀ secret other nonce k l, S.decrypt other (S.encrypt secret nonce k) = some l → l = k
  verify_iff : ∀ pub message k, S.verify pub message (S.sign k message) = true ↔ pub = S.publicText k

/-! ## The requests -/

def PUB : String := "intel.publish.pub_b64"

def PRIV : String := "intel.publish.priv_enc_b64"

theorem priv_ne_pub : PRIV ≠ PUB := by decide

/-- How far a call of `_ensure_keypair` and of what goes on with its key has got. -/
inductive Call (κ : Type*)
  | idle
  | pubRead (pub : String)
  | generating
  | storedPriv (key : κ)
  | ready (key : κ) (pub : String)
  deriving DecidableEq

/-- What `signed_feed` returns; the message is the canonical text of the body. -/
structure SignedFeed where
  message : String
  signature : String
  publicKey : String
  deriving DecidableEq

def SignedFeed.verifies (S : Signer κ) (f : SignedFeed) : Bool := S.verify f.publicKey f.message f.signature

structure World (ι κ : Type*) where
  settings : Settings
  secret : String
  calls : ι → Call κ
  served : List SignedFeed

inductive Action (ι κ : Type*)
  | readPub (i : ι)
  | readPriv (i : ι)
  | storePriv (i : ι) (key : κ) (nonce : List UInt8)
  | storePub (i : ι)
  | serve (i : ι) (message : String)
  | finish (i : ι)
  | rotate (i : ι)
  | crash (i : ι)
  | restart (secret : String)
  | save

section
variable [DecidableEq ι] (S : Signer κ)

def World.enter (w : World ι κ) (i : ι) (c : Call κ) : World ι κ := { w with calls := Function.update w.calls i c }

/-- The two settings that a call has read, or a new key where they are no usable pair. -/
def usePair (secret pub priv : String) : Call κ :=
  if pub ≠ "" ∧ priv ≠ "" then
    match S.decrypt secret priv with
    | some key => .ready key pub
    | none => .generating
  else .generating

def World.storePriv (w : World ι κ) (i : ι) (key : κ) (nonce : List UInt8) : World ι κ :=
  { w.enter i (.storedPriv key) with settings := w.settings.set PRIV (S.encrypt w.secret nonce key) }

def World.storePub (w : World ι κ) (i : ι) (key : κ) : World ι κ :=
  { w.enter i (.ready key (S.publicText key)) with settings := w.settings.set PUB (S.publicText key) }

def World.serve (w : World ι κ) (i : ι) (key : κ) (pub message : String) : World ι κ :=
  { w.enter i .idle with served := w.served ++ [⟨message,S.sign key message,pub⟩] }

/-- The DELETE of `rotate_keypair`. -/
def forget (s : Settings) : Settings := fun key => if key = PUB ∨ key = PRIV then none else s key

/-- One statement of one call, the end of a worker, a restart of the service, or a change of other settings. -/
inductive Step : World ι κ → Action ι κ → World ι κ → Prop
  | readPub {w : World ι κ} {i : ι} (h : w.calls i = .idle) : Step w (.readPub i) (w.enter i (.pubRead (w.settings.text PUB)))
  | readPriv {w : World ι κ} {i : ι} {pub : String} (h : w.calls i = .pubRead pub) :
      Step w (.readPriv i) (w.enter i (usePair S w.secret pub (w.settings.text PRIV)))
  | storePriv {w : World ι κ} {i : ι} {key : κ} {nonce : List UInt8} (h : w.calls i = .generating) :
      Step w (.storePriv i key nonce) (w.storePriv S i key nonce)
  | storePub {w : World ι κ} {i : ι} {key : κ} (h : w.calls i = .storedPriv key) : Step w (.storePub i) (w.storePub S i key)
  | serve {w : World ι κ} {i : ι} {key : κ} {pub message : String} (h : w.calls i = .ready key pub) :
      Step w (.serve i message) (w.serve S i key pub message)
  -- a toggle or a rotation has its key, and signs nothing
  | finish {w : World ι κ} {i : ι} {key : κ} {pub : String} (h : w.calls i = .ready key pub) : Step w (.finish i) (w.enter i .idle)
  | rotate {w : World ι κ} {i : ι} (h : w.calls i = .idle) : Step w (.rotate i) { w with settings := forget w.settings }
  | crash {w : World ι κ} {i : ι} : Step w (.crash i) (w.enter i .idle)
  | restart {w : World ι κ} {secret : String} (h : ∀ i, w.calls i = .idle) : Step w (.restart secret) { w with secret := secret }
  | save {w : World ι κ} {s : Settings} (hpub : s PUB = w.settings PUB) (hpriv : s PRIV = w.settings PRIV) :
      Step w .save { w with settings := s }

end

abbrev Move (ι κ : Type*) := Transition (World ι κ) (Action ι κ)

def Action.onKeys : Action ι κ → Bool
  | .readPub _ | .readPriv _ | .storePriv _ _ _ | .storePub _ | .rotate _ => true
  | .serve _ _ | .finish _ | .crash _ | .restart _ | .save => false

/-- The two writes of a call stand together, and so do the two reads. -/
structure Atomic (t : Move ι κ) : Prop where
  writes : ∀ j key, t.before.calls j = .storedPriv key → t.label = .storePub j ∨ (t.label.onKeys = false ∧ t.label ≠ .crash j)
  reads : ∀ j pub, t.before.calls j = .pubRead pub → (∀ i, t.label ≠ .rotate i) ∧ ∀ i key nonce, t.label ≠ .storePriv i key nonce

/-- The public text, where there is one, is that of the sealed key. -/
def Paired (S : Signer κ) (s : Settings) : Prop :=
  s.text PUB = "" ∨ ∃ secret nonce key, s.text PRIV = S.encrypt secret nonce key ∧ s.text PUB = S.publicText key

/-! ## Calls that write and read both at once -/

theorem text_eq {s s' : Settings} {key : String} (h : s' key = s key) : s'.text key = s.text key := by
  rw [Settings.text, Settings.text, h]

theorem Paired.congr {s s' : Settings} (h : Paired S s) (hpub : s'.text PUB = s.text PUB) (hpriv : s'.text PRIV = s.text PRIV) :
    Paired S s' := by
  unfold Paired
  rw [hpub, hpriv]
  exact h

theorem usePair_ready {secret pub priv p : String} {k : κ} (h : usePair S secret pub priv = .ready k p) :
    p = pub ∧ pub ≠ "" ∧ S.decrypt secret priv = some k := by
  unfold usePair at h
  split_ifs at h with hne
  cases hk : S.decrypt secret priv with
  | none =>
    rw [hk] at h
    cases h
  | some l =>
    rw [hk] at h
    cases h
    exact ⟨rfl,hne.1,rfl⟩

theorem usePair_cases (secret pub priv : String) :
    usePair S secret pub priv = .generating ∨ ∃ k, usePair S secret pub priv = .ready k pub := by
  unfold usePair
  split_ifs with hne
  · cases S.decrypt secret priv with
    | none => exact Or.inl rfl
    | some k => exact Or.inr ⟨k,rfl⟩
  · exact Or.inl rfl

/-- Every call that has its key has the public text of that key. -/
structure Sound (S : Signer κ) (w : World ι κ) : Prop where
  ready : ∀ i k p, w.calls i = .ready k p → p = S.publicText k
  paired : (∀ i k, w.calls i ≠ .storedPriv k) → Paired S w.settings
  reading : ∀ i p, w.calls i = .pubRead p → p = w.settings.text PUB ∧ ∀ j k, w.calls j ≠ .storedPriv k
  writing : ∀ i k, w.calls i = .storedPriv k → ∃ secret nonce, w.settings.text PRIV = S.encrypt secret nonce k
  lone : ∀ i j k l, w.calls i = .storedPriv k → w.calls j = .storedPriv l → i = j
  served : ∀ f ∈ w.served, f.verifies S = true

/-- The settings change in a way that no call in between its reads or writes can tell. -/
theorem Sound.settings {w : World ι κ} {s : Settings} (h : Sound S w) (hpaired : Paired S w.settings → Paired S s)
    (hread : ∀ i p, w.calls i = .pubRead p → s.text PUB = w.settings.text PUB)
    (hwrite : ∀ i k, w.calls i = .storedPriv k → s.text PRIV = w.settings.text PRIV) :
    Sound S { w with settings := s } := by
  refine ⟨h.ready,fun hno => hpaired (h.paired hno),fun j p hj => ⟨?_,(h.reading j p hj).2⟩,fun j k hj => ?_,h.lone,h.served⟩
  · exact (h.reading j p hj).1.trans (hread j p hj).symm
  · obtain ⟨secret,nonce,hpriv⟩ := h.writing j k hj
    exact ⟨secret,nonce,(hwrite j k hj).trans hpriv⟩

section
variable [DecidableEq ι] {w v : World ι κ} {i : ι}

theorem enter_calls (w : World ι κ) (i : ι) (c : Call κ) (j : ι) :
    (w.enter i c).calls j = if j = i then c else w.calls j := Function.update_apply w.calls i c j

/-- A call that neither reads nor writes the settings, and does not stop between its writes. -/
theorem Sound.enter {c : Call κ} (h : Sound S w) (hnot : ∀ k, w.calls i ≠ .storedPriv k) (hready : ∀ k p, c = .ready k p → p = S.publicText k)
    (hread : ∀ p, c = .pubRead p → p = w.settings.text PUB ∧ ∀ j k, w.calls j ≠ .storedPriv k) (hstored : ∀ k, c ≠ .storedPriv k) :
    Sound S (w.enter i c) := by
  have hback : ∀ j k, (w.enter i c).calls j = .storedPriv k → w.calls j = .storedPriv k := by
    intro j k hj
    rw [enter_calls] at hj
    split_ifs at hj with heq
    · exact absurd hj (hstored k)
    · exact hj
  have hforth : ∀ j k, w.calls j = .storedPriv k → (w.enter i c).calls j = .storedPriv k := by
    intro j k hj
    rw [enter_calls, if_neg (fun heq => hnot k (by rw [← heq]; exact hj))]
    exact hj
  refine ⟨?_,fun hno => h.paired (fun j k hj => hno j k (hforth j k hj)),?_,fun j k hj => h.writing j k (hback j k hj),
    fun j j' k l hj hj' => h.lone j j' k l (hback j k hj) (hback j' l hj'),h.served⟩
  · intro j k p hj
    rw [enter_calls] at hj
    split_ifs at hj with heq
    · exact hready k p hj
    · exact h.ready j k p hj
  · intro j p hj
    rw [enter_calls] at hj
    split_ifs at hj with heq
    · exact ⟨(hread p hj).1,fun j' k hj' => (hread p hj).2 j' k (hback j' k hj')⟩
    · exact ⟨(h.reading j p hj).1,fun j' k hj' => (h.reading j p hj).2 j' k (hback j' k hj')⟩

theorem forget_text_pub (s : Settings) : (forget s).text PUB = "" := by
  rw [Settings.text, forget, if_pos (Or.inl rfl)]
  rfl

theorem Sound.storePriv {k : κ} {nonce : List UInt8} (h : Sound S w) (hread : ∀ j p, w.calls j ≠ .pubRead p)
    (hwrite : ∀ j l, w.calls j ≠ .storedPriv l) : Sound S (w.storePriv S i k nonce) := by
  have hcalls : ∀ j, (w.storePriv S i k nonce).calls j = if j = i then .storedPriv k else w.calls j := enter_calls w i _
  have hmine : ∀ j l, (w.storePriv S i k nonce).calls j = .storedPriv l → j = i ∧ l = k := by
    intro j l hj
    rw [hcalls] at hj
    split_ifs at hj with heq
    · exact ⟨heq,(Call.storedPriv.inj hj).symm⟩
    · exact absurd hj (hwrite j l)
  refine ⟨?_,fun hno => absurd ?_ (hno i k),?_,?_,?_,h.served⟩
  · intro j l p hj
    rw [hcalls] at hj
    split_ifs at hj with heq
    exact h.ready j l p hj
  · rw [hcalls, if_pos rfl]
  · intro j p hj
    rw [hcalls] at hj
    split_ifs at hj with heq
    exact absurd hj (hread j p)
  · intro j l hj
    obtain ⟨-,rfl⟩ := hmine j l hj
    exact ⟨w.secret,nonce,Settings.text_set_self⟩
  · intro j j' l l' hj hj'
    exact (hmine j l hj).1.trans (hmine j' l' hj').1.symm

theorem Sound.storePub {k : κ} (h : Sound S w) (hk : w.calls i = .storedPriv k) : Sound S (w.storePub S i k) := by
  have hcalls : ∀ j, (w.storePub S i k).calls j = if j = i then .ready k (S.publicText k) else w.calls j := enter_calls w i _
  have hnone : ∀ j l, (w.storePub S i k).calls j ≠ .storedPriv l := by
    intro j l hj
    rw [hcalls] at hj
    split_ifs at hj with heq
    exact heq (h.lone j i l k hj hk)
  refine ⟨?_,fun _ => ?_,?_,fun j l hj => absurd hj (hnone j l),fun j j' l l' hj => absurd hj (hnone j l),h.served⟩
  · intro j l p hj
    rw [hcalls] at hj
    split_ifs at hj with heq
    · cases hj
      rfl
    · exact h.ready j l p hj
  · obtain ⟨secret,nonce,hpriv⟩ := h.writing i k hk
    exact Or.inr ⟨secret,nonce,k,(Settings.text_set_of_ne priv_ne_pub).trans hpriv,Settings.text_set_self⟩
  · intro j p hj
    rw [hcalls] at hj
    split_ifs at hj with heq
    exact absurd hk ((h.reading j p hj).2 i k)

theorem Sound.step (hS : S.Documented) {a : Action ι κ} (h : Sound S w) (hs : Step S w a v) (hatomic : Atomic ⟨w,a,v⟩) : Sound S v := by
  -- who stands between its writes lets no other call at the settings
  have hquiet : a.onKeys = true → (∀ j, a ≠ .storePub j) → ∀ j k, w.calls j ≠ .storedPriv k := by
    intro hkeys hother j k hj
    rcases hatomic.writes j k hj with hpub | ⟨hkeep,-⟩
    · exact hother j hpub
    · rw [show (⟨w,a,v⟩ : Move ι κ).label = a from rfl, hkeys] at hkeep
      cases hkeep
  cases hs with
  | readPub hi =>
    have hno := hquiet rfl (by simp)
    refine h.enter (hno _) (by simp) (fun p hp => ⟨?_,hno⟩) (by simp)
    exact (Call.pubRead.inj hp).symm
  | @readPriv i pub hi =>
    have hno := hquiet rfl (by simp)
    refine h.enter (hno _) ?_ ?_ ?_
    · intro k p hp
      obtain ⟨rfl,hne,hk⟩ := usePair_ready hp
      have hpub := (h.reading _ _ hi).1
      rcases h.paired hno with hblank | ⟨secret,nonce,l,hpriv,htext⟩
      · exact absurd (hpub.trans hblank) hne
      · rw [hpriv] at hk
        rw [hpub, htext, hS.decrypt_own secret _ nonce l k hk]
    · intro p hp
      rcases usePair_cases w.secret pub (w.settings.text PRIV) with hg | ⟨k,hr⟩
      · rw [hg] at hp
        cases hp
      · rw [hr] at hp
        cases hp
    · intro k hk
      rcases usePair_cases w.secret pub (w.settings.text PRIV) with hg | ⟨l,hr⟩
      · rw [hg] at hk
        cases hk
      · rw [hr] at hk
        cases hk
  | @storePriv i k nonce hi => exact h.storePriv (fun j p hj => (hatomic.reads j p hj).2 i k nonce rfl) (hquiet rfl (by simp))
  | storePub hi => exact h.storePub hi
  | @serve i k pub message hi =>
    have hidle := h.enter (i := i) (c := .idle) (by simp [hi]) (by simp) (by simp) (by simp)
    refine ⟨hidle.ready,hidle.paired,hidle.reading,hidle.writing,hidle.lone,?_⟩
    intro f hf
    rcases List.mem_append.mp hf with hf | hf
    · exact h.served f hf
    · rw [List.mem_singleton.mp hf]
      exact (hS.verify_iff _ _ _).mpr (h.ready i k pub hi)
  | @finish i k pub hi => exact h.enter (by simp [hi]) (by simp) (by simp) (by simp)
  | @rotate i hi =>
    refine h.settings (fun _ => Or.inl (forget_text_pub _)) (fun j p hj => ?_) (fun j k hj => absurd hj (hquiet rfl (by simp) j k))
    exact absurd rfl ((hatomic.reads j p hj).1 i)
  | @crash i =>
    refine h.enter (fun k hk => ?_) (by simp) (by simp) (by simp)
    rcases hatomic.writes i k hk with hpub | ⟨-,hcrash⟩
    · cases hpub
    · exact hcrash rfl
  | restart hi => exact ⟨h.ready,h.paired,h.reading,h.writing,h.lone,h.served⟩
  | save hpub hpriv =>
    exact h.settings (fun hp => hp.congr (text_eq hpub) (text_eq hpriv)) (fun _ _ _ => text_eq hpub) (fun _ _ _ => text_eq hpriv)

end

/-- The settings hold a pair that can be used, and no call makes another. -/
structure Standing (S : Signer κ) (k : κ) (p : String) (w : World ι κ) : Prop where
  pub : w.settings.text PUB = p
  opens : S.decrypt w.secret (w.settings.text PRIV) = some k
  nonblank : p ≠ "" ∧ w.settings.text PRIV ≠ ""
  calls : ∀ i, w.calls i = .idle ∨ w.calls i = .pubRead p ∨ w.calls i = .ready k p

/-- What the feed signed with `k` under the public text `p` is. -/
def Answers (S : Signer κ) (k : κ) (p : String) (f : SignedFeed) : Prop := f.publicKey = p ∧ f.signature = S.sign k f.message

theorem Standing.usePair {w : World ι κ} {k : κ} {p : String} (h : Standing S k p w) : usePair S w.secret p (w.settings.text PRIV) = .ready k p := by
  unfold Signing.usePair
  rw [if_pos h.nonblank, h.opens]

section
variable [DecidableEq ι] {w v : World ι κ} {i : ι} {k : κ} {p : String}

theorem Standing.enter {c : Call κ} (h : Standing S k p w) (hc : c = .idle ∨ c = .pubRead p ∨ c = .ready k p) :
    Standing S k p (w.enter i c) := by
  refine ⟨h.pub,h.opens,h.nonblank,fun j => ?_⟩
  rw [enter_calls]
  split_ifs
  · exact hc
  · exact h.calls j

theorem Standing.step {a : Action ι κ} (h : Standing S k p w) (hs : Step S w a v) (hrotate : ∀ i, a ≠ .rotate i)
    (hsecret : ∀ s, a = .restart s → s = w.secret) :
    Standing S k p v ∧ ∃ fs, v.served = w.served ++ fs ∧ ∀ f ∈ fs, Answers S k p f := by
  have hnone : ∃ fs, w.served = w.served ++ fs ∧ ∀ f ∈ fs, Answers S k p f := ⟨[],(List.append_nil _).symm,by simp⟩
  cases hs with
  | readPub hi => exact ⟨h.enter (Or.inr (Or.inl (by rw [h.pub]))),hnone⟩
  | @readPriv i pub hi =>
    have hpub : pub = p := by
      rcases h.calls i with hc | hc | hc
      · simp [hi] at hc
      · exact Call.pubRead.inj (hi.symm.trans hc)
      · simp [hi] at hc
    rw [hpub, h.usePair]
    exact ⟨h.enter (Or.inr (Or.inr rfl)),hnone⟩
  | @storePriv i l nonce hi => rcases h.calls i with hc | hc | hc <;> simp [hi] at hc
  | @storePub i l hi => rcases h.calls i with hc | hc | hc <;> simp [hi] at hc
  | @serve i l pub message hi =>
    refine ⟨?_,[⟨message,S.sign l message,pub⟩],rfl,?_⟩
    · obtain ⟨hpub,hopens,hne,hcalls⟩ := h.enter (i := i) (Or.inl rfl)
      exact ⟨hpub,hopens,hne,hcalls⟩
    · rcases h.calls i with hc | hc | hc
      · simp [hi] at hc
      · simp [hi] at hc
      · obtain ⟨rfl,rfl⟩ := Call.ready.inj (hi.symm.trans hc)
        rintro f hf
        rw [List.mem_singleton.mp hf]
        exact ⟨rfl,rfl⟩
  | finish hi => exact ⟨h.enter (Or.inl rfl),hnone⟩
  | @rotate i hi => exact absurd rfl (hrotate i)
  | crash => exact ⟨h.enter (Or.inl rfl),hnone⟩
  | restart hi =>
    rw [hsecret _ rfl]
    exact ⟨h,hnone⟩
  | @save s hpub hpriv =>
    refine ⟨⟨(text_eq hpub).trans h.pub,?_,?_,h.calls⟩,hnone⟩
    · rw [text_eq hpriv]
      exact h.opens
    · rw [text_eq hpriv]
      exact h.nonblank

end

/-- A usable pair that no call is at answers every later request, whatever the interleaving, until it is rotated or the secret
changes; so either all these feeds verify, or none does. -/
theorem standing_pair_decides [DecidableEq ι] (hS : S.Documented) {w v : World ι κ} {ts : List (Move ι κ)} {k : κ} {p : String}
    (hidle : ∀ i, w.calls i = .idle) (hpub : w.settings.text PUB = p) (hp : p ≠ "") (hpriv : w.settings.text PRIV ≠ "")
    (hopens : S.decrypt w.secret (w.settings.text PRIV) = some k) (h : Trace (Step S) w ts v)
    (hkeep : ∀ t ∈ ts, (∀ i, t.label ≠ .rotate i) ∧ ∀ s, t.label = .restart s → s = t.before.secret) :
    ∃ fs, v.served = w.served ++ fs ∧ ∀ f ∈ fs, f.publicKey = p ∧ (f.verifies S = true ↔ p = S.publicText k) := by
  have h0 : Standing S k p w ∧ ∃ fs, w.served = w.served ++ fs ∧ ∀ f ∈ fs, Answers S k p f :=
    ⟨⟨hpub,hopens,⟨hp,hpriv⟩,fun i => Or.inl (hidle i)⟩,[],(List.append_nil _).symm,by simp⟩
  have hrun := (h.invariant (I := fun u => Standing S k p u ∧ ∃ fs, u.served = w.served ++ fs ∧ ∀ f ∈ fs, Answers S k p f)
    (C := fun t => (∀ i, t.label ≠ .rotate i) ∧ ∀ s, t.label = .restart s → s = t.before.secret) h0 (by
      rintro t hs ⟨hrotate,hsecret⟩ ⟨hI,fs,hfs,hall⟩
      obtain ⟨hI',gs,hgs,hall'⟩ := hI.step hs hrotate hsecret
      refine ⟨hI',fs ++ gs,by rw [hgs, hfs, List.append_assoc],fun f hf => ?_⟩
      exact (List.mem_append.mp hf).elim (hall f) (hall' f)) hkeep).1
  obtain ⟨-,fs,hfs,hall⟩ := hrun
  refine ⟨fs,hfs,fun f hf => ?_⟩
  obtain ⟨hkey,hsig⟩ := hall f hf
  refine ⟨hkey,?_⟩
  rw [SignedFeed.verifies, hkey, hsig]
  exact hS.verify_iff p f.message k

/-! ## A first request, alone and beside another -/

def toyText (k : Bool) : String := if k then "A" else "B"

def toySigner : Signer Bool where
  publicText := toyText
  sign := fun k message => toyText k ++ message
  verify := fun pub message signature => signature = pub ++ message
  encrypt := fun secret _ k => toyText k ++ secret
  decrypt := fun secret text => if text = "A" ++ secret then some true else if text = "B" ++ secret then some false else none

theorem toyText_inj {k l : Bool} {s s' : String} (h : toyText k ++ s = toyText l ++ s') : k = l := by
  have hhead := congrArg (fun t => t.toList.head?) h
  cases k <;> cases l <;> simp [toyText, String.toList_append] at hhead ⊢

theorem toySigner_documented : toySigner.Documented where
  publicText_ne := fun k => by cases k <;> decide
  decrypt_encrypt := by
    intro secret nonce k
    have hne : ¬ toyText false ++ secret = toyText true ++ secret := fun h => absurd (toyText_inj h) (by decide)
    cases k
    · exact (@if_neg _ _ hne _ (some true) _).trans (if_pos rfl)
    · exact if_pos rfl
  decrypt_own := by
    intro secret other nonce k l h
    dsimp only [toySigner] at h
    split_ifs at h with hA hB
    · exact (Option.some_inj.mp h).symm.trans (toyText_inj (k := k) (l := true) hA).symm
    · exact (Option.some_inj.mp h).symm.trans (toyText_inj (k := k) (l := false) hB).symm
  verify_iff := by
    intro pub message k
    refine decide_eq_true_iff.trans ⟨fun h => ?_,fun h => by rw [h]; rfl⟩
    have hlist : (toyText k ++ message).toList = (pub ++ message).toList := congrArg String.toList h
    rw [String.toList_append, String.toList_append] at hlist
    exact (String.toList_inj.mp (List.append_cancel_right hlist)).symm

def newFeed : World Bool Bool := ⟨fun _ => none,"s",fun _ => .idle,[]⟩

/-- Two first requests side by side serve feeds that verify, and leave the key of the one under the text of the other. -/
theorem torn_pair : ∃ ts, ∃ w : World Bool Bool, Trace (Step toySigner) newFeed ts w ∧ (∀ f ∈ w.served, f.verifies toySigner = true) ∧
    (∀ i, w.calls i = .idle) ∧ w.settings.text PUB = "A" ∧ w.settings.text PRIV = "Bs" ∧ w.secret = "s" := by
  have h1 := Trace.single (@Step.readPub _ _ _ toySigner newFeed true rfl)
  have h2 := h1.snoc (@Step.readPub _ _ _ toySigner _ false rfl)
  have h3 := h2.snoc (@Step.readPriv _ _ _ toySigner _ true _ rfl)
  have h4 := h3.snoc (@Step.readPriv _ _ _ toySigner _ false _ rfl)
  have h5 := h4.snoc (@Step.storePriv _ _ _ toySigner _ true true [] rfl)
  have h6 := h5.snoc (@Step.storePriv _ _ _ toySigner _ false false [] rfl)
  have h7 := h6.snoc (@Step.storePub _ _ _ toySigner _ false _ rfl)
  have h8 := h7.snoc (@Step.storePub _ _ _ toySigner _ true _ rfl)
  have h9 := h8.snoc (@Step.serve _ _ _ toySigner _ true _ _ "{}" rfl)
  have h10 := h9.snoc (@Step.serve _ _ _ toySigner _ false _ _ "{}" rfl)
  exact ⟨_,_,h10,by decide,by decide,by decide,by decide,rfl⟩

theorem standing_pair_decides_example : ∃ ts us, ∃ w v : World Bool Bool, Trace (Step toySigner) newFeed ts w ∧
    (∀ f ∈ w.served, f.verifies toySigner = true) ∧ Trace (Step toySigner) w us v ∧
    v.served = w.served ++ [⟨"{}","B{}","A"⟩] ∧ ∃ fs, v.served = w.served ++ fs ∧ ∀ f ∈ fs, f.verifies toySigner = false := by
  obtain ⟨ts,w,h,hgood,hidle,hpub,hpriv,hsecret⟩ := torn_pair
  have hopens : toySigner.decrypt w.secret (w.settings.text PRIV) = some false := by
    rw [hpriv, hsecret]
    decide
  have hstand : Standing toySigner false "A" w := ⟨hpub,hopens,⟨by decide,by rw [hpriv]; decide⟩,fun i => Or.inl (hidle i)⟩
  have h1 := Trace.single (@Step.readPub _ _ _ toySigner w true (hidle true))
  have h2 := h1.snoc (@Step.readPriv _ _ _ toySigner _ true _ ((enter_calls w true _ true).trans (if_pos rfl)))
  have hready : usePair toySigner w.secret (w.settings.text PUB) (w.settings.text PRIV) = .ready false "A" := by
    rw [hpub]
    exact hstand.usePair
  have h3 := h2.snoc (@Step.serve _ _ _ toySigner _ true false "A" "{}" (((enter_calls _ true _ true).trans (if_pos rfl)).trans hready))
  refine ⟨ts,_,w,_,h,hgood,h3,rfl,?_⟩
  obtain ⟨fs,hfs,hall⟩ := standing_pair_decides toySigner_documented hidle hpub (by decide) hstand.nonblank.2 hopens h3 (by
    intro t ht
    simp only [List.nil_append, List.cons_append, List.mem_cons, List.not_mem_nil, or_false] at ht
    rcases ht with rfl | rfl | rfl <;> simp)
  exact ⟨fs,hfs,fun f hf => Bool.eq_false_iff.mpr (fun hv => absurd ((hall f hf).2.mp hv) (by decide))⟩

end Protek.Policy.Signing
