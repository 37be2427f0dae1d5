import Mathlib.Data.List.Basic
import Mathlib.Data.List.Infix

/-! # A bounded buffer that drops its oldest item

A push into a full buffer costs the item at its front. Whatever is pushed and taken, the
buffer is the end of everything pushed, and the count of the drops is what is missing.
-/
namespace Foundation.DropOldest
variable {α : Type*}

structure Buffer (α : Type*) where
  items : List α
  dropped : ℕ

namespace Buffer

def empty : Buffer α := ⟨[],0⟩

def push (cap : ℕ) (b : Buffer α) (a : α) : Buffer α :=
  if cap ≤ b.items.length then ⟨b.items.tail ++ [a],b.dropped + 1⟩ else ⟨b.items ++ [a],b.dropped⟩

def pushAll (cap : ℕ) (b : Buffer α) (l : List α) : Buffer α := l.foldl (push cap) b

def pop (b : Buffer α) : Buffer α := ⟨b.items.tail,b.dropped⟩

variable {cap : ℕ} {b : Buffer α}

theorem push_eq (hcap : 0 < cap) (hb : b.items.length ≤ cap) (a : α) :
    b.push cap a = ⟨(b.items ++ [a]).drop (b.items.length + 1 - cap),b.dropped + (b.items.length + 1 - cap)⟩ := by
  unfold push
  split_ifs with hfull
  · have hone : b.items.length + 1 - cap = 1 := by omega
    have hne : b.items ≠ [] := List.ne_nil_of_length_pos (hcap.trans_le hfull)
    rw [hone, List.drop_one, List.tail_append_of_ne_nil hne]
  · have hzero : b.items.length + 1 - cap = 0 := by omega
    rw [hzero, List.drop_zero, Nat.add_zero]

theorem length_push (hcap : 0 < cap) (hb : b.items.length ≤ cap) (a : α) : (b.push cap a).items.length ≤ cap := by
  rw [push_eq hcap hb, List.length_drop, List.length_append, List.length_singleton]
  omega

/-- A batch leaves the last `cap` of the buffer's items and its own. -/
theorem pushAll_eq (hcap : 0 < cap) (hb : b.items.length ≤ cap) (l : List α) :
    b.pushAll cap l =
      ⟨(b.items ++ l).drop (b.items.length + l.length - cap),b.dropped + (b.items.length + l.length - cap)⟩ := by
  induction l generalizing b with
  | nil =>
    have hzero : b.items.length + ([] : List α).length - cap = 0 := Nat.sub_eq_zero_of_le hb
    rw [hzero, List.append_nil, List.drop_zero]
    rfl
  | cons a l ih =>
    have hpush : b.pushAll cap (a :: l) = (b.push cap a).pushAll cap l := rfl
    rw [hpush, ih (length_push hcap hb a), push_eq hcap hb]
    have hlen : b.items.length + 1 - cap ≤ (b.items ++ [a]).length := by simp
    have hcount : b.items.length + 1 - cap + (b.items.length + 1 - (b.items.length + 1 - cap) + l.length - cap) =
        b.items.length + (l.length + 1) - cap := by omega
    rw [← List.drop_append_of_le_length hlen, List.drop_drop, List.length_drop, List.length_append, List.append_assoc,
      List.length_singleton, List.singleton_append, List.length_cons, Nat.add_assoc b.dropped, hcount]

/-- A batch no longer than the buffer is whole at its end. -/
theorem suffix_pushAll (hcap : 0 < cap) (hb : b.items.length ≤ cap) {l : List α} (hl : l.length ≤ cap) :
    l <:+ (b.pushAll cap l).items := by
  rw [pushAll_eq hcap hb]
  have hle : b.items.length + l.length - cap ≤ b.items.length := by omega
  rw [List.drop_append_of_le_length hle]
  exact List.suffix_append _ _

end Buffer

/-! ## The account of a buffer -/

/-- What was pushed is what has left, then what is buffered; what has left was taken, or dropped and counted. -/
structure Account (cap : ℕ) (log taken : List α) (b : Buffer α) : Prop where
  bounded : b.items.length ≤ cap
  split : ∃ gone, log = gone ++ b.items ∧ taken.Sublist gone ∧ gone.length = taken.length + b.dropped

namespace Account
variable {cap : ℕ} {log taken : List α} {b : Buffer α}

theorem empty : Account cap ([] : List α) [] Buffer.empty :=
  ⟨Nat.zero_le _,[],rfl,List.Sublist.refl _,rfl⟩

theorem pushAll (h : Account cap log taken b) (hcap : 0 < cap) (l : List α) :
    Account cap (log ++ l) taken (b.pushAll cap l) := by
  obtain ⟨gone,rfl,htaken,hgone⟩ := h.split
  rw [Buffer.pushAll_eq hcap h.bounded]
  let lost := b.items.length + l.length - cap
  have hlost : lost ≤ (b.items ++ l).length := by
    rw [List.length_append]
    omega
  refine ⟨?_,gone ++ (b.items ++ l).take lost,?_,htaken.trans (List.sublist_append_left _ _),?_⟩
  · rw [List.length_drop, List.length_append]
    omega
  · rw [List.append_assoc, List.append_assoc, List.take_append_drop]
  · rw [List.length_append, List.length_take, Nat.min_eq_left hlost, hgone, Nat.add_assoc]

theorem pop (h : Account cap log taken b) {a : α} {rest : List α} (hb : b.items = a :: rest) :
    Account cap log (taken ++ [a]) b.pop := by
  obtain ⟨gone,hlog,htaken,hgone⟩ := h.split
  have hbound := h.bounded
  have hpop : b.pop.items = rest := by rw [Buffer.pop, hb, List.tail_cons]
  refine ⟨?_,gone ++ [a],?_,htaken.append (List.Sublist.refl _),?_⟩
  · rw [hb, List.length_cons] at hbound
    rw [hpop]
    omega
  · rw [hlog, hb, hpop, List.append_assoc, List.singleton_append]
  · rw [List.length_append, List.length_append, hgone, List.length_singleton, Nat.add_right_comm]
    rfl

theorem suffix (h : Account cap log taken b) : b.items <:+ log := by
  obtain ⟨gone,hlog,-⟩ := h.split
  exact ⟨gone,hlog.symm⟩

/-- While nothing is dropped, what was taken and what waits is what was pushed. -/
theorem lossless (h : Account cap log taken b) (hb : b.dropped = 0) : log = taken ++ b.items := by
  obtain ⟨gone,hlog,htaken,hgone⟩ := h.split
  rw [hb, Nat.add_zero] at hgone
  rw [hlog, htaken.eq_of_length hgone.symm]

end Account
end Foundation.DropOldest
