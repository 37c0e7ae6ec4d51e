import Mathlib

/-! # Mailboxes of bounded size

A queue with room for so many values, to which values are offered and dropped if it is full. `Fed` says
what has come through when a log was offered value by value: some of it in its order, and how many values
are missing. -/

namespace Pacsni.Lib.Offer

/-- A queue with room for `capacity` values. -/
structure Mailbox (α : Type*) (capacity : ℕ) where
  queue : List α
  length_le : queue.length ≤ capacity

variable {α : Type*} {capacity : ℕ}

/-- The empty queue. -/
def Mailbox.empty (α : Type*) (capacity : ℕ) : Mailbox α capacity := ⟨[], Nat.zero_le _⟩

/-- There is no room. -/
def Mailbox.Full (b : Mailbox α capacity) : Prop := ¬ b.queue.length < capacity

instance (b : Mailbox α capacity) : Decidable b.Full := inferInstanceAs (Decidable (¬ _))

/-- A value is put at the end, or dropped. -/
def Mailbox.offer (b : Mailbox α capacity) (a : α) : Mailbox α capacity :=
  if h : b.queue.length < capacity then
    ⟨b.queue ++ [a], by rw [List.length_append, List.length_singleton]; exact h⟩
  else b

/-- The value in front, and the rest. -/
def Mailbox.take (b : Mailbox α capacity) : Option (α × Mailbox α capacity) :=
  match b with
  | ⟨[], _⟩ => none
  | ⟨a :: rest, h⟩ => some (a, ⟨rest, Nat.le_of_succ_le h⟩)

variable {b b' : Mailbox α capacity} {a : α}

theorem queue_offer : (b.offer a).queue = if b.Full then b.queue else b.queue ++ [a] := by
  unfold Mailbox.offer
  split_ifs with h hfull hfull
  · exact absurd h hfull
  · rfl
  · rfl
  · exact absurd h hfull

theorem queue_take (h : b.take = some (a, b')) : b.queue = a :: b'.queue := by
  obtain ⟨queue, hlen⟩ := b
  cases queue with
  | nil => cases h
  | cons c rest =>
    obtain ⟨rfl, rfl⟩ := Prod.mk.inj (Option.some.inj h)
    rfl

/-- What has come through of a log. -/
structure Fed (log got : List α) (lost : ℕ) : Prop where
  sublist : got.Sublist log
  length : got.length + lost = log.length

variable {log got : List α} {lost : ℕ}

theorem Fed.nil : Fed ([] : List α) [] 0 := ⟨List.Sublist.refl _, rfl⟩

theorem Fed.kept (h : Fed log got lost) (a : α) : Fed (log ++ [a]) (got ++ [a]) lost := by
  refine ⟨h.sublist.append (List.Sublist.refl _), ?_⟩
  have := h.length
  simp only [List.length_append, List.length_singleton]
  omega

theorem Fed.dropped (h : Fed log got lost) (a : α) : Fed (log ++ [a]) got (lost + 1) := by
  refine ⟨h.sublist.trans (List.sublist_append_left _ _), ?_⟩
  have := h.length
  simp only [List.length_append, List.length_singleton]
  omega

/-- A value that had come through is lost behind it. -/
theorem Fed.lose {front back : List α} (h : Fed log (front ++ a :: back) lost) :
    Fed log (front ++ back) (lost + 1) := by
  refine ⟨List.Sublist.trans ?_ h.sublist, ?_⟩
  · exact (List.Sublist.refl _).append (List.sublist_cons_self _ _)
  · have := h.length
    simp only [List.length_append, List.length_cons] at this ⊢
    omega

/-- **Nothing is missing** where nothing is lost. -/
theorem Fed.eq_of_lost (h : Fed log got 0) : got = log := h.sublist.eq_of_length h.length

/-- A value that is offered. -/
theorem Fed.offer {front : List α} (h : Fed log (front ++ b.queue) lost) (a : α) :
    Fed (log ++ [a]) (front ++ (b.offer a).queue) (if b.Full then lost + 1 else lost) := by
  rw [queue_offer]
  split_ifs with hfull
  · exact h.dropped a
  · rw [← List.append_assoc]
    exact h.kept a

end Pacsni.Lib.Offer
