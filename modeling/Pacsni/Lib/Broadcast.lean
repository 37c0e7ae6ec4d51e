import Mathlib

/-! # Broadcast channels

The values of a channel form a log, of which only the newest ones are kept. A receiver stands at a place
in the log. If the value at this place is no longer kept, the receiver is told how many it has missed and
goes on behind them. A `Channel` is what `recv` returns, with the two facts that its documentation states;
`keeping` is the channel that keeps a fixed number of values. What a receiver gets from one place to a
later one covers the part of the log between them (`Covers`), so that the values it gets are in the order
of the log, and with the ones it is told to have missed they are as many as were sent. -/

namespace Pacsni.Lib.Broadcast

/-- What `recv` returns. -/
inductive Event (α : Type*)
  | value (a : α)
  | lagged (skipped : ℕ)

variable {α : Type*}

/-- A channel. `recv log next` is what `recv` returns to a receiver at the place `next` when the values
`log` have been sent, with the place where it goes on; `none` if it waits. -/
structure Channel (α : Type*) where
  recv : List α → ℕ → Option (Event α × ℕ)
  /-- Every receiver gets the values in the order in which they were sent. -/
  value_spec : ∀ {log next a next'}, recv log next = some (.value a, next') →
    log[next]? = some a ∧ next' = next + 1
  /-- A receiver that has fallen behind is told how many values it has missed, and its place is moved to
  the oldest one that the channel still holds. -/
  lagged_spec : ∀ {log next n next'}, recv log next = some (.lagged n, next') →
    0 < n ∧ next' = next + n ∧ next' ≤ log.length

/-- What `recv` returns when the last `capacity` values are kept. -/
def recvKeeping (capacity : ℕ) (log : List α) (next : ℕ) : Option (Event α × ℕ) :=
  if next + capacity < log.length then
    some (.lagged (log.length - capacity - next), log.length - capacity)
  else log[next]?.map fun a => (.value a, next + 1)

theorem recvKeeping_value {capacity next next' : ℕ} {log : List α} {a : α}
    (h : recvKeeping capacity log next = some (.value a, next')) :
    log[next]? = some a ∧ next' = next + 1 := by
  unfold recvKeeping at h
  split_ifs at h
  · cases h
  · obtain ⟨b, hb, heq⟩ := Option.map_eq_some_iff.mp h
    obtain ⟨hval, rfl⟩ := Prod.mk.inj heq
    obtain rfl := Event.value.inj hval
    exact ⟨hb, rfl⟩

theorem recvKeeping_lagged {capacity next next' n : ℕ} {log : List α}
    (h : recvKeeping capacity log next = some (.lagged n, next')) :
    0 < n ∧ next' = next + n ∧ next' ≤ log.length := by
  unfold recvKeeping at h
  split_ifs at h with hlag
  · obtain ⟨hn, rfl⟩ := Prod.mk.inj (Option.some.inj h)
    obtain rfl := Event.lagged.inj hn
    omega
  · obtain ⟨b, -, heq⟩ := Option.map_eq_some_iff.mp h
    cases (Prod.mk.inj heq).1

/-- The channel that keeps the last `capacity` values. -/
def keeping (capacity : ℕ) : Channel α where
  recv := recvKeeping capacity
  value_spec := recvKeeping_value
  lagged_spec := recvKeeping_lagged

/-- The values of some events. -/
def values (es : List (Event α)) : List α := es.filterMap fun
  | .value a => some a
  | .lagged _ => none

/-- How many values the events say to have been missed. -/
def skipped (es : List (Event α)) : ℕ := (es.map fun
  | .value _ => 0
  | .lagged n => n).sum

/-- The events of a receiver that has gone through `l`. -/
inductive Covers : List α → List (Event α) → Prop
  | nil : Covers [] []
  | value {l es} (a : α) (h : Covers l es) : Covers (l ++ [a]) (es ++ [.value a])
  | lagged {l es} (m : List α) (h : Covers l es) : Covers (l ++ m) (es ++ [.lagged m.length])

variable {l : List α} {es es' : List (Event α)}

@[simp] theorem values_append : values (es ++ es') = values es ++ values es' := List.filterMap_append

@[simp] theorem skipped_append : skipped (es ++ es') = skipped es + skipped es' := by
  simp [skipped]

/-- **Order.** The values are some of the log, in its order. -/
theorem Covers.sublist (h : Covers l es) : (values es).Sublist l := by
  induction h with
  | nil => exact List.Sublist.refl _
  | value a _ ih =>
    rw [values_append]
    exact ih.append (List.Sublist.refl _)
  | lagged m _ ih =>
    rw [values_append]
    exact ih.append (List.nil_sublist m)

/-- **Accounting.** Values that a receiver does not get are ones that it is told to have missed. -/
theorem Covers.length (h : Covers l es) : (values es).length + skipped es = l.length := by
  induction h with
  | nil => rfl
  | value a _ ih =>
    rw [values_append, skipped_append, List.length_append, List.length_append, ← ih]
    simp [values, skipped]
    omega
  | lagged m _ ih =>
    rw [values_append, skipped_append, List.length_append, List.length_append, ← ih]
    simp [values, skipped]
    omega

/-- A receiver that misses nothing gets everything. -/
theorem Covers.eq_of_skipped (h : Covers l es) (hs : skipped es = 0) : values es = l :=
  h.sublist.eq_of_length (by have := h.length; omega)

/-- **Receiving.** The events cover the log from the start to the place where the receiver goes on. -/
theorem Covers.recv {rx : Channel α} {start next next' : ℕ} {log : List α} {e : Event α}
    (h : Covers ((log.take next).drop start) es) (hstart : start ≤ next)
    (hrecv : rx.recv log next = some (e, next')) :
    next < next' ∧ next' ≤ log.length ∧
      Covers ((log.take next').drop start) (es ++ [e]) := by
  -- the part between the two places is what is added
  have hsplit : ∀ m, next ≤ m → m ≤ log.length → (log.take m).drop start =
      (log.take next).drop start ++ (log.take m).drop next := by
    intro m hle hlen
    have htake : log.take m = log.take next ++ (log.take m).drop next := by
      have hmin : log.take next = (log.take m).take next := by
        rw [List.take_take, Nat.min_eq_left hle]
      rw [hmin, List.take_append_drop]
    conv_lhs => rw [htake]
    rw [List.drop_append_of_le_length (by rw [List.length_take]; omega)]
  cases e with
  | lagged n =>
    obtain ⟨hpos, rfl, hle⟩ := rx.lagged_spec hrecv
    have hlen : ((log.take (next + n)).drop next).length = n := by
      rw [List.length_drop, List.length_take, Nat.min_eq_left hle, Nat.add_sub_cancel_left]
    have hmissed := Covers.lagged ((log.take (next + n)).drop next) h
    rw [hlen] at hmissed
    refine ⟨by omega, hle, ?_⟩
    rw [hsplit _ (by omega) hle]
    exact hmissed
  | value a =>
    obtain ⟨ha, rfl⟩ := rx.value_spec hrecv
    obtain ⟨hlt, -⟩ := List.getElem?_eq_some_iff.mp ha
    have hone : (log.take (next + 1)).drop next = [a] := by
      rw [List.take_add_one, ha, List.drop_append_of_le_length (by rw [List.length_take]; omega),
        List.drop_eq_nil_of_le (by rw [List.length_take]; omega)]
      rfl
    refine ⟨by omega, hlt, ?_⟩
    rw [hsplit _ (by omega) hlt, hone]
    exact .value a h

end Pacsni.Lib.Broadcast
