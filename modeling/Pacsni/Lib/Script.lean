import Mathlib.Data.List.Basic

/-! # Array methods whose callback may throw

`every` and `filter` of a script, with a callback that returns a truth value or throws. An exception of
the callback ends the method. `every` asks the callback only up to the first element that is refused. -/

namespace Pacsni.Lib.Script

variable {ε α : Type*}

/-- `Array.prototype.every` -/
def every (f : α → Except ε Bool) : List α → Except ε Bool
  | [] => .ok true
  | x :: xs => match f x with
    | .ok true => every f xs
    | .ok false => .ok false
    | .error e => .error e

/-- `Array.prototype.filter` -/
def filter (f : α → Except ε Bool) : List α → Except ε (List α)
  | [] => .ok []
  | x :: xs => match f x with
    | .ok keep => match filter f xs with
      | .ok rest => .ok (if keep then x :: rest else rest)
      | .error e => .error e
    | .error e => .error e

/-- `try { return body } catch (e) { return fallback }` -/
def tryCatch (body : Except ε α) (fallback : α) : α :=
  match body with
  | .ok a => a
  | .error _ => fallback

variable {f : α → Except ε Bool} {g : α → Bool} {x : α} {xs : List α} {e : ε}

theorem every_cons_true (h : f x = .ok true) : every f (x :: xs) = every f xs := by rw [every, h]

theorem every_cons_false (h : f x = .ok false) : every f (x :: xs) = .ok false := by rw [every, h]

theorem every_cons_error (h : f x = .error e) : every f (x :: xs) = .error e := by rw [every, h]

/-- The callback returned a truth value for every element that `filter` has got through. -/
theorem filter_eq_ok {ys : List α} (h : filter f xs = .ok ys) :
    (∀ x ∈ xs, f x = .ok (tryCatch (f x) false)) ∧ ys = xs.filter fun x => tryCatch (f x) false := by
  induction xs generalizing ys with
  | nil => exact ⟨nofun, (Except.ok.inj h).symm⟩
  | cons x xs ih =>
    unfold filter at h
    cases hx : f x with
    | error e => simp [hx] at h
    | ok keep =>
      cases hxs : filter f xs with
      | error e => simp [hx, hxs] at h
      | ok rest =>
        obtain ⟨hall, hrest⟩ := ih hxs
        simp only [hx, hxs, Except.ok.injEq] at h
        have hkeep : tryCatch (f x) false = keep := by rw [hx]; rfl
        refine ⟨fun y hy => ?_, ?_⟩
        · rcases List.mem_cons.mp hy with rfl | hy
          · rw [hkeep, hx]
          · exact hall y hy
        · rw [List.filter_cons, hkeep, ← hrest, h]

theorem filter_of_ok (h : ∀ x ∈ xs, f x = .ok (g x)) : filter f xs = .ok (xs.filter g) := by
  induction xs with
  | nil => rfl
  | cons x xs ih =>
    rw [filter, h x List.mem_cons_self, ih fun y hy => h y (List.mem_cons_of_mem _ hy)]
    rw [List.filter_cons]

/-- **Filtering.** `filter` returns the elements that meet `g` if and only if the callback returns `g` for
each element. -/
theorem filter_eq_ok_iff : filter f xs = .ok (xs.filter g) ↔ ∀ x ∈ xs, f x = .ok (g x) := by
  refine ⟨fun h x hx => ?_, filter_of_ok⟩
  obtain ⟨hok, heq⟩ := filter_eq_ok h
  have hmem : g x = true ↔ tryCatch (f x) false = true := by
    have hiff : x ∈ xs.filter g ↔ x ∈ xs.filter fun x => tryCatch (f x) false := by rw [heq]
    simpa [List.mem_filter, hx] using hiff
  rw [hok x hx, Bool.eq_iff_iff.mpr hmem]

end Pacsni.Lib.Script
