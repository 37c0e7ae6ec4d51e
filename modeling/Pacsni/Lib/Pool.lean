import Mathlib

/-! # What a pool of workers makes

Items arrive and wait; workers take them, in any order, and make one product of each. `Made R as q bs`
says that of the items `as` those of `q` still wait and the products `bs` were made of others, each of an
item of its own, to which it is related by `R`. Items and products may get lost, but no product comes from
nothing and no item is used twice, however many workers there are (`Made.exists_list`). -/

namespace Pacsni.Lib.Pool

variable {α β : Type*} {R : α → β → Prop} {as q : Multiset α} {bs bs' : Multiset β} {a : α} {b : β}

/-- Of the items `as`, those of `q` wait, and `bs` were made of others. -/
def Made (R : α → β → Prop) (as q : Multiset α) (bs : Multiset β) : Prop :=
  ∃ used, Multiset.Rel R used bs ∧ used + q ≤ as

theorem Made.start (R : α → β → Prop) : Made R 0 0 0 := ⟨0, .zero, le_rfl⟩

/-- An item arrives. -/
theorem Made.arrive (h : Made R as q bs) (a : α) : Made R (as + {a}) (q + {a}) bs := by
  obtain ⟨used, hrel, hle⟩ := h
  refine ⟨used, hrel, ?_⟩
  rw [← add_assoc]
  exact add_le_add_left hle {a}

/-- An item is turned away. -/
theorem Made.refuse (h : Made R as q bs) (a : α) : Made R (as + {a}) q bs := by
  obtain ⟨used, hrel, hle⟩ := h
  exact ⟨used, hrel, hle.trans (Multiset.le_add_right _ _)⟩

/-- An item is taken, and a product made of it. -/
theorem Made.work (h : Made R as ({a} + q) bs) (hab : R a b) : Made R as q (bs + {b}) := by
  obtain ⟨used, hrel, hle⟩ := h
  refine ⟨used + {a}, hrel.add (.cons hab .zero), ?_⟩
  rwa [add_assoc]

/-- Products get lost. -/
theorem Made.lose (h : Made R as q bs) (hle : bs' ≤ bs) : Made R as q bs' := by
  obtain ⟨used, hrel, hused⟩ := h
  obtain ⟨gone, rfl⟩ := Multiset.le_iff_exists_add.mp hle
  obtain ⟨kept, rest, hkept, -, rfl⟩ := Multiset.rel_add_right.mp hrel
  refine ⟨kept, hkept, le_trans (add_le_add_left (Multiset.le_add_right kept rest) q) hused⟩

/-- **Products in a row**, each with the item that it was made of. -/
theorem Made.exists_list {l : List β} (h : Made R as q l) : ∃ ds : List (α × β),
    ds.map Prod.snd = l ∧ (∀ d ∈ ds, R d.1 d.2) ∧ (ds.map Prod.fst : Multiset α) ≤ as := by
  obtain ⟨used, hrel, hle⟩ := h
  have hused : ∃ ds : List (α × β), ds.map Prod.snd = l ∧ (∀ d ∈ ds, R d.1 d.2) ∧
      (ds.map Prod.fst : Multiset α) = used := by
    clear hle
    induction l generalizing used with
    | nil =>
      rw [Multiset.coe_nil, Multiset.rel_zero_right] at hrel
      exact ⟨[], rfl, nofun, hrel.symm⟩
    | cons b l ih =>
      rw [← Multiset.cons_coe, Multiset.rel_cons_right] at hrel
      obtain ⟨a, used, hab, hrel, rfl⟩ := hrel
      obtain ⟨ds, hsnd, hall, hfst⟩ := ih used hrel
      refine ⟨(a, b) :: ds, by rw [List.map_cons, hsnd], ?_, ?_⟩
      · rintro d (_ | ⟨_, hd⟩)
        · exact hab
        · exact hall d hd
      · rw [List.map_cons, ← Multiset.cons_coe, hfst]
  obtain ⟨ds, hsnd, hall, rfl⟩ := hused
  exact ⟨ds, hsnd, hall, (Multiset.le_add_right _ _).trans hle⟩

end Pacsni.Lib.Pool
