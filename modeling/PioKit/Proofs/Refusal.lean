/-!
# Runs that can be refused

Reading, collecting and encoding are computations that stop at the first fault. The lemmas below say
when such a computation goes through, and at which element a traversal stops: a list is refused
exactly at the first element that is refused after everything before it went through. If every step
of a traversal commutes with a change of elements, states and faults, the whole does.
-/

namespace PioKit

variable {ε ε' α β : Type}

theorem bind_eq_ok_iff {x : Except ε α} {f : α → Except ε β} {b : β} :
    (x >>= f) = .ok b ↔ ∃ a, x = .ok a ∧ f a = .ok b := by
  cases x with
  | error e => simp [bind, Except.bind]
  | ok a => simp [bind, Except.bind]

theorem bind_eq_error_iff {x : Except ε α} {f : α → Except ε β} {e : ε} :
    (x >>= f) = .error e ↔ x = .error e ∨ ∃ a, x = .ok a ∧ f a = .error e := by
  cases x with
  | error e' => simp [bind, Except.bind]
  | ok a => simp [bind, Except.bind]

theorem mapError_eq_ok_iff {x : Except ε α} {f : ε → ε'} {a : α} :
    x.mapError f = .ok a ↔ x = .ok a := by
  cases x with
  | error e => exact ⟨nofun, nofun⟩
  | ok b =>
    show Except.ok b = .ok a ↔ Except.ok b = .ok a
    rw [Except.ok.injEq, Except.ok.injEq]

theorem mapError_eq_error_iff {x : Except ε α} {f : ε → ε'} {e' : ε'} :
    x.mapError f = .error e' ↔ ∃ e, x = .error e ∧ f e = e' := by
  cases x with
  | error e =>
    show Except.error (f e) = .error e' ↔ ∃ e₁, Except.error e = .error e₁ ∧ f e₁ = e'
    simp
  | ok b => exact ⟨nofun, nofun⟩

/-- A fold that carries a state is refused at the first element that its state refuses. -/
theorem foldlM_eq_error_iff {step : β → α → Except ε β} {l : List α} {s : β} {e : ε} :
    l.foldlM step s = .error e ↔
      ∃ before a after s', l = before ++ a :: after ∧ before.foldlM step s = .ok s' ∧
        step s' a = .error e := by
  -- the state in front of the refused element is that of the elements before it, so it varies
  induction l generalizing s with
  | nil => simp [pure, Except.pure]
  | cons a l ih =>
    rw [List.foldlM_cons, bind_eq_error_iff]
    constructor
    · rintro (h | ⟨s₁, h₁, h⟩)
      · exact ⟨[], a, l, s, rfl, rfl, h⟩
      · obtain ⟨before, b, after, s', rfl, hb, he⟩ := ih.mp h
        refine ⟨a :: before, b, after, s', rfl, ?_, he⟩
        rw [List.foldlM_cons, bind_eq_ok_iff]
        exact ⟨s₁, h₁, hb⟩
    · rintro ⟨before, b, after, s', hl, hb, he⟩
      cases before with
      | nil =>
        cases hl
        cases hb
        exact .inl he
      | cons c before =>
        obtain ⟨rfl, rfl⟩ := List.cons.inj hl
        rw [List.foldlM_cons, bind_eq_ok_iff] at hb
        obtain ⟨s₁, h₁, hb⟩ := hb
        exact .inr ⟨s₁, h₁, ih.mpr ⟨before, b, after, s', rfl, hb, he⟩⟩

/-- A list is mapped to the list of the single results, one for each element in order. -/
theorem mapM_eq_ok_iff {f : α → Except ε β} {l : List α} {out : List β} :
    l.mapM f = .ok out ↔
      out.length = l.length ∧
        ∀ (k : Nat) (a : α), l[k]? = some a → ∃ b, out[k]? = some b ∧ f a = .ok b := by
  induction l generalizing out with
  | nil => simp [pure, Except.pure, eq_comm]
  | cons a l ih =>
    simp only [List.mapM_cons, bind_eq_ok_iff, pure, Except.pure, Except.ok.injEq]
    constructor
    · rintro ⟨b, hb, bs, hbs, rfl⟩
      obtain ⟨hlen, hall⟩ := ih.mp hbs
      refine ⟨by simp [hlen], fun k x hx => ?_⟩
      cases k with
      | zero =>
        cases hx
        exact ⟨b, rfl, hb⟩
      | succ k => exact hall k x hx
    · rintro ⟨hlen, hall⟩
      cases out with
      | nil => simp at hlen
      | cons b bs =>
        obtain ⟨b', hb', hb⟩ := hall 0 a rfl
        cases hb'
        refine ⟨b, hb, bs, ih.mpr ⟨by simpa using hlen, fun k x hx => ?_⟩, rfl⟩
        exact hall (k + 1) x hx

/-- A list is refused at the first element that is refused. -/
theorem mapM_eq_error_iff {f : α → Except ε β} {l : List α} {e : ε} :
    l.mapM f = .error e ↔
      ∃ before a after, l = before ++ a :: after ∧ (∀ x ∈ before, ∃ b, f x = .ok b) ∧
        f a = .error e := by
  induction l with
  | nil => simp [pure, Except.pure]
  | cons a l ih =>
    simp only [List.mapM_cons, bind_eq_error_iff, pure, Except.pure, reduceCtorEq, and_false,
      exists_false, or_false]
    constructor
    · rintro (h | ⟨b, hb, h⟩)
      · exact ⟨[], a, l, rfl, nofun, h⟩
      · obtain ⟨before, c, after, rfl, hall, hc⟩ := ih.mp h
        refine ⟨a :: before, c, after, rfl, fun x hx => ?_, hc⟩
        rcases List.mem_cons.mp hx with rfl | hx
        · exact ⟨b, hb⟩
        · exact hall x hx
    · rintro ⟨before, c, after, hl, hall, hc⟩
      cases before with
      | nil =>
        cases hl
        exact .inl hc
      | cons d before =>
        obtain ⟨rfl, rfl⟩ := List.cons.inj hl
        obtain ⟨b, hb⟩ := hall a List.mem_cons_self
        refine .inr ⟨b, hb, ih.mpr ⟨before, c, after, rfl, fun x hx => ?_, hc⟩⟩
        exact hall x (List.mem_cons_of_mem a hx)

/-- A fold commutes with a change of its states, its elements and its faults if every step does. -/
theorem foldlM_map_of_step {α' β' : Type} {step : β → α → Except ε β}
    {step' : β' → α' → Except ε' β'} {f : β → β'} {g : α → α'} {h : ε → ε'}
    (hstep : ∀ s a, step' (f s) (g a) = ((step s a).map f).mapError h) (l : List α) (s : β) :
    (l.map g).foldlM step' (f s) = ((l.foldlM step s).map f).mapError h := by
  induction l generalizing s with
  | nil => rfl
  | cons a l ih =>
    rw [List.map_cons, List.foldlM_cons, List.foldlM_cons, hstep]
    cases step s a with
    | error e => rfl
    | ok s' => exact ih s'

theorem mapError_map (x : Except ε α) (f : α → β) (h : ε → ε') :
    (x.map f).mapError h = (x.mapError h).map f := by
  cases x <;> rfl

theorem mapM_congr_of_mem {f g : α → Except ε β} {l : List α} (h : ∀ a ∈ l, f a = g a) :
    l.mapM f = l.mapM g := by
  induction l with
  | nil => rfl
  | cons a l ih =>
    rw [List.forall_mem_cons] at h
    rw [List.mapM_cons, List.mapM_cons, h.1, ih h.2]

/-- The fault of a list is changed by changing the faults of its elements. -/
theorem mapM_mapError (f : α → Except ε β) (h : ε → ε') (l : List α) :
    (l.mapM f).mapError h = l.mapM fun a => (f a).mapError h := by
  induction l with
  | nil => rfl
  | cons a l ih =>
    rw [List.mapM_cons, List.mapM_cons, ← ih]
    cases f a with
    | error e => rfl
    | ok b => cases l.mapM f <;> rfl

/-- In a list that goes through, another element in one place changes the result in that place, or it
is refused. -/
theorem mapM_set {f : α → Except ε β} {l : List α} {out : List β} (h : l.mapM f = .ok out)
    {i : Nat} (hi : i < l.length) (a : α) :
    (l.set i a).mapM f = (f a).map (out.set i) := by
  induction l generalizing out i with
  | nil => cases hi
  | cons c l ih =>
    rw [List.mapM_cons, bind_eq_ok_iff] at h
    obtain ⟨d, hd, h⟩ := h
    obtain ⟨ds, hds, hout⟩ := bind_eq_ok_iff.mp h
    cases hout
    cases i with
    | zero =>
      rw [List.set_cons_zero, List.mapM_cons, hds]
      cases f a <;> rfl
    | succ i =>
      rw [List.set_cons_succ, List.mapM_cons, hd, ih hds (Nat.lt_of_succ_lt_succ hi)]
      cases f a <;> rfl

end PioKit
