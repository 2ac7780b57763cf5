/-!
# Attempts

What is made of the elements of a list one after another is made of all of them, or the first fault
ends it.

## Main results

* `mapM_eq_ok` — **where nothing fails, everything is made.**
* `mapM_eq_error`, `exists_of_mapM_eq_error` — where something fails, nothing is made, and the other
  way round.
* `exists_of_mapM_eq_ok` — where everything is made, nothing has failed.
* `exists_of_mem_of_mapM` — and nothing is made of anything else.
* `map_eq_map_of_mapM` — each is made of the element at its place.
* `exists_eq_ok_of_any` — what passes a test has not failed.
-/

namespace FactNet

variable {ε β γ : Type}

/-- **Where nothing fails, everything is made.** -/
theorem mapM_eq_ok {f : β → Except ε γ} {g : β → γ} {xs : List β}
    (h : ∀ x ∈ xs, f x = .ok (g x)) : xs.mapM f = .ok (xs.map g) := by
  induction xs with
  | nil => rfl
  | cons x xs ih =>
    obtain ⟨hx, hxs⟩ := List.forall_mem_cons.1 h
    rw [List.mapM_cons, hx, ih hxs]
    rfl

/-- Where something fails, nothing is made. -/
theorem mapM_eq_error {f : β → Except ε γ} {xs : List β} {x : β} {e : ε} (hx : x ∈ xs)
    (h : f x = .error e) : ∃ e, xs.mapM f = .error e := by
  induction xs with
  | nil => cases hx
  | cons y xs ih =>
    rw [List.mapM_cons]
    cases hy : f y with
    | error e => exact ⟨e, rfl⟩
    | ok z =>
      rcases List.mem_cons.1 hx with rfl | hx
      · rw [h] at hy
        cases hy
      · obtain ⟨e, he⟩ := ih hx
        exact ⟨e, by rw [he]; rfl⟩

/-- Where everything is made, it is made of the first element and of the others. -/
theorem of_mapM_cons_eq_ok {f : β → Except ε γ} {x : β} {xs : List β} {ys : List γ}
    (h : (x :: xs).mapM f = .ok ys) :
    ∃ z zs, f x = .ok z ∧ xs.mapM f = .ok zs ∧ ys = z :: zs := by
  rw [List.mapM_cons] at h
  cases hx : f x with
  | error e =>
    rw [hx] at h
    cases h
  | ok z =>
    cases hxs : xs.mapM f with
    | error e =>
      rw [hx, hxs] at h
      cases h
    | ok zs =>
      rw [hx, hxs] at h
      cases h
      exact ⟨z, zs, rfl, rfl, rfl⟩

/-- Where everything is made, nothing has failed. -/
theorem exists_of_mapM_eq_ok {f : β → Except ε γ} {xs : List β} {ys : List γ}
    (h : xs.mapM f = .ok ys) {x : β} (hx : x ∈ xs) : ∃ y ∈ ys, f x = .ok y := by
  induction xs generalizing ys with
  | nil => cases hx
  | cons x' xs ih =>
    obtain ⟨z, zs, hz, hzs, rfl⟩ := of_mapM_cons_eq_ok h
    rcases List.mem_cons.1 hx with rfl | hx
    · exact ⟨z, List.mem_cons_self, hz⟩
    · obtain ⟨y, hy, hxy⟩ := ih hzs hx
      exact ⟨y, List.mem_cons_of_mem _ hy, hxy⟩

/-- Whatever is made is made of an element. -/
theorem exists_of_mem_of_mapM {f : β → Except ε γ} {xs : List β} {ys : List γ}
    (h : xs.mapM f = .ok ys) {y : γ} (hy : y ∈ ys) : ∃ x ∈ xs, f x = .ok y := by
  induction xs generalizing ys with
  | nil =>
    cases h
    cases hy
  | cons x xs ih =>
    obtain ⟨z, zs, hz, hzs, rfl⟩ := of_mapM_cons_eq_ok h
    rcases List.mem_cons.1 hy with rfl | hy
    · exact ⟨x, List.mem_cons_self, hz⟩
    · obtain ⟨x', hx', hy'⟩ := ih hzs hy
      exact ⟨x', List.mem_cons_of_mem _ hx', hy'⟩

/-- Each is made of the element at its place, so what can be told of it can be told there. -/
theorem map_eq_map_of_mapM {δ : Type} {f : β → Except ε γ} {g : γ → δ} {k : β → δ} {xs : List β}
    {ys : List γ} (hsame : ∀ x ∈ xs, ∀ y, f x = .ok y → g y = k x) (h : xs.mapM f = .ok ys) :
    ys.map g = xs.map k := by
  induction xs generalizing ys with
  | nil =>
    cases h
    rfl
  | cons x xs ih =>
    obtain ⟨hx, hxs⟩ := List.forall_mem_cons.1 hsame
    obtain ⟨z, zs, hz, hzs, rfl⟩ := of_mapM_cons_eq_ok h
    rw [List.map_cons, List.map_cons, hx z hz, ih hxs hzs]

/-- Where not everything is made, something has failed. -/
theorem exists_of_mapM_eq_error {f : β → Except ε γ} {xs : List β} {e : ε}
    (h : xs.mapM f = .error e) : ∃ x ∈ xs, f x = .error e := by
  induction xs with
  | nil => cases h
  | cons x xs ih =>
    rw [List.mapM_cons] at h
    cases hx : f x with
    | error e' =>
      rw [hx] at h
      cases h
      exact ⟨x, List.mem_cons_self, hx⟩
    | ok z =>
      cases hxs : xs.mapM f with
      | error e' =>
        rw [hx, hxs] at h
        cases h
        obtain ⟨y, hy, hfail⟩ := ih hxs
        exact ⟨y, List.mem_cons_of_mem _ hy, hfail⟩
      | ok zs =>
        rw [hx, hxs] at h
        cases h

/-- What passes a test is there. -/
theorem exists_eq_ok_of_any {x : Except ε β} {test : β → Bool} (h : x.toOption.any test = true) :
    ∃ y, x = .ok y ∧ test y = true := by
  cases x with
  | error e => cases h
  | ok y => exact ⟨y, rfl, h⟩

end FactNet
