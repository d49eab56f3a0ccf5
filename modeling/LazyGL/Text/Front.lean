/-!
Taking a known front off a list of characters or bytes.
-/

namespace LazyGL

variable {α : Type} [DecidableEq α]

/-- What follows a front, if the whole begins with it. -/
def afterFront? : List α → List α → Option (List α)
  | [], whole => some whole
  | _ :: _, [] => none
  | a :: front, b :: whole => if a = b then afterFront? front whole else none

theorem afterFront?_append (front rest : List α) :
    afterFront? front (front ++ rest) = some rest := by
  induction front with
  | nil => rfl
  | cons a front ih => simpa [afterFront?] using ih

/-- What follows a front makes the whole with it. -/
theorem eq_append_of_afterFront? {front whole rest : List α}
    (h : afterFront? front whole = some rest) : whole = front ++ rest := by
  induction front generalizing whole with
  | nil =>
      rw [afterFront?, Option.some.injEq] at h
      exact h
  | cons a front ih =>
      cases whole with
      | nil => simp [afterFront?] at h
      | cons b whole =>
          rw [afterFront?] at h
          split at h
          · next hab => rw [ih h, hab, List.cons_append]
          · simp at h

end LazyGL
