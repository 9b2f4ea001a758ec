import HistoryTree.Notice

/-!
# Attempts

An attempt at reading something issues notices on the way to its result, and the
notices stay when it fails. What `bind` does is said once for either part:
`result_bind` and `notices_bind`.
-/

namespace HistoryTree

structure Attempt (α : Type) where
  notices : List Notice
  result : Except DecodeError α

namespace Attempt

instance : Monad Attempt where
  pure value := ⟨[], .ok value⟩
  bind first next :=
    match first.result with
    | .ok value => ⟨first.notices ++ (next value).notices, (next value).result⟩
    | .error cause => ⟨first.notices, .error cause⟩

instance : LawfulMonad Attempt := LawfulMonad.mk' Attempt
  (by rintro α ⟨notices, result⟩; cases result <;> simp [Functor.map])
  (by intros; simp [bind, pure])
  (by
    rintro α β γ ⟨notices, result⟩ f g
    cases result with
    | error cause => rfl
    | ok value => simp only [bind]; cases (f value).result <;> simp)

/-- What issues no notice is an attempt as it is. -/
instance : MonadLift (Except DecodeError) Attempt where
  monadLift result := ⟨[], result⟩

def note (notice : Notice) : Attempt Unit :=
  ⟨[notice], .ok ()⟩

def noteIf (condition : Prop) [Decidable condition] (notice : Notice) : Attempt Unit :=
  ⟨if condition then [notice] else [], .ok ()⟩

variable {α β : Type}

@[simp]
theorem result_pure (value : α) : (pure value : Attempt α).result = .ok value := rfl

@[simp]
theorem notices_pure (value : α) : (pure value : Attempt α).notices = [] := rfl

@[simp]
theorem result_lift (result : Except DecodeError α) :
    (liftM result : Attempt α).result = result := rfl

@[simp]
theorem notices_lift (result : Except DecodeError α) :
    (liftM result : Attempt α).notices = [] := rfl

@[simp]
theorem result_noteIf (condition : Prop) [Decidable condition] (notice : Notice) :
    (noteIf condition notice).result = .ok () := rfl

@[simp]
theorem notices_noteIf (condition : Prop) [Decidable condition] (notice : Notice) :
    (noteIf condition notice).notices = if condition then [notice] else [] := rfl

@[simp]
theorem result_bind (first : Attempt α) (next : α → Attempt β) :
    (first >>= next).result = first.result >>= fun value => (next value).result := by
  obtain ⟨notices, result⟩ := first
  cases result <;> rfl

/-- The notices of the second part come after those of the first, if it succeeds. -/
theorem notices_bind (first : Attempt α) (next : α → Attempt β) :
    (first >>= next).notices =
      first.notices ++ match first.result with
        | .ok value => (next value).notices
        | .error _ => [] := by
  obtain ⟨notices, result⟩ := first
  cases result <;> simp [bind]

end Attempt

end HistoryTree
