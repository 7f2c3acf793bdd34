import HeapShape.State

/-!
# Operations on states

An operation on a state can have any number of *outcomes*: more than one where a case
distinction is needed, and none where no case is possible. Each outcome is a state
together with a result, or with the defect that ends the path there. Operations are
composed along all outcomes, in order.
-/

namespace HeapShape

/-- The outcomes of an operation. -/
abbrev Outcomes (α : Type) := List (State × Except Defect α)

/-- An operation on a state. -/
def Exec (α : Type) : Type := State → Outcomes α

namespace Exec

variable {α β γ : Type}

/-- Go on after each outcome. A defect ends its path. -/
def andThen (x : Exec α) (f : α → Exec β) : Exec β := fun s =>
  (x s).flatMap fun (s, r) =>
    match r with
    | .ok a => f a s
    | .error d => [(s, .error d)]

instance : Monad Exec where
  pure a := fun s => [(s, .ok a)]
  bind := andThen

/-- The path ends. -/
def fail (d : Defect) : Exec α := fun s => [(s, .error d)]

/-- No case is possible. -/
def impossible : Exec α := fun _ => []

/-- The cases of two operations. -/
def either (x y : Exec α) : Exec α := fun s => x s ++ y s

/-- A result that the state determines. -/
def ask (f : State → Except Defect α) : Exec α := fun s => [(s, f s)]

/-- A new state, or a defect that leaves the state as it is. -/
def update (f : State → Except Defect State) : Exec Unit := fun s =>
  match f s with
  | .ok s => [(s, .ok ())]
  | .error d => [(s, .error d)]

@[simp] theorem pure_apply (a : α) (s : State) : (pure a : Exec α) s = [(s, .ok a)] := rfl

theorem bind_apply (x : Exec α) (f : α → Exec β) (s : State) :
    (x >>= f) s = (x s).flatMap fun (s, r) =>
      match r with
      | .ok a => f a s
      | .error d => [(s, .error d)] := rfl

theorem bind_pure_apply (x : Exec α) : x >>= pure = x := by
  funext s
  rw [bind_apply]
  induction x s with
  | nil => rfl
  | cons p l ih =>
    obtain ⟨s, r⟩ := p
    rw [List.flatMap_cons, ih]
    cases r <;> rfl

theorem bind_bind (x : Exec α) (f : α → Exec β) (g : β → Exec γ) :
    x >>= f >>= g = x >>= fun a => f a >>= g := by
  funext s
  simp only [bind_apply, List.flatMap_assoc]
  congr 1
  funext ⟨s, r⟩
  cases r <;> simp

instance : LawfulMonad Exec :=
  LawfulMonad.mk' Exec bind_pure_apply (fun _ _ => by funext s; simp [bind_apply]) bind_bind

end Exec

end HeapShape
