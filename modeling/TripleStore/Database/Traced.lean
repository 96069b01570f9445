import TripleStore.Failure
import TripleStore.Search.Event

/-!
# Traced computations

A computation that searches has a result, or a reason why it has none, and the events of its searches in
order.
-/

namespace TripleStore

/-- The result of a computation that searches, with the events of its searches. -/
structure Traced (α : Type) where
  /-- The result. -/
  result : Except Failure α
  /-- The events of the searches. -/
  events : List Event

namespace Traced

/-- Goes on with the result of a computation; events are put together. -/
def bind {α β : Type} (x : Traced α) (f : α → Traced β) : Traced β :=
  match x.result with
  | .ok a => ⟨(f a).result, x.events ++ (f a).events⟩
  | .error e => ⟨.error e, x.events⟩

instance : Monad Traced where
  pure a := ⟨.ok a, []⟩
  bind := bind

instance : LawfulMonad Traced := LawfulMonad.mk' Traced
  (fun x => by rcases x with ⟨_ | _, _⟩ <;> simp [Functor.map, bind])
  (fun _ _ => by simp [Bind.bind, pure, bind])
  (fun x f _ => by
    rcases x with ⟨_ | a, _⟩
    · simp [Bind.bind, bind]
    · rcases h : f a with ⟨_ | _, _⟩ <;> simp [Bind.bind, bind, h])

/-- A computation without searches. -/
def lift {α : Type} (result : Except Failure α) : Traced α := ⟨result, []⟩

end Traced

end TripleStore
