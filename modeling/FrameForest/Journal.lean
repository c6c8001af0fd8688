/-!
# Journals

Operations that tell what they did return their result together with the journal
entries they wrote, in order.
-/

namespace FrameForest

inductive Severity where
  | warning
  | notice
  | detail
  deriving DecidableEq, Repr

structure JournalEntry where
  severity : Severity
  text : String
  deriving DecidableEq, Repr

/-- A result and the entries written on the way to it. -/
structure Journaled (β : Type) where
  result : β
  entries : List JournalEntry
  deriving Repr

namespace Journaled

instance : Monad Journaled where
  pure result := ⟨result, []⟩
  bind first next :=
    let second := next first.result
    ⟨second.result, first.entries ++ second.entries⟩

def write (severity : Severity) (text : String) : Journaled Unit :=
  ⟨(), [⟨severity, text⟩]⟩

variable {β γ : Type}

@[simp] theorem result_pure (value : β) : (pure value : Journaled β).result = value := rfl

@[simp] theorem entries_pure (value : β) : (pure value : Journaled β).entries = [] := rfl

@[simp] theorem result_bind (first : Journaled β) (next : β → Journaled γ) :
    (first >>= next).result = (next first.result).result := rfl

@[simp] theorem entries_bind (first : Journaled β) (next : β → Journaled γ) :
    (first >>= next).entries = first.entries ++ (next first.result).entries := rfl

instance : LawfulMonad Journaled :=
  LawfulMonad.mk' Journaled
    (fun value => by simp [Functor.map])
    (fun _ _ => rfl)
    (fun _ _ _ => by simp [bind, List.append_assoc])

end Journaled

end FrameForest
