/-!
# PenaltySimplex.Logged

A value together with the events noted on the way to it, in order. Computations of the library
say what they did by returning events; nothing is printed while they run.
-/

namespace PenaltySimplex

structure Logged (ε α : Type) where
  value : α
  events : List ε
deriving Repr

namespace Logged

variable {ε α β : Type}

protected def pure (a : α) : Logged ε α := ⟨a, []⟩

protected def bind (x : Logged ε α) (f : α → Logged ε β) : Logged ε β :=
  let y := f x.value
  ⟨y.value, x.events ++ y.events⟩

instance : Monad (Logged ε) where
  pure := Logged.pure
  bind := Logged.bind

def note (e : ε) : Logged ε Unit := ⟨(), [e]⟩

def noteIf (condition : Bool) (e : ε) : Logged ε Unit := ⟨(), if condition then [e] else []⟩

def noteAll (es : List ε) : Logged ε Unit := ⟨(), es⟩

@[simp] theorem value_pure (a : α) : (pure a : Logged ε α).value = a := rfl

@[simp] theorem value_bind (x : Logged ε α) (f : α → Logged ε β) :
    (x >>= f).value = (f x.value).value := rfl

@[simp] theorem value_map (f : α → β) (x : Logged ε α) : (f <$> x).value = f x.value := rfl

@[simp] theorem events_pure (a : α) : (pure a : Logged ε α).events = [] := rfl

@[simp] theorem events_bind (x : Logged ε α) (f : α → Logged ε β) :
    (x >>= f).events = x.events ++ (f x.value).events := rfl

@[simp] theorem events_note (e : ε) : (note e).events = [e] := rfl

end Logged

end PenaltySimplex
