import Linkage.Error

/-
# Results with the events on the way to them

A computation that may fail tells what happens on the way.  The events of a failure are those before
it: a failure ends the computation, and what was told stays told.
-/

namespace Linkage

/-- A result with the events on the way to it.  Events are reported also if there is no result. -/
structure Observed (ε β : Type) where
  events : Array ε
  result : Except Error β

namespace Observed

variable {ε β δ : Type}

/-- A result without events. -/
def of (result : Except Error β) : Observed ε β :=
  ⟨#[], result⟩

/-- A failure before the first event. -/
def refuse (e : Error) : Observed ε β :=
  of (.error e)

def note (event : ε) : Observed ε Unit :=
  ⟨#[event], .ok ()⟩

/-- Continues with the result, if there is one, and adds the events of the continuation. -/
@[inline] def bind (x : Observed ε β) (f : β → Observed ε δ) : Observed ε δ :=
  match x.result with
  | .error e => ⟨x.events, .error e⟩
  | .ok b =>
    let y := f b
    ⟨x.events ++ y.events, y.result⟩

instance : Monad (Observed ε) where
  pure b := of (.ok b)
  bind := bind

/-- Continues with the result, which adds no events. -/
def andThen (x : Observed ε β) (f : β → Except Error δ) : Observed ε δ :=
  ⟨x.events, x.result >>= f⟩

def mapEvents (f : ε → δ) (x : Observed ε β) : Observed δ β :=
  ⟨x.events.map f, x.result⟩

end Observed

end Linkage
