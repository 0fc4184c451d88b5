/-
Native methods: behaviour that is given by the machine and not by the
program, found by the qualified name of the module and the selector.
-/
import ObjectMachine.Machine.Basic

namespace ObjectMachine

/-- A native method. It gets the receiver and the arguments off the stack,
and pushes its answer or starts a frame that returns one. -/
structure Native where
  arity : Nat
  perform : World → ObjectId → List ObjectId → Action Unit

/-- Native methods by module and selector, each pair once. -/
abbrev Natives := List ((String × String) × Native)

namespace Natives

def get? (natives : Natives) (module selector : String) : Option Native :=
  natives.lookup (module, selector)

/-- Adds a native method, replacing the one in its place. -/
def register : Natives → String → String → Native → Natives
  | [], module, selector, native => [((module, selector), native)]
  | (key, old) :: rest, module, selector, native =>
    if key = (module, selector) then (key, native) :: rest
    else (key, old) :: register rest module selector native

end Natives

/-- A world with its native methods. -/
structure Engine extends World where
  natives : Natives

end ObjectMachine
