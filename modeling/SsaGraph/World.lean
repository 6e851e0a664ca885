import SsaGraph.Request

/-!
# Worlds

A world is a number of contexts. Handles of one context may be passed to another, which will
recognise them; so what can happen to a context depends on the handles that the others give out.
-/

namespace SsaGraph

/-- A number of contexts, numbered from 1 in creation order. -/
structure World where
  /-- The contexts. -/
  contexts : Array Context

namespace World

/-- The world without contexts. -/
def empty : World := ⟨#[]⟩

/-- The number that the next context gets. Numbers are counted without a bound; a program that
counts in words of 32 bits agrees as long as fewer than 2^32 contexts are created, and stops there.
-/
def nextId (w : World) : ContextId := ⟨w.contexts.size + 1⟩

/-- Creates a context. -/
def newContext (w : World) : World := ⟨w.contexts.push (.initial w.nextId)⟩

/-- The world with one context. -/
def initial : World := empty.newContext

/-- The context that a handle carries the number of. -/
def owner? (w : World) (id : ContextId) : Option Context := w.contexts.find? (·.id = id)

/-- Takes a value for a handle of a class. A value that is alive in its own context must belong to
the class; one that is not can no longer be checked. -/
def handle (w : World) (cls : Class) (v : Value) : Except Fault (Handle cls) :=
  match w.owner? v.ctx with
  | some c => if c.graph.contains v then c.narrow cls v else .ok ⟨v⟩
  | none => .ok ⟨v⟩

/-- Carries out a request on the context at a position; where there is none, nothing happens. -/
def request (index : Nat) (r : Request) : Run World (Option Answer) := fun w =>
  match w.contexts[index]? with
  | none => .ok none w
  | some c =>
    match r.run c with
    | .ok a c => .ok (some a) ⟨w.contexts.setIfInBounds index c⟩
    | .error e c => .error e ⟨w.contexts.setIfInBounds index c⟩

end World

end SsaGraph
