/-!
# Clients

A client is what one thread does to a state that it shares with others: it changes the state at once, or
waits until the state is ready for it. Between any two of these, other clients may act.
-/

namespace Interlock

inductive Client (σ ρ : Type) where
  | done (result : ρ)
  /-- Change the state and go on by what it was before. -/
  | act (change : σ → σ) (next : σ → Client σ ρ)
  | wait (ready : σ → Bool) (next : Client σ ρ)

namespace Client

variable {σ ρ τ : Type}

def bind : Client σ ρ → (ρ → Client σ τ) → Client σ τ
  | .done r, f => f r
  | .act change next, f => .act change fun s => (next s).bind f
  | .wait ready next, f => .wait ready (next.bind f)

instance : Monad (Client σ) where
  pure := .done
  bind := .bind

def modifyGet (f : σ → ρ × σ) : Client σ ρ := .act (fun s => (f s).2) fun s => .done (f s).1

def modify (f : σ → σ) : Client σ Unit := .act f fun _ => .done ()

def query (f : σ → ρ) : Client σ ρ := .act id fun s => .done (f s)

def waitFor (ready : σ → Bool) : Client σ Unit := .wait ready (.done ())

def result? : Client σ ρ → Option ρ
  | .done r => some r
  | _ => none

def step? (s : σ) : Client σ ρ → Option (σ × Client σ ρ)
  | .done _ => none
  | .act change next => some (change s, next s)
  | .wait ready next => if ready s then some (s, next) else none

end Client

end Interlock
