import Mathlib.Data.List.Basic

/-!
# Error values

The host reports failures as `anyhow` errors: a chain of messages, outermost
context first. `{error}` shows the outermost message only and `{error:#}` joins
the whole chain, and the daemon uses both.
-/
namespace IdfRemote

/-- Messages from the outermost context to the root cause. -/
structure Error where
  chain : List String
deriving DecidableEq, Repr

namespace Error

def msg (message : String) : Error := ⟨[message]⟩

def context (error : Error) (message : String) : Error := ⟨message :: error.chain⟩

/-- The `{error}` rendering. -/
def display (error : Error) : String := error.chain.headD ""

/-- The `{error:#}` rendering. -/
def displayChain (error : Error) : String := ": ".intercalate error.chain

end Error

abbrev Result (α : Type) := Except Error α

/-- The `ensure!` macro. -/
def ensure (condition : Bool) (message : String) : Result Unit :=
  if condition then .ok () else .error (.msg message)

@[simp] theorem ensure_true (message : String) : ensure true message = .ok () := rfl

@[simp] theorem ensure_false (message : String) :
    ensure false message = .error (.msg message) := rfl

@[simp] theorem ensure_eq_ok {condition : Bool} {message : String} {u : Unit} :
    ensure condition message = .ok u ↔ condition = true := by
  cases condition <;> simp [ensure]

theorem ensure_bind {α : Type} {a : α} {condition : Bool} {message : String} {next : Result α}
    (h : (ensure condition message >>= fun _ => next) = .ok a) :
    condition = true ∧ next = .ok a := by
  cases condition
  · cases h
  · exact ⟨rfl, h⟩

theorem result_bind {α β : Type} {a : α} {x : Result β} {f : β → Result α}
    (h : (x >>= f) = .ok a) : ∃ b, x = .ok b ∧ f b = .ok a := by
  cases x with
  | error e => cases h
  | ok b => exact ⟨b, rfl, h⟩

end IdfRemote
