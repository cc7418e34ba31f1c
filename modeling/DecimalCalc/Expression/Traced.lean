/-
# Computations that leave a trace

A traced computation ends in a value or an error and leaves behind the events and the log records of
everything it did up to there.  In a sequence the second part runs only if the first one ends in a
value; the traces are joined.

The trace is returned whether or not there is a value.  This is what sets it apart from a state that
is lost on failure, and it is what theorems about failing evaluations need: that the events up to
the fault have been told.  Events and records are kept as two lists, since they go to different
readers; how the two were interleaved is not recorded, and nothing depends on it.

The three projections of a sequence are each given by a lemma, and these are what proofs calculate
with.  Sequences that only differ in how they are bracketed are equal, by the laws of a monad.

* `events_bind`, `log_bind`, `result_bind`: what a sequence leaves behind;
* the `LawfulMonad` instance: sequences may be regrouped.
-/
import DecimalCalc.Expression.Error
import DecimalCalc.Expression.Event
import DecimalCalc.Log

namespace DecimalCalc
namespace Expression

/-- A computation with its trace: what happened, what was logged, and how it ended. -/
structure Traced (α : Type) where
  events : List Event
  log : List LogRecord
  result : Except ExpressionError α

namespace Traced

variable {α β : Type}

/-- Ends at once, with nothing left behind.  Whether it ends in a value or in an error does not
matter. -/
def ofResult (result : Except ExpressionError α) : Traced α := ⟨[], [], result⟩

/-- Ends with an error about the expression's text, and has done nothing. -/
def malformed (cause : SyntaxError) : Traced α := ofResult (.error (.malformed cause))

/-- Goes on with the result of an operation on numbers, whose errors become errors of the
expression. -/
def ofNumber (result : Except NumberError α) : Traced α := ofResult (result.mapError .numeric)

/-- Tells that something happened.  It has no value and cannot fail. -/
def tell (event : Event) : Traced Unit := ⟨[event], [], .ok ()⟩

/-- Writes a log record, and tells no observer. -/
def write (record : LogRecord) : Traced Unit := ⟨[], [record], .ok ()⟩

/-- Runs the second computation if the first one ends in a value, and passes the value on.  The
trace of the first one is kept in either case. -/
protected def bind (x : Traced α) (f : α → Traced β) : Traced β :=
  match x.result with
  | .error e => ⟨x.events, x.log, .error e⟩
  | .ok a => ⟨x.events ++ (f a).events, x.log ++ (f a).log, (f a).result⟩

instance : Monad Traced where
  pure a := ofResult (.ok a)
  bind := Traced.bind

@[ext] theorem ext {x y : Traced α} (hevents : x.events = y.events) (hlog : x.log = y.log)
    (hresult : x.result = y.result) : x = y := by
  cases x; cases y; simp_all

@[simp] theorem pure_eq (a : α) : (pure a : Traced α) = ⟨[], [], .ok a⟩ := rfl

theorem bind_of_error {x : Traced α} {e : ExpressionError} (h : x.result = .error e)
    (f : α → Traced β) : x >>= f = ⟨x.events, x.log, .error e⟩ := by
  show Traced.bind x f = _
  simp [Traced.bind, h]

theorem bind_of_ok {x : Traced α} {a : α} (h : x.result = .ok a) (f : α → Traced β) :
    x >>= f = ⟨x.events ++ (f a).events, x.log ++ (f a).log, (f a).result⟩ := by
  show Traced.bind x f = _
  simp [Traced.bind, h]

theorem result_bind (x : Traced α) (f : α → Traced β) :
    (x >>= f).result = x.result >>= fun a => (f a).result := by
  cases h : x.result with
  | error e => rw [bind_of_error h]; rfl
  | ok a => rw [bind_of_ok h]; rfl

theorem events_bind (x : Traced α) (f : α → Traced β) :
    (x >>= f).events = x.events ++ (match x.result with | .error _ => [] | .ok a => (f a).events) := by
  cases h : x.result with
  | error e => rw [bind_of_error h, List.append_nil]
  | ok a => rw [bind_of_ok h]

theorem log_bind (x : Traced α) (f : α → Traced β) :
    (x >>= f).log = x.log ++ (match x.result with | .error _ => [] | .ok a => (f a).log) := by
  cases h : x.result with
  | error e => rw [bind_of_error h, List.append_nil]
  | ok a => rw [bind_of_ok h]

instance : LawfulMonad Traced := LawfulMonad.mk' Traced
  (by
    intro α x
    cases h : x.result with
    | error e => exact (bind_of_error h _).trans (Traced.ext rfl rfl h.symm)
    | ok a =>
      exact (bind_of_ok h _).trans
        (Traced.ext (List.append_nil _) (List.append_nil _) h.symm))
  (by
    intro α β a f
    exact bind_of_ok rfl f)
  (by
    intro α β γ x f g
    cases h : x.result with
    | error e => rw [bind_of_error h, bind_of_error h, bind_of_error rfl]
    | ok a =>
      rw [bind_of_ok h, bind_of_ok h]
      cases h' : (f a).result with
      | error e => rw [bind_of_error h', bind_of_error rfl]
      | ok b =>
        rw [bind_of_ok h', bind_of_ok rfl]
        exact Traced.ext (List.append_assoc ..) (List.append_assoc ..) rfl)

end Traced
end Expression
end DecimalCalc
