import Rollup.Error

/-!
Work that is done in atomic steps. A program has ended with an outcome, or it makes one request
and goes on according to the answer, so that the tree also tells what becomes of programs whose
steps interleave or fail, or that are given up between two steps.
-/

namespace Rollup

structure Interface where
  Request : Type
  Answer : Request → Type

/-- A tree of requests. Each request is answered with a value or fails. -/
inductive Program (I : Interface) (α : Type) where
  | result (outcome : Except Error α)
  | call (request : I.Request) (resume : Except Error (I.Answer request) → Program I α)

abbrev Handler (I : Interface) (σ : Type) :=
  (request : I.Request) → σ → Except Error (I.Answer request) × σ

namespace Program

variable {I J : Interface} {α β γ σ : Type}

def request (q : I.Request) : Program I (I.Answer q) := call q result

def fail (e : Error) : Program I α := result (.error e)

def bind : Program I α → (α → Program I β) → Program I β
  | result (.ok a), f => f a
  | result (.error e), _ => result (.error e)
  | call q resume, f => call q fun answer => (resume answer).bind f

def attempt : Program I α → Program I (Except Error α)
  | result outcome => result (.ok outcome)
  | call q resume => call q fun answer => (resume answer).attempt

instance : Monad (Program I) where
  pure a := result (.ok a)
  bind := bind

def run (handle : Handler I σ) : Program I α → σ → Except Error α × σ
  | result outcome, s => (outcome, s)
  | call q resume, s =>
    let (answer, s) := handle q s
    (resume answer).run handle s

/-- Replaces each request by a program over other requests. -/
def expand (f : (q : I.Request) → Program J (I.Answer q)) : Program I α → Program J α
  | result outcome => result outcome
  | call q resume => (f q).attempt.bind fun answer => (resume answer).expand f

@[simp] theorem pure_eq (a : α) : (pure a : Program I α) = result (.ok a) := rfl

@[simp] theorem bind_eq (p : Program I α) (f : α → Program I β) : p >>= f = p.bind f := rfl

theorem bind_pure (p : Program I α) : p.bind (fun a => result (.ok a)) = p := by
  induction p with
  | result outcome => cases outcome <;> rfl
  | call q resume ih => simp only [bind, ih]

theorem bind_assoc (p : Program I α) (f : α → Program I β) (g : β → Program I γ) :
    (p.bind f).bind g = p.bind fun a => (f a).bind g := by
  induction p with
  | result outcome => cases outcome <;> rfl
  | call q resume ih => simp only [bind, ih]

instance : LawfulMonad (Program I) :=
  LawfulMonad.mk' (Program I) bind_pure (fun _ _ => rfl) bind_assoc

@[simp] theorem run_result (handle : Handler I σ) (outcome : Except Error α) (s : σ) :
    (result outcome).run handle s = (outcome, s) := rfl

@[simp] theorem run_call (handle : Handler I σ) (q : I.Request)
    (resume : Except Error (I.Answer q) → Program I α) (s : σ) :
    (call q resume).run handle s = (resume (handle q s).1).run handle (handle q s).2 := rfl

theorem run_bind (handle : Handler I σ) (p : Program I α) (f : α → Program I β) (s : σ) :
    (p.bind f).run handle s =
      match p.run handle s with
      | (.ok a, s) => (f a).run handle s
      | (.error e, s) => (.error e, s) := by
  induction p generalizing s with
  | result outcome => cases outcome <;> rfl
  | call q resume ih => simp only [bind, run_call, ih]

theorem run_attempt (handle : Handler I σ) (p : Program I α) (s : σ) :
    p.attempt.run handle s = (.ok (p.run handle s).1, (p.run handle s).2) := by
  induction p generalizing s with
  | result outcome => rfl
  | call q resume ih => simp only [attempt, run_call, ih]

theorem run_expand (handle : Handler J σ) (f : (q : I.Request) → Program J (I.Answer q))
    (p : Program I α) (s : σ) :
    (p.expand f).run handle s = p.run (fun q s => (f q).run handle s) s := by
  induction p generalizing s with
  | result outcome => rfl
  | call q resume ih => simp only [expand, run_bind, run_attempt, ih, run_call]

end Program

end Rollup
