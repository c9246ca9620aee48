import Mathlib.Control.Basic

namespace CloudLabs.Interaction

-- A program over the effects `E`: a tree that says which effect comes next and
-- how the program goes on from each answer. Taking and releasing the one mutex
-- of the process are constructors of their own, so that the critical sections
-- of a program are known without knowing its effects.
inductive Program (E : Type) (R : E → Type) (α : Type) : Type where
  | ret (value : α)
  | op (effect : E) (next : R effect → Program E R α)
  | acquire (next : Program E R α)
  | release (next : Program E R α)

namespace Program

variable {E : Type} {R : E → Type} {α β γ : Type}

def bind (program : Program E R α) (rest : α → Program E R β) : Program E R β :=
  match program with
  | .ret value => rest value
  | .op effect next => .op effect fun answer => (next answer).bind rest
  | .acquire next => .acquire (next.bind rest)
  | .release next => .release (next.bind rest)

instance : Monad (Program E R) where
  pure := .ret
  bind := .bind

-- The body of a scope that holds a lock guard.
def critical (body : Program E R α) : Program E R α :=
  .acquire (body.bind fun value => .release (.ret value))

theorem bind_ret (program : Program E R α) : program.bind .ret = program := by
  induction program with
  | ret value => rfl
  | op effect next ih => exact congrArg (Program.op effect) (funext ih)
  | acquire next ih => exact congrArg Program.acquire ih
  | release next ih => exact congrArg Program.release ih

theorem bind_assoc (program : Program E R α) (first : α → Program E R β)
    (second : β → Program E R γ) :
    (program.bind first).bind second = program.bind fun value => (first value).bind second := by
  induction program with
  | ret value => rfl
  | op effect next ih => exact congrArg (Program.op effect) (funext ih)
  | acquire next ih => exact congrArg Program.acquire ih
  | release next ih => exact congrArg Program.release ih

instance : LawfulMonad (Program E R) :=
  LawfulMonad.mk' _ (fun program => bind_ret program) (fun _ _ => rfl) bind_assoc

@[simp] theorem bind_eq (program : Program E R α) (rest : α → Program E R β) :
    program >>= rest = program.bind rest := rfl

@[simp] theorem pure_eq (value : α) : (pure value : Program E R α) = .ret value := rfl

@[simp] theorem ret_bind (value : α) (rest : α → Program E R β) :
    (Program.ret value : Program E R α).bind rest = rest value := rfl

@[simp] theorem op_bind (effect : E) (next : R effect → Program E R α)
    (rest : α → Program E R β) :
    (Program.op effect next).bind rest = .op effect fun answer => (next answer).bind rest := rfl

-- All effects of the program are of this kind, and it leaves the mutex alone.
def Within (kind : E → Prop) : Program E R α → Prop
  | .ret _ => True
  | .op effect next => kind effect ∧ ∀ answer, (next answer).Within kind
  | .acquire _ | .release _ => False

theorem Within.bind {kind : E → Prop} {program : Program E R α} {rest : α → Program E R β}
    (h : program.Within kind) (hrest : ∀ value, (rest value).Within kind) :
    (program.bind rest).Within kind := by
  induction program with
  | ret value => exact hrest value
  | op effect next ih => exact ⟨h.1, fun answer => ih answer (h.2 answer)⟩
  | acquire next ih => exact h.elim
  | release next ih => exact h.elim

theorem Within.mono {kind kind' : E → Prop} {program : Program E R α} (h : program.Within kind)
    (himp : ∀ effect, kind effect → kind' effect) : program.Within kind' := by
  induction program with
  | ret value => trivial
  | op effect next ih => exact ⟨himp effect h.1, fun answer => ih answer (h.2 answer)⟩
  | acquire next ih => exact h.elim
  | release next ih => exact h.elim

-- The program takes the mutex only while it does not have it, and ends without it.
def Balanced (locked : Bool) : Program E R α → Prop
  | .ret _ => locked = false
  | .op _ next => ∀ answer, (next answer).Balanced locked
  | .acquire next => locked = false ∧ next.Balanced true
  | .release next => locked = true ∧ next.Balanced false

theorem Balanced.bind {locked : Bool} {program : Program E R α} {rest : α → Program E R β}
    (h : program.Balanced locked) (hrest : ∀ value, (rest value).Balanced false) :
    (program.bind rest).Balanced locked := by
  induction program generalizing locked with
  | ret value =>
      obtain rfl : locked = false := h
      exact hrest value
  | op effect next ih => exact fun answer => ih answer (h answer)
  | acquire next ih => exact ⟨h.1, ih h.2⟩
  | release next ih => exact ⟨h.1, ih h.2⟩

-- A program without the mutex may run with it and without it.
theorem Within.bind_balanced {kind : E → Prop} {locked : Bool} {program : Program E R α}
    {rest : α → Program E R β} (h : program.Within kind) (hrest : ∀ value, (rest value).Balanced locked) :
    (program.bind rest).Balanced locked := by
  induction program with
  | ret value => exact hrest value
  | op effect next ih => exact fun answer => ih answer (h.2 answer)
  | acquire next ih => exact h.elim
  | release next ih => exact h.elim

theorem Within.balanced {kind : E → Prop} {program : Program E R α} (h : program.Within kind) :
    program.Balanced false := by
  have hret : (program.bind .ret).Balanced false := h.bind_balanced fun _ => rfl
  rwa [bind_ret] at hret

theorem Within.critical_balanced {kind : E → Prop} {body : Program E R α} (h : body.Within kind) :
    (critical body).Balanced false :=
  ⟨rfl, h.bind_balanced fun _ => ⟨rfl, rfl⟩⟩

-- The effect a program is about to carry out, if that is its next step.
def next? : Program E R α → Option E
  | .op effect _ => some effect
  | _ => none

end Program

end CloudLabs.Interaction
