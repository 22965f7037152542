import SicAssembler.Notice

/-!
# Logged computations

A logged computation gives a result or fails, and keeps what it reported either way. A step is an
operation on a state that leaves a state behind even when it is refused.
-/

namespace SicAssembler

universe u

/-- A result or a failure, with what was reported on the way. -/
structure Logged (ε : Type) (α : Type u) where
  log : List Notice
  result : Except ε α

namespace Logged

variable {ε δ : Type} {α β : Type u}

/-- Goes on with the result; a failure ends the computation. -/
protected def bind (x : Logged ε α) (f : α → Logged ε β) : Logged ε β :=
  match x.result with
  | .ok a => ⟨x.log ++ (f a).log, (f a).result⟩
  | .error e => ⟨x.log, .error e⟩

instance : Monad (Logged ε) where
  pure a := ⟨[], .ok a⟩
  bind := Logged.bind

def note (n : Notice) : Logged ε PUnit := ⟨[n], .ok ⟨⟩⟩

def noteIf (c : Bool) (n : Notice) : Logged ε PUnit := if c then note n else pure ⟨⟩

def fail (e : ε) : Logged ε α := ⟨[], .error e⟩

def ofExcept (x : Except ε α) : Logged ε α := ⟨[], x⟩

def mapError (f : ε → δ) (x : Logged ε α) : Logged δ α := ⟨x.log, x.result.mapError f⟩

@[simp] theorem log_pure (a : α) : (pure a : Logged ε α).log = [] := rfl

@[simp] theorem result_pure (a : α) : (pure a : Logged ε α).result = .ok a := rfl

theorem bind_of_ok {x : Logged ε α} {a : α} (h : x.result = .ok a) (f : α → Logged ε β) :
    x >>= f = ⟨x.log ++ (f a).log, (f a).result⟩ := by
  simp [bind, Logged.bind, h]

theorem bind_of_error {x : Logged ε α} {e : ε} (h : x.result = .error e) (f : α → Logged ε β) :
    x >>= f = ⟨x.log, .error e⟩ := by
  simp [bind, Logged.bind, h]

/-- A chain succeeds exactly when both its parts do. -/
theorem result_bind_eq_ok {x : Logged ε α} {f : α → Logged ε β} {b : β} :
    (x >>= f).result = .ok b ↔ ∃ a, x.result = .ok a ∧ (f a).result = .ok b := by
  cases h : x.result with
  | ok a => simp [bind_of_ok h]
  | error e => simp [bind_of_error h]

/-- A chain fails exactly when its first part does or the second part does after it. -/
theorem result_bind_eq_error {x : Logged ε α} {f : α → Logged ε β} {e : ε} :
    (x >>= f).result = .error e ↔
      x.result = .error e ∨ ∃ a, x.result = .ok a ∧ (f a).result = .error e := by
  cases h : x.result with
  | ok a => simp [bind_of_ok h]
  | error e => simp [bind_of_error h]

@[simp] theorem result_note (n : Notice) : (note n : Logged ε PUnit).result = .ok ⟨⟩ := rfl

@[simp] theorem result_noteIf (c : Bool) (n : Notice) :
    (noteIf c n : Logged ε PUnit).result = .ok ⟨⟩ := by
  cases c <;> rfl

@[simp] theorem result_fail (e : ε) : (fail e : Logged ε α).result = .error e := rfl

@[simp] theorem result_ofExcept (x : Except ε α) : (ofExcept x).result = x := rfl

@[simp] theorem result_mapError_eq_ok {f : ε → δ} {x : Logged ε α} {a : α} :
    (x.mapError f).result = .ok a ↔ x.result = .ok a := by
  obtain ⟨log, result⟩ := x
  cases result with
  | ok b =>
    constructor
    · rintro ⟨⟩
      rfl
    · rintro ⟨⟩
      rfl
  | error e =>
    constructor
    · rintro ⟨⟩
    · rintro ⟨⟩

theorem result_mapError_eq_error {f : ε → δ} {x : Logged ε α} {d : δ} :
    (x.mapError f).result = .error d ↔ ∃ e, x.result = .error e ∧ d = f e := by
  obtain ⟨log, result⟩ := x
  cases result with
  | ok a =>
    constructor
    · rintro ⟨⟩
    · rintro ⟨e, ⟨⟩, -⟩
  | error e =>
    constructor
    · rintro ⟨⟩
      exact ⟨e, rfl, rfl⟩
    · rintro ⟨_, ⟨⟩, rfl⟩
      rfl

private theorem bind_pure_id (x : Logged ε α) : (x >>= fun a => pure (id a)) = x := by
  obtain ⟨log, result⟩ := x
  cases result with
  | ok a => rw [bind_of_ok rfl]; simp
  | error e => rw [bind_of_error rfl]

private theorem pure_bind_apply (a : α) (f : α → Logged ε β) : pure a >>= f = f a := by
  rw [bind_of_ok (result_pure a)]
  simp

private theorem bind_bind {γ : Type u} (x : Logged ε α) (f : α → Logged ε β)
    (g : β → Logged ε γ) : x >>= f >>= g = x >>= fun a => f a >>= g := by
  obtain ⟨log, result⟩ := x
  cases result with
  | error e => rw [bind_of_error rfl, bind_of_error rfl, bind_of_error rfl]
  | ok a =>
    rw [bind_of_ok rfl f, bind_of_ok rfl fun a => f a >>= g]
    cases h : (f a).result with
    | ok b => rw [bind_of_ok h g, bind_of_ok rfl g, List.append_assoc]
    | error e => rw [bind_of_error h g, bind_of_error rfl g]

instance : LawfulMonad (Logged ε) :=
  LawfulMonad.mk' _ bind_pure_id pure_bind_apply bind_bind

theorem exists_of_any {x : Logged ε α} {P : α → Bool} (h : x.result.toOption.any P = true) :
    ∃ a, x.result = .ok a ∧ P a = true := by
  cases hx : x.result with
  | error e => simp [hx, Except.toOption] at h
  | ok a => exact ⟨a, rfl, by simpa [hx, Except.toOption] using h⟩

end Logged

/-- What an operation on a state leaves behind: the state, what was reported, and the reason if
the operation was refused. -/
structure Step (σ ε : Type) where
  state : σ
  log : List Notice
  refusal : Option ε

namespace Step

variable {σ τ ε δ : Type}

def done (s : σ) : Step σ ε := ⟨s, [], none⟩

def refused (s : σ) (e : ε) : Step σ ε := ⟨s, [], some e⟩

/-- Goes on with the state unless the operation was refused. -/
def andThen (x : Step σ ε) (f : σ → Step σ ε) : Step σ ε :=
  match x.refusal with
  | none => ⟨(f x.state).state, x.log ++ (f x.state).log, (f x.state).refusal⟩
  | some _ => x

def mapRefusal (f : ε → δ) (x : Step σ ε) : Step σ δ := ⟨x.state, x.log, x.refusal.map f⟩

/-- Performs operations in order until one is refused. -/
def each {α : Type} (f : σ → α → Step σ ε) (s : σ) : List α → Step σ ε
  | [] => done s
  | x :: rest => (f s x).andThen fun s => each f s rest

/-- The state after a success, as a logged computation. -/
def toLogged (x : Step σ ε) : Logged ε σ :=
  ⟨x.log, match x.refusal with | none => .ok x.state | some e => .error e⟩

@[simp] theorem result_toLogged_eq_ok {x : Step σ ε} {s : σ} :
    x.toLogged.result = .ok s ↔ x.refusal = none ∧ x.state = s := by
  cases h : x.refusal with
  | none => simp [toLogged, h]
  | some e => simp [toLogged, h]

theorem refusal_andThen_eq_none {x : Step σ ε} {f : σ → Step σ ε} :
    (x.andThen f).refusal = none ↔ x.refusal = none ∧ (f x.state).refusal = none := by
  cases h : x.refusal with
  | none => simp [andThen, h]
  | some e => simp [andThen, h]

theorem andThen_of_refused {x : Step σ ε} (h : x.refusal ≠ none) (f : σ → Step σ ε) :
    x.andThen f = x := by
  obtain ⟨e, he⟩ := Option.ne_none_iff_exists'.mp h
  simp [andThen, he]

theorem state_andThen {x : Step σ ε} (h : x.refusal = none) (f : σ → Step σ ε) :
    (x.andThen f).state = (f x.state).state := by
  simp [andThen, h]

end Step

end SicAssembler
