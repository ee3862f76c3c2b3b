import Mathlib.Tactic

/-! Programs that keep a log of what they do, and that have no value where their behaviour is undefined. -/

/-- A computation with its log. -/
structure Logged (ε α : Type) where
  log : List ε
  value : Option α
  deriving DecidableEq

namespace Logged
variable {ε α β : Type}

/-- One entry of the log. -/
def emit (e : ε) : Logged ε Unit := ⟨[e], some ()⟩

/-- A value that is defined or not. -/
def defined (a : Option α) : Logged ε α := ⟨[], a⟩

/-- Nothing happens behind undefined behaviour. -/
instance : Monad (Logged ε) where
  pure a := ⟨[], some a⟩
  bind m f :=
    match m.value with
    | none => ⟨m.log, none⟩
    | some a => ⟨m.log ++ (f a).log, (f a).value⟩

@[simp] lemma emit_log (e : ε) : (emit e).log = [e] := rfl
@[simp] lemma emit_value (e : ε) : (emit e).value = some () := rfl
@[simp] lemma defined_log (a : Option α) : (defined a : Logged ε α).log = [] := rfl
@[simp] lemma defined_value (a : Option α) : (defined a : Logged ε α).value = a := rfl
@[simp] lemma pure_log (a : α) : (pure a : Logged ε α).log = [] := rfl

variable {m : Logged ε α} {f : α → Logged ε β} {P : ε → Prop} {a : α} {b : β}

lemma bind_value : (m >>= f).value = m.value.bind fun a => (f a).value := by
  cases h : m.value <;> simp [bind, h]

lemma bind_value_of_some (h : m.value = some a) : (m >>= f).value = (f a).value := by
  rw [bind_value, h, Option.bind_some]

lemma bind_value_of_none (h : m.value = none) : (m >>= f).value = none := by
  rw [bind_value, h, Option.bind_none]

/-- The program comes to a value, and all entries of its log meet the condition. -/
structure Returns (P : ε → Prop) (m : Logged ε α) (a : α) : Prop where
  log : ∀ e ∈ m.log, P e
  value : m.value = some a

lemma returns_pure (a : α) : Returns P (pure a) a := ⟨by simp, rfl⟩

lemma returns_emit {e : ε} (h : P e) : Returns P (emit e) () := ⟨by simpa using h, rfl⟩

lemma returns_defined (a : α) : Returns P (defined (some a)) a := ⟨by simp, rfl⟩

lemma Returns.bind (hm : Returns P m a) (hf : Returns P (f a) b) : Returns P (m >>= f) b := by
  refine ⟨fun e he => ?_, (bind_value_of_some hm.value).trans hf.value⟩
  have hlog : (m >>= f).log = m.log ++ (f a).log := by simp [Bind.bind, hm.value]
  rw [hlog, List.mem_append] at he
  exact he.elim (hm.log e) (hf.log e)

end Logged
