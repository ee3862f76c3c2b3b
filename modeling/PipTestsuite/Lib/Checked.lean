import Mathlib.Tactic

/-! Programs that check the result of each call and stop with a code at the first bad one, and the
rules for what holds where such a program ends. -/
namespace Checked
variable {ε α β : Type}

/-- The program goes on unless the condition holds. -/
def check (cond : Bool) (code : ε) : Except ε Unit := if cond then .error code else .ok ()

/-- The program stops early with a code that meets abort, or ends with a value that meets post. -/
def Ends (m : Except ε α) (abort : ε → Prop) (post : α → Prop) : Prop :=
  match m with
  | .error code => abort code
  | .ok a => post a

/-- A program that ends with a code ends with it as if it had stopped there. -/
def mainStatus : Except ε ε → ε
  | .error code => code
  | .ok code => code

variable {m : Except ε α} {abort : ε → Prop} {post post' : α → Prop}

theorem Ends.pure {a : α} (h : post a) : Ends (pure a : Except ε α) abort post := h

theorem Ends.bind {f : α → Except ε β} {final : β → Prop} (hm : Ends m abort post)
    (hf : ∀ a, post a → Ends (f a) abort final) : Ends (m >>= f) abort final := by
  cases m with
  | error code => exact hm
  | ok a => exact hf a hm

theorem Ends.check {cond : Bool} {code : ε} (h : cond = true → abort code) :
    Ends (check cond code) abort fun _ => cond = false := by
  cases cond with
  | true => exact h rfl
  | false => exact rfl

theorem Ends.check_bind {cond : Bool} {code : ε} {f : Unit → Except ε α} (h : cond = true → abort code)
    (hf : cond = false → Ends (f ()) abort post) : Ends (Checked.check cond code >>= f) abort post :=
  (Ends.check h).bind fun _ hcond => hf hcond

theorem Ends.mono (h : Ends m abort post) (hpost : ∀ a, post a → post' a) : Ends m abort post' := by
  cases m with
  | error code => exact h
  | ok a => exact hpost a h

theorem Ends.mainStatus {m : Except ε ε} {abort post : ε → Prop} (h : Ends m abort post) :
    abort (mainStatus m) ∨ post (mainStatus m) := by
  cases m with
  | error code => exact .inl h
  | ok code => exact .inr h

/-- A loop keeps what its body keeps. -/
theorem Ends.foldlM {f : β → α → Except ε β} {inv : β → Prop} (l : List α)
    (hf : ∀ b, ∀ a ∈ l, inv b → Ends (f b a) abort inv) {b : β} (hb : inv b) :
    Ends (l.foldlM f b) abort inv := by
  induction l generalizing b with
  | nil => exact hb
  | cons a l ih =>
    rw [List.foldlM_cons]
    refine (hf b a (by simp) hb).bind fun b' hb' => ?_
    exact ih (fun b a ha => hf b a (by simp [ha])) hb'

@[simp] theorem check_eq_ok {cond : Bool} {code : ε} : check cond code = .ok () ↔ cond = false := by
  cases cond <;> simp [check]

theorem pure_eq_ok {a b : α} : (pure a : Except ε α) = .ok b ↔ b = a := by
  simp [pure, Except.pure, eq_comm]

theorem bind_eq_ok {m : Except ε Unit} {f : Unit → Except ε β} {b : β} :
    (m >>= f) = .ok b ↔ m = .ok () ∧ f () = .ok b := by
  cases m with
  | error code => simp [bind, Except.bind]
  | ok a => simp [bind, Except.bind]

/-- A loop of checks comes to its end if each of them passes. -/
theorem forM_eq_ok {l : List α} {f : α → Except ε Unit} :
    forM l f = .ok () ↔ ∀ a ∈ l, f a = .ok () := by
  induction l with
  | nil => simp [pure, Except.pure]
  | cons a l ih => rw [List.forM_cons, bind_eq_ok, ih, List.forall_mem_cons]

/-- A loop of checks that have one code stops with this code or comes to its end. -/
theorem forM_ok_or {l : List α} {f : α → Except ε Unit} {code : ε} (h : ∀ a ∈ l, f a = .ok () ∨ f a = .error code) :
    forM l f = .ok () ∨ forM l f = .error code := by
  induction l with
  | nil => exact .inl rfl
  | cons a l ih =>
    rw [List.forM_cons]
    obtain ha | ha := h a List.mem_cons_self
    · rw [ha]
      exact ih fun b hb => h b (List.mem_cons_of_mem a hb)
    · rw [ha]
      exact .inr rfl

/-- The calls of a loop that makes one in each round and hands its variable on. -/
def calls {γ : Type} (call : β → α → γ) (next : β → α → β) : β → List α → List γ
  | _, [] => []
  | b, a :: l => call b a :: calls call next (next b a) l

/-- What holds of a call depending only on its round holds of all calls if it does in each round. -/
theorem forall_calls_iff {γ : Type} {call : β → α → γ} {next : β → α → β} {P : γ → Prop} {Q : α → Prop}
    (h : ∀ b a, P (call b a) ↔ Q a) {b : β} {l : List α} : (∀ c ∈ calls call next b l, P c) ↔ ∀ a ∈ l, Q a := by
  induction l generalizing b with
  | nil => simp [calls]
  | cons a l ih => rw [calls, List.forall_mem_cons, List.forall_mem_cons, h, ih]

/-- Such a loop comes to its end if each of its calls is accepted. -/
theorem foldlM_eq_ok {γ : Type} {f : β → α → Except ε β} {call : β → α → γ} {next : β → α → β} {accepted : γ → Prop}
    (hf : ∀ b a b', f b a = .ok b' ↔ accepted (call b a) ∧ b' = next b a) {l : List α} {b b' : β} :
    l.foldlM f b = .ok b' ↔ (∀ c ∈ calls call next b l, accepted c) ∧ b' = l.foldl next b := by
  induction l generalizing b with
  | nil => simp [calls, pure_eq_ok]
  | cons a l ih =>
    rw [List.foldlM_cons, calls, List.forall_mem_cons, List.foldl_cons]
    cases hfa : f b a with
    | error code =>
      have hnot : ¬ accepted (call b a) := fun h => by
        rw [(hf b a (next b a)).mpr ⟨h, rfl⟩] at hfa
        cases hfa
      simp [bind, Except.bind, hnot]
    | ok b₁ =>
      obtain ⟨hok, rfl⟩ := (hf b a b₁).mp hfa
      rw [and_iff_right hok]
      exact ih

end Checked
