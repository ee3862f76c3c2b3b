import Mathlib.Tactic
import Mathlib.Data.List.TakeWhile

/-! An environment as the C library keeps it, a list of strings name=value of which the first one with a name
counts, and the partial function from names to values that it stands for. -/
namespace Environment

abbrev Text := List Char

/-- What stands before the first =, if there is one. -/
def nameOf (e : Text) : Option Text := if '=' ∈ e then some (e.takeWhile (· ≠ '=')) else none

def valueOf (e : Text) : Text := (e.dropWhile (· ≠ '=')).tail

def entry (name value : Text) : Text := name ++ '=' :: value

/-- The value of a name, which has no = in it. -/
def getenv (env : List Text) (name : Text) : Option Text :=
  if name = [] then none else (env.find? fun e => nameOf e = some name).map valueOf

/-- The first string with the name is replaced or kept; a new one comes to the end. -/
def add (replace : Bool) (name e : Text) : List Text → List Text
  | [] => [e]
  | x :: env =>
    if nameOf x = some name then (if replace then e :: env else x :: env) else x :: add replace name e env

/-- A string without = takes its name out of the environment. -/
def putenv (env : List Text) (e : Text) : List Text :=
  match nameOf e with
  | some name => add true name e env
  | none => env.filter fun x => nameOf x ≠ some e

/-- setenv() refuses what is not a name. -/
def setenv (env : List Text) (name value : Text) (overwrite : Bool) : Option (List Text) :=
  if name = [] ∨ '=' ∈ name then none else some (add overwrite name (entry name value) env)

/-- What is to be done to the function from names to values. -/
def put (replace : Bool) (s : Text → Option Text) (name value : Text) : Text → Option Text :=
  Function.update s name (some (if replace then value else (s name).getD value))

section Entries
variable {name other value : Text} {env : List Text} {replace : Bool}

lemma takeWhile_entry (hname : '=' ∉ name) (value : Text) : (entry name value).takeWhile (· ≠ '=') = name := by
  have hall : ∀ c ∈ name, (decide (c ≠ '=')) = true := fun c hc => by
    simpa using fun heq : c = '=' => hname (heq ▸ hc)
  rw [entry, List.takeWhile_append_of_pos hall]
  simp

@[simp] lemma nameOf_entry (hname : '=' ∉ name) (value : Text) : nameOf (entry name value) = some name := by
  rw [nameOf, if_pos (by simp [entry]), takeWhile_entry hname]

@[simp] lemma valueOf_entry (hname : '=' ∉ name) (value : Text) : valueOf (entry name value) = value := by
  have hall : ∀ c ∈ name, (decide (c ≠ '=')) = true := fun c hc => by
    simpa using fun heq : c = '=' => hname (heq ▸ hc)
  rw [valueOf, entry, List.dropWhile_append_of_pos hall]
  simp

lemma getenv_cons (x : Text) (env : List Text) (hne : name ≠ []) :
    getenv (x :: env) name = if nameOf x = some name then some (valueOf x) else getenv env name := by
  simp only [getenv, if_neg hne, List.find?_cons]
  by_cases hx : nameOf x = some name <;> simp [hx]

lemma getenv_add_self (hne : name ≠ []) {e : Text} (he : nameOf e = some name) :
    getenv (add replace name e env) name =
      some (if replace then valueOf e else (getenv env name).getD (valueOf e)) := by
  induction env with
  | nil => cases replace <;> simp [add, getenv, hne, he]
  | cons x env ih =>
    by_cases hx : nameOf x = some name
    · cases replace <;> simp [add, getenv_cons, hne, hx, he]
    · simp [add, getenv_cons, hne, hx, ih]

lemma getenv_add_ne (hother : other ≠ name) {e : Text} (he : nameOf e = some name) :
    getenv (add replace name e env) other = getenv env other := by
  have hname : name ≠ other := Ne.symm hother
  by_cases hnil : other = []
  · simp [getenv, hnil]
  · induction env with
    | nil => simp [add, getenv, he, hname]
    | cons x env ih =>
      by_cases hx : nameOf x = some name
      · cases replace <;> simp [add, getenv_cons, hnil, hx, he, hname]
      · simp [add, getenv_cons, hnil, hx, ih]

/-- The operations on the list do to the function what they are to do. -/
theorem getenv_add (hne : name ≠ []) (hname : '=' ∉ name) :
    getenv (add replace name (entry name value) env) = put replace (getenv env) name value := by
  funext other
  by_cases hother : other = name
  · subst hother
    rw [getenv_add_self hne (nameOf_entry hname value), valueOf_entry hname, put, Function.update_self]
  · rw [getenv_add_ne hother (nameOf_entry hname value), put, Function.update_of_ne hother]

theorem getenv_putenv (hne : name ≠ []) (hname : '=' ∉ name) :
    getenv (putenv env (entry name value)) = put true (getenv env) name value := by
  rw [putenv, nameOf_entry hname]
  exact getenv_add hne hname

end Entries

section Loops
variable {ι : Type*} {key : ι → Text} {replace : Bool}

/-- A loop of puts leaves the other names alone. -/
lemma foldl_put_of_ne {l : List ι} {name : Text} (h : ∀ i ∈ l, key i ≠ name) (value : ι → Text)
    (s : Text → Option Text) : l.foldl (fun s i => put replace s (key i) (value i)) s name = s name := by
  induction l generalizing s with
  | nil => rfl
  | cons i l ih =>
    rw [List.foldl_cons, ih fun j hj => h j (List.mem_cons_of_mem i hj), put,
      Function.update_of_ne (Ne.symm (h i List.mem_cons_self))]

/-- Where its names are different each of them gets its own value. -/
lemma foldl_put_of_mem (hkey : Function.Injective key) {l : List ι} (hl : l.Nodup) {i : ι} (hi : i ∈ l)
    (value : ι → Text) (s : Text → Option Text) :
    l.foldl (fun s i => put replace s (key i) (value i)) s (key i) =
      some (if replace then value i else (s (key i)).getD (value i)) := by
  induction l generalizing s with
  | nil => cases hi
  | cons j l ih =>
    obtain ⟨hj, hl⟩ := List.nodup_cons.mp hl
    rw [List.foldl_cons]
    by_cases hij : i = j
    · subst hij
      rw [foldl_put_of_ne (fun k hk heq => hj ((hkey heq : k = i) ▸ hk)), put, Function.update_self]
    · rw [ih hl ((List.mem_cons.mp hi).resolve_left hij), put, Function.update_of_ne (hkey.ne hij)]

end Loops

end Environment
