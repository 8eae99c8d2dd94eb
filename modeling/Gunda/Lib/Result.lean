import Mathlib.Data.List.Forall2

/-!
# Results

What success of a composed computation says about its parts.
-/
namespace Gunda.Lib

variable {ε α β : Type}
variable {first : Except ε α} {result : β} {condition : Prop} {list : List α} {results : List β}

/-- A sequence succeeds only through its first part. -/
theorem bind_ok {next : α → Except ε β} (h : (first >>= next) = .ok result) :
    ∃ value, first = .ok value ∧ next value = .ok result := by
  cases first with
  | error e => cases h
  | ok value => exact ⟨value, rfl, h⟩

theorem ok_bind (value : α) (next : α → Except ε β) : (.ok value >>= next) = next value := rfl

theorem map_ok {f : α → β} (h : first.map f = .ok result) :
    ∃ value, first = .ok value ∧ f value = result := by
  cases first with
  | error e => cases h
  | ok value => exact ⟨value, rfl, Except.ok.inj h⟩

theorem mapError_error {ε' : Type} {f : ε → ε'} {error : ε'} (h : first.mapError f = .error error) :
    ∃ e, first = .error e := by
  cases first with
  | error e => exact ⟨e, rfl⟩
  | ok value => cases h

theorem mapError_ok {ε' : Type} {f : ε → ε'} {value : α} (h : first.mapError f = .ok value) :
    first = .ok value := by
  cases first with
  | error e => cases h
  | ok found =>
    cases h
    rfl

/-- A conditional succeeds through the branch its condition picks. -/
theorem ite_ok [Decidable condition] {second : Except ε α} {result : α}
    (h : (if condition then first else second) = .ok result) :
    condition ∧ first = .ok result ∨ ¬ condition ∧ second = .ok result := by
  by_cases holds : condition
  · rw [if_pos holds] at h
    exact .inl ⟨holds, h⟩
  · rw [if_neg holds] at h
    exact .inr ⟨holds, h⟩

/-- A guard that throws lets only its other branch succeed. -/
theorem throw_unless_ok [Decidable condition] {e : ε} {next : Except ε β}
    (h : (if condition then .error e else next) = .ok result) :
    ¬ condition ∧ next = .ok result := by
  split at h
  · cases h
  · exact ⟨‹_›, h⟩

theorem guard_ok [Decidable condition] {e : ε} {next : Unit → Except ε β}
    (h : (if condition then (throw e : Except ε Unit) >>= next else next ()) = .ok result) :
    ¬ condition ∧ next () = .ok result := by
  split at h
  · cases h
  · exact ⟨‹_›, h⟩

theorem forall₂_getElem? {relation : α → β → Prop} {left : List α} {right : List β}
    (both : List.Forall₂ relation left right) {index : Nat} {b : β}
    (at_ : right[index]? = some b) : ∃ a, left[index]? = some a ∧ relation a b := by
  induction both generalizing index with
  | nil => cases at_
  | cons first _ ih =>
    cases index with
    | zero =>
      cases at_
      exact ⟨_, rfl, first⟩
    | succ index => exact ih at_

variable {f : α → Except ε β}

theorem mapM_ok (h : list.mapM f = .ok results) :
    List.Forall₂ (fun a b => f a = .ok b) list results := by
  induction list generalizing results with
  | nil =>
    cases h
    exact .nil
  | cons first rest ih =>
    rw [List.mapM_cons] at h
    obtain ⟨value, ok, h⟩ := bind_ok h
    obtain ⟨values, others, h⟩ := bind_ok h
    cases h
    exact .cons ok (ih others)

/-- What every result is read as, when each is read as the image of its argument. -/
theorem mapM_ok_filterMap {γ : Type} {read : β → Option γ} {image : α → γ}
    (h : list.mapM f = .ok results)
    (reads : ∀ a ∈ list, ∀ b, f a = .ok b → read b = some (image a)) :
    results.filterMap read = list.map image := by
  have pairs := mapM_ok h
  clear h
  induction pairs with
  | nil => rfl
  | cons first _ ih =>
    rw [List.filterMap_cons_some (reads _ List.mem_cons_self _ first), List.map_cons,
      ih fun a member => reads a (List.mem_cons_of_mem _ member)]

theorem mapM_ok_mem (h : list.mapM f = .ok results) (member : result ∈ results) :
    ∃ value ∈ list, f value = .ok result := by
  have pairs := mapM_ok h
  clear h
  induction pairs with
  | nil => cases member
  | cons first _ ih =>
    rcases List.mem_cons.mp member with rfl | later
    · exact ⟨_, List.mem_cons_self, first⟩
    · obtain ⟨value, inside, ok⟩ := ih later
      exact ⟨value, List.mem_cons_of_mem _ inside, ok⟩

/-- What every step keeps, a whole run keeps. -/
theorem foldlM_keeps {step : β → α → Except ε β} {P : β → Prop}
    (keeps : ∀ state item next, P state → step state item = .ok next → P next) {state final : β}
    (start : P state) (h : list.foldlM step state = .ok final) : P final := by
  induction list generalizing state with
  | nil =>
    cases h
    exact start
  | cons item list ih =>
    rw [List.foldlM_cons] at h
    obtain ⟨next, stepped, h⟩ := bind_ok h
    exact ih (keeps state item next start stepped) h

theorem optionMapM_ok {found : Option α} {result : Option β} (h : found.mapM f = .ok result) :
    (found = none ∧ result = none) ∨
      ∃ value image, found = some value ∧ result = some image ∧ f value = .ok image := by
  cases found with
  | none =>
    cases h
    exact .inl ⟨rfl, rfl⟩
  | some value =>
    obtain ⟨image, ok, same⟩ := map_ok (f := some) h
    exact .inr ⟨value, image, rfl, same.symm, ok⟩

theorem toOption_eq_some {result : Except ε α} {value : α} (h : result.toOption = some value) :
    result = .ok value := by
  cases result with
  | error e => cases h
  | ok other =>
    cases h
    rfl

theorem toOption_any_ok {result : Except ε α} {p : α → Bool}
    (h : result.toOption.any p = true) : ∃ value, result = .ok value ∧ p value = true := by
  cases result with
  | error e => cases h
  | ok value => exact ⟨value, rfl, h⟩

end Gunda.Lib
