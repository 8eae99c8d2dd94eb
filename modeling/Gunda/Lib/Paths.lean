import Gunda.Lib.Fields
import Gunda.Lib.Slices

/-!
# Paths as texts

The bytes of a text, the last dot of a name and the components of a path.
-/
namespace Gunda.Lib

theorem prefix_of_not_mem {α : Type} {pattern a b : List α} {c : α} (absent : c ∉ pattern)
    (h : pattern <+: a ++ c :: b) : pattern <+: a := by
  induction a generalizing pattern with
  | nil =>
    cases pattern with
    | nil => exact List.nil_prefix
    | cons d pattern =>
      have first := (List.cons_prefix_cons.mp h).1
      exact absurd (first ▸ List.mem_cons_self) absent
  | cons d a ih =>
    cases pattern with
    | nil => exact List.nil_prefix
    | cons e pattern =>
      rw [List.mem_cons, not_or] at absent
      obtain ⟨first, later⟩ := List.cons_prefix_cons.mp h
      exact List.cons_prefix_cons.mpr ⟨first, ih absent.2 later⟩

theorem takeWhile_append_stop {α : Type} {kind : α → Bool} {a b : List α} {c : α}
    (stop : kind c = false) : (a ++ c :: b).takeWhile kind = a.takeWhile kind := by
  induction a with
  | nil =>
    rw [List.nil_append, List.takeWhile_cons_of_neg (by rw [stop]; exact Bool.false_ne_true)]
    rfl
  | cons d a ih =>
    rw [List.cons_append, List.takeWhile_cons, List.takeWhile_cons, ih]

namespace Text

/-! ## Bytes -/

theorem utf8ByteSize_ofList (text : Text) : (String.ofList text).utf8ByteSize = byteLength text := by
  induction text with
  | nil => rfl
  | cons c text ih =>
    have split : String.ofList (c :: text) = String.singleton c ++ String.ofList text := by
      rw [← String.toList_inj, String.toList_append, String.toList_ofList, String.toList_ofList,
        String.toList_singleton]
      rfl
    rw [split, String.utf8ByteSize_append, String.utf8ByteSize_singleton, ih]
    rfl

theorem utf8ByteSize_eq (name : String) : name.utf8ByteSize = byteLength name.toList := by
  rw [← utf8ByteSize_ofList, String.ofList_toList]

theorem utf8Size_of_ascii {c : Char} (ascii : c.toNat < 128) : c.utf8Size = 1 := by
  unfold Char.utf8Size
  have low : c.val.toNat ≤ 0x7f := Nat.le_of_lt_succ ascii
  exact if_pos (UInt32.le_iff_toNat_le.mpr low)

theorem byteLength_ascii {text : Text} (ascii : ∀ c ∈ text, c.toNat < 128) :
    byteLength text = text.length := by
  induction text with
  | nil => rfl
  | cons c text ih =>
    rw [byteLength_cons, ih fun d member => ascii d (.tail _ member),
      utf8Size_of_ascii (ascii c (.head _)), List.length_cons, Nat.add_comm]

theorem length_le_byteLength (text : Text) : text.length ≤ byteLength text := by
  induction text with
  | nil => exact Nat.le_refl _
  | cons c text ih =>
    have some_byte := Char.utf8Size_pos c
    rw [byteLength_cons, List.length_cons]
    omega

/-! ## Components -/

theorem headD_splitAll (separator : Char) (text : Text) :
    (splitAll separator text).headD [] = text.takeWhile (· ≠ separator) := by
  induction text with
  | nil => rfl
  | cons c text ih =>
    unfold splitAll
    by_cases same : c = separator
    · rw [if_pos same, List.takeWhile_cons_of_neg (by simpa using same)]
      rfl
    · rw [if_neg same, List.takeWhile_cons_of_pos (by simpa using same), ← ih]
      cases parts : splitAll separator text with
      | nil => exact absurd parts (splitAll_ne_nil separator text)
      | cons part parts => rfl

def isComponent (part : Text) : Bool := part ≠ [] && part ≠ ['.']

/-- The components of a path: its root, and what lies between separators. Nothing, and a
single dot that is not in front, are no components. -/
def components (path : Text) : List Text :=
  let parts := splitAll '/' path
  (if path.head? = some '/' then [['/']] else (parts.take 1).filter (· ≠ [])) ++
    (parts.drop 1).filter isComponent

theorem components_snoc (path : Text) {name : Text} (plain : '/' ∉ name) (named : name ≠ [])
    (other : name ≠ ['.']) :
    components (path ++ '/' :: name) = components (path ++ ['/']) ++ [name] := by
  have absent : '/' ∉ ([] : Text) := List.not_mem_nil
  have head : (path ++ '/' :: name).head? = (path ++ ['/']).head? := by
    cases path <;> rfl
  have kept : [name].filter isComponent = [name] := by
    unfold isComponent
    simp only [ne_eq, named, other, not_false_eq_true, decide_true, Bool.and_self,
      List.filter_cons, if_true, List.filter_nil]
  have dropped : [[]].filter isComponent = [] := rfl
  have some_part := List.length_pos_of_ne_nil (splitAll_ne_nil '/' path)
  unfold components
  dsimp only
  rw [splitAll_snoc plain, splitAll_snoc absent, head, List.take_append_of_le_length some_part,
    List.take_append_of_le_length some_part, List.drop_append_of_le_length some_part,
    List.drop_append_of_le_length some_part, List.filter_append, List.filter_append, kept,
    dropped, List.append_nil, List.append_assoc]

theorem components_separator {path : Text} (filled : path ≠ []) :
    components (path ++ ['/']) = components path := by
  have absent : '/' ∉ ([] : Text) := List.not_mem_nil
  have head : (path ++ ['/']).head? = path.head? := by
    cases path with
    | nil => exact absurd rfl filled
    | cons c path => rfl
  have some_part := List.length_pos_of_ne_nil (splitAll_ne_nil '/' path)
  have dropped : [[]].filter isComponent = [] := rfl
  unfold components
  dsimp only
  rw [splitAll_snoc absent, head, List.take_append_of_le_length some_part,
    List.drop_append_of_le_length some_part, List.filter_append, dropped, List.append_nil]

theorem components_plain {name : Text} (plain : '/' ∉ name) (named : name ≠ []) :
    components name = [name] := by
  have head : name.head? ≠ some '/' := fun rooted => plain (List.mem_of_mem_head? rooted)
  unfold components
  dsimp only
  rw [splitAll_of_not_mem plain, if_neg head]
  simp only [List.take_succ_cons, List.take_nil, List.filter_cons, ne_eq, named,
    not_false_eq_true, decide_true, if_true, List.filter_nil, List.drop_succ_cons, List.drop_nil,
    List.append_nil]

end Text

end Gunda.Lib
