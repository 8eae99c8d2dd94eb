import Gunda.Lib.IsoMedia

/-!
# Trees of boxes

Boxes inside boxes, written innermost first and read back level by level, for any way to
close a box and any reader of one.
-/
namespace Gunda.Lib.IsoMedia

open Bytes

/-- A box with a payload of its own, or one that holds boxes. -/
inductive BoxTree where
  | leaf (name body : Bytes)
  | node (name : Bytes) (children : List BoxTree)

namespace BoxTree

def name : BoxTree → Bytes
  | leaf name _ => name
  | node name _ => name

/-! ## Writing -/

section

variable (close : Bytes → Bytes → Bytes)

mutual

/-- The payload of a box. -/
def body : BoxTree → Bytes
  | leaf _ body => body
  | node _ children => forest children

/-- Boxes one after another. -/
def forest : List BoxTree → Bytes
  | [] => []
  | first :: rest => close first.name (body first) ++ forest rest

end

theorem forest_eq_flatMap (trees : List BoxTree) :
    forest close trees = trees.flatMap fun tree => close tree.name (tree.body close) := by
  induction trees with
  | nil => rw [forest, List.flatMap_nil]
  | cons tree rest ih => rw [forest, ih, List.flatMap_cons]

end

/-! ## Shape -/

section

variable (containers : List Bytes)

mutual

/-- Four bytes name a box, and the name tells whether it holds boxes. -/
def Named : BoxTree → Prop
  | leaf name _ => name.length = 4 ∧ name ∉ containers
  | node name children => (name.length = 4 ∧ name ∈ containers) ∧ AllNamed children

def AllNamed : List BoxTree → Prop
  | [] => True
  | first :: rest => Named first ∧ AllNamed rest

end

mutual

/-- How deep the boxes of a tree are nested, a box alone counting for one. -/
def height : BoxTree → Nat
  | leaf _ _ => 1
  | node _ children => forestHeight children + 1

def forestHeight : List BoxTree → Nat
  | [] => 0
  | first :: rest => max (height first) (forestHeight rest)

end

variable {containers}

theorem Named.four {tree : BoxTree} (named : tree.Named containers) : tree.name.length = 4 := by
  cases tree with
  | leaf name body => exact named.1
  | node name children => exact named.1.1

theorem allNamed_iff {trees : List BoxTree} :
    AllNamed containers trees ↔ ∀ tree ∈ trees, tree.Named containers := by
  induction trees with
  | nil => simp [AllNamed]
  | cons tree rest ih => rw [AllNamed, ih, List.forall_mem_cons]

end

/-! ## Sizes -/

/-- A way to close a box whose size 32 bits hold. -/
structure Closes (close : Bytes → Bytes → Bytes) : Prop where
  length : ∀ {name : Bytes} (body : Bytes), name.length = 4 →
    (close name body).length = body.length + 8
  small : ∀ {name body : Bytes}, body.length + 8 < 2 ^ 32 → close name body = box name body

theorem box_closes : Closes box where
  length {name} body four := by
    simp only [box, List.length_append, be_length, four]
    omega
  small _ := rfl

section

variable {containers : List Bytes} {close : Bytes → Bytes → Bytes}

theorem Closes.body_length_le (closes : Closes close) {tree : BoxTree} {trees : List BoxTree}
    (member : tree ∈ trees) (named : AllNamed containers trees) :
    (tree.body close).length + 8 ≤ (forest close trees).length := by
  induction trees with
  | nil => cases member
  | cons first rest ih =>
    rw [forest, List.length_append, closes.length _ named.1.four]
    cases member with
    | head => exact Nat.le_add_right _ _
    | tail _ later =>
      have inside := ih later named.2
      omega

mutual

/-- What 32 bits hold the size of is written with its size. -/
theorem Closes.body_eq (closes : Closes close) (tree : BoxTree) (named : tree.Named containers)
    (fits : (tree.body close).length < 2 ^ 32) : tree.body close = tree.body box := by
  cases tree with
  | leaf name content => rfl
  | node name children => exact Closes.forest_eq closes children named.2 fits

theorem Closes.forest_eq (closes : Closes close) (trees : List BoxTree)
    (named : AllNamed containers trees) (fits : (forest close trees).length < 2 ^ 32) :
    forest close trees = forest box trees := by
  cases trees with
  | nil => rfl
  | cons first rest =>
    rw [forest, List.length_append, closes.length _ named.1.four] at fits
    rw [forest, forest, closes.small (by omega),
      Closes.body_eq closes first named.1 (by omega), Closes.forest_eq closes rest named.2 (by omega)]

end

end

/-! ## Reading -/

section

variable (next : Bytes → Option ((Bytes × Bytes) × Bytes)) (containers : List Bytes)
variable {trees : List BoxTree}

/-- Reads the boxes of a payload and, to a depth, those inside the ones that hold boxes. -/
def readForest : Nat → Bytes → List BoxTree
  | 0, _ => []
  | depth + 1, bytes => (repeatedly next bytes).map fun item =>
      if item.1 ∈ containers then node item.1 (readForest depth item.2) else leaf item.1 item.2

/-- A reader of one box at a time, that takes every box of a size that 32 bits hold. -/
structure Takes : Prop where
  shorter : ∀ {bytes first rest}, next bytes = some (first, rest) → rest.length < bytes.length
  nothing : next [] = none
  box : ∀ {name body : Bytes}, name.length = 4 → body.length + 8 < 2 ^ 32 → ∀ rest,
    next (IsoMedia.box name body ++ rest) = some ((name, body), rest)

variable {next} {containers}

/-- The boxes of a payload are those written to it, one after another up to its end. -/
theorem Takes.repeatedly_forest (takes : Takes next) (named : AllNamed containers trees)
    (fits : (forest IsoMedia.box trees).length < 2 ^ 32) :
    repeatedly next (forest IsoMedia.box trees) =
      trees.map fun tree => (tree.name, tree.body IsoMedia.box) := by
  induction trees with
  | nil => exact repeatedly_of_none takes.nothing
  | cons first rest ih =>
    rw [forest, List.length_append, box_closes.length _ named.1.four] at fits
    rw [forest, repeatedly_of_next takes.shorter (takes.box named.1.four (by omega) _),
      ih named.2 (by omega), List.map_cons]

theorem height_le {tree : BoxTree} (member : tree ∈ trees) :
    tree.height ≤ forestHeight trees := by
  induction trees with
  | nil => cases member
  | cons first rest ih =>
    rw [forestHeight]
    cases member with
    | head => exact Nat.le_max_left _ _
    | tail _ later => exact (ih later).trans (Nat.le_max_right _ _)

theorem height_pos (tree : BoxTree) : 0 < tree.height := by
  cases tree with
  | leaf name body => exact Nat.one_pos
  | node name children => exact Nat.succ_pos _

/-- A forest is read back. -/
theorem Takes.readForest_forest (takes : Takes next) {depth : Nat}
    (named : AllNamed containers trees) (deep : forestHeight trees ≤ depth)
    (fits : (forest IsoMedia.box trees).length < 2 ^ 32) :
    readForest next containers depth (forest IsoMedia.box trees) = trees := by
  induction depth generalizing trees with
  | zero =>
    cases trees with
    | nil => rfl
    | cons first rest =>
      have low := height_le (List.mem_cons_self (a := first) (l := rest))
      have some_ := first.height_pos
      omega
  | succ depth ih =>
    rw [readForest, takes.repeatedly_forest named fits, List.map_map]
    refine (List.map_congr_left fun tree member => ?_).trans (List.map_id trees)
    have smaller := box_closes.body_length_le member named
    have low := (height_le member).trans deep
    have own := allNamed_iff.mp named tree member
    cases tree with
    | leaf name content => exact if_neg own.2
    | node name children =>
      rw [height] at low
      have inner : readForest next containers depth (forest IsoMedia.box children) = children := by
        apply ih own.2 (Nat.le_of_succ_le_succ low)
        change (forest IsoMedia.box children).length + 8 ≤ _ at smaller
        omega
      exact (if_pos own.1.2).trans (congrArg (node name) inner)

end

end BoxTree

end Gunda.Lib.IsoMedia
