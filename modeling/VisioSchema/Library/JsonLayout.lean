import Mathlib.Data.List.Lex
import Mathlib.Data.List.Sort
import VisioSchema.Library.Json

/-!
# JSON with spaces

`json.dump` with an indent and sorted keys.  A layout says what spaces stand before the items at a
depth and behind a colon; `dumps` is the layout without any.
-/

namespace VisioSchema.Library.Json

variable {F : Type*}

/-! ## Layouts -/

/-- The spaces of a text. -/
structure Layout where
  gap : ℕ → Text
  colon : Text
  gap_space : ∀ depth, ∀ c ∈ gap depth, isSpace c = true
  colon_space : ∀ c ∈ colon, isSpace c = true

/-- `separators=(",", ":")`. -/
def compact : Layout where
  gap _ := []
  colon := []
  gap_space _ _ hc := absurd hc List.not_mem_nil
  colon_space _ hc := absurd hc List.not_mem_nil

/-- `indent=n`. -/
def indented (n : ℕ) : Layout where
  gap depth := '\n' :: List.replicate (n * depth) ' '
  colon := [' ']
  gap_space depth c hc := by
    rcases List.mem_cons.mp hc with rfl | hc
    · rfl
    · rw [List.eq_of_mem_replicate hc]
      rfl
  colon_space c hc := by
    rw [List.mem_singleton.mp hc]
    rfl

mutual

/-- A value at some depth. -/
def write (layout : Layout) (floats : Floats F) : ℕ → Json F → Text
  | _, .null => ['n', 'u', 'l', 'l']
  | _, .bool true => ['t', 'r', 'u', 'e']
  | _, .bool false => ['f', 'a', 'l', 's', 'e']
  | _, .int n => intText n
  | _, .real x => floats.text x
  | _, .string s => quote s
  | _, .array [] => ['[', ']']
  | depth, .array (v :: rest) =>
      '[' :: (layout.gap (depth + 1) ++
        (write layout floats (depth + 1) v ++ writeItems layout floats depth rest))
  | _, .object [] => ['{', '}']
  | depth, .object ((k, v) :: rest) =>
      '{' :: (layout.gap (depth + 1) ++ (quote k ++ ':' :: (layout.colon ++
        (write layout floats (depth + 1) v ++ writeFields layout floats depth rest))))

/-- The items behind the first, and the bracket. -/
def writeItems (layout : Layout) (floats : Floats F) : ℕ → List (Json F) → Text
  | depth, [] => layout.gap depth ++ [']']
  | depth, v :: rest =>
      ',' :: (layout.gap (depth + 1) ++
        (write layout floats (depth + 1) v ++ writeItems layout floats depth rest))

/-- The entries behind the first, and the brace. -/
def writeFields (layout : Layout) (floats : Floats F) : ℕ → List (Text × Json F) → Text
  | depth, [] => layout.gap depth ++ ['}']
  | depth, (k, v) :: rest =>
      ',' :: (layout.gap (depth + 1) ++ (quote k ++ ':' :: (layout.colon ++
        (write layout floats (depth + 1) v ++ writeFields layout floats depth rest))))

end

mutual

theorem dumps_eq_write (floats : Floats F) :
    ∀ (depth : ℕ) (v : Json F), dumps floats v = write compact floats depth v
  | _, .null => rfl
  | _, .bool true => rfl
  | _, .bool false => rfl
  | _, .int _ => rfl
  | _, .real _ => rfl
  | _, .string _ => rfl
  | _, .array [] => rfl
  | depth, .array (v :: rest) => by
      rw [dumps, write, dumps_eq_write floats (depth + 1) v, dumpsItems_eq_write floats depth rest]
      rfl
  | _, .object [] => rfl
  | depth, .object ((k, v) :: rest) => by
      rw [dumps, write, dumps_eq_write floats (depth + 1) v,
        dumpsFields_eq_write floats depth rest]
      rfl

theorem dumpsItems_eq_write (floats : Floats F) :
    ∀ (depth : ℕ) (items : List (Json F)),
      dumpsItems floats items = writeItems compact floats depth items
  | _, [] => rfl
  | depth, v :: rest => by
      rw [dumpsItems, writeItems, dumps_eq_write floats (depth + 1) v,
        dumpsItems_eq_write floats depth rest]
      rfl

theorem dumpsFields_eq_write (floats : Floats F) :
    ∀ (depth : ℕ) (fields : List (Text × Json F)),
      dumpsFields floats fields = writeFields compact floats depth fields
  | _, [] => rfl
  | depth, (k, v) :: rest => by
      rw [dumpsFields, writeFields, dumps_eq_write floats (depth + 1) v,
        dumpsFields_eq_write floats depth rest]
      rfl

end

/-! ## Sorted keys -/

/-- What Python orders keys by. -/
def keyPoints (k : Text) : List ℕ := k.map Char.toNat

/-- `sorted(dct.items())`, of a dictionary. -/
def sortEntries (fields : List (Text × Json F)) : List (Text × Json F) :=
  fields.insertionSort fun a b => keyPoints a.1 ≤ keyPoints b.1

mutual

/-- The objects of a value, their keys sorted. -/
def sortKeys : Json F → Json F
  | .null => .null
  | .bool b => .bool b
  | .int n => .int n
  | .real x => .real x
  | .string s => .string s
  | .array items => .array (sortItems items)
  | .object fields => .object (sortEntries (sortFields fields))

def sortItems : List (Json F) → List (Json F)
  | [] => []
  | v :: rest => sortKeys v :: sortItems rest

def sortFields : List (Text × Json F) → List (Text × Json F)
  | [] => []
  | (k, v) :: rest => (k, sortKeys v) :: sortFields rest

end

/-- `json.dumps(v, indent=2, sort_keys=True)`. -/
def dumpsSorted (floats : Floats F) (v : Json F) : Text := write (indented 2) floats 0 (sortKeys v)

theorem sortItems_eq (items : List (Json F)) : sortItems items = items.map sortKeys := by
  induction items with
  | nil => rfl
  | cons v rest ih => rw [sortItems, ih, List.map_cons]

theorem sortFields_eq (fields : List (Text × Json F)) :
    sortFields fields = fields.map fun entry => (entry.1, sortKeys entry.2) := by
  induction fields with
  | nil => rfl
  | cons entry rest ih =>
      obtain ⟨k, v⟩ := entry
      rw [sortFields, ih, List.map_cons]

theorem sortEntries_perm (fields : List (Text × Json F)) : (sortEntries fields).Perm fields :=
  List.perm_insertionSort _ fields

end VisioSchema.Library.Json
