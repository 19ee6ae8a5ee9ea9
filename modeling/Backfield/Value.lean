import Backfield.Number
import Backfield.Text.Quoted

/-!
# Setting values

What a setting can hold: any value of a JSON document.  A value has a truth (nothing, zero
and whatever is empty count as false) and a text, which is what a message or a template
shows of it.
-/

namespace Backfield

inductive Value
  | null
  | bool (b : Bool)
  | number (n : Number)
  | text (s : String)
  | list (items : List Value)
  | object (entries : List (String × Value))
  deriving Repr

namespace Value

/-- A number by the name of those that are whole, as most are. -/
@[match_pattern] abbrev int (n : Number) : Value := number n

/-! ## Equality -/

mutual

/-- The two values are equal. -/
def same : Value → Value → Bool
  | null, null => true
  | bool a, bool b => a == b
  | number a, number b => a == b
  | text a, text b => a == b
  | list xs, list ys => sameItems xs ys
  | object xs, object ys => sameEntries xs ys
  | _, _ => false
termination_by structural a => a

def sameItems : List Value → List Value → Bool
  | [], [] => true
  | x :: xs, y :: ys => same x y && sameItems xs ys
  | _, _ => false
termination_by structural xs => xs

def sameEntries : List (String × Value) → List (String × Value) → Bool
  | [], [] => true
  | x :: xs, y :: ys => sameEntry x y && sameEntries xs ys
  | _, _ => false
termination_by structural xs => xs

def sameEntry : String × Value → String × Value → Bool
  | (k, x), (l, y) => k == l && same x y
termination_by structural x => x

end

mutual

theorem eq_of_same : ∀ a b : Value, same a b = true → a = b
  | null, b, h => by cases b <;> simp_all [same]
  | bool _, b, h => by cases b <;> simp_all [same]
  | number _, b, h => by cases b <;> simp_all [same]
  | text _, b, h => by cases b <;> simp_all [same]
  | list xs, b, h => by
    cases b <;> simp_all [same]
    exact eq_of_sameItems _ _ h
  | object xs, b, h => by
    cases b <;> simp_all [same]
    exact eq_of_sameEntries _ _ h

theorem eq_of_sameItems : ∀ xs ys : List Value, sameItems xs ys = true → xs = ys
  | [], ys, h => by cases ys <;> simp_all [sameItems]
  | x :: xs, ys, h => by
    cases ys with
    | nil => simp [sameItems] at h
    | cons y ys =>
      simp only [sameItems, Bool.and_eq_true] at h
      rw [eq_of_same x y h.1, eq_of_sameItems xs ys h.2]

theorem eq_of_sameEntries :
    ∀ xs ys : List (String × Value), sameEntries xs ys = true → xs = ys
  | [], ys, h => by cases ys <;> simp_all [sameEntries]
  | x :: xs, ys, h => by
    cases ys with
    | nil => simp [sameEntries] at h
    | cons y ys =>
      simp only [sameEntries, Bool.and_eq_true] at h
      rw [eq_of_sameEntry x y h.1, eq_of_sameEntries xs ys h.2]

theorem eq_of_sameEntry : ∀ x y : String × Value, sameEntry x y = true → x = y
  | (k, x), (l, y), h => by
    simp only [sameEntry, Bool.and_eq_true, beq_iff_eq] at h
    rw [h.1, eq_of_same x y h.2]

end

mutual

theorem same_self : ∀ a : Value, same a a = true
  | null => by simp [same]
  | bool _ => by simp [same]
  | number _ => by simp [same]
  | text _ => by simp [same]
  | list xs => by simp [same, sameItems_self xs]
  | object xs => by simp [same, sameEntries_self xs]

theorem sameItems_self : ∀ xs : List Value, sameItems xs xs = true
  | [] => by simp [sameItems]
  | x :: xs => by simp [sameItems, same_self x, sameItems_self xs]

theorem sameEntries_self : ∀ xs : List (String × Value), sameEntries xs xs = true
  | [] => by simp [sameEntries]
  | x :: xs => by simp [sameEntries, sameEntry_self x, sameEntries_self xs]

theorem sameEntry_self : ∀ x : String × Value, sameEntry x x = true
  | (k, x) => by simp [sameEntry, same_self x]

end

theorem same_iff {a b : Value} : same a b = true ↔ a = b :=
  ⟨eq_of_same a b, fun h => h ▸ same_self a⟩

instance : DecidableEq Value := fun _ _ => decidable_of_iff _ same_iff

instance : Inhabited Value := ⟨null⟩

/-! ## Truth and text -/

/-- A value counts as false if it is nothing, zero or empty. -/
def isTrue : Value → Bool
  | null => false
  | bool b => b
  | number n => n.isTrue
  | text s => s != ""
  | list items => !items.isEmpty
  | object entries => !entries.isEmpty

mutual

/-- A value inside a list or an object: text stands between quotes there. -/
def literal : Value → String
  | null => "None"
  | bool true => "True"
  | bool false => "False"
  | number n => n.text
  | text s => Text.quoted s
  | list items => "[" ++ ", ".intercalate (literals items) ++ "]"
  | object entries => "\x7b" ++ ", ".intercalate (entryLiterals entries) ++ "\x7d"
termination_by structural v => v

def literals : List Value → List String
  | [] => []
  | v :: rest => literal v :: literals rest
termination_by structural items => items

def entryLiterals : List (String × Value) → List String
  | [] => []
  | e :: rest => entryLiteral e :: entryLiterals rest
termination_by structural entries => entries

def entryLiteral : String × Value → String
  | (key, v) => Text.quoted key ++ ": " ++ literal v
termination_by structural e => e

end

/-- The text of a value: of text the text itself, of any other value its literal. -/
def display : Value → String
  | text s => s
  | v => v.literal

@[simp] theorem display_text (s : String) : display (text s) = s := rfl

/-- The entry of an object under a key. -/
def get? (key : String) : List (String × Value) → Option Value :=
  List.lookup key

/-- Sets a key of an object: a key that is there keeps its place. -/
def put (key : String) (v : Value) : List (String × Value) → List (String × Value)
  | [] => [(key, v)]
  | e :: rest => if e.1 == key then (key, v) :: rest else e :: put key v rest

end Value

end Backfield
