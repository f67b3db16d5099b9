import ReactiveNotebook.Script.Value

/-!
# JSON values

An object keeps its fields in the order of the text, with repeated names. Integers within the range of words
of 64 bits, signed or not, are kept exactly; all other numbers are doubles.
-/
namespace ReactiveNotebook

inductive Json where
  | null
  | bool (b : Bool)
  | int (n : Int)
  | float (x : Double)
  | str (s : String)
  | arr (items : List Json)
  | obj (fields : List (String × Json))

instance : Inhabited Json := ⟨.null⟩

end ReactiveNotebook
