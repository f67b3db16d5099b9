import ReactiveNotebook.Store.Slot
import ReactiveNotebook.Script.Display
import ReactiveNotebook.Decimal.Fixed

/-!
# How values are shown to a reader

A double is shown with no places when it is an integer of moderate size and with two places otherwise. All
other values are shown by their display text, and a slot with a fault by a marker.
-/
namespace ReactiveNotebook.Format

open ReactiveNotebook.Script (Value)

/-- The marker of a double that is no number. -/
def nanMarker : String := "#NAN!"

def infiniteMarker : String := "#INF!"

/-- The marker of a slot with a fault. -/
def errorMarker : String := "#ERR!"

/-- The text of a double with a fixed number of places, or a marker. -/
def fixedText (x : Double) (places : Nat) : String :=
  match Decimal.decode x with
  | .nan => nanMarker
  | .infinite _ => infiniteMarker
  | .finite .. => (Decimal.fixed? x places).getD ""

def numberText (x : Double) : String :=
  if x.floor == x && x.abs < 1e10 then fixedText x 0 else fixedText x 2

def valueText : Value → String
  | .float x => numberText x
  | v => v.displayText

def slotText : Slot → String
  | .undefined => ""
  | .value v => valueText v
  | .error _ => errorMarker

end ReactiveNotebook.Format
